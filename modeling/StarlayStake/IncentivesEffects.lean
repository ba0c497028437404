/-
What each entry point of the incentives controller does, when it does not
revert: one equivalence per function.

All of them settle one user of one asset at a time (`settleAsset`), at what
the asset says its balance and supply are. `handleAction` settles the
caller as an asset; a claim settles a list, entry by entry (`claimStep`,
one call each of a run that fails as a whole), and pays.
-/
import StarlayStake.IncentivesController
import StarlayStake.Lib.Ledger

namespace StarlayStake

open Ledger (credit)
open Outcome (bind_ok_iff pure_ok_iff)

namespace DistributionManager

variable {D T : Nat} {user : Address} {n n' : Nat} {assets assets' : Address → AssetData} {stake : UserStakeInput}
  {stakes : List UserStakeInput}

/-! ## The loop of a claim -/

/-- One turn of the loop of `claimRewards`. -/
def claimStep (DISTRIBUTION_END timestamp : Nat) (user : Address) (stake : UserStakeInput)
    (p : Nat × (Address → AssetData)) : Except String (Nat × (Address → AssetData)) := do
  let settled ← settleAsset DISTRIBUTION_END timestamp user stake.stakedByUser stake.totalStaked
    (p.2 stake.underlyingAsset)
  let accruedRewards ← SafeMath.add p.1 settled.1
  return (accruedRewards, Function.update p.2 stake.underlyingAsset settled.2)

theorem claimStep_ok_iff :
    claimStep D T user stake (n, assets) = .ok (n', assets') ↔
      ∃ r a, settleAsset D T user stake.stakedByUser stake.totalStaked (assets stake.underlyingAsset) = .ok (r, a) ∧
        n + r < 2 ^ 256 ∧ n' = n + r ∧ assets' = Function.update assets stake.underlyingAsset a := by
  simp only [claimStep, bind_ok_iff, SafeMath.add_ok_iff, pure_ok_iff, Prod.mk.injEq, Prod.exists]
  constructor
  · rintro ⟨r, a, h, _, ⟨hfits, rfl⟩, rfl, rfl⟩; exact ⟨r, a, h, hfits, rfl, rfl⟩
  · rintro ⟨r, a, h, hfits, rfl, rfl⟩; exact ⟨r, a, h, _, ⟨hfits, rfl⟩, rfl, rfl⟩

/-- A claim takes its turns one after the other, or fails as a whole. -/
theorem claimRewards_eq :
    claimRewards D T user stakes assets = Runs.transact (claimStep D T user) (0, assets) stakes := by
  simp only [claimRewards, Runs.transact, updateUserAssetInternal_eq, bind_assoc, pure_bind]
  rfl

/-- The same of the loop of `getUnclaimedRewards`, which stores nothing. -/
def viewStep (DISTRIBUTION_END timestamp : Nat) (user : Address) (assets : Address → AssetData) (stake : UserStakeInput)
    (accruedRewards : Nat) : Except String Nat := do
  let assetConfig := assets stake.underlyingAsset
  let assetIndex ← getAssetIndex DISTRIBUTION_END timestamp assetConfig.index assetConfig.emissionPerSecond
    assetConfig.lastUpdateTimestamp stake.totalStaked
  let rewards ← getRewards stake.stakedByUser assetIndex (assetConfig.users user)
  SafeMath.add accruedRewards rewards

theorem getUnclaimedRewards_eq :
    getUnclaimedRewards D T user assets stakes = Runs.transact (viewStep D T user assets) 0 stakes := rfl

theorem viewStep_ok_iff :
    viewStep D T user assets stake n = .ok n' ↔
      ∃ i r, getAssetIndex D T (assets stake.underlyingAsset).index (assets stake.underlyingAsset).emissionPerSecond
          (assets stake.underlyingAsset).lastUpdateTimestamp stake.totalStaked = .ok i ∧
        getRewards stake.stakedByUser i ((assets stake.underlyingAsset).users user) = .ok r ∧
        n + r < 2 ^ 256 ∧ n' = n + r := by
  simp only [viewStep, bind_ok_iff, SafeMath.add_ok_iff]
  constructor
  · rintro ⟨i, hi, r, hr, hfits, rfl⟩; exact ⟨i, r, hi, hr, hfits, rfl⟩
  · rintro ⟨i, r, hi, hr, hfits, rfl⟩; exact ⟨i, hi, r, hr, hfits, rfl⟩

end DistributionManager

/-! ## The entry points -/

namespace IncentivesController

open DistributionManager (settleAsset updateUserAssetInternal_eq)

variable {W : Type} {D : Deployment W} {C : IncentivesDeployment W} {m : Msg} {v : Version} {σ σ' : System W}
  {user dst : Address} {amount unclaimed n T : Nat} {stake : Bool}

theorem handleAction_ok_iff {userBalance totalSupply : Nat} :
    handleAction C m user userBalance totalSupply σ = .ok σ' ↔
      ∃ r a, settleAsset C.DISTRIBUTION_END m.timestamp user userBalance totalSupply (σ.assets m.sender) =
          .ok (r, a) ∧ (r ≠ 0 → σ.usersUnclaimedRewards user + r < 2 ^ 256) ∧
        σ' = { σ with
          assets := Function.update σ.assets m.sender a
          usersUnclaimedRewards := credit σ.usersUnclaimedRewards user r } := by
  have hbook : ∀ {r : Nat} {assets : Address → AssetData},
      (if r ≠ 0 then (do
          let rewards ← SafeMath.add (σ.usersUnclaimedRewards user) r
          return ({ σ with
            assets, usersUnclaimedRewards := Function.update σ.usersUnclaimedRewards user rewards } : System W))
        else .ok { σ with assets }) = .ok σ' ↔ (r ≠ 0 → σ.usersUnclaimedRewards user + r < 2 ^ 256) ∧
          σ' = { σ with assets, usersUnclaimedRewards := credit σ.usersUnclaimedRewards user r } := by
    intro r assets
    by_cases hr : r = 0
    · subst hr
      simp only [ne_eq, not_true_eq_false, if_false, Except.ok.injEq, false_implies, true_and, Ledger.credit_zero]
      exact eq_comm
    · simp only [ne_eq, hr, not_false_eq_true, if_true, bind_ok_iff, SafeMath.add_ok_iff, pure_ok_iff, true_implies]
      constructor
      · rintro ⟨_, ⟨hfits, rfl⟩, rfl⟩; exact ⟨hfits, rfl⟩
      · rintro ⟨hfits, rfl⟩; exact ⟨_, ⟨hfits, rfl⟩, rfl⟩
  simp only [handleAction, updateUserAssetInternal_eq, bind_assoc, pure_bind, bind_ok_iff, Prod.exists]
  constructor
  · rintro ⟨r, a, h, h'⟩
    obtain ⟨hfits, rfl⟩ := hbook.1 h'
    exact ⟨r, a, h, hfits, rfl⟩
  · rintro ⟨r, a, h, hfits, rfl⟩
    exact ⟨r, a, h, hbook.2 ⟨hfits, rfl⟩⟩

theorem configureAssets_ok_iff {inputs : List AssetConfigInput} :
    configureAssets C m inputs σ = .ok σ' ↔
      m.sender = C.EMISSION_MANAGER ∧
        ∃ assets, inputs.foldlM (DistributionManager.configureAsset C.DISTRIBUTION_END m.timestamp) σ.assets =
            .ok assets ∧ σ' = { σ with assets } := by
  simp only [configureAssets, DistributionManager.configureAssets_ok_iff, bind_ok_iff, pure_ok_iff]
  constructor
  · rintro ⟨assets, ⟨hm, h⟩, rfl⟩; exact ⟨hm, assets, h, rfl⟩
  · rintro ⟨hm, assets, h, rfl⟩; exact ⟨assets, ⟨hm, h⟩, rfl⟩

/-- The end of a claim, when `unclaimed` can be claimed. -/
def payUnclaimed (D : Deployment W) (C : IncentivesDeployment W) (m : Msg) (v : Version) (amount : Nat) (dst : Address)
    (stake : Bool) (unclaimed : Nat) (σ : System W) : Except String (Nat × System W) :=
  if unclaimed = 0 then .ok (0, σ)
  else do
    let paid ← payRewards D C m v (min amount unclaimed) dst stake σ.staked
    return (paid.1, { σ with
      staked := paid.2
      usersUnclaimedRewards :=
        Function.update σ.usersUnclaimedRewards m.sender (unclaimed - min amount unclaimed) })

theorem payUnclaimed_ok_iff :
    payUnclaimed D C m v amount dst stake unclaimed σ = .ok (n, σ') ↔
      unclaimed = 0 ∧ n = 0 ∧ σ' = σ ∨
        unclaimed ≠ 0 ∧ ∃ s, payRewards D C m v (min amount unclaimed) dst stake σ.staked = .ok (n, s) ∧
          σ' = { σ with
            staked := s
            usersUnclaimedRewards :=
              Function.update σ.usersUnclaimedRewards m.sender (unclaimed - min amount unclaimed) } := by
  unfold payUnclaimed
  split
  · next h => simp [h, eq_comm]
  · next h =>
    simp only [bind_ok_iff, pure_ok_iff, Prod.mk.injEq, Prod.exists, h, false_and, false_or, ne_eq, not_false_eq_true,
      true_and]
    constructor
    · rintro ⟨n, s, h, rfl, rfl⟩; exact ⟨s, h, rfl⟩
    · rintro ⟨s, h, rfl⟩; exact ⟨_, s, h, rfl, rfl⟩

/-- Paying changes no asset. -/
theorem assets_of_payUnclaimed (h : payUnclaimed D C m v amount dst stake unclaimed σ = .ok (n, σ')) :
    σ'.assets = σ.assets := by
  rcases payUnclaimed_ok_iff.1 h with ⟨-, -, rfl⟩ | ⟨-, s, -, rfl⟩ <;> rfl

theorem claimRewards_ok_iff {assets : List Address} :
    claimRewards D C m v assets amount dst stake σ = .ok (n, σ') ↔
      amount = 0 ∧ n = 0 ∧ σ' = σ ∨
        amount ≠ 0 ∧ ∃ stakes r assets', userState C assets m.sender σ.staked.world = .ok stakes ∧
          DistributionManager.claimRewards C.DISTRIBUTION_END m.timestamp m.sender stakes σ.assets =
            .ok (r, assets') ∧
          (r ≠ 0 → σ.usersUnclaimedRewards m.sender + r < 2 ^ 256) ∧
          payUnclaimed D C m v amount dst stake (σ.usersUnclaimedRewards m.sender + r)
            { σ with assets := assets' } = .ok (n, σ') := by
  have hmin : ∀ unclaimed, (if amount > unclaimed then unclaimed else amount) = min amount unclaimed := fun _ => by
    split <;> omega
  unfold claimRewards
  split
  · next h => simp [h, eq_comm]
  · next h =>
    simp only [bind_ok_iff, SafeMath.addNonzero_ok_iff, Prod.exists, hmin, h, false_and, false_or, ne_eq,
      not_false_eq_true, true_and]
    constructor
    · rintro ⟨stakes, hstakes, r, assets', hr, _, ⟨hfits, rfl⟩, hpay⟩
      exact ⟨stakes, r, assets', hstakes, hr, hfits, hpay⟩
    · rintro ⟨stakes, r, assets', hstakes, hr, hfits, hpay⟩
      exact ⟨stakes, hstakes, r, assets', hr, _, ⟨hfits, rfl⟩, hpay⟩

theorem getRewardsBalance_ok_iff {assets : List Address} :
    getRewardsBalance C T assets user σ = .ok n ↔
      ∃ stakes r, userState C assets user σ.staked.world = .ok stakes ∧
        Runs.transact (DistributionManager.viewStep C.DISTRIBUTION_END T user σ.assets) 0 stakes = .ok r ∧
        σ.usersUnclaimedRewards user + r < 2 ^ 256 ∧ n = σ.usersUnclaimedRewards user + r := by
  simp only [getRewardsBalance, DistributionManager.getUnclaimedRewards_eq, bind_ok_iff, SafeMath.add_ok_iff]
  constructor
  · rintro ⟨stakes, hstakes, r, hr, hfits, rfl⟩; exact ⟨stakes, r, hstakes, hr, hfits, rfl⟩
  · rintro ⟨stakes, r, hstakes, hr, hfits, rfl⟩; exact ⟨stakes, hstakes, r, hr, hfits, rfl⟩

end IncentivesController

/-! ## An action -/

/-- The entries of a call to the controller's `configureAssets`. -/
def Action.assetsConfigInput {W : Type} : Action W → List AssetConfigInput
  | .configureAssets _ assetsConfigInput => assetsConfigInput
  | _ => []

namespace System

open DistributionManager (settleAsset updateAssetStateInternal configureAsset claimStep claimStep_ok_iff)
open IncentivesController (handleAction_ok_iff configureAssets_ok_iff claimRewards_ok_iff payUnclaimed_ok_iff)

variable {W : Type} {D : Deployment W} {C : IncentivesDeployment W} {x : Action W} {σ σ' : System W}

/-- What a claim of rewards leaves behind is what `claimRewards` does. -/
theorem exec_claimRewards_ok_iff {v : Version} {m : Msg} {assets : List Address} {amount : Nat} {dst : Address}
    {stake : Bool} :
    exec D C (.claimRewards v m assets amount dst stake) σ = .ok σ' ↔
      ∃ n, IncentivesController.claimRewards D C m v assets amount dst stake σ = .ok (n, σ') := by
  simp only [exec, bind_ok_iff, pure_ok_iff, Prod.exists]
  constructor
  · rintro ⟨n, _, h, rfl⟩; exact ⟨n, h⟩
  · rintro ⟨n, h⟩; exact ⟨n, σ', h, rfl⟩

variable {P : Address → AssetData → Prop}

theorem assets_of_claim {E T : Nat} {user : Address} {stakes : List UserStakeInput}
    {p p' : Nat × (Address → AssetData)}
    (hsettle : ∀ {T user staked total asset a r a'}, settleAsset E T user staked total a = .ok (r, a') →
      P asset a → P asset a')
    (h : Runs.transact (claimStep E T user) p stakes = .ok p') (hp : ∀ asset, P asset (p.2 asset)) :
    ∀ asset, P asset (p'.2 asset) := by
  induction stakes generalizing p with
  | nil => exact Except.ok.inj h ▸ hp
  | cons stake stakes ih =>
    obtain ⟨p₁, hs, hl⟩ := Runs.transact_cons_ok_iff.1 h
    refine ih hl fun asset => ?_
    obtain ⟨r, a, ha, -, -, heq⟩ := claimStep_ok_iff.1 hs
    rw [heq]
    by_cases hasset : asset = stake.underlyingAsset
    · subst hasset
      rw [Function.update_self]
      exact hsettle ha (hp _)
    · rw [Function.update_of_ne hasset]
      exact hp asset

theorem assets_of_configuration {E T : Nat} {inputs : List AssetConfigInput} {assets assets' : Address → AssetData}
    (hconfigure : ∀ input ∈ inputs, ∀ {T a i a'}, updateAssetStateInternal E T a input.totalStaked = .ok (i, a') →
      P input.underlyingAsset a → P input.underlyingAsset { a' with emissionPerSecond := input.emissionPerSecond })
    (h : inputs.foldlM (configureAsset E T) assets = .ok assets') (hP : ∀ asset, P asset (assets asset)) :
    ∀ asset, P asset (assets' asset) := by
  induction inputs generalizing assets with
  | nil => exact Except.ok.inj h ▸ hP
  | cons input inputs ih =>
    simp only [List.foldlM_cons, bind_ok_iff] at h
    obtain ⟨assets₁, hs, hl⟩ := h
    refine ih (fun input hinput => hconfigure input (by simp [hinput])) hl fun asset => ?_
    simp only [configureAsset, bind_ok_iff, pure_ok_iff, Prod.exists] at hs
    obtain ⟨i, a, ha, rfl⟩ := hs
    by_cases hasset : asset = input.underlyingAsset
    · subst hasset
      rw [Function.update_self]
      exact hconfigure input (by simp) ha (hP _)
    · rw [Function.update_of_ne hasset]
      exact hP asset

/-- What settlements keep of every asset, and configurations by the entries
given, an action keeps. -/
theorem assets_of_exec
    (hsettle : ∀ {T user staked total asset a r a'},
      settleAsset C.DISTRIBUTION_END T user staked total a = .ok (r, a') → P asset a → P asset a')
    (hconfigure : ∀ input ∈ x.assetsConfigInput, ∀ {T a i a'},
      updateAssetStateInternal C.DISTRIBUTION_END T a input.totalStaked = .ok (i, a') →
      P input.underlyingAsset a → P input.underlyingAsset { a' with emissionPerSecond := input.emissionPerSecond })
    (hx : exec D C x σ = .ok σ') (hP : ∀ asset, P asset (σ.assets asset)) : ∀ asset, P asset (σ'.assets asset) := by
  cases x with
  | staking x =>
    simp only [exec, bind_ok_iff, pure_ok_iff] at hx
    obtain ⟨_, -, rfl⟩ := hx
    exact hP
  | handleAction m user userBalance totalSupply =>
    obtain ⟨r, a, ha, -, rfl⟩ := handleAction_ok_iff.1 hx
    intro asset
    show P asset (Function.update σ.assets m.sender a asset)
    by_cases hasset : asset = m.sender
    · subst hasset
      rw [Function.update_self]
      exact hsettle ha (hP _)
    · rw [Function.update_of_ne hasset]
      exact hP asset
  | configureAssets m inputs =>
    obtain ⟨-, assets, h, rfl⟩ := configureAssets_ok_iff.1 hx
    exact assets_of_configuration hconfigure h hP
  | claimRewards v m assets amount dst stake =>
    obtain ⟨n, h⟩ := exec_claimRewards_ok_iff.1 hx
    rcases claimRewards_ok_iff.1 h with ⟨-, -, rfl⟩ | ⟨-, stakes, r, assets', -, hclaim, -, hpay⟩
    · exact hP
    · rw [DistributionManager.claimRewards_eq] at hclaim
      rw [IncentivesController.assets_of_payUnclaimed hpay]
      exact assets_of_claim (P := P) hsettle hclaim hP
  | getRewardsBalance m assets user =>
    simp only [exec, bind_ok_iff, pure_ok_iff] at hx
    obtain ⟨_, -, rfl⟩ := hx
    exact hP
  | elsewhere act =>
    simp only [exec, bind_ok_iff, pure_ok_iff] at hx
    obtain ⟨_, -, rfl⟩ := hx
    exact hP

/-- Unclaimed rewards fit a word. -/
theorem unclaimed_of_exec (hx : exec D C x σ = .ok σ') (h : ∀ user, σ.usersUnclaimedRewards user < 2 ^ 256) :
    ∀ user, σ'.usersUnclaimedRewards user < 2 ^ 256 := by
  cases x with
  | staking x =>
    simp only [exec, bind_ok_iff, pure_ok_iff] at hx
    obtain ⟨_, -, rfl⟩ := hx
    exact h
  | handleAction m user userBalance totalSupply =>
    obtain ⟨r, a, -, hfits, rfl⟩ := handleAction_ok_iff.1 hx
    intro u
    have hu := h u
    show credit σ.usersUnclaimedRewards user r u < 2 ^ 256
    rw [Ledger.credit_apply]
    split
    · next heq =>
      subst heq
      by_cases hr : r = 0
      · omega
      · exact hfits hr
    · exact hu
  | configureAssets m inputs =>
    obtain ⟨-, assets, -, rfl⟩ := configureAssets_ok_iff.1 hx
    exact h
  | claimRewards v m assets amount dst stake =>
    obtain ⟨n, hclaim⟩ := exec_claimRewards_ok_iff.1 hx
    rcases claimRewards_ok_iff.1 hclaim with ⟨-, -, rfl⟩ | ⟨-, stakes, r, assets', -, -, hfits, hpay⟩
    · exact h
    rcases payUnclaimed_ok_iff.1 hpay with ⟨-, -, rfl⟩ | ⟨-, s, -, rfl⟩
    · exact h
    · intro u
      have hsender := h m.sender
      show Function.update σ.usersUnclaimedRewards m.sender _ u < 2 ^ 256
      by_cases hu : u = m.sender
      · subst hu
        rw [Function.update_self]
        by_cases hr : r = 0
        · omega
        · have := hfits hr
          omega
      · rw [Function.update_of_ne hu]
        exact h u
  | getRewardsBalance m assets user =>
    simp only [exec, bind_ok_iff, pure_ok_iff] at hx
    obtain ⟨_, -, rfl⟩ := hx
    exact h
  | elsewhere act =>
    simp only [exec, bind_ok_iff, pure_ok_iff] at hx
    obtain ⟨_, -, rfl⟩ := hx
    exact h

/-! ## Runs -/

variable {g : Address} {w : W} {l : List (Action W)}

/-- No user's index is ahead of the asset's. -/
theorem indexed_of_run (asset user : Address) :
    ((run D C (.fresh g w) l).assets asset).users user ≤ ((run D C (.fresh g w) l).assets asset).index := by
  have hinv : ∀ asset, ∀ user, ((run D C (.fresh g w) l).assets asset).users user ≤
      ((run D C (.fresh g w) l).assets asset).index := by
    refine Runs.run_invariant (P := fun _ => True) (Q := fun _ => True)
      (I := fun σ : System W => ∀ asset, ∀ user, (σ.assets asset).users user ≤ (σ.assets asset).index)
      (fun _ _ => Nat.le_refl 0) (fun x σ σ' _ _ _ h hx => ?_) (fun _ _ => trivial) fun _ _ => trivial
    refine assets_of_exec (P := fun _ a => ∀ user, a.users user ≤ a.index) (fun ha h u => ?_)
      (fun input _ T a i a' ha h u => ?_) hx h
    · obtain ⟨i, hi, -, rfl⟩ := DistributionManager.settleAsset_ok_iff.1 ha
      have hu := (h u).trans (DistributionManager.getAssetIndex_ok hi ▸ Nat.le_add_right _ _)
      simp only [AssetData.setUser, AssetData.settled, Function.update_apply]
      split
      · exact le_refl _
      · exact hu
    · obtain ⟨hi, rfl⟩ := DistributionManager.updateAssetStateInternal_stores.1 ha
      exact (h u).trans (DistributionManager.getAssetIndex_ok hi ▸ Nat.le_add_right _ _)
  exact hinv asset user

theorem unclaimed_of_run (user : Address) : (run D C (.fresh g w) l).usersUnclaimedRewards user < 2 ^ 256 := by
  have hinv : ∀ user, (run D C (.fresh g w) l).usersUnclaimedRewards user < 2 ^ 256 :=
    Runs.run_invariant (P := fun _ => True) (Q := fun _ => True)
      (I := fun σ : System W => ∀ user, σ.usersUnclaimedRewards user < 2 ^ 256) (fun _ => by show 0 < 2 ^ 256; decide)
      (fun _ _ _ _ _ _ h hx => unclaimed_of_exec hx h) (fun _ _ => trivial) fun _ _ => trivial
  exact hinv user

end System

end StarlayStake
