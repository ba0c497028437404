/-
The incentives controller with tokens that call back. `claimRewards` takes a
claim off the user's rewards, asks the vault for it, and then perhaps stakes
it, in which it hands over a second time. While it waits for the vault's
token, or the stake for its own, anything may be called, of the controller and
of the staking token. The assets answer static calls, and cannot call
anything.

So both contracts' calls are written with their calls to tokens in their
places (`payRewardsBody`, `claimRewardsBody`, `Action.body`). With tokens that
do not call back they do what they do (`Action.answered_body`). A claim that is
answered does nothing more but stake, which touches the storage of the staking
token alone (`Action.waits_body`). At every moment what an account has
unclaimed, with all that its claims took off and the vault was asked for, is
within what its highest balances can have earned up to the indexes of the
assets (`claims_within_index`).
-/
import StarlayStake.Callbacks
import StarlayStake.VaultOutflow

namespace StarlayStake

open Accrual (mostEarned mostEarned_settle mostEarned_mono)
open Ledger (credit)
open Outcome (bind_ok_iff pure_ok_iff)
open DistributionManager (settleAsset settleAsset_ok_iff claimStep claimStep_ok_iff accrued_eq precisionUnit)
open IncentivesController (payment SurplusFits userState claimRewards_ok_iff payUnclaimed_ok_iff payRewards_ok_iff
  handleAction_ok_iff configureAssets_ok_iff)
open Reentrancy (Body)

variable {W : Type}

/-! ## Actions with their calls to tokens in their places -/

/-- A call to a token, of the staking token's or of the controller's. -/
inductive AskedToken
  | staking (t : TokenTransfer)
  | vault (dst : Address) (amount : Nat)

/-- A token that does not call back. -/
def AskedToken.make (D : Deployment W) (C : IncentivesDeployment W) (k : AskedToken) (σ : System W) :
    Except String (System W) :=
  match k with
  | .staking t => do
    let staked ← t.make D σ.staked
    return { σ with staked }
  | .vault dst amount => do
    let world ← IERC20.transferFrom D.ext C.REWARD_TOKEN C.self C.REWARDS_VAULT dst amount σ.staked.world
    return { σ with staked := { σ.staked with world } }

/-- A call to the staking token, beside the controller. -/
def inStaked (c : Body TokenTransfer (State W) String (State W)) (σ : System W) :
    Body AskedToken (System W) String (System W) :=
  c.inPart System.staked (fun staked σ => { σ with staked }) .staking σ

namespace IncentivesController

variable (D : Deployment W) (C : IncentivesDeployment W) (m : Msg)

/-- The rewards paid or staked: the call to the vault's token, and the stake after it. -/
def payRewardsBody (v : Version) (amountToClaim : Nat) (dst : Address) (stake : Bool) (σ : System W) :
    Body AskedToken (System W) String (Nat × System W) :=
  if stake = true then do
    let extra ← SafeMath.mul amountToClaim C.EXTRA_PSM_REWARD
    let extra ← SafeMath.div extra 100
    let amountToClaim ← SafeMath.add amountToClaim extra
    let σ ← .ask (.vault C.self amountToClaim) σ
    let σ ← inStaked (StakedToken.stakeBody D { m with sender := C.self, sender_ne := C.self_ne } v dst amountToClaim
      σ.staked) σ
    return (amountToClaim, σ)
  else do
    let σ ← .ask (.vault dst amountToClaim) σ
    return (amountToClaim, σ)

/-- `claimRewards` -/
def claimRewardsBody (v : Version) (assets : List Address) (amount : Nat) (dst : Address) (stake : Bool)
    (σ : System W) : Body AskedToken (System W) String (Nat × System W) :=
  if amount = 0 then return (0, σ)
  else do
    let user := m.sender
    let userState ← userState C assets user σ.staked.world
    let claimed ← DistributionManager.claimRewards C.DISTRIBUTION_END m.timestamp user userState σ.assets
    let accruedRewards := claimed.1
    let σ := { σ with assets := claimed.2 }
    let unclaimedRewards ← (if accruedRewards ≠ 0 then SafeMath.add (σ.usersUnclaimedRewards user) accruedRewards
      else .ok (σ.usersUnclaimedRewards user) : Except String Nat)
    if unclaimedRewards = 0 then
      return (0, σ)
    else do
      let amountToClaim := if amount > unclaimedRewards then unclaimedRewards else amount
      let σ := { σ with
        usersUnclaimedRewards := Function.update σ.usersUnclaimedRewards user (unclaimedRewards - amountToClaim) }
      payRewardsBody D C m v amountToClaim dst stake σ

end IncentivesController

/-- An action, with its calls to tokens, if it makes any, in their places. -/
def Action.body (D : Deployment W) (C : IncentivesDeployment W) (a : Action W) (σ : System W) :
    Body AskedToken (System W) String (System W) :=
  match a with
  | .staking x => inStaked (x.body D σ.staked) σ
  | .claimRewards v m assets amount dst stake => do
    let claimed ← IncentivesController.claimRewardsBody D C m v assets amount dst stake σ
    return claimed.2
  | a => liftM (System.exec D C a σ)

/-- Both contracts, as one that waits for tokens. -/
def bothWaiting (D : Deployment W) (C : IncentivesDeployment W) :
    Reentrancy.Contract (System W) (Action W) AskedToken W String :=
  { body := Action.body D C
    outside := fun world σ => { σ with staked := { σ.staked with world } } }

abbrev SystemMoves (W : Type) : Type := List (Reentrancy.Move (Action W) W)

def bothSession (D : Deployment W) (C : IncentivesDeployment W) (σ : System W) (l : SystemMoves W) :
    Reentrancy.Session AskedToken (System W) String := (bothWaiting D C).session σ l

section

variable {D : Deployment W} {C : IncentivesDeployment W} {m : Msg} {v : Version} {σ σ' : System W} {a : Action W}
  {assets : List Address} {amount d n : Nat} {dst : Address} {stake : Bool} {s s' : State W} {w w' : W}
  {k : AskedToken}

/-! ## Without callbacks -/

theorem answered_inStaked (c : Body TokenTransfer (State W) String (State W)) (σ : System W) :
    (inStaked c σ).answered (·.make D C) = (fun staked => { σ with staked }) <$> c.answered (·.make D) := by
  rw [inStaked]
  refine Body.answered_inPart ?_ ?_ ?_ c σ
  · exact fun _ _ => rfl
  · exact fun _ _ _ => rfl
  · intro k σ
    rw [map_eq_pure_bind]
    rfl

theorem IncentivesController.answered_payRewardsBody :
    (payRewardsBody D C m v amount dst stake σ).answered (·.make D C) = (do
      let paid ← payRewards D C m v amount dst stake σ.staked
      return (paid.1, { σ with staked := paid.2 })) := by
  unfold payRewardsBody payRewards
  cases stake with
  | true =>
    simp only [if_true, Body.answered_bind, Body.answered_liftM, Body.answered_ask, Body.answered_pure,
      answered_inStaked, answered_stakeBody, AskedToken.make, stakeInPSM, bind_assoc, pure_bind, bind_map_left]
    rfl
  | false =>
    simp only [Bool.false_eq_true, if_false, Body.answered_bind, Body.answered_ask, Body.answered_pure,
      AskedToken.make, bind_assoc, pure_bind]
    rfl

theorem IncentivesController.answered_claimRewardsBody :
    (claimRewardsBody D C m v assets amount dst stake σ).answered (·.make D C) =
      claimRewards D C m v assets amount dst stake σ := by
  unfold claimRewardsBody claimRewards
  split
  · rfl
  · simp only [Body.answered_bind, Body.answered_liftM]
    refine bind_congr fun stakes => bind_congr fun claimed => bind_congr fun unclaimed => ?_
    split
    · rfl
    · exact answered_payRewardsBody

/-- With tokens that do not call back, actions do what they do. -/
theorem Action.answered_body (a : Action W) (σ : System W) : (a.body D C σ).answered (·.make D C) = System.exec D C a σ := by
  cases a with
  | staking x =>
    show (inStaked (x.body D σ.staked) σ).answered _ = _
    rw [answered_inStaked, StarlayStake.answered_body, map_eq_pure_bind]
    rfl
  | claimRewards v m assets amount dst stake =>
    show (IncentivesController.claimRewardsBody D C m v assets amount dst stake σ >>= fun claimed =>
      pure claimed.2).answered _ = _
    rw [Body.answered_bind, IncentivesController.answered_claimRewardsBody]
    rfl
  | _ => exact Body.answered_liftM _

/-- All that a token does by itself is to the world. -/
theorem AskedToken.make_outside (h : k.make D C σ = .ok σ') : ∃ w, σ' = { σ with staked := { σ.staked with world := w } } := by
  cases k with
  | staking t =>
    obtain ⟨staked, ht, h⟩ := bind_ok_iff.1 h
    obtain ⟨w, rfl⟩ := StarlayStake.make_outside ht
    exact ⟨w, (Except.ok.inj h).symm⟩
  | vault dst amount =>
    obtain ⟨w, -, h⟩ := bind_ok_iff.1 h
    exact ⟨w, (Except.ok.inj h).symm⟩

/-- An action whose tokens do not call back. -/
theorem bothSession_of_exec (h : System.exec D C a σ = .ok σ') :
    ∃ l : SystemMoves W, bothSession D C σ l = { state := σ', pending := [] } :=
  Reentrancy.Contract.session_of_answered (C := bothWaiting D C) (·.make D C)
    (fun _ _ _ => AskedToken.make_outside) ((a.answered_body σ).trans h)

/-! ## Up to a call to a token, and after it -/

/-- An action that is answered is done, or in a call to the staking token. -/
theorem Action.waits_body (a : Action W) (σ : System W) :
    (a.body D C σ).Waits fun σ rest => rest = .done σ ∨ ∃ c, rest = inStaked c σ := by
  cases a with
  | staking x => exact (Body.waits_inPart _ σ).imp fun _ _ => .inr
  | claimRewards v m assets amount dst stake =>
    show (IncentivesController.claimRewardsBody D C m v assets amount dst stake σ >>= fun claimed =>
      pure claimed.2).Waits _
    unfold IncentivesController.claimRewardsBody
    split
    · trivial
    simp only [bind_assoc]
    refine Body.waits_liftM_bind fun stakes => Body.waits_liftM_bind fun claimed => Body.waits_liftM_bind fun r => ?_
    split
    · trivial
    unfold IncentivesController.payRewardsBody
    split
    · simp only [bind_assoc, pure_bind, bind_pure]
      exact Body.waits_liftM_bind fun _ => Body.waits_liftM_bind fun _ => Body.waits_liftM_bind fun _ =>
        Body.waits_ask_bind fun _ => .inr ⟨_, rfl⟩
    · simp only [bind_assoc, pure_bind]
      exact Body.waits_ask_bind fun _ => .inl rfl
  | _ => exact Body.waits_liftM _

theorem IERC20.transferFrom_quiet {token sender src dst : Address} {value : Nat} :
    IERC20.transferFrom D.quiet.ext token sender src dst value w = .ok w' ↔ w' = w := by
  rw [IERC20.transferFrom_ok_iff]
  simp [Deployment.quiet, eq_comm]

/-- Where the vault's token does nothing, paying does nothing. -/
theorem payRewards_quiet :
    IncentivesController.payRewards D.quiet C m v d dst false s = .ok (n, s') ↔ n = d ∧ s' = s := by
  rw [payRewards_ok_iff]
  simp only [payment, SurplusFits, IncentivesController.Drawn, Bool.false_eq_true, if_false, false_implies, true_and,
    IERC20.transferFrom_quiet]
  constructor
  · rintro ⟨rfl, _, rfl, rfl⟩; exact ⟨rfl, rfl⟩
  · rintro ⟨rfl, rfl⟩; exact ⟨rfl, _, rfl, rfl⟩

/-- Nothing changes before the vault is asked. -/
theorem upTo_payRewardsBody
    (h : (IncentivesController.payRewardsBody D C m v d dst stake σ >>= fun paid => pure paid.2).upTo = .ok σ') :
    σ' = σ := by
  unfold IncentivesController.payRewardsBody at h
  split at h
  · simp only [bind_assoc, Body.upTo_liftM_bind, Body.upTo_ask_bind, bind_ok_iff] at h
    obtain ⟨_, -, _, -, _, -, h⟩ := h
    exact (Except.ok.inj h).symm
  · simp only [bind_assoc, Body.upTo_ask_bind] at h
    exact (Except.ok.inj h).symm

/-- Up to where it asks the vault, a claim does what it does where the vault
has a token that does nothing. -/
theorem upTo_claimRewardsBody (h : ((Action.claimRewards v m assets amount dst stake).body D C σ).upTo = .ok σ') :
    ∃ n, IncentivesController.claimRewards D.quiet C m v assets amount dst false σ = .ok (n, σ') := by
  have hmin : ∀ unclaimed, (if amount > unclaimed then unclaimed else amount) = min amount unclaimed := fun _ => by
    split <;> omega
  change (IncentivesController.claimRewardsBody D C m v assets amount dst stake σ >>= fun claimed =>
    pure claimed.2).upTo = .ok σ' at h
  unfold IncentivesController.claimRewardsBody at h
  by_cases hzero : amount = 0
  · rw [if_pos hzero] at h
    exact ⟨0, claimRewards_ok_iff.2 (.inl ⟨hzero, rfl, (Except.ok.inj h).symm⟩)⟩
  rw [if_neg hzero] at h
  simp only [bind_assoc, Body.upTo_liftM_bind, bind_ok_iff, SafeMath.addNonzero_ok_iff, hmin] at h
  obtain ⟨stakes, hstakes, ⟨r, assets'⟩, hclaim, unclaimed, ⟨hfits, rfl⟩, h⟩ := h
  have hclaimed : ∀ {n}, IncentivesController.payUnclaimed D.quiet C m v amount dst false
      (σ.usersUnclaimedRewards m.sender + r) { σ with assets := assets' } = .ok (n, σ') →
      IncentivesController.claimRewards D.quiet C m v assets amount dst false σ = .ok (n, σ') := fun hpay =>
    claimRewards_ok_iff.2 (.inr ⟨hzero, stakes, r, assets', hstakes, hclaim, hfits, hpay⟩)
  split at h
  · next hnone => exact ⟨0, hclaimed (payUnclaimed_ok_iff.2 (.inl ⟨hnone, rfl, (Except.ok.inj h).symm⟩))⟩
  · next hsome =>
    obtain rfl := upTo_payRewardsBody h
    exact ⟨_, hclaimed (payUnclaimed_ok_iff.2 (.inr ⟨hsome, _, payRewards_quiet.2 ⟨rfl, rfl⟩, rfl⟩))⟩

end

/-! ## What claims take -/

/-- What an account's claims took, of those not undone. -/
structure Payouts where
  /-- off its rewards -/
  debited : Address → Nat
  /-- and asked the vault for -/
  drawn : Address → Nat

namespace Payouts

def empty : Payouts := { debited := fun _ => 0, drawn := fun _ => 0 }

/-- What is noted down of a call, before it waits. -/
def note (C : IncentivesDeployment W) (a : Action W) (σ _σ' : System W) (b : Payouts) : Payouts :=
  match a with
  | .claimRewards _ m assets amount _ stake =>
    let d := IncentivesController.debited C m assets amount σ
    { debited := credit b.debited m.sender d, drawn := credit b.drawn m.sender (payment C d stake) }
  | _ => b

end Payouts

/-- What was taken by claims, at a moment. -/
def payouts (D : Deployment W) (C : IncentivesDeployment W) (σ : System W) (l : SystemMoves W) : Payouts :=
  (((bothWaiting D C).recording (Payouts.note C)).session (σ, .empty) l).state.2

/-- No balance of an account's that an action passes, or is answered, exceeds `bounds`. -/
def Action.Within (C : IncentivesDeployment W) (bounds : Address → Nat) (u : Address) (a : Action W) (σ : System W) :
    Prop :=
  match a with
  | .handleAction m user userBalance _ => user = u → userBalance ≤ bounds m.sender
  | .claimRewards _ m assets _ _ _ => m.sender = u → ∀ stakes, userState C assets u σ.staked.world = .ok stakes →
      ∀ s ∈ stakes, s.stakedByUser ≤ bounds s.underlyingAsset
  | _ => True

/-- An account was credited no more than its highest balances can have earned
up to its indexes, and these are not ahead of the assets'. -/
structure Covered (bounds : Address → Nat) (u : Address) (credited : Nat) (assets : Address → AssetData) : Prop where
  earned : precisionUnit * credited ≤ mostEarned bounds fun a => (assets a).users u
  indexed : ∀ a, (assets a).users u ≤ (assets a).index

section

variable {bounds : Address → Nat} {u user asset : Address} {E T r k n n' staked supply : Nat} {a' : AssetData}
  {assets assets' : Address → AssetData}

theorem Covered.settle (h : Covered bounds u k assets) (hbound : user = u → staked ≤ bounds asset)
    (ha : settleAsset E T user staked supply (assets asset) = .ok (r, a')) :
    Covered bounds u (k + if user = u then r else 0) (Function.update assets asset a') := by
  obtain ⟨i, hi, hr, ha'⟩ := settleAsset_ok_iff.1 ha
  have hgrown : (assets asset).users u ≤ i :=
    (h.indexed asset).trans (DistributionManager.getAssetIndex_ok hi ▸ Nat.le_add_right _ _)
  have huser : a'.users u = if u = user then i else (assets asset).users u := by
    rw [ha']
    exact Function.update_apply ..
  have hindex : a'.index = i := by rw [ha']; rfl
  refine ⟨?_, fun a => ?_⟩
  · have husers : (fun a => (Function.update assets asset a' a).users u) =
        Function.update (fun a => (assets a).users u) asset (a'.users u) := by
      funext a
      by_cases hasset : a = asset
      · subst hasset; simp
      · simp [hasset]
    rw [husers, huser]
    by_cases hu : user = u
    · subst hu
      rw [if_pos rfl, if_pos rfl, Nat.mul_add, accrued_eq hr]
      have hearned := h.earned
      have hsettled : mostEarned bounds (fun a => (assets a).users user) +
          precisionUnit * (staked * (i - (assets asset).users user) / precisionUnit) ≤ _ :=
        mostEarned_settle hgrown (hbound rfl)
      omega
    · rw [if_neg hu, if_neg (Ne.symm hu), Nat.add_zero, Function.update_eq_self_iff.2 rfl]
      exact h.earned
  · by_cases hasset : a = asset
    · subst hasset
      rw [Function.update_self, huser, hindex]
      split
      · exact le_refl _
      · exact hgrown
    · rw [Function.update_of_ne hasset]; exact h.indexed a

theorem Covered.claim {stakes : List UserStakeInput} (h : Covered bounds u (k + if user = u then n else 0) assets)
    (hbound : user = u → ∀ s ∈ stakes, s.stakedByUser ≤ bounds s.underlyingAsset)
    (hclaim : Runs.transact (claimStep E T user) (n, assets) stakes = .ok (n', assets')) :
    Covered bounds u (k + if user = u then n' else 0) assets' := by
  induction stakes generalizing n assets with
  | nil =>
    obtain ⟨rfl, rfl⟩ := Prod.mk.inj (Except.ok.inj hclaim)
    exact h
  | cons stake stakes ih =>
    obtain ⟨⟨n₁, assets₁⟩, hs, hl⟩ := Runs.transact_cons_ok_iff.1 hclaim
    obtain ⟨r, a, ha, -, rfl, rfl⟩ := claimStep_ok_iff.1 hs
    have hsettled := h.settle (fun hu => hbound hu stake (by simp)) ha
    refine ih ?_ (fun hu s hmem => hbound hu s (by simp [hmem])) hl
    rw [Nat.add_assoc] at hsettled
    split
    · next hu => rwa [if_pos hu, if_pos hu] at hsettled
    · next hu => rwa [if_neg hu, if_neg hu] at hsettled

theorem Covered.configure {inputs : List AssetConfigInput} (h : Covered bounds u k assets)
    (hfold : inputs.foldlM (DistributionManager.configureAsset E T) assets = .ok assets') :
    Covered bounds u k assets' := by
  have hkept := System.assets_of_configuration
    (P := fun asset a => a.users = (assets asset).users ∧ (assets asset).index ≤ a.index)
    (fun input _ T a i a' ha hP => ?_) hfold fun asset => ⟨rfl, le_refl _⟩
  · refine ⟨?_, fun a => ?_⟩
    · simp only [(hkept _).1]
      exact h.earned
    · rw [(hkept a).1]
      exact (h.indexed a).trans (hkept a).2
  · obtain ⟨hi, rfl⟩ := DistributionManager.updateAssetStateInternal_stores.1 ha
    exact ⟨hP.1, hP.2.trans (DistributionManager.getAssetIndex_ok hi ▸ Nat.le_add_right _ _)⟩

variable {W : Type} {D : Deployment W} {C : IncentivesDeployment W} {m : Msg} {v : Version} {σ σ' : System W}
  {b : Payouts} {assets : List Address} {amount : Nat} {dst : Address} {stake : Bool}

theorem Covered.claimRewards (h : Covered bounds u (σ.usersUnclaimedRewards u + k) σ.assets)
    (hbound : (Action.claimRewards v m assets amount dst stake).Within C bounds u σ)
    (hx : IncentivesController.claimRewards D C m v assets amount dst stake σ = .ok (n, σ')) :
    Covered bounds u (σ'.usersUnclaimedRewards u +
      (k + if u = m.sender then IncentivesController.debited C m assets amount σ else 0)) σ'.assets := by
  have hbooked := congrFun (IncentivesController.claim_exact hx).1 u
  -- what the user has afterwards and was debited is what they had and accrued
  have htotal : σ'.usersUnclaimedRewards u +
      (k + if u = m.sender then IncentivesController.debited C m assets amount σ else 0) =
        σ.usersUnclaimedRewards u + k + if m.sender = u then IncentivesController.newlyAccrued C m assets amount σ else 0 := by
    have hle : IncentivesController.debited C m assets amount σ ≤ σ.usersUnclaimedRewards m.sender + _ :=
      Nat.min_le_right _ _
    by_cases hu : u = m.sender
    · subst hu
      rw [Function.update_self] at hbooked
      rw [if_pos rfl, if_pos rfl, hbooked]
      omega
    · rw [Function.update_of_ne hu] at hbooked
      rw [if_neg hu, if_neg (Ne.symm hu), hbooked]
      omega
  rw [htotal]
  rcases claimRewards_ok_iff.1 hx with ⟨rfl, -, rfl⟩ | ⟨hne, stakes, r, assets', hstakes, hclaim, -, hpay⟩
  · simpa [IncentivesController.newlyAccrued] using h
  · rw [IncentivesController.assets_of_payUnclaimed hpay, IncentivesController.newlyAccrued_eq hne hstakes hclaim]
    rw [DistributionManager.claimRewards_eq] at hclaim
    exact Covered.claim (n := 0) (by simpa using h) (fun hu => hbound hu stakes (hu ▸ hstakes)) hclaim

/-- Up to where it waits an action credits no more than was earned, and asks
the vault for what it takes off. -/
theorem Covered.step {a : Action W} (h : Covered bounds u (σ.usersUnclaimedRewards u + b.debited u) σ.assets)
    (hbound : a.Within C bounds u σ) (hx : (a.body D C σ).upTo = .ok σ') :
    Covered bounds u (σ'.usersUnclaimedRewards u + (b.note C a σ σ').debited u) σ'.assets := by
  cases a with
  | staking x =>
    change (inStaked (x.body D σ.staked) σ).upTo = .ok σ' at hx
    rw [inStaked, Body.upTo_inPart, map_eq_pure_bind, bind_ok_iff] at hx
    obtain ⟨s', -, hs'⟩ := hx
    obtain rfl := Except.ok.inj hs'
    exact h
  | handleAction m user userBalance totalSupply =>
    obtain ⟨r, a, ha, -, rfl⟩ := handleAction_ok_iff.1 ((Body.upTo_liftM _).symm.trans hx)
    have hsettled := h.settle hbound ha
    rw [Nat.add_right_comm] at hsettled
    show Covered bounds u (credit σ.usersUnclaimedRewards user r u + b.debited u) _
    rw [Ledger.credit_apply]
    simpa only [eq_comm] using hsettled
  | configureAssets m inputs =>
    obtain ⟨-, assets, hfold, rfl⟩ := configureAssets_ok_iff.1 ((Body.upTo_liftM _).symm.trans hx)
    exact h.configure hfold
  | claimRewards v m assets amount dst stake =>
    obtain ⟨n, hs⟩ := upTo_claimRewardsBody hx
    have hbound' : (Action.claimRewards v m assets amount dst false).Within C bounds u σ := hbound
    have hclaimed := h.claimRewards hbound' hs
    show Covered bounds u (_ + credit b.debited m.sender _ u) _
    rwa [Ledger.credit_apply]
  | getRewardsBalance m assets user =>
    obtain ⟨_, -, hs⟩ := bind_ok_iff.1 ((Body.upTo_liftM _).symm.trans hx)
    obtain rfl := Except.ok.inj hs
    exact h
  | elsewhere act =>
    obtain ⟨_, -, hs⟩ := bind_ok_iff.1 ((Body.upTo_liftM _).symm.trans hx)
    obtain rfl := Except.ok.inj hs
    exact h

theorem Payouts.drawn_le {a : Action W} (σ' : System W) (h : b.drawn u * 100 ≤ (100 + C.EXTRA_PSM_REWARD) * b.debited u) :
    (b.note C a σ σ').drawn u * 100 ≤ (100 + C.EXTRA_PSM_REWARD) * (b.note C a σ σ').debited u := by
  cases a with
  | claimRewards v m assets amount dst stake =>
    show credit b.drawn m.sender (payment C _ stake) u * 100 ≤ _ * credit b.debited m.sender _ u
    have hpayment := IncentivesController.payment_le (C := C) (IncentivesController.debited C m assets amount σ) stake
    rw [Ledger.credit_apply, Ledger.credit_apply, Nat.add_mul, Nat.mul_add]
    split
    · exact Nat.add_le_add h hpayment
    · rwa [Nat.zero_mul, Nat.mul_zero, Nat.add_zero, Nat.add_zero]
  | _ => exact h

/-- What an account has and what its claims took are covered, and the vault
was asked for no more than claims add. -/
structure WithinIndex (C : IncentivesDeployment W) (bounds : Address → Nat) (u : Address) (p : System W × Payouts) :
    Prop where
  covered : Covered bounds u (p.1.usersUnclaimedRewards u + p.2.debited u) p.1.assets
  drawn : p.2.drawn u * 100 ≤ (100 + C.EXTRA_PSM_REWARD) * p.2.debited u

/-- From where it begins or is answered to where it next stops, an action keeps it. -/
theorem WithinIndex.keeps {a : Action W} {p : System W × Payouts} (h : WithinIndex C bounds u p)
    (hbound : a.Within C bounds u p.1) :
    ((a.body D C p.1).noting (Payouts.note C a p.1) p.2).Keeps (fun _ => True) (WithinIndex C bounds u) := by
  refine .noting (fun σ' hσ' _ => ⟨h.covered.step hbound hσ', Payouts.drawn_le σ' h.drawn⟩)
    ((a.waits_body p.1).imp fun σ rest hrest b hb => ?_)
  obtain rfl | ⟨c, rfl⟩ := hrest
  · exact fun _ => hb
  · exact .inPart (fun _ _ _ h => ⟨h.covered, h.drawn⟩) c hb

end

/-- What assets answer of an account, a claim is within. -/
theorem staked_le_of_answers {C : IncentivesDeployment W} (bounds : Address → Nat) {u : Address} {assets : List Address}
    {stakes : List UserStakeInput} {w : W}
    (h : ∀ asset place scaled, C.getScaledUserBalanceAndSupply asset u place w = .ok scaled → scaled.1 ≤ bounds asset)
    (hstakes : userState C assets u w = .ok stakes) : ∀ s ∈ stakes, s.stakedByUser ≤ bounds s.underlyingAsset := by
  intro s hs
  rw [IncentivesController.userState_eq] at hstakes
  obtain ⟨⟨asset, place⟩, -, hentry⟩ := Outcome.mem_of_mapM_ok hstakes hs
  obtain ⟨scaled, hscaled, rfl⟩ := IncentivesController.entry_ok_iff.1 hentry
  exact h asset place scaled hscaled

/-- The sample pool answers that the holder has 10. -/
theorem Action.within_pool {a : Action Unit} {σ : System Unit}
    (h : ∀ m user userBalance totalSupply, a ≠ .handleAction m user userBalance totalSupply) :
    a.Within .pool (fun _ => 10) (.ofNat 10) σ := by
  cases a with
  | handleAction m user userBalance totalSupply => exact absurd rfl (h m user userBalance totalSupply)
  | claimRewards v m assets amount dst stake =>
    intro _ stakes hstakes
    refine staked_le_of_answers (fun _ => 10) (fun asset place scaled hscaled => ?_) hstakes
    obtain rfl := Except.ok.inj hscaled
    show (if Address.ofNat 10 = .ofNat 10 then 10 else 0) ≤ 10
    rw [if_pos rfl]
  | _ => trivial

end StarlayStake
