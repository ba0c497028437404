/-
Assets without an emission. Anybody can call `handleAction`, and a claim
asks whatever addresses it is given for balances, so what keeps rewards
from being made up is the record of the asset alone: while an address was
never configured with an emission its index, and every user's index of it,
stay zero (`Inert`), whatever it says and whoever calls. Nothing accrues
from it then, and a claim that lists it is the claim that does not
(`only_configured_assets_accrue`).
-/
import StarlayStake.AssetLists

namespace StarlayStake

open Ledger (credit)
open Outcome (bind_ok_iff pure_ok_iff)
open DistributionManager (settleAsset settleAsset_ok_iff updateAssetStateInternal claimStep claimStep_ok_iff)
open IncentivesController (handleAction userState handleAction_ok_iff claimRewards_ok_iff payUnclaimed_ok_iff)

variable {W : Type} {D : Deployment W} {C : IncentivesDeployment W}

/-! ## The record -/

/-- Nothing is emitted and nothing was. -/
structure Inert (a : AssetData) : Prop where
  emission : a.emissionPerSecond = 0
  index : a.index = 0
  users : ∀ u, a.users u = 0

section

variable {E T staked total r i : Nat} {user : Address} {a a' : AssetData}

theorem Inert.getAssetIndex (h : Inert a) :
    DistributionManager.getAssetIndex E T a.index a.emissionPerSecond a.lastUpdateTimestamp total = .ok 0 := by
  simp [DistributionManager.getAssetIndex, h.emission, h.index]

theorem Inert.update (h : Inert a) (ha : updateAssetStateInternal E T a total = .ok (i, a')) : Inert a' := by
  obtain ⟨hi, rfl⟩ := DistributionManager.updateAssetStateInternal_stores.1 ha
  rw [h.getAssetIndex] at hi
  exact ⟨h.emission, (Except.ok.inj hi).symm, h.users⟩

/-- A settlement of it accrues nothing, whatever it says. -/
theorem Inert.settle (h : Inert a) (ha : settleAsset E T user staked total a = .ok (r, a')) : r = 0 ∧ Inert a' := by
  obtain ⟨i, hi, hr, rfl⟩ := settleAsset_ok_iff.1 ha
  rw [h.getAssetIndex] at hi
  obtain rfl := Except.ok.inj hi
  have hzero : DistributionManager.accrued staked 0 (a.users user) = .ok 0 := by
    simp [DistributionManager.accrued, h.users]
  refine ⟨Except.ok.inj (hr.symm.trans hzero), h.emission, rfl, fun u => ?_⟩
  simp only [AssetData.setUser, AssetData.settled, Function.update_apply, h.users, ite_self]

end

/-! ## Runs -/

/-- No entry with an emission for `A` was ever applied: none stood in a call
that succeeded. -/
def NeverEmits (D : Deployment W) (C : IncentivesDeployment W) (σ : System W) (l : List (Action W)) (A : Address) :
    Prop :=
  ∀ p x, p ++ [x] <+: l → (System.exec D C x (System.run D C σ p)).isOk = true →
    ∀ input ∈ x.assetsConfigInput, input.underlyingAsset = A → input.emissionPerSecond = 0

theorem Inert.run {g : Address} {w : W} {l : List (Action W)} {A : Address}
    (hnever : NeverEmits D C (.fresh g w) l A) : Inert ((System.run D C (.fresh g w) l).assets A) := by
  have hinv : ∀ asset, asset = A → Inert ((System.run D C (.fresh g w) l).assets asset) := by
    refine Runs.run_induction (I := fun σ : System W => ∀ asset, asset = A → Inert (σ.assets asset))
      (fun _ _ => ⟨rfl, rfl, fun _ => rfl⟩) fun p x σ' hp h hx _ => ?_
    refine System.assets_of_exec (P := fun asset a => asset = A → Inert a) (fun ha h hA => ((h hA).settle ha).2)
      (fun input hinput T a i a' ha h hA => ?_) hx h
    have hupdated := (h hA).update ha
    exact ⟨hnever p x hp (by rw [System.run, hx]; rfl) input hinput hA, hupdated.index, hupdated.users⟩
  exact hinv A rfl

/-! ## Claims that list it -/

section

variable {E T n n' : Nat} {user A : Address} {assets assets' bare : Address → AssetData} {stakes : List UserStakeInput}

/-- The loop of a claim comes to the same without the entries for `A`. -/
theorem claim_without (hA : Inert (assets A)) (hbare : ∀ B, B ≠ A → bare B = assets B)
    (h : Runs.transact (claimStep E T user) (n, assets) stakes = .ok (n', assets')) :
    ∃ bare', Runs.transact (claimStep E T user) (n, bare) (stakes.filter (·.underlyingAsset ≠ A)) = .ok (n', bare') ∧
      ∀ B, B ≠ A → bare' B = assets' B := by
  induction stakes generalizing n assets bare with
  | nil =>
    obtain ⟨rfl, rfl⟩ := Prod.mk.inj (Except.ok.inj h)
    exact ⟨bare, rfl, hbare⟩
  | cons stake stakes ih =>
    obtain ⟨⟨n₁, assets₁⟩, hs, hl⟩ := Runs.transact_cons_ok_iff.1 h
    obtain ⟨r, a, ha, hfits, rfl, rfl⟩ := claimStep_ok_iff.1 hs
    by_cases hstake : stake.underlyingAsset = A
    · obtain ⟨rfl, hA'⟩ := hA.settle (hstake ▸ ha)
      rw [List.filter_cons_of_neg (by simpa using hstake)]
      refine ih (by rw [hstake, Function.update_self]; exact hA') (fun B hB => ?_) hl
      rw [hstake, Function.update_of_ne hB]
      exact hbare B hB
    · rw [List.filter_cons_of_pos (by simpa using hstake)]
      have hupdate : ∀ B, B ≠ A → Function.update bare stake.underlyingAsset a B =
          Function.update assets stake.underlyingAsset a B := fun B hB => by
        simp only [Function.update_apply, hbare B hB]
      have hA' : Inert (Function.update assets stake.underlyingAsset a A) := by
        rwa [Function.update_of_ne (Ne.symm hstake)]
      obtain ⟨bare', hl', hbare'⟩ := ih hA' hupdate hl
      refine ⟨bare', Runs.transact_cons_ok_iff.2 ⟨_, claimStep_ok_iff.2 ⟨r, a, ?_, hfits, rfl, rfl⟩, hl'⟩, hbare'⟩
      rwa [hbare _ hstake]

end

/-- What a claim pays does not depend on the assets. -/
theorem IncentivesController.payUnclaimed_assets {m : Msg} {v : Version} {amount unclaimed n : Nat} {dst : Address}
    {stake : Bool} {σ σ' : System W} (assets : Address → AssetData)
    (h : payUnclaimed D C m v amount dst stake unclaimed σ = .ok (n, σ')) :
    payUnclaimed D C m v amount dst stake unclaimed { σ with assets } = .ok (n, { σ' with assets }) := by
  rcases payUnclaimed_ok_iff.1 h with ⟨hzero, rfl, rfl⟩ | ⟨hne, s, hpay, rfl⟩
  · exact payUnclaimed_ok_iff.2 (.inl ⟨hzero, rfl, rfl⟩)
  · exact payUnclaimed_ok_iff.2 (.inr ⟨hne, s, hpay, rfl⟩)

/-! ## Only configured assets -/

/-- **Only configured assets create rewards.** After anything that happens
to the two contracts, whatever addresses answer as assets: of an address
for which no entry with an emission was ever applied the index and every
user's index are zero; a `handleAction` from it changes nobody's unclaimed
rewards and no other asset; and a claim that lists it pays and books what
the list without it does, if the others answer the same. And whoever calls
`handleAction` changes their own asset's data alone, and the unclaimed
rewards of the one user, which do not decrease. -/
theorem only_configured_assets_accrue {g : Address} {w : W} {l : List (Action W)} :
    let σ := System.run D C (.fresh g w) l
    (∀ A, NeverEmits D C (.fresh g w) l A →
      (σ.assets A).index = 0 ∧ (∀ u, (σ.assets A).users u = 0) ∧
      (∀ m user userBalance totalSupply σ', m.sender = A → handleAction C m user userBalance totalSupply σ = .ok σ' →
        σ'.usersUnclaimedRewards = σ.usersUnclaimedRewards ∧ ∀ B, B ≠ A → σ'.assets B = σ.assets B) ∧
      ∀ m v assets amount dst stake n σ',
        IncentivesController.claimRewards D C m v assets amount dst stake σ = .ok (n, σ') →
        ∀ answers, userState { C with getScaledUserBalanceAndSupply := answers } (assets.filter (· ≠ A)) m.sender
            σ.staked.world = (userState C assets m.sender σ.staked.world).map (·.filter (·.underlyingAsset ≠ A)) →
          ∃ σ'', IncentivesController.claimRewards D { C with getScaledUserBalanceAndSupply := answers } m v
              (assets.filter (· ≠ A)) amount dst stake σ = .ok (n, σ'') ∧ σ''.staked = σ'.staked ∧
            σ''.usersUnclaimedRewards = σ'.usersUnclaimedRewards ∧ ∀ B, B ≠ A → σ''.assets B = σ'.assets B) ∧
    ∀ m user userBalance totalSupply σ', handleAction C m user userBalance totalSupply σ = .ok σ' →
      σ'.staked = σ.staked ∧ (∀ B, B ≠ m.sender → σ'.assets B = σ.assets B) ∧
        (∀ u, u ≠ user → σ'.usersUnclaimedRewards u = σ.usersUnclaimedRewards u) ∧
        σ.usersUnclaimedRewards user ≤ σ'.usersUnclaimedRewards user := by
  intro σ
  refine ⟨fun A hnever => ?_, fun m user userBalance totalSupply σ' h => ?_⟩
  · have hA : Inert (σ.assets A) := .run hnever
    refine ⟨hA.index, hA.users, fun m user userBalance totalSupply σ' hm h => ?_,
      fun m v assets amount dst stake n σ' h answers hanswers => ?_⟩
    · obtain ⟨r, a, ha, -, rfl⟩ := handleAction_ok_iff.1 h
      obtain ⟨rfl, -⟩ := hA.settle (hm ▸ ha)
      exact ⟨Ledger.credit_zero, fun B hB => Function.update_of_ne (hm ▸ hB) ..⟩
    · rcases claimRewards_ok_iff.1 h with ⟨h0, rfl, rfl⟩ | ⟨hne, stakes, r, assets', hstakes, hclaim, hfits, hpay⟩
      · exact ⟨σ, claimRewards_ok_iff.2 (.inl ⟨h0, rfl, rfl⟩), rfl, rfl, fun _ _ => rfl⟩
      rw [DistributionManager.claimRewards_eq] at hclaim
      obtain ⟨bare, hclaim', hbare⟩ := claim_without hA (fun _ _ => rfl) hclaim
      have hassets : σ'.assets = assets' := IncentivesController.assets_of_payUnclaimed hpay
      rw [hstakes] at hanswers
      have hpay' := IncentivesController.payUnclaimed_assets bare hpay
      refine ⟨{ σ' with assets := bare }, claimRewards_ok_iff.2 (.inr ⟨hne, _, r, bare, hanswers, ?_, hfits,
        hpay'⟩), rfl, rfl, fun B hB => ?_⟩
      · rw [DistributionManager.claimRewards_eq]
        exact hclaim'
      · rw [hassets]
        exact hbare B hB
  · obtain ⟨r, a, -, -, rfl⟩ := handleAction_ok_iff.1 h
    refine ⟨rfl, fun B hB => Function.update_of_ne hB .., fun u hu => Ledger.credit_of_ne hu, ?_⟩
    show _ ≤ credit σ.usersUnclaimedRewards user r user
    rw [Ledger.credit_self]
    exact Nat.le_add_right _ _

/-- A claim that lists an address no entry was ever for. -/
theorem only_configured_assets_accrue_listed :
    let claim := fun l => IncentivesController.claimRewards .erc20 .erc20 ⟨.ofNat 10, 2, 200, sampleHolder_ne⟩ .v2 l 30
      (.ofNat 10) false sampleSystem
    ∃ n σ' σ'', claim [.ofNat 8, .ofNat 7, .ofNat 8] = .ok (n, σ') ∧ claim [.ofNat 7] = .ok (n, σ'') ∧
      σ''.usersUnclaimedRewards = σ'.usersUnclaimedRewards := by
  intro claim
  have hnever : NeverEmits .erc20 .erc20 (.fresh 0 System.erc20.staked.world) sampleEmission (.ofNat 8) := by
    intro p x hp _ input hinput hA
    have hx : x ∈ sampleEmission := hp.subset (by simp)
    simp only [sampleEmission, List.mem_singleton] at hx
    subst hx
    simp only [Action.assetsConfigInput, List.mem_singleton] at hinput
    subst hinput
    exact absurd hA (by decide)
  have hok : (claim [.ofNat 8, .ofNat 7, .ofNat 8]).isOk = true := by decide +kernel
  obtain ⟨⟨n, σ'⟩, h⟩ := Outcome.exists_ok hok
  obtain ⟨-, -, -, hclaim⟩ := (only_configured_assets_accrue (D := .erc20) (C := .erc20)).1 (.ofNat 8) hnever
  obtain ⟨σ'', h', -, hunclaimed, -⟩ := hclaim _ _ _ _ _ _ _ _ h
    IncentivesDeployment.erc20.getScaledUserBalanceAndSupply (by decide +kernel)
  exact ⟨n, σ', σ'', h, h', hunclaimed⟩

end StarlayStake
