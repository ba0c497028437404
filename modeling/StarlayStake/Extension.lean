/-
Extending the distribution. `DISTRIBUTION_END` is an immutable of the
implementation, so an upgrade moves it, and the `initialize` of the new
implementation settles nothing: the first update after it counts the time
since the last one up to the new end. That is the time a distribution was
running only if the upgrade came before the old end, or the asset was
updated in the block of the upgrade, or it emitted nothing or nothing was
staked. Otherwise the seconds between the old end, or the last update if that
came later, and the upgrade count too (`extension_neutral`).
-/
import Mathlib.Order.Interval.Finset.Nat
import StarlayStake.Rewards

namespace StarlayStake

open StakedToken
open DistributionManager (precisionUnit indexGrowth)

variable {W : Type} {D D' : Deployment W}

/-- The seconds an update of an asset at `timestamp` counts. -/
def secondsCounted (D : Deployment W) (timestamp : Nat) (a : AssetData) : Finset Nat :=
  Finset.Ico (min a.lastUpdateTimestamp D.DISTRIBUTION_END) (min timestamp D.DISTRIBUTION_END)

/-- An index grows by what is emitted in the seconds counted, per unit staked. -/
theorem assetGrowth_eq_card {T total : Nat} {a : AssetData} :
    assetGrowth D T a total = a.emissionPerSecond * (secondsCounted D T a).card * precisionUnit / total := by
  rw [secondsCounted, Nat.card_Ico]
  rfl

/-- The call may update the staked token's asset as if `total` were staked. -/
def Tx.CountsAsStaked (D : Deployment W) (x : Tx) (s : State W) (total : Nat) : Prop :=
  total = s.totalSupply ∨
    ∃ input ∈ x.call.assetsConfigInput, input.underlyingAsset = D.self ∧ input.totalStaked = total

/-- From `s` to `s'` the index of the staked token stays as it is, or grows by
what is emitted in the seconds counted. -/
def Tx.CountsSeconds (D : Deployment W) (x : Tx) (s s' : State W) : Prop :=
  (s'.assets D.self).index = (s.assets D.self).index ∨ ∃ total, x.CountsAsStaked D s total ∧
    (s'.assets D.self).index = (s.assets D.self).index + (s.assets D.self).emissionPerSecond *
      (secondsCounted D x.msg.timestamp (s.assets D.self)).card * precisionUnit / total

/-- At `U` the staked token's asset emits nothing to anybody, or it has been
updated since the end of the distribution or since `U`. -/
def Gapless (D : Deployment W) (DISTRIBUTION_END U : Nat) (s : State W) : Prop :=
  (s.assets D.self).emissionPerSecond = 0 ∨ s.totalSupply = 0 ∨ U ≤ (s.assets D.self).lastUpdateTimestamp ∨
    U ≤ DISTRIBUTION_END

section

variable {x : Tx} {s s' : State W} {E U T : Nat}

theorem Gapless.step (hT : x.msg.timestamp < 2 ^ 128) (hU : U ≤ x.msg.timestamp) (h : Gapless D E U s)
    (hx : exec D x s = .ok s') : Gapless D E U s' := by
  cases rewardStep_of_exec hT hx with
  | keep hasset _ _ hsupply => unfold Gapless; rw [hasset, hsupply]; exact h
  | settle users i r _ _ hasset => exact .inr (.inr (.inl (by rw [hasset]; exact hU)))
  | configure i first last _ _ _ _ hasset => exact .inr (.inr (.inl (by rw [hasset]; exact hU)))

theorem Gapless.run {l : List Tx} (hl : ∀ x ∈ l, U ≤ x.msg.timestamp ∧ x.msg.timestamp < 2 ^ 128)
    (h : Gapless D E U s) : Gapless D E U (StakedToken.run D s l) :=
  Runs.run_invariant (P := fun _ => True) h (fun _ _ _ hx _ _ hi hs => hi.step hx.2 hx.1 hs) hl fun _ _ => trivial

/-- Where a state is gapless, no update that emits to anybody counts a
second between the old end and the upgrade. -/
theorem Gapless.disjoint (h : Gapless D E U s) (hU : U < D.DISTRIBUTION_END)
    (hemission : (s.assets D.self).emissionPerSecond ≠ 0) (hsupply : s.totalSupply ≠ 0) :
    Disjoint (secondsCounted D T (s.assets D.self)) (Finset.Ico E U) := by
  rw [secondsCounted, Finset.disjoint_left]
  intro second hcounted hgap
  rw [Finset.mem_Ico] at hcounted hgap
  rcases h with h | h | h | h <;> omega

/-- Where it is not, the first update counts the seconds from the old end, or
from the last update. -/
theorem gap_counted (h : ¬ Gapless D E U s) (hU : U < D.DISTRIBUTION_END) :
    max (s.assets D.self).lastUpdateTimestamp E < U ∧
      ∀ T, U ≤ T → Finset.Ico (max (s.assets D.self).lastUpdateTimestamp E) U ⊆ secondsCounted D T (s.assets D.self) := by
  simp only [Gapless, not_or, not_le] at h
  refine ⟨by omega, fun T hT second hgap => ?_⟩
  rw [Finset.mem_Ico] at hgap
  rw [secondsCounted, Finset.mem_Ico]
  omega

/-- A successful call updates the index by the seconds it counts, if at all. -/
theorem countsSeconds_of_exec (hT : x.msg.timestamp < 2 ^ 128) (hx : exec D x s = .ok s') : x.CountsSeconds D s s' := by
  cases rewardStep_of_exec hT hx with
  | keep hasset => exact .inl (by rw [hasset])
  | settle users i r hindex _ hasset =>
    exact .inr ⟨s.totalSupply, .inl rfl, by rw [hasset, ← assetGrowth_eq_card, ← assetIndex_ok hindex]; rfl⟩
  | configure i first last hfirst _ hself hindex hasset =>
    exact .inr ⟨first.totalStaked, .inr ⟨first, hfirst, hself.1, rfl⟩,
      by rw [hasset, ← assetGrowth_eq_card, ← assetIndex_ok hindex]; rfl⟩

/-- In a gapless state the two implementations agree on rewards at `U`. -/
theorem Gapless.getTotalRewardsBalance_eq {u : Address} (h : Gapless D D.DISTRIBUTION_END U s)
    (hself : D'.self = D.self) (hend : D.DISTRIBUTION_END ≤ D'.DISTRIBUTION_END) (hU : U < D'.DISTRIBUTION_END)
    (hlast : (s.assets D.self).lastUpdateTimestamp ≤ U) :
    getTotalRewardsBalance D U u s = getTotalRewardsBalance D' U u s := by
  have hindex : assetIndex D U (s.assets D.self) s.totalSupply = assetIndex D' U (s.assets D.self) s.totalSupply := by
    rcases h with h | h | h | h
    · simp [assetIndex, DistributionManager.getAssetIndex, h]
    · simp [assetIndex, DistributionManager.getAssetIndex, h]
    · rw [assetIndex_settled (le_antisymm hlast h), assetIndex_settled (le_antisymm hlast h)]
    · exact DistributionManager.getAssetIndex_clipped (by omega) (by omega)
  rw [StarlayStake.getTotalRewardsBalance_eq, StarlayStake.getTotalRewardsBalance_eq, hself, hindex]

end

/-- **Extending the distribution in time is neutral.** At an upgrade at `U`
to an implementation with a later end, from a state reached under the old
one: if the old end had not passed, or the asset was updated at `U`, or it
emitted nothing or nothing was staked, then everybody's rewards at `U` are
the same under both; and in every state reached later, whatever update at
whatever time credits anybody counts no second between the old end and the
upgrade. Otherwise an update from the storage of the upgrade counts them, from
the old end or from the last update on. -/
theorem extension_neutral {g : Address} {w : W} {l : List Tx} {U : Nat} (hself : D'.self = D.self)
    (hend : D.DISTRIBUTION_END ≤ D'.DISTRIBUTION_END) (hU : U < D'.DISTRIBUTION_END) (hU' : U < 2 ^ 128)
    (htimes : l.Pairwise fun x y => x.msg.timestamp ≤ y.msg.timestamp) (hl : ∀ x ∈ l, x.msg.timestamp ≤ U) :
    let s := run D (.fresh g w) l
    let upgraded := s.assets D.self
    let neutral := U ≤ D.DISTRIBUTION_END ∨ upgraded.lastUpdateTimestamp = U ∨ upgraded.emissionPerSecond = 0 ∨
      s.totalSupply = 0
    (neutral → (∀ u, getTotalRewardsBalance D U u s = getTotalRewardsBalance D' U u s) ∧
      ∀ l', (∀ x ∈ l', U ≤ x.msg.timestamp ∧ x.msg.timestamp < 2 ^ 128) →
        let later := run D' s l'
        let asset := later.assets D'.self
        ∀ T, asset.emissionPerSecond ≠ 0 → later.totalSupply ≠ 0 →
          Disjoint (secondsCounted D' T asset) (Finset.Ico D.DISTRIBUTION_END U)) ∧
    (¬ neutral → max upgraded.lastUpdateTimestamp D.DISTRIBUTION_END < U ∧ ∀ T, U ≤ T →
      Finset.Ico (max upgraded.lastUpdateTimestamp D.DISTRIBUTION_END) U ⊆ secondsCounted D' T upgraded) ∧
    ∀ l' x s', x.msg.timestamp < 2 ^ 128 → exec D' x (run D' s l') = .ok s' → x.CountsSeconds D' (run D' s l') s' := by
  intro s upgraded neutral
  have hinv : RewardInv D U s := .run htimes hl hU'
  have hlast : upgraded.lastUpdateTimestamp ≤ U := hinv.last
  have hneutral : neutral ↔ Gapless D' D.DISTRIBUTION_END U s := by
    show neutral ↔ (s.assets D'.self).emissionPerSecond = 0 ∨ s.totalSupply = 0 ∨
      U ≤ (s.assets D'.self).lastUpdateTimestamp ∨ U ≤ D.DISTRIBUTION_END
    rw [hself]
    show U ≤ _ ∨ upgraded.lastUpdateTimestamp = U ∨ upgraded.emissionPerSecond = 0 ∨ s.totalSupply = 0 ↔
      upgraded.emissionPerSecond = 0 ∨ s.totalSupply = 0 ∨ U ≤ upgraded.lastUpdateTimestamp ∨ U ≤ _
    omega
  refine ⟨fun h => ?_, fun h => ?_, fun l' x s' hT hx => countsSeconds_of_exec hT hx⟩
  · have hgapless := hneutral.1 h
    have hgapless' : Gapless D D.DISTRIBUTION_END U s := by rw [Gapless, ← hself]; exact hgapless
    exact ⟨fun u => hgapless'.getTotalRewardsBalance_eq hself hend hU hlast,
      fun l' hl' T he hs => (hgapless.run hl').disjoint hU he hs⟩
  · have hgap := gap_counted (fun hgapless => h (hneutral.2 hgapless)) hU
    rw [hself] at hgap
    exact hgap

/-- The sample deployment with a later end. -/
def Deployment.extended : Deployment Unit := { Deployment.sample with DISTRIBUTION_END := 2000 }

/-- The sample run and a stake after the end. -/
def lateRun : List Tx := sampleRun ++ [⟨.v2, ⟨.ofNat 11, 3, 1500, sampleOther_ne⟩, .stake (.ofNat 11) 5⟩]

/-- An extension after the end, in the block of a stake. -/
theorem extension_neutral_settled :
    let s := run .sample (.fresh 0 ()) lateRun
    let later := run .extended s [⟨.v2, ⟨.ofNat 10, 4, 1600, by decide⟩, .transfer (.ofNat 11) 3⟩]
    (∀ u, getTotalRewardsBalance .sample 1500 u s = getTotalRewardsBalance .extended 1500 u s) ∧
      ∀ T, Disjoint (secondsCounted .extended T (later.assets (.ofNat 1))) (Finset.Ico 1000 1500) := by
  intro s later
  have h := extension_neutral (D := .sample) (g := 0) (w := ()) (U := 1500) (l := lateRun)
    (rfl : Deployment.extended.self = _)
    (by decide) (by decide) (by decide) (by decide) (by decide)
  have hneutral := h.1 (.inr (.inl (by decide +kernel)))
  exact ⟨hneutral.1, fun T => hneutral.2 [⟨.v2, ⟨.ofNat 10, 4, 1600, by decide⟩, .transfer (.ofNat 11) 3⟩] (by decide) T
    (by decide +kernel) (by decide +kernel)⟩

/-- Extended half way between the ends, the holder's rewards are at once
what they would be had the distribution never stopped. -/
theorem extension_counts_gap :
    let s := run .sample (.fresh 0 ()) sampleRun
    getTotalRewardsBalance .sample 1500 (.ofNat 10) s ≠ getTotalRewardsBalance .extended 1500 (.ofNat 10) s := by
  decide +kernel

end StarlayStake
