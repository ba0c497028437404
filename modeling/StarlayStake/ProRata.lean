/-
Everybody gets their share. Beside a run go the books of an ideal
distribution: in every slice of time between calls, up to the end of the
distribution, each account is due its part of the emission, exactly
(`Books`). The contract settles lazily, through an index, and rounds down
twice; what an account claimed and can claim still tracks its ideal share
(`emission_shared`).

The slices of the books end at every call, the growth of the index reaches
back to the last update of the asset. In between nothing moves balances,
supply or emission without an update, so the books are compared with the
index as of the last update (`Fair`).
-/
import Mathlib.Algebra.BigOperators.Field
import Mathlib.Algebra.BigOperators.Ring.Finset
import StarlayStake.Lib.Accrual
import StarlayStake.Power
import StarlayStake.Rewards

namespace StarlayStake

open Accrual
open Ledger (total)
open StakedToken
open DistributionManager (accrued_ok_iff precisionUnit precisionUnit_pos)

variable {W : Type} {D : Deployment W}

/-! ## The books -/

/-- What the asset emits from `t` to `T`, to whoever has staked. -/
def emittedBetween (D : Deployment W) (s : State W) (t T : Nat) : Nat :=
  if s.totalSupply = 0 then 0
  else (s.assets D.self).emissionPerSecond * (min T D.DISTRIBUTION_END - min t D.DISTRIBUTION_END)

/-- The part of it due to `u`. -/
def idealBetween (D : Deployment W) (s : State W) (u : Address) (t T : Nat) : ℚ :=
  s.balances u * ((s.assets D.self).emissionPerSecond * (min T D.DISTRIBUTION_END - min t D.DISTRIBUTION_END) : ℕ) /
    s.totalSupply

structure Books where
  /-- the time up to which they are kept -/
  time : Nat
  /-- what every account is due -/
  ideal : Address → ℚ
  /-- what was emitted while something was staked -/
  emitted : Nat
  /-- what every account was paid -/
  claimed : Address → Nat
  /-- how often the index of an account moved while it held anything -/
  accruals : Address → Nat
  /-- the balance of an account in units of the index, once for every update of the asset -/
  dust : Address → ℚ

namespace Books

def empty : Books :=
  { time := 0, ideal := fun _ => 0, emitted := 0, claimed := fun _ => 0, accruals := fun _ => 0, dust := fun _ => 0 }

/-- The books brought forward to `T`, with the values in force in `s`. -/
def upTo (D : Deployment W) (s : State W) (T : Nat) (b : Books) : Books :=
  { b with
    time := T
    ideal := fun u => b.ideal u + idealBetween D s u b.time T
    emitted := b.emitted + emittedBetween D s b.time T }

/-- What is noted down of a successful call. -/
def note (D : Deployment W) (x : Tx) (s s' : State W) (b : Books) : Books :=
  { b.upTo D s x.msg.timestamp with
    claimed := fun u => b.claimed u + x.paid D s u
    accruals := fun u => b.accruals u +
      if (s'.assets D.self).users u = (s.assets D.self).users u ∨ s.balances u = 0 then 0 else 1
    dust := fun u => b.dust u +
      if (s'.assets D.self).lastUpdateTimestamp = (s.assets D.self).lastUpdateTimestamp then (0 : ℚ)
      else s.balances u / precisionUnit }

end Books

/-- The books kept beside a run. -/
def books (D : Deployment W) (s : State W) (l : List Tx) : Books :=
  (Runs.run (Runs.record (exec D) (Books.note D)) (s, .empty) l).2

section

variable {s : State W} {u : Address} {t t' T : Nat}

theorem idealBetween_self : idealBetween D s u T T = 0 := by simp [idealBetween]

theorem idealBetween_add (h : t ≤ t') (h' : t' ≤ T) :
    idealBetween D s u t t' + idealBetween D s u t' T = idealBetween D s u t T := by
  have : min T D.DISTRIBUTION_END - min t D.DISTRIBUTION_END =
      min t' D.DISTRIBUTION_END - min t D.DISTRIBUTION_END + (min T D.DISTRIBUTION_END - min t' D.DISTRIBUTION_END) := by
    omega
  rw [idealBetween, idealBetween, idealBetween, this]
  push_cast
  ring

/-- What is emitted is due to all together. -/
theorem sum_idealBetween (hsupply : total s.balances = s.totalSupply) :
    ∑ u, idealBetween D s u t T = emittedBetween D s t T := by
  have hsum : ∑ u, (s.balances u : ℚ) = s.totalSupply := by
    rw [← hsupply, Ledger.total_def]; exact (Nat.cast_sum ..).symm
  unfold idealBetween emittedBetween
  rw [← Finset.sum_div, ← Finset.sum_mul, hsum]
  split
  · next h => simp [h]
  · next h => rw [mul_comm, mul_div_assoc, div_self (by exact_mod_cast h), mul_one]

end

/-! ## What every call keeps -/

/-- The books are kept to a time that is past, and tell of every account
what it is worth up to the last update of the asset. -/
structure Fair (D : Deployment W) (now : Nat) (s : State W) (b : Books) : Prop where
  rewards : RewardInv D now s
  supply : total s.balances = s.totalSupply
  last_le : (s.assets D.self).lastUpdateTimestamp ≤ b.time
  time_le : b.time ≤ now
  tracks : ∀ u, Tracks (b.ideal u - idealBetween D s u (s.assets D.self).lastUpdateTimestamp b.time) (b.accruals u)
    (b.dust u) (worth precisionUnit (b.claimed u + s.stakerRewardsToClaim u) (s.balances u) (s.assets D.self).index
      ((s.assets D.self).users u))
  emitted : ∑ u, b.ideal u = b.emitted

section

variable {x : Tx} {s s' : State W} {b : Books} {u : Address} {now T : Nat}

theorem Fair.mono (hle : now ≤ T) (h : Fair D now s b) : Fair D T s b :=
  { h with
    rewards := ⟨h.rewards.last.trans hle, h.rewards.users⟩
    time_le := h.time_le.trans hle }

/-- What every account is worth with the index brought forward to `T`. -/
theorem Fair.broughtForward (h : Fair D now s b) (hT : b.time ≤ T) (u : Address) :
    Tracks ((b.upTo D s T).ideal u) (b.accruals u)
      (b.dust u + if T = (s.assets D.self).lastUpdateTimestamp then (0 : ℚ) else s.balances u / precisionUnit)
      (worth precisionUnit (b.claimed u + s.stakerRewardsToClaim u) (s.balances u)
        ((s.assets D.self).index + assetGrowth D T (s.assets D.self) s.totalSupply) ((s.assets D.self).users u)) := by
  have hlast := h.last_le
  have htracks := h.tracks u
  have hideal : (b.upTo D s T).ideal u = b.ideal u - idealBetween D s u (s.assets D.self).lastUpdateTimestamp b.time +
      idealBetween D s u (s.assets D.self).lastUpdateTimestamp T := by
    rw [← idealBetween_add hlast hT]
    show b.ideal u + idealBetween D s u b.time T = _
    ring
  by_cases heq : T = (s.assets D.self).lastUpdateTimestamp
  · rw [assetGrowth_settled heq.symm, if_pos heq, Nat.add_zero, add_zero, hideal, ← heq, idealBetween_self, add_zero]
    rw [← heq] at htracks
    exact htracks
  · rw [if_neg heq, hideal]
    exact htracks.grow precisionUnit_pos (h.rewards.users u)

theorem Fair.sum_upTo (h : Fair D now s b) : ∑ u, (b.upTo D s T).ideal u = (b.upTo D s T).emitted := by
  show ∑ u, (b.ideal u + idealBetween D s u b.time T) = ((b.emitted + emittedBetween D s b.time T : ℕ) : ℚ)
  rw [Finset.sum_add_distrib, h.emitted, sum_idealBetween h.supply]
  push_cast
  rfl

/-- What a settlement credits an account keeps it at its worth; where its
index does not move or it holds nothing, nothing is rounded. -/
theorem tracks_of_settled {ideal dust : ℚ} {accruals credited credited' balance balance' index userIndex r : Nat}
    (hle : userIndex ≤ index)
    (h : Tracks ideal accruals dust (worth precisionUnit credited balance index userIndex))
    (hr : DistributionManager.accrued balance index userIndex = .ok r) (hcredited : credited' = credited + r) :
    Tracks ideal (accruals + if index = userIndex ∨ balance = 0 then 0 else 1) dust
      (worth precisionUnit credited' balance' index index) := by
  obtain ⟨-, rfl⟩ := (accrued_ok_iff hle).1 hr
  rw [hcredited]
  split
  · next hnone =>
    rcases hnone with rfl | rfl
    · simpa using h.rebalance
    · rw [worth_empty] at h
      simpa [worth_settled] using h
  · exact h.settle

/-- After a step that brings the asset to its last update, the books are
compared with the index as it is. -/
theorem Fair.of_updated (hrewards : RewardInv D T s') (hsupply : total s'.balances = s'.totalSupply)
    (hlast : (s'.assets D.self).lastUpdateTimestamp = T) (htime : b.time = T)
    (htracks : ∀ u, Tracks (b.ideal u) (b.accruals u) (b.dust u) (worth precisionUnit
      (b.claimed u + s'.stakerRewardsToClaim u) (s'.balances u) (s'.assets D.self).index ((s'.assets D.self).users u)))
    (hemitted : ∑ u, b.ideal u = b.emitted) : Fair D T s' b :=
  { rewards := hrewards
    supply := hsupply
    last_le := (hlast.trans htime.symm).le
    time_le := htime.le
    tracks := fun u => by rw [hlast, htime, idealBetween_self, sub_zero]; exact htracks u
    emitted := hemitted }

/-- A successful call keeps the books fair. -/
theorem Fair.step (hT : x.msg.timestamp < 2 ^ 128) (hsupply : x.PassesSupply D s) (h : Fair D x.msg.timestamp s b)
    (hx : exec D x s = .ok s') : Fair D x.msg.timestamp s' (b.note D x s s') := by
  have hrewards' := h.rewards.step hT hx
  have hsupply' := (powerStep_of_exec hx).total h.supply
  have hemitted : ∑ u, (b.note D x s s').ideal u = (b.note D x s s').emitted := h.sum_upTo
  have hforward := h.broughtForward h.time_le
  cases rewardStep_of_exec hT hx with
  | keep hasset hrewards hbalances htotal hpaid =>
    refine ⟨hrewards', hsupply', by rw [hasset]; exact h.last_le.trans h.time_le, le_refl _, fun u => ?_, hemitted⟩
    have hideal : idealBetween D s' u (s'.assets D.self).lastUpdateTimestamp x.msg.timestamp =
        idealBetween D s u (s.assets D.self).lastUpdateTimestamp x.msg.timestamp := by
      simp only [idealBetween, hasset, hbalances, htotal]
    have hsame : (b.note D x s s').ideal u - idealBetween D s u (s.assets D.self).lastUpdateTimestamp x.msg.timestamp =
        b.ideal u - idealBetween D s u (s.assets D.self).lastUpdateTimestamp b.time := by
      rw [← idealBetween_add h.last_le h.time_le]
      show b.ideal u + idealBetween D s u b.time x.msg.timestamp - _ = _
      ring
    have htracks := h.tracks u
    rw [← hsame, ← hideal] at htracks
    simpa only [Books.note, Books.upTo, hasset, hrewards, hbalances, hpaid, true_or, if_true, add_zero] using htracks
  | settle users i r hindex haccrued hasset hrewards hbalances =>
    have hi := assetIndex_ok hindex
    have hlast : (s'.assets D.self).lastUpdateTimestamp = x.msg.timestamp := by rw [hasset]; rfl
    have hindex' : (s'.assets D.self).index = i := by rw [hasset]; rfl
    refine .of_updated hrewards' hsupply' hlast rfl (fun u => ?_) hemitted
    have huser : (s'.assets D.self).users u = if u ∈ users then i else (s.assets D.self).users u := by rw [hasset]; rfl
    have hforward := hforward u
    have hcredited := hrewards u
    rw [← hi] at hforward
    by_cases hu : u ∈ users
    · rw [if_pos hu] at huser hcredited
      simp only [Books.note, hlast, hindex', huser]
      exact tracks_of_settled (h.rewards.index_le hindex u) hforward (haccrued u hu) (by omega)
    · rw [if_neg hu] at huser hcredited
      simp only [Books.note, hlast, hindex', huser, true_or, if_true, hbalances u hu]
      rw [show b.claimed u + x.paid D s u + s'.stakerRewardsToClaim u = b.claimed u + s.stakerRewardsToClaim u by omega]
      exact hforward
  | configure i first last hfirst _ hself hindex hasset hrewards hbalances _ hpaid =>
    rw [hsupply first hfirst hself.1] at hindex
    have hi := assetIndex_ok hindex
    have hlast : (s'.assets D.self).lastUpdateTimestamp = x.msg.timestamp := by rw [hasset]; rfl
    have hindex' : (s'.assets D.self).index = i := by rw [hasset]; rfl
    have huser : (s'.assets D.self).users = (s.assets D.self).users := by rw [hasset]; rfl
    refine .of_updated hrewards' hsupply' hlast rfl (fun u => ?_) hemitted
    have hforward := hforward u
    rw [← hi] at hforward
    simpa only [Books.note, hlast, hindex', huser, hrewards, hbalances, hpaid, true_or, if_true, add_zero] using hforward

end

/-! ## Magnitudes -/

/-- With emissions of at most `E`, the emission so far and the index are
bounded by the time. -/
structure Fits (D : Deployment W) (E : Nat) (s : State W) (b : Books) : Prop where
  emission : (s.assets D.self).emissionPerSecond ≤ E
  emitted : b.emitted ≤ E * min b.time D.DISTRIBUTION_END
  index : (s.assets D.self).index + emittedBetween D s (s.assets D.self).lastUpdateTimestamp b.time * precisionUnit ≤
    b.emitted * precisionUnit

section

variable {x : Tx} {s s' : State W} {b : Books} {u : Address} {now t t' T E : Nat}

theorem emittedBetween_self : emittedBetween D s T T = 0 := by simp [emittedBetween]

theorem emittedBetween_add (h : t ≤ t') (h' : t' ≤ T) :
    emittedBetween D s t t' + emittedBetween D s t' T = emittedBetween D s t T := by
  unfold emittedBetween
  split
  · rfl
  · rw [← Nat.mul_add]
    congr 1
    omega

/-- The index grows by no more than what is emitted. -/
theorem assetGrowth_le : assetGrowth D T (s.assets D.self) s.totalSupply ≤
    emittedBetween D s (s.assets D.self).lastUpdateTimestamp T * precisionUnit := by
  unfold assetGrowth DistributionManager.indexGrowth emittedBetween
  split
  · next h => rw [h, Nat.div_zero]; exact Nat.zero_le _
  · exact Nat.div_le_self ..

theorem Fits.upTo (h : Fits D E s b) (hT : b.time ≤ T) :
    (b.upTo D s T).emitted ≤ E * min T D.DISTRIBUTION_END := by
  have hslice : emittedBetween D s b.time T ≤ E * (min T D.DISTRIBUTION_END - min b.time D.DISTRIBUTION_END) := by
    unfold emittedBetween
    split
    · exact Nat.zero_le _
    · exact Nat.mul_le_mul_right _ h.emission
  calc b.emitted + emittedBetween D s b.time T
      ≤ E * min b.time D.DISTRIBUTION_END + E * (min T D.DISTRIBUTION_END - min b.time D.DISTRIBUTION_END) :=
        Nat.add_le_add h.emitted hslice
    _ = E * min T D.DISTRIBUTION_END := by rw [← Nat.mul_add]; congr 1; omega

theorem Fits.broughtForward (h : Fits D E s b) (hlast : (s.assets D.self).lastUpdateTimestamp ≤ b.time)
    (hT : b.time ≤ T) :
    (s.assets D.self).index + assetGrowth D T (s.assets D.self) s.totalSupply ≤
      (b.upTo D s T).emitted * precisionUnit := by
  have hindex := h.index
  have hgrowth : assetGrowth D T (s.assets D.self) s.totalSupply ≤ _ := assetGrowth_le
  rw [← emittedBetween_add hlast hT] at hgrowth
  show _ ≤ (b.emitted + emittedBetween D s b.time T) * precisionUnit
  rw [Nat.add_mul] at hgrowth ⊢
  omega

/-- After a step that brings the asset to its last update, nothing is pending. -/
theorem Fits.of_updated (hemission : (s'.assets D.self).emissionPerSecond ≤ E)
    (hlast : (s'.assets D.self).lastUpdateTimestamp = T) (htime : b.time = T)
    (hemitted : b.emitted ≤ E * min T D.DISTRIBUTION_END)
    (hindex : (s'.assets D.self).index ≤ b.emitted * precisionUnit) : Fits D E s' b :=
  { emission := hemission
    emitted := by rw [htime]; exact hemitted
    index := by rw [hlast, htime, emittedBetween_self, Nat.zero_mul, Nat.add_zero]; exact hindex }

theorem Fits.step (hT : x.msg.timestamp < 2 ^ 128) (hsupply : x.PassesSupply D s)
    (hemission : ∀ input ∈ x.call.assetsConfigInput, input.underlyingAsset = D.self → input.emissionPerSecond ≤ E)
    (hfair : Fair D x.msg.timestamp s b) (h : Fits D E s b) (hx : exec D x s = .ok s') :
    Fits D E s' (b.note D x s s') := by
  have hemitted : (b.note D x s s').emitted ≤ _ := h.upTo hfair.time_le
  have hforward := h.broughtForward hfair.last_le hfair.time_le
  cases rewardStep_of_exec hT hx with
  | keep hasset hrewards hbalances htotal hpaid =>
    refine ⟨by rw [hasset]; exact h.emission, hemitted, ?_⟩
    have hsame : emittedBetween D s' (s'.assets D.self).lastUpdateTimestamp x.msg.timestamp =
        emittedBetween D s (s.assets D.self).lastUpdateTimestamp x.msg.timestamp := by
      simp only [emittedBetween, hasset, htotal]
    show (s'.assets D.self).index + emittedBetween D s' (s'.assets D.self).lastUpdateTimestamp x.msg.timestamp *
      precisionUnit ≤ (b.emitted + emittedBetween D s b.time x.msg.timestamp) * precisionUnit
    have hindex := h.index
    rw [hsame, hasset, ← emittedBetween_add hfair.last_le hfair.time_le, Nat.add_mul, Nat.add_mul]
    omega
  | settle users i r hindex haccrued hasset =>
    obtain rfl := assetIndex_ok hindex
    exact .of_updated (by rw [hasset]; exact h.emission) (by rw [hasset]; rfl) rfl hemitted
      (by rw [hasset]; exact hforward)
  | configure i first last hfirst hlast hself hindex hasset =>
    rw [hsupply first hfirst hself.1] at hindex
    obtain rfl := assetIndex_ok hindex
    exact .of_updated (by rw [hasset]; exact hemission last hlast hself.2) (by rw [hasset]; rfl) rfl hemitted
      (by rw [hasset]; exact hforward)

/-- Nobody is due more than everything emitted. -/
theorem Fair.ideal_le (h : Fair D now s b) (hT : b.time ≤ T) (u : Address) :
    (b.upTo D s T).ideal u ≤ (b.upTo D s T).emitted := by
  rw [← h.sum_upTo]
  refine Finset.single_le_sum (f := (b.upTo D s T).ideal) (fun v _ => ?_) (Finset.mem_univ u)
  exact (Nat.cast_nonneg _).trans (credited_le_worth.trans (h.broughtForward hT v).upper)

/-- What an account was paid and would be if settled now, against its ideal
share. -/
theorem Fair.payable (h : Fair D T s b) (u : Address) :
    let payable := s.stakerRewardsToClaim u + s.balances u * ((s.assets D.self).index +
      assetGrowth D T (s.assets D.self) s.totalSupply - (s.assets D.self).users u) / precisionUnit
    (b.claimed u + payable : ℚ) ≤ (b.upTo D s T).ideal u ∧
      (b.upTo D s T).ideal u - (b.accruals u + 1) - (b.dust u + s.balances u / 10 ^ 18) ≤ b.claimed u + payable := by
  intro payable
  obtain ⟨hupper, hlower⟩ := (h.broughtForward h.time_le u).payable
  rw [Nat.add_assoc, Nat.cast_add] at hupper hlower
  refine ⟨hupper, le_trans ?_ hlower⟩
  -- the view's own update counts only where time has passed
  have hbalance : (0 : ℚ) ≤ s.balances u / precisionUnit := by positivity
  have hunit : (s.balances u / 10 ^ 18 : ℚ) = s.balances u / precisionUnit := by
    norm_num [DistributionManager.PRECISION]
  rw [hunit]
  split <;> linarith

/-- What the view answers, with what was claimed, tracks the ideal share. -/
theorem Fair.answered (h : Fair D T s b) {n : Nat} (hn : getTotalRewardsBalance D T u s = .ok n) :
    (b.claimed u + n : ℚ) ≤ (b.upTo D s T).ideal u ∧
      (b.upTo D s T).ideal u - (b.accruals u + 1) - (b.dust u + s.balances u / 10 ^ 18) ≤ b.claimed u + n := by
  obtain ⟨i, hi, -, -, -, rfl⟩ := getTotalRewardsBalance_ok_iff.1 hn
  obtain rfl := assetIndex_ok hi
  exact h.payable u

theorem Fair.sum_answered (h : Fair D T s b) {n : Address → Nat}
    (hn : ∀ u, getTotalRewardsBalance D T u s = .ok (n u)) : ∑ u, (b.claimed u + n u) ≤ (b.upTo D s T).emitted := by
  have hsum : ∑ u, ((b.claimed u + n u : ℕ) : ℚ) ≤ (b.upTo D s T).emitted := by
    rw [← h.sum_upTo]
    exact Finset.sum_le_sum fun u _ => by push_cast; exact (h.answered (hn u)).1
  exact_mod_cast hsum

/-- Where what can be emitted fits a word in units of the index, so does
everything the view computes. -/
theorem Fits.getTotalRewardsBalance (h : Fits D E s b) (hfair : Fair D T s b)
    (hE : E * min T D.DISTRIBUTION_END * precisionUnit < 2 ^ 256) (u : Address) :
    ∃ n, StakedToken.getTotalRewardsBalance D T u s = .ok n := by
  have hemitted := h.upTo hfair.time_le
  have hindex := h.broughtForward hfair.last_le hfair.time_le
  have hscaled := Nat.mul_le_mul_right precisionUnit hemitted
  have hproduct : (s.assets D.self).emissionPerSecond * (min T D.DISTRIBUTION_END -
      min (s.assets D.self).lastUpdateTimestamp D.DISTRIBUTION_END) * precisionUnit < 2 ^ 256 :=
    (Nat.mul_le_mul_right _ (Nat.mul_le_mul h.emission (Nat.sub_le ..))).trans_lt hE
  have hi : assetIndex D T (s.assets D.self) s.totalSupply =
      .ok ((s.assets D.self).index + assetGrowth D T (s.assets D.self) s.totalSupply) :=
    DistributionManager.getAssetIndex_of hfair.rewards.last (fun _ => hproduct) ((hindex.trans hscaled).trans_lt hE)
  -- what the account earned and is credited is no more than what was emitted
  have hforward := hfair.broughtForward hfair.time_le u
  have hideal := hfair.ideal_le hfair.time_le u
  have hearned := earned_le_of_worth_le precisionUnit_pos (hforward.upper.trans hideal)
  have hpayable := Nat.cast_le.1 (hforward.payable.1.trans hideal)
  have hunit : (b.upTo D s T).emitted ≤ (b.upTo D s T).emitted * precisionUnit :=
    Nat.le_mul_of_pos_right _ precisionUnit_pos
  refine ⟨_, getTotalRewardsBalance_ok_iff.2 ⟨_, hi, hfair.rewards.index_le hi u, ?_, ?_, rfl⟩⟩
  · exact (hearned.trans hscaled).trans_lt hE
  · omega

end

/-! ## Runs -/

/-- Every entry for the staked token in a run passes what is then staked. -/
def SupplyPassed (D : Deployment W) (s : State W) (l : List Tx) : Prop :=
  ∀ p x, p ++ [x] <+: l → x.PassesSupply D (run D s p)

/-- No entry for the staked token in a run configures more than `E`. -/
def EmissionBounded (D : Deployment W) (l : List Tx) (E : Nat) : Prop :=
  ∀ x ∈ l, ∀ input ∈ x.call.assetsConfigInput, input.underlyingAsset = D.self → input.emissionPerSecond ≤ E

instance (l : List Tx) (E : Nat) : Decidable (EmissionBounded D l E) :=
  inferInstanceAs (Decidable (∀ x ∈ l, ∀ input ∈ x.call.assetsConfigInput, _))

section

variable {s : State W} {g : Address} {w : W} {l : List Tx} {x : Tx} {T E : Nat}

theorem supplyPassed_nil : SupplyPassed D s [] := by
  intro p x hp
  have := hp.length_le
  simp at this

theorem supplyPassed_cons :
    SupplyPassed D s (x :: l) ↔ x.PassesSupply D s ∧ SupplyPassed D (Runs.attempt (exec D) s x) l := by
  constructor
  · intro h
    exact ⟨h [] x (by simp), fun p y hp => h (x :: p) y (by simpa using hp)⟩
  · rintro ⟨hx, hl⟩ p y hp
    cases p with
    | nil => obtain rfl := (List.cons_prefix_cons.1 hp).1; exact hx
    | cons z p =>
      obtain ⟨rfl, hrest⟩ := List.cons_prefix_cons.1 hp
      exact hl p y hrest

instance decidableSupplyPassed : (s : State W) → (l : List Tx) → Decidable (SupplyPassed D s l)
  | _, [] => .isTrue supplyPassed_nil
  | s, x :: l =>
    have := decidableSupplyPassed (Runs.attempt (exec D) s x) l
    decidable_of_iff (x.PassesSupply D s ∧ SupplyPassed D (Runs.attempt (exec D) s x) l) supplyPassed_cons.symm

/-- The books of a new storage. -/
theorem Fair.fresh : Fair D 0 (.fresh g w) .empty :=
  { rewards := ⟨le_refl _, fun _ => le_refl _⟩
    supply := by rw [Ledger.total_def]; exact Finset.sum_const_zero
    last_le := le_refl _
    time_le := le_refl _
    tracks := fun _ => by constructor <;> simp [Books.empty, State.fresh, worth, idealBetween]
    emitted := by simp [Books.empty] }

theorem Fits.fresh : Fits D E (.fresh g w) .empty :=
  ⟨Nat.zero_le _, Nat.zero_le _, by simp [State.fresh, emittedBetween]⟩

/-- The books beside a run are kept about the run. -/
theorem run_books : (Runs.run (Runs.record (exec D) (Books.note D)) (s, .empty) l) = (run D s l, books D s l) :=
  Prod.ext (Runs.run_record_fst ..) rfl

variable (htimes : l.Pairwise fun x y => x.msg.timestamp ≤ y.msg.timestamp)
  (hl : ∀ x ∈ l, x.msg.timestamp ≤ T) (hT : T < 2 ^ 128) (hsupply : SupplyPassed D (.fresh g w) l)
include htimes hl hT hsupply

theorem Fair.run : Fair D T (StakedToken.run D (.fresh g w) l) (books D (.fresh g w) l) := by
  have h := Runs.run_clocked (Runs.record (exec D) (Books.note D)) (fun x : Tx => x.msg.timestamp)
    (fun now p => Fair D now p.1 p.2) (Q := fun x p _ => x.msg.timestamp < 2 ^ 128 ∧ x.PassesSupply D p.1)
    (fun _ _ _ hle h => h.mono hle) (fun x p p' hx h hs => ?_) (s := (.fresh g w, .empty)) Fair.fresh htimes
    (fun p x hp => ?_) (fun _ _ => Nat.zero_le _) (Nat.zero_le _) hl
  · rw [run_books] at h
    exact h
  · obtain ⟨hs, hnote⟩ := Runs.record_ok_iff.1 hs
    rw [hnote]
    exact h.step hx.1 hx.2 hs
  · rw [run_books]
    exact ⟨(hl x (hp.subset (by simp))).trans_lt hT, hsupply p x hp⟩

theorem Fits.run (hE : EmissionBounded D l E) :
    Fits D E (StakedToken.run D (.fresh g w) l) (books D (.fresh g w) l) := by
  have h := Runs.run_clocked (Runs.record (exec D) (Books.note D)) (fun x : Tx => x.msg.timestamp)
    (fun now p => Fair D now p.1 p.2 ∧ Fits D E p.1 p.2)
    (Q := fun x p _ => x.msg.timestamp < 2 ^ 128 ∧ x.PassesSupply D p.1 ∧ x ∈ l)
    (fun _ _ _ hle h => ⟨h.1.mono hle, h.2⟩) (fun x p p' hx h hs => ?_)
    (s := (.fresh g w, .empty)) ⟨Fair.fresh, Fits.fresh⟩ htimes (fun p x hp => ?_)
    (fun _ _ => Nat.zero_le _) (Nat.zero_le _) hl
  · rw [run_books] at h
    exact h.2
  · obtain ⟨hs, hnote⟩ := Runs.record_ok_iff.1 hs
    rw [hnote]
    exact ⟨h.1.step hx.1 hx.2.1 hs, h.2.step hx.1 hx.2.1 (hE x hx.2.2) h.1 hs⟩
  · rw [run_books]
    have hx : x ∈ l := hp.subset (by simp)
    exact ⟨(hl x hx).trans_lt hT, hsupply p x hp, hx⟩

end

/-- **Everybody gets their share.** In a run whose entries of
`configureAssets` pass what is staked, an account's rewards, claimed and
claimable, are at most its ideal share; and at least that, less one for
every accrual and one for the view's, and less its balance in units of the
index for every update of the index and for the view's. All together claim
no more than was emitted. And the view answers for everybody if what can be
emitted fits a word in units of the index. -/
theorem emission_shared {g : Address} {w : W} {l : List Tx} {T : Nat}
    (htimes : l.Pairwise fun x y => x.msg.timestamp ≤ y.msg.timestamp) (hl : ∀ x ∈ l, x.msg.timestamp ≤ T)
    (hT : T < 2 ^ 128) (hsupply : SupplyPassed D (.fresh g w) l) :
    let s := run D (.fresh g w) l
    let b := (books D (.fresh g w) l).upTo D s T
    (∀ u n, getTotalRewardsBalance D T u s = .ok n →
      (b.claimed u + n : ℚ) ≤ b.ideal u ∧
        b.ideal u - (b.accruals u + 1) - (b.dust u + s.balances u / 10 ^ 18) ≤ b.claimed u + n) ∧
    (∀ n : Address → Nat, (∀ u, getTotalRewardsBalance D T u s = .ok (n u)) →
      ∑ u, (b.claimed u + n u) ≤ b.emitted) ∧
    ∀ E, EmissionBounded D l E → E * min T D.DISTRIBUTION_END * 10 ^ 18 < 2 ^ 256 →
      ∀ u, ∃ n, getTotalRewardsBalance D T u s = .ok n := by
  intro s b
  have hfair : Fair D T s _ := .run htimes hl hT hsupply
  exact ⟨fun u n hn => hfair.answered hn, fun n hn => hfair.sum_answered hn,
    fun E hE hfit u => (Fits.run htimes hl hT hsupply hE).getTotalRewardsBalance hfair hfit u⟩

/-- The sample run, a second staker, a claim and a transfer. -/
def sharedRun : List Tx :=
  sampleRun ++ [⟨.v2, ⟨.ofNat 11, 3, 250, sampleOther_ne⟩, .stake (.ofNat 11) 5⟩,
    ⟨.v2, ⟨.ofNat 10, 4, 260, sampleHolder_ne⟩, .claimRewards (.ofNat 10) 400⟩,
    ⟨.v2, ⟨.ofNat 10, 5, 270, sampleHolder_ne⟩, .transfer (.ofNat 11) 3⟩]

theorem emission_shared_two :
    let s := run .sample (.fresh 0 ()) sharedRun
    let b := (books .sample (.fresh 0 ()) sharedRun).upTo .sample s 300
    ∀ u, ∃ n, getTotalRewardsBalance .sample 300 u s = .ok n ∧ (b.claimed u + n : ℚ) ≤ b.ideal u ∧
      b.ideal u - (b.accruals u + 1) - (b.dust u + s.balances u / 10 ^ 18) ≤ b.claimed u + n := by
  intro s b u
  have h := emission_shared (D := .sample) (g := 0) (w := ()) (l := sharedRun) (T := 300) (by decide) (by decide)
    (by decide) (by decide +kernel)
  obtain ⟨n, hn⟩ := h.2.2 10 (by decide) (by decide) u
  exact ⟨n, hn, h.1 u n hn⟩

/-- Where a timestamp does not fit its 128 bits, seconds count twice and the
holder gets more than their share. -/
theorem share_exceeded :
    let l : List Tx := sampleRun ++ [⟨.v2, ⟨.ofNat 11, 3, 2 ^ 128 + 300, by decide⟩, .stake (.ofNat 11) 7⟩]
    let s := run .sample (.fresh 0 ()) l
    let b := (books .sample (.fresh 0 ()) l).upTo .sample s (2 ^ 128 + 300)
    SupplyPassed .sample (.fresh 0 ()) l ∧ getTotalRewardsBalance .sample (2 ^ 128 + 300) (.ofNat 10) s = .ok 11499 ∧
      b.ideal (.ofNat 10) < (b.claimed (.ofNat 10) + 11499 : ℚ) := by
  decide +kernel

end StarlayStake
