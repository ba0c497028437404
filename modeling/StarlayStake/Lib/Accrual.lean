/-
Sharing an emission out through an index. What is emitted while `total` is
held is due to every account in proportion to its balance; instead of
crediting them all, an index grows by the emission per unit held, and an
account is credited, when it is settled, its balance times what the index
grew since. Index and credits are natural numbers, in parts of `unit`, and
both round down.

What an account is worth (`worth`) then never exceeds its ideal share, and
falls short of it by less than one for every settlement and its balance in
parts of `unit` for every growth of the index (`Tracks`): a rule for each of
the two, and `Tracks.payable` for what it would be paid if settled now. What
all accounts are `owed` together is within what was emitted, and what one
account is credited, by an index of each of many sources, within what its
highest balances can have earned (`mostEarned`).
-/
import Mathlib.Algebra.BigOperators.Ring.Finset
import Mathlib.Algebra.Order.BigOperators.Group.Finset
import Mathlib.Algebra.Order.Field.Rat
import Mathlib.Data.Nat.Cast.Order.Field
import Mathlib.Data.Rat.Cast.Order
import Mathlib.Tactic.FieldSimp
import Mathlib.Tactic.Linarith
import Mathlib.Tactic.Positivity
import Mathlib.Tactic.Ring

namespace Accrual

/-- What an account is credited, and what its balance has earned since its
own index. -/
def worth (unit credited balance index userIndex : ℕ) : ℚ :=
  credited + balance * (index - userIndex : ℕ) / unit

/-- What an account is worth is at most its ideal share, and at least that
but for the roundings of `settlements` and the `dust` of its index. -/
structure Tracks (ideal : ℚ) (settlements : ℕ) (dust worth : ℚ) : Prop where
  upper : worth ≤ ideal
  lower : ideal ≤ worth + settlements + dust

variable {unit credited balance balance' index userIndex emitted total settlements : ℕ} {ideal dust : ℚ}

/-- A quotient of natural numbers rounds down by less than one. -/
theorem div_le_cast_div_add_one (m n : ℕ) : (m / n : ℚ) ≤ (m / n : ℕ) + 1 := by
  rcases Nat.eq_zero_or_pos n with rfl | hn
  · simp
  · rw [div_le_iff₀ (by exact_mod_cast hn)]
    have := Nat.lt_div_mul_add hn (a := m)
    have hle : m ≤ (m / n + 1) * n := by linarith
    exact_mod_cast hle

theorem worth_settled : worth unit credited balance index index = credited := by simp [worth]

theorem credited_le_worth : (credited : ℚ) ≤ worth unit credited balance index userIndex := by
  rw [worth]
  have : (0 : ℚ) ≤ balance * (index - userIndex : ℕ) / unit := by positivity
  linarith

/-- An account with nothing is worth what it is credited. -/
theorem worth_empty : worth unit credited 0 index userIndex = credited := by simp [worth]

/-- What a balance has earned, in parts of the unit, is within any bound on
the account's worth. -/
theorem earned_le_of_worth_le {bound : ℕ} (hunit : 0 < unit)
    (h : worth unit credited balance index userIndex ≤ bound) : balance * (index - userIndex) ≤ bound * unit := by
  have hunit' : (0 : ℚ) < unit := by exact_mod_cast hunit
  have hearned : (balance * (index - userIndex : ℕ) / unit : ℚ) ≤ bound := by
    rw [worth] at h
    have : (0 : ℚ) ≤ credited := by positivity
    linarith
  rw [div_le_iff₀ hunit'] at hearned
  exact_mod_cast hearned

/-- The index grows by what is emitted per unit held. -/
theorem Tracks.grow (hunit : 0 < unit) (hle : userIndex ≤ index)
    (h : Tracks ideal settlements dust (worth unit credited balance index userIndex)) :
    Tracks (ideal + balance * emitted / total) settlements (dust + balance / unit)
      (worth unit credited balance (index + emitted * unit / total) userIndex) := by
  have hunit' : (0 : ℚ) < unit := by exact_mod_cast hunit
  -- the growth, in parts of the unit, is the emission per unit held, rounded down
  have hupper : ((emitted * unit / total : ℕ) : ℚ) / unit ≤ emitted / total := by
    rw [div_le_iff₀ hunit', div_mul_eq_mul_div]
    exact_mod_cast Nat.cast_div_le (α := ℚ) (m := emitted * unit) (n := total)
  have hlower : (emitted / total : ℚ) ≤ (emitted * unit / total : ℕ) / unit + 1 / unit := by
    rw [← add_div, le_div_iff₀ hunit', div_mul_eq_mul_div]
    exact_mod_cast div_le_cast_div_add_one (emitted * unit) total
  generalize emitted * unit / total = growth at hupper hlower ⊢
  have hworth : worth unit credited balance (index + growth) userIndex =
      worth unit credited balance index userIndex + balance * (growth / unit) := by
    rw [worth, worth, show index + growth - userIndex = index - userIndex + growth by omega]
    push_cast
    ring
  have hbalance : (0 : ℚ) ≤ balance := by positivity
  have hupper' := mul_le_mul_of_nonneg_left hupper hbalance
  have hlower' := mul_le_mul_of_nonneg_left hlower hbalance
  rw [mul_add, mul_one_div] at hlower'
  constructor
  · rw [hworth, mul_div_assoc]; linarith [h.upper]
  · rw [hworth, mul_div_assoc]; linarith [h.lower]

/-- An account is credited what its balance has earned, and starts from the
index with any balance. -/
theorem Tracks.settle (h : Tracks ideal settlements dust (worth unit credited balance index userIndex)) :
    Tracks ideal (settlements + 1) dust
      (worth unit (credited + balance * (index - userIndex) / unit) balance' index index) := by
  have hupper := Nat.cast_div_le (α := ℚ) (m := balance * (index - userIndex)) (n := unit)
  have hlower := div_le_cast_div_add_one (balance * (index - userIndex)) unit
  have hworth := h.upper
  have hideal := h.lower
  rw [worth] at hworth hideal
  push_cast at hupper hlower hworth hideal
  constructor
  · rw [worth_settled]; push_cast; linarith
  · rw [worth_settled]; push_cast; linarith

/-- An account already at the index is credited nothing, and may change its
balance. -/
theorem Tracks.rebalance (h : Tracks ideal settlements dust (worth unit credited balance index index)) :
    Tracks ideal settlements dust (worth unit credited balance' index index) := by
  rw [worth_settled] at h ⊢
  exact h

/-- What an account would be paid if it were settled now. -/
theorem Tracks.payable (h : Tracks ideal settlements dust (worth unit credited balance index userIndex)) :
    ((credited + balance * (index - userIndex) / unit : ℕ) : ℚ) ≤ ideal ∧
      ideal - (settlements + 1) - dust ≤ (credited + balance * (index - userIndex) / unit : ℕ) := by
  have hsettled : Tracks ideal (settlements + 1) dust
    (worth unit (credited + balance * (index - userIndex) / unit) 0 index index) := h.settle
  have hupper := hsettled.upper
  have hlower := hsettled.lower
  rw [worth_settled] at hupper hlower
  push_cast at hlower
  exact ⟨hupper, by push_cast; linarith⟩

/-! ## What all are owed -/

section

variable {α : Type} [Fintype α]

/-- What the balances of all accounts have earned since their own indexes, in
parts of the unit. -/
def owed (balances : α → ℕ) (index : ℕ) (userIndexes : α → ℕ) : ℕ := ∑ u, balances u * (index - userIndexes u)

variable {balances balances' : α → ℕ} {index growth : ℕ} {userIndexes : α → ℕ} {unit emitted : ℕ}

/-- While the index grows, they are owed no more than what is emitted. -/
theorem owed_grow (hle : ∀ u, userIndexes u ≤ index) (hgrowth : growth = emitted * unit / ∑ u, balances u) :
    owed balances (index + growth) userIndexes ≤ owed balances index userIndexes + unit * emitted := by
  have hsplit : owed balances (index + growth) userIndexes =
      owed balances index userIndexes + (∑ u, balances u) * growth := by
    rw [owed, owed, Finset.sum_mul, ← Finset.sum_add_distrib]
    refine Finset.sum_congr rfl fun u _ => ?_
    have := hle u
    rw [← Nat.mul_add]
    congr 1
    omega
  rw [hsplit, hgrowth, Nat.mul_comm unit]
  exact Nat.add_le_add_left (Nat.mul_div_le ..) _

/-- What is credited to an account is owed no more. -/
theorem owed_settle [DecidableEq α] (u : α) :
    owed balances index (Function.update userIndexes u index) +
      unit * (balances u * (index - userIndexes u) / unit) ≤ owed balances index userIndexes := by
  have hrest : owed balances index (Function.update userIndexes u index) + balances u * (index - userIndexes u) =
      owed balances index userIndexes := by
    rw [owed, owed, ← Finset.add_sum_erase _ _ (Finset.mem_univ u),
      ← Finset.add_sum_erase _ (fun v => balances v * (index - userIndexes v)) (Finset.mem_univ u)]
    have herase : ∑ v ∈ Finset.univ.erase u, balances v * (index - Function.update userIndexes u index v) =
        ∑ v ∈ Finset.univ.erase u, balances v * (index - userIndexes v) :=
      Finset.sum_congr rfl fun v hv => by rw [Function.update_of_ne (Finset.ne_of_mem_erase hv)]
    rw [herase, Function.update_self, Nat.sub_self, Nat.mul_zero]
    omega
  have := Nat.mul_div_le (balances u * (index - userIndexes u)) unit
  omega

/-- What all could be credited is within what they are owed. -/
theorem sum_payable_le :
    unit * ∑ u, balances u * (index - userIndexes u) / unit ≤ owed balances index userIndexes := by
  rw [owed, Finset.mul_sum]
  exact Finset.sum_le_sum fun u _ => Nat.mul_div_le ..

/-- Accounts at the index may change their balances. -/
theorem owed_rebalance (h : ∀ u, balances' u ≠ balances u → userIndexes u = index) :
    owed balances' index userIndexes = owed balances index userIndexes := by
  refine Finset.sum_congr rfl fun u _ => ?_
  by_cases hu : balances' u = balances u
  · rw [hu]
  · rw [h u hu, Nat.sub_self, Nat.mul_zero, Nat.mul_zero]

end

/-! ## One account, many sources -/

section

variable {α : Type} [Fintype α]

/-- What an account that holds no more than `bounds` can have earned up to its
own index of every source, in parts of the unit. -/
def mostEarned (bounds userIndexes : α → ℕ) : ℕ := ∑ a, bounds a * userIndexes a

variable {bounds userIndexes indexes : α → ℕ} {index staked : ℕ} {unit : ℕ}

/-- What it is credited at a source it earned since its own index. -/
theorem mostEarned_settle [DecidableEq α] {a : α} (hle : userIndexes a ≤ index) (hstaked : staked ≤ bounds a) :
    mostEarned bounds userIndexes + unit * (staked * (index - userIndexes a) / unit) ≤
      mostEarned bounds (Function.update userIndexes a index) := by
  have hrest : mostEarned bounds (Function.update userIndexes a index) =
      mostEarned bounds userIndexes + bounds a * (index - userIndexes a) := by
    rw [mostEarned, mostEarned, ← Finset.add_sum_erase _ _ (Finset.mem_univ a),
      ← Finset.add_sum_erase _ (fun b => bounds b * userIndexes b) (Finset.mem_univ a)]
    have herase : ∑ b ∈ Finset.univ.erase a, bounds b * Function.update userIndexes a index b =
        ∑ b ∈ Finset.univ.erase a, bounds b * userIndexes b :=
      Finset.sum_congr rfl fun b hb => by rw [Function.update_of_ne (Finset.ne_of_mem_erase hb)]
    have hself : bounds a * index = bounds a * userIndexes a + bounds a * (index - userIndexes a) := by
      rw [← Nat.mul_add, Nat.add_sub_cancel' hle]
    rw [herase, Function.update_self, hself]
    omega
  have hcredited := Nat.mul_div_le (staked * (index - userIndexes a)) unit
  have hbound := Nat.mul_le_mul_right (index - userIndexes a) hstaked
  omega

theorem mostEarned_mono (h : ∀ a, userIndexes a ≤ indexes a) : mostEarned bounds userIndexes ≤ mostEarned bounds indexes :=
  Finset.sum_le_sum fun a _ => Nat.mul_le_mul_left _ (h a)

end

end Accrual
