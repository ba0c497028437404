/-
A counter for every owner, and a log of the numbers that were used up: each
use takes the owner's counter and raises it. The numbers an owner used are
then 0, 1, 2 and so on, in this order (`InOrder`), and none is used twice
(`InOrder.nodup`).
-/
import Mathlib.Data.List.Nodup
import Mathlib.Data.List.Range
import Mathlib.Logic.Function.Basic

namespace Counters

variable {α : Type} [DecidableEq α]

/-- The numbers `a` used, in order. -/
def usedBy (log : List (α × ℕ)) (a : α) : List ℕ := (log.filter fun u => u.1 = a).map Prod.snd

/-- Every owner used the numbers below its counter, in order. -/
def InOrder (counters : α → ℕ) (log : List (α × ℕ)) : Prop := ∀ a, usedBy log a = List.range (counters a)

variable {counters : α → ℕ} {log : List (α × ℕ)} {a b : α} {n : ℕ}

theorem usedBy_concat : usedBy (log ++ [(b, n)]) a = if b = a then usedBy log a ++ [n] else usedBy log a := by
  unfold usedBy
  rw [List.filter_append, List.filter_cons, List.filter_nil]
  by_cases h : b = a <;> simp [h]

theorem mem_usedBy : n ∈ usedBy log a ↔ (a, n) ∈ log := by
  simp [usedBy]

theorem InOrder.nil : InOrder (fun _ : α => 0) [] := fun _ => rfl

/-- The next use is of the counter, which it raises. -/
theorem InOrder.use (h : InOrder counters log) (a : α) :
    InOrder (Function.update counters a (counters a + 1)) (log ++ [(a, counters a)]) := by
  intro b
  rw [usedBy_concat]
  by_cases hb : a = b
  · subst hb
    rw [if_pos rfl, Function.update_self, List.range_succ, h a]
  · rw [if_neg hb, Function.update_of_ne (Ne.symm hb), h b]

theorem InOrder.mem_iff (h : InOrder counters log) : (a, n) ∈ log ↔ n < counters a := by
  rw [← mem_usedBy, h a, List.mem_range]

/-- A counter is at most the number of uses. -/
theorem InOrder.counter_le (h : InOrder counters log) (a : α) : counters a ≤ log.length := by
  have hlength := congrArg List.length (h a)
  rw [List.length_range, usedBy, List.length_map] at hlength
  exact hlength ▸ List.length_filter_le ..

/-- No number is used twice. -/
theorem InOrder.nodup (h : InOrder counters log) : log.Nodup := by
  rw [List.nodup_iff_count_le_one]
  rintro ⟨a, n⟩
  have hcount : log.count (a, n) ≤ (usedBy log a).count n := by
    have hfilter : (log.filter fun u => u.1 = a).count (a, n) = log.count (a, n) := List.count_filter (by simp)
    exact hfilter ▸ List.count_le_count_map (f := Prod.snd)
  have hrange := List.nodup_iff_count_le_one.1 (List.nodup_range (n := counters a)) n
  rw [← h a] at hrange
  exact hcount.trans hrange

end Counters
