/-
Means of natural numbers, weighted and rounded down. A mean lies between
its two values and within one below the exact quotient. A balance that
takes in amounts one at a time, each at the same value, rounds once for
each: its mean ends below the mean of taking them in at once, by less than
there are amounts (`absorbed_le_mean`, `mean_le_absorbed`).
-/
import Mathlib.Algebra.BigOperators.Group.List.Basic
import Mathlib.Tactic.Linarith
import Mathlib.Tactic.Ring

namespace Mean

/-- The mean of `x` with weight `a` and `y` with weight `b`. -/
def mean (a x b y : ℕ) : ℕ := (a * x + b * y) / (a + b)

variable {a b x y n : ℕ}

theorem mean_mul_le (a x b y : ℕ) : mean a x b y * (a + b) ≤ a * x + b * y := Nat.div_mul_le_self ..

theorem lt_mean_succ_mul (h : 0 < a + b) : a * x + b * y < (mean a x b y + 1) * (a + b) :=
  (Nat.lt_mul_div_succ _ h).trans_eq (Nat.mul_comm ..)

theorem le_mean (h : 0 < a + b) (hyx : y ≤ x) : y ≤ mean a x b y := by
  refine (Nat.le_div_iff_mul_le h).2 ?_
  have := Nat.mul_le_mul_left a hyx
  calc y * (a + b) = a * y + b * y := by ring
    _ ≤ a * x + b * y := by omega

theorem mean_le (hx : x ≤ n) (hy : y ≤ n) : mean a x b y ≤ n := by
  refine Nat.div_le_of_le_mul ?_
  calc a * x + b * y ≤ a * n + b * n := Nat.add_le_add (Nat.mul_le_mul_left a hx) (Nat.mul_le_mul_left b hy)
    _ = (a + b) * n := by ring

/-- Taking in nothing changes no mean. -/
theorem mean_zero (h : 0 < b) : mean 0 x b y = y := by
  rw [mean, Nat.zero_mul, Nat.zero_add, Nat.zero_add, Nat.mul_div_cancel_left _ h]

/-! ## One amount at a time -/

/-- The balance and the mean after taking in amounts one at a time, at `x`. -/
def absorbed (x : ℕ) (p : ℕ × ℕ) (l : List ℕ) : ℕ × ℕ := l.foldl (fun p a => (a + p.1, mean a x p.1 p.2)) p

variable {l : List ℕ}

theorem absorbed_cons (x : ℕ) (p : ℕ × ℕ) (a : ℕ) (l : List ℕ) :
    absorbed x p (a :: l) = absorbed x (a + p.1, mean a x p.1 p.2) l := rfl

theorem absorbed_mul_le : (absorbed x (b, y) l).2 * (l.sum + b) ≤ l.sum * x + b * y := by
  induction l generalizing b y with
  | nil => simp [absorbed, Nat.mul_comm]
  | cons a l ih =>
    have hmean := mean_mul_le a x b y
    have htail := @ih (a + b) (mean a x b y)
    rw [absorbed_cons, List.sum_cons]
    calc _ = (absorbed x (a + b, mean a x b y) l).2 * (l.sum + (a + b)) := by congr 1; omega
      _ ≤ l.sum * x + (a + b) * mean a x b y := htail
      _ ≤ l.sum * x + (a * x + b * y) := by rw [Nat.mul_comm (a + b)]; omega
      _ = (a + l.sum) * x + b * y := by ring

/-- Every amount taken in rounds by less than the balance at the end. -/
theorem lt_absorbed_mul (h : ∀ a ∈ l, 0 < a) :
    l.sum * x + b * y + l.length ≤ ((absorbed x (b, y) l).2 + l.length) * (l.sum + b) := by
  induction l generalizing b y with
  | nil => simp [absorbed, Nat.mul_comm]
  | cons a l ih =>
    have ha : 0 < a := h a (by simp)
    have hmean := lt_mean_succ_mul (x := x) (y := y) (show 0 < a + b by omega)
    have htail := @ih (a + b) (mean a x b y) fun a ha => h a (by simp [ha])
    rw [absorbed_cons, List.sum_cons, List.length_cons]
    have hsum : l.sum + (a + b) = a + l.sum + b := by omega
    rw [hsum] at htail
    calc (a + l.sum) * x + b * y + (l.length + 1)
        = l.sum * x + (a * x + b * y + 1) + l.length := by ring
      _ ≤ l.sum * x + (a + b) * mean a x b y + l.length + (a + b) := by linarith
      _ ≤ ((absorbed x (a + b, mean a x b y) l).2 + l.length) * (a + l.sum + b) + (a + l.sum + b) := by omega
      _ = ((absorbed x (a + b, mean a x b y) l).2 + (l.length + 1)) * (a + l.sum + b) := by ring

theorem absorbed_le_mean (h : 0 < l.sum + b) : (absorbed x (b, y) l).2 ≤ mean l.sum x b y :=
  (Nat.le_div_iff_mul_le h).2 absorbed_mul_le

theorem mean_le_absorbed (hl : l ≠ []) (h : ∀ a ∈ l, 0 < a) :
    mean l.sum x b y ≤ (absorbed x (b, y) l).2 + (l.length - 1) := by
  have hlength := List.length_pos_iff.2 hl
  have hlt := lt_absorbed_mul (x := x) (b := b) (y := y) h
  have : mean l.sum x b y < (absorbed x (b, y) l).2 + l.length := by
    refine Nat.div_lt_of_lt_mul (lt_of_lt_of_le ?_ (hlt.trans_eq (Nat.mul_comm ..)))
    omega
  omega

end Mean
