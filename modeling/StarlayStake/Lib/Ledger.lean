/-
Ledgers: balances in natural numbers, over any type of accounts. Crediting
and debiting one account, the total of a ledger, and the share of a
representative: what the accounts it stands for hold together.
-/
import Mathlib.Algebra.BigOperators.Group.Finset.Sigma
import Mathlib.Algebra.Order.BigOperators.Group.Finset
import Mathlib.Data.Fintype.BigOperators

namespace Ledger

variable {α β : Type}

/-! ## Totals and shares -/

section

variable [Fintype α]

def total (b : α → ℕ) : ℕ := ∑ x, b x

theorem total_def (b : α → ℕ) : total b = ∑ x, b x := rfl

theorem le_total (b : α → ℕ) (x : α) : b x ≤ total b :=
  Finset.single_le_sum (fun _ _ => Nat.zero_le _) (Finset.mem_univ x)

/-- Two ledgers that differ at one account differ in total by what they
differ there. -/
theorem total_of_eq_off {b c : α → ℕ} {x : α} (h : ∀ z, z ≠ x → c z = b z) : total c + b x = total b + c x := by
  classical
  have hb := Finset.add_sum_erase Finset.univ b (Finset.mem_univ x)
  have hc := Finset.add_sum_erase Finset.univ c (Finset.mem_univ x)
  have he : ∑ z ∈ Finset.univ.erase x, c z = ∑ z ∈ Finset.univ.erase x, b z :=
    Finset.sum_congr rfl fun z hz => h z (Finset.ne_of_mem_erase hz)
  rw [he] at hc
  unfold total
  omega

/-- The same for two accounts. -/
theorem total_of_eq_off₂ {b c : α → ℕ} {x y : α} (hxy : x ≠ y) (h : ∀ z, z ≠ x → z ≠ y → c z = b z) :
    total c + b x + b y = total b + c x + c y := by
  classical
  have hx : total (Function.update b x (c x)) + b x = total b + _ :=
    total_of_eq_off fun z hz => Function.update_of_ne hz ..
  have hy : total c + Function.update b x (c x) y = total (Function.update b x (c x)) + c y := by
    refine total_of_eq_off fun z hz => ?_
    by_cases hzx : z = x
    · rw [hzx, Function.update_self]
    · rw [Function.update_of_ne hzx, h z hzx hz]
  rw [Function.update_self] at hx
  rw [Function.update_of_ne (Ne.symm hxy)] at hy
  omega

variable [DecidableEq β]

/-- What the accounts `rep` maps to `y` hold together. -/
def share (rep : α → β) (b : α → ℕ) (y : β) : ℕ := ∑ x with rep x = y, b x

theorem share_def (rep : α → β) (b : α → ℕ) (y : β) : share rep b y = ∑ x with rep x = y, b x := rfl

theorem share_eq_sum_ite (rep : α → β) (b : α → ℕ) (y : β) :
    share rep b y = ∑ x, if rep x = y then b x else 0 := Finset.sum_filter ..

theorem le_share (rep : α → β) (b : α → ℕ) (x : α) : b x ≤ share rep b (rep x) :=
  Finset.single_le_sum (f := b) (fun _ _ => Nat.zero_le _) (by simp)

theorem share_le_total (rep : α → β) (b : α → ℕ) (y : β) : share rep b y ≤ total b :=
  Finset.sum_le_sum_of_subset (Finset.filter_subset _ _)

/-- The shares of all representatives make up the total. -/
theorem sum_share [Fintype β] (rep : α → β) (b : α → ℕ) : ∑ y, share rep b y = total b :=
  Finset.sum_fiberwise Finset.univ rep b

/-- A representative that stands for one account alone holds its balance. -/
theorem share_alone {rep : α → β} {x : α} {y : β} (h : ∀ z, rep z = y ↔ z = x) (b : α → ℕ) :
    share rep b y = b x := by
  have : Finset.univ.filter (fun z => rep z = y) = {x} := by ext z; simp [h z]
  rw [share, this, Finset.sum_singleton]

end

/-! ## Crediting and debiting -/

variable [DecidableEq α]

/-- `k` more at `x`. -/
def credit (b : α → ℕ) (x : α) (k : ℕ) : α → ℕ := Function.update b x (b x + k)

/-- `k` less at `x`. -/
def debit (b : α → ℕ) (x : α) (k : ℕ) : α → ℕ := Function.update b x (b x - k)

variable {b : α → ℕ} {x y : α} {k : ℕ}

@[simp] theorem credit_self : credit b x k x = b x + k := Function.update_self ..

@[simp] theorem debit_self : debit b x k x = b x - k := Function.update_self ..

theorem credit_of_ne (h : y ≠ x) : credit b x k y = b y := Function.update_of_ne h ..

theorem credit_apply (b : α → ℕ) (x : α) (k : ℕ) (y : α) : credit b x k y = b y + if y = x then k else 0 := by
  by_cases h : y = x
  · subst h; simp
  · simp [credit_of_ne h, h]

theorem debit_of_ne (h : y ≠ x) : debit b x k y = b y := Function.update_of_ne h ..

@[simp] theorem credit_zero : credit b x 0 = b := by simp [credit]

theorem credit_debit (h : k ≤ b x) : credit (debit b x k) x k = b := by
  simp [credit, debit, Nat.sub_add_cancel h]

variable [Fintype α]

theorem total_credit (b : α → ℕ) (x : α) (k : ℕ) : total (credit b x k) = total b + k := by
  have h : total (credit b x k) + b x = total b + credit b x k x := total_of_eq_off fun z hz => credit_of_ne hz
  rw [credit_self] at h
  omega

theorem total_debit (h : k ≤ b x) : total (debit b x k) + k = total b := by
  rw [← total_credit (debit b x k) x k, credit_debit h]

variable [DecidableEq β]

theorem share_credit (rep : α → β) (b : α → ℕ) (x : α) (k : ℕ) (y : β) :
    share rep (credit b x k) y = share rep b y + if rep x = y then k else 0 := by
  have hite : (fun z => if rep z = y then credit b x k z else 0) =
      credit (fun z => if rep z = y then b z else 0) x (if rep x = y then k else 0) := by
    funext z
    by_cases hz : z = x
    · subst hz
      by_cases hy : rep z = y <;> simp [hy]
    · simp [credit_of_ne hz]
  rw [share_eq_sum_ite, share_eq_sum_ite, hite]
  exact total_credit _ _ _

theorem share_debit (rep : α → β) (h : k ≤ b x) (y : β) :
    share rep (debit b x k) y + (if rep x = y then k else 0) = share rep b y := by
  rw [← share_credit, credit_debit h]

/-- Mapping `x` to `z` instead moves its balance from one share to another. -/
theorem share_update (rep : α → β) (b : α → ℕ) (x : α) (z y : β) :
    share (Function.update rep x z) b y + (if rep x = y then b x else 0) =
      share rep b y + if z = y then b x else 0 := by
  rw [share_eq_sum_ite, share_eq_sum_ite, ← Finset.add_sum_erase _ _ (Finset.mem_univ x),
    ← Finset.add_sum_erase _ (fun w => if rep w = y then b w else 0) (Finset.mem_univ x)]
  have he : ∑ w ∈ Finset.univ.erase x, (if Function.update rep x z w = y then b w else 0) =
      ∑ w ∈ Finset.univ.erase x, (if rep w = y then b w else 0) :=
    Finset.sum_congr rfl fun w hw => by rw [Function.update_of_ne (Finset.ne_of_mem_erase hw)]
  rw [he, Function.update_self]
  omega

end Ledger
