/-
One emission shared out twice through an index (see `Accrual`), the second
time in finer slices of time: its index is brought forward, and accounts are
settled, also where the first does nothing. The second rounds down more
often. An account never has more of it than of the first, and falls behind
by at most its balance in parts of `unit` for every slice it was cut in, and
one for each of the two roundings (`Trails`).

Inside a slice of the first the second has in its index what the first has
yet to emit (`pending`). The two are therefore compared as they would stand
after any emission to both, and any growth of both indexes after that: the
comparison then survives the end of the slice and a new total.
-/
import Mathlib.Data.Nat.ModEq

namespace Accrual

/-- An account beside the index of what is shared out. -/
structure Share where
  credited : ℕ
  index : ℕ
  userIndex : ℕ

namespace Share

/-- What the index would be ahead of the account, were it to grow by `growth`. -/
def lead (a : Share) (growth : ℕ) : ℕ := a.index + growth - a.userIndex

/-- What an account holding `balance` would be credited in all, if it were
then settled. -/
def due (unit balance : ℕ) (a : Share) (growth : ℕ) : ℕ := a.credited + balance * a.lead growth / unit

/-- The index grows. -/
def grow (growth : ℕ) (a : Share) : Share := { a with index := a.index + growth }

/-- The account is settled at the index. -/
def settle (unit balance : ℕ) (a : Share) : Share :=
  { a with credited := a.due unit balance 0, userIndex := a.index }

variable {unit balance balance' growth further : ℕ} {a : Share}

@[simp] theorem lead_grow : (a.grow growth).lead further = a.lead (growth + further) := by
  rw [lead, lead, grow, Nat.add_assoc]

@[simp] theorem lead_settle : (a.settle unit balance).lead growth = growth := Nat.add_sub_cancel_left ..

theorem lead_mono (h : growth ≤ further) : a.lead growth ≤ a.lead further :=
  Nat.sub_le_sub_right (Nat.add_le_add_left h _) _

theorem lead_succ : a.lead (growth + 1) ≤ a.lead growth + 1 := by
  simp only [lead]
  omega

/-- An account the index has not passed is behind it by what it was, and what
the index grew since. -/
theorem lead_add (h : a.userIndex ≤ a.index) : a.lead growth = a.lead 0 + growth := by
  simp only [lead]
  omega

theorem lead_le : a.lead growth ≤ a.lead 0 + growth := by
  simp only [lead]
  omega

theorem lead_settle_le (h : a.userIndex ≤ a.index) : (a.settle unit balance).lead growth ≤ a.lead growth := by
  rw [lead_settle, lead_add h]
  exact Nat.le_add_left ..

@[simp] theorem due_grow : (a.grow growth).due unit balance further = a.due unit balance (growth + further) := by
  rw [due, due, lead_grow, grow]

@[simp] theorem due_settle :
    (a.settle unit balance).due unit balance' growth = a.due unit balance 0 + balance' * growth / unit := by
  rw [due, lead_settle, settle]

theorem due_mono (h : growth ≤ further) : a.due unit balance growth ≤ a.due unit balance further :=
  Nat.add_le_add_left (Nat.div_le_div_right (Nat.mul_le_mul_left _ (lead_mono h))) _

/-- One more of the index is worth the balance in parts of the unit. -/
theorem due_succ : a.due unit balance (growth + 1) ≤ a.due unit balance growth + (balance / unit + 1) := by
  have hproduct : balance * a.lead (growth + 1) ≤ balance * a.lead growth + balance := by
    rw [← Nat.mul_succ]
    exact Nat.mul_le_mul_left _ lead_succ
  have hdiv := (Nat.div_le_div_right hproduct).trans (Nat.add_div_le_div_add_div_add_one _ _ unit)
  simp only [due]
  omega

/-- Settled before the index grows, an account is due no more for that. -/
theorem due_settle_le (h : a.userIndex ≤ a.index) :
    (a.settle unit balance).due unit balance growth ≤ a.due unit balance growth := by
  have hdiv : balance * a.lead 0 / unit + balance * growth / unit ≤
      (balance * a.lead 0 + balance * growth) / unit := Nat.div_add_div_le_add_div
  rw [← Nat.mul_add, ← lead_add h] at hdiv
  rw [due_settle, due, due]
  omega

/-- And less by one at most. -/
theorem due_le_due_settle : a.due unit balance growth ≤ (a.settle unit balance).due unit balance growth + 1 := by
  have hproduct : balance * a.lead growth ≤ balance * a.lead 0 + balance * growth := by
    rw [← Nat.mul_add]
    exact Nat.mul_le_mul_left _ lead_le
  have hdiv := (Nat.div_le_div_right hproduct).trans (Nat.add_div_le_div_add_div_add_one _ _ unit)
  rw [due_settle, due, due]
  omega

/-- The index grows and the account is settled. -/
theorem settle_grow : (a.grow growth).settle unit balance =
    { credited := a.credited + balance * a.lead growth / unit
      index := a.index + growth
      userIndex := a.index + growth } := rfl

end Share

/-! ## Behind, point by point -/

/-- What `g` makes of the index of the second is at most what `f` makes of
that of the first, after any emission to both, of which `pending` more to the
first, and any growth of both indexes after that. -/
def Behind (unit total pending : ℕ) (f g : ℕ → ℕ) : Prop :=
  ∀ emitted growth, g (emitted * unit / total + growth) ≤ f ((pending + emitted) * unit / total + growth)

section

variable {unit total pending : ℕ} {f g f' g' : ℕ → ℕ}

theorem Behind.refl : Behind unit total 0 f f := fun emitted growth => by rw [Nat.zero_add]

/-- The second begins a slice of its own: two floors are at most the floor
of the sum. -/
theorem Behind.cut (emitted : ℕ) (hmono : ∀ y z, y ≤ z → g y ≤ g z) (h : Behind unit total pending f g) :
    Behind unit total (pending + emitted) f fun growth => g (emitted * unit / total + growth) := by
  intro later growth
  have hfloor : emitted * unit / total + later * unit / total ≤ (emitted * unit + later * unit) / total :=
    Nat.div_add_div_le_add_div
  rw [← Nat.add_mul] at hfloor
  rw [Nat.add_assoc pending]
  exact (hmono _ _ (by omega)).trans (h (emitted + later) growth)

/-- Both end their slice, and go on with any total. -/
theorem Behind.join (emitted total' : ℕ) (h : Behind unit total pending f g) :
    Behind unit total' 0 (fun growth => f ((pending + emitted) * unit / total + growth))
      fun growth => g (emitted * unit / total + growth) := by
  intro later growth
  rw [Nat.zero_add]
  exact h emitted _

theorem Behind.weaken (hg : ∀ y, g' y ≤ g y) (h : Behind unit total pending f g) : Behind unit total pending f g' :=
  fun emitted growth => (hg _).trans (h emitted growth)

theorem Behind.now (emitted : ℕ) (h : Behind unit total pending f g) :
    g (emitted * unit / total) ≤ f ((pending + emitted) * unit / total) := h emitted 0

end

/-! ## The two shares -/

/-- The second of two shares is that of finer slices. What is `pending` the
first has yet to emit, to `total` held. The second is never due more, and at
most `loss` less; nor is its index ahead, or further ahead of the account. -/
structure Trails (unit balance total pending loss : ℕ) (first second : Share) : Prop where
  index : Behind unit total pending (first.index + ·) (second.index + ·)
  lead : Behind unit total pending first.lead second.lead
  upper : Behind unit total pending (first.due unit balance) (second.due unit balance)
  lower : ∀ emitted growth, first.due unit balance ((pending + emitted) * unit / total + growth) ≤
    second.due unit balance (emitted * unit / total + growth) + loss

namespace Trails

variable {unit balance balance' total pending loss loss' : ℕ} {first second : Share}

theorem refl : Trails unit balance total 0 0 first first :=
  { index := .refl
    lead := .refl
    upper := .refl
    lower := fun emitted growth => by rw [Nat.zero_add]; exact Nat.le_add_right _ _ }

theorem mono (hle : loss ≤ loss') (h : Trails unit balance total pending loss first second) :
    Trails unit balance total pending loss' first second :=
  { h with lower := fun emitted growth => (h.lower emitted growth).trans (Nat.add_le_add_left hle _) }

/-- The second begins a slice of its own. -/
theorem cut (emitted : ℕ) (h : Trails unit balance total pending loss first second) :
    Trails unit balance total (pending + emitted) (loss + balance / unit + 1) first
      (second.grow (emitted * unit / total)) where
  index := (h.index.cut emitted fun _ _ hle => Nat.add_le_add_left hle _).weaken fun growth => (Nat.add_assoc ..).le
  lead := (h.lead.cut emitted fun _ _ => Share.lead_mono).weaken fun growth => Share.lead_grow.le
  upper := (h.upper.cut emitted fun _ _ => Share.due_mono).weaken fun growth => Share.due_grow.le
  lower := fun later growth => by
    -- and the floor of the sum at most one more
    have hfloor := Nat.add_div_le_div_add_div_add_one (emitted * unit) (later * unit) total
    rw [← Nat.add_mul] at hfloor
    rw [Share.due_grow, Nat.add_assoc pending]
    have hdue : second.due unit balance ((emitted + later) * unit / total + growth) ≤
        second.due unit balance (emitted * unit / total + (later * unit / total + growth) + 1) :=
      Share.due_mono (by omega)
    have hlower := h.lower (emitted + later) growth
    have hsucc := hdue.trans Share.due_succ
    omega

/-- And settles the account there. -/
theorem settle_second (hle : second.userIndex ≤ second.index)
    (h : Trails unit balance total pending loss first second) :
    Trails unit balance total pending (loss + 1) first (second.settle unit balance) where
  index := h.index
  lead := h.lead.weaken fun _ => Share.lead_settle_le hle
  upper := h.upper.weaken fun _ => Share.due_settle_le hle
  lower := fun emitted growth => by
    have hlower := h.lower emitted growth
    have hsettle : second.due unit balance (emitted * unit / total + growth) ≤ _ := Share.due_le_due_settle
    omega

/-- Both end their slice, and go on with any total. -/
theorem join (emitted total' : ℕ) (h : Trails unit balance total pending loss first second) :
    Trails unit balance total' 0 loss (first.grow ((pending + emitted) * unit / total))
      (second.grow (emitted * unit / total)) where
  index := fun later growth => by
    have hindex := h.index.join emitted total' later growth
    simp only [Share.grow, Nat.add_assoc] at hindex ⊢
    exact hindex
  lead := fun later growth => by
    rw [Share.lead_grow, Share.lead_grow]
    exact h.lead.join emitted total' later growth
  upper := fun later growth => by
    rw [Share.due_grow, Share.due_grow]
    exact h.upper.join emitted total' later growth
  lower := fun later growth => by
    rw [Share.due_grow, Share.due_grow, Nat.zero_add]
    exact h.lower emitted _

/-- Both settle the account there, which goes on with any balance. -/
theorem settle (h : Trails unit balance total 0 loss first second) :
    Trails unit balance' total 0 loss (first.settle unit balance) (second.settle unit balance) := by
  have hupper := h.upper 0 0
  have hlower := h.lower 0 0
  simp only [Nat.add_zero, Nat.zero_mul, Nat.zero_div] at hupper hlower
  refine ⟨h.index, fun emitted growth => ?_, fun emitted growth => ?_, fun emitted growth => ?_⟩
  · rw [Share.lead_settle, Share.lead_settle, Nat.zero_add]
  · rw [Share.due_settle, Share.due_settle, Nat.zero_add]
    exact Nat.add_le_add_right hupper _
  · rw [Share.due_settle, Share.due_settle, Nat.zero_add]
    omega

/-- What the two would be credited now. -/
theorem due (emitted : ℕ) (h : Trails unit balance total pending loss first second) :
    second.due unit balance (emitted * unit / total) ≤ first.due unit balance ((pending + emitted) * unit / total) ∧
      first.due unit balance ((pending + emitted) * unit / total) ≤
        second.due unit balance (emitted * unit / total) + loss :=
  ⟨h.upper.now emitted, h.lower emitted 0⟩

end Trails

end Accrual
