/-
Computations that may fail, in `Except ε`. When a sequence or a list of
steps answers `ok` (`bind_ok_iff`, `mapM_ok_iff`), what reasons it does not
fail for (`Never`), and when two computations that may both fail match
(`Matches`, a relational rule per connective).
-/
import Mathlib.Data.List.Forall2
import Mathlib.Tactic.Common

namespace Outcome

universe u v

variable {ε : Type u} {α β γ δ : Type v}

@[simp] theorem bind_ok_iff {x : Except ε α} {f : α → Except ε β} {b : β} :
    x >>= f = .ok b ↔ ∃ a, x = .ok a ∧ f a = .ok b := by
  cases x with
  | error e => simp [bind, Except.bind]
  | ok a => simp [bind, Except.bind]

@[simp] theorem pure_ok_iff {a b : α} : (pure a : Except ε α) = .ok b ↔ b = a := by
  simp [pure, Except.pure, eq_comm]

theorem map_ok_iff {f : α → β} {x : Except ε α} {b : β} : x.map f = .ok b ↔ ∃ a, x = .ok a ∧ f a = b := by
  cases x <;> simp [Except.map]

@[simp] theorem ok_bind {a : α} {f : α → Except ε β} : (Except.ok a >>= f) = f a := rfl

/-- An answer to a computation that is known to have one, to evaluate runs by. -/
theorem exists_ok {x : Except ε α} (h : x.isOk = true) : ∃ a, x = .ok a := by
  cases x with
  | error e => cases h
  | ok a => exact ⟨a, rfl⟩

/-- A list of computations answers where each of them does. -/
theorem mapM_ok_iff {f : α → Except ε β} {l : List α} {l' : List β} :
    l.mapM f = .ok l' ↔ List.Forall₂ (fun a b => f a = .ok b) l l' := by
  induction l generalizing l' with
  | nil => simp [pure, Except.pure, eq_comm]
  | cons a l ih =>
    simp only [List.mapM_cons, bind_ok_iff, pure_ok_iff, ih, List.forall₂_cons_left_iff]
    constructor
    · rintro ⟨b, ha, l', hl, rfl⟩; exact ⟨b, l', ha, hl, rfl⟩
    · rintro ⟨b, l', ha, hl, rfl⟩; exact ⟨b, ha, l', hl, rfl⟩

/-- Where each of them answers what `g` does, it answers the list of those. -/
theorem mapM_ok_iff_map {f : α → Except ε β} {g : α → β} {l : List α} (hg : ∀ a ∈ l, ∀ b, f a = .ok b → b = g a)
    {l' : List β} : l.mapM f = .ok l' ↔ (∀ a ∈ l, f a = .ok (g a)) ∧ l' = l.map g := by
  rw [mapM_ok_iff]
  induction l generalizing l' with
  | nil => simp
  | cons a l ih =>
    rw [List.forall_mem_cons] at hg
    simp only [List.forall₂_cons_left_iff, ih hg.2, List.forall_mem_cons, List.map_cons]
    constructor
    · rintro ⟨b, l', ha, ⟨hl, rfl⟩, rfl⟩
      obtain rfl := hg.1 b ha
      exact ⟨⟨ha, hl⟩, rfl⟩
    · rintro ⟨⟨ha, hl⟩, rfl⟩
      exact ⟨g a, _, ha, ⟨hl, rfl⟩, rfl⟩

theorem mem_of_mapM_ok {f : α → Except ε β} {l : List α} {l' : List β} (h : l.mapM f = .ok l') {b : β}
    (hb : b ∈ l') : ∃ a ∈ l, f a = .ok b := by
  rw [mapM_ok_iff] at h
  induction h with
  | nil => simp at hb
  | cons ha _ ih =>
    rcases List.mem_cons.1 hb with rfl | hb
    · exact ⟨_, by simp, ha⟩
    · obtain ⟨a, hmem, ha⟩ := ih hb
      exact ⟨a, List.mem_cons_of_mem _ hmem, ha⟩

/-! ## Reasons -/

/-- A computation that does not fail for the reason `e`. -/
def Never (e : ε) (x : Except ε α) : Prop := x ≠ .error e

theorem Never.ok {e : ε} {a : α} : Never e (.ok a) := nofun

theorem Never.pure {e : ε} {a : α} : Never e (Pure.pure a) := nofun

theorem Never.error {e e' : ε} (h : e' ≠ e) : Never e (.error e' : Except ε α) := fun h' => h (Except.error.inj h')

/-- Steps none of which fails for a reason, where it is reached, do not
together. -/
theorem Never.bind_of {e : ε} {x : Except ε α} {f : α → Except ε β} (hx : Never e x)
    (hf : ∀ a, x = .ok a → Never e (f a)) : Never e (x >>= f) := by
  cases x with
  | error e' => exact fun h => hx (congrArg Except.error (Except.error.inj h))
  | ok a => exact hf a rfl

theorem Never.bind {e : ε} {x : Except ε α} {f : α → Except ε β} (hx : Never e x) (hf : ∀ a, Never e (f a)) :
    Never e (x >>= f) := hx.bind_of fun a _ => hf a

theorem Never.ite {e : ε} {p : Prop} [Decidable p] {x y : Except ε α} (hx : Never e x) (hy : Never e y) :
    Never e (if p then x else y) := by
  split
  · exact hx
  · exact hy

/-! ## Two computations that match -/

/-- Both fail, or both answer and the answers are related. -/
def Matches (R : α → β → Prop) : Except ε α → Except ε β → Prop
  | .ok a, .ok b => R a b
  | .error _, .error _ => True
  | _, _ => False

theorem Matches.ok {R : α → β → Prop} {a : α} {b : β} (h : R a b) :
    Matches R (.ok a : Except ε α) (.ok b) := h

theorem Matches.error {R : α → β → Prop} (e e' : ε) :
    Matches R (.error e : Except ε α) (.error e' : Except ε β) := trivial

theorem Matches.mono {R S : α → β → Prop} {x : Except ε α} {y : Except ε β} (h : Matches R x y)
    (hRS : ∀ a b, x = .ok a → y = .ok b → R a b → S a b) : Matches S x y := by
  cases x with
  | error e => cases y <;> exact h
  | ok a =>
    cases y with
    | error e => exact h
    | ok b => exact hRS a b rfl rfl h

theorem Matches.bind {R : α → β → Prop} {S : γ → δ → Prop} {x : Except ε α} {y : Except ε β}
    {f : α → Except ε γ} {g : β → Except ε δ} (h : Matches R x y)
    (hf : ∀ a b, R a b → Matches S (f a) (g b)) : Matches S (x >>= f) (y >>= g) := by
  cases x with
  | error e =>
    cases y with
    | error e' => trivial
    | ok b => exact h.elim
  | ok a =>
    cases y with
    | error e' => exact h.elim
    | ok b => exact hf a b h

/-- Two computations that begin with the same one. -/
theorem Matches.bind_same {R : γ → δ → Prop} {x : Except ε α} {f : α → Except ε γ} {g : α → Except ε δ}
    (h : ∀ a, x = .ok a → Matches R (f a) (g a)) : Matches R (x >>= f) (x >>= g) := by
  cases x with
  | error e => trivial
  | ok a => exact h a rfl

/-- Two computations match if what one answers the other answers, related. -/
theorem Matches.of_ok {R : α → β → Prop} {x : Except ε α} {y : Except ε β}
    (h : ∀ a, x = .ok a → ∃ b, y = .ok b ∧ R a b) (h' : ∀ b, y = .ok b → ∃ a, x = .ok a) : Matches R x y := by
  cases x with
  | error e =>
    cases y with
    | error e' => trivial
    | ok b =>
      obtain ⟨a, ha⟩ := h' b rfl
      cases ha
  | ok a =>
    obtain ⟨b, rfl, hR⟩ := h a rfl
    exact hR

theorem Matches.of_left {R : α → β → Prop} {x : Except ε α} {y : Except ε β} {a : α} (h : Matches R x y)
    (ha : x = .ok a) : ∃ b, y = .ok b ∧ R a b := by
  subst ha
  cases y with
  | error e => exact h.elim
  | ok b => exact ⟨b, rfl, h⟩

theorem Matches.of_right {R : α → β → Prop} {x : Except ε α} {y : Except ε β} {b : β} (h : Matches R x y)
    (hb : y = .ok b) : ∃ a, x = .ok a ∧ R a b := by
  subst hb
  cases x with
  | error e => exact h.elim
  | ok a => exact ⟨a, rfl, h⟩

/-- A computation matches itself. -/
theorem Matches.refl {R : α → α → Prop} (x : Except ε α) (hR : ∀ a, x = .ok a → R a a) :
    Matches R x x := by
  cases x with
  | error e => trivial
  | ok a => exact hR a rfl

theorem Matches.isOk_iff {R : α → β → Prop} {x : Except ε α} {y : Except ε β} (h : Matches R x y) :
    x.isOk = y.isOk := by
  cases x <;> cases y <;> first | rfl | exact h.elim

end Outcome
