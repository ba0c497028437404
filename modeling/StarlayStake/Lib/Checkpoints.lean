/-
Checkpoints: an array of entries in which each is found by a key, over any
ordered keys. `lookup` is the meaning of a search, the last entry at or
before a key. A search that narrows a range down to one entry answers it
(`lookup_eq_some`), and writing at a key changes nothing before it
(`lookup_append`, `lookup_overwrite`), so what a past lookup answered is
settled. A key is written to once: of two entries written at it the second
alone is left (`History.write_write`).
-/
import Mathlib.Logic.Function.Basic
import Mathlib.Order.Lattice

namespace Checkpoints

variable {ε κ : Type} [LinearOrder κ] (key : ε → κ)

/-- The last of the first `n` entries whose key is at or before `b`. -/
def lookup (entries : Nat → ε) (b : κ) : Nat → Option ε
  | 0 => none
  | n + 1 => if key (entries n) ≤ b then some (entries n) else lookup entries b n

/-- One pass over the first `n` entries, from the first on, that keeps the
latest it sees at or before `b`. -/
def scan (entries : Nat → ε) (b : κ) (n : Nat) : Option ε :=
  (List.range n).foldl (fun found i => if key (entries i) ≤ b then some (entries i) else found) none

/-- The keys of the first `n` entries increase, up to `k` at most. -/
structure Increasing (entries : Nat → ε) (n : Nat) (k : κ) : Prop where
  lt : ∀ i j, i < j → j < n → key (entries i) < key (entries j)
  le : ∀ i, i < n → key (entries i) ≤ k

variable {key} {entries entries' : Nat → ε} {n : Nat} {b k k' : κ} {e : ε}

theorem Increasing.nil : Increasing key entries 0 k :=
  ⟨fun _ _ _ h => absurd h (Nat.not_lt_zero _), fun _ h => absurd h (Nat.not_lt_zero _)⟩

theorem Increasing.mono (h : Increasing key entries n k) (hk : k ≤ k') : Increasing key entries n k' :=
  ⟨h.lt, fun i hi => (h.le i hi).trans hk⟩

/-- Keys that increase do so up to the last. -/
theorem Increasing.of_lt (hlt : ∀ i j, i < j → j < n → key (entries i) < key (entries j)) :
    Increasing key entries n (key (entries (n - 1))) := by
  refine ⟨hlt, fun i hi => ?_⟩
  by_cases hlast : i = n - 1
  · rw [hlast]
  · exact (hlt i (n - 1) (by omega) (by omega)).le

/-! ## Lookups -/

theorem lookup_succ : lookup key entries b (n + 1) =
    if key (entries n) ≤ b then some (entries n) else lookup key entries b n := rfl

/-- A pass over all entries finds the same. -/
theorem scan_eq_lookup : scan key entries b n = lookup key entries b n := by
  induction n with
  | zero => rfl
  | succ n ih =>
    rw [lookup_succ, ← ih, scan, List.range_succ, List.foldl_append]
    rfl

/-- An entry at or before `b` that no later entry follows is the one found. -/
theorem lookup_eq_some {i : Nat} (hi : i < n) (hb : key (entries i) ≤ b)
    (hnext : ∀ j, i < j → j < n → b < key (entries j)) : lookup key entries b n = some (entries i) := by
  induction n with
  | zero => exact absurd hi (Nat.not_lt_zero _)
  | succ n ih =>
    rw [lookup_succ]
    by_cases hin : i = n
    · subst hin; rw [if_pos hb]
    · rw [if_neg (not_le.2 (hnext n (by omega) (by omega)))]
      exact ih (by omega) fun j hij hj => hnext j hij (by omega)

theorem lookup_eq_none (h : ∀ i, i < n → b < key (entries i)) : lookup key entries b n = none := by
  induction n with
  | zero => rfl
  | succ n ih =>
    rw [lookup_succ, if_neg (not_le.2 (h n (by omega)))]
    exact ih fun i hi => h i (by omega)

/-- Only the entries searched matter. -/
theorem lookup_congr (h : ∀ i, i < n → entries' i = entries i) : lookup key entries' b n = lookup key entries b n := by
  induction n with
  | zero => rfl
  | succ n ih =>
    rw [lookup_succ, lookup_succ, h n (by omega), ih fun i hi => h i (by omega)]

/-- From the last key on, the last entry is found. -/
theorem lookup_last (h : Increasing key entries n k) (hn : n ≠ 0) :
    lookup key entries k n = some (entries (n - 1)) :=
  lookup_eq_some (by omega) (h.le _ (by omega)) fun j _ _ => by omega

/-! ## Writes -/

/-- Appending an entry keeps the keys increasing, if the last was before it. -/
theorem Increasing.append (h : Increasing key entries n k) (hk : k ≤ key e)
    (hlast : n ≠ 0 → key (entries (n - 1)) ≠ key e) :
    Increasing key (Function.update entries n e) (n + 1) (key e) := by
  have hlt : ∀ i, i < n → key (entries i) < key e := by
    intro i hi
    have hn : key (entries (n - 1)) < key e :=
      lt_of_le_of_ne ((h.le _ (by omega)).trans hk) (hlast (by omega))
    by_cases hin : i = n - 1
    · rw [hin]; exact hn
    · exact (h.lt i (n - 1) (by omega) (by omega)).trans hn
  constructor
  · intro i j hij hj
    rw [Function.update_of_ne (show i ≠ n by omega)]
    by_cases hjn : j = n
    · subst hjn
      rw [Function.update_self]
      exact hlt i hij
    · rw [Function.update_of_ne hjn]
      exact h.lt i j hij (by omega)
  · intro i hi
    by_cases hin : i = n
    · subst hin; rw [Function.update_self]
    · rw [Function.update_of_ne hin]
      exact (hlt i (by omega)).le

/-- Overwriting the last entry at its key keeps the keys. -/
theorem Increasing.overwrite (h : Increasing key entries n k) (he : key e = key (entries (n - 1))) :
    Increasing key (Function.update entries (n - 1) e) n k := by
  have hkey : ∀ i, key (Function.update entries (n - 1) e i) = key (entries i) := by
    intro i
    by_cases hin : i = n - 1
    · rw [hin, Function.update_self, he]
    · rw [Function.update_of_ne hin]
  exact ⟨fun i j hij hj => by rw [hkey, hkey]; exact h.lt i j hij hj, fun i hi => by rw [hkey]; exact h.le i hi⟩

theorem lookup_append (hb : b < key e) :
    lookup key (Function.update entries n e) b (n + 1) = lookup key entries b n := by
  rw [lookup_succ, Function.update_self, if_neg (not_le.2 hb)]
  exact lookup_congr fun i hi => Function.update_of_ne (by omega) ..

theorem lookup_overwrite (he : key e = key (entries (n - 1))) (hb : b < key e) :
    lookup key (Function.update entries (n - 1) e) b n = lookup key entries b n := by
  cases n with
  | zero => rfl
  | succ n =>
    rw [Nat.add_sub_cancel] at he ⊢
    rw [lookup_append hb, lookup_succ, if_neg (not_le.2 (he ▸ hb))]

/-! ## One entry a key -/

/-- Entries, and how many they are. -/
structure History (ε : Type) where
  entries : Nat → ε
  count : Nat

namespace History

variable {ε κ : Type} [DecidableEq κ] {key : ε → κ} {h : History ε} {e e' : ε}

/-- Writing an entry: over the last one if it is of the same key, and else
after it. -/
def write (key : ε → κ) (h : History ε) (e : ε) : History ε :=
  if h.count ≠ 0 ∧ key (h.entries (h.count - 1)) = key e then
    { h with entries := Function.update h.entries (h.count - 1) e }
  else ⟨Function.update h.entries h.count e, h.count + 1⟩

/-- The last entry, if there is one. -/
def last (h : History ε) : Option ε := if h.count = 0 then none else some (h.entries (h.count - 1))

theorem last_write : (h.write key e).last = some e := by
  unfold write last
  split
  · next hc => simp [hc.1]
  · simp

theorem write_write (he : key e = key e') : (h.write key e).write key e' = h.write key e' := by
  unfold write
  rw [he]
  split
  · next hc => simp [hc.1, he]
  · simp [he]

end History

end Checkpoints
