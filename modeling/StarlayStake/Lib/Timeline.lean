/-
A history of events, each with the time it happened at. Several events may
happen at one time, and then count as one moment: `times` are the moments of
a history in order, and `sumBetween` adds up what happens between one moment
and the next. One more event, not before the others, adds at most one moment
(`times_concat`), and leaves what happened between the others
(`sumBetween_concat`, `sumBetween_congr`).
-/
import Mathlib.Algebra.Order.Ring.Nat
import Mathlib.Data.List.Induction
import Mathlib.Order.Lattice

namespace Timeline

variable {ε τ : Type}

/-- The sum of `f` over every two times that follow one another. -/
def sumBetween (f : τ → τ → ℕ) (ts : List τ) : ℕ := (List.zipWith f ts ts.tail).sum

section

variable {f : τ → τ → ℕ} {a b : τ} {ts : List τ}

theorem sumBetween_cons : sumBetween f (a :: b :: ts) = f a b + sumBetween f (b :: ts) := rfl

theorem sumBetween_concat : sumBetween f (ts ++ [a] ++ [b]) = sumBetween f (ts ++ [a]) + f a b := by
  induction ts with
  | nil => simp [sumBetween]
  | cons c ts ih =>
    cases ts with
    | nil => simp [sumBetween]
    | cons d ts =>
      simp only [List.cons_append, sumBetween_cons] at ih ⊢
      rw [ih, Nat.add_assoc]

end

variable [LinearOrder τ] (clock : ε → τ)

/-- The times of the events, each once. -/
def times (l : List ε) : List τ := (l.map clock).eraseDups

/-- The first event at `t`. -/
def firstAt (l : List ε) (t : τ) : Option ε := l.find? fun e => clock e = t

/-- The events at or before `t`. -/
def upTo (l : List ε) (t : τ) : List ε := l.filter fun e => clock e ≤ t

variable {clock} {l : List ε} {e : ε} {t : τ}

/-! ## Moments -/

theorem mem_times : t ∈ times clock l ↔ ∃ e ∈ l, clock e = t := by
  rw [times, List.mem_eraseDups, List.mem_map]

theorem times_concat : times clock (l ++ [e]) =
    if clock e ∈ times clock l then times clock l else times clock l ++ [clock e] := by
  simp only [times, List.map_append, List.map_singleton, List.eraseDups_append, List.removeAll, List.mem_eraseDups]
  by_cases h : clock e ∈ l.map clock
  · rw [if_pos h, List.filter_cons_of_neg (by simpa using h), List.filter_nil, List.eraseDups_nil, List.append_nil]
  · rw [if_neg h, List.filter_cons_of_pos (by simpa using h), List.filter_nil]
    rfl

/-- An event at a moment that was there already is at the last. -/
theorem eq_of_mem_times {e' : ε} (hsorted : (l ++ [e] ++ [e']).Pairwise fun e e' => clock e ≤ clock e')
    (h : clock e' ∈ times clock (l ++ [e])) : clock e = clock e' := by
  obtain ⟨hbefore, -, hlast⟩ := List.pairwise_append.1 hsorted
  obtain ⟨e₁, he₁, heq⟩ := mem_times.1 h
  refine le_antisymm (hlast e (by simp) e' (by simp)) ?_
  rcases List.mem_append.1 he₁ with he₁ | he₁
  · exact heq ▸ (List.pairwise_append.1 hbefore).2.2 e₁ he₁ e (by simp)
  · rw [← heq, List.mem_singleton.1 he₁]

/-- The last moment is that of the last event. -/
theorem times_last {e' : ε} (hsorted : (l ++ [e']).Pairwise fun e e' => clock e ≤ clock e') :
    ∃ ts, times clock (l ++ [e']) = ts ++ [clock e'] := by
  induction l using List.reverseRecOn generalizing e' with
  | nil => exact ⟨[], rfl⟩
  | append_singleton l e ih =>
    obtain ⟨ts, hts⟩ := ih (List.pairwise_append.1 hsorted).1
    rw [times_concat]
    split
    · next h => exact ⟨ts, by rw [hts, eq_of_mem_times hsorted h]⟩
    · exact ⟨_, rfl⟩

/-- Moments are in order, and no two are the same. -/
theorem times_increasing (hsorted : l.Pairwise fun e e' => clock e ≤ clock e') : (times clock l).Pairwise (· < ·) := by
  induction l using List.reverseRecOn with
  | nil => exact .nil
  | append_singleton l e ih =>
    rw [List.pairwise_append] at hsorted
    rw [times_concat]
    split
    · exact ih hsorted.1
    · next h =>
      refine List.pairwise_append.2 ⟨ih hsorted.1, List.pairwise_singleton .., fun t ht t' ht' => ?_⟩
      rw [List.mem_singleton.1 ht']
      obtain ⟨e₁, he₁, rfl⟩ := mem_times.1 ht
      exact lt_of_le_of_ne (hsorted.2.2 e₁ he₁ e (by simp)) fun heq => h (heq ▸ ht)

/-! ## Sums from one moment to the next -/

section

variable {f f' : τ → τ → ℕ} {ts : List τ}

theorem sumBetween_congr (hlt : ts.Pairwise (· < ·)) (h : ∀ a, ∀ b ∈ ts, a < b → f' a b = f a b) :
    sumBetween f' ts = sumBetween f ts := by
  induction ts with
  | nil => rfl
  | cons a ts ih =>
    cases ts with
    | nil => rfl
    | cons b ts =>
      rw [List.pairwise_cons] at hlt
      rw [sumBetween_cons, sumBetween_cons, h a b (by simp) (hlt.1 b (by simp)),
        ih hlt.2 fun c d hd => h c d (List.mem_cons_of_mem _ hd)]

/-- One more event adds what happens between the last and it: nothing, if
they are at one time. -/
theorem sumBetween_times_concat {e' : ε} (hsorted : (l ++ [e] ++ [e']).Pairwise fun e e' => clock e ≤ clock e')
    (hsame : ∀ a, ∀ b ∈ times clock (l ++ [e]), a < b → f' a b = f a b) (hself : f' (clock e) (clock e) = 0) :
    sumBetween f' (times clock (l ++ [e] ++ [e'])) =
      sumBetween f (times clock (l ++ [e])) + f' (clock e) (clock e') := by
  have hbefore := (List.pairwise_append.1 hsorted).1
  obtain ⟨ts, hts⟩ := times_last hbefore
  have hlt := times_increasing hbefore
  rw [times_concat]
  split
  · next h =>
    rw [← eq_of_mem_times hsorted h, hself, Nat.add_zero]
    exact sumBetween_congr hlt hsame
  · rw [hts, sumBetween_concat, ← hts, sumBetween_congr hlt hsame]

end

/-! ## What was at a time -/

theorem upTo_eq_self (h : ∀ e ∈ l, clock e ≤ t) : upTo clock l t = l := List.filter_eq_self.2 (by simpa using h)

/-- Events after a time do not change what was up to it. -/
theorem upTo_concat (h : t < clock e) : upTo clock (l ++ [e]) t = upTo clock l t := by
  rw [upTo, List.filter_append, List.filter_cons_of_neg (by simpa using h), List.filter_nil, List.append_nil]
  rfl

/-- The first event at a time stays the first. -/
theorem firstAt_concat (h : t ∈ times clock l) : firstAt clock (l ++ [e]) t = firstAt clock l t := by
  obtain ⟨e', he', rfl⟩ := mem_times.1 h
  rw [firstAt, List.find?_append]
  have hsome : (l.find? fun e => clock e = clock e').isSome := List.find?_isSome.2 ⟨e', he', by simp⟩
  obtain ⟨e₁, he₁⟩ := Option.isSome_iff_exists.1 hsome
  rw [he₁, firstAt, he₁]
  rfl

theorem firstAt_new (h : clock e ∉ times clock l) : firstAt clock (l ++ [e]) (clock e) = some e := by
  rw [firstAt, List.find?_append, List.find?_eq_none.2 fun e' he' heq => h (mem_times.2 ⟨e', he', by simpa using heq⟩)]
  simp

end Timeline
