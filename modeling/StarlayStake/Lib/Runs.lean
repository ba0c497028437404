/-
Runs of a system whose calls either answer a new state or fail and leave
the state as it was: `run`. The rules a development needs of them: an
invariant each successful call keeps holds after every run
(`run_invariant`), also one that speaks of a clock the calls carry
(`run_clocked`), and two systems whose calls match stay related
(`run_simulation`), as do a run and a part of it (`run_filter`). A run may
note things down as it goes (`record`).
-/
import Mathlib.Data.List.Dedup
import Mathlib.Data.List.Induction
import Mathlib.Order.Basic
import StarlayStake.Lib.Outcome

namespace Runs

variable {σ σ' ι ε τ β : Type}

/-- The state after an attempted call: a call that fails changes nothing. -/
def attempt (step : ι → σ → Except ε σ) (s : σ) (i : ι) : σ :=
  match step i s with
  | .ok s' => s'
  | .error _ => s

/-- The state after a list of attempted calls. -/
def run (step : ι → σ → Except ε σ) (s : σ) (l : List ι) : σ := l.foldl (attempt step) s

variable {step : ι → σ → Except ε σ}

theorem attempt_ok {s s' : σ} {i : ι} (h : step i s = .ok s') : attempt step s i = s' := by
  simp [attempt, h]

theorem attempt_error {s : σ} {i : ι} {e : ε} (h : step i s = .error e) : attempt step s i = s := by
  simp [attempt, h]

theorem attempt_cases (step : ι → σ → Except ε σ) (s : σ) (i : ι) :
    (∃ s', step i s = .ok s' ∧ attempt step s i = s') ∨ (∃ e, step i s = .error e ∧ attempt step s i = s) := by
  cases h : step i s with
  | ok s' => exact .inl ⟨s', rfl, attempt_ok h⟩
  | error e => exact .inr ⟨e, rfl, attempt_error h⟩

@[simp] theorem run_nil (s : σ) : run step s [] = s := rfl

@[simp] theorem run_cons (s : σ) (i : ι) (l : List ι) : run step s (i :: l) = run step (attempt step s i) l := rfl

theorem run_append (s : σ) (l l' : List ι) : run step s (l ++ l') = run step (run step s l) l' := by
  simp [run, List.foldl_append]

theorem run_concat (s : σ) (l : List ι) (i : ι) : run step s (l ++ [i]) = attempt step (run step s l) i := by
  simp [run_append]

/-- What every state of a longer run satisfies, every state of a shorter one does. -/
theorem of_prefix_concat {P : σ → Prop} {s : σ} {l : List ι} {i : ι}
    (h : ∀ p, p <+: l ++ [i] → P (run step s p)) : ∀ p, p <+: l → P (run step s p) :=
  fun p hp => h p (hp.trans (List.prefix_append l [i]))

theorem run_map {κ : Type} (f : κ → ι) (s : σ) (l : List κ) :
    run (fun k => step (f k)) s l = run step s (l.map f) := by
  induction l generalizing s with
  | nil => rfl
  | cons k l ih => exact ih _

/-- Systems whose calls answer the same go through the same states. -/
theorem run_congr {step' : ι → σ → Except ε σ} (h : ∀ i s s', step i s = .ok s' ↔ step' i s = .ok s') (s : σ)
    (l : List ι) : run step s l = run step' s l := by
  induction l generalizing s with
  | nil => rfl
  | cons i l ih =>
    have hattempt : attempt step s i = attempt step' s i := by
      rcases attempt_cases step s i with ⟨s₁, hs, he⟩ | ⟨e, hs, he⟩
      · rw [he, attempt_ok ((h i s s₁).1 hs)]
      · cases hs' : step' i s with
        | ok s₁ =>
          rw [(h i s s₁).2 hs'] at hs
          cases hs
        | error e' => rw [he, attempt_error hs']
    rw [run_cons, run_cons, hattempt, ih]

/-- Where a system does in the image of another what the other does, so does a run. -/
theorem run_image {step' : ι → σ' → Except ε σ'} (f : σ' → σ) {l : List ι}
    (h : ∀ i ∈ l, ∀ s, step i (f s) = (step' i s).map f) (s : σ') : run step (f s) l = f (run step' s l) := by
  induction l generalizing s with
  | nil => rfl
  | cons i l ih =>
    have hattempt : attempt step (f s) i = f (attempt step' s i) := by
      unfold attempt
      rw [h i (by simp)]
      cases step' i s <;> rfl
    rw [run_cons, run_cons, hattempt]
    exact ih (fun j hj => h j (by simp [hj])) _

/-- All of a list of calls, or none: where one fails, they all do. -/
def transact (step : ι → σ → Except ε σ) (s : σ) (l : List ι) : Except ε σ := l.foldlM (fun s i => step i s) s

theorem transact_cons_ok_iff {s s' : σ} {i : ι} {l : List ι} :
    transact step s (i :: l) = .ok s' ↔ ∃ s₁, step i s = .ok s₁ ∧ transact step s₁ l = .ok s' := by
  rw [transact, List.foldlM_cons, Outcome.bind_ok_iff]
  rfl

theorem transact_concat_ok_iff {s s' : σ} {i : ι} {l : List ι} :
    transact step s (l ++ [i]) = .ok s' ↔ ∃ s₁, transact step s l = .ok s₁ ∧ step i s₁ = .ok s' := by
  simp only [transact, List.foldlM_append, List.foldlM_cons, List.foldlM_nil, Outcome.bind_ok_iff,
    Outcome.pure_ok_iff]
  constructor
  · rintro ⟨s₁, h₁, _, h, rfl⟩; exact ⟨s₁, h₁, h⟩
  · rintro ⟨s₁, h₁, h⟩; exact ⟨s₁, h₁, s', h, rfl⟩

theorem transact_map {κ : Type} (f : κ → ι) (s : σ) (l : List κ) :
    transact step s (l.map f) = transact (fun k => step (f k)) s l := by
  rw [transact, List.foldlM_map]
  rfl

/-- What each of the calls keeps, all of them together keep. -/
theorem transact_invariant {I : σ → Prop} {s s' : σ} {l : List ι}
    (hstep : ∀ i ∈ l, ∀ s s', I s → step i s = .ok s' → I s') (h0 : I s) (h : transact step s l = .ok s') : I s' := by
  induction l generalizing s with
  | nil => exact Except.ok.inj h ▸ h0
  | cons i l ih =>
    obtain ⟨s₁, hs, hl⟩ := transact_cons_ok_iff.1 h
    rw [List.forall_mem_cons] at hstep
    exact ih hstep.2 (hstep.1 s s₁ h0 hs) hl

/-- Where all calls succeed they make a run. -/
theorem run_of_transact {s s' : σ} {l : List ι} (h : transact step s l = .ok s') : run step s l = s' := by
  induction l generalizing s with
  | nil => exact Except.ok.inj h
  | cons i l ih =>
    obtain ⟨s₁, hs, hl⟩ := transact_cons_ok_iff.1 h
    rw [run_cons, attempt_ok hs]
    exact ih hl

/-! ## Calls in any order -/

/-- Two calls that, made in this order, could as well be made in the other. -/
def Commute (step : ι → σ → Except ε σ) (i j : ι) : Prop :=
  ∀ s s₁ s', step i s = .ok s₁ → step j s₁ = .ok s' → ∃ s₂, step j s = .ok s₂ ∧ step i s₂ = .ok s'

/-- Calls that commute may be made in any order. -/
theorem transact_perm {l l' : List ι} (h : l.Perm l') (hcomm : ∀ i ∈ l, ∀ j ∈ l, Commute step i j) {s s' : σ}
    (hs : transact step s l = .ok s') : transact step s l' = .ok s' := by
  induction h generalizing s with
  | nil => exact hs
  | cons i h ih =>
    obtain ⟨s₁, hi, hl⟩ := transact_cons_ok_iff.1 hs
    exact transact_cons_ok_iff.2 ⟨s₁, hi, ih (fun i hi j hj => hcomm i (by simp [hi]) j (by simp [hj])) hl⟩
  | swap i j l =>
    obtain ⟨s₁, hj, hl⟩ := transact_cons_ok_iff.1 hs
    obtain ⟨s₂, hi, hl⟩ := transact_cons_ok_iff.1 hl
    obtain ⟨s₃, hi, hj⟩ := hcomm j (by simp) i (by simp) s s₁ s₂ hj hi
    exact transact_cons_ok_iff.2 ⟨s₃, hi, transact_cons_ok_iff.2 ⟨s₂, hj, hl⟩⟩
  | trans h₁ h₂ ih₁ ih₂ =>
    exact ih₂ (fun i hi j hj => hcomm i (h₁.mem_iff.2 hi) j (h₁.mem_iff.2 hj)) (ih₁ hcomm hs)

/-- Calls that commute, and do nothing when made again, may be repeated. -/
theorem transact_cons_of_mem [DecidableEq ι] {l : List ι} {i : ι} (hi : i ∈ l)
    (hcomm : ∀ i ∈ l, ∀ j ∈ l, Commute step i j) (hagain : ∀ s s₁, step i s = .ok s₁ → step i s₁ = .ok s₁) {s s' : σ} :
    transact step s (i :: l) = .ok s' ↔ transact step s l = .ok s' := by
  have hperm := List.perm_cons_erase hi
  have hcomm' : ∀ j ∈ i :: l.erase i, ∀ k ∈ i :: l.erase i, Commute step j k :=
    fun j hj k hk => hcomm j (hperm.mem_iff.2 hj) k (hperm.mem_iff.2 hk)
  constructor
  · intro h
    obtain ⟨s₁, hs, hl⟩ := transact_cons_ok_iff.1 h
    obtain ⟨s₂, hs', hl⟩ := transact_cons_ok_iff.1 (transact_perm hperm hcomm hl)
    obtain rfl := Except.ok.inj ((hagain s s₁ hs).symm.trans hs')
    exact transact_perm hperm.symm hcomm' (transact_cons_ok_iff.2 ⟨s₁, hs, hl⟩)
  · intro h
    obtain ⟨s₁, hs, hl⟩ := transact_cons_ok_iff.1 (transact_perm hperm hcomm h)
    have hl' : transact step s₁ l = .ok s' :=
      transact_perm hperm.symm hcomm' (transact_cons_ok_iff.2 ⟨s₁, hagain s s₁ hs, hl⟩)
    exact transact_cons_ok_iff.2 ⟨s₁, hs, hl'⟩

theorem transact_dedup [DecidableEq ι] {l : List ι} (hcomm : ∀ i ∈ l, ∀ j ∈ l, Commute step i j)
    (hagain : ∀ i ∈ l, ∀ s s₁, step i s = .ok s₁ → step i s₁ = .ok s₁) {s s' : σ} :
    transact step s l.dedup = .ok s' ↔ transact step s l = .ok s' := by
  induction l generalizing s with
  | nil => simp
  | cons i l ih =>
    have ih := @ih (fun i hi j hj => hcomm i (by simp [hi]) j (by simp [hj])) fun i hi => hagain i (by simp [hi])
    by_cases hi : i ∈ l
    · rw [List.dedup_cons_of_mem hi, ih]
      exact (transact_cons_of_mem hi (fun i hi j hj => hcomm i (by simp [hi]) j (by simp [hj]))
        (hagain i (by simp))).symm
    · rw [List.dedup_cons_of_notMem hi, transact_cons_ok_iff, transact_cons_ok_iff]
      simp only [ih]

/-- What such calls lead to depends on the set of them alone. -/
theorem transact_of_mem_iff [DecidableEq ι] {l l' : List ι} (hmem : ∀ i, i ∈ l ↔ i ∈ l')
    (hcomm : ∀ i ∈ l, ∀ j ∈ l, Commute step i j) (hagain : ∀ i ∈ l, ∀ s s₁, step i s = .ok s₁ → step i s₁ = .ok s₁)
    {s s' : σ} (h : transact step s l = .ok s') : transact step s l' = .ok s' := by
  have hcomm' : ∀ i ∈ l', ∀ j ∈ l', Commute step i j := fun i hi j hj => hcomm i ((hmem i).2 hi) j ((hmem j).2 hj)
  have hperm : l.dedup.Perm l'.dedup :=
    (List.perm_ext_iff_of_nodup (List.nodup_dedup l) (List.nodup_dedup l')).2 fun i => by simp [hmem i]
  refine (transact_dedup hcomm' fun i hi => hagain i ((hmem i).2 hi)).1 (transact_perm hperm ?_ ?_)
  · intro i hi j hj
    exact hcomm i (List.mem_dedup.1 hi) j (List.mem_dedup.1 hj)
  · exact (transact_dedup hcomm hagain).2 h

/-! ## Invariants -/

/-- An invariant of the calls made and the state they lead to holds after a
run if every call of it keeps it, where it is called. -/
theorem run_history (step : ι → σ → Except ε σ) {I : List ι → σ → Prop} {s : σ} {l : List ι} (h0 : I [] s)
    (hok : ∀ p i s', p ++ [i] <+: l → I p (run step s p) → step i (run step s p) = .ok s' →
      run step s (p ++ [i]) = s' → I (p ++ [i]) s')
    (herror : ∀ p i e, p ++ [i] <+: l → I p (run step s p) → step i (run step s p) = .error e →
      run step s (p ++ [i]) = run step s p → I (p ++ [i]) (run step s p)) : I l (run step s l) := by
  induction l using List.reverseRecOn with
  | nil => exact h0
  | append_singleton l i ih =>
    have hl := ih (fun p j s' hp => hok p j s' (hp.trans (List.prefix_append l [i])))
      fun p j e hp => herror p j e (hp.trans (List.prefix_append l [i]))
    have hrun : run step s (l ++ [i]) = attempt step (run step s l) i := run_concat s l i
    rcases attempt_cases step (run step s l) i with ⟨s', hs, he⟩ | ⟨e, hs, he⟩
    · rw [hrun, he]
      exact hok l i s' (List.prefix_refl _) hl hs (hrun.trans he)
    · rw [hrun, he]
      exact herror l i e (List.prefix_refl _) hl hs (hrun.trans he)

/-- An invariant of the state holds after a run if every successful call of
it keeps it, where it is called. -/
theorem run_induction {I : σ → Prop} {s : σ} {l : List ι} (h0 : I s)
    (hstep : ∀ p i s', p ++ [i] <+: l → I (run step s p) → step i (run step s p) = .ok s' →
      run step s (p ++ [i]) = s' → I s') : I (run step s l) :=
  run_history step (I := fun _ s => I s) h0 hstep fun _ _ _ _ h _ _ => h

/-- An invariant kept by every successful call, of those in `Q`, from one
state in `P` to another, holds after every run of calls in `Q` through
states in `P`. -/
theorem run_invariant {I P : σ → Prop} {Q : ι → Prop} {s : σ} (h0 : I s)
    (hstep : ∀ i s s', Q i → P s → P s' → I s → step i s = .ok s' → I s') {l : List ι} (hQ : ∀ i ∈ l, Q i)
    (hP : ∀ p, p <+: l → P (run step s p)) : I (run step s l) := by
  refine run_induction h0 fun p i s' hp hI hs hrun => ?_
  have hi : i ∈ l := hp.subset (by simp)
  exact hstep i _ s' (hQ i hi) (hP p ((List.prefix_append p [i]).trans hp)) (hrun ▸ hP _ hp) hI hs

/-- The same for an invariant that speaks of the time, which calls carry
and which never goes back; the invariant must outlast the passing of time.
`Q` speaks of a call, the state it finds and the state after. -/
theorem run_clocked (step : ι → σ → Except ε σ) [Preorder τ] (clock : ι → τ) (I : τ → σ → Prop) {Q : ι → σ → σ → Prop}
    (hmono : ∀ t t' s, t ≤ t' → I t s → I t' s)
    (hstep : ∀ i s s', Q i s s' → I (clock i) s → step i s = .ok s' → I (clock i) s')
    {s : σ} {t₀ : τ} (h0 : I t₀ s) {l : List ι} (hl : l.Pairwise (clock · ≤ clock ·))
    (hQ : ∀ p i, p ++ [i] <+: l → Q i (run step s p) (run step s (p ++ [i]))) (hstart : ∀ i ∈ l, t₀ ≤ clock i)
    {t : τ} (ht₀ : t₀ ≤ t) (ht : ∀ i ∈ l, clock i ≤ t) : I t (run step s l) := by
  induction l using List.reverseRecOn generalizing t with
  | nil => exact hmono _ _ _ ht₀ h0
  | append_singleton l i ih =>
    rw [List.pairwise_append] at hl
    have hi : i ∈ l ++ [i] := by simp
    have hbefore : I (clock i) (run step s l) :=
      ih hl.1 (fun p j hp => hQ p j (hp.trans (List.prefix_append l [i])))
        (fun j hj => hstart j (List.mem_append_left _ hj)) (hstart i hi) (fun j hj => hl.2.2 j hj i (by simp))
    have hQi := hQ l i (List.prefix_refl _)
    rw [run_concat] at hQi ⊢
    refine hmono _ _ _ (ht i hi) ?_
    rcases attempt_cases step (run step s l) i with ⟨s', hs, he⟩ | ⟨e, hs, he⟩
    · rw [he] at hQi ⊢
      exact hstep i _ _ hQi hbefore hs
    · rw [he]; exact hbefore

/-- The same where calls are of a kind `Q` and states of a kind `P`. -/
theorem run_invariant_clocked [Preorder τ] (clock : ι → τ) (I : τ → σ → Prop) {P : σ → Prop} {Q : ι → Prop}
    (hmono : ∀ t t' s, t ≤ t' → I t s → I t' s)
    (hstep : ∀ i s s', Q i → P s → P s' → I (clock i) s → step i s = .ok s' → I (clock i) s')
    {s : σ} {t₀ : τ} (h0 : I t₀ s) {l : List ι} (hl : l.Pairwise (clock · ≤ clock ·))
    (hQ : ∀ i ∈ l, Q i) (hP : ∀ p, p <+: l → P (run step s p)) (hstart : ∀ i ∈ l, t₀ ≤ clock i)
    {t : τ} (ht₀ : t₀ ≤ t) (ht : ∀ i ∈ l, clock i ≤ t) : I t (run step s l) :=
  run_clocked step clock I (Q := fun i s s' => Q i ∧ P s ∧ P s') hmono
    (fun i s s' hi => hstep i s s' hi.1 hi.2.1 hi.2.2) h0 hl
    (fun p i hp => ⟨hQ i (hp.subset (by simp)), hP p ((List.prefix_append p [i]).trans hp), hP _ hp⟩) hstart ht₀ ht

/-! ## Records -/

/-- A call that also notes something down when it succeeds. -/
def record (step : ι → σ → Except ε σ) (note : ι → σ → σ → β → β) (i : ι) (p : σ × β) : Except ε (σ × β) := do
  let s ← step i p.1
  return (s, note i p.1 s p.2)

/-- What is noted down changes nothing. -/
theorem run_record_fst (note : ι → σ → σ → β → β) (p : σ × β) (l : List ι) :
    (run (record step note) p l).1 = run step p.1 l := by
  induction l generalizing p with
  | nil => rfl
  | cons i l ih =>
    have hattempt : (attempt (record step note) p i).1 = attempt step p.1 i := by
      unfold attempt record
      cases step i p.1 <;> rfl
    rw [run_cons, run_cons, ih, hattempt]

theorem record_ok_iff {note : ι → σ → σ → β → β} {i : ι} {p p' : σ × β} :
    record step note i p = .ok p' ↔ step i p.1 = .ok p'.1 ∧ p'.2 = note i p.1 p'.1 p.2 := by
  simp only [record, Outcome.bind_ok_iff, Outcome.pure_ok_iff]
  constructor
  · rintro ⟨s, hs, rfl⟩; exact ⟨hs, rfl⟩
  · rintro ⟨hs, hn⟩; exact ⟨_, hs, Prod.ext rfl hn⟩

theorem attempt_record {note : ι → σ → σ → β → β} {i : ι} {p : σ × β} {s' : σ} (h : step i p.1 = .ok s') :
    attempt (record step note) p i = (s', note i p.1 s' p.2) := attempt_ok (record_ok_iff.2 ⟨h, rfl⟩)

/-- One more call notes down what it does, if it succeeds. -/
theorem record_concat_ok {note : ι → σ → σ → β → β} {s s' : σ} {b : β} {l : List ι} {i : ι}
    (h : step i (run step s l) = .ok s') : (run (record step note) (s, b) (l ++ [i])).2 =
      note i (run step s l) s' (run (record step note) (s, b) l).2 := by
  have hfst : (run (record step note) (s, b) l).1 = run step s l := run_record_fst note (s, b) l
  rw [run_concat, attempt_record (hfst ▸ h), hfst]

theorem record_concat_error {note : ι → σ → σ → β → β} {s : σ} {b : β} {l : List ι} {i : ι} {e : ε}
    (h : step i (run step s l) = .error e) :
    (run (record step note) (s, b) (l ++ [i])).2 = (run (record step note) (s, b) l).2 := by
  have hfst : (run (record step note) (s, b) l).1 = run step s l := run_record_fst note (s, b) l
  have herror : record step note i (run (record step note) (s, b) l) = .error e := by
    rw [record, hfst, h]
    rfl
  rw [run_concat, attempt_error herror]

/-! ## Refinement -/

section

variable {σ' κ ε' : Type} {calls : ι → σ → σ → List κ} {s s' : σ} {l : List ι} {i : ι}

/-- The calls of another system that the successful calls of a run come down to. -/
def trace (step : ι → σ → Except ε σ) (calls : ι → σ → σ → List κ) (s : σ) (l : List ι) : List κ :=
  (run (record step fun i s s' made => made ++ calls i s s') (s, []) l).2

@[simp] theorem trace_nil : trace step calls s [] = [] := rfl

theorem trace_concat_ok (h : step i (run step s l) = .ok s') :
    trace step calls s (l ++ [i]) = trace step calls s l ++ calls i (run step s l) s' := record_concat_ok h

theorem trace_concat_error {e : ε} (h : step i (run step s l) = .error e) :
    trace step calls s (l ++ [i]) = trace step calls s l := record_concat_error h

theorem transact_append {step' : κ → σ' → Except ε' σ'} {a b c : σ'} {l l' : List κ} (h : transact step' a l = .ok b)
    (h' : transact step' b l' = .ok c) : transact step' a (l ++ l') = .ok c := by
  rw [transact, List.foldlM_append, Outcome.bind_ok_iff]
  exact ⟨b, h, h'⟩

/-- Where every successful call comes down to calls that succeed in the view of
the other system, so does the run. -/
theorem transact_trace {step' : κ → σ' → Except ε' σ'} (view : σ → σ')
    (h : ∀ i s s', step i s = .ok s' → transact step' (view s) (calls i s s') = .ok (view s')) (s : σ) (l : List ι) :
    transact step' (view s) (trace step calls s l) = .ok (view (run step s l)) := by
  induction l using List.reverseRecOn with
  | nil => rfl
  | append_singleton l i ih =>
    rw [run_concat]
    rcases attempt_cases step (run step s l) i with ⟨s', hs, he⟩ | ⟨e, hs, he⟩
    · rw [trace_concat_ok hs, he]
      exact transact_append ih (h i _ s' hs)
    · rw [trace_concat_error hs, he]
      exact ih

end

/-! ## Two systems -/

/-- Two systems whose calls match from related states stay related, as long
as the first passes through states in `P`. -/
theorem run_simulation {step' : ι → σ' → Except ε σ'} {R : σ → σ' → Prop} {P : σ → Prop} {Q : ι → Prop}
    (hstep : ∀ i s s', Q i → P s → R s s' → Outcome.Matches (fun a b => P a → R a b) (step i s) (step' i s'))
    {s : σ} {s' : σ'} (h0 : R s s') {l : List ι} (hQ : ∀ i ∈ l, Q i)
    (hP : ∀ p, p <+: l → P (run step s p)) : R (run step s l) (run step' s' l) := by
  induction l using List.reverseRecOn with
  | nil => exact h0
  | append_singleton l i ih =>
    have hl := ih (fun j hj => hQ j (List.mem_append_left _ hj)) (of_prefix_concat hP)
    have hm := hstep i _ _ (hQ i (by simp)) (hP l (List.prefix_append l [i])) hl
    have hPi := hP (l ++ [i]) (List.prefix_refl _)
    rw [run_concat] at hPi
    rw [run_concat, run_concat]
    rcases attempt_cases step (run step s l) i with ⟨a, hs, he⟩ | ⟨e, hs, he⟩ <;>
      rcases attempt_cases step' (run step' s' l) i with ⟨a', hs', he'⟩ | ⟨e', hs', he'⟩ <;>
      rw [hs, hs'] at hm <;> rw [he] at hPi <;> rw [he, he']
    · exact hm hPi
    · exact hm.elim
    · exact hm.elim
    · exact hl

/-- A run and what is left of it without the calls outside `low` stay related,
where those keep what relates them and the rest match. -/
theorem run_filter {low : ι → Bool} {R : σ → σ → Prop} {P : σ → Prop} {Q : ι → Prop}
    (hother : ∀ i s s' t, Q i → low i = false → P s' → R s t → step i s = .ok s' → R s' t)
    (hlow : ∀ i s t, Q i → low i = true → R s t → Outcome.Matches (fun a b => P a → R a b) (step i s) (step i t))
    {s t : σ} (h0 : R s t) {l : List ι} (hQ : ∀ i ∈ l, Q i) (hP : ∀ p, p <+: l → P (run step s p)) :
    R (run step s l) (run step t (l.filter low)) := by
  induction l using List.reverseRecOn with
  | nil => exact h0
  | append_singleton l i ih =>
    have hl := ih (fun j hj => hQ j (List.mem_append_left _ hj)) (of_prefix_concat hP)
    have hPi := hP (l ++ [i]) (List.prefix_refl _)
    rw [run_concat] at hPi ⊢
    rw [List.filter_append]
    cases hi : low i with
    | false =>
      rw [List.filter_cons_of_neg (by simp [hi]), List.filter_nil, List.append_nil]
      rcases attempt_cases step (run step s l) i with ⟨a, hs, he⟩ | ⟨e, hs, he⟩
      · rw [he] at hPi ⊢
        exact hother i _ a _ (hQ i (by simp)) hi hPi hl hs
      · rw [he]; exact hl
    | true =>
      have hm := hlow i _ _ (hQ i (by simp)) hi hl
      rw [List.filter_cons_of_pos hi, List.filter_nil, run_concat]
      rcases attempt_cases step (run step s l) i with ⟨a, hs, he⟩ | ⟨e, hs, he⟩
      · obtain ⟨b, hs', hR⟩ := hm.of_left hs
        rw [he] at hPi ⊢
        rw [attempt_ok hs']
        exact hR hPi
      · cases hs' : step i (run step t (l.filter low)) with
        | ok b => rw [hs, hs'] at hm; exact hm.elim
        | error e' => rw [he, attempt_error hs']; exact hl

end Runs
