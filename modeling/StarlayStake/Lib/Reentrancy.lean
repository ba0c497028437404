/-
Contracts that wait for others and may be called again meanwhile.

A call goes on until it hands over to another contract, and waits. While it
waits anything may happen outside, and the contract may be called, by whomever
it handed over to or by anybody else. When it is answered it goes on from the
state that there is then, and may wait again; or it is undone, and with it all
that happened since it began. `Session` has the state and the calls that wait,
and `move` is one such thing that happens.

What calls keep from where they begin or are answered to where they next stop
holds of every state there ever is, also while calls wait (`invariant`). Where
handing over is the last thing that calls do (`Tail`) it is enough that calls
keep it that are made one after the other (`invariant_tail`, and
`invariant_clocked` of a time that calls carry), since every state there ever
is is one that such calls lead to (`exists_sequential`). A contract may note
things down as it goes (`recording`), which is undone with the rest.
-/
import StarlayStake.Lib.HandOver
import StarlayStake.Lib.Runs

namespace Reentrancy

variable {σ τ ι κ ω ε : Type}

structure Contract (σ ι κ ω ε : Type) where
  /-- a call, in the state it begins in -/
  body : ι → σ → Body κ σ ε σ
  /-- what happens outside -/
  outside : ω → σ → σ

/-- What can happen next. -/
inductive Move (ι ω : Type)
  | outside (o : ω)
  | enter (i : ι)
  | answer
  | undo

/-- The call that begins, if one does. -/
def Move.entered : Move ι ω → Option ι
  | .enter i => some i
  | _ => none

/-- A call that waits. -/
structure Frame (κ σ ε : Type) where
  /-- the state it began in -/
  start : σ
  rest : σ → Body κ σ ε σ

/-- The state, and the calls that wait, the last to begin first. -/
structure Session (κ σ ε : Type) where
  state : σ
  pending : List (Frame κ σ ε)

/-- A call, or the rest of one, goes on until it stops. One that reverts
changes nothing, also if it has waited before. -/
def Session.resume (start : σ) (pending : List (Frame κ σ ε)) : Body κ σ ε σ → Session κ σ ε
  | .done s => { state := s, pending }
  | .fail _ => { state := start, pending }
  | .handOver _ s rest => { state := s, pending := { start, rest } :: pending }

namespace Contract

variable (C : Contract σ ι κ ω ε)

def move (p : Session κ σ ε) : Move ι ω → Session κ σ ε
  | .outside o => { p with state := C.outside o p.state }
  | .enter i => .resume p.state p.pending (C.body i p.state)
  | .answer =>
    match p.pending with
    | [] => p
    | f :: pending => .resume f.start pending (f.rest p.state)
  | .undo =>
    match p.pending with
    | [] => p
    | f :: pending => { state := f.start, pending }

/-- What is left of all that happened, from a state in which no call waits. -/
def session (s : σ) (l : List (Move ι ω)) : Session κ σ ε := l.foldl C.move { state := s, pending := [] }

/-- Calls up to where they wait, and what happens outside. -/
def plain (e : ι ⊕ ω) (s : σ) : Except ε σ :=
  match e with
  | .inl i => (C.body i s).upTo
  | .inr o => .ok (C.outside o s)

/-- A contract whose calls hand over last. -/
def Tail : Prop := ∀ i s, (C.body i s).Last

variable {C} {I P : σ → Prop} {Q : ι → σ → Prop} {R : ω → σ → Prop} {s : σ} {l : List (Move ι ω)}

theorem session_concat (s : σ) (l : List (Move ι ω)) (m : Move ι ω) :
    C.session s (l ++ [m]) = C.move (C.session s l) m := by
  simp [session]

/-- A call that is answered, and is not called back meanwhile, is a session. -/
theorem session_of_answered (reply : κ → σ → Except ε σ) {i : ι} {s' : σ}
    (hreply : ∀ k s s', reply k s = .ok s' → ∃ o, s' = C.outside o s) (h : (C.body i s).answered reply = .ok s') :
    ∃ l, C.session s l = { state := s', pending := [] } := by
  have hrest : ∀ (c : Body κ σ ε σ) pending, c.answered reply = .ok s' →
      ∃ l : List (Move ι ω), l.foldl C.move (.resume s pending c) = { state := s', pending } := by
    intro c pending hc
    induction c with
    | done s₁ => exact ⟨[], by rw [← Except.ok.inj hc]; rfl⟩
    | fail e => cases hc
    | handOver k s₁ rest ih =>
      obtain ⟨s₂, hk, hc⟩ := Outcome.bind_ok_iff.1 hc
      obtain ⟨o, rfl⟩ := hreply k s₁ s₂ hk
      obtain ⟨l, hl⟩ := ih _ hc
      exact ⟨.outside o :: .answer :: l, hl⟩
  obtain ⟨l, hl⟩ := hrest (C.body i s) [] h
  exact ⟨.enter i :: l, hl⟩

/-! ## Invariants -/

/-- `I` holds now and of the states to go back to, and what waits keeps it. -/
structure Holds (P I : σ → Prop) (p : Session κ σ ε) : Prop where
  state : I p.state
  start : ∀ f ∈ p.pending, I f.start
  rest : ∀ f ∈ p.pending, ∀ s, I s → (f.rest s).Keeps P I

theorem Holds.resume {c : Body κ σ ε σ} {p : Session κ σ ε} (hp : Holds P I p) (hs : I s) (hc : c.Keeps P I)
    (hP : P (Session.resume s p.pending c).state) : Holds P I (.resume s p.pending c) := by
  cases c with
  | done s' => exact ⟨hc hP, hp.start, hp.rest⟩
  | fail e => exact ⟨hs, hp.start, hp.rest⟩
  | handOver k s' rest =>
    exact ⟨hc.1 hP, List.forall_mem_cons.2 ⟨hs, hp.start⟩, List.forall_mem_cons.2 ⟨hc.2, hp.rest⟩⟩

theorem Holds.move (hcall : ∀ i s, Q i s → I s → (C.body i s).Keeps P I)
    (houtside : ∀ o s, R o s → I s → I (C.outside o s)) {p : Session κ σ ε} {m : Move ι ω}
    (hQ : ∀ i, m = .enter i → Q i p.state) (hR : ∀ o, m = .outside o → R o p.state)
    (hP : P (C.move p m).state) (h : Holds P I p) : Holds P I (C.move p m) := by
  cases m with
  | outside o => exact ⟨houtside o p.state (hR o rfl) h.state, h.start, h.rest⟩
  | enter i => exact h.resume h.state (hcall i p.state (hQ i rfl) h.state) hP
  | answer =>
    obtain ⟨state, pending⟩ := p
    cases pending with
    | nil => exact h
    | cons f pending =>
      obtain ⟨hstart, hstarts⟩ := List.forall_mem_cons.1 h.start
      obtain ⟨hrest, hrests⟩ := List.forall_mem_cons.1 h.rest
      have hbelow : Holds P I ⟨state, pending⟩ := ⟨h.state, hstarts, hrests⟩
      exact hbelow.resume hstart (hrest state h.state) hP
  | undo =>
    obtain ⟨state, pending⟩ := p
    cases pending with
    | nil => exact h
    | cons f pending =>
      obtain ⟨hstart, hstarts⟩ := List.forall_mem_cons.1 h.start
      exact ⟨hstart, hstarts, (List.forall_mem_cons.1 h.rest).2⟩

/-- What calls keep from where they begin or are answered to where they next
stop, and what happens outside, holds always. `Q` speaks of a call, and `R` of
what happens outside, and the state that it finds. -/
theorem invariant (hcall : ∀ i s, Q i s → I s → (C.body i s).Keeps P I)
    (houtside : ∀ o s, R o s → I s → I (C.outside o s)) (h0 : I s)
    (hQ : ∀ q i, q ++ [.enter i] <+: l → Q i (C.session s q).state)
    (hR : ∀ q o, q ++ [.outside o] <+: l → R o (C.session s q).state)
    (hP : ∀ q, q <+: l → P (C.session s q).state) : Holds P I (C.session s l) := by
  induction l using List.reverseRecOn with
  | nil => exact ⟨h0, fun _ hf => absurd hf List.not_mem_nil, fun _ hf => absurd hf List.not_mem_nil⟩
  | append_singleton l m ih =>
    have hbefore := ih (fun q i hq => hQ q i (hq.trans (List.prefix_append l [m])))
      (fun q o hq => hR q o (hq.trans (List.prefix_append l [m])))
      fun q hq => hP q (hq.trans (List.prefix_append l [m]))
    have hlast := hP (l ++ [m]) (List.prefix_refl _)
    rw [session_concat] at hlast ⊢
    exact hbefore.move hcall houtside (fun i hi => hQ l i (hi ▸ List.prefix_refl _))
      (fun o ho => hR l o (ho ▸ List.prefix_refl _)) hlast

/-! ## Calls that hand over last -/

/-- What calls keep that are made one after the other, and what happens
outside, holds always. -/
theorem invariant_tail (htail : C.Tail) (hcall : ∀ i s s', Q i s → P s' → I s → C.plain (.inl i) s = .ok s' → I s')
    (houtside : ∀ o s, R o s → I s → I (C.outside o s)) (h0 : I s)
    (hQ : ∀ q i, q ++ [.enter i] <+: l → Q i (C.session s q).state)
    (hR : ∀ q o, q ++ [.outside o] <+: l → R o (C.session s q).state)
    (hP : ∀ q, q <+: l → P (C.session s q).state) : I (C.session s l).state :=
  (invariant (fun i s hi hI => (htail i s).keeps fun s' hs hP => hcall i s s' hi hP hI hs) houtside h0 hQ hR hP).state

/-- The rest of what waits changes nothing. -/
theorem Tail.rest (htail : C.Tail) (s : σ) (l : List (Move ι ω)) :
    ∀ f ∈ (C.session s l).pending, ∀ s, f.rest s = .done s := by
  have hresume : ∀ (c : Body κ σ ε σ) (start : σ) (pending : List (Frame κ σ ε)), c.Last →
      (∀ f ∈ pending, ∀ s, f.rest s = .done s) →
      ∀ f ∈ (Session.resume start pending c).pending, ∀ s, f.rest s = .done s := by
    intro c start pending hc hpending
    cases c with
    | done s => exact hpending
    | fail e => exact hpending
    | handOver k s rest => exact List.forall_mem_cons.2 ⟨hc, hpending⟩
  induction l using List.reverseRecOn with
  | nil => exact fun _ hf => absurd hf List.not_mem_nil
  | append_singleton l m ih =>
    rw [session_concat]
    cases m with
    | outside o => exact ih
    | enter i => exact hresume _ _ _ (htail i _) ih
    | answer =>
      simp only [move]
      split
      · exact ih
      · next f pending hpending =>
        rw [hpending] at ih
        obtain ⟨hf, hrests⟩ := List.forall_mem_cons.1 ih
        rw [hf]
        exact hrests
    | undo =>
      simp only [move]
      split
      · exact ih
      · next f pending hpending =>
        rw [hpending] at ih
        exact (List.forall_mem_cons.1 ih).2

/-- The same of what speaks of the time, which calls carry and which never
goes back; it must outlast the passing of time. -/
theorem invariant_clocked {T : Type} [Preorder T] (htail : C.Tail) (clock : ι → T) (I : T → σ → Prop)
    (hmono : ∀ t t' s, t ≤ t' → I t s → I t' s)
    (hcall : ∀ i s s', Q i s → I (clock i) s → C.plain (.inl i) s = .ok s' → I (clock i) s')
    (houtside : ∀ t o s, I t s → I t (C.outside o s)) {t₀ : T} (h0 : I t₀ s)
    (hl : (l.filterMap Move.entered).Pairwise (clock · ≤ clock ·))
    (hQ : ∀ q i, q ++ [.enter i] <+: l → Q i (C.session s q).state) (hstart : ∀ i, .enter i ∈ l → t₀ ≤ clock i)
    {t : T} (ht₀ : t₀ ≤ t) (ht : ∀ i, .enter i ∈ l → clock i ≤ t) :
    Holds (fun _ => True) (I t) (C.session s l) := by
  induction l using List.reverseRecOn generalizing t with
  | nil =>
    exact ⟨hmono _ _ _ ht₀ h0, fun _ hf => absurd hf List.not_mem_nil, fun _ hf => absurd hf List.not_mem_nil⟩
  | append_singleton l m ih =>
    rw [List.filterMap_append, List.pairwise_append] at hl
    have ih := @ih hl.1 (fun q i hq => hQ q i (hq.trans (List.prefix_append l [m])))
      fun i hi => hstart i (List.mem_append_left _ hi)
    by_cases hm : ∃ i, m = .enter i
    · obtain ⟨i, rfl⟩ := hm
      have hbefore : Holds (fun _ => True) (I (clock i)) (C.session s l) :=
        ih (hstart i (by simp)) fun j hj =>
          hl.2.2 j (List.mem_filterMap.2 ⟨_, hj, rfl⟩) i (by simp [Move.entered])
      have hafter : Holds (fun _ => True) (I (clock i)) (C.session s (l ++ [.enter i])) := by
        rw [session_concat]
        exact hbefore.move (Q := fun j s => j = i ∧ Q i s) (R := fun _ _ => True)
          (fun j s₁ hj hI => by
            obtain ⟨rfl, hj⟩ := hj
            exact (htail j s₁).keeps fun s' hs _ => hcall j s₁ s' hj hI hs)
          (fun o s _ => houtside _ o s) (fun j hj => ⟨(Move.enter.inj hj).symm, hQ l i (List.prefix_refl _)⟩)
          (fun _ _ => trivial) trivial
      have hle : clock i ≤ t := ht i (by simp)
      refine ⟨hmono _ _ _ hle hafter.state, fun f hf => hmono _ _ _ hle (hafter.start f hf), fun f hf s hs => ?_⟩
      rw [htail.rest _ _ f hf s]
      exact fun _ => hs
    · rw [session_concat]
      exact (ih ht₀ fun i hi => ht i (List.mem_append_left _ hi)).move (Q := fun _ _ => False) (R := fun _ _ => True)
        (fun _ _ hi => hi.elim) (fun o s _ => houtside _ o s) (fun i hi => hm ⟨i, hi⟩) (fun _ _ => trivial) trivial

/-- **Every state there ever is, calls made one after the other lead to**,
out of those that were made and what happened outside. -/
theorem exists_sequential (htail : C.Tail) (s : σ) (l : List (Move ι ω)) :
    ∃ e : List (ι ⊕ ω), (∀ i, .inl i ∈ e → .enter i ∈ l) ∧ Runs.transact C.plain s e = .ok (C.session s l).state := by
  have hcall : ∀ i s₁ s', .enter i ∈ l → True →
      (∃ e : List (ι ⊕ ω), (∀ i, .inl i ∈ e → .enter i ∈ l) ∧ Runs.transact C.plain s e = .ok s₁) →
      C.plain (.inl i) s₁ = .ok s' →
      ∃ e : List (ι ⊕ ω), (∀ i, .inl i ∈ e → .enter i ∈ l) ∧ Runs.transact C.plain s e = .ok s' := by
    rintro i s₁ s' hi - ⟨e, he, hs⟩ hplain
    refine ⟨e ++ [.inl i], fun j hj => ?_, Runs.transact_concat_ok_iff.2 ⟨s₁, hs, hplain⟩⟩
    rcases List.mem_append.1 hj with hj | hj
    · exact he j hj
    · obtain rfl := Sum.inl.inj (List.mem_singleton.1 hj)
      exact hi
  refine invariant_tail (P := fun _ => True) (Q := fun i _ => .enter i ∈ l) (R := fun _ _ => True) htail hcall
    (fun o s₁ _ h => ?_) ⟨[], by simp, rfl⟩ (fun q i hq => hq.subset (by simp)) (fun _ _ _ => trivial) fun _ _ => trivial
  obtain ⟨e, he, hs⟩ := h
  exact ⟨e ++ [.inr o], fun i hi => he i (by simpa using hi), Runs.transact_concat_ok_iff.2 ⟨s₁, hs, rfl⟩⟩

/-! ## Records -/

section

variable {view : τ → σ} {p : Session κ τ ε} {p' : Session κ σ ε} {C' : Contract τ ι κ ω ε}

/-- Sessions that are the same to `view`, also in what they still have to do. -/
structure Seen (view : τ → σ) (p : Session κ τ ε) (p' : Session κ σ ε) : Prop where
  state : view p.state = p'.state
  pending : List.Forall₂ (fun f f' => view f.start = f'.start ∧ ∀ t, (f.rest t).Refines view (f'.rest (view t)))
    p.pending p'.pending

theorem Seen.resume {c : Body κ τ ε τ} {c' : Body κ σ ε σ} (h : Seen view p p') {t : τ} (hc : c.Refines view c') :
    Seen view (.resume t p.pending c) (.resume (view t) p'.pending c') := by
  cases c with
  | done t' =>
    obtain rfl := hc
    exact ⟨rfl, h.pending⟩
  | fail e =>
    obtain rfl := hc
    exact ⟨rfl, h.pending⟩
  | handOver k t' rest =>
    obtain ⟨rest', rfl, hrest⟩ := hc
    exact ⟨rfl, .cons ⟨rfl, hrest⟩ h.pending⟩

/-- Contracts whose calls are the same to `view` have the same sessions to it. -/
theorem session_refines (view : τ → σ) (hbody : ∀ i t, (C'.body i t).Refines view (C.body i (view t)))
    (houtside : ∀ o t, view (C'.outside o t) = C.outside o (view t)) (t : τ) (l : List (Move ι ω)) :
    Seen view (C'.session t l) (C.session (view t) l) := by
  induction l using List.reverseRecOn with
  | nil => exact ⟨rfl, .nil⟩
  | append_singleton l m ih =>
    rw [session_concat, session_concat]
    generalize C'.session t l = p at ih
    generalize C.session (view t) l = p' at ih
    obtain ⟨state, pending⟩ := p
    obtain ⟨state', pending'⟩ := p'
    obtain rfl : view state = state' := ih.state
    cases m with
    | outside o => exact ⟨houtside o state, ih.pending⟩
    | enter i => exact ih.resume (hbody i state)
    | answer =>
      cases ih.pending with
      | nil => exact ih
      | @cons f f' pending pending' hf hpending =>
        have hbelow : Seen view ⟨state, pending⟩ ⟨view state, pending'⟩ := ⟨rfl, hpending⟩
        have hresumed := hbelow.resume (t := f.start) (hf.2 state)
        rw [hf.1] at hresumed
        exact hresumed
    | undo =>
      cases ih.pending with
      | nil => exact ih
      | cons hf hpending => exact ⟨hf.1, hpending⟩

end

section

variable {β : Type} {note : ι → σ → σ → β → β} {i : ι} {b : β} {p p' : σ × β}

/-- A contract that also notes something down of every call, before it first waits. -/
def recording (C : Contract σ ι κ ω ε) (note : ι → σ → σ → β → β) : Contract (σ × β) ι κ ω ε :=
  { body := fun i p => (C.body i p.1).noting (note i p.1) p.2
    outside := fun o p => (C.outside o p.1, p.2) }

theorem Tail.recording (h : C.Tail) : (C.recording note).Tail := fun i p => (h i p.1).noting

theorem recording_plain_ok_iff :
    (C.recording note).plain (.inl i) p = .ok p' ↔ C.plain (.inl i) p.1 = .ok p'.1 ∧ p'.2 = note i p.1 p'.1 p.2 := by
  obtain ⟨s', b'⟩ := p'
  simp only [plain, recording, Body.upTo_noting]
  cases (C.body i p.1).upTo with
  | error e =>
    constructor
    · intro h; cases h
    · rintro ⟨h, -⟩; cases h
  | ok s =>
    simp only [Functor.map, Except.map, Except.ok.injEq, Prod.mk.injEq]
    constructor
    · rintro ⟨rfl, rfl⟩; exact ⟨rfl, rfl⟩
    · rintro ⟨rfl, rfl⟩; exact ⟨rfl, rfl⟩

/-- What is noted down changes nothing. -/
theorem session_recording (C : Contract σ ι κ ω ε) (note : ι → σ → σ → β → β) (s : σ) (b : β) (l : List (Move ι ω)) :
    ((C.recording note).session (s, b) l).state.1 = (C.session s l).state :=
  (session_refines Prod.fst (fun _ _ => Body.noting_refines _ _ _) (fun _ _ => rfl) (s, b) l).state

end

end Contract

end Reentrancy
