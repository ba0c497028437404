/-
Calls that hand over to other contracts. What is left to do of a call is a
`Body`: it is done, or it reverts, or it asks for something, leaves its state
as it is, and does the rest in the state that it is answered in, which need
not be the one that it left.

`answered` is a call where nothing happens while it waits but what makes the
answer; `upTo` is a call up to where it first waits. Of the rest `Waits` says
something, which for a call that has nothing left to do is `Last`; and `Keeps`
says that an invariant holds wherever the call stops, if it does where it is
answered. A call can be one of a part of a larger state (`inPart`), and can
note something down where it first stops (`noting`), which changes nothing
(`Refines`).
-/
import StarlayStake.Lib.Outcome

namespace Reentrancy

variable {σ τ κ κ' ε α β γ : Type}

/-- What is left to do of a call. -/
inductive Body (κ σ ε α : Type)
  | done (a : α)
  | fail (e : ε)
  /-- asks for `k`, leaves `s`, and does the rest in the state it is answered in -/
  | handOver (k : κ) (s : σ) (rest : σ → Body κ σ ε α)

namespace Body

def bind : Body κ σ ε α → (α → Body κ σ ε β) → Body κ σ ε β
  | .done a, f => f a
  | .fail e, _ => .fail e
  | .handOver k s rest, f => .handOver k s fun s => (rest s).bind f

instance : Monad (Body κ σ ε) where
  pure := .done
  bind := Body.bind

theorem bind_done (c : Body κ σ ε α) : c.bind .done = c := by
  induction c with
  | done a => rfl
  | fail e => rfl
  | handOver k s rest ih => exact congrArg (handOver k s) (funext ih)

theorem bind_assoc (c : Body κ σ ε α) (f : α → Body κ σ ε β) (g : β → Body κ σ ε γ) :
    (c.bind f).bind g = c.bind fun a => (f a).bind g := by
  induction c with
  | done a => rfl
  | fail e => rfl
  | handOver k s rest ih => exact congrArg (handOver k s) (funext ih)

instance : LawfulMonad (Body κ σ ε) := LawfulMonad.mk' _ bind_done (fun _ _ => rfl) bind_assoc

/-- What asks for nothing. -/
def ofExcept : Except ε α → Body κ σ ε α
  | .ok a => .done a
  | .error e => .fail e

instance : MonadLift (Except ε) (Body κ σ ε) := ⟨ofExcept⟩

/-- Asks for `k`, and goes on with the state it is answered in. -/
def ask (k : κ) (s : σ) : Body κ σ ε σ := .handOver k s .done

/-! ## Without callbacks -/

/-- A call where answers come from `reply`, and nothing else happens. -/
def answered (reply : κ → σ → Except ε σ) : Body κ σ ε α → Except ε α
  | .done a => .ok a
  | .fail e => .error e
  | .handOver k s rest => reply k s >>= fun s => (rest s).answered reply

section

variable {reply : κ → σ → Except ε σ}

@[simp] theorem answered_pure (a : α) : (pure a : Body κ σ ε α).answered reply = .ok a := rfl

@[simp] theorem answered_liftM (e : Except ε α) : (liftM e : Body κ σ ε α).answered reply = e := by
  cases e <;> rfl

@[simp] theorem answered_ask (k : κ) (s : σ) : (ask k s : Body κ σ ε σ).answered reply = reply k s := by
  show (reply k s >>= fun s => .ok s) = reply k s
  cases reply k s <;> rfl

@[simp] theorem answered_bind (c : Body κ σ ε α) (f : α → Body κ σ ε β) :
    (c >>= f).answered reply = c.answered reply >>= fun a => (f a).answered reply := by
  induction c with
  | done a => rfl
  | fail e => rfl
  | handOver k s rest ih =>
    show (reply k s >>= fun s => (rest s >>= f).answered reply) =
      (reply k s >>= fun s => (rest s).answered reply) >>= _
    cases reply k s with
    | ok s => exact ih s
    | error e => rfl

end

/-! ## Up to where a call waits -/

/-- A call up to where it first waits, or else to its end. -/
def upTo : Body κ σ ε σ → Except ε σ
  | .done s => .ok s
  | .fail e => .error e
  | .handOver _ s _ => .ok s

/-- What holds of the rest, when it is answered. -/
def Waits (φ : σ → Body κ σ ε α → Prop) : Body κ σ ε α → Prop
  | .done _ => True
  | .fail _ => True
  | .handOver _ _ rest => ∀ s, φ s (rest s)

/-- When it is answered it has nothing left to do. -/
def Last (c : Body κ σ ε σ) : Prop := c.Waits fun s rest => rest = .done s

section

variable {φ ψ : σ → Body κ σ ε α → Prop} {c : Body κ σ ε α}

@[simp] theorem upTo_liftM (e : Except ε σ) : (liftM e : Body κ σ ε σ).upTo = e := by
  cases e <;> rfl

@[simp] theorem upTo_liftM_bind (e : Except ε β) (f : β → Body κ σ ε σ) :
    ((liftM e : Body κ σ ε β) >>= f).upTo = e >>= fun b => (f b).upTo := by
  cases e <;> rfl

@[simp] theorem upTo_ask_bind (k : κ) (s : σ) (f : σ → Body κ σ ε σ) :
    ((ask k s : Body κ σ ε σ) >>= f).upTo = .ok s := rfl

theorem Waits.imp (h : c.Waits φ) (hφ : ∀ s rest, φ s rest → ψ s rest) : c.Waits ψ := by
  cases c with
  | done a => trivial
  | fail e => trivial
  | handOver k s rest => exact fun s => hφ s (rest s) (h s)

theorem waits_liftM (e : Except ε α) : (liftM e : Body κ σ ε α).Waits φ := by
  cases e <;> exact trivial

theorem waits_liftM_bind {e : Except ε β} {f : β → Body κ σ ε α} (h : ∀ b, (f b).Waits φ) :
    ((liftM e : Body κ σ ε β) >>= f).Waits φ := by
  cases e with
  | ok b => exact h b
  | error e => trivial

theorem waits_ask_bind {k : κ} {s : σ} {f : σ → Body κ σ ε α} (h : ∀ s, φ s (f s)) :
    ((ask k s : Body κ σ ε σ) >>= f).Waits φ := h

theorem last_ask (k : κ) (s : σ) : (ask k s : Body κ σ ε σ).Last := fun _ => rfl

/-- Where answers change nothing, what hands over last does no more than up to there. -/
theorem Last.answered {c : Body κ σ ε σ} (h : c.Last) : (c.answered fun _ s => .ok s) = c.upTo := by
  cases c with
  | done s => rfl
  | fail e => rfl
  | handOver k s rest =>
    show (rest s).answered _ = .ok s
    rw [h s]
    rfl

end

/-! ## Invariants -/

/-- Wherever it stops, in a state in `P`, `I` holds, if it does where it was answered. -/
def Keeps (P I : σ → Prop) : Body κ σ ε σ → Prop
  | .done s => P s → I s
  | .fail _ => True
  | .handOver _ s rest => (P s → I s) ∧ ∀ s, I s → (rest s).Keeps P I

section

variable {P I : σ → Prop} {c : Body κ σ ε σ}

/-- What hands over last only has to be looked at up to there. -/
theorem Last.keeps (hlast : c.Last) (h : ∀ s, c.upTo = .ok s → P s → I s) : c.Keeps P I := by
  cases c with
  | done s => exact h s rfl
  | fail e => trivial
  | handOver k s rest =>
    refine ⟨h s rfl, fun s' hI => ?_⟩
    rw [hlast s']
    exact fun _ => hI

end

/-! ## Parts -/

/-- A call on a part of a state, seen from the whole. -/
def inPart (part : τ → σ) (replace : σ → τ → τ) (asks : κ → κ') : Body κ σ ε σ → τ → Body κ' τ ε τ
  | .done s, t => .done (replace s t)
  | .fail e, _ => .fail e
  | .handOver k s rest, t => .handOver (asks k) (replace s t) fun t => (rest (part t)).inPart part replace asks t

section

variable {part : τ → σ} {replace : σ → τ → τ} {asks : κ → κ'} {reply : κ → σ → Except ε σ}
  {reply' : κ' → τ → Except ε τ}

/-- Answers change the part as they do without the rest. -/
theorem answered_inPart (hpart : ∀ s t, part (replace s t) = s) (hreplace : ∀ s s' t, replace s (replace s' t) = replace s t)
    (hreply : ∀ k t, reply' (asks k) t = (replace · t) <$> reply k (part t)) (c : Body κ σ ε σ) (t : τ) :
    (c.inPart part replace asks t).answered reply' = (replace · t) <$> c.answered reply := by
  induction c generalizing t with
  | done s => rfl
  | fail e => rfl
  | handOver k s rest ih =>
    show (reply' (asks k) (replace s t) >>= fun t => ((rest (part t)).inPart part replace asks t).answered reply') =
      (replace · t) <$> (reply k s >>= fun s => (rest s).answered reply)
    rw [hreply, hpart]
    cases reply k s with
    | error e => rfl
    | ok s' =>
      show ((rest (part (replace s' (replace s t)))).inPart part replace asks _).answered reply' = _
      rw [hreplace, hpart, ih]
      show _ <$> (rest s').answered reply = _ <$> (rest s').answered reply
      simp only [hreplace]

theorem upTo_inPart (c : Body κ σ ε σ) (t : τ) :
    (c.inPart part replace asks t).upTo = (replace · t) <$> c.upTo := by
  cases c <;> rfl

/-- The rest of a call on a part is one too. -/
theorem waits_inPart (c : Body κ σ ε σ) (t : τ) :
    (c.inPart part replace asks t).Waits fun t rest => ∃ c : Body κ σ ε σ, rest = c.inPart part replace asks t := by
  cases c with
  | done s => trivial
  | fail e => trivial
  | handOver k s rest => exact fun t => ⟨rest (part t), rfl⟩

end

/-! ## Records -/

/-- A call that notes something down where it first stops. -/
def noting (note : σ → β → β) (b : β) : Body κ σ ε σ → Body κ (σ × β) ε (σ × β)
  | .done s => .done (s, note s b)
  | .fail e => .fail e
  | .handOver k s rest => .handOver k (s, note s b) fun p => (rest p.1).noting (fun _ b => b) p.2

/-- The same call, on states of which `view` sees only something. -/
def Refines (view : τ → σ) : Body κ τ ε τ → Body κ σ ε σ → Prop
  | .done t, c => c = .done (view t)
  | .fail e, c => c = .fail e
  | .handOver k t rest, c => ∃ rest', c = .handOver k (view t) rest' ∧ ∀ t, (rest t).Refines view (rest' (view t))

section

variable {note : σ → β → β} {b : β} {c : Body κ σ ε σ} {P I : σ × β → Prop}

theorem noting_refines (note : σ → β → β) (b : β) (c : Body κ σ ε σ) : (c.noting note b).Refines Prod.fst c := by
  induction c generalizing note b with
  | done s => rfl
  | fail e => rfl
  | handOver k s rest ih => exact ⟨rest, rfl, fun p => ih p.1 _ p.2⟩

theorem Last.noting (h : c.Last) : (c.noting note b).Last := by
  cases c with
  | done s => trivial
  | fail e => trivial
  | handOver k s rest =>
    intro p
    show (rest p.1).noting _ p.2 = .done p
    rw [h p.1]
    rfl

theorem upTo_noting : (c.noting note b).upTo = (fun s => (s, note s b)) <$> c.upTo := by
  cases c <;> rfl

/-- Of what is noted down it has to be known where a call first stops. -/
theorem Keeps.noting (hfirst : ∀ s, c.upTo = .ok s → P (s, note s b) → I (s, note s b))
    (hrest : c.Waits fun s rest => ∀ b, I (s, b) → (rest.noting (fun _ b => b) b).Keeps P I) :
    (c.noting note b).Keeps P I := by
  cases c with
  | done s => exact hfirst s rfl
  | fail e => trivial
  | handOver k s rest => exact ⟨hfirst s rfl, fun p hI => hrest p.1 p.2 hI⟩

/-- A call on a part that an invariant does not speak of. -/
theorem Keeps.inPart {part : τ → σ} {replace : σ → τ → τ} {asks : κ → κ'} {P I : τ × β → Prop}
    (hI : ∀ s t b, I (t, b) → I (replace s t, b)) (c : Body κ σ ε σ) {t : τ} {b : β} (h : I (t, b)) :
    ((c.inPart part replace asks t).noting (fun _ b => b) b).Keeps P I := by
  induction c generalizing t b with
  | done s => exact fun _ => hI s t b h
  | fail e => trivial
  | handOver k s rest ih => exact ⟨fun _ => hI s t b h, fun p hp => ih (part p.1) hp⟩

end

end Body

end Reentrancy
