/-
Messages signed by accounts and relayed by anybody. `permit` signs the nonce
that is stored, the other two compare it with one that is passed; each raises
it by one, where nothing fails later (`SignedStep`). So of the messages
accepted, those of one signer carry its nonces in order, whichever entry
point took them, and none is accepted twice (`Counters.InOrder`).
-/
import StarlayStake.Effects
import StarlayStake.Lib.Counters

namespace StarlayStake

open Counters (InOrder)
open StakedToken

def TypedData.nonce : TypedData → Nat
  | .permit _ _ _ nonce _ => nonce
  | .delegateByType _ _ nonce _ => nonce
  | .delegate _ nonce _ => nonce

/-- The last time at which the message is accepted. -/
def TypedData.deadline : TypedData → Nat
  | .permit _ _ _ _ deadline => deadline
  | .delegateByType _ _ _ expiry => expiry
  | .delegate _ _ expiry => expiry

variable {W : Type}

/-- The message a call says is signed, as its entry point puts it together,
and the signature. -/
def Tx.signed (x : Tx) (s : State W) : Option (TypedData × Signature) :=
  match x.call with
  | .delegateBySig delegatee nonce expiry signature => some (.delegate delegatee nonce expiry, signature)
  | .delegateByTypeBySig delegatee delegationType nonce expiry signature =>
    some (.delegateByType delegatee delegationType nonce expiry, signature)
  | .permit owner spender value deadline signature =>
    some (.permit owner spender value (s.nonces owner) deadline, signature)
  | _ => none

structure AcceptedMessage where
  signer : Address
  message : TypedData
  deriving DecidableEq

/-- The message noted down of a successful call. -/
def noteMessage (D : Deployment W) (x : Tx) (s _s' : State W) (log : List AcceptedMessage) : List AcceptedMessage :=
  match x.signed s with
  | none => log
  | some (message, signature) =>
    match D.ext.recover message signature with
    | .ok signer => log ++ [⟨signer, message⟩]
    | .error _ => log

/-- The messages accepted in a run, in order. -/
def accepted (D : Deployment W) (s : State W) (l : List Tx) : List AcceptedMessage :=
  (Runs.run (Runs.record (exec D) (noteMessage D)) (s, []) l).2

variable {D : Deployment W}

/-! ## What a call does to the nonces -/

/-- A successful call without a message leaves the nonces, and one with a
message uses the signer's. -/
inductive SignedStep (D : Deployment W) (x : Tx) (s s' : State W) : Prop
  | unsigned (hx : x.signed s = none) (h : s'.nonces = s.nonces)
  | signed (message : TypedData) (signature : Signature) (signer : Address)
      (hx : x.signed s = some (message, signature)) (hrecover : D.ext.recover message signature = .ok signer)
      (hne : signer ≠ 0) (hnonce : message.nonce = s.nonces signer) (htime : x.msg.timestamp ≤ message.deadline)
      (h : s'.nonces = Function.update s.nonces signer ((s.nonces signer + 1) % 2 ^ 256))

section

variable {x : Tx} {s s' : State W}

/-- Every successful call is such a step. -/
theorem signedStep_of_exec (h : exec D x s = .ok s') : SignedStep D x s s' := by
  obtain ⟨v, m, c⟩ := x
  cases c with
  | stake onBehalfOf amount =>
    obtain ⟨-, -, -, -, r, assets, c, p, w, w', -, -, -, -, -, -, rfl⟩ := stake_ok_iff.1 h
    exact .unsigned rfl rfl
  | redeem dst amount =>
    obtain ⟨-, -, -, -, -, r, assets, p, w, w', -, -, -, -, -, rfl⟩ := redeem_ok_iff.1 h
    exact .unsigned rfl rfl
  | cooldown =>
    obtain ⟨-, rfl⟩ := cooldown_ok_iff.1 h
    exact .unsigned rfl rfl
  | claimRewards dst amount =>
    obtain ⟨n, h⟩ := exec_claimRewards_ok_iff.1 h
    obtain ⟨r, assets, w, -, -, -, -, -, rfl⟩ := claimRewards_ok_iff.1 h
    exact .unsigned rfl rfl
  | transfer recipient amount => exact .unsigned rfl (transfer_aside h).2
  | transferFrom sender recipient amount =>
    obtain ⟨s₁, h₁, -, -, rfl⟩ := transferFrom_ok_iff.1 h
    exact .unsigned rfl (transfer_aside h₁).2
  | approve spender amount =>
    obtain ⟨-, -, rfl⟩ := approve_ok_iff.1 h
    exact .unsigned rfl rfl
  | increaseAllowance spender addedValue =>
    obtain ⟨value, h⟩ := increaseAllowance_ok h
    obtain ⟨-, -, rfl⟩ := approve_ok_iff.1 h
    exact .unsigned rfl rfl
  | decreaseAllowance spender subtractedValue =>
    obtain ⟨value, h⟩ := decreaseAllowance_ok h
    obtain ⟨-, -, rfl⟩ := approve_ok_iff.1 h
    exact .unsigned rfl rfl
  | configureAssets inputs =>
    obtain ⟨-, assets, -, rfl⟩ := configureAssets_ok_iff.1 h
    exact .unsigned rfl rfl
  | delegate y =>
    cases v with
    | v1 => cases h
    | v2 =>
      obtain ⟨-, p, -, rfl⟩ := delegate_ok_iff.1 h
      exact .unsigned rfl rfl
  | delegateByType y t =>
    cases v with
    | v1 => cases h
    | v2 =>
      obtain ⟨-, p, -, rfl⟩ := delegateByType_ok_iff.1 h
      exact .unsigned rfl rfl
  | delegateBySig y nonce expiry signature =>
    cases v with
    | v1 => cases h
    | v2 =>
      obtain ⟨signer, hrecover, hne, hnonce, htime, s₁, -, rfl⟩ := delegateBySig_ok_iff.1 h
      exact .signed _ signature signer rfl hrecover hne hnonce htime rfl
  | delegateByTypeBySig y t nonce expiry signature =>
    cases v with
    | v1 => cases h
    | v2 =>
      obtain ⟨signer, hrecover, hne, hnonce, htime, s₁, -, rfl⟩ := delegateByTypeBySig_ok_iff.1 h
      exact .signed _ signature signer rfl hrecover hne hnonce htime rfl
  | permit owner spender value deadline signature =>
    cases v with
    | v1 => cases h
    | v2 =>
      obtain ⟨howner, htime, -, hfits, hrecover, rfl⟩ := permit_ok_iff.1 h
      refine .signed _ signature owner rfl hrecover howner rfl htime ?_
      rw [Nat.mod_eq_of_lt hfits]

/-- A delegation by signature does, but for the nonce, what `delegate` does
when the signer calls it. -/
theorem delegate_of_delegateBySig {delegatee : Address} {nonce expiry : Nat} {signature : Signature}
    (hx : x.call = .delegateBySig delegatee nonce expiry signature) (h : exec D x s = .ok s') :
    ∃ (signer : Address) (hsigner : signer ≠ 0),
      D.ext.recover (.delegate delegatee nonce expiry) signature = .ok signer ∧
      exec D ⟨x.version, { x.msg with sender := signer, sender_ne := hsigner }, .delegate delegatee⟩ s =
        .ok { s' with nonces := s.nonces } := by
  obtain ⟨v, m, c⟩ := x
  obtain rfl : c = _ := hx
  cases v with
  | v1 => cases h
  | v2 =>
    obtain ⟨signer, hrecover, hne, -, -, s₁, h₁, rfl⟩ := delegateBySig_ok_iff.1 h
    refine ⟨signer, hne, hrecover, ?_⟩
    have hnonces : s₁.nonces = s.nonces := by
      obtain ⟨-, p, -, rfl⟩ := delegate_ok_iff.1 h₁
      rfl
    rw [← hnonces]
    exact h₁

end

/-! ## Runs -/

/-- What a message uses up: a number of its signer's. -/
def AcceptedMessage.use (a : AcceptedMessage) : Address × Nat := (a.signer, a.message.nonce)

section

variable {x : Tx} {s s' : State W} {l p : List Tx} {message : TypedData} {signature : Signature} {signer : Address}

theorem noteMessage_unsigned {log : List AcceptedMessage} (hx : x.signed s = none) : noteMessage D x s s' log = log := by
  simp only [noteMessage, hx]

theorem noteMessage_signed {log : List AcceptedMessage} (hx : x.signed s = some (message, signature))
    (hrecover : D.ext.recover message signature = .ok signer) :
    noteMessage D x s s' log = log ++ [⟨signer, message⟩] := by
  simp only [noteMessage, hx, hrecover]

theorem accepted_concat_ok (hs : exec D x (run D s l) = .ok s') :
    accepted D s (l ++ [x]) = noteMessage D x (run D s l) s' (accepted D s l) := Runs.record_concat_ok hs

theorem accepted_concat_error {e : String} (hs : exec D x (run D s l) = .error e) :
    accepted D s (l ++ [x]) = accepted D s l := Runs.record_concat_error hs

/-- The log only grows. -/
theorem accepted_prefix_run (h : p <+: l) : accepted D s p <+: accepted D s l := by
  induction l using List.reverseRecOn with
  | nil => rw [List.prefix_nil.1 h]
  | append_singleton l x ih =>
    rcases List.prefix_concat_iff.1 h with rfl | h
    · exact List.prefix_refl _
    · refine (ih h).trans ?_
      cases hs : exec D x (run D s l) with
      | error e => rw [accepted_concat_error hs]
      | ok s' =>
        rw [accepted_concat_ok hs, noteMessage]
        split
        · exact List.prefix_refl _
        · split
          · exact List.prefix_append ..
          · exact List.prefix_refl _

/-- A nonce is at most the number of messages accepted, so raising it does not
wrap. -/
theorem nonce_fits {nonces : Address → Nat} {log : List AcceptedMessage} {message : AcceptedMessage}
    (h : InOrder nonces (log.map AcceptedMessage.use)) (hcount : (log ++ [message]).length < 2 ^ 256) (a : Address) :
    (nonces a + 1) % 2 ^ 256 = nonces a + 1 := by
  have hle := h.counter_le a
  rw [List.length_map] at hle
  rw [List.length_append, List.length_singleton] at hcount
  exact Nat.mod_eq_of_lt (by omega)

/-- The messages of every signer used up its nonces in order. -/
theorem accepted_inOrder {g : Address} {w : W} (hcount : (accepted D (.fresh g w) l).length < 2 ^ 256) :
    InOrder (run D (.fresh g w) l).nonces ((accepted D (.fresh g w) l).map AcceptedMessage.use) := by
  refine Runs.run_history (exec D)
    (I := fun l s => (accepted D (.fresh g w) l).length < 2 ^ 256 →
      InOrder s.nonces ((accepted D (.fresh g w) l).map AcceptedMessage.use))
    (fun _ => .nil) (fun p x s' hp hI hs hrun hcount => ?_) (fun p x e hp hI hs hrun hcount => ?_) hcount
  · have hs : exec D x (run D (.fresh g w) p) = .ok s' := hs
    rw [accepted_concat_ok hs] at hcount ⊢
    cases signedStep_of_exec hs with
    | unsigned hx h =>
      rw [noteMessage_unsigned hx] at hcount ⊢
      rw [h]
      exact hI hcount
    | signed message signature signer hx hrecover _ hnonce _ h =>
      rw [noteMessage_signed hx hrecover] at hcount ⊢
      have hbefore : InOrder (run D (.fresh g w) p).nonces _ :=
        hI ((List.prefix_append ..).length_le.trans_lt hcount)
      rw [h, nonce_fits hbefore hcount, List.map_append, List.map_singleton, AcceptedMessage.use, hnonce]
      exact hbefore.use signer
  · have hs : exec D x (run D (.fresh g w) p) = .error e := hs
    rw [accepted_concat_error hs] at hcount ⊢
    exact hI hcount

/-- A call with a message uses the signer's nonce, and its message is noted
down. -/
theorem accepted_signed {g : Address} {w : W} (hcount : (accepted D (.fresh g w) (l ++ [x])).length < 2 ^ 256)
    (hx : x.signed (run D (.fresh g w) l) = some (message, signature))
    (hs : exec D x (run D (.fresh g w) l) = .ok s') :
    ∃ signer, D.ext.recover message signature = .ok signer ∧ signer ≠ 0 ∧
      message.nonce = (run D (.fresh g w) l).nonces signer ∧ x.msg.timestamp ≤ message.deadline ∧
      s'.nonces = Function.update (run D (.fresh g w) l).nonces signer ((run D (.fresh g w) l).nonces signer + 1) ∧
      accepted D (.fresh g w) (l ++ [x]) = accepted D (.fresh g w) l ++ [⟨signer, message⟩] := by
  cases signedStep_of_exec hs with
  | unsigned hx' _ => rw [hx] at hx'; cases hx'
  | signed message' signature' signer hx' hrecover hne hnonce htime h =>
    obtain ⟨rfl, rfl⟩ := Prod.mk.inj (Option.some.inj (hx.symm.trans hx'))
    have hlog := accepted_concat_ok hs
    rw [noteMessage_signed hx hrecover] at hlog
    rw [hlog] at hcount
    have hbefore : InOrder (run D (.fresh g w) l).nonces _ :=
      accepted_inOrder ((List.prefix_append ..).length_le.trans_lt hcount)
    rw [nonce_fits hbefore hcount] at h
    exact ⟨signer, hrecover, hne, hnonce, htime, h, hlog⟩

/-- A call without one leaves the nonces, and nothing is noted down. -/
theorem accepted_unsigned (hx : x.signed (run D s l) = none) (hs : exec D x (run D s l) = .ok s') :
    s'.nonces = (run D s l).nonces ∧ accepted D s (l ++ [x]) = accepted D s l := by
  refine ⟨?_, (accepted_concat_ok hs).trans (noteMessage_unsigned hx)⟩
  cases signedStep_of_exec hs with
  | unsigned _ h => exact h
  | signed message signature signer hx' _ _ _ _ _ => rw [hx] at hx'; cases hx'

end

/-- **Signed messages are consumed once and in order.** In a run in which
fewer than `2 ^ 256` messages are accepted, whatever `ecrecover` answers:
a call whose message is accepted recovers a signer that is not zero, whose
nonce the message carries, no later than its deadline, and raises this nonce
by one and no other; a call without a message leaves all nonces; and one that
reverts leaves nonces, allowances and delegations. A delegation by signature
does, but for the nonce, what `delegate` called by the signer does. The
messages accepted for one signer carry 0, 1, 2 and so on, in order, so no
signer's message is accepted twice, under whatever signature or by whatever
entry point. -/
theorem signed_messages_once {g : Address} {w : W} {l : List Tx}
    (hcount : (accepted D (.fresh g w) l).length < 2 ^ 256) :
    let log := accepted D (.fresh g w) l
    (∀ p x, p ++ [x] <+: l →
      let s := run D (.fresh g w) p
      let s' := run D (.fresh g w) (p ++ [x])
      (∀ message signature, x.signed s = some (message, signature) → (exec D x s).isOk = true →
        ∃ signer, D.ext.recover message signature = .ok signer ∧ signer ≠ 0 ∧ message.nonce = s.nonces signer ∧
          x.msg.timestamp ≤ message.deadline ∧
          s'.nonces = Function.update s.nonces signer (s.nonces signer + 1) ∧
          accepted D (.fresh g w) (p ++ [x]) = accepted D (.fresh g w) p ++ [⟨signer, message⟩]) ∧
      (x.signed s = none → s'.nonces = s.nonces ∧
        accepted D (.fresh g w) (p ++ [x]) = accepted D (.fresh g w) p) ∧
      ((exec D x s).isOk = false → s'.nonces = s.nonces ∧ s'.allowances = s.allowances ∧ s'.power = s.power ∧
        accepted D (.fresh g w) (p ++ [x]) = accepted D (.fresh g w) p) ∧
      ∀ delegatee nonce expiry signature, x.call = .delegateBySig delegatee nonce expiry signature →
        (exec D x s).isOk = true →
        ∃ (signer : Address) (hsigner : signer ≠ 0),
          D.ext.recover (.delegate delegatee nonce expiry) signature = .ok signer ∧
          exec D ⟨x.version, { x.msg with sender := signer, sender_ne := hsigner }, .delegate delegatee⟩ s =
            .ok { s' with nonces := s.nonces }) ∧
    (∀ a, ((log.filter fun m => m.signer = a).map fun m => m.message.nonce) =
      List.range ((run D (.fresh g w) l).nonces a)) ∧
    (log.map fun m => (m.signer, m.message.nonce)).Nodup := by
  intro log
  have hinOrder := accepted_inOrder hcount
  refine ⟨fun p x hp => ?_, fun a => ?_, hinOrder.nodup⟩
  · intro s s'
    have hlog := (accepted_prefix_run (D := D) (s := .fresh g w) hp).length_le.trans_lt hcount
    have hrun : s' = Runs.attempt (exec D) s x := Runs.run_concat ..
    cases hs : exec D x s with
    | error e =>
      have hlog' : accepted D (.fresh g w) (p ++ [x]) = accepted D (.fresh g w) p := accepted_concat_error hs
      rw [hrun, Runs.attempt_error hs, hlog']
      refine ⟨fun _ _ _ hok => (by cases hok), fun _ => ⟨rfl, rfl⟩, fun _ => ⟨rfl, rfl, rfl, rfl⟩,
        fun _ _ _ _ _ hok => (by cases hok)⟩
    | ok s₁ =>
      rw [hrun, Runs.attempt_ok hs]
      exact ⟨fun message signature hx _ => accepted_signed hlog hx hs, fun hx => accepted_unsigned hx hs,
        fun hrejected => (by cases hrejected),
        fun delegatee nonce expiry signature hx _ => delegate_of_delegateBySig hx hs⟩
  · have hused := hinOrder a
    rw [Counters.usedBy, List.filter_map, List.map_map] at hused
    exact hused

/-- A delegation, a permission and a delegation of one type, all signed by one
account, with the first submitted again in between. -/
theorem signed_messages_once_replayed :
    let signature : Signature := ⟨27, 10, 0⟩
    let l : List Tx := [⟨.v2, ⟨.ofNat 11, 1, 200, sampleOther_ne⟩, .delegateBySig (.ofNat 11) 0 300 signature⟩,
      ⟨.v2, ⟨.ofNat 11, 1, 200, sampleOther_ne⟩, .permit (.ofNat 10) (.ofNat 11) 5 300 signature⟩,
      ⟨.v2, ⟨.ofNat 11, 2, 201, sampleOther_ne⟩, .delegateBySig (.ofNat 11) 0 300 signature⟩,
      ⟨.v2, ⟨.ofNat 11, 2, 201, sampleOther_ne⟩, .delegateByTypeBySig (.ofNat 11) .VOTING_POWER 2 300 signature⟩]
    let log := accepted .sample (.fresh 0 ()) l
    log.length = 3 ∧ ((log.filter fun m => m.signer = .ofNat 10).map fun m => m.message.nonce) =
      List.range ((run .sample (.fresh 0 ()) l).nonces (.ofNat 10)) := by
  intro signature l log
  have hlog : log.length = 3 := by decide +kernel
  have hcount : (accepted .sample (.fresh 0 ()) l).length < 2 ^ 256 := hlog.trans_lt (by decide)
  exact ⟨hlog, (signed_messages_once hcount).2.1 (.ofNat 10)⟩

end StarlayStake
