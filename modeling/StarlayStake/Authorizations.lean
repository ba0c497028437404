/-
What signatures authorise at the token's proxy, as the digests that are
signed.

Revision 4 refuses signatures that the revisions before it take, and a token
under it goes through the same states all the same, with the signatures in
their low form (`revision4_same_states`). Through every upgrade the messages
accepted from a signer carry its nonces in order, so a digest is accepted
once, by one proxy on one chain (`digest_used_once`).
-/
import StarlayStake.SignedMessages
import StarlayStake.Upgrades

namespace StarlayStake

open Counters (InOrder)
open StakedToken

variable {W : Type} {N : Network W}

/-! ## Revision 4 -/

/-- The call with its signature, if it has one, put into another form. -/
def Call.resign (f : Signature → Signature) : Call → Call
  | .delegateBySig delegatee nonce expiry signature => .delegateBySig delegatee nonce expiry (f signature)
  | .delegateByTypeBySig delegatee delegationType nonce expiry signature =>
    .delegateByTypeBySig delegatee delegationType nonce expiry (f signature)
  | .permit owner spender value deadline signature => .permit owner spender value deadline (f signature)
  | c => c

def Tx.resign (f : Signature → Signature) (x : Tx) : Tx := { x with call := x.call.resign f }

/-- The deployment, where signers are recovered in another way. -/
def Deployment.recovering (D : Deployment W) (recover : TypedData → Signature → Except String Address) : Deployment W :=
  { D with ext := { D.ext with recover } }

section

variable {D : Deployment W} {f g : Signature → Signature} {x : Tx} {s s' : State W}

theorem Tx.resign_id (x : Tx) : x.resign id = x := by
  obtain ⟨v, m, c⟩ := x
  cases c <;> rfl

/-- A call goes through with its signature in another form, and signers
recovered in another way, where the signer is the same. -/
theorem exec_recovering (recover recover' : TypedData → Signature → Except String Address)
    (hrecover : ∀ message signature a, a ≠ 0 → recover message (f signature) = .ok a →
      recover' message (g signature) = .ok a)
    (h : exec (D.recovering recover) (x.resign f) s = .ok s') : exec (D.recovering recover') (x.resign g) s = .ok s' := by
  obtain ⟨v, m, c⟩ := x
  cases c with
  | delegateBySig delegatee nonce expiry signature =>
    cases v with
    | v1 => cases h
    | v2 =>
      obtain ⟨signer, hsigner, hne, hrest⟩ := delegateBySig_ok_iff.1 h
      exact delegateBySig_ok_iff.2 ⟨signer, hrecover _ signature signer hne hsigner, hne, hrest⟩
  | delegateByTypeBySig delegatee delegationType nonce expiry signature =>
    cases v with
    | v1 => cases h
    | v2 =>
      obtain ⟨signer, hsigner, hne, hrest⟩ := delegateByTypeBySig_ok_iff.1 h
      exact delegateByTypeBySig_ok_iff.2 ⟨signer, hrecover _ signature signer hne hsigner, hne, hrest⟩
  | permit owner spender value deadline signature =>
    cases v with
    | v1 => cases h
    | v2 =>
      obtain ⟨howner, htime, hspender, hfits, hsigner, hs⟩ := permit_ok_iff.1 h
      exact permit_ok_iff.2 ⟨howner, htime, hspender, hfits, hrecover _ signature owner howner hsigner, hs⟩
  | _ => exact h

end

/-- **Revision 4 refuses signatures and changes nothing else.** Of the token's
calls, it makes none go through that did not go through under an
implementation before it, and what every call does there it does under
revision 4 with its signature in the low form; so from any storage any run of
calls leads to the same storage under both. -/
theorem revision4_same_states (hprecompile : ECDSA.Precompile N.crypto.ecrecover) {imm : Immutables} {c : Contract}
    (hc : c ≠ .StakedTokenV2Rev4) {name : List UInt8} :
    let D := N.deployment ⟨imm, c⟩ name
    let D₄ := N.deployment ⟨imm, .StakedTokenV2Rev4⟩ name
    (∀ x s s', exec D₄ x s = .ok s' → exec D x s = .ok s') ∧
    (∀ x s s', exec D₄ (x.resign ECDSA.low) s = .ok s' ↔ exec D x s = .ok s') ∧
    ∀ s l, run D₄ s (l.map (Tx.resign ECDSA.low)) = run D s l := by
  intro D D₄
  have hplain : ∀ message signature, D.ext.recover message signature =
      .ok (N.crypto.ecrecover (digest N.crypto.keccak256 (N.domain name) message) signature) := by
    cases c <;> first | exact fun _ _ => rfl | exact absurd rfl hc
  have hstrict : ∀ message signature a, a ≠ 0 → D₄.ext.recover message signature = .ok a →
      D.ext.recover message signature = .ok a := fun message signature a _ h => by
    rw [hplain, (ECDSA.recover_ok_iff.1 h).2.2.2]
  have hlow : ∀ message signature a, a ≠ 0 →
      (D₄.ext.recover message (ECDSA.low signature) = .ok a ↔ D.ext.recover message signature = .ok a) := by
    intro message signature a ha
    rw [hplain, Except.ok.injEq]
    exact (ECDSA.recover_low_iff hprecompile).trans (and_iff_right ha)
  have hcalls : ∀ x s s', exec D₄ (x.resign ECDSA.low) s = .ok s' ↔ exec D x s = .ok s' := by
    intro x s s'
    constructor
    · intro h
      have h' : exec D (x.resign id) s = .ok s' :=
        exec_recovering (D := D) D₄.ext.recover _ (fun message signature a ha => (hlow message signature a ha).1) h
      rwa [Tx.resign_id] at h'
    · intro h
      rw [← Tx.resign_id x] at h
      exact exec_recovering (D := D) D.ext.recover _ (fun message signature a ha => (hlow message signature a ha).2) h
  refine ⟨fun x s s' h => ?_, hcalls, fun s l => ?_⟩
  · rw [← Tx.resign_id x] at h ⊢
    exact exec_recovering (D := D) D₄.ext.recover _ hstrict h
  · exact (Runs.run_map (Tx.resign ECDSA.low) s l).symm.trans (Runs.run_congr hcalls s l)

/-- A signature with a high `s`, under revisions 3 and 4. -/
theorem revision4_same_states_high :
    let D := Network.sample.deployment ⟨Deployment.sample.toImmutables, .StakedTokenV2Rev3⟩ (ascii "Staked LAY")
    let D₄ := Network.sample.deployment ⟨Deployment.sample.toImmutables, .StakedTokenV2Rev4⟩ (ascii "Staked LAY")
    let l : List Tx := [⟨.v2, ⟨.ofNat 11, 1, 200, sampleOther_ne⟩,
      .delegateBySig (.ofNat 11) 0 300 ⟨27, 10, ECDSA.order - 5⟩⟩]
    (run D₄ (.fresh 0 ()) l).nonces (.ofNat 10) = 0 ∧ (run D (.fresh 0 ()) l).nonces (.ofNat 10) = 1 ∧
      run D₄ (.fresh 0 ()) (l.map (Tx.resign ECDSA.low)) = run D (.fresh 0 ()) l := by
  intro D D₄ l
  refine ⟨by decide +kernel, by decide +kernel, ?_⟩
  exact (revision4_same_states ECDSA.precompile_named (by decide)).2.2 (.fresh 0 ()) l

/-! ## Digests -/

/-- A message accepted, and the contract it was signed for. -/
structure Authorization extends AcceptedMessage where
  domain : Domain

/-- What was signed. -/
def Authorization.digest (N : Network W) (e : Authorization) : Bytes32 :=
  StarlayStake.digest N.crypto.keccak256 e.domain e.message

/-- All that is hashed for it. -/
def Authorization.hashed (N : Network W) (e : Authorization) : List (List UInt8) :=
  StarlayStake.hashed N.crypto.keccak256 e.domain e.message

/-- The messages that a function accepted, one at most. -/
def Ran.authorizations (N : Network W) (r : Ran) (t t' : TokenStorage W) : List Authorization :=
  match r.function with
  | .initializeToken _ => []
  | .call c =>
    (noteMessage (N.deployment r.implementation t.name) ⟨r.implementation.contract.version, r.msg, c⟩ t.toState
      t'.toState []).map fun a => { a with domain := N.domain t.name }

/-- The messages that the token's proxy accepted in a run, in order. -/
def Network.accepted (N : Network W) (p : TokenProxy W) (l : List ProxyTx) : List Authorization :=
  Runs.trace N.apply (Ran.authorizations N) p.storage (N.ran p l)

/-- The messages accepted since the proxy was deployed. -/
def Network.authorizations (N : Network W) (w : W) (l : List ProxyTx) : List Authorization :=
  N.accepted (Proxy.deployed (.fresh w)) l

/-- What a function does to the nonces. -/
inductive NonceStep (N : Network W) (r : Ran) (t t' : TokenStorage W) : Prop
  | keep (hr : r.authorizations N t t' = []) (h : t'.nonces = t.nonces)
  | use (e : Authorization) (signature : Signature) (hr : r.authorizations N t t' = [e])
      (hdomain : e.domain = N.domain t.name) (hsigner : N.crypto.ecrecover (e.digest N) signature = e.signer)
      (hne : e.signer ≠ 0) (hnonce : e.message.nonce = t.nonces e.signer) (htime : r.msg.timestamp ≤ e.message.deadline)
      (h : t'.nonces = Function.update t.nonces e.signer ((t.nonces e.signer + 1) % 2 ^ 256))

section

variable {c : Contract} {r : Ran} {t t' : TokenStorage W} {w : W} {l : List ProxyTx}

/-- Whoever is recovered, by whatever implementation, `ecrecover` answers. -/
theorem ecrecover_of_recover {crypto : Crypto} {d : Domain} {message : TypedData} {signature : Signature} {a : Address}
    (h : c.recover crypto d message signature = .ok a) :
    crypto.ecrecover (digest crypto.keccak256 d message) signature = a := by
  cases c with
  | StakedTokenV2Rev4 => exact (ECDSA.recover_ok_iff.1 h).2.2.2
  | _ => exact Except.ok.inj h

theorem nonceStep_of_apply (h : N.apply r t = .ok t') : NonceStep N r t t' := by
  rcases state_of_apply h with ⟨args, governance, hf, hstate⟩ | ⟨c, hf, hs⟩
  · refine .keep (by simp only [Ran.authorizations, hf]) ?_
    rw [hstate]
  · cases signedStep_of_exec hs with
    | unsigned hx hnonces =>
      refine .keep ?_ hnonces
      simp only [Ran.authorizations, hf, noteMessage_unsigned hx, List.map_nil]
    | signed message signature signer hx hrecover hne hnonce htime hnonces =>
      refine .use ⟨⟨signer, message⟩, N.domain t.name⟩ signature ?_ rfl (ecrecover_of_recover hrecover) hne hnonce htime
        hnonces
      simp only [Ran.authorizations, hf, noteMessage_signed hx hrecover, List.nil_append, List.map_cons, List.map_nil]

/-- What the accepted messages of a run have behind them. -/
structure Authorized (N : Network W) (log : List Authorization) (t : TokenStorage W) : Prop where
  inOrder : log.length < 2 ^ 256 → InOrder t.nonces ((log.map Authorization.toAcceptedMessage).map AcceptedMessage.use)
  signed : ∀ e ∈ log, (∃ name, e.domain = N.domain name) ∧ e.signer ≠ 0 ∧
    ∃ signature, N.crypto.ecrecover (e.digest N) signature = e.signer

theorem Authorized.step {log : List Authorization} (h : Authorized N log t) (hr : N.apply r t = .ok t') :
    Authorized N (log ++ r.authorizations N t t') t' := by
  cases nonceStep_of_apply hr with
  | keep hnone hnonces =>
    rw [hnone, List.append_nil]
    exact ⟨fun hcount => hnonces ▸ h.inOrder hcount, h.signed⟩
  | use e signature hone hdomain hsigner hne hnonce _ hnonces =>
    rw [hone]
    refine ⟨fun hcount => ?_, fun e' he' => ?_⟩
    · have hbefore := h.inOrder ((List.prefix_append log [e]).length_le.trans_lt hcount)
      have hcount' : (log.map Authorization.toAcceptedMessage ++ [e.toAcceptedMessage]).length < 2 ^ 256 := by
        simpa using hcount
      rw [hnonces, nonce_fits hbefore hcount', List.map_append, List.map_append, List.map_singleton,
        List.map_singleton, AcceptedMessage.use, hnonce]
      exact hbefore.use e.signer
    · rcases List.mem_append.1 he' with he' | he'
      · exact h.signed e' he'
      · obtain rfl := List.mem_singleton.1 he'
        exact ⟨⟨t.name, hdomain⟩, hne, signature, hsigner⟩

theorem Authorized.of_history {h : List Ran} (hok : Runs.transact N.apply (.fresh w) h = .ok t) :
    Authorized N (Runs.trace N.apply (Ran.authorizations N) (.fresh w) h) t := by
  induction h using List.reverseRecOn generalizing t with
  | nil =>
    obtain rfl := Except.ok.inj hok
    exact ⟨fun _ => .nil, fun _ he => absurd he (by simp)⟩
  | append_singleton h r ih =>
    obtain ⟨t₁, h₁, hr⟩ := Runs.transact_concat_ok_iff.1 hok
    have hrun : Runs.run N.apply (.fresh w) h = t₁ := Runs.run_of_transact h₁
    rw [Runs.trace_concat_ok (hrun.symm ▸ hr), hrun]
    exact (ih h₁).step hr

theorem authorized_run : Authorized N (N.authorizations w l) (N.run w l).storage := .of_history history_ok

/-- Of messages with the same words the nonces are the same words. -/
theorem wordOf_nonce {message message' : TypedData} (h : message.words = message'.words) :
    wordOf message.nonce = wordOf message'.nonce := by
  cases message <;> cases message' <;>
    simp only [TypedData.words, List.cons.injEq, List.nil_eq, List.cons_ne_nil, and_false, and_true] at h
  · exact h.2.2.2.1
  · exact h.2.2.1
  · exact h.2.1

/-- Two messages of one digest use up the same number, or collide. -/
theorem use_of_digest {e e' : Authorization} {keccak256 : List UInt8 → Bytes32} (he : e.message.nonce < 2 ^ 256)
    (he' : e'.message.nonce < 2 ^ 256) (hsigner : e.signer = e'.signer)
    (h : digest keccak256 e.domain e.message = digest keccak256 e'.domain e'.message) :
    e.use = e'.use ∨ Collide keccak256 (hashed keccak256 e.domain e.message) (hashed keccak256 e'.domain e'.message) := by
  refine (words_of_digest h).imp_left fun hwords => ?_
  have hnonce := (wordOf_inj he he').1 (wordOf_nonce hwords.2)
  rw [AcceptedMessage.use, AcceptedMessage.use, hsigner, hnonce]

end

/-- **A signature is good for one message, once, at one proxy.** In a run of
transactions to the proxy, of calls, initializers and upgrades, in which fewer
than `2 ^ 256` messages are accepted: each carries a signature on its digest
that recovers its signer, who is not zero; the messages of one signer carry 0,
1, 2 and so on, in order, whatever the implementations that took them; no two
of them have one digest; and none has the digest of a message that a proxy at
another address or on another chain ever accepts. Two digests are one only
where byte strings that were hashed for them collide. -/
theorem digest_used_once {w : W} {l : List ProxyTx} (hcount : (N.authorizations w l).length < 2 ^ 256) :
    let log := N.authorizations w l
    (∀ e ∈ log, e.signer ≠ 0 ∧ ∃ signature, N.crypto.ecrecover (e.digest N) signature = e.signer) ∧
    (∀ a, ((log.filter fun e => e.signer = a).map fun e => e.message.nonce) =
      List.range ((N.run w l).storage.nonces a)) ∧
    (log.Pairwise fun e e' => e.signer = e'.signer → e.digest N = e'.digest N →
      Collide N.crypto.keccak256 (e.hashed N) (e'.hashed N)) ∧
    ∀ (W' : Type) (N' : Network W') (w' : W') (l' : List ProxyTx), N'.crypto = N.crypto →
      (N'.chainId ≠ N.chainId ∨ N'.self ≠ N.self) → ∀ e ∈ log, ∀ e' ∈ N'.authorizations w' l',
        e.digest N = e'.digest N' → Collide N.crypto.keccak256 (e.hashed N) (e'.hashed N') := by
  intro log
  have h : Authorized N log (N.run w l).storage := authorized_run
  have hinOrder := h.inOrder hcount
  refine ⟨fun e he => (h.signed e he).2, fun a => ?_, ?_, fun W' N' w' l' hcrypto hne e he e' he' hdigest => ?_⟩
  · have hused := hinOrder a
    rw [Counters.usedBy, List.map_map, List.filter_map, List.map_map] at hused
    exact hused
  · have hbound : ∀ e ∈ log, e.message.nonce < 2 ^ 256 := fun e he => by
      have hlt := hinOrder.mem_iff.1 (List.mem_map_of_mem (List.mem_map_of_mem he))
      have hle := hinOrder.counter_le e.signer
      rw [List.length_map, List.length_map] at hle
      exact hlt.trans (hle.trans_lt hcount)
    have hnodup : log.Pairwise fun e e' => e.use ≠ e'.use := by
      have hpairwise := hinOrder.nodup
      rwa [List.map_map, List.Nodup, List.pairwise_map] at hpairwise
    refine hnodup.imp_of_mem fun he he' hne hsigner hdigest => ?_
    exact (use_of_digest (hbound _ he) (hbound _ he') hsigner hdigest).resolve_left hne
  · obtain ⟨⟨name, hdomain⟩, -⟩ := h.signed e he
    obtain ⟨⟨name', hdomain'⟩, -⟩ := authorized_run.signed e' he'
    rw [Authorization.digest, Authorization.digest, hcrypto] at hdigest
    rw [Authorization.hashed, Authorization.hashed, hcrypto]
    refine (words_of_digest hdigest).resolve_left fun hsame => ?_
    rw [hdomain, hdomain', Network.domain, Network.domain, Domain.mk.injEq] at hsame
    exact hne.elim (fun hne => hne hsame.1.2.1.symm) fun hne => hne hsame.1.2.2.symm

/-- One permission, taken by a proxy on one chain and by another on the next. -/
theorem digest_used_once_chains :
    let admin : Msg := ⟨.ofNat 7, 1, 200, by decide⟩
    let holder : Msg := ⟨.ofNat 10, 2, 201, sampleHolder_ne⟩
    let l : List ProxyTx := [
      ⟨admin, .initializeAdmin (.ofNat 22) (.ofNat 7) (.function (.initializeToken .bare))⟩,
      ⟨holder, (Call.permit (.ofNat 10) (.ofNat 11) 5 300 ⟨27, 10, 1⟩).data⟩,
      ⟨holder, (Call.permit (.ofNat 10) (.ofNat 11) 5 300 ⟨27, 10, 1⟩).data⟩]
    let N : Network Unit := .sample
    let N' : Network Unit := { N with chainId := 336 }
    (N.authorizations () l).length = 2 ∧ (N'.authorizations () l).length = 2 ∧
      ∀ e ∈ N.authorizations () l, ∀ e' ∈ N'.authorizations () l, e.digest N = e'.digest N' →
        Collide checksum (e.hashed N) (e'.hashed N') := by
  intro admin holder l N N'
  have hlength : (N.authorizations () l).length = 2 := by decide +kernel
  have hcount : (N.authorizations () l).length < 2 ^ 256 := hlength.trans_lt (by decide)
  refine ⟨hlength, by decide +kernel, ?_⟩
  exact (digest_used_once hcount).2.2.2 Unit N' () l rfl (.inl (by decide))

end StarlayStake
