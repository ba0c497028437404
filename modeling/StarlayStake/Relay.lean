/-
Signed messages against the calls that their signers could have made
themselves. Whoever brings a message, an accepted one does what the direct
call of its signer does, which goes through as well, and uses a nonce
besides. So a run with messages comes down to one without (`messages_direct`).
-/
import StarlayStake.SignedMessages

namespace StarlayStake

open StakedToken

variable {W : Type}

/-! ## The direct call -/

/-- The same block, with another caller; nobody calls from the zero address. -/
def Msg.ofSender (m : Msg) (sender : Address) : Msg :=
  if h : sender ≠ 0 then { m with sender, sender_ne := h } else m

/-- The call that the signer of a message makes itself to the same end. -/
def Call.direct : Call → Call
  | .delegateBySig delegatee _ _ _ => .delegate delegatee
  | .delegateByTypeBySig delegatee delegationType _ _ _ => .delegateByType delegatee delegationType
  | .permit _ spender value _ _ => .approve spender value
  | c => c

/-- A call as its signer makes it, where a message is brought, and as it is
where none is. `s` is what the call finds. -/
def Tx.direct (D : Deployment W) (x : Tx) (s : State W) : Tx :=
  match x.signed s with
  | none => x
  | some (message, signature) =>
    match D.ext.recover message signature with
    | .ok signer => { x with msg := x.msg.ofSender signer, call := x.call.direct }
    | .error _ => x

/-- The successful calls of a run, made directly. -/
def directly (D : Deployment W) (s : State W) (l : List Tx) : List Tx :=
  Runs.trace (exec D) (fun x s _ => [x.direct D s]) s l

section

variable {D : Deployment W} {m : Msg} {v : Version} {x : Tx} {s s' : State W} {signer : Address} {nonces : Address → Nat}
  {message : TypedData} {signature : Signature}

theorem Msg.ofSender_of_ne (h : signer ≠ 0) : m.ofSender signer = { m with sender := signer, sender_ne := h } := dif_pos h

theorem Tx.direct_unsigned (h : x.signed s = none) : x.direct D s = x := by rw [Tx.direct, h]

theorem Tx.direct_signed (h : x.signed s = some (message, signature)) (hrecover : D.ext.recover message signature = .ok signer)
    (hne : signer ≠ 0) :
    x.direct D s = { x with msg := { x.msg with sender := signer, sender_ne := hne }, call := x.call.direct } := by
  rw [Tx.direct, h]
  simp only [hrecover, Msg.ofSender_of_ne hne]

theorem transfer_nonces {src dst : Address} {amount : Nat} (h : transfer D m v src dst amount s = .ok s') :
    transfer D m v src dst amount { s with nonces } = .ok { s' with nonces } := by
  by_cases heq : src = dst
  · subst heq
    obtain ⟨hne, ha, hfits, r, assets, p, w, hsettle, hr, hp, hw, rfl⟩ := transfer_self_ok_iff.1 h
    exact transfer_self_ok_iff.2 ⟨hne, ha, hfits, r, assets, p, w, hsettle, hr, hp, hw, rfl⟩
  · obtain ⟨hs, hd, ha, hfits, r, assets, r', assets', c, p, w, hsettle, hr, hsettle', hr', hc, hp, hw, rfl⟩ :=
      (transfer_ok_iff heq).1 h
    exact (transfer_ok_iff heq).2
      ⟨hs, hd, ha, hfits, r, assets, r', assets', c, p, w, hsettle, hr, hsettle', hr', hc, hp, hw, rfl⟩

/-- A call without a message does not depend on nonces. -/
theorem exec_nonces (hx : x.signed s = none) (h : exec D x s = .ok s') :
    exec D x { s with nonces } = .ok { s' with nonces } := by
  obtain ⟨v, m, c⟩ := x
  cases c with
  | stake onBehalfOf amount =>
    obtain ⟨ha, hu, hfits, hb, r, assets, c, p, w, w', hsettle, hr, hc, hp, hw, hw', rfl⟩ := stake_ok_iff.1 h
    exact stake_ok_iff.2 ⟨ha, hu, hfits, hb, r, assets, c, p, w, w', hsettle, hr, hc, hp, hw, hw', rfl⟩
  | redeem dst amount =>
    obtain ⟨ha, hc, ht, hlate, hle, r, assets, p, w, w', hsettle, hr, hp, hw, hw', rfl⟩ := redeem_ok_iff.1 h
    exact redeem_ok_iff.2 ⟨ha, hc, ht, hlate, hle, r, assets, p, w, w', hsettle, hr, hp, hw, hw', rfl⟩
  | cooldown =>
    obtain ⟨hne, rfl⟩ := cooldown_ok_iff.1 h
    exact cooldown_ok_iff.2 ⟨hne, rfl⟩
  | claimRewards dst amount =>
    obtain ⟨n, h⟩ := exec_claimRewards_ok_iff.1 h
    obtain ⟨r, assets, w, hsettle, hr, hn, hle, hw, rfl⟩ := claimRewards_ok_iff.1 h
    exact exec_claimRewards_ok_iff.2 ⟨n, claimRewards_ok_iff.2 ⟨r, assets, w, hsettle, hr, hn, hle, hw, rfl⟩⟩
  | transfer recipient amount => exact transfer_nonces h
  | transferFrom sender recipient amount =>
    obtain ⟨s₁, h₁, hamount, hne, rfl⟩ := transferFrom_ok_iff.1 h
    exact transferFrom_ok_iff.2 ⟨_, transfer_nonces h₁, hamount, hne, rfl⟩
  | approve spender amount =>
    obtain ⟨ho, hspender, rfl⟩ := approve_ok_iff.1 h
    exact approve_ok_iff.2 ⟨ho, hspender, rfl⟩
  | increaseAllowance spender addedValue =>
    obtain ⟨amount, hamount, h⟩ := Outcome.bind_ok_iff.1 h
    obtain ⟨ho, hspender, rfl⟩ := approve_ok_iff.1 h
    exact Outcome.bind_ok_iff.2 ⟨amount, hamount, approve_ok_iff.2 ⟨ho, hspender, rfl⟩⟩
  | decreaseAllowance spender subtractedValue =>
    obtain ⟨amount, hamount, h⟩ := Outcome.bind_ok_iff.1 h
    obtain ⟨ho, hspender, rfl⟩ := approve_ok_iff.1 h
    exact Outcome.bind_ok_iff.2 ⟨amount, hamount, approve_ok_iff.2 ⟨ho, hspender, rfl⟩⟩
  | configureAssets inputs =>
    obtain ⟨hm, assets, hassets, rfl⟩ := configureAssets_ok_iff.1 h
    exact configureAssets_ok_iff.2 ⟨hm, assets, hassets, rfl⟩
  | delegate y =>
    cases v with
    | v1 => cases h
    | v2 =>
      obtain ⟨hy, p, hp, rfl⟩ := delegate_ok_iff.1 h
      exact delegate_ok_iff.2 ⟨hy, p, hp, rfl⟩
  | delegateByType y t =>
    cases v with
    | v1 => cases h
    | v2 =>
      obtain ⟨hy, data, hdata, rfl⟩ := delegateByType_ok_iff.1 h
      exact delegateByType_ok_iff.2 ⟨hy, data, hdata, rfl⟩
  | delegateBySig y nonce expiry signature => cases hx
  | delegateByTypeBySig y t nonce expiry signature => cases hx
  | permit owner spender value deadline signature => cases hx

/-- An accepted message does what its signer's own call does, and a call
without a message is its own. -/
theorem exec_direct (h : exec D x s = .ok s') :
    exec D (x.direct D s) { s with nonces } = .ok { s' with nonces } := by
  obtain ⟨v, m, c⟩ := x
  cases c with
  | delegateBySig y nonce expiry signature =>
    cases v with
    | v1 => cases h
    | v2 =>
      obtain ⟨signer, hrecover, hne, hnonce, htime, s₁, h₁, rfl⟩ := delegateBySig_ok_iff.1 h
      rw [Tx.direct_signed rfl hrecover hne]
      obtain ⟨hy, p, hp, rfl⟩ := delegate_ok_iff.1 h₁
      exact delegate_ok_iff.2 ⟨hy, p, hp, rfl⟩
  | delegateByTypeBySig y t nonce expiry signature =>
    cases v with
    | v1 => cases h
    | v2 =>
      obtain ⟨signer, hrecover, hne, hnonce, htime, s₁, h₁, rfl⟩ := delegateByTypeBySig_ok_iff.1 h
      rw [Tx.direct_signed rfl hrecover hne]
      obtain ⟨hy, data, hdata, rfl⟩ := delegateByType_ok_iff.1 h₁
      exact delegateByType_ok_iff.2 ⟨hy, data, hdata, rfl⟩
  | permit owner spender value deadline signature =>
    cases v with
    | v1 => cases h
    | v2 =>
      obtain ⟨ho, htime, hspender, hfits, hrecover, rfl⟩ := permit_ok_iff.1 h
      rw [Tx.direct_signed rfl hrecover ho]
      exact approve_ok_iff.2 ⟨ho, hspender, rfl⟩
  | _ =>
    rw [Tx.direct_unsigned rfl]
    exact exec_nonces rfl h

/-- What a message comes down to carries none. -/
theorem signed_direct (h : exec D x s = .ok s') (t : State W) : (x.direct D s).signed t = none := by
  cases signedStep_of_exec h with
  | unsigned hx =>
    rw [Tx.direct_unsigned hx]
    obtain ⟨v, m, c⟩ := x
    cases c <;> first | rfl | cases hx
  | signed message signature signer hx hrecover hne =>
    rw [Tx.direct_signed hx hrecover hne]
    obtain ⟨v, m, c⟩ := x
    cases c <;> rfl

end

/-- **Messages do what their signers' own calls do.** Take any run, whoever
brings messages in it. The calls that went through, each message replaced by
the direct call of its signer, carry no message, all go through one after the
other, from the same storage with any nonces, and end in the storage the run
ends in, but for the nonces. -/
theorem messages_direct (D : Deployment W) (s : State W) (l : List Tx) (nonces : Address → Nat) :
    (∀ x ∈ directly D s l, ∀ t : State W, x.signed t = none) ∧
      Runs.transact (exec D) { s with nonces } (directly D s l) = .ok { run D s l with nonces } := by
  refine ⟨?_, Runs.transact_trace (fun s : State W => { s with nonces }) (fun x s s' h => ?_) s l⟩
  · induction l using List.reverseRecOn with
    | nil => intro x hx; cases hx
    | append_singleton l y ih =>
      cases hy : exec D y (run D s l) with
      | error e => rwa [directly, Runs.trace_concat_error hy]
      | ok s' =>
        rw [directly, Runs.trace_concat_ok hy]
        intro x hx
        rcases List.mem_append.1 hx with hx | hx
        · exact ih x hx
        · obtain rfl := List.mem_singleton.1 hx
          exact signed_direct hy
  · exact Runs.transact_cons_ok_iff.2 ⟨_, exec_direct h, rfl⟩

/-- A relayer brings a delegation, which is refused the second time. -/
example :
    let relayer : Msg := ⟨.ofNat 11, 3, 202, sampleOther_ne⟩
    let message : Tx := ⟨.v2, relayer, .delegateBySig (.ofNat 12) 0 300 ⟨27, 10, 0⟩⟩
    (directly .sample (.fresh 0 ()) [message, message]).map (fun x => x.msg.sender) = [.ofNat 10] := by
  decide +kernel

end StarlayStake
