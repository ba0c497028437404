/-
What an account has at the token's proxy without its doing.

An account that neither sends nor signs anything keeps its delegatees and
its nonce, has no cooldown started and no rewards taken; its allowances fall
by what their spenders pull and its balance by what they pull together, and
otherwise it only receives (`Undisturbed`). Each call keeps this up, of any
version (`undisturbed_of_exec`), so a run does, through every upgrade and from
any storage (`holdings_undisturbed`).
-/
import StarlayStake.Authorizations

namespace StarlayStake

open Ledger (credit debit)
open StakedToken

variable {W : Type}

/-! ## A call -/

/-- The amounts of an account's that a call pulls by an allowance, each with
its spender. -/
def Tx.pulls (u : Address) (x : Tx) : List (Address × Nat) :=
  match x.call with
  | .transferFrom sender _ amount => if sender = u then [(x.msg.sender, amount)] else []
  | _ => []

/-- What a call gives an account. -/
def Tx.receives (u : Address) (x : Tx) : Nat :=
  match x.call with
  | .stake onBehalfOf amount => if onBehalfOf = u then amount else 0
  | .transfer recipient amount => if recipient = u then amount else 0
  | .transferFrom _ recipient amount => if recipient = u then amount else 0
  | _ => 0

/-- What a spender pulled, of all that was. -/
def pulledBy (spender : Address) (pulls : List (Address × Nat)) : Nat :=
  ((pulls.filter fun pull => pull.1 = spender).map Prod.snd).sum

/-- What was pulled together. -/
def pulled (pulls : List (Address × Nat)) : Nat := (pulls.map Prod.snd).sum

/-- How a storage changes for an account that does nothing. -/
structure Undisturbed (u : Address) (pulls : List (Address × Nat)) (received : Nat) (s s' : State W) : Prop where
  allowances : ∀ spender, s'.allowances u spender + pulledBy spender pulls = s.allowances u spender
  balance : s'.balances u + pulled pulls = s.balances u + received
  nonce : s'.nonces u = s.nonces u
  delegatees : ∀ t, (s'.power t).delegates u = (s.power t).delegates u
  cooldown : s.stakersCooldowns u = 0 → s'.stakersCooldowns u = 0
  rewards : s.stakerRewardsToClaim u ≤ s'.stakerRewardsToClaim u

section

variable {D : Deployment W} {m : Msg} {v : Version} {x : Tx} {s s' s₁ : State W} {u src dst : Address} {amount : Nat}
  {pulls pulls' : List (Address × Nat)} {received received' : Nat}

theorem pulledBy_append {spender : Address} :
    pulledBy spender (pulls ++ pulls') = pulledBy spender pulls + pulledBy spender pulls' := by
  simp [pulledBy]

theorem pulled_append : pulled (pulls ++ pulls') = pulled pulls + pulled pulls' := by
  simp [pulled]

/-- All that was pulled, by spender. -/
theorem pulled_eq_sum (pulls : List (Address × Nat)) : pulled pulls = ∑ spender, pulledBy spender pulls := by
  induction pulls with
  | nil => exact Finset.sum_const_zero.symm
  | cons pull pulls ih =>
    have hcons : ∀ spender, pulledBy spender (pull :: pulls) =
        (if pull.1 = spender then pull.2 else 0) + pulledBy spender pulls := by
      intro spender
      simp only [pulledBy, List.filter_cons, decide_eq_true_eq]
      split <;> simp
    simp only [hcons, Finset.sum_add_distrib, Finset.sum_ite_eq, Finset.mem_univ, if_true, ← ih]
    simp [pulled]

theorem Undisturbed.refl (u : Address) (s : State W) : Undisturbed u [] 0 s s :=
  ⟨fun _ => rfl, rfl, rfl, fun _ => rfl, id, le_rfl⟩

theorem Undisturbed.trans (h : Undisturbed u pulls received s s₁) (h' : Undisturbed u pulls' received' s₁ s') :
    Undisturbed u (pulls ++ pulls') (received + received') s s' where
  allowances spender := by
    have hfirst := h.allowances spender
    have hthen := h'.allowances spender
    rw [pulledBy_append]
    omega
  balance := by
    have hfirst := h.balance
    have hthen := h'.balance
    rw [pulled_append]
    omega
  nonce := h'.nonce.trans h.nonce
  delegatees t := (h'.delegatees t).trans (h.delegatees t)
  cooldown hzero := h'.cooldown (h.cooldown hzero)
  rewards := h.rewards.trans h'.rewards

theorem movePower_delegates {number : Nat} {balances : Address → Nat} {t : DelegationType} {data data' : DelegationData}
    (h : movePower v number balances src dst amount t data = .ok data') : data'.delegates = data.delegates := by
  cases v with
  | v2 => exact moveDelegates_delegates h
  | v1 =>
    cases t with
    | PROPOSITION_POWER => exact congrArg DelegationData.delegates (Except.ok.inj h).symm
    | VOTING_POWER =>
      simp only [movePower] at h
      split at h
      · exact congrArg DelegationData.delegates (Except.ok.inj h).symm
      · rw [(moveBalances_ok_iff.1 h).2.2, movedPower_delegates]

theorem le_credit (b : Address → Nat) (a u : Address) (k : Nat) : b u ≤ credit b a k u := by
  rw [Ledger.credit_apply]
  omega

/-- Nobody starts another's cooldown by giving it tokens. -/
theorem getNextCooldownTimestamp_zero {fromCooldown toBalance c : Nat} (hzero : s.stakersCooldowns dst = 0)
    (h : getNextCooldownTimestamp D m fromCooldown amount dst toBalance s = .ok c) : c = 0 := by
  simp only [getNextCooldownTimestamp, hzero, if_true] at h
  exact (Except.ok.inj h).symm

/-- What a transfer of tokens does to whoever has not sent it. -/
structure Transferred (src dst : Address) (amount : Nat) (s s' : State W) : Prop where
  allowances : s'.allowances = s.allowances
  nonces : s'.nonces = s.nonces
  covered : amount ≤ s.balances src
  balances : s'.balances = credit (debit s.balances src amount) dst amount
  delegates : ∀ t, (s'.power t).delegates = (s.power t).delegates
  cooldown : ∀ a, s.stakersCooldowns a = 0 → s'.stakersCooldowns a = 0
  rewards : ∀ a, s.stakerRewardsToClaim a ≤ s'.stakerRewardsToClaim a

theorem transferred_of_transfer (h : transfer D m v src dst amount s = .ok s') : Transferred src dst amount s s' := by
  obtain ⟨hallowances, hnonces⟩ := transfer_aside h
  by_cases heq : src = dst
  · subst heq
    obtain ⟨-, hcovered, -, r, assets, p, w, -, -, hp, -, rfl⟩ := transfer_self_ok_iff.1 h
    exact ⟨hallowances, hnonces, hcovered, rfl, fun t => movePower_delegates (hp t), fun _ hzero => hzero,
      fun a => le_credit s.stakerRewardsToClaim src a r⟩
  · obtain ⟨-, -, hcovered, -, r, assets, r', assets', c, p, w, -, -, -, -, hc, hp, -, rfl⟩ := (transfer_ok_iff heq).1 h
    refine ⟨hallowances, hnonces, hcovered, rfl, fun t => movePower_delegates (hp t), fun a hzero => ?_, fun a =>
      (le_credit s.stakerRewardsToClaim src a r).trans (le_credit _ dst a r')⟩
    have hdst : Function.update s.stakersCooldowns dst c a = 0 := by
      by_cases ha : a = dst
      · subst ha
        rw [Function.update_self]
        exact getNextCooldownTimestamp_zero hzero hc
      · rw [Function.update_of_ne ha, hzero]
    show transferredCooldowns src dst amount c s a = 0
    unfold transferredCooldowns
    split
    · by_cases ha : a = src
      · rw [ha, Function.update_self]
      · rw [Function.update_of_ne ha, hdst]
    · exact hdst

/-- Where nothing is pulled. -/
theorem Undisturbed.given (hallowances : s'.allowances u = s.allowances u)
    (hbalance : s'.balances u = s.balances u + received) (hnonce : s'.nonces u = s.nonces u)
    (hdelegatees : ∀ t, (s'.power t).delegates u = (s.power t).delegates u)
    (hcooldown : s.stakersCooldowns u = 0 → s'.stakersCooldowns u = 0)
    (hrewards : s.stakerRewardsToClaim u ≤ s'.stakerRewardsToClaim u) : Undisturbed u [] received s s' :=
  ⟨fun _ => by rw [hallowances]; rfl, hbalance, hnonce, hdelegatees, hcooldown, hrewards⟩

/-- Somebody else's transfer gives, and takes nothing. -/
theorem Transferred.undisturbed (h : Transferred src dst amount s s') (hu : src ≠ u) :
    Undisturbed u [] (if dst = u then amount else 0) s s' := by
  refine .given (by rw [h.allowances]) ?_ (by rw [h.nonces]) (fun t => by rw [h.delegates]) (h.cooldown u) (h.rewards u)
  rw [h.balances, Ledger.credit_apply, Ledger.debit_of_ne (Ne.symm hu)]
  simp only [eq_comm]

/-- A spender's transfer takes what it pulls. -/
theorem Transferred.pulled {spender : Address} (h : Transferred u dst amount s s')
    (hamount : amount ≤ s'.allowances u spender) :
    Undisturbed u [(spender, amount)] (if dst = u then amount else 0) s { s' with
      allowances := Function.update s'.allowances u
        (Function.update (s'.allowances u) spender (s'.allowances u spender - amount)) } where
  allowances a := by
    rw [h.allowances] at hamount
    simp only [h.allowances, Function.update_self, pulledBy, List.filter_cons, List.filter_nil]
    by_cases ha : spender = a
    · subst ha
      simp [hamount]
    · simp [ha, Function.update_of_ne (Ne.symm ha)]
  balance := by
    have hcovered := h.covered
    simp only [h.balances, Ledger.credit_apply, Ledger.debit_self, StarlayStake.pulled, List.map_cons, List.map_nil,
      List.sum_cons, List.sum_nil, eq_comm (a := u)]
    split <;> omega
  nonce := by rw [← h.nonces]
  delegatees t := h.delegates t ▸ rfl
  cooldown := h.cooldown u
  rewards := h.rewards u

/-- An approval by another. -/
theorem Undisturbed.approve {owner : Address} {f : Address → Nat} (hu : owner ≠ u) :
    Undisturbed u [] 0 s { s with allowances := Function.update s.allowances owner f } :=
  .given (Function.update_of_ne (Ne.symm hu) ..) rfl rfl (fun _ => rfl) id le_rfl

/-- A delegation by another. -/
theorem delegatePower_other {number : Nat} {balances : Address → Nat} {owner delegatee : Address}
    {data data' : DelegationData} (hu : owner ≠ u)
    (h : delegatePower number balances owner delegatee data = .ok data') : data'.delegates u = data.delegates u := by
  rw [delegatePower_delegates h, Function.update_of_ne (Ne.symm hu)]

theorem Undisturbed.delegate {owner delegatee : Address} (hu : owner ≠ u)
    (h : StakedToken.delegate m owner delegatee s = .ok s') : Undisturbed u [] 0 s s' := by
  obtain ⟨-, p, hp, rfl⟩ := delegate_ok_iff.1 h
  exact .given rfl rfl rfl (fun t => delegatePower_other hu (hp t)) id le_rfl

theorem Undisturbed.delegateByType {owner delegatee : Address} {t : DelegationType} (hu : owner ≠ u)
    (h : StakedToken.delegateByType m owner delegatee t s = .ok s') : Undisturbed u [] 0 s s' := by
  obtain ⟨-, data, hdata, rfl⟩ := delegateByType_ok_iff.1 h
  refine .given rfl rfl rfl (fun t' => ?_) id le_rfl
  by_cases ht : t' = t
  · subst ht
    simp only [Function.update_self]
    exact delegatePower_other hu hdata
  · simp only [Function.update_of_ne ht]

/-- The same where the other signed it, and a nonce of theirs was used. -/
theorem Undisturbed.useNonce {owner : Address} {n : Nat} (hu : owner ≠ u) (h : Undisturbed u [] 0 s s₁) :
    Undisturbed u [] 0 s { s₁ with nonces := Function.update s.nonces owner n } :=
  ⟨h.allowances, h.balance, Function.update_of_ne (Ne.symm hu) .., h.delegatees, h.cooldown, h.rewards⟩

/-- **A call leaves who neither sends nor signs it alone**, but for what they
are given and what their spenders pull. -/
theorem undisturbed_of_exec (hsent : x.msg.sender ≠ u)
    (hsigned : ∀ message signature, x.signed s = some (message, signature) →
      D.ext.recover message signature ≠ .ok u)
    (h : exec D x s = .ok s') : Undisturbed u (x.pulls u) (x.receives u) s s' := by
  obtain ⟨v, m, c⟩ := x
  have hsent : m.sender ≠ u := hsent
  cases c with
  | stake onBehalfOf amount =>
    obtain ⟨-, -, -, -, r, assets, c, p, w, w', -, -, hc, hp, -, -, rfl⟩ := stake_ok_iff.1 h
    refine .given rfl ?_ rfl (fun t => by rw [movePower_delegates (hp t)]) (fun hzero => ?_) (le_credit ..)
    · simp only [Ledger.credit_apply, Tx.receives, eq_comm]
    · by_cases hu : u = onBehalfOf
      · subst hu
        simp only [Function.update_self]
        exact getNextCooldownTimestamp_zero hzero hc
      · simp only [Function.update_of_ne hu, hzero]
  | redeem dst amount =>
    obtain ⟨-, -, -, -, -, r, assets, p, w, w', -, -, hp, -, -, rfl⟩ := redeem_ok_iff.1 h
    refine .given rfl (Ledger.debit_of_ne (Ne.symm hsent)) rfl (fun t => by rw [movePower_delegates (hp t)])
      (fun hzero => ?_) (le_credit ..)
    split
    · exact (Function.update_of_ne (Ne.symm hsent) ..).trans hzero
    · exact hzero
  | cooldown =>
    obtain ⟨-, rfl⟩ := cooldown_ok_iff.1 h
    exact .given rfl rfl rfl (fun _ => rfl) (fun hzero => (Function.update_of_ne (Ne.symm hsent) ..).trans hzero) le_rfl
  | claimRewards dst amount =>
    obtain ⟨n, h⟩ := exec_claimRewards_ok_iff.1 h
    obtain ⟨r, assets, w, -, -, -, -, -, rfl⟩ := claimRewards_ok_iff.1 h
    exact .given rfl rfl rfl (fun _ => rfl) id (Function.update_of_ne (Ne.symm hsent) ..).ge
  | transfer recipient amount => exact (transferred_of_transfer h).undisturbed hsent
  | transferFrom sender recipient amount =>
    obtain ⟨s₁, h₁, hamount, -, rfl⟩ := transferFrom_ok_iff.1 h
    by_cases hu : sender = u
    · subst hu
      simp only [Tx.pulls, if_true]
      exact (transferred_of_transfer h₁).pulled hamount
    · simp only [Tx.pulls, hu, if_false]
      exact ((transferred_of_transfer h₁).undisturbed hu).trans (.approve hu)
  | approve spender amount =>
    obtain ⟨-, -, rfl⟩ := approve_ok_iff.1 h
    exact .approve hsent
  | increaseAllowance spender addedValue =>
    obtain ⟨value, h⟩ := increaseAllowance_ok h
    obtain ⟨-, -, rfl⟩ := approve_ok_iff.1 h
    exact .approve hsent
  | decreaseAllowance spender subtractedValue =>
    obtain ⟨value, h⟩ := decreaseAllowance_ok h
    obtain ⟨-, -, rfl⟩ := approve_ok_iff.1 h
    exact .approve hsent
  | configureAssets inputs =>
    obtain ⟨-, assets, -, rfl⟩ := configureAssets_ok_iff.1 h
    exact .given rfl rfl rfl (fun _ => rfl) id le_rfl
  | delegate y =>
    cases v with
    | v1 => cases h
    | v2 => exact .delegate hsent h
  | delegateByType y t =>
    cases v with
    | v1 => cases h
    | v2 => exact .delegateByType hsent h
  | delegateBySig y nonce expiry signature =>
    cases v with
    | v1 => cases h
    | v2 =>
      obtain ⟨signer, hrecover, -, -, -, s₁, h₁, rfl⟩ := delegateBySig_ok_iff.1 h
      have hu : signer ≠ u := fun hu => hsigned _ _ rfl (hu ▸ hrecover)
      exact (Undisturbed.delegate hu h₁).useNonce hu
  | delegateByTypeBySig y t nonce expiry signature =>
    cases v with
    | v1 => cases h
    | v2 =>
      obtain ⟨signer, hrecover, -, -, -, s₁, h₁, rfl⟩ := delegateByTypeBySig_ok_iff.1 h
      have hu : signer ≠ u := fun hu => hsigned _ _ rfl (hu ▸ hrecover)
      exact (Undisturbed.delegateByType hu h₁).useNonce hu
  | permit owner spender value deadline signature =>
    cases v with
    | v1 => cases h
    | v2 =>
      obtain ⟨-, -, -, -, hrecover, rfl⟩ := permit_ok_iff.1 h
      have hu : owner ≠ u := fun hu => hsigned _ _ rfl (hu ▸ hrecover)
      exact (Undisturbed.approve hu).useNonce hu

end

/-! ## Runs -/

/-- What a function that ran pulled of an account's. -/
def Ran.pulls (u : Address) (r : Ran) : List (Address × Nat) :=
  match r.function with
  | .initializeToken _ => []
  | .call c => Tx.pulls u ⟨r.implementation.contract.version, r.msg, c⟩

/-- What it gave the account. -/
def Ran.receives (u : Address) (r : Ran) : Nat :=
  match r.function with
  | .initializeToken _ => 0
  | .call c => Tx.receives u ⟨r.implementation.contract.version, r.msg, c⟩

section

variable {N : Network W} {r : Ran} {t t' : TokenStorage W} {u : Address}

theorem undisturbed_of_apply (hsent : r.msg.sender ≠ u) (hsigned : ∀ e ∈ r.authorizations N t t', e.signer ≠ u)
    (h : N.apply r t = .ok t') : Undisturbed u (r.pulls u) (r.receives u) t.toState t'.toState := by
  rcases state_of_apply h with ⟨args, governance, hf, hstate⟩ | ⟨c, hf, hs⟩
  · simp only [Ran.pulls, Ran.receives, hf]
    rw [hstate]
    exact .given rfl rfl rfl (fun _ => rfl) id le_rfl
  · simp only [Ran.pulls, Ran.receives, hf]
    refine undisturbed_of_exec hsent (fun message signature hx hrecover => ?_) hs
    simp only [Ran.authorizations, hf, noteMessage_signed hx hrecover, List.nil_append, List.map_cons, List.map_nil,
      List.mem_singleton] at hsigned
    exact hsigned _ rfl rfl

theorem Undisturbed.of_history {h : List Ran} (hok : Runs.transact N.apply t h = .ok t')
    (hsent : ∀ r ∈ h, r.msg.sender ≠ u)
    (hsigned : ∀ e ∈ Runs.trace N.apply (Ran.authorizations N) t h, e.signer ≠ u) :
    Undisturbed u (h.flatMap (Ran.pulls u)) ((h.map (Ran.receives u)).sum) t.toState t'.toState := by
  induction h using List.reverseRecOn generalizing t' with
  | nil => exact Except.ok.inj hok ▸ .refl u t.toState
  | append_singleton h r ih =>
    obtain ⟨t₁, h₁, hr⟩ := Runs.transact_concat_ok_iff.1 hok
    have hrun : Runs.run N.apply t h = t₁ := Runs.run_of_transact h₁
    rw [Runs.trace_concat_ok (hrun.symm ▸ hr), hrun] at hsigned
    have hbefore := ih h₁ (fun r' hr' => hsent r' (List.mem_append_left _ hr'))
      fun e he => hsigned e (List.mem_append_left _ he)
    have hlast := undisturbed_of_apply (hsent r (by simp)) (fun e he => hsigned e (List.mem_append_right _ he)) hr
    rw [List.flatMap_append, List.map_append, List.sum_append, List.flatMap_singleton, List.map_singleton,
      List.sum_singleton]
    exact hbefore.trans hlast

end

/-- **Nobody loses what they have to others.** From any storage of the proxy,
and through any run of calls, initializers and upgrades of which none that
succeeds is sent by an account or carries a message it signed: each allowance
the account gave falls by exactly what its spender pulled, and its balance,
but for what it was given, by what they pulled together; its nonce and its
delegatees are what they were; no cooldown of its was started; and its rewards
to claim have not fallen. -/
theorem holdings_undisturbed {N : Network W} {p : TokenProxy W} {l : List ProxyTx} {u : Address}
    (hsent : ∀ r ∈ N.ran p l, r.msg.sender ≠ u) (hsigned : ∀ e ∈ N.accepted p l, e.signer ≠ u) :
    let s := p.storage.toState
    let s' := (Proxy.run N.chain p l).storage.toState
    let pulls := (N.ran p l).flatMap (Ran.pulls u)
    (∀ spender, s'.allowances u spender + pulledBy spender pulls = s.allowances u spender) ∧
      s'.balances u + pulled pulls = s.balances u + ((N.ran p l).map (Ran.receives u)).sum ∧
      s'.nonces u = s.nonces u ∧ (∀ t, (s'.power t).delegates u = (s.power t).delegates u) ∧
      (s.stakersCooldowns u = 0 → s'.stakersCooldowns u = 0) ∧ s.stakerRewardsToClaim u ≤ s'.stakerRewardsToClaim u := by
  intro s s' pulls
  have h : Undisturbed u pulls ((N.ran p l).map (Ran.receives u)).sum s s' :=
    .of_history (ran_ok p l) hsent hsigned
  exact ⟨h.allowances, h.balance, h.nonce, h.delegatees, h.cooldown, h.rewards⟩

/-- A holder stakes 7 and lets another have 5 of it, who pulls 3 after an
upgrade, stakes 2 for the holder and cannot pull 4 more. -/
theorem holdings_undisturbed_pulled :
    let admin : Msg := ⟨.ofNat 7, 1, 200, by decide⟩
    let holder : Msg := ⟨.ofNat 10, 2, 201, sampleHolder_ne⟩
    let other : Msg := ⟨.ofNat 11, 3, 202, sampleOther_ne⟩
    let p := Network.sample.run () [
      ⟨admin, .initializeAdmin (.ofNat 20) (.ofNat 7) (.function (.initializeToken (.withGovernance 0 [] [] 18)))⟩,
      ⟨holder, (Call.stake (.ofNat 10) 7).data⟩, ⟨holder, (Call.approve (.ofNat 11) 5).data⟩]
    let l : List ProxyTx := [⟨admin, .upgradeToAndCall (.ofNat 21) (.function (.initializeToken .bare))⟩,
      ⟨other, (Call.transferFrom (.ofNat 10) (.ofNat 12) 3).data⟩, ⟨other, (Call.stake (.ofNat 10) 2).data⟩,
      ⟨other, (Call.transferFrom (.ofNat 10) (.ofNat 12) 4).data⟩]
    let pulls := (Network.sample.ran p l).flatMap (Ran.pulls (.ofNat 10))
    pulls = [(.ofNat 11, 3)] ∧
      (Proxy.run Network.sample.chain p l).storage.balances (.ofNat 10) + pulled pulls =
        p.storage.balances (.ofNat 10) + ((Network.sample.ran p l).map (Ran.receives (.ofNat 10))).sum := by
  intro admin holder other p l pulls
  have hsent : ∀ r ∈ Network.sample.ran p l, r.msg.sender ≠ .ofNat 10 := by decide +kernel
  have hsigned : ∀ e ∈ Network.sample.accepted p l, e.signer ≠ .ofNat 10 := by decide +kernel
  exact ⟨by decide +kernel, (holdings_undisturbed hsent hsigned).2.1⟩

end StarlayStake
