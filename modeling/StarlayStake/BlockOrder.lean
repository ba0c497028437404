/-
The order of two calls in a block. Two calls that act on different accounts
lead to the same storage whichever comes first, where both orders succeed,
and plain tokens end up with the same holders (`order_irrelevant`).

Neither call changes what the other depends on: its accounts, and the index
a settlement finds, which the first of them brings up to the moment with
the supply that was staked until then. What both add to, the supply, the
power of a delegatee they share and the tokens, they add to by amounts that
do not depend on the order.

An index is brought up to a timestamp once only if the timestamp fits the
128 bits it is stored in. Beyond them the second call counts the same time
again, with another supply (`order_counts`).
-/
import StarlayStake.AccountChanges
import StarlayStake.Backing
import StarlayStake.Rewards

namespace StarlayStake

open Ledger (credit debit)
open StakedToken

variable {W : Type} {D : Deployment W}

/-! ## Reachable storages -/

section

variable {x : Tx} {s s' : State W} {g : Address} {w : W} {l l₁ l₂ : List Tx}

/-- Version 1 sets no delegatees. -/
theorem undelegated_of_exec (hv : x.version = .v1) (hs : ∀ t, (s.power t).delegates = fun _ => 0)
    (h : exec D x s = .ok s') (t : DelegationType) : (s'.power t).delegates = fun _ => 0 := by
  cases powerStep_of_exec h with
  | keep _ _ _ hp => rw [hp]; exact hs t
  | move src dst amount _ _ _ _ _ hp =>
    have hpt := hp t
    rw [hv] at hpt
    cases t with
    | PROPOSITION_POWER => rw [← Except.ok.inj hpt]; exact hs _
    | VOTING_POWER =>
      simp only [movePower] at hpt
      split at hpt
      · rw [← Except.ok.inj hpt]; exact hs _
      · rw [(moveBalances_ok_iff.1 hpt).2.2, movedPower_delegates]; exact hs _
  | delegate _ _ _ _ hv2 => rw [hv] at hv2; cases hv2

theorem standsAlone_of_exec (hv : x.version = .v2) (hs : ∀ t, StandsAlone (s.power t)) (h : exec D x s = .ok s')
    (t : DelegationType) : StandsAlone (s'.power t) := by
  cases powerStep_of_exec h with
  | keep _ _ _ hp => rw [hp]; exact hs t
  | move src dst amount _ _ _ _ _ hp =>
    have hpt := hp t
    rw [hv] at hpt
    exact (hs t).moveDelegates hpt
  | delegate u y types _ _ hu hy _ _ hp ho =>
    by_cases ht : t ∈ types
    · exact (hs t).delegatePower hu hy (hp t ht)
    · rw [ho t ht]; exact hs t

/-- After any run of version 1 and then of version 2, whatever is staked. -/
theorem standsAlone_run (h₁ : ∀ x ∈ l₁, x.version = .v1) (h₂ : ∀ x ∈ l₂, x.version = .v2) (t : DelegationType) :
    StandsAlone ((run D (.fresh g w) (l₁ ++ l₂)).power t) := by
  have hbefore : ∀ t, ((run D (.fresh g w) l₁).power t).delegates = fun _ => 0 :=
    Runs.run_invariant (I := fun s : State W => ∀ t, (s.power t).delegates = fun _ => 0) (P := fun _ => True)
      (fun _ => rfl) (fun _ _ _ hv _ _ hs h => undelegated_of_exec hv hs h) h₁ fun _ _ => trivial
  have hself : ∀ t, StandsAlone ((run D (.fresh g w) l₁).power t) := by
    intro t
    refine ⟨by rw [hbefore], fun a _ d => ?_⟩
    rw [show ((run D (.fresh g w) l₁).power t).delegatee d = d by simp [DelegationData.delegatee, getDelegatee, hbefore]]
  have hafter : ∀ t, StandsAlone ((run D (run D (.fresh g w) l₁) l₂).power t) :=
    Runs.run_invariant (I := fun s : State W => ∀ t, StandsAlone (s.power t)) (P := fun _ => True)
      hself (fun _ _ _ hv _ _ hs h => standsAlone_of_exec hv hs h) h₂ fun _ _ => trivial
  rw [run_append]
  exact hafter t

end

/-! ## The storage -/

theorem settledFor_comm (a : AssetData) (T i : Nat) (us vs : List Address) :
    (a.settledFor T i us).settledFor T i vs = (a.settledFor T i vs).settledFor T i us := by
  simp only [AssetData.settledFor, AssetData.settled]
  congr 1
  funext u
  by_cases hu : u ∈ us <;> by_cases hv : u ∈ vs <;> simp [hu, hv]

/-- Storages that agree on every account and on what accounts share are the
same, apart from the outside. -/
theorem State.eq_of_accounts {s s' : State W} (haccount : ∀ a, s.account D a = s'.account D a)
    (hassets : s.assets = s'.assets) (hsupply : s.totalSupply = s'.totalSupply)
    (hhistory : ∀ t a, (s.power t).history a = (s'.power t).history a) (hallowances : s.allowances = s'.allowances)
    (hgovernance : s.governance = s'.governance) (hnonces : s.nonces = s'.nonces) :
    { s with world := s'.world } = s' := by
  have hfields := fun a => State.account_fields (haccount a)
  have hpower : s.power = s'.power := by
    funext t
    have hsnapshots : (s.power t).snapshots = (s'.power t).snapshots :=
      funext fun a => congrArg Checkpoints.History.entries (hhistory t a)
    have hcounts : (s.power t).snapshotsCounts = (s'.power t).snapshotsCounts :=
      funext fun a => congrArg Checkpoints.History.count (hhistory t a)
    have hdelegates : (s.power t).delegates = (s'.power t).delegates := funext fun a => (hfields a).2.2.2.2 t
    cases hp : s.power t
    cases hp' : s'.power t
    simp_all
  have hbalances : s.balances = s'.balances := funext fun a => (hfields a).1
  have hrewards : s.stakerRewardsToClaim = s'.stakerRewardsToClaim := funext fun a => (hfields a).2.1
  have hcooldowns : s.stakersCooldowns = s'.stakersCooldowns := funext fun a => (hfields a).2.2.1
  cases s
  cases s'
  simp_all

section

variable {m m' : Msg} {c d : Change} {us vs : List Address} {i : Nat} {x y : Tx} {s s₁ s₂ s₁₂ s₂₁ : State W}

/-- Two changes made in either order come to the same, where they leave the
accounts the same. -/
theorem Change.Makes.commute (hnumber : m'.number = m.number) (htime : m'.timestamp = m.timestamp)
    (hc : c.Makes D m us i s s₁) (hd : d.Makes D m' vs i s₁ s₁₂) (hd' : d.Makes D m' vs i s s₂)
    (hc' : c.Makes D m us i s₂ s₂₁) (haccount : ∀ a, s₁₂.account D a = s₂₁.account D a) :
    { s₁₂ with world := s₂₁.world } = s₂₁ := by
  refine State.eq_of_accounts haccount ?_ ?_ (fun t a => ?_) ?_ ?_ ?_
  · rw [hd.assets, hc.assets, hc'.assets, hd'.assets, htime]
    by_cases hsc : c.settles = true <;> by_cases hsd : d.settles = true <;> simp [hsc, hsd, settledFor_comm]
  · have h := hc.supply
    have h' := hd.supply
    have h'' := hd'.supply
    have h''' := hc'.supply
    omega
  · have hpower := hd.power t a
    have hpower' := hd'.power t a
    rw [hnumber] at hpower hpower'
    have hnone : ((s.power t).history a).last = none → (s.power t).recorded a = none := fun h => by
      rw [DelegationData.recorded_eq, h]; rfl
    exact (hc.power t a).commute hpower hpower' (hc'.power t a) (fun hn h => hc.balances t a hn (hnone h))
      fun hn h => hd'.balances t a hn (hnone h)
  · rw [hd.others.1, hc.others.1, hc'.others.1, hd'.others.1]
  · rw [hd.others.2.1, hc.others.2.1, hc'.others.2.1, hd'.others.2.1]
  · rw [hd.others.2.2, hc.others.2.2, hc'.others.2.2, hd'.others.2.2]

/-- A call changes the same after another that acts on other accounts as
before it, and leaves its own accounts the same. -/
theorem Change.Makes.after (hc : c.Makes D m us i s s₁) (htime : m.timestamp = y.msg.timestamp)
    (hT : y.msg.timestamp < 2 ^ 128) (hyv : y.version = .v2) (hys : y.actsOn = some vs) (hdisjoint : us.Disjoint vs)
    (hy : exec D y s = .ok s₂) (hy' : exec D y s₁ = .ok s₁₂) :
    s₁.indexNow D y.msg.timestamp = s.indexNow D y.msg.timestamp ∧
      y.change D (s.indexNow D y.msg.timestamp) s₁ = y.change D (s.indexNow D y.msg.timestamp) s ∧
      ∀ a ∈ vs, s₁₂.account D a = s₂.account D a := by
  have hindex : s₁.indexAt D y.msg.timestamp = s.indexAt D y.msg.timestamp := htime ▸ hc.indexAt
  have hagree : ∀ a ∈ vs, s₁.account D a = s.account D a := fun a ha => hc.account a fun ha' => hdisjoint ha' ha
  exact ⟨by simp only [State.indexNow, hindex], change_congr hys hagree _,
    account_of_exec hyv hys hT hindex hagree hy' hy⟩

end

/-! ## The tokens -/

/-- From `w` to `w'` tokens went as `p` says, those pulled out of what
`spender` was allowed, and nothing else happened to any token. -/
def Paid (ledger : W → Address → Erc20) (spender : Address) (p : Option Payment) (w w' : W) : Prop :=
  match p with
  | none => ledger w' = ledger w
  | some p =>
    let t := ledger w p.token
    p.value ≤ t.balances p.src ∧ (p.pulled = true → p.value ≤ t.allowances p.src spender) ∧
      ledger w' = Function.update (ledger w) p.token
        { balances := credit (debit t.balances p.src p.value) p.dst p.value
          allowances := if p.pulled = true then Function.update t.allowances p.src
            (Function.update (t.allowances p.src) spender (t.allowances p.src spender - p.value)) else t.allowances }

/-- The staked and the reward token are plain: they move exact amounts, out
of the caller's balance or of what it is allowed, or answer `false`; and the
governance hook moves no tokens. -/
structure PlainTokens (D : Deployment W) (ledger : W → Address → Erc20) : Prop where
  transfer : ∀ {dst value w r w'}, D.ext.transfer D.STAKED_TOKEN D.self dst value w = .ok (r, w') → r ≠ some false →
    Paid ledger D.self (some ⟨D.STAKED_TOKEN, D.self, dst, value, false⟩) w w'
  transferFrom : ∀ {token src dst value w r w'}, token = D.STAKED_TOKEN ∨ token = D.REWARD_TOKEN →
    D.ext.transferFrom token D.self src dst value w = .ok (r, w') → r ≠ some false →
      Paid ledger D.self (some ⟨token, src, dst, value, true⟩) w w'
  onTransfer : ∀ {governance src dst amount w w'}, D.ext.onTransfer governance src dst amount w = .ok w' →
    ledger w' = ledger w

namespace Payment

/-- What the payment adds to a holder's balance. -/
def given : Option Payment → (token holder : Address) → Nat
  | none, _, _ => 0
  | some p, token, holder => if p.token = token ∧ p.dst = holder then p.value else 0

/-- What it takes from a holder's balance. -/
def taken : Option Payment → (token holder : Address) → Nat
  | none, _, _ => 0
  | some p, token, holder => if p.token = token ∧ p.src = holder then p.value else 0

/-- What it takes from an allowance. -/
def spent (spender : Address) : Option Payment → (token owner other : Address) → Nat
  | none, _, _, _ => 0
  | some p, token, owner, other =>
    if p.pulled = true ∧ p.token = token ∧ p.src = owner ∧ spender = other then p.value else 0

end Payment

section

variable {ledger : W → Address → Erc20} {spender : Address} {p q : Option Payment} {w w' w₁ w₂ w₁₂ w₂₁ : W}

theorem Paid.balances (h : Paid ledger spender p w w') (token holder : Address) :
    (ledger w' token).balances holder + Payment.taken p token holder =
      (ledger w token).balances holder + Payment.given p token holder := by
  cases p with
  | none => rw [show ledger w' = ledger w from h]; rfl
  | some p =>
    obtain ⟨hle, -, heq⟩ := h
    rw [heq]
    simp only [Payment.taken, Payment.given]
    by_cases ht : p.token = token
    · subst ht
      rw [Function.update_self]
      simp only [Ledger.credit_apply, true_and]
      by_cases hs : p.src = holder
      · subst hs
        by_cases hd : p.dst = p.src
        · simp [hd]; omega
        · simp [hd, Ne.symm hd]; omega
      · rw [Ledger.debit_of_ne (Ne.symm hs)]
        simp [hs, eq_comm]
    · rw [Function.update_of_ne (Ne.symm ht)]
      simp [ht]

theorem Paid.allowances (h : Paid ledger spender p w w') (token holder other : Address) :
    (ledger w' token).allowances holder other + Payment.spent spender p token holder other =
      (ledger w token).allowances holder other := by
  cases p with
  | none => rw [show ledger w' = ledger w from h]; rfl
  | some p =>
    obtain ⟨-, hle, heq⟩ := h
    rw [heq]
    simp only [Payment.spent]
    by_cases hp : p.pulled = true
    · by_cases ht : p.token = token
      · subst ht
        rw [Function.update_self]
        have := hle hp
        by_cases hs : p.src = holder
        · subst hs
          by_cases ho : spender = other
          · subst ho; simp [hp]; omega
          · simp [hp, ho, Ne.symm ho]
        · simp [hp, hs, Ne.symm hs]
      · simp [ht, Ne.symm ht]
    · by_cases ht : p.token = token
      · subst ht; simp [hp]
      · simp [hp, ht, Ne.symm ht]

/-- Two payments made in either order come to the same. -/
theorem Paid.commute (hp : Paid ledger spender p w w₁) (hq : Paid ledger spender q w₁ w₁₂)
    (hq' : Paid ledger spender q w w₂) (hp' : Paid ledger spender p w₂ w₂₁) : ledger w₁₂ = ledger w₂₁ := by
  funext token
  have hbalances : (ledger w₁₂ token).balances = (ledger w₂₁ token).balances := by
    funext holder
    have h₁ := hp.balances token holder
    have h₁₂ := hq.balances token holder
    have h₂ := hq'.balances token holder
    have h₂₁ := hp'.balances token holder
    omega
  have hallowances : (ledger w₁₂ token).allowances = (ledger w₂₁ token).allowances := by
    funext owner other
    have h₁ := hp.allowances token owner other
    have h₁₂ := hq.allowances token owner other
    have h₂ := hq'.allowances token owner other
    have h₂₁ := hp'.allowances token owner other
    omega
  cases h : ledger w₁₂ token
  cases h' : ledger w₂₁ token
  simp_all

theorem Paid.of_eq (h : Paid ledger spender p w₁ w') (hw : ledger w₁ = ledger w) : Paid ledger spender p w w' := by
  cases p with
  | none => exact Eq.trans h hw
  | some p => simpa only [Paid, hw] using h

section

variable {x : Tx} {us : List Address} {s s' : State W} {src dst : Address} {value : Nat} {v : Version}
  (htokens : PlainTokens D ledger)
include htokens

theorem ledger_of_notified {governance : Address} (h : notified D v src dst value governance w = .ok w') :
    ledger w' = ledger w := by
  unfold notified at h
  split at h
  · rw [Except.ok.inj h]
  · exact htokens.onTransfer h

theorem paid_of_safeTransfer (h : SafeERC20.safeTransfer D.ext D.STAKED_TOKEN D.self dst value w = .ok w') :
    Paid ledger D.self (some ⟨D.STAKED_TOKEN, D.self, dst, value, false⟩) w w' := by
  obtain ⟨-, r, h, hr⟩ := SafeERC20.callOptionalReturn_ok_iff.1 h
  exact htokens.transfer h hr

theorem paid_of_safeTransferFrom {token : Address} (ht : token = D.STAKED_TOKEN ∨ token = D.REWARD_TOKEN)
    (h : SafeERC20.safeTransferFrom D.ext token D.self src dst value w = .ok w') :
    Paid ledger D.self (some ⟨token, src, dst, value, true⟩) w w' := by
  obtain ⟨-, r, h, hr⟩ := SafeERC20.callOptionalReturn_ok_iff.1 h
  exact htokens.transferFrom ht h hr

/-- What a call pays is part of the change it makes. -/
theorem paid_of_exec (hv : x.version = .v2) (hx : x.actsOn = some us) (hT : x.msg.timestamp < 2 ^ 128)
    (h : exec D x s = .ok s') :
    Paid ledger D.self (x.change D (s.indexNow D x.msg.timestamp) s).payment s.world s'.world := by
  obtain ⟨v, m, c⟩ := x
  subst hv
  cases c with
  | stake onBehalfOf amount =>
    obtain ⟨-, -, -, -, r, assets, c, p, w, w', -, -, -, -, hw, hw', rfl⟩ := stake_ok_iff.1 h
    exact (paid_of_safeTransferFrom htokens (.inl rfl) hw').of_eq (ledger_of_notified htokens hw)
  | redeem dst amount =>
    obtain ⟨-, -, -, -, -, r, assets, p, w, w', -, -, -, hw, hw', rfl⟩ := redeem_ok_iff.1 h
    exact (paid_of_safeTransfer htokens hw').of_eq (ledger_of_notified htokens hw)
  | cooldown =>
    obtain ⟨-, rfl⟩ := cooldown_ok_iff.1 h
    exact rfl
  | claimRewards dst amount =>
    obtain ⟨n, h⟩ := exec_claimRewards_ok_iff.1 h
    obtain ⟨r, assets, w, hsettled, -, rfl, -, hw, rfl⟩ := claimRewards_ok_iff.1 h
    obtain ⟨i, hi, hr, -⟩ := (settlement_ok_iff hT).1 hsettled
    have hpaid := paid_of_safeTransferFrom htokens (.inr rfl) hw
    rw [DistributionManager.accrued_eq hr] at hpaid
    rw [indexNow_eq hi]
    exact hpaid
  | transfer recipient amount =>
    have hworld : ∃ a b k, notified D .v2 a b k s.governance s.world = .ok s'.world := by
      by_cases heq : m.sender = recipient
      · subst heq
        obtain ⟨-, -, -, r, assets, p, w, -, -, -, hw, rfl⟩ := transfer_self_ok_iff.1 h
        exact ⟨_, _, _, hw⟩
      · obtain ⟨-, -, -, -, r, assets, r', assets', c, p, w, -, -, -, -, -, -, hw, rfl⟩ := (transfer_ok_iff heq).1 h
        exact ⟨_, _, _, hw⟩
    obtain ⟨_, _, _, hw⟩ := hworld
    exact ledger_of_notified htokens hw
  | delegate y =>
    obtain ⟨-, p, -, rfl⟩ := delegate_ok_iff.1 h
    exact rfl
  | delegateByType y t =>
    obtain ⟨-, data, -, rfl⟩ := delegateByType_ok_iff.1 h
    exact rfl
  | _ => cases hx

end

end

/-! ## The two orders -/

/-- **The order of calls in a block is irrelevant for different accounts.**
In every storage version 2 reaches, also after an upgrade: two calls of one
block that act on different accounts, each a stake, a redemption, a claim,
a cooldown, a delegation or a transfer, lead to the same storage in either
order, where both orders succeed, and move plain tokens the same. The
timestamp fits its 128 bits. -/
theorem order_irrelevant {g : Address} {w : W} {l₁ l₂ : List Tx} {x y : Tx} {us vs : List Address}
    {s₁₂ s₂₁ : State W} (h₁ : ∀ x ∈ l₁, x.version = .v1) (h₂ : ∀ x ∈ l₂, x.version = .v2)
    (hx : x.version = .v2) (hy : y.version = .v2) (hus : x.actsOn = some us) (hvs : y.actsOn = some vs)
    (hdisjoint : us.Disjoint vs) (hnumber : y.msg.number = x.msg.number)
    (htime : y.msg.timestamp = x.msg.timestamp) (hT : x.msg.timestamp < 2 ^ 128)
    (hxy : Runs.transact (exec D) (run D (.fresh g w) (l₁ ++ l₂)) [x, y] = .ok s₁₂)
    (hyx : Runs.transact (exec D) (run D (.fresh g w) (l₁ ++ l₂)) [y, x] = .ok s₂₁) :
    { s₁₂ with world := s₂₁.world } = s₂₁ ∧
      ∀ ledger : W → Address → Erc20, PlainTokens D ledger → ledger s₁₂.world = ledger s₂₁.world := by
  have halone : ∀ t, StandsAlone ((run D (.fresh g w) (l₁ ++ l₂)).power t) := standsAlone_run h₁ h₂
  generalize run D (.fresh g w) (l₁ ++ l₂) = s at hxy hyx halone
  obtain ⟨s₁, hx₁, h⟩ := Runs.transact_cons_ok_iff.1 hxy
  obtain ⟨s₃, hy₁, h⟩ := Runs.transact_cons_ok_iff.1 h
  obtain rfl : s₁₂ = s₃ := (Except.ok.inj h).symm
  obtain ⟨s₂, hy₂, h⟩ := Runs.transact_cons_ok_iff.1 hyx
  obtain ⟨s₃, hx₂, h⟩ := Runs.transact_cons_ok_iff.1 h
  obtain rfl : s₂₁ = s₃ := (Except.ok.inj h).symm
  have hT' : y.msg.timestamp < 2 ^ 128 := htime ▸ hT
  -- both calls make the same change in either place
  have hc := makes_of_exec hx hus hT halone hx₁
  have hd' := makes_of_exec hy hvs hT' halone hy₂
  have hd := makes_of_exec hy hvs hT' (standsAlone_of_exec hx halone hx₁) hy₁
  have hc' := makes_of_exec hx hus hT (standsAlone_of_exec hy halone hy₂) hx₂
  obtain ⟨hindex, hchange, hleft⟩ := hc.after htime.symm hT' hy hvs hdisjoint hy₂ hy₁
  obtain ⟨hindex', hchange', hleft'⟩ := hd'.after htime hT hx hus hdisjoint.symm hx₁ hx₂
  rw [hindex, hchange, htime] at hd
  rw [hindex', hchange'] at hc'
  rw [htime] at hd'
  have haccount : ∀ a, s₁₂.account D a = s₂₁.account D a := by
    intro a
    by_cases ha : a ∈ us
    · rw [hd.account a (hdisjoint ha), hleft' a ha]
    · by_cases hb : a ∈ vs
      · rw [hleft a hb, hc'.account a ha]
      · rw [hd.account a hb, hc.account a ha, hc'.account a ha, hd'.account a hb]
  refine ⟨hc.commute hnumber htime hd hd' hc' haccount, fun ledger htokens => ?_⟩
  have hp := paid_of_exec htokens hx hus hT hx₁
  have hq := paid_of_exec htokens hy hvs hT' hy₁
  have hq' := paid_of_exec htokens hy hvs hT' hy₂
  have hp' := paid_of_exec htokens hx hus hT hx₂
  rw [hindex, hchange] at hq
  rw [hindex', hchange'] at hp'
  exact hp.commute hq hq' hp'

/-- The plain tokens of `Externals.erc20`, their ledgers the world. -/
theorem PlainTokens.erc20 : PlainTokens Deployment.erc20 fun w => w := by
  refine ⟨fun h _ => ?_, fun _ h _ => ?_, fun h => (Except.ok.inj h).symm⟩
  · obtain ⟨hle, -, rfl⟩ := Externals.erc20_transfer_ok_iff.1 h
    exact ⟨hle, fun hpulled => absurd hpulled Bool.false_ne_true, rfl⟩
  · obtain ⟨ha, hle, -, rfl⟩ := Externals.erc20_transferFrom_ok_iff.1 h
    exact ⟨hle, fun _ => ha, rfl⟩

theorem sample_disjoint : [Address.ofNat 10].Disjoint [Address.ofNat 11] := by
  rw [List.singleton_disjoint]
  decide

/-- A stake for an account without a snapshot, and in the same block a
delegation to it. -/
theorem order_irrelevant_delegated :
    let s := run .erc20 (.fresh 0 System.erc20.staked.world)
      ([] ++ [⟨.v2, ⟨.ofNat 10, 2, 200, sampleHolder_ne⟩, .stake (.ofNat 10) 7⟩])
    let x : Tx := ⟨.v2, ⟨.ofNat 11, 3, 300, sampleOther_ne⟩, .stake (.ofNat 11) 3⟩
    let y : Tx := ⟨.v2, ⟨.ofNat 10, 3, 300, sampleHolder_ne⟩, .delegate (.ofNat 11)⟩
    ∃ s₁ s₂, Runs.transact (exec .erc20) s [x, y] = .ok s₁ ∧ Runs.transact (exec .erc20) s [y, x] = .ok s₂ ∧
      { s₁ with world := s₂.world } = s₂ ∧ s₁.world = s₂.world := by
  intro s x y
  have hok : (Runs.transact (exec .erc20) s [x, y]).isOk = true := by decide +kernel
  have hok' : (Runs.transact (exec .erc20) s [y, x]).isOk = true := by decide +kernel
  obtain ⟨s₁, hxy⟩ := Outcome.exists_ok hok
  obtain ⟨s₂, hyx⟩ := Outcome.exists_ok hok'
  have h := order_irrelevant (D := .erc20) (g := 0) (w := System.erc20.staked.world) (x := x) (y := y) (by simp) (by simp)
    rfl rfl rfl rfl sample_disjoint.symm rfl rfl (by decide) hxy hyx
  exact ⟨s₁, s₂, hxy, hyx, h.1, h.2 _ .erc20⟩

/-- Beyond the 128 bits of a stored timestamp the order of two stakes shows
in the index. -/
theorem order_counts :
    let s := run .sample (.fresh 0 ()) sampleRun
    let x : Tx := ⟨.v2, ⟨.ofNat 10, 3, 2 ^ 128 + 300, sampleHolder_ne⟩, .stake (.ofNat 10) 7⟩
    let y : Tx := ⟨.v2, ⟨.ofNat 11, 3, 2 ^ 128 + 300, sampleOther_ne⟩, .stake (.ofNat 11) 3⟩
    x.actsOn = some [.ofNat 10] ∧ y.actsOn = some [.ofNat 11] ∧ [Address.ofNat 10].Disjoint [.ofNat 11] ∧
      ∃ s₁ s₂, Runs.transact (exec .sample) s [x, y] = .ok s₁ ∧ Runs.transact (exec .sample) s [y, x] = .ok s₂ ∧
        (s₁.assets (.ofNat 1)).index ≠ (s₂.assets (.ofNat 1)).index := by
  intro s x y
  have hok : (Runs.transact (exec .sample) s [x, y]).isOk = true := by decide +kernel
  have hok' : (Runs.transact (exec .sample) s [y, x]).isOk = true := by decide +kernel
  have hindex : ((run .sample s [x, y]).assets (.ofNat 1)).index ≠ ((run .sample s [y, x]).assets (.ofNat 1)).index := by
    decide +kernel
  obtain ⟨s₁, hxy⟩ := Outcome.exists_ok hok
  obtain ⟨s₂, hyx⟩ := Outcome.exists_ok hok'
  refine ⟨rfl, rfl, sample_disjoint, s₁, s₂, hxy, hyx, ?_⟩
  have hs₁ : run .sample s [x, y] = s₁ := Runs.run_of_transact hxy
  have hs₂ : run .sample s [y, x] = s₂ := Runs.run_of_transact hyx
  rwa [hs₁, hs₂] at hindex

end StarlayStake
