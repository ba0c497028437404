/-
What a call of version 2 changes, apart from the outside. Some calls act on
accounts of their own (`Tx.actsOn`): what they leave of these accounts
depends on nothing else but the index the moment would settle at
(`account_congr`), and of what all accounts share they change the asset,
the supply and the snapshots, by amounts that depend on the same
(`Tx.change`, `makes_of_exec`, `change_congr`).

Power goes to whoever the accounts have as delegatees, also to accounts the
call does not act on. What a call writes there is the last power and a
difference, modulo the width of a snapshot (`HistoryMoved`); where there is
no snapshot yet the last power is a balance, and a balance a call changes
is never left without one (`StandsAlone`).
-/
import StarlayStake.Power
import StarlayStake.RewardSteps

namespace StarlayStake

open Checkpoints (History)
open Ledger (credit debit)
open StakedToken
open DistributionManager (accrued precisionUnit)

variable {W : Type} {D : Deployment W}

/-! ## One account -/

/-- What the storage keeps about one account alone. -/
structure Account where
  balance : Nat
  rewardsToClaim : Nat
  cooldown : Nat
  userIndex : Nat
  delegates : DelegationType → Address

def State.account (D : Deployment W) (a : Address) (s : State W) : Account :=
  { balance := s.balances a
    rewardsToClaim := s.stakerRewardsToClaim a
    cooldown := s.stakersCooldowns a
    userIndex := (s.assets D.self).users a
    delegates := fun t => (s.power t).delegates a }

/-- The accounts a call acts on: `stake` on the one it stakes for, `transfer`
on both its ends, the others on the caller. Calls about allowances, the
configuration and signed messages are not asked about. -/
def Tx.actsOn (x : Tx) : Option (List Address) :=
  match x.call with
  | .stake onBehalfOf _ => some [onBehalfOf]
  | .redeem _ _ => some [x.msg.sender]
  | .cooldown => some [x.msg.sender]
  | .claimRewards _ _ => some [x.msg.sender]
  | .transfer recipient _ => some [x.msg.sender, recipient]
  | .delegate _ => some [x.msg.sender]
  | .delegateByType _ _ => some [x.msg.sender]
  | _ => none

/-! ## The history of one account -/

/-- The power the contract takes an account to have. -/
def powerOfHistory (h : History Snapshot) (balance : Nat) : Nat := (h.last.map Snapshot.value).getD balance

/-- Where power is `moved`, a snapshot of the block says so: from what it
was it rises by `given` and falls by `taken`, modulo the width it is stored
in. Elsewhere the history stays. -/
def HistoryMoved (number : Nat) (moved : Prop) (given taken balance : Nat) (h h' : History Snapshot) : Prop :=
  (¬ moved ∧ h' = h) ∨ (moved ∧ ∃ value, value < 2 ^ 128 ∧
    (value + taken) % 2 ^ 128 = (powerOfHistory h balance + given) % 2 ^ 128 ∧
      h' = h.write Snapshot.blockNumber ⟨uint128 number, value⟩)

section

variable {number given₁ taken₁ given₂ taken₂ b b₁ b₂ : Nat} {moved₁ moved₂ : Prop} {h h₁ h₂ h₁₂ h₂₁ : History Snapshot}

theorem powerOfHistory_congr (hb : h.last = none → b₁ = b) : powerOfHistory h b₁ = powerOfHistory h b := by
  unfold powerOfHistory
  cases hl : h.last with
  | none => rw [hb hl]
  | some _ => rfl

theorem powerOfHistory_write {value : Nat} :
    powerOfHistory (h.write Snapshot.blockNumber ⟨uint128 number, value⟩) b = value := by
  rw [powerOfHistory, History.last_write]
  rfl

theorem write_write {n x y : Nat} : (h.write Snapshot.blockNumber ⟨n, x⟩).write Snapshot.blockNumber ⟨n, y⟩ =
    h.write Snapshot.blockNumber ⟨n, y⟩ := History.write_write rfl

theorem HistoryMoved.kept (h : HistoryMoved number moved₁ given₁ taken₁ b h₁ h₂) (hn : ¬ moved₁) : h₂ = h₁ := by
  rcases h with ⟨-, h⟩ | ⟨hm, -⟩
  · exact h
  · exact absurd hm hn

theorem HistoryMoved.written (h : HistoryMoved number moved₁ given₁ taken₁ b h₁ h₂) (hm : moved₁) :
    ∃ value, value < 2 ^ 128 ∧ (value + taken₁) % 2 ^ 128 = (powerOfHistory h₁ b + given₁) % 2 ^ 128 ∧
      h₂ = h₁.write Snapshot.blockNumber ⟨uint128 number, value⟩ := by
  rcases h with ⟨hn, -⟩ | ⟨-, h⟩
  · exact absurd hm hn
  · exact h

/-- Two moves of one block write the same in either order, if a balance
that stands in for a snapshot changes only where the move writes one. -/
theorem HistoryMoved.commute (hfirst : HistoryMoved number moved₁ given₁ taken₁ b h h₁)
    (hthen : HistoryMoved number moved₂ given₂ taken₂ b₁ h₁ h₁₂)
    (hfirst' : HistoryMoved number moved₂ given₂ taken₂ b h h₂)
    (hthen' : HistoryMoved number moved₁ given₁ taken₁ b₂ h₂ h₂₁)
    (hkept : ¬ moved₁ → h.last = none → b₁ = b) (hkept' : ¬ moved₂ → h.last = none → b₂ = b) : h₁₂ = h₂₁ := by
  by_cases hm₁ : moved₁
  · obtain ⟨v₁, hv₁, hmod₁, rfl⟩ := hfirst.written hm₁
    obtain ⟨v', hv', hmod', rfl⟩ := hthen'.written hm₁
    by_cases hm₂ : moved₂
    · obtain ⟨v₂, hv₂, hmod₂, rfl⟩ := hfirst'.written hm₂
      obtain ⟨v, hv, hmod, rfl⟩ := hthen.written hm₂
      -- the second of them writes over the first
      rw [powerOfHistory_write] at hmod hmod'
      rw [write_write, write_write, show v = v' by omega]
    · obtain rfl := hfirst'.kept hm₂
      rw [powerOfHistory_congr (hkept' hm₂)] at hmod'
      rw [hthen.kept hm₂, show v₁ = v' by omega]
  · obtain rfl := hfirst.kept hm₁
    rw [hthen'.kept hm₁]
    by_cases hm₂ : moved₂
    · obtain ⟨v₂, hv₂, hmod₂, rfl⟩ := hfirst'.written hm₂
      obtain ⟨v, hv, hmod, rfl⟩ := hthen.written hm₂
      rw [powerOfHistory_congr (hkept hm₁)] at hmod
      rw [show v = v₂ by omega]
    · rw [hfirst'.kept hm₂, hthen.kept hm₂]

end

/-! ## Moving power -/

/-- Power that goes from one account to another. -/
structure PowerMove where
  src : Address
  dst : Address
  amount : Nat

namespace PowerMove

/-- Both ends are written to, unless they are one. -/
def touches (p : Option PowerMove) (a : Address) : Prop := ∃ q ∈ p, q.src ≠ q.dst ∧ a ≠ 0 ∧ (a = q.src ∨ a = q.dst)

def given : Option PowerMove → Address → Nat
  | none, _ => 0
  | some q, a => if q.dst = a then q.amount else 0

def taken : Option PowerMove → Address → Nat
  | none, _ => 0
  | some q, a => if q.src = a then q.amount else 0

end PowerMove

/-- From `data` to `data'` power moved as `p` says. -/
def PowerMoved (number : Nat) (balances : Address → Nat) (p : Option PowerMove) (data data' : DelegationData) : Prop :=
  ∀ a, HistoryMoved number (PowerMove.touches p a) (PowerMove.given p a) (PowerMove.taken p a) (balances a)
    (data.history a) (data'.history a)

section

variable {number amount : Nat} {balances : Address → Nat} {data data' : DelegationData} {src dst a : Address}

theorem PowerMoved.refl : PowerMoved number balances none data data :=
  fun _ => .inl ⟨fun ⟨_, hq, _⟩ => (nomatch hq), rfl⟩

theorem lastPower_eq_powerOfHistory : lastPower balances data a = powerOfHistory (data.history a) (balances a) := by
  rw [lastPower_eq, DelegationData.recorded_eq]
  rfl

theorem PowerMoved.of_moveDelegates (h : moveDelegates number balances src dst amount data = .ok data') :
    PowerMoved number balances (some ⟨src, dst, amount⟩) data data' := by
  intro a
  have hhistory := moveDelegates_history h a
  split at hhistory
  · next htouched =>
    obtain ⟨hne, ha, hend⟩ := htouched
    refine .inr ⟨⟨_, rfl, hne, ha, hend⟩, _, Nat.mod_lt _ (by decide), ?_, hhistory⟩
    rw [moveDelegates_ok_iff, if_neg hne] at h
    rw [← lastPower_eq_powerOfHistory]
    simp only [PowerMove.given, PowerMove.taken]
    by_cases hd : dst = a
    · subst hd
      rw [if_pos rfl, if_pos rfl, if_neg hne, Nat.add_zero, Nat.mod_mod]
    · have hs : src = a := (hend.resolve_right (Ne.symm hd)).symm
      subst hs
      have hle : amount ≤ lastPower balances data src := h.1 ha
      rw [if_neg hd, if_neg hd, if_pos rfl, Nat.add_zero]
      omega
  · next hnot =>
    refine .inl ⟨fun htouched => ?_, hhistory⟩
    obtain ⟨q, hq, hends⟩ := htouched
    cases hq
    exact hnot hends

/-- Tokens move between accounts, power between their delegatees: where no
power moved and no snapshot tells, the balance is what it was. -/
theorem StandsAlone.movedBalances_kept (h : StandsAlone data) (hamount : src ≠ 0 → amount ≤ balances src)
    (htouched : ¬ PowerMove.touches (some ⟨data.delegatee src, data.delegatee dst, amount⟩) a)
    (hnone : data.recorded a = none) : movedBalances balances src dst amount a = balances a := by
  have hends : data.delegatee src ≠ data.delegatee dst → a ≠ 0 → a ≠ data.delegatee src ∧ a ≠ data.delegatee dst :=
    fun hne ha => not_or.1 fun hend => htouched ⟨_, rfl, hne, ha, hend⟩
  have halone := h.alone a hnone
  by_cases heq : src = dst
  · subst heq
    by_cases hs : src = 0
    · simp [movedBalances, hs]
    · simp [movedBalances, hs, Ledger.credit_debit (hamount hs)]
  · have hother : ∀ d, d = src ∨ d = dst → d ≠ 0 → a ≠ d := by
      rintro d hd hd0 rfl
      -- the account is an end of its own, and its delegatee moved power
      have hself : data.delegatee a = a := (halone a).2 rfl
      have hne : data.delegatee src ≠ data.delegatee dst := by
        intro he
        rcases hd with rfl | rfl
        · exact heq ((halone dst).1 (he ▸ hself)).symm
        · exact heq ((halone src).1 (he.trans hself))
      rcases hd with rfl | rfl
      · exact (hends hne hd0).1 hself.symm
      · exact (hends hne hd0).2 hself.symm
    have hdebited : (if src = 0 then balances else debit balances src amount) a = balances a := by
      split
      · rfl
      · next hs => exact Ledger.debit_of_ne (hother src (.inl rfl) hs)
    simp only [movedBalances]
    split
    · exact hdebited
    · next hd => rw [Ledger.credit_of_ne (hother dst (.inr rfl) hd), hdebited]

end

/-! ## What a call changes -/

/-- Tokens that go from one holder to another, `pulled` if out of what the
contract is allowed. -/
structure Payment where
  token : Address
  src : Address
  dst : Address
  value : Nat
  pulled : Bool

/-- What a call changes of what all accounts share. -/
structure Change where
  /-- it settles its accounts -/
  settles : Bool
  minted : Nat
  burned : Nat
  moves : DelegationType → Option PowerMove
  payment : Option Payment

/-- The index of the staked token at `timestamp`. -/
def State.indexAt (D : Deployment W) (timestamp : Nat) (s : State W) : Except String Nat :=
  assetIndex D timestamp (s.assets D.self) s.totalSupply

/-- The same, 0 where it does not fit. -/
def State.indexNow (D : Deployment W) (timestamp : Nat) (s : State W) : Nat :=
  match s.indexAt D timestamp with
  | .ok i => i
  | .error _ => 0

/-- What a call changes, at the index it settles at, if it does. -/
def Tx.change (D : Deployment W) (x : Tx) (index : Nat) (s : State W) : Change :=
  let delegatee := fun t => (s.power t).delegatee
  match x.call with
  | .stake onBehalfOf amount =>
    { settles := true
      minted := amount
      burned := 0
      moves := fun t => some ⟨0, delegatee t onBehalfOf, amount⟩
      payment := some ⟨D.STAKED_TOKEN, x.msg.sender, D.self, amount, true⟩ }
  | .redeem dst amount =>
    let redeemed := min amount (s.balances x.msg.sender)
    { settles := true
      minted := 0
      burned := redeemed
      moves := fun t => some ⟨delegatee t x.msg.sender, 0, redeemed⟩
      payment := some ⟨D.STAKED_TOKEN, D.self, dst, redeemed, false⟩ }
  | .claimRewards dst amount =>
    let rewards := s.stakerRewardsToClaim x.msg.sender +
      s.balances x.msg.sender * (index - (s.assets D.self).users x.msg.sender) / precisionUnit
    { settles := true
      minted := 0
      burned := 0
      moves := fun _ => none
      payment := some ⟨D.REWARD_TOKEN, D.REWARDS_VAULT, dst, amountToClaim amount rewards, true⟩ }
  | .transfer recipient amount =>
    { settles := true
      minted := 0
      burned := 0
      moves := fun t => some ⟨delegatee t x.msg.sender, delegatee t recipient, amount⟩
      payment := none }
  | .delegate y =>
    { settles := false
      minted := 0
      burned := 0
      moves := fun t => some ⟨delegatee t x.msg.sender, y, s.balances x.msg.sender⟩
      payment := none }
  | .delegateByType y t' =>
    { settles := false
      minted := 0
      burned := 0
      moves := fun t => if t' = t then some ⟨delegatee t x.msg.sender, y, s.balances x.msg.sender⟩ else none
      payment := none }
  | _ => { settles := false, minted := 0, burned := 0, moves := fun _ => none, payment := none }

/-- From `s` to `s'` a call that acts on `users` made the change `c`. -/
structure Change.Makes (D : Deployment W) (m : Msg) (users : List Address) (index : Nat) (c : Change)
    (s s' : State W) : Prop where
  account : ∀ a, a ∉ users → s'.account D a = s.account D a
  assets : s'.assets = if c.settles = true then
    Function.update s.assets D.self ((s.assets D.self).settledFor m.timestamp index users) else s.assets
  indexAt : s'.indexAt D m.timestamp = s.indexAt D m.timestamp
  supply : s'.totalSupply + c.burned = s.totalSupply + c.minted
  power : ∀ t, PowerMoved m.number s.balances (c.moves t) (s.power t) (s'.power t)
  balances : ∀ t a, ¬ PowerMove.touches (c.moves t) a → (s.power t).recorded a = none → s'.balances a = s.balances a
  others : s'.allowances = s.allowances ∧ s'.governance = s.governance ∧ s'.nonces = s.nonces

section

variable {m : Msg} {s s' : State W} {u dst y : Address} {amount n : Nat}

theorem State.account_eq {a : Address} (hb : s'.balances a = s.balances a)
    (hr : s'.stakerRewardsToClaim a = s.stakerRewardsToClaim a) (hc : s'.stakersCooldowns a = s.stakersCooldowns a)
    (hu : (s'.assets D.self).users a = (s.assets D.self).users a)
    (hd : ∀ t, (s'.power t).delegates a = (s.power t).delegates a) : s'.account D a = s.account D a := by
  simp only [State.account, hb, hr, hc, hu, hd]

/-- A settlement of the staked token leaves the accounts it does not settle. -/
theorem settledFor_users_of_ne {T i : Nat} {users : List Address} {a : Address} {assets : Address → AssetData}
    (ha : a ∉ users) :
    (Function.update assets D.self ((assets D.self).settledFor T i users) D.self).users a = (assets D.self).users a := by
  rw [Function.update_self]
  exact if_neg ha

/-- After a settlement the index does not grow again in the same moment. -/
theorem indexAt_settled {T i : Nat} {users : List Address}
    (hassets : s'.assets = Function.update s.assets D.self ((s.assets D.self).settledFor T i users))
    (hi : s.indexAt D T = .ok i) : s'.indexAt D T = s.indexAt D T := by
  have hasset : s'.assets D.self = (s.assets D.self).settledFor T i users := by rw [hassets, Function.update_self]
  rw [hi, State.indexAt, hasset]
  exact assetIndex_settled rfl

theorem indexNow_eq {T i : Nat} (hi : s.indexAt D T = .ok i) : s.indexNow D T = i := by
  rw [State.indexNow, hi]

variable (hT : m.timestamp < 2 ^ 128) (halone : ∀ t, StandsAlone (s.power t))
include hT halone

theorem makes_of_stake (h : stake D m .v2 u amount s = .ok s') :
    ((⟨.v2, m, .stake u amount⟩ : Tx).change D (s.indexNow D m.timestamp) s).Makes D m [u]
      (s.indexNow D m.timestamp) s s' := by
  obtain ⟨-, hu, -, -, r, assets, c, p, w, w', hsettled, -, -, hp, -, -, rfl⟩ := stake_ok_iff.1 h
  obtain ⟨i, hi, -, rfl⟩ := (settlement_ok_iff hT).1 hsettled
  have hzero : ∀ t, (s.power t).delegatee 0 = 0 := fun t => getDelegatee_zero (halone t).zero
  rw [indexNow_eq hi]
  refine ⟨fun a ha => ?_, rfl, indexAt_settled rfl hi, rfl, fun t => ?_, fun t a htouched hnone => ?_,
    rfl, rfl, rfl⟩
  · have hau : a ≠ u := by simpa using ha
    exact State.account_eq (Ledger.credit_of_ne hau) (Ledger.credit_of_ne hau) (Function.update_of_ne hau ..)
      (settledFor_users_of_ne ha) fun t => congrFun (moveDelegates_delegates (hp t)) a
  · have hmoved := PowerMoved.of_moveDelegates (hp t)
    rw [show getDelegatee 0 (s.power t).delegates = 0 from hzero t] at hmoved
    exact hmoved
  · have hkept : movedBalances s.balances 0 u amount a = s.balances a :=
      (halone t).movedBalances_kept (fun h => absurd rfl h) (by rw [hzero]; exact htouched) hnone
    simpa [movedBalances, hu] using hkept

theorem makes_of_redeem (h : redeem D m .v2 dst amount s = .ok s') :
    ((⟨.v2, m, .redeem dst amount⟩ : Tx).change D (s.indexNow D m.timestamp) s).Makes D m [m.sender]
      (s.indexNow D m.timestamp) s s' := by
  obtain ⟨-, -, -, -, hle, r, assets, p, w, w', hsettled, -, hp, -, -, rfl⟩ := redeem_ok_iff.1 h
  obtain ⟨i, hi, -, rfl⟩ := (settlement_ok_iff hT).1 hsettled
  have hzero : ∀ t, (s.power t).delegatee 0 = 0 := fun t => getDelegatee_zero (halone t).zero
  rw [indexNow_eq hi]
  refine ⟨fun a ha => ?_, rfl, indexAt_settled rfl hi, Nat.sub_add_cancel hle, fun t => ?_,
    fun t a htouched hnone => ?_, rfl, rfl, rfl⟩
  · have hau : a ≠ m.sender := by simpa using ha
    refine State.account_eq (Ledger.debit_of_ne hau) (Ledger.credit_of_ne hau) ?_ (settledFor_users_of_ne ha)
      fun t => congrFun (moveDelegates_delegates (hp t)) a
    dsimp only
    split
    · exact Function.update_of_ne hau ..
    · rfl
  · have hmoved := PowerMoved.of_moveDelegates (hp t)
    rw [show getDelegatee 0 (s.power t).delegates = 0 from hzero t] at hmoved
    exact hmoved
  · have hkept : movedBalances s.balances m.sender 0 (min amount (s.balances m.sender)) a = s.balances a :=
      (halone t).movedBalances_kept (fun _ => Nat.min_le_right _ _) (by rw [hzero]; exact htouched) hnone
    simpa [movedBalances, m.sender_ne] using hkept

theorem makes_of_transfer (h : transfer D m .v2 m.sender dst amount s = .ok s') :
    ((⟨.v2, m, .transfer dst amount⟩ : Tx).change D (s.indexNow D m.timestamp) s).Makes D m [m.sender, dst]
      (s.indexNow D m.timestamp) s s' := by
  by_cases heq : m.sender = dst
  · subst heq
    obtain ⟨hs, ha, -, r, assets, p, w, hsettled, -, hp, -, rfl⟩ := transfer_self_ok_iff.1 h
    obtain ⟨i, hi, -, rfl⟩ := (settlement_ok_iff hT).1 hsettled
    have htwice : (s.assets D.self).settledFor m.timestamp i [m.sender] =
        (s.assets D.self).settledFor m.timestamp i [m.sender, m.sender] := by
      simp [AssetData.settledFor]
    rw [htwice, indexNow_eq hi]
    refine ⟨fun a hau => ?_, rfl, indexAt_settled rfl hi, rfl, fun t => .of_moveDelegates (hp t),
      fun _ a _ _ => congrFun (Ledger.credit_debit ha) a, rfl, rfl, rfl⟩
    have hne : a ≠ m.sender := by simpa using hau
    exact State.account_eq (congrFun (Ledger.credit_debit ha) a) (Ledger.credit_of_ne hne) rfl
      (settledFor_users_of_ne hau) fun t => congrFun (moveDelegates_delegates (hp t)) a
  · obtain ⟨hs, hd, ha, -, r, assets, r', assets', c, p, w, hsettled, -, hsettled', -, -, hp, -, rfl⟩ :=
      (transfer_ok_iff heq).1 h
    obtain ⟨i, hi, -, rfl⟩ := (settlement_settle_ok_iff hT (Ne.symm heq) hsettled).1 hsettled'
    rw [indexNow_eq hi]
    refine ⟨fun a hau => ?_, rfl, indexAt_settled rfl hi, rfl, fun t => .of_moveDelegates (hp t),
      fun t a htouched hnone => ?_, rfl, rfl, rfl⟩
    · have hne : a ≠ m.sender ∧ a ≠ dst := by simpa using hau
      refine State.account_eq ((Ledger.credit_of_ne hne.2).trans (Ledger.debit_of_ne hne.1))
        ((Ledger.credit_of_ne hne.2).trans (Ledger.credit_of_ne hne.1)) ?_ (settledFor_users_of_ne hau)
        fun t => congrFun (moveDelegates_delegates (hp t)) a
      simp only [transferredCooldowns]
      split <;> simp [hne]
    · have hkept : movedBalances s.balances m.sender dst amount a = s.balances a :=
        (halone t).movedBalances_kept (fun _ => ha) htouched hnone
      simpa [movedBalances, hs, hd] using hkept

omit halone in
theorem makes_of_claimRewards (h : claimRewards D m dst amount s = .ok (n, s')) :
    ((⟨.v2, m, .claimRewards dst amount⟩ : Tx).change D (s.indexNow D m.timestamp) s).Makes D m [m.sender]
      (s.indexNow D m.timestamp) s s' := by
  obtain ⟨r, assets, w, hsettled, -, -, -, -, rfl⟩ := claimRewards_ok_iff.1 h
  obtain ⟨i, hi, -, rfl⟩ := (settlement_ok_iff hT).1 hsettled
  rw [indexNow_eq hi]
  refine ⟨fun a ha => ?_, rfl, indexAt_settled rfl hi, rfl, fun _ => .refl, fun _ _ _ _ => rfl,
    rfl, rfl, rfl⟩
  have hau : a ≠ m.sender := by simpa using ha
  exact State.account_eq rfl (Function.update_of_ne hau ..) rfl (settledFor_users_of_ne ha) fun _ => rfl

omit hT halone

theorem makes_of_cooldown {i : Nat} (h : cooldown m s = .ok s') :
    ((⟨.v2, m, .cooldown⟩ : Tx).change D i s).Makes D m [m.sender] i s s' := by
  obtain ⟨-, rfl⟩ := cooldown_ok_iff.1 h
  refine ⟨fun a ha => ?_, rfl, rfl, rfl, fun _ => .refl, fun _ _ _ _ => rfl, rfl, rfl, rfl⟩
  have hau : a ≠ m.sender := by simpa using ha
  exact State.account_eq rfl rfl (Function.update_of_ne hau ..) rfl fun _ => rfl

/-- A delegation moves power as between any two accounts. -/
theorem PowerMoved.of_delegatePower {number : Nat} {balances : Address → Nat} {data data' : DelegationData}
    (h : delegatePower number balances u y data = .ok data') :
    PowerMoved number balances (some ⟨data.delegatee u, y, balances u⟩) data data' := by
  have hmoved := PowerMoved.of_moveDelegates h
  exact fun a => hmoved a

theorem makes_of_delegate {i : Nat} (h : delegate m m.sender y s = .ok s') :
    ((⟨.v2, m, .delegate y⟩ : Tx).change D i s).Makes D m [m.sender] i s s' := by
  obtain ⟨-, p, hp, rfl⟩ := delegate_ok_iff.1 h
  refine ⟨fun a ha => ?_, rfl, rfl, rfl, fun t => .of_delegatePower (hp t), fun _ _ _ _ => rfl,
    rfl, rfl, rfl⟩
  have hau : a ≠ m.sender := by simpa using ha
  exact State.account_eq rfl rfl rfl rfl fun t =>
    (congrFun (delegatePower_delegates (hp t)) a).trans (Function.update_of_ne hau ..)

theorem makes_of_delegateByType {t' : DelegationType} {i : Nat} (h : delegateByType m m.sender y t' s = .ok s') :
    ((⟨.v2, m, .delegateByType y t'⟩ : Tx).change D i s).Makes D m [m.sender] i s s' := by
  obtain ⟨-, data, hdata, rfl⟩ := delegateByType_ok_iff.1 h
  refine ⟨fun a ha => ?_, rfl, rfl, rfl, fun t => ?_, fun _ _ _ _ => rfl, rfl, rfl, rfl⟩
  · have hau : a ≠ m.sender := by simpa using ha
    refine State.account_eq rfl rfl rfl rfl fun t => ?_
    dsimp only
    by_cases ht : t = t'
    · subst ht
      rw [Function.update_self]
      exact (congrFun (delegatePower_delegates hdata) a).trans (Function.update_of_ne hau ..)
    · rw [Function.update_of_ne ht]
  · simp only [Tx.change]
    by_cases ht : t' = t
    · subst ht
      rw [Function.update_self, if_pos rfl]
      exact .of_delegatePower hdata
    · rw [Function.update_of_ne (Ne.symm ht), if_neg ht]
      exact .refl

end

/-! ## What it depends on -/

section

variable {m : Msg} {s₁ s₁' s₂ s₂' : State W} {u a dst y : Address} {amount n₁ n₂ : Nat}

theorem delegatee_congr {data data' : DelegationData} (h : data.delegates a = data'.delegates a) :
    data.delegatee a = data'.delegatee a := by
  simp only [DelegationData.delegatee, getDelegatee, h]

/-- Storages that agree on an account agree on each thing they keep about it. -/
theorem State.account_fields (h : s₁.account D a = s₂.account D a) :
    s₁.balances a = s₂.balances a ∧ s₁.stakerRewardsToClaim a = s₂.stakerRewardsToClaim a ∧
      s₁.stakersCooldowns a = s₂.stakersCooldowns a ∧
      (s₁.assets D.self).users a = (s₂.assets D.self).users a ∧
      ∀ t, (s₁.power t).delegates a = (s₂.power t).delegates a := by
  simpa [State.account, funext_iff] using h

/-- A call changes the same where it finds its accounts the same. -/
theorem change_congr {x : Tx} {users : List Address} (hx : x.actsOn = some users)
    (hagree : ∀ a ∈ users, s₁.account D a = s₂.account D a) (i : Nat) : x.change D i s₁ = x.change D i s₂ := by
  obtain ⟨v, m, c⟩ := x
  have hfields := fun a ha => State.account_fields (hagree a ha)
  have hdelegatee : ∀ a ∈ users, ∀ t, (s₁.power t).delegatee a = (s₂.power t).delegatee a :=
    fun a ha t => delegatee_congr ((hfields a ha).2.2.2.2 t)
  cases c with
  | stake onBehalfOf amount =>
    cases hx
    simp only [Tx.change, hdelegatee onBehalfOf (by simp)]
  | redeem dst amount =>
    cases hx
    simp only [Tx.change, hdelegatee m.sender (by simp), (hfields m.sender (by simp)).1]
  | cooldown => rfl
  | claimRewards dst amount =>
    cases hx
    obtain ⟨hb, hr, -, hu, -⟩ := hfields m.sender (by simp)
    simp only [Tx.change, hb, hr, hu]
  | transfer recipient amount =>
    cases hx
    simp only [Tx.change, hdelegatee m.sender (by simp), hdelegatee recipient (by simp)]
  | delegate y =>
    cases hx
    simp only [Tx.change, hdelegatee m.sender (by simp), (hfields m.sender (by simp)).1]
  | delegateByType y t =>
    cases hx
    simp only [Tx.change, hdelegatee m.sender (by simp), (hfields m.sender (by simp)).1]
  | _ => cases hx

theorem getNextCooldownTimestamp_congr {k b : Nat} (h : s₁.stakersCooldowns a = s₂.stakersCooldowns a) :
    getNextCooldownTimestamp D m k amount a b s₁ = getNextCooldownTimestamp D m k amount a b s₂ := by
  simp only [getNextCooldownTimestamp, h]

/-- What a settlement accrues depends on the account and the index. -/
theorem accrued_congr {i r₁ r₂ : Nat} (hagree : s₁.account D a = s₂.account D a)
    (h₁ : accrued (s₁.balances a) i ((s₁.assets D.self).users a) = .ok r₁)
    (h₂ : accrued (s₂.balances a) i ((s₂.assets D.self).users a) = .ok r₂) : r₁ = r₂ := by
  obtain ⟨hb, -, -, hu, -⟩ := State.account_fields hagree
  rw [hb, hu, h₂] at h₁
  exact (Except.ok.inj h₁).symm

variable (hT : m.timestamp < 2 ^ 128) (hindex : s₁.indexAt D m.timestamp = s₂.indexAt D m.timestamp)
include hT hindex

/-- So does the settlement itself. -/
theorem settlement_congr {r₁ r₂ : Nat} {assets₁ assets₂ : Address → AssetData} (hagree : s₁.account D a = s₂.account D a)
    (h₁ : settlement D m a s₁ = .ok (r₁, assets₁)) (h₂ : settlement D m a s₂ = .ok (r₂, assets₂)) :
    r₁ = r₂ ∧ ∃ i,
      assets₁ = Function.update s₁.assets D.self ((s₁.assets D.self).settledFor m.timestamp i [a]) ∧
      assets₂ = Function.update s₂.assets D.self ((s₂.assets D.self).settledFor m.timestamp i [a]) := by
  obtain ⟨i, hi₁, hr₁, rfl⟩ := (settlement_ok_iff hT).1 h₁
  obtain ⟨i', hi₂, hr₂, rfl⟩ := (settlement_ok_iff hT).1 h₂
  obtain rfl : i = i' := Except.ok.inj (hi₁.symm.trans (hindex.trans hi₂))
  exact ⟨accrued_congr hagree hr₁ hr₂, i, rfl, rfl⟩

theorem account_of_stake (h₁ : stake D m .v2 u amount s₁ = .ok s₁') (h₂ : stake D m .v2 u amount s₂ = .ok s₂')
    (hagree : s₁.account D u = s₂.account D u) : s₁'.account D u = s₂'.account D u := by
  obtain ⟨-, -, -, -, r₁, assets₁, c₁, p₁, _, _, hsettled₁, -, hc₁, hp₁, -, -, rfl⟩ := stake_ok_iff.1 h₁
  obtain ⟨-, -, -, -, r₂, assets₂, c₂, p₂, _, _, hsettled₂, -, hc₂, hp₂, -, -, rfl⟩ := stake_ok_iff.1 h₂
  obtain ⟨rfl, i, rfl, rfl⟩ := settlement_congr hT hindex hagree hsettled₁ hsettled₂
  obtain ⟨hb, hr, hc, -, hd⟩ := State.account_fields hagree
  rw [hb, getNextCooldownTimestamp_congr hc, hc₂] at hc₁
  refine State.account_eq ?_ ?_ ?_ ?_ fun t => ?_
  · simp [hb]
  · simp [hr]
  · simp [Except.ok.inj hc₁]
  · simp [AssetData.settledFor]
  · show (p₁ t).delegates u = (p₂ t).delegates u
    rw [moveDelegates_delegates (hp₁ t), moveDelegates_delegates (hp₂ t)]
    exact hd t

theorem account_of_redeem (h₁ : redeem D m .v2 dst amount s₁ = .ok s₁') (h₂ : redeem D m .v2 dst amount s₂ = .ok s₂')
    (hagree : s₁.account D m.sender = s₂.account D m.sender) : s₁'.account D m.sender = s₂'.account D m.sender := by
  obtain ⟨-, -, -, -, -, r₁, assets₁, p₁, _, _, hsettled₁, -, hp₁, -, -, rfl⟩ := redeem_ok_iff.1 h₁
  obtain ⟨-, -, -, -, -, r₂, assets₂, p₂, _, _, hsettled₂, -, hp₂, -, -, rfl⟩ := redeem_ok_iff.1 h₂
  obtain ⟨rfl, i, rfl, rfl⟩ := settlement_congr hT hindex hagree hsettled₁ hsettled₂
  obtain ⟨hb, hr, hc, -, hd⟩ := State.account_fields hagree
  refine State.account_eq ?_ ?_ ?_ ?_ fun t => ?_
  · simp [hb]
  · simp [hr]
  · by_cases hall : s₂.balances m.sender ≤ amount <;> simp [hb, hall, hc]
  · simp [AssetData.settledFor]
  · show (p₁ t).delegates m.sender = (p₂ t).delegates m.sender
    rw [moveDelegates_delegates (hp₁ t), moveDelegates_delegates (hp₂ t)]
    exact hd t

theorem account_of_claimRewards (h₁ : claimRewards D m dst amount s₁ = .ok (n₁, s₁'))
    (h₂ : claimRewards D m dst amount s₂ = .ok (n₂, s₂'))
    (hagree : s₁.account D m.sender = s₂.account D m.sender) : s₁'.account D m.sender = s₂'.account D m.sender := by
  obtain ⟨r₁, assets₁, _, hsettled₁, -, rfl, -, -, rfl⟩ := claimRewards_ok_iff.1 h₁
  obtain ⟨r₂, assets₂, _, hsettled₂, -, rfl, -, -, rfl⟩ := claimRewards_ok_iff.1 h₂
  obtain ⟨rfl, i, rfl, rfl⟩ := settlement_congr hT hindex hagree hsettled₁ hsettled₂
  obtain ⟨hb, hr, hc, -, hd⟩ := State.account_fields hagree
  exact State.account_eq hb (by simp [hr]) hc (by simp [AssetData.settledFor]) hd

theorem account_of_transfer (h₁ : transfer D m .v2 m.sender dst amount s₁ = .ok s₁')
    (h₂ : transfer D m .v2 m.sender dst amount s₂ = .ok s₂')
    (hagree : ∀ a ∈ [m.sender, dst], s₁.account D a = s₂.account D a) :
    ∀ a ∈ [m.sender, dst], s₁'.account D a = s₂'.account D a := by
  have hsender := hagree m.sender (by simp)
  obtain ⟨hb, hr, hc, -, -⟩ := State.account_fields hsender
  by_cases heq : m.sender = dst
  · subst heq
    obtain ⟨-, ha₁, -, r₁, assets₁, p₁, _, hsettled₁, -, hp₁, -, rfl⟩ := transfer_self_ok_iff.1 h₁
    obtain ⟨-, ha₂, -, r₂, assets₂, p₂, _, hsettled₂, -, hp₂, -, rfl⟩ := transfer_self_ok_iff.1 h₂
    obtain ⟨rfl, i, rfl, rfl⟩ := settlement_congr hT hindex hsender hsettled₁ hsettled₂
    intro a ha
    obtain rfl : a = m.sender := by simpa using ha
    refine State.account_eq ?_ ?_ hc ?_ fun t => ?_
    · simp only [Ledger.credit_debit ha₁, Ledger.credit_debit ha₂, hb]
    · simp [settle, hr]
    · simp [settle, AssetData.settledFor]
    · show (p₁ t).delegates m.sender = (p₂ t).delegates m.sender
      rw [moveDelegates_delegates (hp₁ t), moveDelegates_delegates (hp₂ t)]
      exact (State.account_fields hsender).2.2.2.2 t
  · have hrecipient := hagree dst (by simp)
    obtain ⟨hb', hr', hc', -, -⟩ := State.account_fields hrecipient
    obtain ⟨-, -, -, -, r₁, assets₁, q₁, assets₁', c₁, p₁, _, hsettled₁, -, hagain₁, -, hc₁, hp₁, -, rfl⟩ :=
      (transfer_ok_iff heq).1 h₁
    obtain ⟨-, -, -, -, r₂, assets₂, q₂, assets₂', c₂, p₂, _, hsettled₂, -, hagain₂, -, hc₂, hp₂, -, rfl⟩ :=
      (transfer_ok_iff heq).1 h₂
    obtain ⟨i, hi₁, hq₁, rfl⟩ := (settlement_settle_ok_iff hT (Ne.symm heq) hsettled₁).1 hagain₁
    obtain ⟨i', hi₂, hq₂, rfl⟩ := (settlement_settle_ok_iff hT (Ne.symm heq) hsettled₂).1 hagain₂
    obtain ⟨j, hj₁, hr₁, -⟩ := (settlement_ok_iff hT).1 hsettled₁
    obtain ⟨j', hj₂, hr₂, -⟩ := (settlement_ok_iff hT).1 hsettled₂
    obtain rfl : i = i' := Except.ok.inj (hi₁.symm.trans (hindex.trans hi₂))
    obtain rfl : j = i := Except.ok.inj (hj₁.symm.trans hi₁)
    obtain rfl : j = j' := Except.ok.inj (hj₁.symm.trans (hindex.trans hj₂))
    obtain rfl := accrued_congr hsender hr₁ hr₂
    obtain rfl := accrued_congr hrecipient hq₁ hq₂
    rw [hc, hb', getNextCooldownTimestamp_congr hc', hc₂] at hc₁
    obtain rfl := Except.ok.inj hc₁
    intro a ha
    have hend : a = m.sender ∨ a = dst := by simpa using ha
    obtain ⟨hab, har, hac, -, had⟩ := State.account_fields (hagree a ha)
    refine State.account_eq ?_ ?_ ?_ ?_ fun t => ?_
    · rcases hend with rfl | rfl <;> simp [Ledger.credit_apply, debit, heq, Ne.symm heq, hb, hb']
    · rcases hend with rfl | rfl <;> simp [settle, Ledger.credit_apply, heq, Ne.symm heq, hr, hr']
    · simp only [transferredCooldowns, hb, hc]
      split <;> rcases hend with rfl | rfl <;> simp [heq, Ne.symm heq, hc]
    · simp [settle, AssetData.settledFor, hend]
    · show (p₁ t).delegates a = (p₂ t).delegates a
      rw [moveDelegates_delegates (hp₁ t), moveDelegates_delegates (hp₂ t)]
      exact had t

omit hT hindex

theorem account_of_cooldown (h₁ : cooldown m s₁ = .ok s₁') (h₂ : cooldown m s₂ = .ok s₂')
    (hagree : s₁.account D m.sender = s₂.account D m.sender) : s₁'.account D m.sender = s₂'.account D m.sender := by
  obtain ⟨-, rfl⟩ := cooldown_ok_iff.1 h₁
  obtain ⟨-, rfl⟩ := cooldown_ok_iff.1 h₂
  obtain ⟨hb, hr, -, hu, hd⟩ := State.account_fields hagree
  exact State.account_eq hb hr (by simp) hu hd

theorem account_of_delegate (h₁ : delegate m m.sender y s₁ = .ok s₁') (h₂ : delegate m m.sender y s₂ = .ok s₂')
    (hagree : s₁.account D m.sender = s₂.account D m.sender) : s₁'.account D m.sender = s₂'.account D m.sender := by
  obtain ⟨-, p₁, hp₁, rfl⟩ := delegate_ok_iff.1 h₁
  obtain ⟨-, p₂, hp₂, rfl⟩ := delegate_ok_iff.1 h₂
  obtain ⟨hb, hr, hc, hu, -⟩ := State.account_fields hagree
  refine State.account_eq hb hr hc hu fun t => ?_
  show (p₁ t).delegates m.sender = (p₂ t).delegates m.sender
  rw [delegatePower_delegates (hp₁ t), delegatePower_delegates (hp₂ t), Function.update_self, Function.update_self]

theorem account_of_delegateByType {t' : DelegationType} (h₁ : delegateByType m m.sender y t' s₁ = .ok s₁')
    (h₂ : delegateByType m m.sender y t' s₂ = .ok s₂')
    (hagree : s₁.account D m.sender = s₂.account D m.sender) : s₁'.account D m.sender = s₂'.account D m.sender := by
  obtain ⟨-, data₁, hdata₁, rfl⟩ := delegateByType_ok_iff.1 h₁
  obtain ⟨-, data₂, hdata₂, rfl⟩ := delegateByType_ok_iff.1 h₂
  obtain ⟨hb, hr, hc, hu, hd⟩ := State.account_fields hagree
  refine State.account_eq hb hr hc hu fun t => ?_
  dsimp only
  by_cases ht : t = t'
  · subst ht
    rw [Function.update_self, Function.update_self, delegatePower_delegates hdata₁, delegatePower_delegates hdata₂,
      Function.update_self, Function.update_self]
  · rw [Function.update_of_ne ht, Function.update_of_ne ht]
    exact hd t

end

/-! ## A call -/

section

variable {x : Tx} {users : List Address} {s s' s₁ s₁' s₂ s₂' : State W} (hv : x.version = .v2)
  (hx : x.actsOn = some users) (hT : x.msg.timestamp < 2 ^ 128)
include hv hx hT

theorem makes_of_exec (halone : ∀ t, StandsAlone (s.power t)) (h : exec D x s = .ok s') :
    (x.change D (s.indexNow D x.msg.timestamp) s).Makes D x.msg users (s.indexNow D x.msg.timestamp) s s' := by
  obtain ⟨v, m, c⟩ := x
  subst hv
  cases c with
  | stake onBehalfOf amount => cases hx; exact makes_of_stake hT halone h
  | redeem dst amount => cases hx; exact makes_of_redeem hT halone h
  | cooldown => cases hx; exact makes_of_cooldown h
  | claimRewards dst amount =>
    cases hx
    obtain ⟨n, h⟩ := exec_claimRewards_ok_iff.1 h
    exact makes_of_claimRewards hT h
  | transfer recipient amount => cases hx; exact makes_of_transfer hT halone h
  | delegate y => cases hx; exact makes_of_delegate h
  | delegateByType y t => cases hx; exact makes_of_delegateByType h
  | _ => cases hx

/-- A call leaves its accounts the same where it finds them the same. -/
theorem account_of_exec (hindex : s₁.indexAt D x.msg.timestamp = s₂.indexAt D x.msg.timestamp)
    (hagree : ∀ a ∈ users, s₁.account D a = s₂.account D a) (h₁ : exec D x s₁ = .ok s₁')
    (h₂ : exec D x s₂ = .ok s₂') : ∀ a ∈ users, s₁'.account D a = s₂'.account D a := by
  obtain ⟨v, m, c⟩ := x
  subst hv
  have hone : ∀ {u : Address}, s₁'.account D u = s₂'.account D u → ∀ a ∈ [u], s₁'.account D a = s₂'.account D a :=
    fun h a ha => by rw [List.mem_singleton.1 ha]; exact h
  cases c with
  | stake onBehalfOf amount => cases hx; exact hone (account_of_stake hT hindex h₁ h₂ (hagree _ (by simp)))
  | redeem dst amount => cases hx; exact hone (account_of_redeem hT hindex h₁ h₂ (hagree _ (by simp)))
  | cooldown => cases hx; exact hone (account_of_cooldown h₁ h₂ (hagree _ (by simp)))
  | claimRewards dst amount =>
    cases hx
    obtain ⟨n₁, h₁⟩ := exec_claimRewards_ok_iff.1 h₁
    obtain ⟨n₂, h₂⟩ := exec_claimRewards_ok_iff.1 h₂
    exact hone (account_of_claimRewards hT hindex h₁ h₂ (hagree _ (by simp)))
  | transfer recipient amount => cases hx; exact account_of_transfer hT hindex h₁ h₂ hagree
  | delegate y => cases hx; exact hone (account_of_delegate h₁ h₂ (hagree _ (by simp)))
  | delegateByType y t => cases hx; exact hone (account_of_delegateByType h₁ h₂ (hagree _ (by simp)))
  | _ => cases hx

end

end StarlayStake
