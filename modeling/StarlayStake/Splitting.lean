/-
How an account cuts up what it takes out in a block. The first redemption or
claim of a block settles the account, and those after it find it settled; what
they write to snapshots is written over, but for the last of them. So all that
they leave behind tells of them is how much was redeemed and how much was
claimed (`TakenOut`), and nothing is gained or lost by taking out in parts, in
whatever order (`splitting_irrelevant`).
-/
import StarlayStake.BlockOrder

namespace StarlayStake

open DistributionManager (accrued)
open Ledger (credit debit)
open StakedToken

variable {W : Type} {D : Deployment W}

/-! ## Moving power more than once -/

section

variable {number A k k' : Nat} {balances balances₁ : Address → Nat} {p : Option PowerMove} {src dst : Address}
  {data data₁ data₂ : DelegationData}

/-- A move that follows another of the block, between the same accounts, is
the sum of both. -/
theorem PowerMoved.again (h : PowerMoved number balances (some ⟨src, dst, k⟩) data data₁)
    (h' : PowerMoved number balances₁ (some ⟨src, dst, k'⟩) data₁ data₂) :
    PowerMoved number balances (some ⟨src, dst, k + k'⟩) data data₂ := by
  intro a
  have htouches : ∀ j, PowerMove.touches (some ⟨src, dst, j⟩) a ↔ src ≠ dst ∧ a ≠ 0 ∧ (a = src ∨ a = dst) := fun j => by
    simp [PowerMove.touches]
  by_cases hm : src ≠ dst ∧ a ≠ 0 ∧ (a = src ∨ a = dst)
  · obtain ⟨v, hv, hmod, hdata₁⟩ := (h a).written ((htouches k).2 hm)
    obtain ⟨v', hv', hmod', hdata₂⟩ := (h' a).written ((htouches k').2 hm)
    rw [hdata₁, powerOfHistory_write] at hmod'
    rw [hdata₁, write_write] at hdata₂
    refine .inr ⟨(htouches _).2 hm, v', hv', ?_, hdata₂⟩
    simp only [PowerMove.given, PowerMove.taken] at hmod hmod' ⊢
    split_ifs at hmod hmod' ⊢ <;> omega
  · refine .inl ⟨fun ht => hm ((htouches _).1 ht), ?_⟩
    rw [(h' a).kept fun ht => hm ((htouches _).1 ht), (h a).kept fun ht => hm ((htouches _).1 ht)]

/-- Nothing may have moved before. -/
theorem PowerMoved.next (h : PowerMoved number balances (if A = 0 then none else some ⟨src, dst, k⟩) data data₁)
    (hnone : A = 0 → balances₁ = balances ∧ k = 0) (h' : PowerMoved number balances₁ (some ⟨src, dst, k'⟩) data₁ data₂) :
    PowerMoved number balances (some ⟨src, dst, k + k'⟩) data data₂ := by
  by_cases hA : A = 0
  · obtain ⟨rfl, rfl⟩ := hnone hA
    rw [if_pos hA] at h
    intro a
    have hkept : data₁.history a = data.history a := (h a).kept fun ⟨_, hq, _⟩ => (nomatch hq)
    rw [Nat.zero_add, ← hkept]
    exact h' a
  · rw [if_neg hA] at h
    exact h.again h'

/-- Where power moved to is told by what was there. -/
theorem PowerMoved.determined (h : PowerMoved number balances p data data₁) (h' : PowerMoved number balances p data data₂)
    (a : Address) : data₁.history a = data₂.history a := by
  by_cases hm : PowerMove.touches p a
  · obtain ⟨v, hv, hmod, hdata₁⟩ := (h a).written hm
    obtain ⟨v', hv', hmod', hdata₂⟩ := (h' a).written hm
    rw [hdata₁, hdata₂, show v = v' by omega]
  · rw [(h a).kept hm, (h' a).kept hm]

end

/-! ## What is taken out in a block -/

/-- What a call redeems, if there is as much. -/
def Call.redeems : Call → Nat
  | .redeem _ amount => amount
  | _ => 0

def Call.claims : Call → Nat
  | .claimRewards _ amount => amount
  | _ => 0

/-- A redemption, or a claim of an amount that it names. -/
def Call.takesOut : Call → Bool
  | .redeem _ _ => true
  | .claimRewards _ amount => amount ≠ uint256Max
  | _ => false

/-- From `s` to `s'` the sender took out so much in redemptions, and so much
in claims. -/
structure TakenOut (D : Deployment W) (m : Msg) (redeemed claimed : Nat) (s s' : State W) : Prop where
  balances : s'.balances = debit s.balances m.sender (min redeemed (s.balances m.sender))
  supply : s'.totalSupply + min redeemed (s.balances m.sender) = s.totalSupply
  cooldowns : s'.stakersCooldowns = if redeemed ≠ 0 ∧ s.balances m.sender ≤ redeemed then
    Function.update s.stakersCooldowns m.sender 0 else s.stakersCooldowns
  settled : ∃ i r x, assetIndex D m.timestamp (s.assets D.self) s.totalSupply = .ok i ∧
    accrued (s.balances m.sender) i ((s.assets D.self).users m.sender) = .ok r ∧
    s'.assets = Function.update s.assets D.self ((s.assets D.self).settledFor m.timestamp i [m.sender]) ∧
    s'.stakerRewardsToClaim = Function.update s.stakerRewardsToClaim m.sender x ∧
    x + claimed = s.stakerRewardsToClaim m.sender + r
  delegates : ∀ t, (s'.power t).delegates = (s.power t).delegates
  power : ∀ t, PowerMoved m.number s.balances
    (if redeemed = 0 then none else
      some ⟨(s.power t).delegatee m.sender, (s.power t).delegatee 0, min redeemed (s.balances m.sender)⟩)
    (s.power t) (s'.power t)
  others : s'.allowances = s.allowances ∧ s'.governance = s.governance ∧ s'.nonces = s.nonces

section

variable {m : Msg} {s s₁ s₂ : State W} {dst : Address} {amount n A B r i : Nat} {assets : Address → AssetData}

/-- An account that was settled in the block is not settled again. -/
theorem settlement_again (hT : m.timestamp < 2 ^ 128)
    (hassets : s₁.assets = Function.update s.assets D.self ((s.assets D.self).settledFor m.timestamp i [m.sender]))
    (h : settlement D m m.sender s₁ = .ok (r, assets)) : r = 0 ∧ assets = s₁.assets := by
  have hself : s₁.assets D.self = (s.assets D.self).settledFor m.timestamp i [m.sender] := by
    rw [hassets, Function.update_self]
  obtain ⟨j, hj, hr, rfl⟩ := (settlement_ok_iff hT).1 h
  have hagain : assetIndex D m.timestamp (s₁.assets D.self) s₁.totalSupply = .ok i := by
    rw [hself]
    exact assetIndex_settled rfl
  obtain rfl : i = j := Except.ok.inj (hagain.symm.trans hj)
  refine ⟨?_, ?_⟩
  · rw [DistributionManager.accrued_eq hr, hself]
    simp [AssetData.settledFor]
  · have htwice : ((s.assets D.self).settledFor m.timestamp i [m.sender]).settledFor m.timestamp i [m.sender] =
        (s.assets D.self).settledFor m.timestamp i [m.sender] := by
      simp only [AssetData.settledFor, AssetData.settled]
      congr 1
      funext u
      by_cases hu : u ∈ [m.sender] <;> simp [hu]
    rw [hself, htwice, ← hself, Function.update_eq_self]

theorem TakenOut.first_redeem (hT : m.timestamp < 2 ^ 128) (h : redeem D m .v2 dst amount s = .ok s₁) :
    TakenOut D m amount 0 s s₁ := by
  obtain ⟨hne, -, -, -, hle, r, assets, p, w, w', hsettled, -, hp, -, -, rfl⟩ := redeem_ok_iff.1 h
  obtain ⟨i, hi, hr, rfl⟩ := (settlement_ok_iff hT).1 hsettled
  refine ⟨rfl, Nat.sub_add_cancel hle, ?_, ⟨i, r, _, hi, hr, rfl, rfl, rfl⟩,
    fun t => moveDelegates_delegates (hp t), fun t => ?_, rfl, rfl, rfl⟩
  · simp only [hne, ne_eq, not_false_eq_true, true_and]
  · rw [if_neg hne]
    exact .of_moveDelegates (hp t)

theorem TakenOut.first_claim (hT : m.timestamp < 2 ^ 128) (hall : amount ≠ uint256Max)
    (h : claimRewards D m dst amount s = .ok (n, s₁)) : TakenOut D m 0 amount s s₁ := by
  obtain ⟨r, assets, w, hsettled, -, hn, hle, -, rfl⟩ := claimRewards_ok_iff.1 h
  obtain ⟨i, hi, hr, rfl⟩ := (settlement_ok_iff hT).1 hsettled
  obtain rfl : n = amount := by rw [hn, amountToClaim, if_neg hall]
  refine ⟨?_, ?_, ?_, ⟨i, r, _, hi, hr, rfl, rfl, Nat.sub_add_cancel hle⟩, fun _ => rfl, fun t => ?_, rfl, rfl, rfl⟩
  · simp [debit]
  · simp
  · simp
  · exact .refl

theorem TakenOut.redeem (hT : m.timestamp < 2 ^ 128) (htaken : TakenOut D m A B s s₁)
    (h : StakedToken.redeem D m .v2 dst amount s₁ = .ok s₂) : TakenOut D m (A + amount) B s s₂ := by
  obtain ⟨i, r, x, hi, hr, hassets, hrewards, hx⟩ := htaken.settled
  obtain ⟨hne, -, -, -, hle, r', assets', p, w, w', hsettled, -, hp, -, -, rfl⟩ := redeem_ok_iff.1 h
  obtain ⟨rfl, rfl⟩ := settlement_again hT hassets hsettled
  have hbalance : s₁.balances m.sender = s.balances m.sender - min A (s.balances m.sender) := by
    rw [htaken.balances, Ledger.debit_self]
  have hsum : min (A + amount) (s.balances m.sender) =
      min A (s.balances m.sender) + min amount (s₁.balances m.sender) := by omega
  have hsupply := htaken.supply
  refine ⟨?_, ?_, ?_, ⟨i, r, x, hi, hr, hassets, ?_, hx⟩, fun t => ?_, fun t => ?_, htaken.others⟩
  · rw [hsum]
    funext a
    by_cases ha : a = m.sender
    · subst ha
      simp only [Ledger.debit_self, hbalance]
      omega
    · simp only [Ledger.debit_of_ne ha, htaken.balances]
  · simp only
    omega
  · -- the cooldown goes with the last of the balance
    simp only [htaken.cooldowns, hbalance]
    by_cases hlast : s.balances m.sender ≤ A + amount
    · have hleft : s.balances m.sender - min A (s.balances m.sender) ≤ amount := by omega
      have hall : A + amount ≠ 0 ∧ s.balances m.sender ≤ A + amount := ⟨by omega, hlast⟩
      rw [if_pos hleft, if_pos hall]
      split
      · rw [Function.update_idem]
      · rfl
    · rw [if_neg (by omega), if_neg (by omega), if_neg (by omega)]
  · simp only [hrewards, Ledger.credit_zero]
  · exact (moveDelegates_delegates (hp t)).trans (htaken.delegates t)
  · rw [if_neg (by omega), hsum]
    have hmoved := PowerMoved.of_moveDelegates (hp t)
    rw [htaken.delegates t] at hmoved
    refine (htaken.power t).next (fun hA => ?_) hmoved
    subst hA
    exact ⟨by rw [htaken.balances]; simp [debit], Nat.zero_min _⟩

theorem TakenOut.claim (hT : m.timestamp < 2 ^ 128) (hall : amount ≠ uint256Max) (htaken : TakenOut D m A B s s₁)
    (h : claimRewards D m dst amount s₁ = .ok (n, s₂)) : TakenOut D m A (B + amount) s s₂ := by
  obtain ⟨i, r, x, hi, hr, hassets, hrewards, hx⟩ := htaken.settled
  obtain ⟨r', assets', w, hsettled, -, hn, hle, -, rfl⟩ := claimRewards_ok_iff.1 h
  obtain ⟨rfl, rfl⟩ := settlement_again hT hassets hsettled
  obtain rfl : n = amount := by rw [hn, amountToClaim, if_neg hall]
  have hself : s₁.stakerRewardsToClaim m.sender = x := by rw [hrewards, Function.update_self]
  refine ⟨htaken.balances, htaken.supply, htaken.cooldowns, ⟨i, r, x - n, hi, hr, hassets, ?_, by omega⟩,
    htaken.delegates, htaken.power, htaken.others⟩
  simp only [hrewards, Function.update_idem, Function.update_self, Nat.add_zero]

/-- What was taken out tells the storage. -/
theorem TakenOut.eq (h : TakenOut D m A B s s₁) (h' : TakenOut D m A B s s₂) : { s₁ with world := s₂.world } = s₂ := by
  obtain ⟨i, r, x, hi, hr, hassets, hrewards, hx⟩ := h.settled
  obtain ⟨i', r', x', hi', hr', hassets', hrewards', hx'⟩ := h'.settled
  obtain rfl := Except.ok.inj (hi.symm.trans hi')
  obtain rfl := Except.ok.inj (hr.symm.trans hr')
  obtain rfl : x = x' := by omega
  have hassets₁₂ : s₁.assets = s₂.assets := hassets.trans hassets'.symm
  refine State.eq_of_accounts (D := D) (fun a => State.account_eq ?_ ?_ ?_ ?_ fun t => ?_) hassets₁₂ ?_
    (fun t => (h.power t).determined (h'.power t)) (h.others.1.trans h'.others.1.symm)
    (h.others.2.1.trans h'.others.2.1.symm) (h.others.2.2.trans h'.others.2.2.symm)
  · rw [h.balances, h'.balances]
  · rw [hrewards, hrewards']
  · rw [h.cooldowns, h'.cooldowns]
  · rw [hassets₁₂]
  · rw [h.delegates t, h'.delegates t]
  · have hsupply := h.supply
    have hsupply' := h'.supply
    omega

variable {c : Call} {l : List Call}

theorem TakenOut.first (hT : m.timestamp < 2 ^ 128) (hc : c.takesOut = true) (h : exec D ⟨.v2, m, c⟩ s = .ok s₁) :
    TakenOut D m c.redeems c.claims s s₁ := by
  cases c with
  | redeem dst amount => exact .first_redeem hT h
  | claimRewards dst amount =>
    obtain ⟨n, h⟩ := exec_claimRewards_ok_iff.1 h
    exact .first_claim hT (of_decide_eq_true hc) h
  | _ => cases hc

theorem TakenOut.next (hT : m.timestamp < 2 ^ 128) (hc : c.takesOut = true) (htaken : TakenOut D m A B s s₁)
    (h : exec D ⟨.v2, m, c⟩ s₁ = .ok s₂) : TakenOut D m (A + c.redeems) (B + c.claims) s s₂ := by
  cases c with
  | redeem dst amount => exact htaken.redeem hT h
  | claimRewards dst amount =>
    obtain ⟨n, h⟩ := exec_claimRewards_ok_iff.1 h
    exact htaken.claim hT (of_decide_eq_true hc) h
  | _ => cases hc

theorem takenOut_of_transact (hT : m.timestamp < 2 ^ 128) (hl : ∀ c ∈ l, c.takesOut = true) (hne : l ≠ [])
    (h : Runs.transact (exec D) s (l.map fun c => ⟨.v2, m, c⟩) = .ok s₁) :
    TakenOut D m (l.map Call.redeems).sum (l.map Call.claims).sum s s₁ := by
  induction l using List.reverseRecOn generalizing s₁ with
  | nil => exact absurd rfl hne
  | append_singleton l c ih =>
    rw [List.map_append, List.map_singleton] at h
    obtain ⟨s₀, hbefore, hc⟩ := Runs.transact_concat_ok_iff.1 h
    have htakes : c.takesOut = true := hl c (by simp)
    by_cases hnil : l = []
    · subst hnil
      obtain rfl := Except.ok.inj hbefore
      simpa using TakenOut.first hT htakes hc
    · have htaken := ih (fun c hc => hl c (List.mem_append_left _ hc)) hnil hbefore
      simpa using htaken.next hT htakes hc

end

/-- **How an account cuts up what it takes out in a block is irrelevant.**
From any storage, two lists of its redemptions and claims of one block, that
redeem as much and claim as much as each other, in whatever parts and order
and to whomever, lead to the same storage of version 2, where all of both
succeed. A claim is of an amount that it names, and the timestamp fits its 128
bits. -/
theorem splitting_irrelevant {m : Msg} {s s₁ s₂ : State W} {l₁ l₂ : List Call} (hT : m.timestamp < 2 ^ 128)
    (hl₁ : ∀ c ∈ l₁, c.takesOut = true) (hl₂ : ∀ c ∈ l₂, c.takesOut = true) (hne₁ : l₁ ≠ []) (hne₂ : l₂ ≠ [])
    (hredeems : (l₁.map Call.redeems).sum = (l₂.map Call.redeems).sum)
    (hclaims : (l₁.map Call.claims).sum = (l₂.map Call.claims).sum)
    (h₁ : Runs.transact (exec D) s (l₁.map fun c => ⟨.v2, m, c⟩) = .ok s₁)
    (h₂ : Runs.transact (exec D) s (l₂.map fun c => ⟨.v2, m, c⟩) = .ok s₂) : { s₁ with world := s₂.world } = s₂ := by
  have htaken₁ := takenOut_of_transact hT hl₁ hne₁ h₁
  have htaken₂ := takenOut_of_transact hT hl₂ hne₂ h₂
  rw [hredeems, hclaims] at htaken₁
  exact htaken₁.eq htaken₂

/-- A holder redeems in two parts, more than there is, between two claims, or
redeems it all and claims once. -/
theorem splitting_irrelevant_parts :
    let holder (timestamp : Nat) : Msg := ⟨.ofNat 10, 2, timestamp, sampleHolder_ne⟩
    let s := run .sample (.fresh 0 ()) [
      ⟨.v2, ⟨.ofNat 5, 1, 190, sampleManager_ne⟩, .configureAssets [⟨10, 0, .ofNat 1, by decide⟩]⟩,
      ⟨.v2, holder 200, .stake (.ofNat 10) 7⟩, ⟨.v2, holder 210, .cooldown⟩]
    let l₁ : List Call := [.claimRewards (.ofNat 10) 10, .redeem (.ofNat 10) 3, .redeem (.ofNat 10) 5,
      .claimRewards (.ofNat 11) 5]
    let l₂ : List Call := [.redeem (.ofNat 11) 8, .claimRewards (.ofNat 10) 15]
    ∃ s₁ s₂, Runs.transact (exec .sample) s (l₁.map fun c => ⟨.v2, holder 320, c⟩) = .ok s₁ ∧
      Runs.transact (exec .sample) s (l₂.map fun c => ⟨.v2, holder 320, c⟩) = .ok s₂ ∧
      { s₁ with world := s₂.world } = s₂ ∧ s₂.totalSupply = 0 := by
  intro holder s l₁ l₂
  have hok₁ : (Runs.transact (exec .sample) s (l₁.map fun c => ⟨.v2, holder 320, c⟩)).isOk = true := by decide +kernel
  have hok₂ : (Runs.transact (exec .sample) s (l₂.map fun c => ⟨.v2, holder 320, c⟩)).isOk = true := by decide +kernel
  have hsupply : (run .sample s (l₂.map fun c => ⟨.v2, holder 320, c⟩)).totalSupply = 0 := by decide +kernel
  obtain ⟨s₁, h₁⟩ := Outcome.exists_ok hok₁
  obtain ⟨s₂, h₂⟩ := Outcome.exists_ok hok₂
  have hrun : run .sample s (l₂.map fun c => ⟨.v2, holder 320, c⟩) = s₂ := Runs.run_of_transact h₂
  rw [hrun] at hsupply
  exact ⟨s₁, s₂, h₁, h₂, splitting_irrelevant (m := holder 320) (by decide) (by decide) (by decide) (by decide) (by decide)
    (by decide) (by decide) h₁ h₂, hsupply⟩

end StarlayStake
