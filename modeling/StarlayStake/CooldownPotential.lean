/-
Cooldown time cannot be laundered by moving tokens around. Weigh the
cooldown every account is taken to have started (now, where none is set or
it has expired) by its balance, and sum up: `potential`. The higher it is,
the longer everybody has to wait. Time only raises it; tokens staked bring
their own, as if their cooldown began now; tokens redeemed take theirs
along; and tokens moved lose only what the mean of their recipient rounds
(`CreditRule.potential`). So over any run it moves back by the roundings
alone (`potential_run`).
-/
import Mathlib.Algebra.BigOperators.Ring.Finset
import StarlayStake.CooldownCredit
import StarlayStake.Power

namespace StarlayStake

open Ledger (credit debit total)
open StakedToken

variable {W : Type} {D : Deployment W}

/-- The cooldown of an account at `T`, weighted by its balance. -/
def weighted (D : Deployment W) (T : Nat) (s : State W) (u : Address) : Nat :=
  s.balances u * effectiveCooldown D T (s.stakersCooldowns u)

/-- The balance-weighted start of all cooldowns, at `T`. -/
noncomputable def potential (D : Deployment W) (T : Nat) (s : State W) : Nat := total (weighted D T s)

section

variable {x : Tx} {s s' : State W} {src dst u : Address} {amount balance e c c' T T' : Nat}

/-- Time only moves a cooldown on. -/
theorem effectiveCooldown_mono (hc : c ≤ T) (hle : T ≤ T') : effectiveCooldown D T c ≤ effectiveCooldown D T' c := by
  unfold effectiveCooldown Expired
  split <;> split <;> omega

/-- What tokens received bring is lost by less than the balance. -/
theorem CreditRule.potential (h : CreditRule D T e amount balance c c') (he : e ≤ T) :
    amount * e + balance * effectiveCooldown D T c ≤
      (amount + balance) * effectiveCooldown D T c' + (amount + balance - 1) := by
  have hle := Nat.mul_le_mul_left amount he
  by_cases hnone : c = 0 ∨ Expired D T c
  · have hc' : c' = 0 := by
      by_cases hc : c = 0
      · exact h.unset hc
      · exact (h.expired hc).2 (hnone.resolve_left hc)
    rw [hc', effectiveCooldown_zero, effectiveCooldown, if_pos hnone, Nat.add_mul]
    omega
  · rw [not_or] at hnone
    obtain ⟨hne, hvalid⟩ := hnone
    obtain ⟨hlow, hhigh⟩ := h.between hne hvalid
    have hvalid' : ¬ Expired D T c' := by
      unfold Expired at hvalid ⊢
      omega
    rw [effectiveCooldown_of_valid hne hvalid, effectiveCooldown_of_valid (by omega) hvalid']
    by_cases hlt : e < c
    · rw [h.better hne hvalid hlt, Nat.add_mul]
      have := Nat.mul_le_mul_left amount hlt.le
      omega
    · obtain ⟨-, hlt⟩ := h.mean hne hvalid (not_lt.1 hlt)
      rw [Nat.mul_comm (c' + 1), Nat.mul_add_one] at hlt
      omega

/-- The calls that move staked tokens. -/
def Call.movesTokens : Call → Bool
  | .stake _ _ => true
  | .redeem _ _ => true
  | .transfer _ _ => true
  | .transferFrom _ _ _ => true
  | _ => false

/-! ## What every call does to it -/

theorem potential_mono (hnow : ∀ a, s.stakersCooldowns a ≤ T) (hle : T ≤ T') : potential D T s ≤ potential D T' s :=
  Finset.sum_le_sum fun u _ => Nat.mul_le_mul_left _ (effectiveCooldown_mono (hnow u) hle)

/-- A call that leaves an account its balance and its timestamp leaves what
it weighs. -/
theorem weighted_congr (hbalance : s'.balances u = s.balances u)
    (hcooldown : s'.stakersCooldowns u = s.stakersCooldowns u) : weighted D T s' u = weighted D T s u := by
  rw [weighted, weighted, hbalance, hcooldown]

theorem weighted_le (hnow : ∀ a, s.stakersCooldowns a ≤ T) (u : Address) : weighted D T s u ≤ T * s.balances u :=
  (Nat.mul_le_mul_left _ (effectiveCooldown_le (hnow u))).trans_eq (Nat.mul_comm ..)

theorem potential_le (hnow : ∀ a, s.stakersCooldowns a ≤ T) (hsupply : total s.balances = s.totalSupply) :
    potential D T s ≤ T * s.totalSupply := by
  rw [← hsupply, potential, Ledger.total_def, Ledger.total_def, Finset.mul_sum]
  exact Finset.sum_le_sum fun u _ => weighted_le hnow u

variable (hlate : D.COOLDOWN_SECONDS + D.UNSTAKE_WINDOW < x.msg.timestamp)
  (hnow : ∀ a, s.stakersCooldowns a ≤ x.msg.timestamp)
include hlate hnow

theorem potential_stake (h : stake D x.msg x.version u amount s = .ok s') :
    potential D x.msg.timestamp s + amount * x.msg.timestamp ≤
      potential D x.msg.timestamp s' + (s'.balances u - 1) := by
  obtain ⟨ha, hbalances, hcooldowns⟩ := stake_credits hlate h
  have htotal := Ledger.total_of_eq_off (b := weighted D x.msg.timestamp s) (c := weighted D x.msg.timestamp s')
    (x := u) fun z hz => weighted_congr (by rw [hbalances, Ledger.credit_of_ne hz])
      (by rw [hcooldowns, Function.update_of_ne hz])
  have hbalance : s'.balances u = amount + s.balances u := by rw [hbalances, Ledger.credit_self, Nat.add_comm]
  have hrule := (CreditRule.of_credited (D := D) (hnow u) (le_refl _) fun _ _ _ =>
    (by omega : 0 < amount + s.balances u)).potential (le_refl _)
  have hafter : weighted D x.msg.timestamp s' u = (amount + s.balances u) * effectiveCooldown D x.msg.timestamp
      (creditedCooldown D x.msg.timestamp x.msg.timestamp amount (s.balances u) (s.stakersCooldowns u)) := by
    rw [weighted, hbalance, hcooldowns, Function.update_self]
  rw [← hafter] at hrule
  have hbefore : weighted D x.msg.timestamp s u = s.balances u * _ := rfl
  unfold potential
  omega

theorem potential_transfer (h : transfer D x.msg x.version src dst amount s = .ok s') :
    potential D x.msg.timestamp s ≤ potential D x.msg.timestamp s' + (s'.balances dst - 1) := by
  by_cases heq : src = dst
  · subst heq
    obtain ⟨-, ha, -, r, assets, p, w, -, -, -, -, rfl⟩ := transfer_self_ok_iff.1 h
    rw [Ledger.credit_debit ha]
    exact Nat.le_add_right _ _
  · obtain ⟨ha, hbalances, hpos, hsender, hrecipient, hother⟩ := transfer_credits hlate heq h
    have hdst : s'.balances dst = amount + s.balances dst := by
      rw [hbalances, Ledger.credit_self, Ledger.debit_of_ne (Ne.symm heq), Nat.add_comm]
    have htotal := Ledger.total_of_eq_off₂ (b := weighted D x.msg.timestamp s) (c := weighted D x.msg.timestamp s')
      heq fun z hzs hzd => weighted_congr
        (by rw [hbalances, Ledger.credit_of_ne hzd, Ledger.debit_of_ne hzs]) (hother z hzs hzd)
    have hrule := (CreditRule.of_credited (hnow dst) (effectiveCooldown_le (D := D) (hnow src)) hpos).potential
      (effectiveCooldown_le (hnow src))
    -- what the sender keeps weighs as it did
    have hgiven : weighted D x.msg.timestamp s' src + amount * effectiveCooldown D x.msg.timestamp
        (s.stakersCooldowns src) = weighted D x.msg.timestamp s src := by
      have hsrc : s'.balances src = s.balances src - amount := by
        rw [hbalances, Ledger.credit_of_ne heq, Ledger.debit_self]
      unfold weighted
      rw [hsrc, hsender]
      by_cases hwhole : s.balances src = amount
      · rw [hwhole, Nat.sub_self, Nat.zero_mul, Nat.zero_add]
      · rw [if_neg hwhole, ← Nat.add_mul, Nat.sub_add_cancel ha]
    have hafter : weighted D x.msg.timestamp s' dst = (amount + s.balances dst) * effectiveCooldown D x.msg.timestamp
        (creditedCooldown D x.msg.timestamp (effectiveCooldown D x.msg.timestamp (s.stakersCooldowns src)) amount
          (s.balances dst) (s.stakersCooldowns dst)) := by
      rw [weighted, hdst, hrecipient]
    rw [← hafter] at hrule
    have hbefore : weighted D x.msg.timestamp s dst = s.balances dst * _ := rfl
    unfold potential
    omega

omit hnow in
theorem potential_redeem (h : redeem D x.msg x.version dst amount s = .ok s') :
    potential D x.msg.timestamp s' +
        min amount (s.balances x.msg.sender) * s.stakersCooldowns x.msg.sender = potential D x.msg.timestamp s := by
  obtain ⟨-, -, hafter, hwindow, -, r, assets, p, w, w', -, -, -, -, -, hs'⟩ := redeem_ok_iff.1 h
  have hcooldowns : s'.stakersCooldowns = if s.balances x.msg.sender ≤ amount then
      Function.update s.stakersCooldowns x.msg.sender 0 else s.stakersCooldowns := by rw [hs']
  have hbalances : s'.balances = debit s.balances x.msg.sender (min amount (s.balances x.msg.sender)) := by rw [hs']
  have htotal := Ledger.total_of_eq_off (b := weighted D x.msg.timestamp s) (c := weighted D x.msg.timestamp s')
    (x := x.msg.sender) fun z hz => weighted_congr (by rw [hbalances, Ledger.debit_of_ne hz])
      (by rw [hcooldowns]; split <;> simp [hz])
  have heffective : effectiveCooldown D x.msg.timestamp (s.stakersCooldowns x.msg.sender) =
      s.stakersCooldowns x.msg.sender := by
    refine effectiveCooldown_of_valid (by omega) ?_
    unfold Expired
    omega
  have hkept : weighted D x.msg.timestamp s' x.msg.sender + min amount (s.balances x.msg.sender) *
      s.stakersCooldowns x.msg.sender = weighted D x.msg.timestamp s x.msg.sender := by
    unfold weighted
    rw [hbalances, hcooldowns, Ledger.debit_self]
    by_cases hwhole : s.balances x.msg.sender ≤ amount
    · rw [Nat.min_eq_right hwhole, Nat.sub_self, Nat.zero_mul, Nat.zero_add, heffective]
    · rw [if_neg hwhole, heffective, ← Nat.add_mul, Nat.sub_add_cancel (Nat.min_le_right _ _)]
  unfold potential
  omega

omit hlate in
theorem potential_cooldown (h : cooldown x.msg s = .ok s') :
    potential D x.msg.timestamp s ≤ potential D x.msg.timestamp s' := by
  obtain ⟨-, rfl⟩ := cooldown_ok_iff.1 h
  refine Finset.sum_le_sum fun u _ => ?_
  by_cases hu : u = x.msg.sender
  · subst hu
    have hown : effectiveCooldown D x.msg.timestamp x.msg.timestamp = x.msg.timestamp := by
      unfold effectiveCooldown; split <;> rfl
    refine (weighted_le hnow _).trans_eq ?_
    simp [weighted, hown, Nat.mul_comm]
  · simp [weighted, hu]

end

/-! ## Runs -/

/-- What a run brings in and takes out, weighted by cooldowns, and what it
may lose to rounding. -/
structure Drift where
  staked : Nat
  redeemed : Nat
  rounding : Nat

namespace Drift

def none : Drift := { staked := 0, redeemed := 0, rounding := 0 }

/-- What is noted down of a successful call. -/
def note (x : Tx) (s s' : State W) (d : Drift) : Drift :=
  match x.call with
  | .stake onBehalfOf amount =>
    { d with staked := d.staked + amount * x.msg.timestamp, rounding := d.rounding + (s'.balances onBehalfOf - 1) }
  | .redeem _ amount =>
    { d with redeemed := d.redeemed + min amount (s.balances x.msg.sender) * s.stakersCooldowns x.msg.sender }
  | .transfer recipient _ => { d with rounding := d.rounding + (s'.balances recipient - 1) }
  | .transferFrom _ recipient _ => { d with rounding := d.rounding + (s'.balances recipient - 1) }
  | _ => d

end Drift

section

variable {x : Tx} {s s' : State W} {d : Drift} {l : List Tx} {T T' : Nat}

/-- The potential and the drift of one call. -/
theorem potential_step (hlate : D.COOLDOWN_SECONDS + D.UNSTAKE_WINDOW < x.msg.timestamp)
    (hnow : ∀ a, s.stakersCooldowns a ≤ x.msg.timestamp) (h : exec D x s = .ok s') :
    potential D x.msg.timestamp s + (Drift.note x s s' d).staked + d.redeemed + d.rounding ≤
      potential D x.msg.timestamp s' + d.staked + (Drift.note x s s' d).redeemed + (Drift.note x s s' d).rounding := by
  cases effect_of_exec h with
  | stake u amount hx hs =>
    have := potential_stake hlate hnow hs
    simp only [Drift.note, hx]
    omega
  | redeem dst amount hx hs =>
    have := potential_redeem hlate hs
    simp only [Drift.note, hx]
    omega
  | cooldown hx hs =>
    have := potential_cooldown (D := D) hnow hs
    simp only [Drift.note, hx]
    omega
  | claimRewards dst amount n hx hs =>
    obtain ⟨r, assets, w, -, -, -, -, -, rfl⟩ := claimRewards_ok_iff.1 hs
    simp only [Drift.note, hx]
    exact le_refl _
  | transfer src dst amount f s₁ hx hs hs' =>
    have := potential_transfer hlate hnow hs
    subst hs'
    have hsame : potential D x.msg.timestamp { s₁ with allowances := f } = potential D x.msg.timestamp s₁ := rfl
    rcases hx with ⟨hx, -⟩ | hx <;> simp only [Drift.note, hx, hsame] <;> omega
  | configureAssets inputs hx hs =>
    obtain ⟨-, assets, -, rfl⟩ := configureAssets_ok_iff.1 hs
    simp only [Drift.note, hx]
    exact le_refl _
  | aside hx f p n hs' =>
    subst hs'
    have hd : Drift.note x s { s with allowances := f, power := p, nonces := n } d = d := by
      unfold Drift.note
      split <;> first | rfl | (next hc => rw [hc] at hx; cases hx)
    rw [hd]
    exact le_refl _

/-- A call that moves no tokens never lowers it. -/
theorem potential_other (hnow : ∀ a, s.stakersCooldowns a ≤ x.msg.timestamp) (hx : x.call.movesTokens = false)
    (h : exec D x s = .ok s') : potential D x.msg.timestamp s ≤ potential D x.msg.timestamp s' := by
  cases effect_of_exec h with
  | stake u amount hc => rw [hc] at hx; cases hx
  | redeem dst amount hc => rw [hc] at hx; cases hx
  | cooldown _ hs => exact potential_cooldown hnow hs
  | claimRewards dst amount n _ hs =>
    obtain ⟨r, assets, w, -, -, -, -, -, rfl⟩ := claimRewards_ok_iff.1 hs
    exact le_refl _
  | transfer src dst amount f s₁ hc => rcases hc with ⟨hc, -⟩ | hc <;> rw [hc] at hx <;> cases hx
  | configureAssets inputs _ hs =>
    obtain ⟨-, assets, -, rfl⟩ := configureAssets_ok_iff.1 hs
    exact le_refl _
  | aside _ f p n hs' => subst hs'; exact le_refl _

/-- The drift of a run. -/
def drift (D : Deployment W) (s : State W) (l : List Tx) : Drift :=
  (Runs.run (Runs.record (exec D) Drift.note) (s, .none) l).2

/-- **Over a run the potential moves back by rounding alone.** -/
theorem potential_run (hnow : ∀ a, s.stakersCooldowns a ≤ T) (hle : T ≤ T')
    (htimes : l.Pairwise fun x y => x.msg.timestamp ≤ y.msg.timestamp)
    (hstart : ∀ x ∈ l, T ≤ x.msg.timestamp) (hl : ∀ x ∈ l, x.msg.timestamp ≤ T')
    (hlate : ∀ x ∈ l, D.COOLDOWN_SECONDS + D.UNSTAKE_WINDOW < x.msg.timestamp) :
    potential D T s + (drift D s l).staked ≤
      potential D T' (run D s l) + (drift D s l).redeemed + (drift D s l).rounding := by
  have h := Runs.run_clocked (Runs.record (exec D) Drift.note) (fun x : Tx => x.msg.timestamp)
    (fun now p => (∀ a, p.1.stakersCooldowns a ≤ now) ∧
      potential D T s + p.2.staked ≤ potential D now p.1 + p.2.redeemed + p.2.rounding)
    (Q := fun x _ _ => D.COOLDOWN_SECONDS + D.UNSTAKE_WINDOW < x.msg.timestamp)
    (fun now now' p hle h => ⟨fun a => (h.1 a).trans hle, ?_⟩) (fun x p p' hx h hs => ?_) (s := (s, .none))
    ⟨hnow, le_refl _⟩ htimes (fun p x hp => hlate x (hp.subset (by simp))) hstart hle hl
  · have hrun : (Runs.run (Runs.record (exec D) Drift.note) (s, Drift.none) l).1 = run D s l :=
      Runs.run_record_fst ..
    rw [hrun] at h
    exact h.2
  · have := potential_mono (D := D) h.1 hle
    omega
  · obtain ⟨hs, hnote⟩ := Runs.record_ok_iff.1 hs
    have hstep := potential_step (d := p.2) hx h.1 hs
    rw [← hnote] at hstep
    exact ⟨stakersCooldowns_le_of_exec h.1 hs, by omega⟩

end

/-- **Cooldown time cannot be laundered.** In every state reached, past the
cooldown and the window: the balance-weighted start of all cooldowns is no
later than now; a transfer lowers it by less than the recipient's balance
after it; a stake raises it by its amount times now, but for less than that
balance; a redemption lowers it by exactly what it takes out, at the
redeemer's stored timestamp; no other call, nor the passing of time, ever
lowers it; and so over any run it moves back by the roundings alone. -/
theorem cooldown_conserved {g : Address} {w : W} {l : List Tx} {T : Nat}
    (htimes : l.Pairwise fun x y => x.msg.timestamp ≤ y.msg.timestamp) (hl : ∀ x ∈ l, x.msg.timestamp ≤ T)
    (hlate : D.COOLDOWN_SECONDS + D.UNSTAKE_WINDOW < T) :
    let s := run D (.fresh g w) l
    potential D T s ≤ T * s.totalSupply ∧
    (∀ x s', x.msg.timestamp = T → exec D x s = .ok s' →
      (∀ src dst amount, (x.call = .transfer dst amount ∧ src = x.msg.sender ∨ x.call = .transferFrom src dst amount) →
        potential D T s ≤ potential D T s' + (s'.balances dst - 1)) ∧
      (∀ u amount, x.call = .stake u amount →
        potential D T s + amount * T ≤ potential D T s' + (s'.balances u - 1)) ∧
      (∀ dst amount, x.call = .redeem dst amount →
        potential D T s' + min amount (s.balances x.msg.sender) * s.stakersCooldowns x.msg.sender = potential D T s) ∧
      (x.call.movesTokens = false → potential D T s ≤ potential D T s')) ∧
    (∀ T', T ≤ T' → potential D T s ≤ potential D T' s) ∧
    ∀ T' l', T ≤ T' → (l'.Pairwise fun x y => x.msg.timestamp ≤ y.msg.timestamp) →
      (∀ x ∈ l', T ≤ x.msg.timestamp ∧ x.msg.timestamp ≤ T') →
      potential D T s + (drift D s l').staked ≤
        potential D T' (run D s l') + (drift D s l').redeemed + (drift D s l').rounding := by
  intro s
  have hnow : ∀ a, s.stakersCooldowns a ≤ T := stakersCooldowns_le htimes hl
  refine ⟨potential_le hnow total_run, fun x s' hx hs => ?_, fun T' hle => potential_mono hnow hle,
    fun T' l' hle htimes' hl' => potential_run hnow hle htimes' (fun x hx => (hl' x hx).1) (fun x hx => (hl' x hx).2)
      fun x hx => lt_of_lt_of_le hlate (hl' x hx).1⟩
  subst hx
  refine ⟨fun src dst amount hcall => ?_, fun u amount hcall => ?_, fun dst amount hcall => ?_,
    fun hcall => potential_other hnow hcall hs⟩
  · rcases hcall with ⟨hcall, rfl⟩ | hcall <;> rw [exec, hcall] at hs
    · exact potential_transfer hlate hnow hs
    · obtain ⟨s₁, hs₁, -, -, rfl⟩ := transferFrom_ok_iff.1 hs
      have htransfer := potential_transfer hlate hnow hs₁
      exact htransfer
  · rw [exec, hcall] at hs
    exact potential_stake hlate hnow hs
  · rw [exec, hcall] at hs
    exact potential_redeem hlate hs

/-- A transfer to a holder in the window, from one without a cooldown. -/
theorem cooldown_conserved_transfer :
    let s := run .sample (.fresh 0 ())
      (cooledRun ++ [⟨.v2, ⟨.ofNat 11, 3, 220, sampleOther_ne⟩, .stake (.ofNat 11) 5⟩])
    ∃ s', exec .sample ⟨.v2, ⟨.ofNat 11, 4, 300, sampleOther_ne⟩, .transfer (.ofNat 10) 3⟩ s = .ok s' ∧
      potential .sample 300 s ≤ 300 * s.totalSupply ∧ potential .sample 300 s ≤ potential .sample 300 s' + 9 := by
  intro s
  obtain ⟨s', hs⟩ := Outcome.exists_ok
    (x := exec .sample ⟨.v2, ⟨.ofNat 11, 4, 300, sampleOther_ne⟩, .transfer (.ofNat 10) 3⟩ s) (by decide +kernel)
  have h := cooldown_conserved (D := .sample) (g := 0) (w := ()) (T := 300)
    (l := cooledRun ++ [⟨.v2, ⟨.ofNat 11, 3, 220, sampleOther_ne⟩, .stake (.ofNat 11) 5⟩])
    (by decide) (by decide) (by decide)
  have hbalance : (Runs.attempt (exec .sample) s
      ⟨.v2, ⟨.ofNat 11, 4, 300, sampleOther_ne⟩, .transfer (.ofNat 10) 3⟩).balances (.ofNat 10) = 10 := by decide +kernel
  rw [Runs.attempt_ok hs] at hbalance
  have htransfer := (h.2.1 _ s' rfl hs).1 (.ofNat 11) (.ofNat 10) 3 (.inl ⟨rfl, rfl⟩)
  rw [hbalance] at htransfer
  exact ⟨s', hs, h.1, htransfer⟩

end StarlayStake
