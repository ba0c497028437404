/-
What receiving tokens does to a cooldown. The contract tests expiry in two
places and in two ways, where it credits tokens and in `redeem`; past the
cooldown and the window both tests are one (`Expired`), and a timestamp
that is not set counts as an expired one does. So what the recipient has
stored next is a function of the two timestamps and the two weights
(`creditedCooldown`), as the comment on `getNextCooldownTimestamp` lists
its cases (`cooldown_credited`), and a stake split into parts leaves what
the whole would have, but for the roundings (`split_stake`).
-/
import StarlayStake.Cooldown

namespace StarlayStake

open Mean (mean absorbed)
open Outcome (Never)
open StakedToken

variable {W : Type} {D : Deployment W}

/-! ## The next timestamp -/

/-- The window to redeem after a cooldown from `c` is over. -/
def Expired (D : Deployment W) (T c : Nat) : Prop := c + D.COOLDOWN_SECONDS + D.UNSTAKE_WINDOW < T

instance (T c : Nat) : Decidable (Expired D T c) := inferInstanceAs (Decidable (_ < _))

/-- The cooldown an account is taken to have started, where it gives tokens
away: now, if none is set or it has expired. -/
def effectiveCooldown (D : Deployment W) (T c : Nat) : Nat := if c = 0 ∨ Expired D T c then T else c

/-- What an account with `c` stored and `balance` has stored after it
receives `amount`, that comes with the cooldown `e`. -/
def creditedCooldown (D : Deployment W) (T e amount balance c : Nat) : Nat :=
  if c = 0 ∨ Expired D T c then 0 else if e < c then c else mean amount e balance c

section

variable {m : Msg} {s : State W} {dst : Address} {amount balance e c r T : Nat}

theorem effectiveCooldown_le (h : c ≤ T) : effectiveCooldown D T c ≤ T := by
  unfold effectiveCooldown
  split
  · exact le_refl _
  · exact h

theorem effectiveCooldown_zero : effectiveCooldown D T 0 = T := by simp [effectiveCooldown]

theorem effectiveCooldown_of_valid (hc : c ≠ 0) (h : ¬ Expired D T c) : effectiveCooldown D T c = c := by
  simp [effectiveCooldown, hc, h]

theorem creditedCooldown_of_lt (h : e < c) (hvalid : ¬ Expired D T c) : creditedCooldown D T e amount balance c = c := by
  rw [creditedCooldown, if_neg fun hnone => hnone.elim (fun h0 => by omega) hvalid, if_pos h]

theorem creditedCooldown_of_le (hc : c ≠ 0) (hvalid : ¬ Expired D T c) (h : c ≤ e) :
    creditedCooldown D T e amount balance c = mean amount e balance c := by
  rw [creditedCooldown, if_neg fun hnone => hnone.elim hc hvalid, if_neg (not_lt.2 h)]

/-- What `getNextCooldownTimestamp` answers, past the cooldown and the
window; where it takes a mean, of something. -/
theorem getNextCooldownTimestamp_ok (hlate : D.COOLDOWN_SECONDS + D.UNSTAKE_WINDOW < m.timestamp)
    (h : getNextCooldownTimestamp D m e amount dst balance s = .ok r) :
    r = creditedCooldown D m.timestamp (effectiveCooldown D m.timestamp e) amount balance (s.stakersCooldowns dst) ∧
      (s.stakersCooldowns dst ≠ 0 → ¬ Expired D m.timestamp (s.stakersCooldowns dst) →
        s.stakersCooldowns dst ≤ effectiveCooldown D m.timestamp e → 0 < amount + balance) := by
  simp only [getNextCooldownTimestamp] at h
  split at h
  · next hzero => cases h; simp [creditedCooldown, hzero]
  · next hne =>
    simp only [Outcome.bind_ok_iff, SafeMath.sub_ok_iff] at h
    obtain ⟨_, ⟨-, rfl⟩, minimal, ⟨-, hminimal⟩, h⟩ := h
    have hexpired : ∀ c, minimal > c ↔ Expired D m.timestamp c := by
      intro c
      unfold Expired
      omega
    have hfrom : (if minimal > e then m.timestamp else e) = effectiveCooldown D m.timestamp e := by
      unfold effectiveCooldown
      by_cases he : e = 0
      · rw [if_pos (by omega), if_pos (.inl he)]
      · simp only [hexpired, he, false_or]
    rw [hfrom] at h
    split at h
    · next hold =>
      cases h
      rw [hexpired] at hold
      simp [creditedCooldown, hold]
    · next hvalid =>
      rw [hexpired] at hvalid
      split at h
      · next hlt =>
        cases h
        exact ⟨(creditedCooldown_of_lt hlt hvalid).symm, fun _ _ hle => absurd hlt (not_lt.2 hle)⟩
      · next hle =>
        simp only [Outcome.bind_ok_iff, SafeMath.mul_ok_iff, SafeMath.add_ok_iff, SafeMath.div_ok_iff] at h
        obtain ⟨_, ⟨-, rfl⟩, _, ⟨-, rfl⟩, _, ⟨-, rfl⟩, _, ⟨-, rfl⟩, hpos, rfl⟩ := h
        exact ⟨(creditedCooldown_of_le hne hvalid (not_lt.1 hle)).symm, fun _ _ _ => hpos⟩

end

/-! ## The window check of a redemption -/

section

variable {m : Msg} {v : Version} {s : State W} {src dst user : Address} {amount number T : Nat}

/-- Does not revert as `redeem` does when the window is over. -/
abbrev NeverFinished {α : Type} (x : Except String α) : Prop := Never "UNSTAKE_WINDOW_FINISHED" x

theorem neverFinished_getAssetIndex {last i total emission : Nat} :
    NeverFinished (DistributionManager.getAssetIndex last T i emission amount total) :=
  .ite .ok <| .bind (SafeMath.guard_never (by decide)) fun _ => .bind (SafeMath.guard_never (by decide)) fun _ =>
    .bind (SafeMath.guard_never (by decide)) fun _ => .bind (SafeMath.guard_never (by decide)) fun _ =>
      SafeMath.guard_never (by decide)

theorem neverFinished_updateCurrentUnclaimedRewards {b : Bool} :
    NeverFinished (updateCurrentUnclaimedRewards D m user amount b s) := by
  refine .bind (.bind (.ite .ok (.bind neverFinished_getAssetIndex fun _ => .pure)) fun _ => .ite ?_ .pure) fun _ =>
    .bind (SafeMath.guard_never (by decide)) fun _ => .ite .pure .pure
  refine .bind (.ite ?_ .ok) fun _ => .pure
  exact .bind (SafeMath.guard_never (by decide)) fun _ => .bind (SafeMath.guard_never (by decide)) fun _ =>
    SafeMath.guard_never (by decide)

theorem neverFinished_moveDelegates {balances : Address → Nat} {data : DelegationData} :
    NeverFinished (moveDelegates number balances src dst amount data) :=
  .ite .ok <| .bind (.ite (.bind (SafeMath.guard_never (by decide)) fun _ => .pure) .ok) fun _ =>
    .ite (.bind (SafeMath.guard_never (by decide)) fun _ => .pure) .ok

theorem neverFinished_moveBalances {balances : Address → Nat} {data : DelegationData} :
    NeverFinished (moveBalances number balances src dst amount data) :=
  .bind (.ite (.bind (SafeMath.guard_never (by decide)) fun _ => .pure) .ok) fun _ =>
    .ite (.bind (SafeMath.guard_never (by decide)) fun _ => .pure) .ok

theorem neverFinished_safeTransfer {w : W} {token sender : Address} :
    NeverFinished (SafeERC20.safeTransfer D.ext token sender dst amount w) := by
  refine .bind (require_never (by decide)) fun _ => ?_
  split
  · exact .error (by decide)
  · exact .bind (require_never (by decide)) fun _ => .pure

variable (hhook : ∀ g src dst amount w, NeverFinished (D.ext.onTransfer g src dst amount w))
include hhook

theorem neverFinished_notifyGovernance : NeverFinished (notifyGovernance D src dst amount s) :=
  .ite (.bind (hhook _ _ _ _ _) fun _ => .pure) .ok

theorem neverFinished_beforeTokenTransfer : NeverFinished (beforeTokenTransfer D m v src dst amount s) := by
  cases v with
  | v1 => exact .ite .ok (.bind neverFinished_moveBalances fun _ => neverFinished_notifyGovernance hhook)
  | v2 =>
    exact .bind (.bind neverFinished_moveDelegates fun _ => .pure) fun _ =>
      .bind (.bind neverFinished_moveDelegates fun _ => .pure) fun _ => neverFinished_notifyGovernance hhook

theorem neverFinished_burn : NeverFinished (burn D m v user amount s) :=
  .bind (require_never (by decide)) fun _ => .bind (neverFinished_beforeTokenTransfer hhook) fun _ =>
    .bind (SafeMath.guard_never (by decide)) fun _ => .bind (SafeMath.guard_never (by decide)) fun _ => .pure

/-- `redeem` reverts with `UNSTAKE_WINDOW_FINISHED` exactly where the
cooldown of the caller has expired. -/
theorem redeem_finished_iff (hT : m.timestamp < 2 ^ 256) (hamount : amount ≠ 0) :
    redeem D m v dst amount s = .error "UNSTAKE_WINDOW_FINISHED" ↔ Expired D m.timestamp (s.stakersCooldowns m.sender) := by
  by_cases hexpired : Expired D m.timestamp (s.stakersCooldowns m.sender)
  · have hlt : s.stakersCooldowns m.sender + D.COOLDOWN_SECONDS + D.UNSTAKE_WINDOW < m.timestamp := hexpired
    have hwindow : ¬ m.timestamp - (s.stakersCooldowns m.sender + D.COOLDOWN_SECONDS) ≤ D.UNSTAKE_WINDOW := by omega
    refine iff_of_true ?_ hexpired
    have hadd := SafeMath.add_of (show s.stakersCooldowns m.sender + D.COOLDOWN_SECONDS < 2 ^ 256 by omega)
    have hafter : m.timestamp > s.stakersCooldowns m.sender + D.COOLDOWN_SECONDS := by omega
    simp only [redeem, require_of hamount, Outcome.ok_bind, hadd, require_of hafter, SafeMath.sub_of hafter.le]
    rw [require, if_neg hwindow]
    rfl
  · refine iff_of_false ?_ hexpired
    refine Never.bind (require_never (by decide)) fun _ => .bind_of (SafeMath.guard_never (by decide)) fun c hc =>
      .bind_of (require_never (by decide)) fun _ hafter => .bind_of (SafeMath.guard_never (by decide)) fun e he =>
        .bind_of ?_ fun _ _ => .bind neverFinished_updateCurrentUnclaimedRewards fun _ =>
          .bind (neverFinished_burn hhook) fun _ => .bind (SafeMath.guard_never (by decide)) fun _ => .bind neverFinished_safeTransfer fun _ => .pure
    -- the window is not over
    obtain ⟨-, rfl⟩ := SafeMath.add_ok_iff.1 hc
    obtain ⟨-, rfl⟩ := SafeMath.sub_ok_iff.1 he
    have hle : m.timestamp ≤ s.stakersCooldowns m.sender + D.COOLDOWN_SECONDS + D.UNSTAKE_WINDOW := not_lt.1 hexpired
    rw [require_of (by omega)]
    exact .ok

end

/-! ## The documented rule -/

/-- What is to become of the timestamp `c` of a recipient with `balance` who
receives `amount`, that comes with the cooldown `e`: it becomes `c'`. -/
structure CreditRule (D : Deployment W) (T e amount balance c c' : Nat) : Prop where
  unset : c = 0 → c' = 0
  expired : c ≠ 0 → (c' = 0 ↔ Expired D T c)
  between : c ≠ 0 → ¬ Expired D T c → c ≤ c' ∧ c' ≤ T
  better : c ≠ 0 → ¬ Expired D T c → e < c → c' = c
  mean : c ≠ 0 → ¬ Expired D T c → c ≤ e →
    c' * (amount + balance) ≤ amount * e + balance * c ∧ amount * e + balance * c < (c' + 1) * (amount + balance)

section

variable {x : Tx} {m : Msg} {v : Version} {s s' : State W} {src u : Address} {amount balance e c T : Nat}

theorem CreditRule.of_credited (hc : c ≤ T) (he : e ≤ T)
    (hpos : c ≠ 0 → ¬ Expired D T c → c ≤ e → 0 < amount + balance) :
    CreditRule D T e amount balance c (creditedCooldown D T e amount balance c) := by
  have hcases : c ≠ 0 → ¬ Expired D T c →
      c ≤ creditedCooldown D T e amount balance c ∧ creditedCooldown D T e amount balance c ≤ T := by
    intro hne hvalid
    by_cases hlt : e < c
    · rw [creditedCooldown_of_lt hlt hvalid]
      exact ⟨le_refl _, hc⟩
    · rw [creditedCooldown_of_le hne hvalid (not_lt.1 hlt)]
      exact ⟨Mean.le_mean (hpos hne hvalid (not_lt.1 hlt)) (not_lt.1 hlt), Mean.mean_le he hc⟩
  constructor
  · intro hzero
    simp [creditedCooldown, hzero]
  · intro hne
    by_cases hexpired : Expired D T c
    · simp [creditedCooldown, hexpired]
    · have := hcases hne hexpired
      exact iff_of_false (by omega) hexpired
  · exact hcases
  · intro _ hvalid hlt
    exact creditedCooldown_of_lt hlt hvalid
  · intro hne hvalid hle
    rw [creditedCooldown_of_le hne hvalid hle]
    exact ⟨Mean.mean_mul_le .., Mean.lt_mean_succ_mul (hpos hne hvalid hle)⟩

/-- What a stake does to balances and cooldowns: its tokens come with no
cooldown. -/
theorem stake_credits (hlate : D.COOLDOWN_SECONDS + D.UNSTAKE_WINDOW < m.timestamp)
    (h : stake D m v u amount s = .ok s') :
    amount ≠ 0 ∧ s'.balances = Ledger.credit s.balances u amount ∧ s'.stakersCooldowns =
      Function.update s.stakersCooldowns u
        (creditedCooldown D m.timestamp m.timestamp amount (s.balances u) (s.stakersCooldowns u)) := by
  obtain ⟨ha, -, -, -, r, assets, c, p, w, w', -, -, hc, -, -, -, rfl⟩ := stake_ok_iff.1 h
  obtain ⟨rfl, -⟩ := getNextCooldownTimestamp_ok hlate hc
  rw [effectiveCooldown_zero]
  exact ⟨ha, rfl, rfl⟩

/-- What a transfer to another account does to balances and cooldowns; the
sender's is cleared with the whole balance. -/
theorem transfer_credits (hlate : D.COOLDOWN_SECONDS + D.UNSTAKE_WINDOW < m.timestamp) (hne : src ≠ u)
    (h : transfer D m v src u amount s = .ok s') :
    let e := effectiveCooldown D m.timestamp (s.stakersCooldowns src)
    amount ≤ s.balances src ∧ s'.balances = Ledger.credit (Ledger.debit s.balances src amount) u amount ∧
      (s.stakersCooldowns u ≠ 0 → ¬ Expired D m.timestamp (s.stakersCooldowns u) → s.stakersCooldowns u ≤ e →
        0 < amount + s.balances u) ∧
      s'.stakersCooldowns src = (if s.balances src = amount then 0 else s.stakersCooldowns src) ∧
      s'.stakersCooldowns u = creditedCooldown D m.timestamp e amount (s.balances u) (s.stakersCooldowns u) ∧
      ∀ a, a ≠ src → a ≠ u → s'.stakersCooldowns a = s.stakersCooldowns a := by
  intro e
  obtain ⟨-, -, ha, -, r, assets, r', assets', c, p, w, -, -, -, -, hc, -, -, rfl⟩ := (transfer_ok_iff hne).1 h
  obtain ⟨rfl, hpos⟩ := getNextCooldownTimestamp_ok hlate hc
  refine ⟨ha, rfl, hpos, ?_, ?_, fun a has hau => ?_⟩
  · show transferredCooldowns src u amount _ s src = _
    unfold transferredCooldowns
    by_cases hwhole : s.balances src = amount
    · by_cases hzero : s.stakersCooldowns src = 0 <;> simp [hwhole, hzero, hne]
    · simp [hwhole, hne]
  · show transferredCooldowns src u amount _ s u = _
    unfold transferredCooldowns
    split <;> simp [Ne.symm hne, e]
  · show transferredCooldowns src u amount _ s a = _
    unfold transferredCooldowns
    split <;> simp [has, hau]

end

/-- **Tokens credited keep to the documented rule.** In every state reached,
past the cooldown and the window: whoever a stake or a transfer credits has
stored next what the rule says, a stake's tokens counting as if their
cooldown began now; the sender's own timestamp stays, or goes with the whole
balance; and expired is what `redeem` calls it, if the hook does not revert
for the same reason. -/
theorem cooldown_credited {g : Address} {w : W} {l : List Tx} {T : Nat}
    (htimes : l.Pairwise fun x y => x.msg.timestamp ≤ y.msg.timestamp) (hl : ∀ x ∈ l, x.msg.timestamp ≤ T)
    (hlate : D.COOLDOWN_SECONDS + D.UNSTAKE_WINDOW < T) (hT : T < 2 ^ 256) :
    let s := run D (.fresh g w) l
    (∀ x u amount s', x.msg.timestamp = T → x.call = .stake u amount → exec D x s = .ok s' →
      CreditRule D T T amount (s.balances u) (s.stakersCooldowns u) (s'.stakersCooldowns u)) ∧
    (∀ x src u amount s', x.msg.timestamp = T → src ≠ u →
      (x.call = .transfer u amount ∧ src = x.msg.sender ∨ x.call = .transferFrom src u amount) →
      exec D x s = .ok s' →
      CreditRule D T (effectiveCooldown D T (s.stakersCooldowns src)) amount (s.balances u) (s.stakersCooldowns u)
          (s'.stakersCooldowns u) ∧
        s'.stakersCooldowns src = if s.balances src = amount then 0 else s.stakersCooldowns src) ∧
    ((∀ governance src dst amount w, D.ext.onTransfer governance src dst amount w ≠ .error "UNSTAKE_WINDOW_FINISHED") →
      ∀ m v dst amount, m.timestamp = T → amount ≠ 0 →
        (redeem D m v dst amount s = .error "UNSTAKE_WINDOW_FINISHED" ↔ Expired D T (s.stakersCooldowns m.sender))) := by
  intro s
  have hnow : ∀ a, s.stakersCooldowns a ≤ T := stakersCooldowns_le htimes hl
  refine ⟨fun x u amount s' hx hcall hs => ?_, fun x src u amount s' hx hne hcall hs => ?_,
    fun hhook m v dst amount hm hamount => ?_⟩
  · subst hx
    have hstake : stake D x.msg x.version u amount s = .ok s' := by rw [exec, hcall] at hs; exact hs
    obtain ⟨ha, -, hcd⟩ := stake_credits hlate hstake
    rw [hcd, Function.update_self]
    exact .of_credited (hnow u) (le_refl _) fun _ _ _ => by omega
  · subst hx
    obtain ⟨s₁, htransfer, hs'⟩ : ∃ s₁, transfer D x.msg x.version src u amount s = .ok s₁ ∧
        s'.stakersCooldowns = s₁.stakersCooldowns := by
      rcases hcall with ⟨hcall, rfl⟩ | hcall
      · rw [exec, hcall] at hs
        exact ⟨s', hs, rfl⟩
      · rw [exec, hcall] at hs
        obtain ⟨s₁, hs₁, -, -, rfl⟩ := transferFrom_ok_iff.1 hs
        exact ⟨s₁, hs₁, rfl⟩
    obtain ⟨-, -, hpos, hsender, hrecipient, -⟩ := transfer_credits hlate hne htransfer
    rw [hs', hrecipient]
    exact ⟨.of_credited (hnow u) (effectiveCooldown_le (hnow src)) hpos, hsender⟩
  · subst hm
    exact redeem_finished_iff hhook hT hamount

/-- A stake and a cooldown. -/
def cooledRun : List Tx :=
  [⟨.v2, ⟨.ofNat 10, 1, 200, sampleHolder_ne⟩, .stake (.ofNat 10) 7⟩,
    ⟨.v2, ⟨.ofNat 10, 2, 210, sampleHolder_ne⟩, .cooldown⟩]

/-- Another's stake within the window, and a transfer after it. -/
theorem cooldown_credited_sample :
    let s := run .sample (.fresh 0 ()) cooledRun
    (∃ s', exec .sample ⟨.v2, ⟨.ofNat 11, 3, 300, sampleOther_ne⟩, .stake (.ofNat 10) 7⟩ s = .ok s' ∧
      CreditRule .sample 300 300 7 7 210 (s'.stakersCooldowns (.ofNat 10))) ∧
    (redeem .sample ⟨.ofNat 10, 3, 361, sampleHolder_ne⟩ .v2 (.ofNat 10) 7 s = .error "UNSTAKE_WINDOW_FINISHED" ↔
      Expired .sample 361 210) := by
  intro s
  have hl : cooledRun.Pairwise fun x y => x.msg.timestamp ≤ y.msg.timestamp := by decide
  constructor
  · obtain ⟨s', hs⟩ := Outcome.exists_ok
      (x := exec .sample ⟨.v2, ⟨.ofNat 11, 3, 300, sampleOther_ne⟩, .stake (.ofNat 10) 7⟩ s) (by decide +kernel)
    exact ⟨s', hs, (cooldown_credited (D := .sample) (g := 0) (w := ()) (T := 300) hl (by decide) (by decide)
      (by decide)).1 _ (.ofNat 10) 7 s' rfl rfl hs⟩
  · exact (cooldown_credited (D := .sample) (g := 0) (w := ()) (T := 361) hl (by decide) (by decide) (by decide)).2.2
      nofun ⟨.ofNat 10, 3, 361, sampleHolder_ne⟩ .v2 (.ofNat 10) 7 rfl (by decide)

/-! ## A stake in parts -/

/-- Stakes on behalf of `u`, one after the other, each by whoever sends it. -/
def stakesOf (u : Address) (parts : List (Version × Msg × Nat)) : List Tx :=
  parts.map fun part => ⟨part.1, part.2.1, .stake u part.2.2⟩

/-- While the cooldown is set and valid, each part moves it to a mean. -/
theorem absorbed_of_stakes {u : Address} {T : Nat} (hlate : D.COOLDOWN_SECONDS + D.UNSTAKE_WINDOW < T)
    {parts : List (Version × Msg × Nat)} (hparts : ∀ part ∈ parts, part.2.1.timestamp = T) {s s' : State W}
    (hset : s.stakersCooldowns u ≠ 0) (hvalid : ¬ Expired D T (s.stakersCooldowns u)) (hnow : s.stakersCooldowns u ≤ T)
    (h : Runs.transact (exec D) s (stakesOf u parts) = .ok s') :
    (s'.balances u, s'.stakersCooldowns u) =
        absorbed T (s.balances u, s.stakersCooldowns u) (parts.map fun part => part.2.2) ∧
      ∀ a ∈ parts.map fun part => part.2.2, 0 < a := by
  induction parts generalizing s with
  | nil =>
    cases h
    exact ⟨rfl, nofun⟩
  | cons part parts ih =>
    obtain ⟨v, m, a⟩ := part
    obtain rfl : m.timestamp = T := hparts _ List.mem_cons_self
    obtain ⟨s₁, hs, hrest⟩ := Runs.transact_cons_ok_iff.1 h
    obtain ⟨ha, hbalances, hcooldowns⟩ := stake_credits hlate (show stake D m v u a s = .ok s₁ from hs)
    have hbalance : s₁.balances u = a + s.balances u := by rw [hbalances, Ledger.credit_self, Nat.add_comm]
    have hcooldown : s₁.stakersCooldowns u = mean a m.timestamp (s.balances u) (s.stakersCooldowns u) := by
      rw [hcooldowns, Function.update_self, creditedCooldown_of_le hset hvalid hnow]
    have hle : s.stakersCooldowns u ≤ s₁.stakersCooldowns u := by
      rw [hcooldown]; exact Mean.le_mean (by omega) hnow
    have hle' : s₁.stakersCooldowns u ≤ m.timestamp := by rw [hcooldown]; exact Mean.mean_le (le_refl _) hnow
    have hvalid' : ¬ Expired D m.timestamp (s₁.stakersCooldowns u) := by
      unfold Expired at hvalid ⊢
      omega
    obtain ⟨heq, hpos⟩ := ih (fun part hpart => hparts part (List.mem_cons_of_mem _ hpart)) (by omega) hvalid' hle' hrest
    rw [heq, hbalance, hcooldown]
    exact ⟨rfl, List.forall_mem_cons.2 ⟨Nat.pos_of_ne_zero ha, hpos⟩⟩

/-- **Splitting a stake hardly changes the cooldown.** In every state
reached, for an account whose cooldown is set and has not expired: stakes
on its behalf, all at one time, leave a timestamp at most the one a single
stake of their sum leaves, and less than that by fewer than there are
stakes. -/
theorem split_stake {g : Address} {w : W} {l : List Tx} {T : Nat}
    (htimes : l.Pairwise fun x y => x.msg.timestamp ≤ y.msg.timestamp) (hl : ∀ x ∈ l, x.msg.timestamp ≤ T)
    (hlate : D.COOLDOWN_SECONDS + D.UNSTAKE_WINDOW < T) {u : Address}
    (hset : (run D (.fresh g w) l).stakersCooldowns u ≠ 0)
    (hvalid : ¬ Expired D T ((run D (.fresh g w) l).stakersCooldowns u)) {parts : List (Version × Msg × Nat)}
    (hne : parts ≠ []) (hparts : ∀ part ∈ parts, part.2.1.timestamp = T) {s₁ s₂ : State W} {v : Version} {m : Msg}
    (hm : m.timestamp = T)
    (hwhole : exec D ⟨v, m, .stake u (parts.map fun part => part.2.2).sum⟩ (run D (.fresh g w) l) = .ok s₁)
    (hsplit : Runs.transact (exec D) (run D (.fresh g w) l) (stakesOf u parts) = .ok s₂) :
    s₂.stakersCooldowns u ≤ s₁.stakersCooldowns u ∧
      s₁.stakersCooldowns u ≤ s₂.stakersCooldowns u + (parts.length - 1) := by
  subst hm
  have hnow := stakersCooldowns_le (D := D) (g := g) (w := w) htimes hl u
  generalize run D (.fresh g w) l = s at hset hvalid hnow hwhole hsplit
  obtain ⟨heq, hpos⟩ := absorbed_of_stakes hlate hparts hset hvalid hnow hsplit
  obtain ⟨hsum, -, hcooldowns⟩ := stake_credits hlate (show stake D m v u _ s = .ok s₁ from hwhole)
  have hcooldown : s₂.stakersCooldowns u = (absorbed m.timestamp (s.balances u, s.stakersCooldowns u) _).2 :=
    congrArg Prod.snd heq
  rw [hcooldowns, Function.update_self, creditedCooldown_of_le hset hvalid hnow, hcooldown]
  have hlower := Mean.mean_le_absorbed (x := m.timestamp) (b := s.balances u) (y := s.stakersCooldowns u)
    (by simpa using hne) hpos
  rw [List.length_map] at hlower
  exact ⟨Mean.absorbed_le_mean (by omega), hlower⟩

/-- Three parts of a stake of ten leave what the whole does, but two. -/
theorem split_stake_three :
    let s := run .sample (.fresh 0 ()) cooledRun
    let parts : List (Version × Msg × Nat) := [(.v2, ⟨.ofNat 10, 3, 300, sampleHolder_ne⟩, 1),
      (.v2, ⟨.ofNat 11, 3, 300, sampleOther_ne⟩, 3), (.v2, ⟨.ofNat 10, 3, 300, sampleHolder_ne⟩, 6)]
    ∃ s₁ s₂, exec .sample ⟨.v2, ⟨.ofNat 10, 3, 300, sampleHolder_ne⟩, .stake (.ofNat 10) 10⟩ s = .ok s₁ ∧
      Runs.transact (exec .sample) s (stakesOf (.ofNat 10) parts) = .ok s₂ ∧
      s₂.stakersCooldowns (.ofNat 10) ≤ s₁.stakersCooldowns (.ofNat 10) ∧
      s₁.stakersCooldowns (.ofNat 10) ≤ s₂.stakersCooldowns (.ofNat 10) + 2 := by
  intro s parts
  obtain ⟨s₁, hs₁⟩ := Outcome.exists_ok
    (x := exec .sample ⟨.v2, ⟨.ofNat 10, 3, 300, sampleHolder_ne⟩, .stake (.ofNat 10) 10⟩ s) (by decide +kernel)
  obtain ⟨s₂, hs₂⟩ := Outcome.exists_ok (x := Runs.transact (exec .sample) s (stakesOf (.ofNat 10) parts))
    (by decide +kernel)
  exact ⟨s₁, s₂, hs₁, hs₂, split_stake (D := .sample) (g := 0) (w := ()) (l := cooledRun) (T := 300)
    (by decide) (by decide) (by decide) (by decide +kernel) (by decide +kernel) (show parts ≠ [] by simp [parts])
    (by simp [parts]) rfl hs₁ hs₂⟩

end StarlayStake
