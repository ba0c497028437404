/-
The division in `getNextCooldownTimestamp`. It divides by what the recipient
receives and holds together, both of which may be nothing: transfers of 0 are
not refused. But a cooldown that is set has tokens behind it
(`stored_backed`), and an account without one never gets as far as the
weighted average (`Averages`), so the divisor is never zero.
-/
import StarlayStake.CooldownCredit

namespace StarlayStake

open Outcome (Never)
open StakedToken

variable {W : Type} {D : Deployment W}

/-! ## The weighted average -/

/-- `getNextCooldownTimestamp` gets as far as its weighted average, from the
cooldowns of the two accounts. -/
def Averages (D : Deployment W) (timestamp fromCooldownTimestamp toCooldownTimestamp : Nat) : Prop :=
  toCooldownTimestamp ≠ 0 ∧ D.COOLDOWN_SECONDS + D.UNSTAKE_WINDOW ≤ timestamp ∧
    ¬ timestamp - D.COOLDOWN_SECONDS - D.UNSTAKE_WINDOW > toCooldownTimestamp ∧
    ¬ (if timestamp - D.COOLDOWN_SECONDS - D.UNSTAKE_WINDOW > fromCooldownTimestamp then timestamp
      else fromCooldownTimestamp) < toCooldownTimestamp

instance (T e c : Nat) : Decidable (Averages D T e c) := inferInstanceAs (Decidable (_ ∧ _))

section

variable {m : Msg} {s : State W} {dst : Address} {amount balance e : Nat}

/-- Where it gets there, it divides by the two weights. -/
theorem getNextCooldownTimestamp_averages (h : Averages D m.timestamp e (s.stakersCooldowns dst)) :
    getNextCooldownTimestamp D m e amount dst balance s = (do
      let weight ← SafeMath.add amount balance
      let held ← SafeMath.mul balance (s.stakersCooldowns dst)
      let received ← SafeMath.mul amount
        (if m.timestamp - D.COOLDOWN_SECONDS - D.UNSTAKE_WINDOW > e then m.timestamp else e)
      let weighted ← SafeMath.add received held
      SafeMath.div weighted weight) := by
  obtain ⟨hne, hlate, hvalid, hle⟩ := h
  have hcooldown : D.COOLDOWN_SECONDS ≤ m.timestamp := by omega
  have hwindow : D.UNSTAKE_WINDOW ≤ m.timestamp - D.COOLDOWN_SECONDS := by omega
  simp only [getNextCooldownTimestamp, hne, if_false, SafeMath.sub_of hcooldown, SafeMath.sub_of hwindow,
    Outcome.ok_bind, hvalid, hle]

/-- Where it does not, the weights do not matter, and it does not divide. -/
theorem getNextCooldownTimestamp_of_not_averages (h : ¬ Averages D m.timestamp e (s.stakersCooldowns dst)) :
    ∃ r, Never "SafeMath: division by zero" r ∧
      ∀ amount balance, getNextCooldownTimestamp D m e amount dst balance s = r := by
  simp only [getNextCooldownTimestamp]
  by_cases hne : s.stakersCooldowns dst = 0
  · exact ⟨.ok 0, .ok, fun _ _ => if_pos hne⟩
  simp only [hne, if_false]
  by_cases hcooldown : D.COOLDOWN_SECONDS ≤ m.timestamp
  · by_cases hwindow : D.UNSTAKE_WINDOW ≤ m.timestamp - D.COOLDOWN_SECONDS
    · simp only [SafeMath.sub_of hcooldown, SafeMath.sub_of hwindow, Outcome.ok_bind]
      by_cases hvalid : m.timestamp - D.COOLDOWN_SECONDS - D.UNSTAKE_WINDOW > s.stakersCooldowns dst
      · exact ⟨.ok 0, .ok, fun _ _ => if_pos hvalid⟩
      · have hlt := Decidable.not_not.1 fun hle => h ⟨hne, by omega, hvalid, hle⟩
        exact ⟨.ok (s.stakersCooldowns dst), .ok, fun _ _ => (if_neg hvalid).trans (if_pos hlt)⟩
    · have hsub : SafeMath.sub (m.timestamp - D.COOLDOWN_SECONDS) D.UNSTAKE_WINDOW = .error _ := if_neg hwindow
      simp only [SafeMath.sub_of hcooldown, Outcome.ok_bind, hsub]
      exact ⟨_, .error (by decide), fun _ _ => rfl⟩
  · have hsub : SafeMath.sub m.timestamp D.COOLDOWN_SECONDS = .error _ := if_neg hcooldown
    simp only [hsub]
    exact ⟨_, .error (by decide), fun _ _ => rfl⟩

/-- With weight behind the average there is no division by zero. -/
theorem getNextCooldownTimestamp_never
    (h : Averages D m.timestamp e (s.stakersCooldowns dst) → amount + balance ≠ 0) :
    Never "SafeMath: division by zero" (getNextCooldownTimestamp D m e amount dst balance s) := by
  by_cases haverages : Averages D m.timestamp e (s.stakersCooldowns dst)
  · have hweight : 0 < amount + balance := Nat.pos_of_ne_zero (h haverages)
    rw [getNextCooldownTimestamp_averages haverages]
    refine .bind_of (SafeMath.guard_never (by decide)) fun weight hw => ?_
    obtain ⟨-, rfl⟩ := SafeMath.add_ok_iff.1 hw
    simp only [SafeMath.div_of hweight]
    exact .bind (SafeMath.guard_never (by decide)) fun _ => .bind (SafeMath.guard_never (by decide)) fun _ =>
      .bind (SafeMath.guard_never (by decide)) fun _ => .ok
  · obtain ⟨r, hr, heq⟩ := getNextCooldownTimestamp_of_not_averages haverages
    rw [heq]
    exact hr

end

/-! ## Who receives -/

/-- How a call asks `getNextCooldownTimestamp` for the recipient's cooldown. -/
structure Receipt where
  fromCooldownTimestamp : Nat
  amountToReceive : Nat
  toAddress : Address
  toBalance : Nat

/-- A transfer asks, unless it is to the sender. -/
def Receipt.ofTransfer (src dst : Address) (amount : Nat) (s : State W) : Option Receipt :=
  if src = dst then none else some ⟨s.stakersCooldowns src, amount, dst, s.balances dst⟩

/-- What a call that finds `s` asks, if it asks. -/
def Tx.receipt (x : Tx) (s : State W) : Option Receipt :=
  match x.call with
  | .stake onBehalfOf amount => some ⟨0, amount, onBehalfOf, s.balances onBehalfOf⟩
  | .transfer recipient amount => Receipt.ofTransfer x.msg.sender recipient amount s
  | .transferFrom sender recipient amount => Receipt.ofTransfer sender recipient amount s
  | _ => none

/-- The answer to what a call asks in `s`. -/
def Receipt.answer (D : Deployment W) (m : Msg) (c : Receipt) (s : State W) : Except String Nat :=
  getNextCooldownTimestamp D m c.fromCooldownTimestamp c.amountToReceive c.toAddress c.toBalance s

section

variable {x : Tx} {c : Receipt} {s s' : State W} {src dst : Address} {amount : Nat} {v : Version} {m : Msg}

theorem ofTransfer_eq_some : Receipt.ofTransfer src dst amount s = some c ↔
    src ≠ dst ∧ c = ⟨s.stakersCooldowns src, amount, dst, s.balances dst⟩ := by
  unfold Receipt.ofTransfer
  by_cases h : src = dst <;> simp [h, eq_comm]

theorem transfer_answer (hc : Receipt.ofTransfer src dst amount s = some c)
    (h : transfer D m v src dst amount s = .ok s') : ∃ r, c.answer D m s = .ok r := by
  obtain ⟨hne, rfl⟩ := ofTransfer_eq_some.1 hc
  obtain ⟨-, -, -, -, r, assets, r', assets', c, p, w, -, -, -, -, hc, -⟩ := (transfer_ok_iff hne).1 h
  exact ⟨c, hc⟩

/-- It asks with the recipient's balance. -/
theorem receipt_toBalance (hc : x.receipt s = some c) : c.toBalance = s.balances c.toAddress := by
  obtain ⟨v, m, call⟩ := x
  cases call with
  | stake onBehalfOf amount => obtain rfl := Option.some.inj hc; rfl
  | transfer recipient amount => obtain ⟨-, rfl⟩ := ofTransfer_eq_some.1 hc; rfl
  | transferFrom sender recipient amount => obtain ⟨-, rfl⟩ := ofTransfer_eq_some.1 hc; rfl
  | _ => cases hc

/-- A call does ask, and does not succeed without an answer. -/
theorem answer_of_exec (hc : x.receipt s = some c) (h : exec D x s = .ok s') : ∃ r, c.answer D x.msg s = .ok r := by
  obtain ⟨v, m, call⟩ := x
  cases call with
  | stake onBehalfOf amount =>
    obtain rfl := Option.some.inj hc
    obtain ⟨-, -, -, -, r, assets, c, p, w, w', -, -, hc, -⟩ := stake_ok_iff.1 h
    exact ⟨c, hc⟩
  | transfer recipient amount => exact transfer_answer hc h
  | transferFrom sender recipient amount =>
    obtain ⟨s₁, h₁, -⟩ := transferFrom_ok_iff.1 h
    exact transfer_answer hc h₁
  | _ => cases hc

end

/-! ## Runs -/

section

variable {g : Address} {w : W} {l : List Tx} {u : Address}

/-- A cooldown that is set was set by a holder, who holds since. -/
theorem stored_backed (htimes : l.Pairwise fun x y => x.msg.timestamp ≤ y.msg.timestamp)
    (h : (run D (.fresh g w) l).stakersCooldowns u ≠ 0) : (run D (.fresh g w) l).balances u ≠ 0 := by
  obtain ⟨p, c, q, hl, -, -, -, hheld, -⟩ := cooledDown htimes h
  rw [hl]
  exact hheld q (List.prefix_refl q)

end

/-- **A set cooldown has tokens behind it and never lies in the future.** After
any run of either version whose timestamps do not decrease, up to `n`, every
stored cooldown is at most `n`, and whoever has one holds tokens. So where a
stake or a transfer, also one of nothing, gets to the weighted average for
its recipient, the divisor is not zero; asking for the recipient's cooldown
never divides by zero; and such a call succeeds only with an answer. -/
theorem stakersCooldowns_backed {g : Address} {w : W} {l : List Tx} {n : Nat}
    (htimes : l.Pairwise fun x y => x.msg.timestamp ≤ y.msg.timestamp) (hl : ∀ x ∈ l, x.msg.timestamp ≤ n) :
    let s := run D (.fresh g w) l
    (∀ u, s.stakersCooldowns u ≤ n ∧ (s.stakersCooldowns u ≠ 0 → s.balances u ≠ 0)) ∧
      ∀ (x : Tx) (c : Receipt), x.receipt s = some c →
        (Averages D x.msg.timestamp c.fromCooldownTimestamp (s.stakersCooldowns c.toAddress) →
          c.amountToReceive + c.toBalance ≠ 0) ∧
        c.answer D x.msg s ≠ .error "SafeMath: division by zero" ∧
        ∀ s', exec D x s = .ok s' → ∃ r, c.answer D x.msg s = .ok r := by
  intro s
  refine ⟨fun u => ⟨stakersCooldowns_le htimes hl u, stored_backed htimes⟩, fun x c hc => ?_⟩
  have hweight : Averages D x.msg.timestamp c.fromCooldownTimestamp (s.stakersCooldowns c.toAddress) →
      c.amountToReceive + c.toBalance ≠ 0 := by
    intro haverages
    have hbacked : s.balances c.toAddress ≠ 0 := stored_backed htimes haverages.1
    rw [receipt_toBalance hc]
    omega
  exact ⟨hweight, getNextCooldownTimestamp_never hweight, fun s' hs' => answer_of_exec hc hs'⟩

/-- A holder with a cooldown is sent nothing by one who gave everything away. -/
theorem stakersCooldowns_backed_nothing :
    let l : List Tx := [⟨.v2, ⟨.ofNat 10, 1, 200, sampleHolder_ne⟩, .stake (.ofNat 10) 7⟩,
      ⟨.v2, ⟨.ofNat 11, 1, 200, sampleOther_ne⟩, .stake (.ofNat 11) 5⟩,
      ⟨.v2, ⟨.ofNat 10, 2, 210, sampleHolder_ne⟩, .cooldown⟩, ⟨.v2, ⟨.ofNat 11, 2, 220, sampleOther_ne⟩, .cooldown⟩,
      ⟨.v2, ⟨.ofNat 11, 3, 230, sampleOther_ne⟩, .transfer (.ofNat 10) 5⟩]
    let s := run .sample (.fresh 0 ()) l
    let x : Tx := ⟨.v2, ⟨.ofNat 11, 4, 240, sampleOther_ne⟩, .transfer (.ofNat 10) 0⟩
    s.stakersCooldowns (.ofNat 11) = 0 ∧ s.stakersCooldowns (.ofNat 10) ≤ 230 ∧ s.balances (.ofNat 10) ≠ 0 ∧
      ∃ c, x.receipt s = some c ∧ c.amountToReceive = 0 ∧ c.amountToReceive + c.toBalance ≠ 0 := by
  intro l s x
  have h := stakersCooldowns_backed (D := .sample) (g := 0) (w := ()) (l := l) (n := 230) (by simp [l]) (by simp [l])
  have hstored : s.stakersCooldowns (.ofNat 10) ≠ 0 := by decide +kernel
  refine ⟨by decide +kernel, (h.1 _).1, (h.1 _).2 hstored, _, rfl, rfl, (h.2 x _ rfl).1 ?_⟩
  decide +kernel

end StarlayStake
