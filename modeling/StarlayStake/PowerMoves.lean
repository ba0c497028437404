/-
What moving power does to the power recorded for each account, and the
invariant behind it (`PowerExact`): the last snapshot of an account holds
what its delegators hold together, and an account without a snapshot stands
for itself alone, so that its balance, which the contract falls back to, is
that same sum.

The invariant is about one type of power. It is kept by the moves before a
mint, a burn or a transfer (`PowerExact.movePower`) and by a delegation
(`PowerExact.delegatePower`), while the sums fit the `uint128` they are
stored in.
-/
import StarlayStake.Effects
import StarlayStake.Lib.Checkpoints

namespace StarlayStake

open Checkpoints (History)
open Ledger (credit debit share total)

/-- Who stands for whom. -/
def DelegationData.delegatee (data : DelegationData) (delegator : Address) : Address :=
  getDelegatee delegator data.delegates

/-- The value of the last snapshot of an account, if it has one. -/
def DelegationData.recorded (data : DelegationData) (a : Address) : Option Nat :=
  if data.snapshotsCounts a = 0 then none else some (data.snapshots a (data.snapshotsCounts a - 1)).value

variable {v : Version} {number amount : Nat} {balances : Address → Nat} {data data' : DelegationData}
  {src dst a : Address}

theorem getDelegatee_ne {d : Address} {f : Address → Address} (hd : d ≠ 0) : getDelegatee d f ≠ 0 := by
  simp only [getDelegatee]
  split
  · exact hd
  · next h => exact h

theorem getDelegatee_zero {f : Address → Address} (hf : f 0 = 0) : getDelegatee 0 f = 0 := by
  simp [getDelegatee, hf]

/-- Setting a delegatee changes who stands for the delegator, and nobody else. -/
theorem getDelegatee_update {f : Address → Address} {u y : Address} (hy : y ≠ 0) :
    (fun d => getDelegatee d (Function.update f u y)) = Function.update (fun d => getDelegatee d f) u y := by
  funext d
  by_cases hd : d = u
  · subst hd; simp [getDelegatee, hy]
  · simp [getDelegatee, hd]

theorem lastPower_eq (balances : Address → Nat) (data : DelegationData) (a : Address) :
    lastPower balances data a = (data.recorded a).getD (balances a) := by
  simp only [lastPower, DelegationData.recorded]
  split <;> simp_all

/-- The snapshots of an account. -/
def DelegationData.history (data : DelegationData) (a : Address) : History Snapshot :=
  ⟨data.snapshots a, data.snapshotsCounts a⟩

theorem DelegationData.recorded_eq (data : DelegationData) (a : Address) :
    data.recorded a = (data.history a).last.map Snapshot.value := by
  by_cases hc : data.snapshotsCounts a = 0 <;> simp [recorded, history, History.last, hc]

/-! ## Writing a snapshot -/

theorem writeSnapshot_delegates {x y : Nat} :
    (writeSnapshot number a x y data).delegates = data.delegates := by
  simp only [writeSnapshot]
  split <;> rfl

/-- A snapshot is written in the block's place in the account's history. -/
theorem writeSnapshot_history {x y : Nat} (b : Address) :
    (writeSnapshot number a x y data).history b =
      if b = a then (data.history a).write Snapshot.blockNumber ⟨uint128 number, y⟩ else data.history b := by
  by_cases hb : b = a
  · subst hb
    by_cases h : data.snapshotsCounts b ≠ 0 ∧
        (data.snapshots b (data.snapshotsCounts b - 1)).blockNumber = uint128 number
    · simp [writeSnapshot, DelegationData.history, History.write, h.1, h.2]
    · simp only [writeSnapshot, DelegationData.history, History.write, h, if_true, if_false, Function.update_self]
  · rw [if_neg hb]
    simp only [writeSnapshot, DelegationData.history]
    split <;> simp [hb]

/-- A snapshot written, whether it overwrites the last one or is appended,
is the last one. -/
theorem writeSnapshot_recorded {x y : Nat} :
    (writeSnapshot number a x y data).recorded = Function.update data.recorded a (some y) := by
  funext b
  rw [DelegationData.recorded_eq, writeSnapshot_history]
  by_cases hb : b = a
  · subst hb
    rw [if_pos rfl, History.last_write, Function.update_self]
    rfl
  · rw [if_neg hb, Function.update_of_ne hb, DelegationData.recorded_eq]

/-! ## Moving power -/

/-- A snapshot for one end of a move, none if it is the zero address. -/
def writePower (number : Nat) (owner : Address) (oldValue newValue : Nat) (data : DelegationData) :
    DelegationData :=
  if owner = 0 then data else writeSnapshot number owner (uint128 oldValue) (uint128 newValue) data

theorem writePower_delegates {x y : Nat} : (writePower number a x y data).delegates = data.delegates := by
  unfold writePower
  split
  · rfl
  · exact writeSnapshot_delegates

theorem writePower_recorded {x y : Nat} :
    (writePower number a x y data).recorded =
      if a = 0 then data.recorded else Function.update data.recorded a (some (uint128 y)) := by
  unfold writePower
  split
  · rfl
  · exact writeSnapshot_recorded

/-- The end of a move that gives power, which last was `p`. -/
theorem giver_ok_iff {p : Nat} :
    (if src ≠ 0 then do
        let newValue ← SafeMath.sub p amount
        return writeSnapshot number src (uint128 p) (uint128 newValue) data
      else .ok data : Except String DelegationData) = .ok data' ↔
      (src ≠ 0 → amount ≤ p) ∧ data' = writePower number src p (p - amount) data := by
  by_cases hs : src = 0
  · simp [hs, writePower, eq_comm]
  · simp only [ne_eq, hs, not_false_eq_true, if_true, if_false, writePower, Outcome.bind_ok_iff, Outcome.pure_ok_iff,
      SafeMath.sub_ok_iff, true_implies]
    constructor
    · rintro ⟨_, ⟨h, rfl⟩, rfl⟩; exact ⟨h, rfl⟩
    · rintro ⟨h, rfl⟩; exact ⟨_, ⟨h, rfl⟩, rfl⟩

/-- The end of a move that takes power, which last was `p`. -/
theorem taker_ok_iff {p : Nat} :
    (if dst ≠ 0 then do
        let newValue ← SafeMath.add p amount
        return writeSnapshot number dst (uint128 p) (uint128 newValue) data
      else .ok data : Except String DelegationData) = .ok data' ↔
      (dst ≠ 0 → p + amount < 2 ^ 256) ∧ data' = writePower number dst p (p + amount) data := by
  by_cases hd : dst = 0
  · simp [hd, writePower, eq_comm]
  · simp only [ne_eq, hd, not_false_eq_true, if_true, if_false, writePower, Outcome.bind_ok_iff, Outcome.pure_ok_iff,
      SafeMath.add_ok_iff, true_implies]
    constructor
    · rintro ⟨_, ⟨h, rfl⟩, rfl⟩; exact ⟨h, rfl⟩
    · rintro ⟨h, rfl⟩; exact ⟨_, ⟨h, rfl⟩, rfl⟩

/-- The power data after a move from `src`, whose power last was `p`, to
`dst`, whose power last was `q`. -/
def movedPower (number : Nat) (src dst : Address) (p q amount : Nat) (data : DelegationData) : DelegationData :=
  writePower number dst q (q + amount) (writePower number src p (p - amount) data)

theorem movedPower_delegates {p q : Nat} : (movedPower number src dst p q amount data).delegates = data.delegates := by
  rw [movedPower, writePower_delegates, writePower_delegates]

/-- What `moveDelegates` does, when it does not revert: nothing between an
account and itself, and else a snapshot at both ends. -/
theorem moveDelegates_ok_iff :
    moveDelegates number balances src dst amount data = .ok data' ↔
      if src = dst then data' = data
      else (src ≠ 0 → amount ≤ lastPower balances data src) ∧
        (dst ≠ 0 → lastPower balances data dst + amount < 2 ^ 256) ∧
        data' = movedPower number src dst (lastPower balances data src) (lastPower balances data dst) amount data := by
  unfold moveDelegates
  by_cases heq : src = dst
  · simp [heq, eq_comm]
  · have hdst : ∀ x y, lastPower balances (writePower number src x y data) dst = lastPower balances data dst := by
      intro x y
      rw [lastPower_eq, lastPower_eq, writePower_recorded]
      split
      · rfl
      · rw [Function.update_of_ne (Ne.symm heq)]
    simp only [heq, if_false, Outcome.bind_ok_iff, giver_ok_iff, taker_ok_iff]
    constructor
    · rintro ⟨_, ⟨hs, rfl⟩, hd, rfl⟩
      rw [hdst] at hd ⊢
      exact ⟨hs, hd, rfl⟩
    · rintro ⟨hs, hd, rfl⟩
      refine ⟨_, ⟨hs, rfl⟩, ?_⟩
      rw [hdst]
      exact ⟨hd, rfl⟩

theorem moveDelegates_delegates (h : moveDelegates number balances src dst amount data = .ok data') :
    data'.delegates = data.delegates := by
  rw [moveDelegates_ok_iff] at h
  split at h
  · rw [h]
  · rw [h.2.2, movedPower_delegates]

theorem delegatePower_delegates {u y : Address} (h : delegatePower number balances u y data = .ok data') :
    data'.delegates = Function.update data.delegates u y := moveDelegates_delegates h

/-- The histories after a move: written to at its two ends, if they differ. -/
theorem moveDelegates_history (h : moveDelegates number balances src dst amount data = .ok data') (a : Address) :
    data'.history a =
      if src ≠ dst ∧ a ≠ 0 ∧ (a = src ∨ a = dst) then
        (data.history a).write Snapshot.blockNumber ⟨uint128 number,
          uint128 (if dst = a then lastPower balances data dst + amount else lastPower balances data src - amount)⟩
      else data.history a := by
  have hwrite : ∀ (data : DelegationData) b x y, (writePower number b x y data).history a =
      if b = a ∧ a ≠ 0 then (data.history a).write Snapshot.blockNumber ⟨uint128 number, uint128 y⟩
      else data.history a := by
    intro data b x y
    by_cases hb : b = 0
    · rw [writePower, if_pos hb, if_neg fun h => h.2 (h.1.symm.trans hb)]
    · rw [writePower, if_neg hb, writeSnapshot_history]
      by_cases hba : a = b
      · subst hba
        simp [hb]
      · rw [if_neg hba, if_neg fun h => hba h.1.symm]
  rw [moveDelegates_ok_iff] at h
  split at h
  · next heq => rw [if_neg fun h => h.1 heq, h]
  · next hne =>
    rw [h.2.2]
    simp only [movedPower, hwrite]
    by_cases ha0 : a = 0
    · simp [ha0]
    · by_cases hda : dst = a
      · subst hda; simp [ha0, hne]
      · by_cases hsa : src = a
        · subst hsa; simp [ha0, hne, hda]
        · simp [hda, hsa, Ne.symm hda, Ne.symm hsa]

/-- The last snapshots after a move: new at its two ends, if they differ. -/
theorem moveDelegates_recorded (h : moveDelegates number balances src dst amount data = .ok data') (a : Address) :
    data'.recorded a =
      if src ≠ dst ∧ a ≠ 0 ∧ (a = src ∨ a = dst) then
        some (uint128 (if dst = a then lastPower balances data dst + amount else lastPower balances data src - amount))
      else data.recorded a := by
  rw [DelegationData.recorded_eq, moveDelegates_history h, DelegationData.recorded_eq]
  split
  · rw [History.last_write]; rfl
  · rfl

/-- What `moveBalances` of version 1 does, when it does not revert, between
two accounts: the snapshots hold what the accounts hold. -/
theorem moveBalances_ok_iff :
    moveBalances number balances src dst amount data = .ok data' ↔
      (src ≠ 0 → amount ≤ balances src) ∧ (dst ≠ 0 → balances dst + amount < 2 ^ 256) ∧
        data' = movedPower number src dst (balances src) (balances dst) amount data := by
  simp only [moveBalances, Outcome.bind_ok_iff, giver_ok_iff, taker_ok_iff]
  constructor
  · rintro ⟨_, ⟨hs, rfl⟩, hd, rfl⟩; exact ⟨hs, hd, rfl⟩
  · rintro ⟨hs, hd, rfl⟩; exact ⟨_, ⟨hs, rfl⟩, hd, rfl⟩

/-! ## Moves and shares -/

/-- From `f` to `f'` an amount went from `src` to `dst`; the zero address
is outside. -/
def Shifts (f f' : Address → Nat) (src dst : Address) (amount : Nat) : Prop :=
  ∀ y, f' y + (if src = y ∧ y ≠ 0 then amount else 0) = f y + (if dst = y ∧ y ≠ 0 then amount else 0)

/-- The balances after a move of tokens: a mint from the zero address, a
burn to it. -/
def movedBalances (balances : Address → Nat) (src dst : Address) (amount : Nat) : Address → Nat :=
  let debited := if src = 0 then balances else debit balances src amount
  if dst = 0 then debited else credit debited dst amount

theorem total_movedBalances (h : src ≠ 0 → amount ≤ balances src) :
    total (movedBalances balances src dst amount) + (if src = 0 then 0 else amount) =
      total balances + if dst = 0 then 0 else amount := by
  have hdebit : total (if src = 0 then balances else debit balances src amount) + (if src = 0 then 0 else amount) =
      total balances := by
    by_cases hs : src = 0
    · rw [if_pos hs, if_pos hs, Nat.add_zero]
    · rw [if_neg hs, if_neg hs, Ledger.total_debit (h hs)]
  simp only [movedBalances]
  by_cases hd : dst = 0
  · rw [if_pos hd, if_pos hd, hdebit, Nat.add_zero]
  · rw [if_neg hd, if_neg hd, Ledger.total_credit]
    omega

/-- Moved tokens shift the shares of those who stand for the two ends. -/
theorem share_movedBalances {rep : Address → Address} (hrep : ∀ d, rep d = 0 ↔ d = 0)
    (h : src ≠ 0 → amount ≤ balances src) :
    Shifts (share rep balances) (share rep (movedBalances balances src dst amount)) (rep src) (rep dst) amount := by
  intro y
  have hend : ∀ z, (if rep z = y ∧ y ≠ 0 then amount else 0) = if z = 0 then 0 else if rep z = y then amount else 0 := by
    intro z
    by_cases hz : z = 0
    · simp only [hz, (hrep 0).2 rfl, if_true, ite_eq_right_iff]
      exact fun h => absurd h.1.symm h.2
    · simp only [hz, if_false]
      by_cases hy : rep z = y
      · simp [hy, show y ≠ 0 from fun h0 => hz ((hrep z).1 (hy.trans h0))]
      · simp [hy]
  have hdebit : share rep (if src = 0 then balances else debit balances src amount) y +
      (if rep src = y ∧ y ≠ 0 then amount else 0) = share rep balances y := by
    rw [hend src]
    by_cases hs : src = 0
    · rw [if_pos hs, if_pos hs, Nat.add_zero]
    · rw [if_neg hs, if_neg hs, Ledger.share_debit rep (h hs) y]
  rw [hend dst]
  simp only [movedBalances]
  by_cases hd : dst = 0
  · rw [if_pos hd, if_pos hd, hdebit, Nat.add_zero]
  · rw [if_neg hd, if_neg hd, Ledger.share_credit]
    omega

/-! ## Accounts without a snapshot -/

/-- The zero address has no delegatee, and an account without a snapshot
stands for itself alone. -/
structure StandsAlone (data : DelegationData) : Prop where
  zero : data.delegates 0 = 0
  alone : ∀ a, data.recorded a = none → ∀ d, data.delegatee d = a ↔ d = a

namespace StandsAlone

variable {u y : Address}

/-- An account without a snapshot after a move had none before. -/
theorem recorded_none (hm : StarlayStake.moveDelegates number balances src dst amount data = .ok data')
    (hr : data'.recorded a = none) : data.recorded a = none := by
  rw [moveDelegates_recorded hm] at hr
  split at hr
  · cases hr
  · exact hr

theorem moveDelegates (h : StandsAlone data)
    (hm : StarlayStake.moveDelegates number balances src dst amount data = .ok data') : StandsAlone data' := by
  have hrep : data'.delegatee = data.delegatee := by
    funext d; rw [DelegationData.delegatee, moveDelegates_delegates hm]; rfl
  refine ⟨by rw [moveDelegates_delegates hm]; exact h.zero, fun a hr => ?_⟩
  rw [hrep]
  exact h.alone a (recorded_none hm hr)

theorem delegatee_delegatePower (hy : y ≠ 0)
    (hm : StarlayStake.delegatePower number balances u y data = .ok data') :
    data'.delegatee = Function.update data.delegatee u y := by
  rw [show data.delegatee = fun d => getDelegatee d data.delegates from rfl, ← getDelegatee_update hy]
  funext d; rw [DelegationData.delegatee, delegatePower_delegates hm]

theorem delegatePower (h : StandsAlone data) (hu : u ≠ 0) (hy : y ≠ 0)
    (hm : StarlayStake.delegatePower number balances u y data = .ok data') : StandsAlone data' := by
  refine ⟨?_, fun a hr d => ?_⟩
  · rw [delegatePower_delegates hm]
    exact (Function.update_of_ne (Ne.symm hu) ..).trans h.zero
  · rw [delegatee_delegatePower hy hm]
    have hnone : ({ data with delegates := Function.update data.delegates u y } : DelegationData).recorded a = none :=
      recorded_none hm hr
    have halone : ∀ d, data.delegatee d = a ↔ d = a := h.alone a hnone
    by_cases hd : d = u
    · subst hd
      rw [Function.update_self]
      by_cases heq : data.delegatee d = y
      · rw [← heq]; exact halone d
      · -- both the old and the new delegatee were written, so `a` is neither
        have hends : ¬ (a ≠ 0 ∧ (a = data.delegatee d ∨ a = y)) := fun hend => by
          have hr' := moveDelegates_recorded hm a
          rw [if_pos ⟨heq, hend⟩, hr] at hr'
          cases hr'
        constructor
        · rintro rfl
          exact absurd ⟨hy, .inr rfl⟩ hends
        · rintro rfl
          exact absurd ⟨hu, .inl ((halone d).2 rfl).symm⟩ hends
    · rw [Function.update_of_ne hd]
      exact halone d

theorem empty : StandsAlone .empty :=
  ⟨rfl, fun a _ d => by simp [DelegationData.delegatee, DelegationData.empty, getDelegatee]⟩

end StandsAlone

/-! ## The invariant -/

/-- Power data is exact for balances: the last snapshot of an account holds
the balances of those it stands for, and an account that has none stands
for itself alone. -/
structure PowerExact (balances : Address → Nat) (data : DelegationData) : Prop where
  zero : data.delegates 0 = 0
  exact : ∀ a x, data.recorded a = some x → x = share data.delegatee balances a
  alone : ∀ a, data.recorded a = none → ∀ d, data.delegatee d = a ↔ d = a

namespace PowerExact

theorem standsAlone (h : PowerExact balances data) : StandsAlone data := ⟨h.zero, h.alone⟩

theorem delegatee_eq_zero (h : PowerExact balances data) (d : Address) : data.delegatee d = 0 ↔ d = 0 := by
  constructor
  · intro hd
    by_contra hne
    exact getDelegatee_ne hne hd
  · rintro rfl
    exact getDelegatee_zero h.zero

/-- **Power is exact**: what the contract takes for the power of an account
is the sum of the balances of those it stands for. -/
theorem lastPower_eq_share (h : PowerExact balances data) (a : Address) :
    lastPower balances data a = share data.delegatee balances a := by
  rw [lastPower_eq]
  cases hr : data.recorded a with
  | some x => exact h.exact a x hr
  | none => exact (Ledger.share_alone (h.alone a hr) balances).symm

end PowerExact

/-- A move of power keeps exact records: they hold the sums after it, and
an account without one had none and keeps its sum. -/
theorem moveDelegates_exact {f f' : Address → Nat} (hf : ∀ a, lastPower balances data a = f a)
    (hexact : ∀ a x, data.recorded a = some x → x = f a) (hshift : Shifts f f' src dst amount)
    (hbound : ∀ a, f' a < 2 ^ 128) (h : moveDelegates number balances src dst amount data = .ok data') :
    (∀ a x, data'.recorded a = some x → x = f' a) ∧
      ∀ a, data'.recorded a = none → data.recorded a = none ∧ f' a = f a := by
  have hrecord : ∀ a, (data'.recorded a = data.recorded a ∧ f' a = f a) ∨ data'.recorded a = some (f' a) := by
    intro a
    have ha := hshift a
    rw [moveDelegates_recorded h]
    split
    · next hend =>
      obtain ⟨hne, ha0, hend⟩ := hend
      simp only [ha0, ne_eq, not_false_eq_true, and_true] at ha
      refine .inr (congrArg some ?_)
      rw [← uint128_of_lt (hbound a), hf, hf]
      by_cases hda : dst = a
      · have hsa : src ≠ a := fun hsa => hne (hsa.trans hda.symm)
        simp only [hda, hsa, if_true, if_false] at ha ⊢
        rw [← ha, Nat.add_zero]
      · have hsa : src = a := (hend.resolve_right (Ne.symm hda)).symm
        simp only [hda, hsa, if_true, if_false] at ha ⊢
        rw [show f a - amount = f' a by omega]
    · next hend =>
      refine .inl ⟨rfl, ?_⟩
      by_cases ha0 : a = 0
      · simpa [ha0] using ha
      · by_cases heq : src = dst
        · subst heq; omega
        · have hs : src ≠ a := fun hs => hend ⟨heq, ha0, .inl hs.symm⟩
          have hd : dst ≠ a := fun hd => hend ⟨heq, ha0, .inr hd.symm⟩
          simpa [hs, hd] using ha
  constructor
  · intro a x hx
    rcases hrecord a with ⟨hr, heq⟩ | hr
    · rw [heq]; exact hexact a x (hr ▸ hx)
    · rw [hr] at hx; exact (Option.some.inj hx).symm
  · intro a hx
    rcases hrecord a with ⟨hr, heq⟩ | hr
    · exact ⟨hr ▸ hx, heq⟩
    · rw [hr] at hx; cases hx

/-- An account without a snapshot after a move had none before, and those
it stands for hold what they held. -/
def UnrecordedKept (balances balances' : Address → Nat) (data data' : DelegationData) : Prop :=
  ∀ a, data'.recorded a = none →
    data.recorded a = none ∧ share data'.delegatee balances' a = share data.delegatee balances a

namespace PowerExact

variable {u y : Address}

/-- A move between the delegatees of two accounts keeps power exact for the
balances after the tokens moved. -/
theorem moveDelegates (h : PowerExact balances data) (hamount : src ≠ 0 → amount ≤ balances src)
    (hbound : total (movedBalances balances src dst amount) < 2 ^ 128)
    (hm : StarlayStake.moveDelegates number balances (data.delegatee src) (data.delegatee dst) amount data =
      .ok data') : PowerExact (movedBalances balances src dst amount) data' ∧
      UnrecordedKept balances (movedBalances balances src dst amount) data data' := by
  have hrep : data'.delegatee = data.delegatee := by
    funext d; rw [DelegationData.delegatee, moveDelegates_delegates hm]; rfl
  obtain ⟨hexact, hkept⟩ := moveDelegates_exact h.lastPower_eq_share h.exact
    (share_movedBalances h.delegatee_eq_zero hamount) (fun a => lt_of_le_of_lt (Ledger.share_le_total ..) hbound) hm
  have halone : StandsAlone data' := h.standsAlone.moveDelegates hm
  rw [UnrecordedKept, hrep]
  exact ⟨⟨halone.zero, by rw [hrep]; exact hexact, halone.alone⟩, hkept⟩

/-- A delegation keeps power exact. -/
theorem delegatePower (h : PowerExact balances data) (hu : u ≠ 0) (hy : y ≠ 0) (hbound : total balances < 2 ^ 128)
    (hm : StarlayStake.delegatePower number balances u y data = .ok data') :
    PowerExact balances data' ∧ UnrecordedKept balances balances data data' := by
  have hrep : data'.delegatee = Function.update data.delegatee u y := StandsAlone.delegatee_delegatePower hy hm
  have hne : data.delegatee u ≠ 0 := getDelegatee_ne hu
  have hshift : Shifts (share data.delegatee balances) (share (Function.update data.delegatee u y) balances)
      (data.delegatee u) y (balances u) := by
    intro a
    have hnonzero : ∀ z, z ≠ 0 → ((z = a ∧ a ≠ 0) ↔ z = a) := by
      intro z hz
      constructor
      · exact And.left
      · rintro rfl; exact ⟨rfl, hz⟩
    simp only [hnonzero _ hne, hnonzero _ hy]
    exact Ledger.share_update data.delegatee balances u y a
  have hlast : ∀ a, lastPower balances { data with delegates := Function.update data.delegates u y } a =
      share data.delegatee balances a := h.lastPower_eq_share
  obtain ⟨hexact, hkept⟩ := moveDelegates_exact hlast h.exact hshift
    (fun a => lt_of_le_of_lt (Ledger.share_le_total ..) hbound) hm
  have halone : StandsAlone data' := h.standsAlone.delegatePower hu hy hm
  rw [UnrecordedKept, hrep]
  exact ⟨⟨halone.zero, by rw [hrep]; exact hexact, halone.alone⟩, hkept⟩

/-! ## Version 1 -/

/-- Where nobody has a delegatee, the last power of everybody is their
balance. -/
theorem lastPower_undelegated (h : PowerExact balances data) (hself : ∀ d, getDelegatee d data.delegates = d)
    (a : Address) : lastPower balances data a = balances a := by
  rw [h.lastPower_eq_share]
  exact Ledger.share_alone (fun d => by rw [DelegationData.delegatee, hself]) balances

/-- Where nobody has a delegatee, version 1 moves power as version 2 does:
the snapshots it writes from the balances are the sums. -/
theorem movePower_v1_iff (h : PowerExact balances data) (hnone : data.delegates = fun _ => 0) :
    movePower .v1 number balances src dst amount .VOTING_POWER data = .ok data' ↔
      movePower .v2 number balances src dst amount .VOTING_POWER data = .ok data' := by
  have hself : ∀ d, getDelegatee d data.delegates = d := fun d => by simp [getDelegatee, hnone]
  simp only [movePower, hself, moveDelegates_ok_iff, h.lastPower_undelegated hself]
  by_cases heq : src = dst
  · simp only [heq, if_true, Except.ok.injEq, eq_comm]
  · simp only [heq, if_false, moveBalances_ok_iff]

/-- Before any snapshot and delegation, power is exact for any balances. -/
theorem empty (balances : Address → Nat) : PowerExact balances .empty :=
  { zero := rfl
    exact := fun a x hx => by simp [DelegationData.recorded, DelegationData.empty] at hx
    alone := StandsAlone.empty.alone }

end PowerExact

end StarlayStake
