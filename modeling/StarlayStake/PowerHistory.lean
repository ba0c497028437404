/-
Power at past blocks. A call in block `n` writes snapshots at `n` only
(`WritesAt`), so what the search finds at an earlier block never changes
again; and the binary search finds the last snapshot at or before a block
(`searchByBlockNumber_eq`).

From the state at the end of a block on, the answer for that block stays
the sum of the balances that were delegated to the account there, with one
exception: an account that had no snapshot then answers with its balance
until its first snapshot, and with nothing after it
(`Since.getPowerAtBlock_eq`). Under version 2 from the start, an account
without a snapshot has no balance, and the exception never shows
(`getPowerAtBlock_exact`).
-/
import Mathlib.Data.List.TakeWhile
import StarlayStake.Lib.Checkpoints
import StarlayStake.Power

namespace StarlayStake

open Ledger (share total)
open Checkpoints (Increasing lookup)

namespace DelegationData

/-- The snapshot in force for an account at a block: its last one by then. -/
def inForce (data : DelegationData) (a : Address) (blockNumber : Nat) : Option Snapshot :=
  lookup Snapshot.blockNumber (data.snapshots a) blockNumber (data.snapshotsCounts a)

/-- Every account's snapshots are of increasing blocks, one a block, up to
`number`. -/
def Ordered (data : DelegationData) (number : Nat) : Prop :=
  ∀ a, Increasing Snapshot.blockNumber (data.snapshots a) (data.snapshotsCounts a) number

variable {data : DelegationData} {number : Nat}

theorem Ordered.mono {number' : Nat} (h : data.Ordered number) (hle : number ≤ number') : data.Ordered number' :=
  fun a => (h a).mono hle

theorem Ordered.empty (number : Nat) : DelegationData.empty.Ordered number := fun _ => .nil

/-- The snapshot in force now is the last. -/
theorem Ordered.inForce_now (h : data.Ordered number) (a : Address) :
    (data.inForce a number).map Snapshot.value = data.recorded a := by
  unfold inForce recorded
  by_cases hc : data.snapshotsCounts a = 0
  · simp [hc, lookup]
  · rw [Checkpoints.lookup_last (h a) hc, if_neg hc]
    rfl

end DelegationData

/-! ## The search -/

/-- The loop narrows the range down to the snapshot in force. -/
theorem searchLoop_eq {snapshots : Nat → Snapshot} {n k : Nat} (hinc : Increasing Snapshot.blockNumber snapshots n k)
    (b lower upper : Nat) (hle : lower ≤ upper) (hupper : upper < n) (hl : (snapshots lower).blockNumber ≤ b)
    (hu : ∀ j, upper < j → j < n → b < (snapshots j).blockNumber) :
    (lookup Snapshot.blockNumber snapshots b n).map Snapshot.value = some (searchLoop snapshots b lower upper) := by
  fun_induction searchLoop snapshots b lower upper with
  | case1 lower upper hlt center snapshot hb =>
    have hcenter : center < n := by omega
    rw [Checkpoints.lookup_eq_some hcenter (le_of_eq hb) fun j hj hjn => hb ▸ hinc.lt center j hj hjn]
    rfl
  | case2 lower upper hlt center snapshot _ hb ih =>
    exact ih (by omega) hupper hb.le hu
  | case3 lower upper hlt center snapshot hne hge ih =>
    refine ih (by omega) (by omega) hl fun j hj hjn => ?_
    have hcenter : b < (snapshots center).blockNumber := lt_of_le_of_ne (not_lt.1 hge) (Ne.symm hne)
    by_cases hj' : j = center
    · rw [hj']; exact hcenter
    · exact hcenter.trans (hinc.lt center j (by omega) hjn)
  | case4 lower upper hnot =>
    have heq : upper = lower := by omega
    subst heq
    rw [Checkpoints.lookup_eq_some hupper hl hu]
    rfl

/-- What `_searchByBlockNumber` answers, whichever of its cases it takes. -/
theorem searchByBlockNumber_eq {data : DelegationData} {balances : Address → Nat} {u : Address} {b n k : Nat}
    (hinc : Increasing Snapshot.blockNumber (data.snapshots u) (data.snapshotsCounts u) k) (hb : b ≤ n) :
    searchByBlockNumber n balances data u b = .ok (if data.recorded u = none then balances u
      else ((data.inForce u b).map Snapshot.value).getD 0) := by
  simp only [searchByBlockNumber, require_of hb, Outcome.ok_bind, DelegationData.recorded, DelegationData.inForce]
  by_cases hc : data.snapshotsCounts u = 0
  · simp [hc, pure, Except.pure]
  · simp only [hc, if_false, reduceCtorEq]
    split
    · next hlast =>
      rw [Checkpoints.lookup_eq_some (i := data.snapshotsCounts u - 1) (by omega) hlast fun j _ _ => by omega]
      rfl
    · split
      · next hfirst =>
        rw [Checkpoints.lookup_eq_none]
        · rfl
        · intro i hi
          by_cases hi0 : i = 0
          · rw [hi0]; exact hfirst
          · exact hfirst.trans (hinc.lt 0 i (by omega) hi)
      · rw [searchLoop_eq hinc b 0 (data.snapshotsCounts u - 1) (by omega) (by omega) (by omega)
          fun j _ _ => by omega]
        rfl

/-! ## Writes -/

/-- From `data` to `data'` snapshots were written in block `number` only. -/
structure WritesAt (number : Nat) (data data' : DelegationData) : Prop where
  ordered : data'.Ordered number
  past : ∀ a b, b < number → data'.inForce a b = data.inForce a b

section

variable {number : Nat} {data data' : DelegationData} {src dst a : Address} {amount : Nat}
  {balances : Address → Nat}

theorem WritesAt.refl (h : data.Ordered number) : WritesAt number data data := ⟨h, fun _ _ _ => rfl⟩

theorem WritesAt.writeSnapshot {x y : Nat} (h : data.Ordered number) (hn : number < 2 ^ 128) :
    WritesAt number data (StarlayStake.writeSnapshot number a x y data) := by
  simp only [StarlayStake.writeSnapshot, uint128_of_lt hn]
  split
  · next hc =>
    constructor
    · intro c
      by_cases hca : c = a
      · subst hca
        simp only [Function.update_self]
        exact (h c).overwrite rfl
      · simp only [Function.update_of_ne hca]
        exact h c
    · intro c b hb
      by_cases hca : c = a
      · subst hca
        simp only [DelegationData.inForce, Function.update_self]
        exact Checkpoints.lookup_overwrite rfl (by rw [hc.2]; exact hb)
      · simp only [DelegationData.inForce, Function.update_of_ne hca]
  · next hc =>
    constructor
    · intro c
      by_cases hca : c = a
      · subst hca
        simp only [Function.update_self]
        exact (h c).append (le_refl number) fun hne heq => hc ⟨hne, heq⟩
      · simp only [Function.update_of_ne hca]
        exact h c
    · intro c b hb
      by_cases hca : c = a
      · subst hca
        simp only [DelegationData.inForce, Function.update_self]
        exact Checkpoints.lookup_append hb
      · simp only [DelegationData.inForce, Function.update_of_ne hca]

theorem WritesAt.writePower {x y : Nat} (h : WritesAt number data data') (hn : number < 2 ^ 128) :
    WritesAt number data (StarlayStake.writePower number a x y data') := by
  unfold StarlayStake.writePower
  split
  · exact h
  · have hw : WritesAt number data' _ := .writeSnapshot (a := a) (x := uint128 x) (y := uint128 y) h.ordered hn
    exact ⟨hw.ordered, fun c b hb => (hw.past c b hb).trans (h.past c b hb)⟩

theorem WritesAt.movedPower {p q : Nat} (h : data.Ordered number) (hn : number < 2 ^ 128) :
    WritesAt number data (StarlayStake.movedPower number src dst p q amount data) :=
  ((WritesAt.refl h).writePower hn).writePower hn

theorem WritesAt.moveDelegates (h : data.Ordered number) (hn : number < 2 ^ 128)
    (hm : StarlayStake.moveDelegates number balances src dst amount data = .ok data') : WritesAt number data data' := by
  rw [moveDelegates_ok_iff] at hm
  split at hm
  · rw [hm]; exact .refl h
  · rw [hm.2.2]; exact .movedPower h hn

theorem WritesAt.delegatePower {u y : Address} (h : data.Ordered number) (hn : number < 2 ^ 128)
    (hm : StarlayStake.delegatePower number balances u y data = .ok data') : WritesAt number data data' := by
  have hw : WritesAt number { data with delegates := Function.update data.delegates u y } data' :=
    .moveDelegates h hn hm
  exact ⟨hw.ordered, hw.past⟩

/-- The power moved before a transfer, under either version. -/
theorem WritesAt.movePower {v : Version} {t : DelegationType} (h : data.Ordered number) (hn : number < 2 ^ 128)
    (hm : StarlayStake.movePower v number balances src dst amount t data = .ok data') : WritesAt number data data' := by
  cases v with
  | v2 => exact .moveDelegates h hn hm
  | v1 =>
    cases t with
    | PROPOSITION_POWER => cases hm; exact .refl h
    | VOTING_POWER =>
      simp only [StarlayStake.movePower] at hm
      split at hm
      · cases hm; exact .refl h
      · rw [moveBalances_ok_iff] at hm
        rw [hm.2.2]
        exact .movedPower h hn

end

open StakedToken

variable {W : Type} {D : Deployment W} {x : Tx} {s s₁ s' : State W} {l : List Tx} {b n : Nat}

/-- A call writes in its block only, whatever the version. -/
theorem writesAt_of_exec (h : ∀ t, (s.power t).Ordered x.msg.number) (hn : x.msg.number < 2 ^ 128)
    (hx : exec D x s = .ok s') (t : DelegationType) : WritesAt x.msg.number (s.power t) (s'.power t) := by
  cases powerStep_of_exec hx with
  | keep _ _ _ hp => rw [hp]; exact .refl (h t)
  | move src dst amount _ _ _ _ _ hp => exact .movePower (h t) hn (hp t)
  | delegate u y types _ _ _ _ _ _ hp ho =>
    by_cases ht : t ∈ types
    · exact .delegatePower (h t) hn (hp t ht)
    · rw [ho t ht]; exact .refl (h t)

/-! ## Runs -/

/-- After any run whose block numbers do not decrease, snapshots are of
increasing blocks. -/
theorem run_ordered (h : ∀ t, (s.power t).Ordered b) (hblocks : l.Pairwise fun x y => x.msg.number ≤ y.msg.number)
    (hstart : ∀ x ∈ l, b ≤ x.msg.number) (hl : ∀ x ∈ l, x.msg.number ≤ n) (hb : b ≤ n) (hn : n < 2 ^ 128)
    (t : DelegationType) : ((run D s l).power t).Ordered n := by
  refine Runs.run_invariant_clocked (fun x : Tx => x.msg.number) (fun k (s : State W) => ∀ t, (s.power t).Ordered k)
    (P := fun _ => True) (Q := fun x => x.msg.number ≤ n) (fun k k' s hle hi t => (hi t).mono hle)
    (fun x s s' hx _ _ hi hs t => ?_) h hblocks hl (fun _ _ => trivial) hstart hb hl t
  exact (writesAt_of_exec hi (lt_of_le_of_lt hx hn) hs t).ordered

/-- A run in the blocks after `b` leaves the snapshots in force at `b`. -/
theorem run_past (hord : ∀ t, (s₁.power t).Ordered b) (hblocks : l.Pairwise fun x y => x.msg.number ≤ y.msg.number)
    (hafter : ∀ x ∈ l, b < x.msg.number) (hl : ∀ x ∈ l, x.msg.number < 2 ^ 128) (t : DelegationType) (a : Address) :
    ((run D s₁ l).power t).inForce a b = (s₁.power t).inForce a b := by
  obtain ⟨n, hb, hn⟩ : ∃ n, b ≤ n ∧ ∀ x ∈ l, x.msg.number ≤ n := by
    refine ⟨b + 2 ^ 128, by omega, fun x hx => ?_⟩
    have := hl x hx
    omega
  refine (Runs.run_invariant_clocked (fun x : Tx => x.msg.number)
    (fun k (s : State W) => ∀ t, (s.power t).Ordered k ∧ ∀ a, (s.power t).inForce a b = (s₁.power t).inForce a b)
    (P := fun _ => True) (Q := fun x => b < x.msg.number ∧ x.msg.number < 2 ^ 128)
    (fun k k' s hle hi t => ⟨(hi t).1.mono hle, (hi t).2⟩) (fun x s s' hx _ _ hi hs t => ?_)
    (fun t => ⟨hord t, fun _ => rfl⟩) hblocks (fun x hx => ⟨hafter x hx, hl x hx⟩) (fun _ _ => trivial)
    (fun x hx => (hafter x hx).le) hb hn t).2 a
  have hw := writesAt_of_exec (fun t => (hi t).1) hx.2 hs t
  exact ⟨hw.ordered, fun a => (hw.past a b hx.1).trans ((hi t).2 a)⟩

/-- An account without a snapshot after a run of version 2 stands for what
it stood for. -/
theorem run_unrecorded (hinv : PowerInv s₁) (hv : ∀ x ∈ l, x.version = .v2) (hsupply : SupplyBounded D s₁ l)
    (t : DelegationType) : UnrecordedKept s₁.balances (run D s₁ l).balances (s₁.power t) ((run D s₁ l).power t) := by
  refine (Runs.run_invariant (P := fun s => s.totalSupply < 2 ^ 128)
    (I := fun s => PowerInv s ∧ ∀ t, UnrecordedKept s₁.balances s.balances (s₁.power t) (s.power t))
    ⟨hinv, fun _ _ hr => ⟨hr, rfl⟩⟩ (fun x s s' hx _ hs' hi hs => ⟨hi.1.step hx hs' hs, fun t a hr => ?_⟩) hv
    fun p hp => hsupply p hp).2 t
  obtain ⟨hr, heq⟩ := (hi.1.power_step hx hs' hs t).2 a hr
  obtain ⟨hr, heq'⟩ := hi.2 t a hr
  exact ⟨hr, heq.trans heq'⟩

/-- What holds of a state reached from `s₁`, the state at the end of block
`b`: the snapshots in force at `b` are those of `s₁`, and an account still
without a snapshot stands for what it stood for. -/
structure Since (b : Nat) (s₁ s : State W) : Prop where
  past : ∀ t a, (s.power t).inForce a b = (s₁.power t).inForce a b
  unrecorded : ∀ t, UnrecordedKept s₁.balances s.balances (s₁.power t) (s.power t)

/-- **The answer for a past block.** It is the sum of the balances delegated
to the account at the end of that block; but zero for an account that had no
snapshot then and has one now. -/
theorem Since.getPowerAtBlock_eq (h : Since b s₁ s) (hinv₁ : PowerInv s₁) (hord₁ : ∀ t, (s₁.power t).Ordered b)
    (hinv : PowerInv s) (hord : ∀ t, (s.power t).Ordered n) (hb : b ≤ n) (u : Address) (t : DelegationType) :
    getPowerAtBlock n u b t s =
      .ok (if (s₁.power t).recorded u = none ∧ (s.power t).recorded u ≠ none then 0
        else share (s₁.power t).delegatee s₁.balances u) := by
  rw [getPowerAtBlock, searchByBlockNumber_eq (hord t u) hb, h.past t u, (hord₁ t).inForce_now u]
  cases hr : (s.power t).recorded u with
  | none =>
    obtain ⟨-, heq⟩ := h.unrecorded t u hr
    rw [if_pos rfl, if_neg (fun hc => hc.2 rfl), ← heq, hinv.share_of_unrecorded hr]
  | some y =>
    rw [if_neg (Option.some_ne_none y)]
    cases hr₁ : (s₁.power t).recorded u with
    | none => simp
    | some z =>
      rw [if_neg (fun hc => Option.some_ne_none z hc.1), (hinv₁.power t).exact u z hr₁]
      rfl

/-! ## From the start under version 2 -/

/-- A run of version 2 in blocks that do not decrease, up to `n`, while the
supply fits a snapshot. -/
structure RunV2 (D : Deployment W) (s : State W) (n : Nat) (l : List Tx) : Prop where
  version : ∀ x ∈ l, x.version = .v2
  blocks : l.Pairwise fun x y => x.msg.number ≤ y.msg.number
  le : ∀ x ∈ l, x.msg.number ≤ n
  supply : SupplyBounded D s l

/-- The part of a run in the blocks up to `b`. -/
def untilBlock (b : Nat) (l : List Tx) : List Tx := l.takeWhile fun x => x.msg.number ≤ b

/-- A run is its part up to `b` and a part after `b`. -/
theorem exists_afterBlock (b : Nat) (hblocks : l.Pairwise fun x y => x.msg.number ≤ y.msg.number) :
    ∃ r, l = untilBlock b l ++ r ∧ (∀ x ∈ untilBlock b l, x.msg.number ≤ b) ∧ ∀ x ∈ r, b < x.msg.number := by
  refine ⟨l.dropWhile fun x => x.msg.number ≤ b, (List.takeWhile_append_dropWhile ..).symm, fun x hx => ?_, ?_⟩
  · simpa using List.mem_takeWhile_imp hx
  · induction l with
    | nil => simp
    | cons x l ih =>
      rw [List.pairwise_cons] at hblocks
      by_cases hx : x.msg.number ≤ b
      · rw [List.dropWhile_cons_of_pos (by simpa using hx)]
        exact ih hblocks.2
      · rw [List.dropWhile_cons_of_neg (by simpa using hx)]
        intro y hy
        rcases List.mem_cons.1 hy with rfl | hy
        · omega
        · have := hblocks.1 y hy
          omega

theorem untilBlock_append {l' : List Tx} (h : ∀ x ∈ l', b < x.msg.number) : untilBlock b (l ++ l') = untilBlock b l := by
  induction l with
  | nil =>
    cases l' with
    | nil => rfl
    | cons y l' => simp [untilBlock, h y (by simp)]
  | cons x l ih =>
    simp only [untilBlock, List.cons_append, List.takeWhile_cons] at ih ⊢
    rw [ih]

namespace RunV2

variable {l₁ l₂ : List Tx}

theorem left (h : RunV2 D s n (l₁ ++ l₂)) : RunV2 D s n l₁ :=
  { version := fun x hx => h.version x (by simp [hx])
    blocks := (List.pairwise_append.1 h.blocks).1
    le := fun x hx => h.le x (by simp [hx])
    supply := h.supply.left }

theorem right (h : RunV2 D s n (l₁ ++ l₂)) : RunV2 D (run D s l₁) n l₂ :=
  { version := fun x hx => h.version x (by simp [hx])
    blocks := (List.pairwise_append.1 h.blocks).2.1
    le := fun x hx => h.le x (by simp [hx])
    supply := h.supply.right }

/-- From the end of block `b` on. -/
theorem since (h : RunV2 D s₁ n l) (hinv : PowerInv s₁) (hord : ∀ t, (s₁.power t).Ordered b)
    (hafter : ∀ x ∈ l, b < x.msg.number) (hn : n < 2 ^ 128) : Since b s₁ (run D s₁ l) :=
  ⟨run_past hord h.blocks hafter fun x hx => lt_of_le_of_lt (h.le x hx) hn, run_unrecorded hinv h.version h.supply⟩

end RunV2

variable {g : Address} {w : W}

theorem PowerInv.fresh (g : Address) (w : W) : PowerInv (State.fresh g w) := (PowerInvV1.fresh g w).toPowerInv

theorem Ordered.fresh (g : Address) (w : W) (t : DelegationType) : ((State.fresh g w).power t).Ordered 0 := .empty 0

/-- Under version 2 from the start, an account without a snapshot stands for
nothing. -/
theorem share_eq_zero_of_unrecorded (hv : ∀ x ∈ l, x.version = .v2) (hsupply : SupplyBounded D (.fresh g w) l)
    {t : DelegationType} {u : Address} (hr : ((run D (.fresh g w) l).power t).recorded u = none) :
    share ((run D (.fresh g w) l).power t).delegatee (run D (.fresh g w) l).balances u = 0 := by
  rw [(run_unrecorded (.fresh g w) hv hsupply t u hr).2, Ledger.share_def]
  exact Finset.sum_const_zero

/-- The answer for a block is the sum at its end. -/
theorem RunV2.getPowerAtBlock (h : RunV2 D (.fresh g w) n l) (hn : n < 2 ^ 128) (hb : b ≤ n) (u : Address)
    (t : DelegationType) :
    StakedToken.getPowerAtBlock n u b t (run D (.fresh g w) l) =
      .ok (share ((run D (.fresh g w) (untilBlock b l)).power t).delegatee
        (run D (.fresh g w) (untilBlock b l)).balances u) := by
  obtain ⟨r, hl, huntil, hafter⟩ := exists_afterBlock b h.blocks
  have h' := h
  rw [hl] at h'
  have hbefore := h'.left
  have hord : ∀ t, ((run D (.fresh g w) (untilBlock b l)).power t).Ordered b :=
    run_ordered (Ordered.fresh g w) hbefore.blocks (fun _ _ => Nat.zero_le _) huntil (Nat.zero_le _)
      (lt_of_le_of_lt hb hn)
  have hinv : PowerInv (run D (.fresh g w) (untilBlock b l)) :=
    (PowerInv.fresh g w).run hbefore.version hbefore.supply
  have hsince := h'.right.since hinv hord hafter hn
  rw [← run_append, ← hl] at hsince
  rw [hsince.getPowerAtBlock_eq hinv hord ((PowerInv.fresh g w).run h.version h.supply)
    (run_ordered (Ordered.fresh g w) h.blocks (fun _ _ => Nat.zero_le _) h.le (Nat.zero_le _) hn) hb u t]
  split
  · next hr => rw [share_eq_zero_of_unrecorded hbefore.version hbefore.supply hr.1]
  · rfl

/-- **Historical power is right and immutable** for a token under version 2
from the start. After any run, in a block `n` not before its last: the power
of an account at a block `b` up to `n` is the sum of the balances of the
holders whose delegatee it was at the end of `b` (now, for the current
block); for a past block no later call changes it; the current power is the
power at the current block; and a block has one snapshot of an account at
most, which holds the power at its end. -/
theorem getPowerAtBlock_exact {g : Address} {w : W} {l : List Tx} {b n : Nat} (h : RunV2 D (.fresh g w) n l)
    (hn : n < 2 ^ 128) (hb : b ≤ n) (u : Address) (t : DelegationType) :
    let atEnd := run D (.fresh g w) (untilBlock b l)
    let s := run D (.fresh g w) l
    let power := ∑ d with getDelegateeByType d t atEnd = u, atEnd.balances d
    getPowerAtBlock n u b t s = .ok power ∧
      (∀ n' l', RunV2 D (.fresh g w) n' (l ++ l') → n' < 2 ^ 128 → n ≤ n' → (∀ x ∈ l', n ≤ x.msg.number) → b < n →
        getPowerAtBlock n' u b t (run D (.fresh g w) (l ++ l')) = getPowerAtBlock n u b t s) ∧
      getPowerCurrent n u t s = getPowerAtBlock n u n t s ∧
      (∀ i j, i < j → j < (s.power t).snapshotsCounts u →
        ((s.power t).snapshots u i).blockNumber ≠ ((s.power t).snapshots u j).blockNumber) ∧
      ∀ i, i < (s.power t).snapshotsCounts u → ((s.power t).snapshots u i).blockNumber = b →
        ((s.power t).snapshots u i).value = power := by
  intro atEnd s power
  have hanswer : getPowerAtBlock n u b t s = .ok power := by
    rw [h.getPowerAtBlock hn hb u t, Ledger.share_def]
    rfl
  have hord : (s.power t).Ordered n :=
    run_ordered (Ordered.fresh g w) h.blocks (fun _ _ => Nat.zero_le _) h.le (Nat.zero_le _) hn t
  refine ⟨hanswer, fun n' l' h' hn' hnn' hl' hbn => ?_, rfl, fun i j hij hj => ((hord u).lt i j hij hj).ne,
    fun i hi hib => ?_⟩
  · rw [h'.getPowerAtBlock hn' (hb.trans hnn') u t, h.getPowerAtBlock hn hb u t,
      untilBlock_append fun x hx => lt_of_lt_of_le hbn (hl' x hx)]
  · have hc : (s.power t).recorded u ≠ none := by
      rw [DelegationData.recorded, if_neg (by omega)]
      exact Option.some_ne_none _
    have hfound : (s.power t).inForce u b = some ((s.power t).snapshots u i) :=
      Checkpoints.lookup_eq_some hi (le_of_eq hib) fun j hij hj => hib ▸ (hord u).lt i j hij hj
    rw [getPowerAtBlock, searchByBlockNumber_eq (hord u) hb, if_neg hc, hfound] at hanswer
    exact Except.ok.inj hanswer

/-- Two stakes in block 1 and a delegation in block 3: the power at block 2. -/
theorem getPowerAtBlock_exact_delegated :
    let l : List Tx := [⟨.v2, ⟨.ofNat 10, 1, 200, by decide⟩, .stake (.ofNat 10) 7⟩,
      ⟨.v2, ⟨.ofNat 12, 1, 200, by decide⟩, .stake (.ofNat 10) 5⟩,
      ⟨.v2, ⟨.ofNat 10, 3, 202, by decide⟩, .delegate (.ofNat 11)⟩]
    let atEnd := run .sample (.fresh 0 ()) (untilBlock 2 l)
    getPowerAtBlock 4 (.ofNat 10) 2 .PROPOSITION_POWER (run .sample (.fresh 0 ()) l) =
      .ok (∑ d with getDelegateeByType d .PROPOSITION_POWER atEnd = .ofNat 10, atEnd.balances d) :=
  (getPowerAtBlock_exact (b := 2) (n := 4)
    { version := by simp, blocks := by simp, le := by simp, supply := by decide +kernel }
    (by decide) (by decide) (.ofNat 10) .PROPOSITION_POWER).1

end StarlayStake
