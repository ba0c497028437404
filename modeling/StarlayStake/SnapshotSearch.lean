/-
The search for a snapshot is a linear scan (`Checkpoints.scan`), for any
snapshots of increasing blocks. The contract subtracts indices unchecked, and
loops until its range is one snapshot: with every subtraction checked and the
turns counted (`searchLoopChecked`) the answer is the same
(`searchByBlockNumberChecked_eq`), so none goes below zero, and a range of
`2 ^ k` snapshots is searched in `k` turns at most. Whatever order accounts
are written in, an account's snapshots are of increasing blocks, and those in
force are of the last write at or before the block (`writeSnapshots_inForce`).
-/
import StarlayStake.PowerHistory

namespace StarlayStake

open Checkpoints (scan scan_eq_lookup)

/-! ## Indices and turns -/

/-- The loop of `_searchByBlockNumber` again, but it fails where an index
goes below zero, and where it takes more than `turns` turns. -/
def searchLoopChecked (snapshots : Nat → Snapshot) (blockNumber : Nat) : (turns lower upper : Nat) → Except String Nat
  | turns, lower, upper =>
    if upper > lower then
      match turns with
      | 0 => .error "no end"
      | turns + 1 => do
        let width ← SafeMath.sub upper lower
        let center ← SafeMath.sub upper (width / 2)
        let snapshot := snapshots center
        if snapshot.blockNumber = blockNumber then return snapshot.value
        else if snapshot.blockNumber < blockNumber then searchLoopChecked snapshots blockNumber turns center upper
        else do
          let upper ← SafeMath.sub center 1
          searchLoopChecked snapshots blockNumber turns lower upper
    else return (snapshots lower).value

/-- `_searchByBlockNumber` with this loop, and the index of the last snapshot
checked as well -/
def searchByBlockNumberChecked (turns currentBlock : Nat) (balances : Address → Nat) (data : DelegationData)
    (user : Address) (blockNumber : Nat) : Except String Nat := do
  require (blockNumber ≤ currentBlock) "INVALID_BLOCK_NUMBER"
  let snapshotsCount := data.snapshotsCounts user
  let snapshots := data.snapshots user
  if snapshotsCount = 0 then
    return balances user
  else do
    let last ← SafeMath.sub snapshotsCount 1
    if (snapshots last).blockNumber ≤ blockNumber then
      return (snapshots last).value
    else if (snapshots 0).blockNumber > blockNumber then
      return 0
    else
      searchLoopChecked snapshots blockNumber turns 0 last

/-- No subtraction of the loop goes below zero, whatever the snapshots are, and
every turn halves the range at least. -/
theorem searchLoopChecked_eq {snapshots : Nat → Snapshot} {b lower upper turns : Nat} (hle : lower ≤ upper)
    (hturns : upper - lower < 2 ^ turns) :
    searchLoopChecked snapshots b turns lower upper = .ok (searchLoop snapshots b lower upper) := by
  induction turns generalizing lower upper with
  | zero =>
    have hnot : ¬ upper > lower := by omega
    rw [searchLoopChecked, searchLoop, if_neg hnot, if_neg hnot]
    rfl
  | succ turns ih =>
    rw [Nat.pow_succ] at hturns
    by_cases hlt : upper > lower
    · have hhalf : (upper - lower) / 2 ≤ upper := by omega
      have hone : 1 ≤ upper - (upper - lower) / 2 := by omega
      rw [searchLoopChecked, searchLoop, if_pos hlt, if_pos hlt]
      simp only [SafeMath.sub_of hle, SafeMath.sub_of hhalf, SafeMath.sub_of hone, Outcome.ok_bind]
      split
      · rfl
      · split
        · exact ih (by omega) (by omega)
        · exact ih (by omega) (by omega)
    · rw [searchLoopChecked, searchLoop, if_neg hlt, if_neg hlt]
      rfl

theorem searchByBlockNumberChecked_eq {turns n b : Nat} {balances : Address → Nat} {data : DelegationData} {u : Address}
    (hturns : data.snapshotsCounts u ≤ 2 ^ turns) :
    searchByBlockNumberChecked turns n balances data u b = searchByBlockNumber n balances data u b := by
  simp only [searchByBlockNumberChecked, searchByBlockNumber]
  by_cases hc : data.snapshotsCounts u = 0
  · simp only [hc, if_true]
  · have hone : 1 ≤ data.snapshotsCounts u := by omega
    simp only [hc, if_false, SafeMath.sub_of hone, Outcome.ok_bind]
    rw [searchLoopChecked_eq (Nat.zero_le _) (by omega)]
    rfl

/-! ## Snapshots written in any order of accounts -/

/-- A call of `_writeSnapshot`, in block `number`. -/
structure SnapshotWrite where
  number : Nat
  owner : Address
  oldValue : Nat
  newValue : Nat

/-- What a list of them leaves of data without snapshots. -/
def writeSnapshots (l : List SnapshotWrite) : DelegationData :=
  l.foldl (fun data w => writeSnapshot w.number w.owner w.oldValue w.newValue data) .empty

/-- The last write for `u` at or before block `b`. -/
def lastWrite (u : Address) (b : Nat) (l : List SnapshotWrite) : Option SnapshotWrite :=
  (l.filter fun w => w.owner = u ∧ w.number ≤ b).getLast?

section

variable {l : List SnapshotWrite} {w : SnapshotWrite} {u : Address} {b n : Nat}

theorem writeSnapshots_concat : writeSnapshots (l ++ [w]) =
    writeSnapshot w.number w.owner w.oldValue w.newValue (writeSnapshots l) := by
  rw [writeSnapshots, List.foldl_append]
  rfl

theorem lastWrite_concat : lastWrite u b (l ++ [w]) =
    if w.owner = u ∧ w.number ≤ b then some w else lastWrite u b l := by
  unfold lastWrite
  rw [List.filter_append, List.filter_cons, List.filter_nil]
  by_cases h : w.owner = u ∧ w.number ≤ b
  · simp [h]
  · rw [if_neg (by simpa using h), if_neg h, List.append_nil]

/-- In blocks that do not go back, the snapshots are of increasing blocks and
those in force are of the last writes. -/
theorem writeSnapshots_inForce (hblocks : l.Pairwise fun w w' => w.number ≤ w'.number) (hl : ∀ w ∈ l, w.number ≤ n)
    (hn : n < 2 ^ 128) : (writeSnapshots l).Ordered n ∧
      ∀ u b, ((writeSnapshots l).inForce u b).map Snapshot.value = (lastWrite u b l).map SnapshotWrite.newValue := by
  induction l using List.reverseRecOn generalizing n with
  | nil => exact ⟨.empty n, fun _ _ => rfl⟩
  | append_singleton l w ih =>
    rw [List.pairwise_append] at hblocks
    have hw : w.number ≤ n := hl w (by simp)
    obtain ⟨hord, hforce⟩ := ih hblocks.1 (fun w' hw' => hblocks.2.2 w' hw' w (by simp)) (hw.trans_lt hn)
    rw [writeSnapshots_concat]
    have hwrites : WritesAt w.number (writeSnapshots l) _ :=
      .writeSnapshot (a := w.owner) (x := w.oldValue) (y := w.newValue) hord (hw.trans_lt hn)
    refine ⟨hwrites.ordered.mono hw, fun u b => ?_⟩
    rw [lastWrite_concat]
    by_cases hb : w.number ≤ b
    · -- at or after the write, what is recorded now is in force
      have hnow := (hwrites.ordered.mono hb).inForce_now u
      have hbefore := (hord.mono hb).inForce_now u
      rw [hnow, writeSnapshot_recorded]
      by_cases hu : w.owner = u
      · subst hu
        rw [Function.update_self, if_pos ⟨rfl, hb⟩]
        rfl
      · rw [Function.update_of_ne (Ne.symm hu), if_neg fun h => hu h.1, ← hforce, hbefore]
    · rw [hwrites.past u b (by omega), if_neg fun h => hb h.2]
      exact hforce u b

/-- An account that was written for has a snapshot. -/
theorem writeSnapshots_recorded (hw : w ∈ l) : (writeSnapshots l).recorded w.owner ≠ none := by
  induction l using List.reverseRecOn with
  | nil => cases hw
  | append_singleton l w' ih =>
    rw [writeSnapshots_concat, writeSnapshot_recorded]
    by_cases hu : w.owner = w'.owner
    · rw [hu, Function.update_self]
      exact Option.some_ne_none _
    · rw [Function.update_of_ne hu]
      refine ih ((List.mem_append.1 hw).resolve_right fun hlast => hu ?_)
      rw [List.mem_singleton.1 hlast]

end

/-- **The search is a linear scan.** For any snapshots of an account, of
increasing blocks, and any block not after the current one: the search
answers what one pass over them finds, the value of the last snapshot at or
before the block, and 0 if there is none; no index goes below zero on the
way, and `2 ^ turns` snapshots take no more than `turns` turns. What calls of
`_writeSnapshot` leave, in blocks that do not go back and fit 128 bits, are
such snapshots, and the search answers the last value written for the account
at or before the block. -/
theorem searchByBlockNumber_scans (balances : Address → Nat) (u : Address) (currentBlock b : Nat)
    (hb : b ≤ currentBlock) :
    (∀ data : DelegationData,
      let n := data.snapshotsCounts u
      let snapshots := data.snapshots u
      1 ≤ n → (∀ i j, i < j → j < n → (snapshots i).blockNumber < (snapshots j).blockNumber) →
        ∃ value, searchByBlockNumber currentBlock balances data u b = .ok value ∧
          value = ((scan Snapshot.blockNumber snapshots b n).map Snapshot.value).getD 0 ∧
          (∀ i, i < n → (snapshots i).blockNumber ≤ b → (∀ j, i < j → j < n → b < (snapshots j).blockNumber) →
            value = (snapshots i).value) ∧
          ((∀ i, i < n → b < (snapshots i).blockNumber) → value = 0) ∧
          ∀ turns, n ≤ 2 ^ turns →
            searchByBlockNumberChecked turns currentBlock balances data u b = .ok value) ∧
    ∀ l : List SnapshotWrite, l.Pairwise (fun w w' => w.number ≤ w'.number) → (∀ w ∈ l, w.number < 2 ^ 128) →
      let data := writeSnapshots l
      (∀ a i j, i < j → j < data.snapshotsCounts a →
        (data.snapshots a i).blockNumber < (data.snapshots a j).blockNumber) ∧
      ((∃ w ∈ l, w.owner = u) → 1 ≤ data.snapshotsCounts u ∧
        searchByBlockNumber currentBlock balances data u b =
          .ok (((lastWrite u b l).map SnapshotWrite.newValue).getD 0)) := by
  refine ⟨?_, fun l hblocks hl => ?_⟩
  · intro data n snapshots hn hlt
    have hrecorded : data.recorded u ≠ none := by
      rw [DelegationData.recorded, if_neg (show data.snapshotsCounts u ≠ 0 by omega)]
      exact Option.some_ne_none _
    have hanswer : searchByBlockNumber currentBlock balances data u b =
        .ok (((scan Snapshot.blockNumber snapshots b n).map Snapshot.value).getD 0) := by
      rw [searchByBlockNumber_eq (.of_lt hlt) hb, if_neg hrecorded, scan_eq_lookup]
      rfl
    refine ⟨_, hanswer, rfl, fun i hi hib hnext => ?_, fun hnone => ?_, fun turns hturns => ?_⟩
    · rw [scan_eq_lookup, Checkpoints.lookup_eq_some hi hib hnext]
      rfl
    · rw [scan_eq_lookup, Checkpoints.lookup_eq_none hnone]
      rfl
    · rw [searchByBlockNumberChecked_eq hturns, hanswer]
  · obtain ⟨hord, hforce⟩ := writeSnapshots_inForce (n := 2 ^ 128 - 1) hblocks
      (fun w hw => Nat.le_sub_one_of_lt (hl w hw)) (by decide)
    refine ⟨fun a => (hord a).lt, ?_⟩
    rintro ⟨w, hw, rfl⟩
    have hrecorded := writeSnapshots_recorded hw
    refine ⟨?_, ?_⟩
    · by_contra hc
      exact hrecorded (if_pos (by omega))
    · rw [searchByBlockNumber_eq (hord w.owner) hb, if_neg hrecorded, hforce]

/-- Three snapshots with gaps between their blocks, and what is written for
two accounts in three blocks. -/
theorem searchByBlockNumber_scans_gaps :
    let data : DelegationData :=
      { DelegationData.empty with
        snapshots := fun _ i => ⟨10 * i + 5, 100 + i⟩
        snapshotsCounts := fun _ => 3 }
    let l : List SnapshotWrite :=
      [⟨5, .ofNat 10, 0, 7⟩, ⟨5, .ofNat 11, 0, 1⟩, ⟨5, .ofNat 10, 7, 8⟩, ⟨20, .ofNat 10, 8, 9⟩]
    searchByBlockNumberChecked 2 40 (fun _ => 0) data (.ofNat 10) 17 = .ok 101 ∧
      searchByBlockNumber 40 (fun _ => 0) (writeSnapshots l) (.ofNat 10) 17 = .ok 8 := by
  intro data l
  have h := searchByBlockNumber_scans (fun _ => 0) (.ofNat 10) 40 17 (by decide)
  obtain ⟨value, -, -, hlast, -, hchecked⟩ := h.1 data (by decide) fun i j hij _ => by
    show 10 * i + 5 < 10 * j + 5
    omega
  have hvalue : value = 101 := hlast 1 (by decide) (by decide) fun j hj _ => by
    show 17 < 10 * j + 5
    omega
  refine ⟨hvalue ▸ hchecked 2 (by decide), ?_⟩
  exact ((h.2 l (by simp [l]) (by simp [l])).2 ⟨⟨5, .ofNat 10, 0, 7⟩, by simp [l], rfl⟩).2

end StarlayStake
