/-
Snapshots of power (`GovernancePowerDelegationERC20.sol` and, for version 1,
`ERC20WithSnapshot.sol`): writing one, moving power between two accounts,
and the search for the power at a block.
-/
import StarlayStake.Storage

namespace StarlayStake

/-- `_getDelegatee`: an account that never delegated stands for itself. -/
def getDelegatee (delegator : Address) (delegates : Address → Address) : Address :=
  let previousDelegatee := delegates delegator
  if previousDelegatee = 0 then delegator else previousDelegatee

/-- `_writeSnapshot`: one snapshot a block, the last value of the block in
it. (`oldValue` is for an event only. The versions count snapshots with
checked and unchecked additions; their number stays far below 2^256.) -/
def writeSnapshot (number : Nat) (owner : Address) (_oldValue newValue : Nat) (data : DelegationData) :
    DelegationData :=
  let currentBlock := uint128 number
  let ownerSnapshotsCount := data.snapshotsCounts owner
  let snapshotsOwner := data.snapshots owner
  if ownerSnapshotsCount ≠ 0 ∧ (snapshotsOwner (ownerSnapshotsCount - 1)).blockNumber = currentBlock then
    { data with
      snapshots := Function.update data.snapshots owner (Function.update snapshotsOwner (ownerSnapshotsCount - 1)
        { snapshotsOwner (ownerSnapshotsCount - 1) with value := newValue }) }
  else
    { data with
      snapshots := Function.update data.snapshots owner
        (Function.update snapshotsOwner ownerSnapshotsCount ⟨currentBlock, newValue⟩)
      snapshotsCounts := Function.update data.snapshotsCounts owner (ownerSnapshotsCount + 1) }

/-- The power an account last had, as `_moveDelegatesByType` reads it: the
value of its last snapshot, or its balance when it has none. -/
def lastPower (balances : Address → Nat) (data : DelegationData) (user : Address) : Nat :=
  let snapshotsCount := data.snapshotsCounts user
  if snapshotsCount ≠ 0 then (data.snapshots user (snapshotsCount - 1)).value else balances user

/-- `_moveDelegatesByType`, on the data of the type -/
def moveDelegates (number : Nat) (balances : Address → Nat) (src dst : Address) (amount : Nat)
    (data : DelegationData) : Except String DelegationData :=
  if src = dst then .ok data
  else do
    let data ← (if src ≠ 0 then do
        let previous := lastPower balances data src
        let newValue ← SafeMath.sub previous amount
        return writeSnapshot number src (uint128 previous) (uint128 newValue) data
      else .ok data)
    if dst ≠ 0 then do
      let previous := lastPower balances data dst
      let newValue ← SafeMath.add previous amount
      return writeSnapshot number dst (uint128 previous) (uint128 newValue) data
    else .ok data

/-- `ERC20WithSnapshot._beforeTokenTransfer` of version 1, on its snapshots:
written from the balances, before they change. -/
def moveBalances (number : Nat) (balances : Address → Nat) (src dst : Address) (amount : Nat)
    (data : DelegationData) : Except String DelegationData := do
  let data ← (if src ≠ 0 then do
      let fromBalance := balances src
      let newValue ← SafeMath.sub fromBalance amount
      return writeSnapshot number src (uint128 fromBalance) (uint128 newValue) data
    else .ok data)
  if dst ≠ 0 then do
    let toBalance := balances dst
    let newValue ← SafeMath.add toBalance amount
    return writeSnapshot number dst (uint128 toBalance) (uint128 newValue) data
  else .ok data

/-- The loop of `_searchByBlockNumber`: halves the range around the last
snapshot at or before the block. -/
def searchLoop (snapshots : Nat → Snapshot) (blockNumber lower upper : Nat) : Nat :=
  if upper > lower then
    let center := upper - (upper - lower) / 2
    let snapshot := snapshots center
    if snapshot.blockNumber = blockNumber then snapshot.value
    else if snapshot.blockNumber < blockNumber then searchLoop snapshots blockNumber center upper
    else searchLoop snapshots blockNumber lower (center - 1)
  else (snapshots lower).value
  termination_by upper - lower

/-- `_searchByBlockNumber`, in block `currentBlock` -/
def searchByBlockNumber (currentBlock : Nat) (balances : Address → Nat) (data : DelegationData)
    (user : Address) (blockNumber : Nat) : Except String Nat := do
  require (blockNumber ≤ currentBlock) "INVALID_BLOCK_NUMBER"
  let snapshotsCount := data.snapshotsCounts user
  let snapshots := data.snapshots user
  if snapshotsCount = 0 then
    return balances user
  else if (snapshots (snapshotsCount - 1)).blockNumber ≤ blockNumber then
    return (snapshots (snapshotsCount - 1)).value
  else if (snapshots 0).blockNumber > blockNumber then
    return 0
  else
    return searchLoop snapshots blockNumber 0 (snapshotsCount - 1)

end StarlayStake
