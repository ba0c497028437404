/-
The storage of the staking token's proxy, and what its implementations fix
at construction.

The proxy keeps its storage through an upgrade, so one `State` serves every
version of the code: `StakedToken` (version 1) and `StakedTokenV2`, whose
code `StakedTokenV3` and the revisions 3 and 4 share (version 2). Version 1
keeps its snapshots where version 2 keeps the voting snapshots, and never
touches what version 2 appended: the delegates, the proposition snapshots
and the nonces. An upgrade is then a run going on under other code.
-/
import StarlayStake.DistributionManager
import StarlayStake.Externals

namespace StarlayStake

inductive Version
  | v1
  | v2
  deriving DecidableEq, Repr

/-- `uint128` fields both. -/
structure Snapshot where
  blockNumber : Nat
  value : Nat
  deriving DecidableEq, Repr

/-- The three mappings `_getDelegationDataByType` answers for a type of
power: `_votingSnapshots`, `_votingSnapshotsCounts` and `_votingDelegates`
(the first two are `_snapshots` and `_countsSnapshots` of version 1), or
`_propositionPowerSnapshots`, `_propositionPowerSnapshotsCounts` and
`_propositionPowerDelegates`. -/
structure DelegationData where
  snapshots : Address → Nat → Snapshot
  snapshotsCounts : Address → Nat
  delegates : Address → Address

/-- No snapshots and no delegates. -/
def DelegationData.empty : DelegationData :=
  { snapshots := fun _ _ => ⟨0, 0⟩, snapshotsCounts := fun _ => 0, delegates := fun _ => 0 }

structure Immutables where
  /-- `address(this)`, the proxy's -/
  self : Address
  STAKED_TOKEN : Address
  REWARD_TOKEN : Address
  COOLDOWN_SECONDS : Nat
  UNSTAKE_WINDOW : Nat
  REWARDS_VAULT : Address
  DISTRIBUTION_END : Nat
  EMISSION_MANAGER : Address

/-- The immutables of the implementation, and the world it is deployed in. -/
structure Deployment (W : Type) extends Immutables where
  ext : Externals W

structure State (W : Type) where
  balances : Address → Nat
  allowances : Address → Address → Nat
  totalSupply : Nat
  /-- `_getDelegationDataByType` -/
  power : DelegationType → DelegationData
  governance : Address
  assets : Address → AssetData
  stakerRewardsToClaim : Address → Nat
  stakersCooldowns : Address → Nat
  nonces : Address → Nat
  /-- the contracts outside -/
  world : W

variable {W : Type}

/-- The storage of a new proxy, its governance hook set. -/
def State.fresh (governance : Address) (world : W) : State W :=
  { balances := fun _ => 0
    allowances := fun _ _ => 0
    totalSupply := 0
    power := fun _ => .empty
    governance
    assets := fun _ => ⟨0, 0, 0, fun _ => 0⟩
    stakerRewardsToClaim := fun _ => 0
    stakersCooldowns := fun _ => 0
    nonces := fun _ => 0
    world }

/-! ## A deployment to evaluate runs at -/

/-- An outside that accepts every call. A message is signed by the address
its signature names. -/
def Externals.accepting : Externals Unit :=
  { isContract := fun _ _ => true
    transfer := fun _ _ _ _ w => .ok (some true, w)
    transferFrom := fun _ _ _ _ _ w => .ok (some true, w)
    onTransfer := fun _ _ _ _ w => .ok w
    recover := fun _ signature => .ok (.ofNat signature.r) }

def Deployment.sample : Deployment Unit :=
  { self := .ofNat 1
    STAKED_TOKEN := .ofNat 2
    REWARD_TOKEN := .ofNat 3
    COOLDOWN_SECONDS := 100
    UNSTAKE_WINDOW := 50
    REWARDS_VAULT := .ofNat 4
    DISTRIBUTION_END := 1000
    EMISSION_MANAGER := .ofNat 5
    ext := .accepting }

theorem sampleManager_ne : Address.ofNat 5 ≠ 0 := by decide

theorem sampleHolder_ne : Address.ofNat 10 ≠ 0 := by decide

theorem sampleOther_ne : Address.ofNat 11 ≠ 0 := by decide

end StarlayStake
