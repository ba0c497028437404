import StarlayStake.Lib.Outcome
import StarlayStake.Lib.Runs
import StarlayStake.Lib.Ledger
import StarlayStake.Lib.Checkpoints
import StarlayStake.Lib.Counters
import StarlayStake.Lib.Timeline
import StarlayStake.Lib.BigEndian
import StarlayStake.Lib.Reentrancy
import StarlayStake.Lib.FungibleToken
import StarlayStake.Solidity
import StarlayStake.Externals
import StarlayStake.DistributionManager
import StarlayStake.IndexHistory
import StarlayStake.Storage
import StarlayStake.Snapshots
import StarlayStake.StakedToken
import StarlayStake.Effects
import StarlayStake.SignedMessages
import StarlayStake.PowerMoves
import StarlayStake.Power
import StarlayStake.PowerHistory
import StarlayStake.SnapshotSearch
import StarlayStake.PastSupply
import StarlayStake.UpgradeHistory
import StarlayStake.Replacement
import StarlayStake.Cooldown
import StarlayStake.CooldownCredit
import StarlayStake.CooldownBacked
import StarlayStake.IncentivesController
import StarlayStake.IncentivesEffects
import StarlayStake.Backing
import StarlayStake.AssetLists
import StarlayStake.Unconfigured
import StarlayStake.VaultOutflow
import StarlayStake.ClaimPayments
import StarlayStake.RewardSteps
import StarlayStake.Rewards
import StarlayStake.AccountChanges
import StarlayStake.BlockOrder
import StarlayStake.Extension
import StarlayStake.ProRata
import StarlayStake.ExtraSettlements
import StarlayStake.NeverLocked
import StarlayStake.CooldownPotential
import StarlayStake.Proxy
import StarlayStake.Digest
import StarlayStake.ECDSA
import StarlayStake.Implementations
import StarlayStake.Upgrades
import StarlayStake.Authorizations
import StarlayStake.Holdings
import StarlayStake.Delegations
import StarlayStake.Callbacks
import StarlayStake.CallbackRewards
import StarlayStake.IncentivesCallbacks
import StarlayStake.Relay
import StarlayStake.TokenStandard
import StarlayStake.Hook
import StarlayStake.Splitting
