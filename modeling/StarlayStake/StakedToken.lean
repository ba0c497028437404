/-
The staking token (`stake/StakedToken.sol`, `stake/StakedTokenV2.sol` and
the contracts they inherit): every entry point, as a function from the
storage before a call to the storage after it, or the reason it reverts.

The versions differ in what they do before a transfer of tokens
(`beforeTokenTransfer`) and in the entry points only version 2 has; the
rest of their code is the same text.
-/
import StarlayStake.Lib.Runs
import StarlayStake.Snapshots

namespace StarlayStake

/-- The entry points that change storage. -/
inductive Call
  | stake (onBehalfOf : Address) (amount : Nat)
  | redeem (dst : Address) (amount : Nat)
  | cooldown
  | claimRewards (dst : Address) (amount : Nat)
  | transfer (recipient : Address) (amount : Nat)
  | transferFrom (sender recipient : Address) (amount : Nat)
  | approve (spender : Address) (amount : Nat)
  | increaseAllowance (spender : Address) (addedValue : Nat)
  | decreaseAllowance (spender : Address) (subtractedValue : Nat)
  | configureAssets (assetsConfigInput : List AssetConfigInput)
  | delegate (delegatee : Address)
  | delegateByType (delegatee : Address) (delegationType : DelegationType)
  | delegateBySig (delegatee : Address) (nonce expiry : Nat) (signature : Signature)
  | delegateByTypeBySig (delegatee : Address) (delegationType : DelegationType) (nonce expiry : Nat)
      (signature : Signature)
  | permit (owner spender : Address) (value deadline : Nat) (signature : Signature)

/-- A call to the proxy, and the version of the code it then pointed at. -/
structure Tx where
  version : Version
  msg : Msg
  call : Call

/-- The type of power a call is about, if it is about one. -/
def Call.delegationType : Call → Option DelegationType
  | .delegateByType _ delegationType => some delegationType
  | .delegateByTypeBySig _ delegationType _ _ _ => some delegationType
  | _ => none

namespace StakedToken

variable {W : Type} (D : Deployment W) (m : Msg)

/-! ## Before a transfer of tokens -/

/-- The call to the governance hook, if one is set. -/
def notifyGovernance (src dst : Address) (amount : Nat) (s : State W) : Except String (State W) :=
  if s.governance ≠ 0 then do
    let world ← D.ext.onTransfer s.governance src dst amount s.world
    return { s with world }
  else .ok s

/-- `_moveDelegatesByType` -/
def moveDelegatesByType (src dst : Address) (amount : Nat) (delegationType : DelegationType) (s : State W) :
    Except String (State W) := do
  let data ← moveDelegates m.number s.balances src dst amount (s.power delegationType)
  return { s with power := Function.update s.power delegationType data }

/-- `_beforeTokenTransfer` of version 1 -/
def beforeTokenTransferV1 (src dst : Address) (amount : Nat) (s : State W) : Except String (State W) :=
  if src = dst then .ok s
  else do
    let data ← moveBalances m.number s.balances src dst amount (s.power .VOTING_POWER)
    notifyGovernance D src dst amount { s with power := Function.update s.power .VOTING_POWER data }

/-- `_beforeTokenTransfer` of version 2 -/
def beforeTokenTransferV2 (src dst : Address) (amount : Nat) (s : State W) : Except String (State W) := do
  let votingFromDelegatee := getDelegatee src (s.power .VOTING_POWER).delegates
  let votingToDelegatee := getDelegatee dst (s.power .VOTING_POWER).delegates
  let s ← moveDelegatesByType m votingFromDelegatee votingToDelegatee amount .VOTING_POWER s
  let propPowerFromDelegatee := getDelegatee src (s.power .PROPOSITION_POWER).delegates
  let propPowerToDelegatee := getDelegatee dst (s.power .PROPOSITION_POWER).delegates
  let s ← moveDelegatesByType m propPowerFromDelegatee propPowerToDelegatee amount .PROPOSITION_POWER s
  notifyGovernance D src dst amount s

def beforeTokenTransfer : Version → (src dst : Address) → (amount : Nat) → State W → Except String (State W)
  | .v1 => beforeTokenTransferV1 D m
  | .v2 => beforeTokenTransferV2 D m

/-! ## ERC20 -/

/-- `ERC20._transfer` -/
def superTransfer (v : Version) (sender recipient : Address) (amount : Nat) (s : State W) :
    Except String (State W) := do
  require (sender ≠ 0) "ERC20: transfer from the zero address"
  require (recipient ≠ 0) "ERC20: transfer to the zero address"
  let s ← beforeTokenTransfer D m v sender recipient amount s
  let senderBalance ← SafeMath.subMsg (s.balances sender) amount "ERC20: transfer amount exceeds balance"
  let s := { s with balances := Function.update s.balances sender senderBalance }
  let recipientBalance ← SafeMath.add (s.balances recipient) amount
  return { s with balances := Function.update s.balances recipient recipientBalance }

/-- `ERC20._mint` -/
def mint (v : Version) (account : Address) (amount : Nat) (s : State W) : Except String (State W) := do
  require (account ≠ 0) "ERC20: mint to the zero address"
  let s ← beforeTokenTransfer D m v 0 account amount s
  let totalSupply ← SafeMath.add s.totalSupply amount
  let accountBalance ← SafeMath.add (s.balances account) amount
  return { s with totalSupply, balances := Function.update s.balances account accountBalance }

/-- `ERC20._burn` -/
def burn (v : Version) (account : Address) (amount : Nat) (s : State W) : Except String (State W) := do
  require (account ≠ 0) "ERC20: burn from the zero address"
  let s ← beforeTokenTransfer D m v account 0 amount s
  let accountBalance ← SafeMath.subMsg (s.balances account) amount "ERC20: burn amount exceeds balance"
  let totalSupply ← SafeMath.sub s.totalSupply amount
  return { s with totalSupply, balances := Function.update s.balances account accountBalance }

/-- `ERC20._approve`, to which `approve`, `increaseAllowance` and
`decreaseAllowance` come down -/
def approve (owner spender : Address) (amount : Nat) (s : State W) : Except String (State W) := do
  require (owner ≠ 0) "ERC20: approve from the zero address"
  require (spender ≠ 0) "ERC20: approve to the zero address"
  return { s with
    allowances := Function.update s.allowances owner (Function.update (s.allowances owner) spender amount) }

def increaseAllowance (spender : Address) (addedValue : Nat) (s : State W) : Except String (State W) := do
  let amount ← SafeMath.add (s.allowances m.sender spender) addedValue
  approve m.sender spender amount s

def decreaseAllowance (spender : Address) (subtractedValue : Nat) (s : State W) : Except String (State W) := do
  let amount ← SafeMath.subMsg (s.allowances m.sender spender) subtractedValue
    "ERC20: decreased allowance below zero"
  approve m.sender spender amount s

/-! ## Rewards and the cooldown -/

/-- `_updateCurrentUnclaimedRewards`: the rewards of the user now, and the
storage after. -/
def updateCurrentUnclaimedRewards (user : Address) (userBalance : Nat) (updateStorage : Bool) (s : State W) :
    Except String (Nat × State W) := do
  let updated ← DistributionManager.updateUserAssetInternal D.DISTRIBUTION_END m.timestamp user D.self
    userBalance s.totalSupply s.assets
  let accruedRewards := updated.1
  let s := { s with assets := updated.2 }
  let unclaimedRewards ← SafeMath.add (s.stakerRewardsToClaim user) accruedRewards
  if accruedRewards ≠ 0 ∧ updateStorage = true then
    return (unclaimedRewards,
      { s with stakerRewardsToClaim := Function.update s.stakerRewardsToClaim user unclaimedRewards })
  else
    return (unclaimedRewards, s)

/-- `getNextCooldownTimestamp` -/
def getNextCooldownTimestamp (fromCooldownTimestamp amountToReceive : Nat) (toAddress : Address)
    (toBalance : Nat) (s : State W) : Except String Nat :=
  let toCooldownTimestamp := s.stakersCooldowns toAddress
  if toCooldownTimestamp = 0 then .ok 0
  else do
    let cooledDown ← SafeMath.sub m.timestamp D.COOLDOWN_SECONDS
    let minimalValidCooldownTimestamp ← SafeMath.sub cooledDown D.UNSTAKE_WINDOW
    if minimalValidCooldownTimestamp > toCooldownTimestamp then .ok 0
    else
      -- the declaration shadows the parameter it reads
      let fromCooldownTimestamp :=
        if minimalValidCooldownTimestamp > fromCooldownTimestamp then m.timestamp else fromCooldownTimestamp
      if fromCooldownTimestamp < toCooldownTimestamp then .ok toCooldownTimestamp
      else do
        -- an argument is evaluated before what the function is called on
        let weight ← SafeMath.add amountToReceive toBalance
        let held ← SafeMath.mul toBalance toCooldownTimestamp
        let received ← SafeMath.mul amountToReceive fromCooldownTimestamp
        let weighted ← SafeMath.add received held
        SafeMath.div weighted weight

/-- `getTotalRewardsBalance`, at `timestamp` -/
def getTotalRewardsBalance (timestamp : Nat) (staker : Address) (s : State W) : Except String Nat := do
  let unclaimed ← DistributionManager.getUnclaimedRewards D.DISTRIBUTION_END timestamp staker s.assets
    [{ underlyingAsset := D.self, stakedByUser := s.balances staker, totalStaked := s.totalSupply }]
  SafeMath.add (s.stakerRewardsToClaim staker) unclaimed

/-! ## The entry points -/

def stake (v : Version) (onBehalfOf : Address) (amount : Nat) (s : State W) : Except String (State W) := do
  require (amount ≠ 0) "INVALID_ZERO_AMOUNT"
  let balanceOfUser := s.balances onBehalfOf
  let updated ← DistributionManager.updateUserAssetInternal D.DISTRIBUTION_END m.timestamp onBehalfOf D.self
    balanceOfUser s.totalSupply s.assets
  let accruedRewards := updated.1
  let s := { s with assets := updated.2 }
  let rewards ← (if accruedRewards ≠ 0 then SafeMath.add (s.stakerRewardsToClaim onBehalfOf) accruedRewards
    else .ok (s.stakerRewardsToClaim onBehalfOf))
  let s := { s with stakerRewardsToClaim := Function.update s.stakerRewardsToClaim onBehalfOf rewards }
  let cooldown ← getNextCooldownTimestamp D m 0 amount onBehalfOf balanceOfUser s
  let s := { s with stakersCooldowns := Function.update s.stakersCooldowns onBehalfOf cooldown }
  let s ← mint D m v onBehalfOf amount s
  let world ← SafeERC20.safeTransferFrom D.ext D.STAKED_TOKEN D.self m.sender D.self amount s.world
  return { s with world }

def redeem (v : Version) (dst : Address) (amount : Nat) (s : State W) : Except String (State W) := do
  require (amount ≠ 0) "INVALID_ZERO_AMOUNT"
  let cooldownStartTimestamp := s.stakersCooldowns m.sender
  let cooldownEnd ← SafeMath.add cooldownStartTimestamp D.COOLDOWN_SECONDS
  require (m.timestamp > cooldownEnd) "INSUFFICIENT_COOLDOWN"
  let elapsed ← SafeMath.sub m.timestamp cooldownEnd
  require (elapsed ≤ D.UNSTAKE_WINDOW) "UNSTAKE_WINDOW_FINISHED"
  let balanceOfMessageSender := s.balances m.sender
  let amountToRedeem := if amount > balanceOfMessageSender then balanceOfMessageSender else amount
  let settled ← updateCurrentUnclaimedRewards D m m.sender balanceOfMessageSender true s
  let s ← burn D m v m.sender amountToRedeem settled.2
  let balanceLeft ← SafeMath.sub balanceOfMessageSender amountToRedeem
  let s := if balanceLeft = 0 then
      { s with stakersCooldowns := Function.update s.stakersCooldowns m.sender 0 } else s
  let world ← SafeERC20.safeTransfer D.ext D.STAKED_TOKEN D.self dst amountToRedeem s.world
  return { s with world }

def cooldown (s : State W) : Except String (State W) := do
  require (s.balances m.sender ≠ 0) "INVALID_BALANCE_ON_COOLDOWN"
  return { s with stakersCooldowns := Function.update s.stakersCooldowns m.sender m.timestamp }

/-- `claimRewards`: the amount of its `RewardsClaimed` event, which it pulls
from the vault, and the storage after. -/
def claimRewards (dst : Address) (amount : Nat) (s : State W) : Except String (Nat × State W) := do
  let settled ← updateCurrentUnclaimedRewards D m m.sender (s.balances m.sender) false s
  let newTotalRewards := settled.1
  let s := settled.2
  let amountToClaim := if amount = uint256Max then newTotalRewards else amount
  let rewardsLeft ← SafeMath.subMsg newTotalRewards amountToClaim "INVALID_AMOUNT"
  let s := { s with stakerRewardsToClaim := Function.update s.stakerRewardsToClaim m.sender rewardsLeft }
  let world ← SafeERC20.safeTransferFrom D.ext D.REWARD_TOKEN D.self D.REWARDS_VAULT dst amountToClaim s.world
  return (amountToClaim, { s with world })

/-- `_transfer` -/
def transfer (v : Version) (src dst : Address) (amount : Nat) (s : State W) : Except String (State W) := do
  let balanceOfFrom := s.balances src
  let settled ← updateCurrentUnclaimedRewards D m src balanceOfFrom true s
  let s := settled.2
  if src ≠ dst then do
    let balanceOfTo := s.balances dst
    let settled ← updateCurrentUnclaimedRewards D m dst balanceOfTo true s
    let s := settled.2
    let previousSenderCooldown := s.stakersCooldowns src
    let cooldown ← getNextCooldownTimestamp D m previousSenderCooldown amount dst balanceOfTo s
    let s := { s with stakersCooldowns := Function.update s.stakersCooldowns dst cooldown }
    let s := if balanceOfFrom = amount ∧ previousSenderCooldown ≠ 0 then
        { s with stakersCooldowns := Function.update s.stakersCooldowns src 0 } else s
    superTransfer D m v src dst amount s
  else
    superTransfer D m v src dst amount s

/-- `transferFrom`, called by `m.sender` -/
def transferFrom (v : Version) (sender recipient : Address) (amount : Nat) (s : State W) :
    Except String (State W) := do
  let s ← transfer D m v sender recipient amount s
  let allowance ← SafeMath.subMsg (s.allowances sender m.sender) amount
    "ERC20: transfer amount exceeds allowance"
  approve sender m.sender allowance s

def configureAssets (assetsConfigInput : List AssetConfigInput) (s : State W) : Except String (State W) := do
  let assets ← DistributionManager.configureAssets D.EMISSION_MANAGER D.DISTRIBUTION_END m.timestamp m.sender
    assetsConfigInput s.assets
  return { s with assets }

/-! ## Delegation and signed messages -/

/-- `_delegateByType` -/
def delegateByType (delegator delegatee : Address) (delegationType : DelegationType) (s : State W) :
    Except String (State W) := do
  require (delegatee ≠ 0) "INVALID_DELEGATEE"
  let data := s.power delegationType
  let delegatorBalance := s.balances delegator
  let previousDelegatee := getDelegatee delegator data.delegates
  let data := { data with delegates := Function.update data.delegates delegator delegatee }
  moveDelegatesByType m previousDelegatee delegatee delegatorBalance delegationType
    { s with power := Function.update s.power delegationType data }

/-- `delegate`, on behalf of `delegator` -/
def delegate (delegator delegatee : Address) (s : State W) : Except String (State W) := do
  let s ← delegateByType m delegator delegatee .VOTING_POWER s
  delegateByType m delegator delegatee .PROPOSITION_POWER s

/-- What `delegateByTypeBySig` and `delegateBySig` check of a message: its
signer, and the storage with the nonce used. The increment is unchecked. -/
def useNonce (message : TypedData) (nonce expiry : Nat) (signature : Signature) (s : State W) :
    Except String (Address × State W) := do
  let signatory ← D.ext.recover message signature
  require (signatory ≠ 0) "INVALID_SIGNATURE"
  let currentNonce := s.nonces signatory
  let s := { s with nonces := Function.update s.nonces signatory ((currentNonce + 1) % 2 ^ 256) }
  require (nonce = currentNonce) "INVALID_NONCE"
  require (m.timestamp ≤ expiry) "INVALID_EXPIRATION"
  return (signatory, s)

def delegateByTypeBySig (delegatee : Address) (delegationType : DelegationType) (nonce expiry : Nat)
    (signature : Signature) (s : State W) : Except String (State W) := do
  let signed ← useNonce D m (.delegateByType delegatee delegationType nonce expiry) nonce expiry signature s
  delegateByType m signed.1 delegatee delegationType signed.2

def delegateBySig (delegatee : Address) (nonce expiry : Nat) (signature : Signature) (s : State W) :
    Except String (State W) := do
  let signed ← useNonce D m (.delegate delegatee nonce expiry) nonce expiry signature s
  delegate m signed.1 delegatee signed.2

def permit (owner spender : Address) (value deadline : Nat) (signature : Signature) (s : State W) :
    Except String (State W) := do
  require (owner ≠ 0) "INVALID_OWNER"
  require (m.timestamp ≤ deadline) "INVALID_EXPIRATION"
  let currentValidNonce := s.nonces owner
  let signatory ← D.ext.recover (.permit owner spender value currentValidNonce deadline) signature
  require (owner = signatory) "INVALID_SIGNATURE"
  let nonce ← SafeMath.add currentValidNonce 1
  approve owner spender value { s with nonces := Function.update s.nonces owner nonce }

/-! ## A call -/

/-- A call under version `v`. Version 1 has no fallback: calls to the entry
points it lacks revert. -/
def step (v : Version) (c : Call) (s : State W) : Except String (State W) :=
  match c with
  | .stake onBehalfOf amount => stake D m v onBehalfOf amount s
  | .redeem dst amount => redeem D m v dst amount s
  | .cooldown => cooldown m s
  | .claimRewards dst amount => do
    let claimed ← claimRewards D m dst amount s
    return claimed.2
  | .transfer recipient amount => transfer D m v m.sender recipient amount s
  | .transferFrom sender recipient amount => transferFrom D m v sender recipient amount s
  | .approve spender amount => approve m.sender spender amount s
  | .increaseAllowance spender addedValue => increaseAllowance m spender addedValue s
  | .decreaseAllowance spender subtractedValue => decreaseAllowance m spender subtractedValue s
  | .configureAssets assetsConfigInput => configureAssets D m assetsConfigInput s
  | .delegate delegatee =>
    match v with
    | .v1 => .error ""
    | .v2 => delegate m m.sender delegatee s
  | .delegateByType delegatee delegationType =>
    match v with
    | .v1 => .error ""
    | .v2 => delegateByType m m.sender delegatee delegationType s
  | .delegateBySig delegatee nonce expiry signature =>
    match v with
    | .v1 => .error ""
    | .v2 => delegateBySig D m delegatee nonce expiry signature s
  | .delegateByTypeBySig delegatee delegationType nonce expiry signature =>
    match v with
    | .v1 => .error ""
    | .v2 => delegateByTypeBySig D m delegatee delegationType nonce expiry signature s
  | .permit owner spender value deadline signature =>
    match v with
    | .v1 => .error ""
    | .v2 => permit D m owner spender value deadline signature s

/-- A transaction. -/
def exec (x : Tx) (s : State W) : Except String (State W) := step D x.msg x.version x.call s

/-- The storage after a list of transactions; one that reverts changes
nothing. -/
def run (s : State W) (l : List Tx) : State W := Runs.run (exec D) s l

theorem run_append (s : State W) (l l' : List Tx) : run D s (l ++ l') = run D (run D s l) l' := Runs.run_append ..

/-! ## Views -/

/-- `getDelegateeByType` -/
def getDelegateeByType (delegator : Address) (delegationType : DelegationType) (s : State W) : Address :=
  getDelegatee delegator (s.power delegationType).delegates

/-- `getPowerAtBlock`, in block `currentBlock` -/
def getPowerAtBlock (currentBlock : Nat) (user : Address) (blockNumber : Nat) (delegationType : DelegationType)
    (s : State W) : Except String Nat :=
  searchByBlockNumber currentBlock s.balances (s.power delegationType) user blockNumber

/-- `getPowerCurrent`, in block `currentBlock` -/
def getPowerCurrent (currentBlock : Nat) (user : Address) (delegationType : DelegationType) (s : State W) :
    Except String Nat :=
  searchByBlockNumber currentBlock s.balances (s.power delegationType) user currentBlock

/-- `totalSupplyAt`: the supply now, whatever the block. -/
def totalSupplyAt (_blockNumber : Nat) (s : State W) : Nat := s.totalSupply

end StakedToken

end StarlayStake
