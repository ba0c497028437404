/-
The incentives controller (`stake/IncentivesController.sol`), which pays
the lending pool's rewards and can stake them on the user's behalf, beside
the staking token it stakes in (`PSM`): the two contracts in one world.
-/
import StarlayStake.StakedToken

namespace StarlayStake

/-- The immutables of the controller, and the balances its assets report. -/
structure IncentivesDeployment (W : Type) where
  /-- `address(this)` -/
  self : Address
  REWARD_TOKEN : Address
  REWARDS_VAULT : Address
  EXTRA_PSM_REWARD : Nat
  DISTRIBUTION_END : Nat
  EMISSION_MANAGER : Address
  /-- the controller is a contract, and not at the zero address -/
  self_ne : self ≠ 0
  /-- `IAToken(asset).getScaledUserBalanceAndSupply(user)`: a static call, so
  it changes nothing, but whoever is listed as an asset may answer anew at
  every `place` of a list (by the gas left) -/
  getScaledUserBalanceAndSupply : (asset user : Address) → (place : Nat) → W → Except String (Nat × Nat)

/-- The storage of the controller, the staking token's, and the world. -/
structure System (W : Type) where
  staked : State W
  assets : Address → AssetData
  usersUnclaimedRewards : Address → Nat

/-- Both contracts as deployed. -/
def System.fresh {W : Type} (governance : Address) (world : W) : System W :=
  { staked := .fresh governance world
    assets := fun _ => ⟨0, 0, 0, fun _ => 0⟩
    usersUnclaimedRewards := fun _ => 0 }

namespace IncentivesController

variable {W : Type} (D : Deployment W) (C : IncentivesDeployment W) (m : Msg)

/-- `handleAction`, called by the asset -/
def handleAction (user : Address) (userBalance totalSupply : Nat) (σ : System W) : Except String (System W) := do
  let updated ← DistributionManager.updateUserAssetInternal C.DISTRIBUTION_END m.timestamp user m.sender
    userBalance totalSupply σ.assets
  let accruedRewards := updated.1
  let σ := { σ with assets := updated.2 }
  if accruedRewards ≠ 0 then do
    let rewards ← SafeMath.add (σ.usersUnclaimedRewards user) accruedRewards
    return { σ with usersUnclaimedRewards := Function.update σ.usersUnclaimedRewards user rewards }
  else
    return σ

def configureAssets (assetsConfigInput : List AssetConfigInput) (σ : System W) : Except String (System W) := do
  let assets ← DistributionManager.configureAssets C.EMISSION_MANAGER C.DISTRIBUTION_END m.timestamp m.sender
    assetsConfigInput σ.assets
  return { σ with assets }

/-- `userState`, which `claimRewards` and `getRewardsBalance` gather from a
list of assets before they change or compute anything. -/
def userState (assets : List Address) (user : Address) (w : W) : Except String (List UserStakeInput) :=
  assets.zipIdx.mapM fun (asset, place) => do
    let scaled ← C.getScaledUserBalanceAndSupply asset user place w
    return { underlyingAsset := asset, stakedByUser := scaled.1, totalStaked := scaled.2 }

/-- `getRewardsBalance`, at `timestamp` -/
def getRewardsBalance (timestamp : Nat) (assets : List Address) (user : Address) (σ : System W) :
    Except String Nat := do
  let unclaimedRewards := σ.usersUnclaimedRewards user
  let userState ← userState C assets user σ.staked.world
  let accruedRewards ← DistributionManager.getUnclaimedRewards C.DISTRIBUTION_END timestamp user σ.assets userState
  SafeMath.add unclaimedRewards accruedRewards

/-- `PSM.stake(to, amount)`, called by the controller: the staking token's,
under the version its proxy points at. -/
def stakeInPSM (v : Version) (dst : Address) (amount : Nat) (s : State W) : Except String (State W) :=
  StakedToken.stake D { m with sender := C.self, sender_ne := C.self_ne } v dst amount s

/-- The rewards paid or staked: `amountToClaim`, and the two calls with it. -/
def payRewards (v : Version) (amountToClaim : Nat) (dst : Address) (stake : Bool) (s : State W) :
    Except String (Nat × State W) :=
  if stake = true then do
    let extra ← SafeMath.mul amountToClaim C.EXTRA_PSM_REWARD
    let extra ← SafeMath.div extra 100
    let amountToClaim ← SafeMath.add amountToClaim extra
    let world ← IERC20.transferFrom D.ext C.REWARD_TOKEN C.self C.REWARDS_VAULT C.self amountToClaim s.world
    let s ← stakeInPSM D C m v dst amountToClaim { s with world }
    return (amountToClaim, s)
  else do
    let world ← IERC20.transferFrom D.ext C.REWARD_TOKEN C.self C.REWARDS_VAULT dst amountToClaim s.world
    return (amountToClaim, { s with world })

/-- `claimRewards`: the rewards claimed, and the storages after. -/
def claimRewards (v : Version) (assets : List Address) (amount : Nat) (dst : Address) (stake : Bool)
    (σ : System W) : Except String (Nat × System W) :=
  if amount = 0 then .ok (0, σ)
  else do
    let user := m.sender
    let userState ← userState C assets user σ.staked.world
    let claimed ← DistributionManager.claimRewards C.DISTRIBUTION_END m.timestamp user userState σ.assets
    let accruedRewards := claimed.1
    let σ := { σ with assets := claimed.2 }
    let unclaimedRewards ← (if accruedRewards ≠ 0 then SafeMath.add (σ.usersUnclaimedRewards user) accruedRewards
      else .ok (σ.usersUnclaimedRewards user))
    if unclaimedRewards = 0 then
      return (0, σ)
    else do
      let amountToClaim := if amount > unclaimedRewards then unclaimedRewards else amount
      let σ := { σ with
        usersUnclaimedRewards := Function.update σ.usersUnclaimedRewards user (unclaimedRewards - amountToClaim) }
      let paid ← payRewards D C m v amountToClaim dst stake σ.staked
      return (paid.1, { σ with staked := paid.2 })

end IncentivesController

/-- What can happen to the two contracts: a call to the staking token, a
call to the controller, or anything another account does elsewhere. -/
inductive Action (W : Type)
  | staking (x : Tx)
  | handleAction (m : Msg) (user : Address) (userBalance totalSupply : Nat)
  | configureAssets (m : Msg) (assetsConfigInput : List AssetConfigInput)
  | claimRewards (version : Version) (m : Msg) (assets : List Address) (amount : Nat) (dst : Address) (stake : Bool)
  | getRewardsBalance (m : Msg) (assets : List Address) (user : Address)
  | elsewhere (act : W → Except String W)

namespace System

variable {W : Type} (D : Deployment W) (C : IncentivesDeployment W)

def exec (a : Action W) (σ : System W) : Except String (System W) :=
  match a with
  | .staking x => do
    let staked ← StakedToken.exec D x σ.staked
    return { σ with staked }
  | .handleAction m user userBalance totalSupply =>
    IncentivesController.handleAction C m user userBalance totalSupply σ
  | .configureAssets m inputs => IncentivesController.configureAssets C m inputs σ
  | .claimRewards v m assets amount dst stake => do
    let claimed ← IncentivesController.claimRewards D C m v assets amount dst stake σ
    return claimed.2
  | .getRewardsBalance m assets user => do
    let _ ← IncentivesController.getRewardsBalance C m.timestamp assets user σ
    return σ
  | .elsewhere act => do
    let world ← act σ.staked.world
    return { σ with staked := { σ.staked with world } }

/-- The two contracts and the world after a list of actions. -/
def run (σ : System W) (l : List (Action W)) : System W := Runs.run (exec D C) σ l

end System

end StarlayStake
