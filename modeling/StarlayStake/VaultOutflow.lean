/-
What the controller pays out is bounded by what its assets emit. The assets
are contracts of the lending pool, outside: of those configured it is
assumed (`HonestRun`) that their balances sum to their supply, that they
answer and pass the present values, and that they call `handleAction` for a
user before they change that user's balance. Anybody else may call anything.

Every asset owes its users what their balances earned since their indexes,
and will owe what it emitted since its last update (`liability`). A
settlement turns no more of that into unclaimed rewards than it takes away
from it, for a listed asset and for any other address alike (`Funded`).
-/
import StarlayStake.Lib.Accrual
import StarlayStake.Unconfigured

namespace StarlayStake

open Accrual
open Ledger (credit total)
open Outcome (bind_ok_iff pure_ok_iff)
open DistributionManager (settleAsset settleAsset_ok_iff claimStep claimStep_ok_iff precisionUnit precisionUnit_pos
  accrued_ok_iff)
open IncentivesController (userState handleAction_ok_iff claimRewards_ok_iff payUnclaimed_ok_iff
  getRewardsBalance getRewardsBalance_ok_iff)

variable {W : Type}

/-! ## The pool -/

/-- What the assets of the pool are asked for. -/
structure PoolViews (W : Type) where
  balanceOf : W → (asset user : Address) → Nat
  totalSupply : W → (asset : Address) → Nat

/-- A transaction: a call to one of the two contracts, or one to an asset,
which calls `handleAction` for some users and then goes about its business. -/
inductive PoolTx (W : Type)
  | staking (x : Tx)
  | handleAction (m : Msg) (user : Address) (userBalance totalSupply : Nat)
  | configureAssets (m : Msg) (assetsConfigInput : List AssetConfigInput)
  | claimRewards (version : Version) (m : Msg) (assets : List Address) (amount : Nat) (dst : Address) (stake : Bool)
  | move (m : Msg) (users : List Address) (act : W → Except String W)

namespace PoolTx

def msg : PoolTx W → Msg
  | .staking x => x.msg
  | .handleAction m _ _ _ => m
  | .configureAssets m _ => m
  | .claimRewards _ m _ _ _ _ => m
  | .move m _ _ => m

/-- The actions of a transaction that finds the world in `w`; an asset
passes its user's balance and its supply as they are before it changes them. -/
def actions (V : PoolViews W) (w : W) : PoolTx W → List (Action W)
  | .staking x => [.staking x]
  | .handleAction m user userBalance totalSupply => [.handleAction m user userBalance totalSupply]
  | .configureAssets m assetsConfigInput => [.configureAssets m assetsConfigInput]
  | .claimRewards v m assets amount dst stake => [.claimRewards v m assets amount dst stake]
  | .move m users act =>
    users.map (fun user => .handleAction m user (V.balanceOf w m.sender user) (V.totalSupply w m.sender)) ++
      [.elsewhere act]

variable (D : Deployment W) (C : IncentivesDeployment W) (V : PoolViews W)

/-- A transaction reverts as a whole. -/
def exec (x : PoolTx W) (σ : System W) : Except String (System W) :=
  Runs.transact (System.exec D C) σ (x.actions V σ.staked.world)

def run (σ : System W) (l : List (PoolTx W)) : System W := Runs.run (exec D C V) σ l

/-- The balance of `user` in `asset` is one the transaction may change: the
asset has called `handleAction` for it. -/
def Handles (asset user : Address) : PoolTx W → Prop
  | .move m users _ => asset = m.sender ∧ user ∈ users
  | _ => False

/-- The listed assets keep to the rules in a transaction. -/
structure Honest (listed : Address → Prop) (σ σ' : System W) (x : PoolTx W) : Prop where
  /-- they call `handleAction` only as they change balances -/
  sender : ∀ m user userBalance totalSupply, x = .handleAction m user userBalance totalSupply → ¬ listed m.sender
  /-- what is configured is listed, and passed what is staked -/
  entries : ∀ m inputs, x = .configureAssets m inputs → ∀ input ∈ inputs,
    listed input.underlyingAsset ∧ input.totalStaked = V.totalSupply σ.staked.world input.underlyingAsset
  /-- and no balance changes that was not handled first -/
  balances : ∀ asset, listed asset → ∀ user, ¬ x.Handles asset user →
    V.balanceOf σ'.staked.world asset user = V.balanceOf σ.staked.world asset user

end PoolTx

/-- What is assumed of the assets listed, throughout a run. -/
structure HonestRun (D : Deployment W) (C : IncentivesDeployment W) (V : PoolViews W) (listed : Address → Prop)
    (σ : System W) (l : List (PoolTx W)) : Prop where
  answers : ∀ asset, listed asset → ∀ user place w scaled,
    C.getScaledUserBalanceAndSupply asset user place w = .ok scaled →
      scaled = (V.balanceOf w asset user, V.totalSupply w asset)
  supply : ∀ p, p <+: l → ∀ asset, listed asset →
    total (V.balanceOf (PoolTx.run D C V σ p).staked.world asset) =
      V.totalSupply (PoolTx.run D C V σ p).staked.world asset
  honest : ∀ p x σ', p ++ [x] <+: l → PoolTx.exec D C V x (PoolTx.run D C V σ p) = .ok σ' →
    x.Honest V listed (PoolTx.run D C V σ p) σ'

/-! ## The books -/

namespace IncentivesController

/-- What a claim adds to the unclaimed rewards before it pays. -/
def newlyAccrued (C : IncentivesDeployment W) (m : Msg) (assets : List Address) (amount : Nat) (σ : System W) : Nat :=
  if amount = 0 then 0
  else
    match (do
      let stakes ← userState C assets m.sender σ.staked.world
      DistributionManager.claimRewards C.DISTRIBUTION_END m.timestamp m.sender stakes σ.assets) with
    | .ok (accruedRewards, _) => accruedRewards
    | .error _ => 0

/-- What a claim takes off the user's rewards. -/
def debited (C : IncentivesDeployment W) (m : Msg) (assets : List Address) (amount : Nat) (σ : System W) : Nat :=
  min amount (σ.usersUnclaimedRewards m.sender + newlyAccrued C m assets amount σ)

end IncentivesController

namespace PoolTx

def debited (C : IncentivesDeployment W) (x : PoolTx W) (σ : System W) : Nat :=
  match x with
  | .claimRewards _ m assets amount _ _ => IncentivesController.debited C m assets amount σ
  | _ => 0

/-- What a successful transaction draws from the vault. -/
def drawn (D : Deployment W) (C : IncentivesDeployment W) (x : PoolTx W) (σ : System W) : Nat :=
  match x with
  | .claimRewards v m assets amount dst stake =>
    match IncentivesController.claimRewards D C m v assets amount dst stake σ with
    | .ok (amountToClaim, _) => amountToClaim
    | .error _ => 0
  | _ => 0

end PoolTx

structure Outflow where
  /-- the time up to which the books are kept -/
  time : Nat
  /-- what every asset emitted before the end of the distribution -/
  emitted : Address → Nat
  debited : Nat
  drawn : Nat

namespace Outflow

def empty : Outflow := { time := 0, emitted := fun _ => 0, debited := 0, drawn := 0 }

/-- The books brought forward to `T`, with the emissions in force in `σ`. -/
def upTo (C : IncentivesDeployment W) (σ : System W) (T : Nat) (b : Outflow) : Outflow :=
  { b with
    time := T
    emitted := fun a => b.emitted a +
      (σ.assets a).emissionPerSecond * (min T C.DISTRIBUTION_END - min b.time C.DISTRIBUTION_END) }

/-- What is noted down of a successful transaction. -/
def note (D : Deployment W) (C : IncentivesDeployment W) (x : PoolTx W) (σ _σ' : System W) (b : Outflow) : Outflow :=
  { b.upTo C σ x.msg.timestamp with
    debited := b.debited + x.debited C σ
    drawn := b.drawn + x.drawn D C σ }

end Outflow

/-- The books kept beside a run. -/
def outflow (D : Deployment W) (C : IncentivesDeployment W) (V : PoolViews W) (σ : System W) (l : List (PoolTx W)) :
    Outflow :=
  (Runs.run (Runs.record (PoolTx.exec D C V) (Outflow.note D C)) (σ, .empty) l).2

variable {D : Deployment W} {C : IncentivesDeployment W} {V : PoolViews W} {listed : Address → Prop}

/-! ## What an asset owes -/

section

variable {E T T' r staked supply i : Nat} {asset u v : Address} {balances balances' : Address → Nat} {a a' : AssetData}

/-- What an asset owes its users, and will owe once it is updated, in parts
of the unit. -/
noncomputable def liability (DISTRIBUTION_END timestamp : Nat) (balances : Address → Nat) (a : AssetData) : Nat :=
  owed balances a.index a.users + precisionUnit *
    (a.emissionPerSecond * (min timestamp DISTRIBUTION_END - min a.lastUpdateTimestamp DISTRIBUTION_END))

/-- What is assumed of the record of an asset by the time `now`. -/
structure AssetOk (listed : Address → Prop) (now : Nat) (asset : Address) (a : AssetData) : Prop where
  last : a.lastUpdateTimestamp ≤ now
  indexed : ∀ u, a.users u ≤ a.index
  inert : ¬ listed asset → Inert a

theorem AssetOk.mono (h : AssetOk listed T asset a) (hle : T ≤ T') : AssetOk listed T' asset a :=
  ⟨h.last.trans hle, h.indexed, h.inert⟩

theorem AssetOk.settle (hT : T < 2 ^ 128) (h : AssetOk listed T asset a)
    (ha : settleAsset E T u staked supply a = .ok (r, a')) : AssetOk listed T asset a' := by
  refine ⟨?_, fun v => ?_, fun hnot => ((h.inert hnot).settle ha).2⟩
  all_goals obtain ⟨i, hi, -, rfl⟩ := settleAsset_ok_iff.1 ha
  · exact (DistributionManager.storedTimestamp_of_lt hT).le
  · have hv := (h.indexed v).trans (DistributionManager.getAssetIndex_ok hi ▸ Nat.le_add_right _ _)
    simp only [AssetData.setUser, AssetData.settled, Function.update_apply]
    split
    · exact le_refl _
    · exact hv

/-- An update takes what was pending into the index. -/
theorem owed_update (h : AssetOk listed T asset a)
    (hi : DistributionManager.getAssetIndex E T a.index a.emissionPerSecond a.lastUpdateTimestamp (total balances) =
      .ok i) : owed balances i a.users ≤ liability E T balances a := by
  rw [DistributionManager.getAssetIndex_ok hi]
  exact owed_grow h.indexed rfl

/-- A settlement credits no more than it takes from what the asset owes. -/
theorem liability_settle (hT : T < 2 ^ 128) (h : AssetOk listed T asset a)
    (ha : settleAsset E T u (balances u) (total balances) a = .ok (r, a')) :
    liability E T balances a' + precisionUnit * r ≤ liability E T balances a := by
  obtain ⟨i, hi, hr, rfl⟩ := settleAsset_ok_iff.1 ha
  have hle : a.users u ≤ i := (h.indexed u).trans (DistributionManager.getAssetIndex_ok hi ▸ Nat.le_add_right _ _)
  obtain ⟨-, rfl⟩ := (accrued_ok_iff hle).1 hr
  have hnow : liability E T balances ((a.settled (DistributionManager.storedTimestamp T a) i).setUser u i) =
      owed balances i (Function.update a.users u i) := by
    simp [liability, AssetData.settled, AssetData.setUser, DistributionManager.storedTimestamp_of_lt hT]
  rw [hnow]
  exact (owed_settle u).trans (owed_update h hi)

/-- Where nothing was ever emitted nothing is owed, whatever is held. -/
theorem Inert.liability (h : Inert a) : liability E T balances a = 0 := by
  simp [StarlayStake.liability, owed, h.emission, h.index]

/-- As time passes the asset owes what it emits. -/
theorem liability_mono (hlast : a.lastUpdateTimestamp ≤ T) (hle : T ≤ T') :
    liability E T' balances a =
      liability E T balances a + precisionUnit * (a.emissionPerSecond * (min T' E - min T E)) := by
  have hsplit : min T' E - min a.lastUpdateTimestamp E =
      min T E - min a.lastUpdateTimestamp E + (min T' E - min T E) := by omega
  rw [liability, liability, hsplit, Nat.mul_add, Nat.mul_add, Nat.add_assoc]

theorem DistributionManager.UpToDate.settle (h : DistributionManager.UpToDate T u a)
    (ha : settleAsset E T v staked supply a = .ok (r, a')) : DistributionManager.UpToDate T u a' := by
  obtain ⟨i, hi, -, rfl⟩ := settleAsset_ok_iff.1 ha
  obtain rfl := Except.ok.inj (h.getAssetIndex.symm.trans hi)
  refine ⟨by simp [AssetData.setUser, AssetData.settled, DistributionManager.storedTimestamp, h.1], ?_⟩
  simp only [AssetData.setUser, AssetData.settled, Function.update_apply]
  split
  · rfl
  · exact h.2

end

/-! ## What every step keeps -/

/-- What is credited to users, with what the assets owe them, is within what
was emitted. -/
structure Funded (C : IncentivesDeployment W) (V : PoolViews W) (listed : Address → Prop) (w : W) (now : Nat)
    (assets : Address → AssetData) (credited : Nat) (emitted : Address → Nat) : Prop where
  ok : ∀ asset, AssetOk listed now asset (assets asset)
  funded : precisionUnit * credited + ∑ a, liability C.DISTRIBUTION_END now (V.balanceOf w a) (assets a) ≤
    precisionUnit * ∑ a, emitted a

section

variable {w w' : W} {T T' k n n' r : Nat} {asset u : Address} {a' : AssetData} {assets assets' : Address → AssetData}
  {emitted : Address → Nat}

/-- One asset is replaced by one that owes less, by what is credited. -/
theorem Funded.replace (h : Funded C V listed w T assets k emitted) (hok : AssetOk listed T asset a')
    (hle : liability C.DISTRIBUTION_END T (V.balanceOf w asset) a' + precisionUnit * r ≤
      liability C.DISTRIBUTION_END T (V.balanceOf w asset) (assets asset)) :
    Funded C V listed w T (Function.update assets asset a') (k + r) emitted := by
  refine ⟨fun a => ?_, ?_⟩
  · by_cases ha : a = asset
    · subst ha; rw [Function.update_self]; exact hok
    · rw [Function.update_of_ne ha]; exact h.ok a
  · have hoff : ∀ z, z ≠ asset →
        liability C.DISTRIBUTION_END T (V.balanceOf w z) (Function.update assets asset a' z) =
          liability C.DISTRIBUTION_END T (V.balanceOf w z) (assets z) := fun z hz => by rw [Function.update_of_ne hz]
    have hsum := Ledger.total_of_eq_off
      (b := fun z => liability C.DISTRIBUTION_END T (V.balanceOf w z) (assets z)) hoff
    have hfunded := h.funded
    rw [Function.update_self, Ledger.total_def, Ledger.total_def] at hsum
    rw [Nat.mul_add]
    omega

/-- What a listed asset passes, or says, in a settlement. -/
def Truthful (V : PoolViews W) (listed : Address → Prop) (w : W) (asset user : Address) (staked supply : Nat) : Prop :=
  listed asset → staked = V.balanceOf w asset user ∧ supply = total (V.balanceOf w asset)

theorem Funded.settle {staked supply : Nat} (hT : T < 2 ^ 128) (h : Funded C V listed w T assets k emitted)
    (htrue : Truthful V listed w asset u staked supply)
    (ha : settleAsset C.DISTRIBUTION_END T u staked supply (assets asset) = .ok (r, a')) :
    Funded C V listed w T (Function.update assets asset a') (k + r) emitted := by
  refine h.replace ((h.ok asset).settle hT ha) ?_
  by_cases hl : listed asset
  · obtain ⟨rfl, rfl⟩ := htrue hl
    exact liability_settle hT (h.ok asset) ha
  · obtain ⟨rfl, ha'⟩ := ((h.ok asset).inert hl).settle ha
    rw [ha'.liability]
    exact Nat.zero_le _

theorem Funded.configure {input : AssetConfigInput} (hT : T < 2 ^ 128) (h : Funded C V listed w T assets k emitted)
    (hl : listed input.underlyingAsset) (hsupply : input.totalStaked = total (V.balanceOf w input.underlyingAsset))
    (ha : DistributionManager.configureAsset C.DISTRIBUTION_END T assets input = .ok assets') :
    Funded C V listed w T assets' k emitted := by
  obtain ⟨i, hi, rfl⟩ := (DistributionManager.configureAsset_ok_iff hT).1 ha
  rw [hsupply] at hi
  refine h.replace (r := 0) ⟨le_refl _, fun u => ?_, fun hnot => absurd hl hnot⟩ ?_
  · exact ((h.ok _).indexed u).trans (DistributionManager.getAssetIndex_ok hi ▸ Nat.le_add_right _ _)
  · have hupdate := owed_update (h.ok _) hi
    simpa [liability, AssetData.settled] using hupdate

/-- A loop of settlements that listed assets answer truthfully. -/
theorem Funded.claim {stakes : List UserStakeInput} (hT : T < 2 ^ 128)
    (h : Funded C V listed w T assets (k + n) emitted)
    (htrue : ∀ s ∈ stakes, Truthful V listed w s.underlyingAsset u s.stakedByUser s.totalStaked)
    (hs : Runs.transact (claimStep C.DISTRIBUTION_END T u) (n, assets) stakes = .ok (n', assets')) :
    Funded C V listed w T assets' (k + n') emitted := by
  induction stakes generalizing n assets with
  | nil =>
    obtain ⟨rfl, rfl⟩ := Prod.mk.inj (Except.ok.inj hs)
    exact h
  | cons s stakes ih =>
    rw [List.forall_mem_cons] at htrue
    obtain ⟨⟨n₁, assets₁⟩, hs, hl⟩ := Runs.transact_cons_ok_iff.1 hs
    obtain ⟨r, a, ha, -, rfl, rfl⟩ := claimStep_ok_iff.1 hs
    have h₁ := h.settle hT htrue.1 ha
    rw [Nat.add_assoc] at h₁
    exact ih h₁ htrue.2 hl

/-- Balances may change where the user's index is up to date. -/
theorem Funded.world (h : Funded C V listed w T assets k emitted)
    (hw : ∀ a, listed a → ∀ u, V.balanceOf w' a u ≠ V.balanceOf w a u → (assets a).users u = (assets a).index) :
    Funded C V listed w' T assets k emitted := by
  refine ⟨h.ok, ?_⟩
  have hsame : ∀ a, liability C.DISTRIBUTION_END T (V.balanceOf w' a) (assets a) =
      liability C.DISTRIBUTION_END T (V.balanceOf w a) (assets a) := by
    intro a
    by_cases hl : listed a
    · rw [liability, liability, owed_rebalance (hw a hl)]
    · rw [((h.ok a).inert hl).liability, ((h.ok a).inert hl).liability]
  simp only [hsame]
  exact h.funded

/-- As time passes, what is emitted covers what the assets owe. -/
theorem Funded.mono (h : Funded C V listed w T assets k emitted) (hle : T ≤ T') :
    Funded C V listed w T' assets k fun a =>
      emitted a + (assets a).emissionPerSecond * (min T' C.DISTRIBUTION_END - min T C.DISTRIBUTION_END) := by
  refine ⟨fun a => (h.ok a).mono hle, ?_⟩
  have hlater : ∀ a, liability C.DISTRIBUTION_END T' (V.balanceOf w a) (assets a) =
      liability C.DISTRIBUTION_END T (V.balanceOf w a) (assets a) +
        precisionUnit * ((assets a).emissionPerSecond * (min T' C.DISTRIBUTION_END - min T C.DISTRIBUTION_END)) :=
    fun a => liability_mono (h.ok a).last hle
  simp only [hlater, Finset.sum_add_distrib, Nat.mul_add, ← Finset.mul_sum]
  have := h.funded
  omega

end

/-! ## The entry points -/

section

variable {m : Msg} {v : Version} {σ σ' : System W} {user : Address} {k n : Nat} {emitted : Address → Nat}

theorem Funded.handleAction {userBalance totalSupply : Nat} (hT : m.timestamp < 2 ^ 128)
    (h : Funded C V listed σ.staked.world m.timestamp σ.assets (total σ.usersUnclaimedRewards + k) emitted)
    (htrue : Truthful V listed σ.staked.world m.sender user userBalance totalSupply)
    (hx : IncentivesController.handleAction C m user userBalance totalSupply σ = .ok σ') :
    Funded C V listed σ.staked.world m.timestamp σ'.assets (total σ'.usersUnclaimedRewards + k) emitted ∧
      DistributionManager.UpToDate m.timestamp user (σ'.assets m.sender) ∧
      (∀ u, DistributionManager.UpToDate m.timestamp u (σ.assets m.sender) →
        DistributionManager.UpToDate m.timestamp u (σ'.assets m.sender)) ∧ σ'.staked = σ.staked := by
  obtain ⟨r, a, ha, -, rfl⟩ := handleAction_ok_iff.1 hx
  have hself : ∀ u, DistributionManager.UpToDate m.timestamp u a →
      DistributionManager.UpToDate m.timestamp u (Function.update σ.assets m.sender a m.sender) := fun u hu => by
    rwa [Function.update_self]
  refine ⟨?_, hself user ?_, fun u hu => hself u (hu.settle ha), rfl⟩
  · show Funded C V listed _ _ _ (total (credit σ.usersUnclaimedRewards user r) + k) emitted
    rw [Ledger.total_credit, Nat.add_right_comm]
    exact h.settle hT htrue ha
  · obtain ⟨i, -, -, rfl⟩ := settleAsset_ok_iff.1 ha
    exact ⟨DistributionManager.storedTimestamp_of_lt hT, Function.update_self ..⟩

/-- An asset that calls `handleAction` for some users, with their balances
as they are, brings them up to date. -/
theorem Funded.handled {users : List Address} (hT : m.timestamp < 2 ^ 128)
    (hsupply : listed m.sender → total (V.balanceOf σ.staked.world m.sender) = V.totalSupply σ.staked.world m.sender)
    (h : Funded C V listed σ.staked.world m.timestamp σ.assets (total σ.usersUnclaimedRewards + k) emitted)
    (hx : Runs.transact (System.exec D C) σ (users.map fun user => .handleAction m user
      (V.balanceOf σ.staked.world m.sender user) (V.totalSupply σ.staked.world m.sender)) = .ok σ') :
    Funded C V listed σ.staked.world m.timestamp σ'.assets (total σ'.usersUnclaimedRewards + k) emitted ∧
      (∀ u ∈ users, DistributionManager.UpToDate m.timestamp u (σ'.assets m.sender)) ∧ σ'.staked = σ.staked := by
  induction users using List.reverseRecOn generalizing σ' with
  | nil =>
    obtain rfl := Except.ok.inj hx
    exact ⟨h, fun _ hu => absurd hu (by simp), rfl⟩
  | append_singleton users user ih =>
    rw [List.map_append, List.map_singleton, Runs.transact_concat_ok_iff] at hx
    obtain ⟨σ₁, hx, hlast⟩ := hx
    obtain ⟨h₁, hdate, hstaked⟩ := ih hx
    have htrue : Truthful V listed σ.staked.world m.sender user (V.balanceOf σ.staked.world m.sender user)
        (V.totalSupply σ.staked.world m.sender) := fun hl => ⟨rfl, (hsupply hl).symm⟩
    rw [← hstaked] at h₁ htrue hlast ⊢
    obtain ⟨h', hself, hkept, hstaked'⟩ := h₁.handleAction hT htrue hlast
    refine ⟨h', fun u hu => ?_, hstaked'⟩
    rw [List.mem_append, List.mem_singleton] at hu
    rcases hu with hu | rfl
    · exact hkept u (hdate u hu)
    · exact hself

theorem Funded.configureAssets {inputs : List AssetConfigInput} (hT : m.timestamp < 2 ^ 128)
    (h : Funded C V listed σ.staked.world m.timestamp σ.assets (total σ.usersUnclaimedRewards + k) emitted)
    (hentries : ∀ input ∈ inputs, listed input.underlyingAsset ∧
      input.totalStaked = total (V.balanceOf σ.staked.world input.underlyingAsset))
    (hx : IncentivesController.configureAssets C m inputs σ = .ok σ') :
    Funded C V listed σ.staked.world m.timestamp σ'.assets (total σ'.usersUnclaimedRewards + k) emitted := by
  obtain ⟨-, assets, hfold, rfl⟩ := IncentivesController.configureAssets_ok_iff.1 hx
  show Funded C V listed _ _ assets (total σ.usersUnclaimedRewards + k) emitted
  clear hx
  generalize σ.assets = before at h hfold
  induction inputs generalizing before with
  | nil => exact Except.ok.inj hfold ▸ h
  | cons input inputs ih =>
    rw [List.forall_mem_cons] at hentries
    simp only [List.foldlM_cons, bind_ok_iff] at hfold
    obtain ⟨assets₁, hs, hfold⟩ := hfold
    exact ih hentries.2 _ (h.configure hT hentries.1.1 hentries.1.2 hs) hfold

/-! ## A claim -/

namespace IncentivesController

variable {assets : List Address} {amount unclaimed : Nat} {dst : Address} {stake : Bool} {s s' : State W}

/-- What is paid for a debit of `d`: as much, or more when it is staked. -/
def payment (C : IncentivesDeployment W) (d : Nat) (stake : Bool) : Nat :=
  if stake = true then d + d * C.EXTRA_PSM_REWARD / 100 else d

theorem payment_le (d : Nat) (stake : Bool) : payment C d stake * 100 ≤ (100 + C.EXTRA_PSM_REWARD) * d := by
  have hextra := Nat.div_mul_le_self (d * C.EXTRA_PSM_REWARD) 100
  have hmul : (100 + C.EXTRA_PSM_REWARD) * d = d * 100 + d * C.EXTRA_PSM_REWARD := by ring
  unfold payment
  split <;> omega

/-- The payment leaves the vault for the recipient, or for the controller,
which stakes it. -/
def Drawn (D : Deployment W) (C : IncentivesDeployment W) (m : Msg) (v : Version) (dst : Address) (stake : Bool)
    (n : Nat) (s s' : State W) : Prop :=
  ∃ w, IERC20.transferFrom D.ext C.REWARD_TOKEN C.self C.REWARDS_VAULT (if stake = true then C.self else dst) n
      s.world = .ok w ∧
    if stake = true then stakeInPSM D C m v dst n { s with world := w } = .ok s' else s' = { s with world := w }

/-- The surplus of a stake can be computed. -/
def SurplusFits (C : IncentivesDeployment W) (d : Nat) (stake : Bool) : Prop :=
  stake = true → d * C.EXTRA_PSM_REWARD < 2 ^ 256 ∧ payment C d stake < 2 ^ 256

theorem payRewards_ok_iff {d : Nat} :
    payRewards D C m v d dst stake s = .ok (n, s') ↔
      n = payment C d stake ∧ SurplusFits C d stake ∧ Drawn D C m v dst stake n s s' := by
  unfold payRewards SurplusFits payment Drawn
  cases stake with
  | true =>
    simp only [if_true, bind_ok_iff, pure_ok_iff, Prod.mk.injEq, SafeMath.mul_ok_iff, SafeMath.div_ok_iff,
      SafeMath.add_ok_iff, true_implies]
    constructor
    · rintro ⟨_, ⟨hmul, rfl⟩, _, ⟨-, rfl⟩, _, ⟨hadd, rfl⟩, w, hw, _, hs, rfl, rfl⟩
      exact ⟨rfl, ⟨hmul, hadd⟩, w, hw, hs⟩
    · rintro ⟨rfl, ⟨hmul, hadd⟩, w, hw, hs⟩
      exact ⟨_, ⟨hmul, rfl⟩, _, ⟨by decide, rfl⟩, _, ⟨hadd, rfl⟩, w, hw, _, hs, rfl, rfl⟩
  | false =>
    simp only [Bool.false_eq_true, if_false, bind_ok_iff, pure_ok_iff, Prod.mk.injEq, false_implies, true_and]
    constructor
    · rintro ⟨w, hw, rfl, rfl⟩
      exact ⟨rfl, w, hw, rfl⟩
    · rintro ⟨rfl, w, hw, rfl⟩
      exact ⟨w, hw, rfl, rfl⟩

theorem newlyAccrued_eq {stakes : List UserStakeInput} {r : Nat} {assets' : Address → AssetData} (hne : amount ≠ 0)
    (hstakes : userState C assets m.sender σ.staked.world = .ok stakes)
    (hclaim : DistributionManager.claimRewards C.DISTRIBUTION_END m.timestamp m.sender stakes σ.assets =
      .ok (r, assets')) : newlyAccrued C m assets amount σ = r := by
  simp only [newlyAccrued, hne, if_false, hstakes, Outcome.ok_bind, hclaim]

theorem debited_eq {stakes : List UserStakeInput} {r : Nat} {assets' : Address → AssetData} (hne : amount ≠ 0)
    (hstakes : userState C assets m.sender σ.staked.world = .ok stakes)
    (hclaim : DistributionManager.claimRewards C.DISTRIBUTION_END m.timestamp m.sender stakes σ.assets =
      .ok (r, assets')) : debited C m assets amount σ = min amount (σ.usersUnclaimedRewards m.sender + r) := by
  rw [debited, newlyAccrued_eq hne hstakes hclaim]

/-- A claim debits the amount, or all the user has if that is less, and
draws the payment for it. -/
theorem claim_exact (h : claimRewards D C m v assets amount dst stake σ = .ok (n, σ')) :
    σ'.usersUnclaimedRewards = Function.update σ.usersUnclaimedRewards m.sender
        (σ.usersUnclaimedRewards m.sender + newlyAccrued C m assets amount σ - debited C m assets amount σ) ∧
      n = payment C (debited C m assets amount σ) stake ∧
      (debited C m assets amount σ = 0 ∧ σ'.staked = σ.staked ∨ Drawn D C m v dst stake n σ.staked σ'.staked) := by
  rcases claimRewards_ok_iff.1 h with ⟨rfl, rfl, rfl⟩ | ⟨hne, stakes, r, assets', hstakes, hclaim, -, hpay⟩
  · have hd : debited C m assets 0 σ' = 0 := Nat.zero_min _
    rw [hd]
    refine ⟨?_, by simp [payment], .inl ⟨rfl, rfl⟩⟩
    rw [newlyAccrued, if_pos rfl, Nat.add_zero, Nat.sub_zero, Function.update_eq_self]
  · have hr : newlyAccrued C m assets amount σ = r := newlyAccrued_eq hne hstakes hclaim
    rw [debited_eq hne hstakes hclaim, hr]
    rcases payUnclaimed_ok_iff.1 hpay with ⟨hzero, rfl, rfl⟩ | ⟨-, s, hs, rfl⟩
    · rw [hzero, Nat.min_zero]
      refine ⟨?_, by simp [payment], .inl ⟨rfl, rfl⟩⟩
      have : σ.usersUnclaimedRewards m.sender = 0 := by omega
      show σ.usersUnclaimedRewards = _
      rw [Nat.sub_zero, ← this, Function.update_eq_self]
    · obtain ⟨hn, -, hdrawn⟩ := payRewards_ok_iff.1 hs
      exact ⟨rfl, hn, .inr hdrawn⟩

end IncentivesController

/-- What listed assets answer is truthful. -/
theorem truthful_of_userState {assets : List Address} {stakes : List UserStakeInput} {w : W}
    (hanswers : ∀ asset, listed asset → ∀ user place w scaled,
      C.getScaledUserBalanceAndSupply asset user place w = .ok scaled →
        scaled = (V.balanceOf w asset user, V.totalSupply w asset))
    (hsupply : ∀ asset, listed asset → total (V.balanceOf w asset) = V.totalSupply w asset)
    (h : userState C assets user w = .ok stakes) :
    ∀ s ∈ stakes, Truthful V listed w s.underlyingAsset user s.stakedByUser s.totalStaked := by
  intro s hs hl
  rw [IncentivesController.userState_eq] at h
  obtain ⟨⟨asset, place⟩, -, hentry⟩ := Outcome.mem_of_mapM_ok h hs
  obtain ⟨scaled, hscaled, rfl⟩ := IncentivesController.entry_ok_iff.1 hentry
  obtain rfl := hanswers asset hl user place w scaled hscaled
  exact ⟨rfl, (hsupply asset hl).symm⟩

/-- A claim credits what it accrues and takes off what it debits. -/
theorem Funded.claimRewards {assets : List Address} {amount : Nat} {dst : Address} {stake : Bool}
    (hT : m.timestamp < 2 ^ 128)
    (htrue : ∀ {stakes}, userState C assets m.sender σ.staked.world = .ok stakes →
      ∀ s ∈ stakes, Truthful V listed σ.staked.world s.underlyingAsset m.sender s.stakedByUser s.totalStaked)
    (h : Funded C V listed σ.staked.world m.timestamp σ.assets (total σ.usersUnclaimedRewards + k) emitted)
    (hx : IncentivesController.claimRewards D C m v assets amount dst stake σ = .ok (n, σ')) :
    Funded C V listed σ.staked.world m.timestamp σ'.assets
      (total σ'.usersUnclaimedRewards + (k + IncentivesController.debited C m assets amount σ)) emitted := by
  have hbooked := (IncentivesController.claim_exact hx).1
  -- what the user has afterwards and was debited is what they had and accrued
  have htotal : total σ'.usersUnclaimedRewards + IncentivesController.debited C m assets amount σ =
      total σ.usersUnclaimedRewards + IncentivesController.newlyAccrued C m assets amount σ := by
    have hoff : ∀ u, u ≠ m.sender → σ'.usersUnclaimedRewards u = σ.usersUnclaimedRewards u := fun u hu => by
      rw [hbooked, Function.update_of_ne hu]
    have hsum := Ledger.total_of_eq_off hoff
    have hself := congrFun hbooked m.sender
    rw [Function.update_self] at hself
    have hle : IncentivesController.debited C m assets amount σ ≤ σ.usersUnclaimedRewards m.sender + _ :=
      Nat.min_le_right _ _
    omega
  have hcredited : total σ'.usersUnclaimedRewards + (k + IncentivesController.debited C m assets amount σ) =
      total σ.usersUnclaimedRewards + k + IncentivesController.newlyAccrued C m assets amount σ := by omega
  rw [hcredited]
  rcases claimRewards_ok_iff.1 hx with ⟨rfl, -, rfl⟩ | ⟨hne, stakes, r, assets', hstakes, hclaim, -, hpay⟩
  · simpa [IncentivesController.newlyAccrued] using h
  · rw [IncentivesController.assets_of_payUnclaimed hpay, IncentivesController.newlyAccrued_eq hne hstakes hclaim]
    rw [DistributionManager.claimRewards_eq] at hclaim
    exact Funded.claim (n := 0) hT h (htrue hstakes) hclaim

end

/-! ## Transactions -/

/-- The books cover what users can claim and what was paid. -/
structure Solvent (C : IncentivesDeployment W) (V : PoolViews W) (listed : Address → Prop) (now : Nat) (σ : System W)
    (b : Outflow) : Prop where
  time_le : b.time ≤ now
  funded : Funded C V listed σ.staked.world b.time σ.assets (total σ.usersUnclaimedRewards + b.debited) b.emitted
  drawn : b.drawn * 100 ≤ (100 + C.EXTRA_PSM_REWARD) * b.debited

section

variable {σ σ' : System W} {b : Outflow} {now T : Nat} {x : PoolTx W}

theorem Solvent.upTo (h : Solvent C V listed now σ b) (hle : b.time ≤ T) :
    Funded C V listed σ.staked.world T σ.assets (total σ.usersUnclaimedRewards + b.debited) (b.upTo C σ T).emitted :=
  h.funded.mono hle

/-- An honest transaction keeps them so. -/
theorem Solvent.step (hT : x.msg.timestamp < 2 ^ 128)
    (hanswers : ∀ asset, listed asset → ∀ user place w scaled,
      C.getScaledUserBalanceAndSupply asset user place w = .ok scaled →
        scaled = (V.balanceOf w asset user, V.totalSupply w asset))
    (hsupply : ∀ asset, listed asset →
      total (V.balanceOf σ.staked.world asset) = V.totalSupply σ.staked.world asset)
    (hhonest : x.Honest V listed σ σ') (h : Solvent C V listed x.msg.timestamp σ b)
    (hx : PoolTx.exec D C V x σ = .ok σ') :
    Solvent C V listed x.msg.timestamp σ' (b.note D C x σ σ') := by
  have hforward := h.upTo h.time_le
  -- a world in which no balance of a listed asset changed
  have hsame : (∀ asset user, ¬ x.Handles asset user) → ∀ {assets k emitted},
      Funded C V listed σ.staked.world x.msg.timestamp assets k emitted →
      Funded C V listed σ'.staked.world x.msg.timestamp assets k emitted := fun hnone _ _ _ hfunded =>
    hfunded.world fun a hl u hne => absurd (hhonest.balances a hl u (hnone a u)) hne
  have hone : ∀ a : Action W, Runs.transact (System.exec D C) σ [a] = .ok σ' → System.exec D C a σ = .ok σ' := by
    intro a ha
    obtain ⟨σ₁, ha, hnil⟩ := Runs.transact_cons_ok_iff.1 ha
    exact Except.ok.inj hnil ▸ ha
  refine ⟨le_refl _, ?_, ?_⟩
  · cases x with
    | staking x =>
      have hstep := hone _ hx
      simp only [System.exec, bind_ok_iff, pure_ok_iff] at hstep
      obtain ⟨s, -, rfl⟩ := hstep
      exact hsame (fun _ _ h => h) hforward
    | handleAction m user userBalance totalSupply =>
      have htrue : Truthful V listed σ.staked.world m.sender user userBalance totalSupply :=
        fun hl => absurd hl (hhonest.sender m user userBalance totalSupply rfl)
      exact hsame (fun _ _ h => h) (hforward.handleAction hT htrue (hone _ hx)).1
    | configureAssets m inputs =>
      refine hsame (fun _ _ h => h) (hforward.configureAssets hT (fun input hinput => ?_) (hone _ hx))
      obtain ⟨hl, htotal⟩ := hhonest.entries m inputs rfl input hinput
      exact ⟨hl, htotal.trans (hsupply _ hl).symm⟩
    | claimRewards v m assets amount dst stake =>
      obtain ⟨n, hclaim⟩ := System.exec_claimRewards_ok_iff.1 (hone _ hx)
      exact hsame (fun _ _ h => h) (hforward.claimRewards hT (truthful_of_userState hanswers hsupply) hclaim)
    | move m users act =>
      obtain ⟨σ₁, hhandled, hact⟩ := Runs.transact_concat_ok_iff.1 hx
      obtain ⟨hfunded, hdate, hstaked⟩ := hforward.handled hT (hsupply m.sender) hhandled
      simp only [System.exec, bind_ok_iff, pure_ok_iff] at hact
      obtain ⟨w, -, rfl⟩ := hact
      refine hfunded.world fun a hl u hne => ?_
      -- whose balance changed was handled, and is up to date
      by_cases hhandles : (PoolTx.move m users act).Handles a u
      · obtain ⟨rfl, hu⟩ := hhandles
        exact (hdate u hu).2
      · exact absurd (hhonest.balances a hl u hhandles) hne
  · have hdrawn : x.drawn D C σ * 100 ≤ (100 + C.EXTRA_PSM_REWARD) * x.debited C σ := by
      cases x with
      | claimRewards v m assets amount dst stake =>
        obtain ⟨n, hclaim⟩ := System.exec_claimRewards_ok_iff.1 (hone _ hx)
        simp only [PoolTx.drawn, PoolTx.debited, hclaim]
        rw [(IncentivesController.claim_exact hclaim).2.1]
        exact IncentivesController.payment_le ..
      | _ => exact Nat.zero_le _
    have := h.drawn
    show (b.drawn + x.drawn D C σ) * 100 ≤ (100 + C.EXTRA_PSM_REWARD) * (b.debited + x.debited C σ)
    rw [Nat.add_mul, Nat.mul_add]
    exact Nat.add_le_add this hdrawn

end

/-! ## What the view would add -/

section

variable {σ : System W} {b : Outflow} {now T n n' : Nat} {u : Address} {w : W} {assets : Address → AssetData}

/-- What the view adds for a user of an asset at `T`. -/
def pending (C : IncentivesDeployment W) (T : Nat) (balances : Nat) (supply : Nat) (a : AssetData) (u : Address) : Nat :=
  balances * (a.index + DistributionManager.indexGrowth C.DISTRIBUTION_END T a.emissionPerSecond a.lastUpdateTimestamp
    supply - a.users u) / precisionUnit

theorem view_pending {stakes : List UserStakeInput} (hinert : ∀ a, ¬ listed a → Inert (assets a))
    (htrue : ∀ s ∈ stakes, Truthful V listed w s.underlyingAsset u s.stakedByUser s.totalStaked)
    (h : Runs.transact (DistributionManager.viewStep C.DISTRIBUTION_END T u assets) n stakes = .ok n') :
    n' = n + ((stakes.map (·.underlyingAsset)).map fun a =>
      pending C T (V.balanceOf w a u) (total (V.balanceOf w a)) (assets a) u).sum := by
  induction stakes generalizing n with
  | nil => simpa using (Except.ok.inj h).symm
  | cons s stakes ih =>
    rw [List.forall_mem_cons] at htrue
    obtain ⟨n₁, hs, hl⟩ := Runs.transact_cons_ok_iff.1 h
    obtain ⟨i, r, hi, hr, -, rfl⟩ := DistributionManager.viewStep_ok_iff.1 hs
    obtain ⟨-, -, rfl⟩ := DistributionManager.getRewards_ok_iff.1 hr
    rw [ih htrue.2 hl, List.map_cons, List.map_cons, List.sum_cons, Nat.add_assoc]
    congr 2
    by_cases hlisted : listed s.underlyingAsset
    · obtain ⟨hstaked, htotal⟩ := htrue.1 hlisted
      rw [DistributionManager.getAssetIndex_ok hi, hstaked, htotal]
      rfl
    · have hnone := hinert _ hlisted
      rw [hnone.getAssetIndex] at hi
      obtain rfl := Except.ok.inj hi
      simp [pending, hnone.index, hnone.users, DistributionManager.indexGrowth_stopped (.inl hnone.emission)]

/-- All users of an asset together can be credited no more than it owes. -/
theorem sum_pending_le {balances : Address → Nat} {a : AssetData} (hindexed : ∀ u, a.users u ≤ a.index) :
    precisionUnit * ∑ u, pending C T (balances u) (total balances) a u ≤ liability C.DISTRIBUTION_END T balances a :=
  sum_payable_le.trans (owed_grow hindexed rfl)

end

/-! ## Runs -/

section

variable {g : Address} {w : W} {l : List (PoolTx W)} {T : Nat}

/-- The books beside a run are kept about the run. -/
theorem run_outflow {σ : System W} : Runs.run (Runs.record (PoolTx.exec D C V) (Outflow.note D C)) (σ, .empty) l =
    (PoolTx.run D C V σ l, outflow D C V σ l) :=
  Prod.ext (Runs.run_record_fst ..) rfl

/-- Only listed assets emit. -/
theorem emitted_of_unlisted (h : HonestRun D C V listed (.fresh g w) l) {a : Address} (ha : ¬ listed a) :
    Inert ((PoolTx.run D C V (.fresh g w) l).assets a) ∧ (outflow D C V (.fresh g w) l).emitted a = 0 := by
  have hinv : ∀ p, p = Runs.run (Runs.record (PoolTx.exec D C V) (Outflow.note D C)) (.fresh g w, .empty) l →
      Inert (p.1.assets a) ∧ p.2.emitted a = 0 := by
    rintro _ rfl
    refine Runs.run_induction (I := fun p : System W × Outflow => Inert (p.1.assets a) ∧ p.2.emitted a = 0)
      ⟨⟨rfl, rfl, fun _ => rfl⟩, rfl⟩ fun p x p' hp hI hs _ => ?_
    rw [run_outflow] at hI hs
    obtain ⟨hs, hnote⟩ := Runs.record_ok_iff.1 hs
    refine ⟨?_, ?_⟩
    · have hhonest := h.honest p x p'.1 hp hs
      refine Runs.transact_invariant (I := fun σ : System W => ∀ asset, asset = a → Inert (σ.assets asset))
        (fun y hy σ σ' hσ hy' => ?_) (fun asset hasset => hasset ▸ hI.1) hs a rfl
      refine System.assets_of_exec (P := fun asset r => asset = a → Inert r)
        (fun hset hr heq => ((hr heq).settle hset).2) (fun input hinput _ _ _ _ _ _ heq => ?_) hy' hσ
      -- an entry for it would have listed it
      cases x with
      | configureAssets m inputs =>
        simp only [PoolTx.actions, List.mem_singleton] at hy
        subst hy
        exact absurd (heq ▸ (hhonest.entries m inputs rfl input hinput).1) ha
      | move m users act =>
        simp only [PoolTx.actions, List.mem_append, List.mem_map, List.mem_singleton] at hy
        rcases hy with ⟨_, -, rfl⟩ | rfl <;> exact absurd hinput (by simp [Action.assetsConfigInput])
      | _ =>
        simp only [PoolTx.actions, List.mem_singleton] at hy
        subst hy
        exact absurd hinput (by simp [Action.assetsConfigInput])
    · rw [hnote]
      show (outflow D C V (.fresh g w) p).emitted a + _ * _ = 0
      rw [hI.2, hI.1.emission, Nat.zero_mul]
  exact hinv _ run_outflow.symm

variable (htimes : l.Pairwise fun x y => x.msg.timestamp ≤ y.msg.timestamp)
  (hl : ∀ x ∈ l, x.msg.timestamp ≤ T) (hT : T < 2 ^ 128) (h : HonestRun D C V listed (.fresh g w) l)
include htimes hl hT h

theorem Solvent.run : Solvent C V listed T (PoolTx.run D C V (.fresh g w) l) (outflow D C V (.fresh g w) l) := by
  have hfresh : Solvent C V listed 0 (.fresh g w) .empty := by
    refine ⟨le_refl _, ⟨fun a => ⟨le_refl _, fun _ => le_refl _, fun _ => ⟨rfl, rfl, fun _ => rfl⟩⟩, ?_⟩, Nat.zero_le _⟩
    have hinert : Inert ⟨0, 0, 0, fun _ => 0⟩ := ⟨rfl, rfl, fun _ => rfl⟩
    simp [System.fresh, Outflow.empty, hinert.liability, Ledger.total_def]
  have hrun := Runs.run_clocked (Runs.record (PoolTx.exec D C V) (Outflow.note D C))
    (fun x : PoolTx W => x.msg.timestamp) (fun now p => Solvent C V listed now p.1 p.2)
    (Q := fun x p p' => x.msg.timestamp < 2 ^ 128 ∧
      (∀ asset, listed asset →
        total (V.balanceOf p.1.staked.world asset) = V.totalSupply p.1.staked.world asset) ∧
      (PoolTx.exec D C V x p.1 = .ok p'.1 → x.Honest V listed p.1 p'.1))
    (fun _ _ _ hle hs => ⟨hs.time_le.trans hle, hs.funded, hs.drawn⟩) (fun x p p' hx hp hs => ?_)
    (s := (.fresh g w, .empty)) hfresh htimes
    (fun p x hp => ?_) (fun _ _ => Nat.zero_le _) (Nat.zero_le _) hl
  · rwa [run_outflow] at hrun
  · obtain ⟨hs, hnote⟩ := Runs.record_ok_iff.1 hs
    rw [hnote]
    exact hp.step hx.1 h.answers hx.2.1 (hx.2.2 hs) hs
  · rw [run_outflow, run_outflow]
    have hx : x ∈ l := hp.subset (by simp)
    exact ⟨(hl x hx).trans_lt hT, h.supply p ((List.prefix_append p [x]).trans hp), h.honest p x _ hp⟩

end

/-- **The vault's outflow is bounded by the emission.** In a run in which
the listed assets keep to the rules: what all users have unclaimed, with
what the view would add for them over any list of distinct assets (where it
answers), and with all that claims debited, is at most what the assets
emitted before the end of the distribution; every claim debits the amount,
or all the user has if that is less, and draws as much from the vault, or
more by `EXTRA_PSM_REWARD` parts of a hundred when it is staked; and what was
drawn is at most the emission with such a surplus. -/
theorem outflow_bounded {g : Address} {w : W} {l : List (PoolTx W)} {T : Nat}
    (htimes : l.Pairwise fun x y => x.msg.timestamp ≤ y.msg.timestamp) (hl : ∀ x ∈ l, x.msg.timestamp ≤ T)
    (hT : T < 2 ^ 128) (h : HonestRun D C V listed (.fresh g w) l) :
    let σ := PoolTx.run D C V (.fresh g w) l
    let b := (outflow D C V (.fresh g w) l).upTo C σ T
    (∀ (assets : List Address) (added : Address → Nat), assets.Nodup →
      (∀ u, added u = 0 ∨ getRewardsBalance C T assets u σ = .ok (σ.usersUnclaimedRewards u + added u)) →
        ∑ u, (σ.usersUnclaimedRewards u + added u) + b.debited ≤ ∑ a, b.emitted a) ∧
    b.drawn * 100 ≤ (100 + C.EXTRA_PSM_REWARD) * ∑ a, b.emitted a ∧
    ∀ v m assets amount dst stake n σ',
      IncentivesController.claimRewards D C m v assets amount dst stake σ = .ok (n, σ') →
        let d := min amount
          (σ.usersUnclaimedRewards m.sender + IncentivesController.newlyAccrued C m assets amount σ)
        σ'.usersUnclaimedRewards = Function.update σ.usersUnclaimedRewards m.sender
            (σ.usersUnclaimedRewards m.sender + IncentivesController.newlyAccrued C m assets amount σ - d) ∧
          n = (if stake = true then d + d * C.EXTRA_PSM_REWARD / 100 else d) ∧
          (d = 0 ∧ σ'.staked = σ.staked ∨ IncentivesController.Drawn D C m v dst stake n σ.staked σ'.staked) := by
  intro σ b
  have hsolvent : Solvent C V listed T σ (outflow D C V (.fresh g w) l) := .run htimes hl hT h
  have hfunded := hsolvent.upTo hsolvent.time_le
  have hindexed := fun a => (hfunded.ok a).indexed
  have hsupply : ∀ asset, listed asset → total (V.balanceOf σ.staked.world asset) = V.totalSupply σ.staked.world asset :=
    h.supply l (List.prefix_refl _)
  have hbound : ∀ (assets : List Address) (added : Address → Nat), assets.Nodup →
      (∀ u, added u = 0 ∨ getRewardsBalance C T assets u σ = .ok (σ.usersUnclaimedRewards u + added u)) →
        ∑ u, (σ.usersUnclaimedRewards u + added u) + b.debited ≤ ∑ a, b.emitted a := by
    intro assets added hnodup hadded
    have hpending : ∀ u, added u ≤ ∑ a, pending C T (V.balanceOf σ.staked.world a u)
        (total (V.balanceOf σ.staked.world a)) (σ.assets a) u := by
      intro u
      rcases hadded u with hzero | hview
      · rw [hzero]; exact Nat.zero_le _
      · obtain ⟨stakes, r, hstakes, hr, -, hsum⟩ := getRewardsBalance_ok_iff.1 hview
        have htrue := truthful_of_userState h.answers hsupply hstakes
        have hr' := view_pending (fun a ha => (hfunded.ok a).inert ha) htrue hr
        rw [IncentivesController.userState_assets hstakes, Nat.zero_add, ← List.sum_toFinset _ hnodup] at hr'
        have : added u = r := by omega
        rw [this, hr']
        exact Finset.sum_le_sum_of_subset (Finset.subset_univ _)
    have hsum : precisionUnit * ∑ u, added u ≤
        ∑ a, liability C.DISTRIBUTION_END T (V.balanceOf σ.staked.world a) (σ.assets a) := by
      calc precisionUnit * ∑ u, added u
          ≤ precisionUnit * ∑ u, ∑ a, pending C T (V.balanceOf σ.staked.world a u)
              (total (V.balanceOf σ.staked.world a)) (σ.assets a) u :=
            Nat.mul_le_mul_left _ (Finset.sum_le_sum fun u _ => hpending u)
        _ = ∑ a, precisionUnit * ∑ u, pending C T (V.balanceOf σ.staked.world a u)
              (total (V.balanceOf σ.staked.world a)) (σ.assets a) u := by rw [Finset.sum_comm, Finset.mul_sum]
        _ ≤ _ := Finset.sum_le_sum fun a _ => sum_pending_le (hindexed a)
    have hall : precisionUnit * (∑ u, (σ.usersUnclaimedRewards u + added u) + b.debited) ≤
        precisionUnit * ∑ a, b.emitted a := by
      have hcovered := hfunded.funded
      rw [Ledger.total_def] at hcovered
      rw [Finset.sum_add_distrib, Nat.add_right_comm, Nat.mul_add]
      exact (Nat.add_le_add_left hsum _).trans hcovered
    exact Nat.le_of_mul_le_mul_left hall precisionUnit_pos
  refine ⟨hbound, ?_, fun v m assets amount dst stake n σ' hclaim => IncentivesController.claim_exact hclaim⟩
  have hdebited : b.debited ≤ ∑ a, b.emitted a :=
    (Nat.le_add_left _ _).trans (hbound [] (fun _ => 0) List.nodup_nil fun _ => .inl rfl)
  exact hsolvent.drawn.trans (Nat.mul_le_mul_left _ hdebited)

/-! An asset one account holds all of, which never changes hands. -/

def PoolViews.sample : PoolViews Unit :=
  { balanceOf := fun _ _ user => if user = .ofNat 10 then 10 else 0
    totalSupply := fun _ _ => 10 }

theorem poolController_ne : Address.ofNat 6 ≠ 0 := by decide

def IncentivesDeployment.pool : IncentivesDeployment Unit :=
  { self := .ofNat 6
    REWARD_TOKEN := .ofNat 3
    REWARDS_VAULT := .ofNat 4
    EXTRA_PSM_REWARD := 10
    DISTRIBUTION_END := 1000
    EMISSION_MANAGER := .ofNat 5
    self_ne := poolController_ne
    getScaledUserBalanceAndSupply := fun asset user _ w =>
      .ok (PoolViews.sample.balanceOf w asset user, PoolViews.sample.totalSupply w asset) }

theorem poolAsset_ne : Address.ofNat 7 ≠ 0 := by decide

theorem poolEmission_lt : 1 < 2 ^ 128 := by decide

/-- Its runs are honest if it is configured once, at the start, and nobody
but itself calls `handleAction`. -/
theorem HonestRun.sample {m : Msg} {l : List (PoolTx Unit)}
    (haction : ∀ m user userBalance totalSupply, .handleAction m user userBalance totalSupply ∉ l)
    (hentries : ∀ m inputs, .configureAssets m inputs ∉ l) :
    HonestRun .sample .pool .sample (· = .ofNat 7) (.fresh 0 ())
      (.configureAssets m [⟨1, 10, .ofNat 7, poolEmission_lt⟩] :: l) := by
  refine ⟨fun asset _ user place w scaled h => (Except.ok.inj h).symm, fun p _ asset _ => ?_, fun p x σ' hp _ => ?_⟩
  · rw [Ledger.total_def]
    exact (Finset.sum_ite_eq' ..).trans (if_pos (Finset.mem_univ _))
  · obtain rfl | hx := List.mem_cons.1 (hp.subset (List.mem_append_right p List.mem_cons_self))
    · refine ⟨fun _ _ _ _ he => (by cases he), fun m' inputs he input hinput => ?_, fun _ _ _ _ => rfl⟩
      cases he
      obtain rfl := List.mem_singleton.1 hinput
      exact ⟨rfl, rfl⟩
    · exact ⟨fun m user userBalance totalSupply he => absurd (he ▸ hx) (haction m user userBalance totalSupply),
        fun m inputs he => absurd (he ▸ hx) (hentries m inputs), fun _ _ _ _ => rfl⟩

/-- The asset configured, a call of its to `handleAction`, and a claim that
is staked. -/
def poolRun : List (PoolTx Unit) :=
  [.configureAssets ⟨.ofNat 5, 1, 100, sampleManager_ne⟩ [⟨1, 10, .ofNat 7, poolEmission_lt⟩],
    .move ⟨.ofNat 7, 2, 150, poolAsset_ne⟩ [.ofNat 10] .ok,
    .claimRewards .v2 ⟨.ofNat 10, 3, 200, sampleHolder_ne⟩ [.ofNat 7, .ofNat 8] 60 (.ofNat 10) true]

theorem HonestRun.poolRun : HonestRun .sample .pool .sample (· = .ofNat 7) (.fresh 0 ()) poolRun :=
  .sample (by simp) (by simp)

theorem outflow_bounded_staked :
    let b := (outflow .sample .pool .sample (.fresh 0 ()) poolRun).upTo .pool
      (PoolTx.run .sample .pool .sample (.fresh 0 ()) poolRun) 300
    b.debited = 60 ∧ b.drawn = 66 ∧ b.drawn * 100 ≤ 110 * ∑ a, b.emitted a := by
  intro b
  have h := outflow_bounded (T := 300) (by decide) (by decide) (by decide) HonestRun.poolRun
  exact ⟨by decide +kernel, by decide +kernel, h.2.1⟩

/-- Where a timestamp does not fit its 128 bits the asset listed again pays
again, and more is claimed than was emitted. -/
def overpaidRun : List (PoolTx Unit) :=
  [.configureAssets ⟨.ofNat 5, 1, 100, sampleManager_ne⟩ [⟨1, 10, .ofNat 7, poolEmission_lt⟩],
    .claimRewards .v2 ⟨.ofNat 10, 2, 2 ^ 128 + 200, sampleHolder_ne⟩ [.ofNat 7, .ofNat 7] 1700 (.ofNat 10) false]

theorem HonestRun.overpaidRun : HonestRun .sample .pool .sample (· = .ofNat 7) (.fresh 0 ()) overpaidRun :=
  .sample (by simp) (by simp)

theorem outflow_unbounded :
    let b := outflow .sample .pool .sample (.fresh 0 ()) overpaidRun
    HonestRun .sample .pool .sample (· = .ofNat 7) (.fresh 0 ()) overpaidRun ∧ ∑ a, b.emitted a < b.debited := by
  intro b
  refine ⟨.overpaidRun, ?_⟩
  have hsum : ∑ a, b.emitted a = b.emitted (.ofNat 7) :=
    Finset.sum_eq_single _ (fun a _ ha => (emitted_of_unlisted .overpaidRun ha).2) fun h => absurd (Finset.mem_univ _) h
  rw [hsum]
  decide +kernel

end StarlayStake
