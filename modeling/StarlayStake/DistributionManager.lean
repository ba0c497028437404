/-
The distribution manager (`stake/DistributionManager.sol`): every asset has
an emission and an index that grows with the time elapsed per unit staked,
and every user of it the index of their last settlement.

The functions branch on zero emissions, zero supply, updates in the same
block and the end of the distribution. What they compute does not:
`indexGrowth` is the growth of an index in every case
(`getAssetIndex_ok`), and an update leaves `AssetData.settled` behind
(`updateAssetStateInternal_ok_iff`, `updateUserAssetInternal_ok_iff`), for
timestamps that fit the `uint128` they are stored in.
-/
import StarlayStake.Solidity

namespace StarlayStake

structure AssetData where
  emissionPerSecond : Nat
  lastUpdateTimestamp : Nat
  index : Nat
  users : Address → Nat

namespace AssetData

/-- An asset after an update at `timestamp` to `index`. -/
def settled (a : AssetData) (timestamp index : Nat) : AssetData :=
  { a with index, lastUpdateTimestamp := timestamp }

/-- An asset after `user`'s index is set. -/
def setUser (a : AssetData) (user : Address) (index : Nat) : AssetData :=
  { a with users := Function.update a.users user index }

end AssetData

/-- `DistributionTypes.AssetConfigInput`; the emission is a `uint128`. -/
structure AssetConfigInput where
  emissionPerSecond : Nat
  totalStaked : Nat
  underlyingAsset : Address
  emission_lt : emissionPerSecond < 2 ^ 128

/-- `DistributionTypes.UserStakeInput` -/
structure UserStakeInput where
  underlyingAsset : Address
  stakedByUser : Nat
  totalStaked : Nat
  deriving DecidableEq

namespace DistributionManager

def PRECISION : Nat := 18

/-- The unit of an index: what one token accrues per unit of it. -/
abbrev precisionUnit : Nat := 10 ^ PRECISION

/-- `_getAssetIndex`, at `timestamp` -/
def getAssetIndex (DISTRIBUTION_END timestamp currentIndex emissionPerSecond lastUpdateTimestamp
    totalBalance : Nat) : Except String Nat :=
  if emissionPerSecond = 0 ∨ totalBalance = 0 ∨ lastUpdateTimestamp = timestamp ∨
      lastUpdateTimestamp ≥ DISTRIBUTION_END then
    .ok currentIndex
  else do
    let currentTimestamp := if timestamp > DISTRIBUTION_END then DISTRIBUTION_END else timestamp
    let timeDelta ← SafeMath.sub currentTimestamp lastUpdateTimestamp
    let emitted ← SafeMath.mul emissionPerSecond timeDelta
    let scaled ← SafeMath.mul emitted precisionUnit
    let perUnit ← SafeMath.div scaled totalBalance
    SafeMath.add perUnit currentIndex

/-- `_getRewards` -/
def getRewards (principalUserBalance reserveIndex userIndex : Nat) : Except String Nat := do
  let delta ← SafeMath.sub reserveIndex userIndex
  let scaled ← SafeMath.mul principalUserBalance delta
  SafeMath.div scaled precisionUnit

/-- `_updateAssetStateInternal`: the new index, and what it stores. -/
def updateAssetStateInternal (DISTRIBUTION_END timestamp : Nat) (assetConfig : AssetData) (totalStaked : Nat) :
    Except String (Nat × AssetData) :=
  let oldIndex := assetConfig.index
  let lastUpdateTimestamp := assetConfig.lastUpdateTimestamp
  if timestamp = lastUpdateTimestamp then
    .ok (oldIndex, assetConfig)
  else do
    let newIndex ← getAssetIndex DISTRIBUTION_END timestamp oldIndex assetConfig.emissionPerSecond
      lastUpdateTimestamp totalStaked
    return (newIndex, { assetConfig with index := newIndex, lastUpdateTimestamp := uint128 timestamp })

/-- `_updateUserAssetInternal`: the rewards accrued, and the assets after. -/
def updateUserAssetInternal (DISTRIBUTION_END timestamp : Nat) (user asset : Address)
    (stakedByUser totalStaked : Nat) (assets : Address → AssetData) :
    Except String (Nat × (Address → AssetData)) := do
  let userIndex := (assets asset).users user
  let updated ← updateAssetStateInternal DISTRIBUTION_END timestamp (assets asset) totalStaked
  let newIndex := updated.1
  let assetData := updated.2
  if userIndex ≠ newIndex then do
    let accruedRewards ← (if stakedByUser ≠ 0 then getRewards stakedByUser newIndex userIndex else .ok 0)
    return (accruedRewards, Function.update assets asset
      { assetData with users := Function.update assetData.users user newIndex })
  else
    return (0, Function.update assets asset assetData)

/-- `_claimRewards` -/
def claimRewards (DISTRIBUTION_END timestamp : Nat) (user : Address) :
    List UserStakeInput → (Address → AssetData) → Except String (Nat × (Address → AssetData))
  | stakes, assets => stakes.foldlM (fun (accruedRewards, assets) stake => do
      let updated ← updateUserAssetInternal DISTRIBUTION_END timestamp user stake.underlyingAsset
        stake.stakedByUser stake.totalStaked assets
      let accruedRewards ← SafeMath.add accruedRewards updated.1
      return (accruedRewards, updated.2)) (0, assets)

/-- `_getUnclaimedRewards` -/
def getUnclaimedRewards (DISTRIBUTION_END timestamp : Nat) (user : Address) (assets : Address → AssetData)
    (stakes : List UserStakeInput) : Except String Nat :=
  stakes.foldlM (fun accruedRewards stake => do
    let assetConfig := assets stake.underlyingAsset
    let assetIndex ← getAssetIndex DISTRIBUTION_END timestamp assetConfig.index
      assetConfig.emissionPerSecond assetConfig.lastUpdateTimestamp stake.totalStaked
    let rewards ← getRewards stake.stakedByUser assetIndex (assetConfig.users user)
    SafeMath.add accruedRewards rewards) 0

/-- One turn of the loop of `configureAssets`. -/
def configureAsset (DISTRIBUTION_END timestamp : Nat) (assets : Address → AssetData)
    (input : AssetConfigInput) : Except String (Address → AssetData) := do
  let updated ← updateAssetStateInternal DISTRIBUTION_END timestamp (assets input.underlyingAsset)
    input.totalStaked
  return Function.update assets input.underlyingAsset
    { updated.2 with emissionPerSecond := input.emissionPerSecond }

/-- `configureAssets`, called by `sender` -/
def configureAssets (EMISSION_MANAGER : Address) (DISTRIBUTION_END timestamp : Nat) (sender : Address)
    (assetsConfigInput : List AssetConfigInput) (assets : Address → AssetData) :
    Except String (Address → AssetData) := do
  require (sender = EMISSION_MANAGER) "ONLY_EMISSION_MANAGER"
  assetsConfigInput.foldlM (configureAsset DISTRIBUTION_END timestamp) assets

/-! ## The index -/

/-- What an index grows by from `last` to `timestamp`: the rewards emitted
before the end of the distribution, per unit staked, rounded down (nothing
when nothing is staked: a division by zero is zero). -/
def indexGrowth (DISTRIBUTION_END timestamp emissionPerSecond last totalBalance : Nat) : Nat :=
  emissionPerSecond * (min timestamp DISTRIBUTION_END - min last DISTRIBUTION_END) * precisionUnit / totalBalance

variable {D T E L B i r total : Nat}

theorem precisionUnit_pos : 0 < precisionUnit := by decide

/-- Where `getAssetIndex` answers the index it was given, it does not grow. -/
theorem indexGrowth_stopped (h : E = 0 ∨ B = 0 ∨ L = T ∨ L ≥ D) : indexGrowth D T E L B = 0 := by
  unfold indexGrowth
  rcases h with rfl | rfl | rfl | h
  · simp
  · simp
  · simp
  · have : min T D - min L D = 0 := by omega
    simp [this]

theorem currentTimestamp_eq : (if T > D then D else T) = min T D := by
  split <;> omega

/-- What `getAssetIndex` answers, whichever branch it takes. -/
theorem getAssetIndex_ok (h : getAssetIndex D T i E L B = .ok r) : r = i + indexGrowth D T E L B := by
  unfold getAssetIndex at h
  split at h
  · next hs =>
    simp only [Except.ok.injEq] at h
    simp [indexGrowth_stopped hs, h]
  · next hs =>
    simp only [Outcome.bind_ok_iff, currentTimestamp_eq, SafeMath.sub_ok_iff, SafeMath.mul_ok_iff,
      SafeMath.div_ok_iff, SafeMath.add_ok_iff] at h
    obtain ⟨_, ⟨hle, rfl⟩, _, ⟨-, rfl⟩, _, ⟨-, rfl⟩, _, ⟨-, rfl⟩, -, rfl⟩ := h
    have : min L D = L := by omega
    rw [indexGrowth, this, Nat.add_comm]

/-- `getAssetIndex` answers when time has not gone back and the numbers fit. -/
theorem getAssetIndex_of (hL : L ≤ T)
    (hemitted : 0 < B → E * (min T D - min L D) * precisionUnit < 2 ^ 256)
    (hindex : i + indexGrowth D T E L B < 2 ^ 256) :
    getAssetIndex D T i E L B = .ok (i + indexGrowth D T E L B) := by
  unfold getAssetIndex
  split
  · next hs => simp [indexGrowth_stopped hs]
  · next hs =>
    have hB : 0 < B := by omega
    have hmin : min L D = L := by omega
    have hd := hemitted hB
    simp only [indexGrowth, hmin] at hd hindex ⊢
    have hle : E * (min T D - L) ≤ E * (min T D - L) * precisionUnit := Nat.le_mul_of_pos_right _ precisionUnit_pos
    rw [currentTimestamp_eq, SafeMath.sub_of (by omega), Outcome.ok_bind, SafeMath.mul_of (by omega), Outcome.ok_bind,
      SafeMath.mul_of hd, Outcome.ok_bind, SafeMath.div_of hB, Outcome.ok_bind,
      SafeMath.add_of (by omega), Nat.add_comm]

/-- Where `getAssetIndex` computes an index, the numbers fit. -/
theorem getAssetIndex_bounds (hs : ¬ (E = 0 ∨ B = 0 ∨ L = T ∨ L ≥ D)) (h : getAssetIndex D T i E L B = .ok r) :
    E * (min T D - min L D) * precisionUnit < 2 ^ 256 ∧ i + indexGrowth D T E L B < 2 ^ 256 := by
  have hr := getAssetIndex_ok h
  rw [getAssetIndex, if_neg hs] at h
  simp only [Outcome.bind_ok_iff, currentTimestamp_eq, SafeMath.sub_ok_iff, SafeMath.mul_ok_iff,
    SafeMath.div_ok_iff, SafeMath.add_ok_iff] at h
  obtain ⟨_, ⟨-, rfl⟩, _, ⟨-, rfl⟩, _, ⟨hscaled, rfl⟩, _, ⟨-, rfl⟩, hsum, rfl⟩ := h
  have : min L D = L := by omega
  exact ⟨by rwa [this], by omega⟩

theorem indexGrowth_mono {T' : Nat} (hle : T ≤ T') : indexGrowth D T E L B ≤ indexGrowth D T' E L B :=
  Nat.div_le_div_right (Nat.mul_le_mul_right _ (Nat.mul_le_mul_left _ (by omega)))

/-- An index at a later time is none the smaller, and answers for the earlier. -/
theorem getAssetIndex_mono {T' : Nat} (hL : L ≤ T) (hle : T ≤ T') (h : getAssetIndex D T' i E L B = .ok r) :
    ∃ r', getAssetIndex D T i E L B = .ok r' ∧ r' ≤ r := by
  have hr := getAssetIndex_ok h
  by_cases hs : E = 0 ∨ B = 0 ∨ L = T ∨ L ≥ D
  · exact ⟨i, by rw [getAssetIndex, if_pos hs], hr ▸ Nat.le_add_right _ _⟩
  · have hgrowth : indexGrowth D T E L B ≤ indexGrowth D T' E L B := indexGrowth_mono hle
    have hemitted : E * (min T D - min L D) * precisionUnit ≤ E * (min T' D - min L D) * precisionUnit :=
      Nat.mul_le_mul_right _ (Nat.mul_le_mul_left _ (by omega))
    obtain ⟨hfits, hsum⟩ := getAssetIndex_bounds (by omega) h
    exact ⟨_, getAssetIndex_of hL (fun _ => by omega) (by omega), by omega⟩

/-- The end of the distribution clips the time: past it, time does not
matter, and before it, the end does not. -/
theorem getAssetIndex_clipped {D' T' : Nat} (hmin : min T D = min T' D') (hlast : L = T ∨ L ≥ D ↔ L = T' ∨ L ≥ D') :
    getAssetIndex D T i E L B = getAssetIndex D' T' i E L B := by
  unfold getAssetIndex
  simp only [currentTimestamp_eq, hmin, hlast]

theorem getRewards_ok_iff {p index userIndex : Nat} :
    getRewards p index userIndex = .ok r ↔
      userIndex ≤ index ∧ p * (index - userIndex) < 2 ^ 256 ∧ r = p * (index - userIndex) / precisionUnit := by
  simp only [getRewards, Outcome.bind_ok_iff, SafeMath.sub_ok_iff, SafeMath.mul_ok_iff, SafeMath.div_ok_iff]
  constructor
  · rintro ⟨_, ⟨h1, rfl⟩, _, ⟨h2, rfl⟩, -, rfl⟩
    exact ⟨h1, h2, rfl⟩
  · rintro ⟨h1, h2, rfl⟩
    exact ⟨_, ⟨h1, rfl⟩, _, ⟨h2, rfl⟩, precisionUnit_pos, rfl⟩

/-- The emission manager configures, entry by entry. -/
theorem configureAssets_ok_iff {manager sender : Address} {inputs : List AssetConfigInput}
    {assets assets' : Address → AssetData} :
    configureAssets manager D T sender inputs assets = .ok assets' ↔
      sender = manager ∧ inputs.foldlM (configureAsset D T) assets = .ok assets' := by
  simp only [configureAssets, Outcome.bind_ok_iff, require_ok_iff]
  constructor
  · rintro ⟨_, hm, h⟩; exact ⟨hm, h⟩
  · rintro ⟨hm, h⟩; exact ⟨(), hm, h⟩

/-! ## Updates -/

/-- The rewards an update credits: none when the user's index is already
the asset's, or when they staked nothing. -/
def accrued (stakedByUser index userIndex : Nat) : Except String Nat :=
  if userIndex ≠ index ∧ stakedByUser ≠ 0 then getRewards stakedByUser index userIndex else .ok 0

/-- Where they credit none, there is nothing to credit. -/
theorem accrued_stopped {p index userIndex : Nat} (h : ¬ (userIndex ≠ index ∧ p ≠ 0)) : p * (index - userIndex) = 0 := by
  rw [not_and_or, not_not, not_not] at h
  rcases h with h | h <;> simp [h]

theorem accrued_ok_iff {p index userIndex : Nat} (hu : userIndex ≤ index) :
    accrued p index userIndex = .ok r ↔
      p * (index - userIndex) < 2 ^ 256 ∧ r = p * (index - userIndex) / precisionUnit := by
  unfold accrued
  split
  · simp only [getRewards_ok_iff, hu, true_and]
  · next h =>
    rw [accrued_stopped h]
    simp [eq_comm]

/-- What an update credits, when it does not revert. -/
theorem accrued_eq {p index userIndex : Nat} (h : accrued p index userIndex = .ok r) :
    r = p * (index - userIndex) / precisionUnit := by
  unfold accrued at h
  split at h
  · exact (getRewards_ok_iff.1 h).2.2
  · next hz =>
    rw [accrued_stopped hz, Nat.zero_div]
    exact (Except.ok.inj h).symm

variable {a a' : AssetData} {assets assets' : Address → AssetData} {user asset : Address} {staked : Nat}

/-- What an update at `T` stores as its time: the 128 bits of it, unless it
returns early. -/
def storedTimestamp (T : Nat) (a : AssetData) : Nat := if T = a.lastUpdateTimestamp then T else uint128 T

theorem storedTimestamp_of_lt (hT : T < 2 ^ 128) : storedTimestamp T a = T := by
  unfold storedTimestamp
  split
  · rfl
  · exact uint128_of_lt hT

theorem updateAssetStateInternal_stores :
    updateAssetStateInternal D T a total = .ok (i, a') ↔
      getAssetIndex D T a.index a.emissionPerSecond a.lastUpdateTimestamp total = .ok i ∧
        a' = a.settled (storedTimestamp T a) i := by
  simp only [updateAssetStateInternal, storedTimestamp]
  split
  · next h =>
    subst h
    have : getAssetIndex D a.lastUpdateTimestamp a.index a.emissionPerSecond a.lastUpdateTimestamp total =
        .ok a.index := by
      simp [getAssetIndex]
    simp only [this, Except.ok.injEq, Prod.mk.injEq]
    constructor
    · rintro ⟨rfl, rfl⟩; exact ⟨rfl, rfl⟩
    · rintro ⟨rfl, rfl⟩; exact ⟨rfl, rfl⟩
  · simp only [Outcome.bind_ok_iff, Outcome.pure_ok_iff, Prod.mk.injEq]
    constructor
    · rintro ⟨_, h, rfl, rfl⟩; exact ⟨h, rfl⟩
    · rintro ⟨h, rfl⟩; exact ⟨_, h, rfl, rfl⟩

/-- An update stores the new index and the time, also when it returned early. -/
theorem updateAssetStateInternal_ok_iff (hT : T < 2 ^ 128) :
    updateAssetStateInternal D T a total = .ok (i, a') ↔
      getAssetIndex D T a.index a.emissionPerSecond a.lastUpdateTimestamp total = .ok i ∧
        a' = a.settled T i := by
  rw [updateAssetStateInternal_stores, storedTimestamp_of_lt hT]

/-- A settlement of `user`, of one asset alone: the rewards accrued, and the
asset after. -/
def settleAsset (DISTRIBUTION_END timestamp : Nat) (user : Address) (stakedByUser totalStaked : Nat) (a : AssetData) :
    Except String (Nat × AssetData) := do
  let updated ← updateAssetStateInternal DISTRIBUTION_END timestamp a totalStaked
  let accruedRewards ← accrued stakedByUser updated.1 (a.users user)
  return (accruedRewards, updated.2.setUser user updated.1)

theorem settleAsset_ok_iff :
    settleAsset D T user staked total a = .ok (r, a') ↔
      ∃ i, getAssetIndex D T a.index a.emissionPerSecond a.lastUpdateTimestamp total = .ok i ∧
        accrued staked i (a.users user) = .ok r ∧ a' = (a.settled (storedTimestamp T a) i).setUser user i := by
  simp only [settleAsset, Outcome.bind_ok_iff, Outcome.pure_ok_iff, Prod.mk.injEq, Prod.exists,
    updateAssetStateInternal_stores]
  constructor
  · rintro ⟨i, _, ⟨hi, rfl⟩, r, hr, rfl, rfl⟩; exact ⟨i, hi, hr, rfl⟩
  · rintro ⟨i, hi, hr, rfl⟩; exact ⟨i, _, ⟨hi, rfl⟩, r, hr, rfl, rfl⟩

/-- The contract settles one asset, and leaves the others. -/
theorem updateUserAssetInternal_eq :
    updateUserAssetInternal D T user asset staked total assets = (do
      let settled ← settleAsset D T user staked total (assets asset)
      return (settled.1, Function.update assets asset settled.2)) := by
  simp only [updateUserAssetInternal, settleAsset, bind_assoc, pure_bind]
  cases h : updateAssetStateInternal D T (assets asset) total with
  | error e => rfl
  | ok updated =>
    obtain ⟨i, a⟩ := updated
    obtain ⟨-, rfl⟩ := updateAssetStateInternal_stores.1 h
    simp only [Outcome.ok_bind, accrued]
    by_cases hi : (assets asset).users user = i
    · simp only [hi, ne_eq, not_true_eq_false, false_and, if_false, Outcome.ok_bind]
      congr 3
      simp [AssetData.setUser, AssetData.settled, ← hi]
    · simp only [ne_eq, hi, not_false_eq_true, if_true, true_and]
      rfl

/-- A settlement of `user` moves the index of the asset, and theirs to it. -/
theorem updateUserAssetInternal_ok_iff (hT : T < 2 ^ 128) :
    updateUserAssetInternal D T user asset staked total assets = .ok (r, assets') ↔
      ∃ i, getAssetIndex D T (assets asset).index (assets asset).emissionPerSecond
          (assets asset).lastUpdateTimestamp total = .ok i ∧
        accrued staked i ((assets asset).users user) = .ok r ∧
        assets' = Function.update assets asset (((assets asset).settled T i).setUser user i) := by
  simp only [updateUserAssetInternal_eq, Outcome.bind_ok_iff, Outcome.pure_ok_iff, Prod.exists, Prod.mk.injEq,
    settleAsset_ok_iff, storedTimestamp_of_lt hT]
  constructor
  · rintro ⟨_, _, ⟨i, hi, hr, rfl⟩, rfl, rfl⟩; exact ⟨i, hi, hr, rfl⟩
  · rintro ⟨i, hi, hr, rfl⟩; exact ⟨r, _, ⟨i, hi, hr, rfl⟩, rfl, rfl⟩

/-- The loop of `configureAssets`, entry by entry. -/
theorem configureAsset_ok_iff (hT : T < 2 ^ 128) {input : AssetConfigInput} :
    configureAsset D T assets input = .ok assets' ↔
      ∃ i, getAssetIndex D T (assets input.underlyingAsset).index
          (assets input.underlyingAsset).emissionPerSecond
          (assets input.underlyingAsset).lastUpdateTimestamp input.totalStaked = .ok i ∧
        assets' = Function.update assets input.underlyingAsset
          { (assets input.underlyingAsset).settled T i with emissionPerSecond := input.emissionPerSecond } := by
  simp only [configureAsset, Outcome.bind_ok_iff, Outcome.pure_ok_iff, Prod.exists,
    updateAssetStateInternal_ok_iff hT]
  constructor
  · rintro ⟨i, _, ⟨hi, rfl⟩, rfl⟩; exact ⟨i, hi, rfl⟩
  · rintro ⟨i, hi, rfl⟩; exact ⟨i, _, ⟨hi, rfl⟩, rfl⟩

end DistributionManager

end StarlayStake
