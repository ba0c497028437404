/-
What a call does to rewards. A successful call leaves the staked token's
asset alone (`Kept`), or settles it at the supply it found and with it every
account whose balance it changes (`Settles`), or configures it
(`Configures`); which it is, and whom it settles, the call itself tells
(`Tx.settledUsers`). Results about one run need less: that it is one of the
three, at some index and for some accounts (`RewardStep`,
`rewardStep_of_exec`).

The timestamps are below 2^128, the width they are stored in.
-/
import StarlayStake.Effects

namespace StarlayStake

open Ledger (credit)
open Outcome (bind_ok_iff pure_ok_iff)
open StakedToken

variable {W : Type} {D : Deployment W}

/-- An asset after an update at `timestamp` to `index` that settles `users`. -/
def AssetData.settledFor (a : AssetData) (timestamp index : Nat) (users : List Address) : AssetData :=
  { a.settled timestamp index with users := fun u => if u ∈ users then index else a.users u }

/-- `_getAssetIndex` for the staked token at `timestamp`, were `total` staked. -/
def assetIndex (D : Deployment W) (timestamp : Nat) (a : AssetData) (total : Nat) : Except String Nat :=
  DistributionManager.getAssetIndex D.DISTRIBUTION_END timestamp a.index a.emissionPerSecond a.lastUpdateTimestamp
    total

/-- What the index of the staked token grows by until `timestamp`, were `total` staked. -/
def assetGrowth (D : Deployment W) (timestamp : Nat) (a : AssetData) (total : Nat) : Nat :=
  DistributionManager.indexGrowth D.DISTRIBUTION_END timestamp a.emissionPerSecond a.lastUpdateTimestamp total

section

variable {T total i : Nat} {a : AssetData}

theorem assetIndex_ok (h : assetIndex D T a total = .ok i) : i = a.index + assetGrowth D T a total :=
  DistributionManager.getAssetIndex_ok h

/-- No time, no growth. -/
theorem assetIndex_settled (h : a.lastUpdateTimestamp = T) : assetIndex D T a total = .ok a.index := by
  simp [assetIndex, DistributionManager.getAssetIndex, h]

theorem assetGrowth_settled (h : a.lastUpdateTimestamp = T) : assetGrowth D T a total = 0 :=
  DistributionManager.indexGrowth_stopped (by simp [h])

end

/-! ## Settlements -/

section

variable {m : Msg} {s : State W} {u v : Address} {r r' : Nat} {assets assets' : Address → AssetData}

theorem settlement_ok_iff (hT : m.timestamp < 2 ^ 128) :
    settlement D m u s = .ok (r, assets) ↔
      ∃ i, assetIndex D m.timestamp (s.assets D.self) s.totalSupply = .ok i ∧
        DistributionManager.accrued (s.balances u) i ((s.assets D.self).users u) = .ok r ∧
        assets = Function.update s.assets D.self ((s.assets D.self).settledFor m.timestamp i [u]) := by
  have hone : ∀ i, ((s.assets D.self).settled m.timestamp i).setUser u i =
      (s.assets D.self).settledFor m.timestamp i [u] := by
    intro i
    simp only [AssetData.setUser, AssetData.settledFor, AssetData.settled, List.mem_singleton]
    congr 1
    funext x
    by_cases hx : x = u <;> simp [hx]
  simp only [settlement, DistributionManager.updateUserAssetInternal_ok_iff hT, hone]
  rfl

/-- The second settlement of a call finds the index where the first left it. -/
theorem settlement_settle_ok_iff (hT : m.timestamp < 2 ^ 128) (hne : v ≠ u)
    (h : settlement D m u s = .ok (r, assets)) :
    settlement D m v (settle s u r assets) = .ok (r', assets') ↔
      ∃ i, assetIndex D m.timestamp (s.assets D.self) s.totalSupply = .ok i ∧
        DistributionManager.accrued (s.balances v) i ((s.assets D.self).users v) = .ok r' ∧
        assets' = Function.update s.assets D.self ((s.assets D.self).settledFor m.timestamp i [u, v]) := by
  obtain ⟨i, hi, -, rfl⟩ := (settlement_ok_iff hT).1 h
  have hself : ((s.assets D.self).settledFor m.timestamp i [u]).index = i := rfl
  have hagain : ∀ total, assetIndex D m.timestamp ((s.assets D.self).settledFor m.timestamp i [u]) total = .ok i :=
    fun total => assetIndex_settled rfl
  have huser : ((s.assets D.self).settledFor m.timestamp i [u]).users v = (s.assets D.self).users v := by
    simp [AssetData.settledFor, hne]
  have htwo : ((s.assets D.self).settledFor m.timestamp i [u]).settledFor m.timestamp i [v] =
      (s.assets D.self).settledFor m.timestamp i [u, v] := by
    simp only [AssetData.settledFor, AssetData.settled]
    congr 1
    funext x
    by_cases hu : x = u <;> by_cases hv : x = v <;> simp [hu, hv]
  simp only [settlement_ok_iff hT, settle, Function.update_self, hagain, huser, Function.update_idem,
    Except.ok.injEq, hi]
  constructor
  · rintro ⟨_, rfl, hr, rfl⟩; exact ⟨_, rfl, hr, by rw [htwo]⟩
  · rintro ⟨_, rfl, hr, rfl⟩; exact ⟨_, rfl, hr, by rw [htwo]⟩

end

/-! ## Configurations -/

/-- The last entry for an asset. -/
def lastEntry (asset : Address) (inputs : List AssetConfigInput) : Option AssetConfigInput :=
  inputs.reverse.find? fun input => input.underlyingAsset = asset

section

variable {T : Nat} {asset : Address} {inputs : List AssetConfigInput} {input : AssetConfigInput}
  {assets assets' : Address → AssetData}

theorem lastEntry_concat : lastEntry asset (inputs ++ [input]) =
    if input.underlyingAsset = asset then some input else lastEntry asset inputs := by
  by_cases h : input.underlyingAsset = asset <;> simp [lastEntry, h]

theorem lastEntry_mem (h : lastEntry asset inputs = some input) : input ∈ inputs ∧ input.underlyingAsset = asset :=
  ⟨List.mem_reverse.1 (List.mem_of_find?_eq_some h), by simpa using List.find?_some h⟩

/-- Of the entries for an asset the first one's `totalStaked` updates it, and
the last one's emission stays. -/
theorem entries_of_foldlM (hT : T < 2 ^ 128)
    (h : inputs.foldlM (DistributionManager.configureAsset D.DISTRIBUTION_END T) assets = .ok assets') :
    (lastEntry asset inputs = none ∧ assets' asset = assets asset) ∨
      ∃ i last, lastEntry asset inputs = some last ∧
        (∃ first ∈ inputs, first.underlyingAsset = asset ∧
          assetIndex D T (assets asset) first.totalStaked = .ok i) ∧
        assets' asset = { (assets asset).settled T i with emissionPerSecond := last.emissionPerSecond } := by
  induction inputs using List.reverseRecOn generalizing assets' with
  | nil => exact .inl ⟨rfl, congrFun (Except.ok.inj h).symm asset⟩
  | append_singleton inputs input ih =>
    simp only [List.foldlM_append, List.foldlM_cons, List.foldlM_nil, bind_ok_iff, pure_ok_iff] at h
    obtain ⟨before, hbefore, _, h, rfl⟩ := h
    obtain ⟨i, hi, rfl⟩ := (DistributionManager.configureAsset_ok_iff hT).1 h
    rw [lastEntry_concat]
    by_cases hself : input.underlyingAsset = asset
    · subst hself
      rw [if_pos rfl, Function.update_self]
      obtain ⟨-, heq⟩ | ⟨i', last, -, ⟨first, hfirst, hself, hindex⟩, heq⟩ := ih hbefore
      · exact .inr ⟨i, input, rfl, ⟨input, by simp, rfl, heq ▸ hi⟩, by rw [heq]⟩
      · -- an asset listed again was updated in the same block
        have hagain : assetIndex D T (before input.underlyingAsset) input.totalStaked = .ok _ :=
          assetIndex_settled (by rw [heq]; rfl)
        have hsame : i = i' := by
          rw [assetIndex, hi] at hagain
          rw [Except.ok.inj hagain, heq]
          rfl
        subst hsame
        exact .inr ⟨i, input, rfl, ⟨first, List.mem_append_left _ hfirst, hself, hindex⟩, by rw [heq]; rfl⟩
    · rw [if_neg hself, Function.update_of_ne (Ne.symm hself)]
      obtain ⟨hnone, heq⟩ | ⟨i', last, hlast, ⟨first, hfirst, hself, hindex⟩, heq⟩ := ih hbefore
      · exact .inl ⟨hnone, heq⟩
      · exact .inr ⟨i', last, hlast, ⟨first, List.mem_append_left _ hfirst, hself, hindex⟩, heq⟩

end

/-! ## A call -/

/-- What a successful call pays `u` out of the vault. -/
def Tx.paid (D : Deployment W) (x : Tx) (s : State W) (u : Address) : Nat :=
  match x.call with
  | .claimRewards dst amount =>
    match claimRewards D x.msg dst amount s with
    | .ok (claimed, _) => if u = x.msg.sender then claimed else 0
    | .error _ => 0
  | _ => 0

/-- The entries of a call to `configureAssets`. -/
def Call.assetsConfigInput : Call → List AssetConfigInput
  | .configureAssets assetsConfigInput => assetsConfigInput
  | _ => []

/-- Every entry for the staked token passes what is staked. -/
def Tx.PassesSupply (D : Deployment W) (x : Tx) (s : State W) : Prop :=
  ∀ input ∈ x.call.assetsConfigInput, input.underlyingAsset = D.self → input.totalStaked = s.totalSupply

instance (x : Tx) (s : State W) : Decidable (x.PassesSupply D s) :=
  inferInstanceAs (Decidable (∀ input ∈ x.call.assetsConfigInput, _))

/-- What a successful call does to the staked token's asset, to the rewards
and to what is staked. -/
inductive RewardStep (D : Deployment W) (x : Tx) (s s' : State W) : Prop
  | keep (hasset : s'.assets D.self = s.assets D.self)
      (hrewards : s'.stakerRewardsToClaim = s.stakerRewardsToClaim) (hbalances : s'.balances = s.balances)
      (hsupply : s'.totalSupply = s.totalSupply) (hpaid : ∀ u, x.paid D s u = 0)
  | settle (users : List Address) (i : Nat) (r : Address → Nat)
      (hindex : assetIndex D x.msg.timestamp (s.assets D.self) s.totalSupply = .ok i)
      (haccrued : ∀ u ∈ users,
        DistributionManager.accrued (s.balances u) i ((s.assets D.self).users u) = .ok (r u))
      (hasset : s'.assets D.self = (s.assets D.self).settledFor x.msg.timestamp i users)
      (hrewards : ∀ u, s'.stakerRewardsToClaim u + x.paid D s u =
        s.stakerRewardsToClaim u + if u ∈ users then r u else 0)
      (hbalances : ∀ u ∉ users, s'.balances u = s.balances u)
  | configure (i : Nat) (first last : AssetConfigInput) (hfirst : first ∈ x.call.assetsConfigInput)
      (hlast : last ∈ x.call.assetsConfigInput)
      (hself : first.underlyingAsset = D.self ∧ last.underlyingAsset = D.self)
      (hindex : assetIndex D x.msg.timestamp (s.assets D.self) first.totalStaked = .ok i)
      (hasset : s'.assets D.self =
        { (s.assets D.self).settled x.msg.timestamp i with emissionPerSecond := last.emissionPerSecond })
      (hrewards : s'.stakerRewardsToClaim = s.stakerRewardsToClaim) (hbalances : s'.balances = s.balances)
      (hsupply : s'.totalSupply = s.totalSupply) (hpaid : ∀ u, x.paid D s u = 0)

/-- The accounts a successful call settles, of the calls that settle. -/
def Tx.settledUsers (x : Tx) : Option (List Address) :=
  match x.call with
  | .stake onBehalfOf _ => some [onBehalfOf]
  | .redeem _ _ => some [x.msg.sender]
  | .claimRewards _ _ => some [x.msg.sender]
  | .transfer recipient _ => some [x.msg.sender, recipient]
  | .transferFrom sender recipient _ => some [sender, recipient]
  | _ => none

/-- A call leaves all that rewards depend on. -/
structure Kept (D : Deployment W) (s s' : State W) : Prop where
  asset : s'.assets D.self = s.assets D.self
  rewards : s'.stakerRewardsToClaim = s.stakerRewardsToClaim
  balances : s'.balances = s.balances
  supply : s'.totalSupply = s.totalSupply

/-- A call updates the staked token's asset to the index `i` and configures
it as `last` says, and leaves the rest. -/
structure Configures (D : Deployment W) (x : Tx) (last : AssetConfigInput) (i : Nat) (s s' : State W) : Prop where
  index : ∃ first ∈ x.call.assetsConfigInput, first.underlyingAsset = D.self ∧
    assetIndex D x.msg.timestamp (s.assets D.self) first.totalStaked = .ok i
  asset : s'.assets D.self =
    { (s.assets D.self).settled x.msg.timestamp i with emissionPerSecond := last.emissionPerSecond }
  rewards : s'.stakerRewardsToClaim = s.stakerRewardsToClaim
  balances : s'.balances = s.balances
  supply : s'.totalSupply = s.totalSupply

/-- A call settles `users` at the index `i`, which accrues `r` to each. -/
structure Settles (D : Deployment W) (x : Tx) (users : List Address) (i : Nat) (r : Address → Nat)
    (s s' : State W) : Prop where
  index : assetIndex D x.msg.timestamp (s.assets D.self) s.totalSupply = .ok i
  accrued : ∀ u ∈ users, DistributionManager.accrued (s.balances u) i ((s.assets D.self).users u) = .ok (r u)
  asset : s'.assets D.self = (s.assets D.self).settledFor x.msg.timestamp i users
  rewards : ∀ u, s'.stakerRewardsToClaim u + x.paid D s u =
    s.stakerRewardsToClaim u + if u ∈ users then r u else 0
  balances : ∀ u ∉ users, s'.balances u = s.balances u

section

variable {x : Tx} {s s' : State W} {users : List Address} {src dst u : Address} {amount i : Nat} {r : Address → Nat}

theorem Tx.paid_of_ne (h : ∀ dst amount, x.call ≠ .claimRewards dst amount) : x.paid D s u = 0 := by
  unfold Tx.paid
  split
  · next hx => exact absurd hx (h _ _)
  · rfl

/-- A settlement does not depend on allowances. -/
theorem Settles.approve {f : Address → Address → Nat} (h : Settles D x users i r s s') :
    Settles D x users i r s { s' with allowances := f } :=
  ⟨h.index, h.accrued, h.asset, h.rewards, h.balances⟩

theorem Settles.transfer (hT : x.msg.timestamp < 2 ^ 128)
    (hx : ∀ dst amount, x.call ≠ .claimRewards dst amount)
    (h : StakedToken.transfer D x.msg x.version src dst amount s = .ok s') :
    ∃ i r, Settles D x [src, dst] i r s s' := by
  have hpaid : ∀ u, x.paid D s u = 0 := fun _ => Tx.paid_of_ne hx
  by_cases heq : src = dst
  · subst heq
    obtain ⟨-, ha, -, r, assets, p, w, hu, -, -, -, rfl⟩ := transfer_self_ok_iff.1 h
    obtain ⟨i, hi, hr, rfl⟩ := (settlement_ok_iff hT).1 hu
    refine ⟨i, fun _ => r, hi, by simpa using hr, ?_, fun u => ?_, fun u _ => congrFun (Ledger.credit_debit ha) u⟩
    · show Function.update _ _ _ D.self = _
      simp [AssetData.settledFor]
    · rw [hpaid, Nat.add_zero]
      show credit s.stakerRewardsToClaim src r u = _
      simp [Ledger.credit_apply]
  · obtain ⟨-, -, ha, -, r, assets, r', assets', c, p, w, hu, -, hu', -, -, -, -, rfl⟩ := (transfer_ok_iff heq).1 h
    obtain ⟨i, hi, hr', rfl⟩ := (settlement_settle_ok_iff hT (Ne.symm heq) hu).1 hu'
    obtain ⟨_, hi', hr, rfl⟩ := (settlement_ok_iff hT).1 hu
    obtain rfl := Except.ok.inj (hi.symm.trans hi')
    refine ⟨i, fun u => if u = src then r else r', hi, ?_, Function.update_self .., fun u => ?_, fun u hu => ?_⟩
    · simpa [Ne.symm heq] using ⟨hr, hr'⟩
    · rw [hpaid, Nat.add_zero]
      show credit (credit s.stakerRewardsToClaim src r) dst r' u = _
      by_cases hs : u = src
      · simp [Ledger.credit_apply, hs, heq]
      · simp [Ledger.credit_apply, hs]
    · simp only [List.mem_cons, List.not_mem_nil, or_false, not_or] at hu
      show credit (Ledger.debit s.balances src amount) dst amount u = _
      rw [Ledger.credit_of_ne hu.2, Ledger.debit_of_ne hu.1]

/-- A call that settles settles whom it should. -/
theorem settles_of_exec (hT : x.msg.timestamp < 2 ^ 128) (hx : x.settledUsers = some users)
    (h : exec D x s = .ok s') : ∃ i r, Settles D x users i r s s' := by
  unfold Tx.settledUsers at hx
  cases effect_of_exec h with
  | stake onBehalfOf amount hc h =>
    simp only [hc, Option.some.injEq] at hx
    subst hx
    obtain ⟨-, -, -, -, r, assets, c, p, w, w', hu, -, -, -, -, -, rfl⟩ := stake_ok_iff.1 h
    obtain ⟨i, hi, hr, rfl⟩ := (settlement_ok_iff hT).1 hu
    refine ⟨i, fun _ => r, hi, by simpa using hr, Function.update_self .., fun u => ?_,
      fun u hu => Ledger.credit_of_ne (by simpa using hu)⟩
    rw [Tx.paid_of_ne (by simp [hc]), Nat.add_zero]
    show credit s.stakerRewardsToClaim onBehalfOf r u = _
    simp [Ledger.credit_apply]
  | redeem dst amount hc h =>
    simp only [hc, Option.some.injEq] at hx
    subst hx
    obtain ⟨-, -, -, -, -, r, assets, p, w, w', hu, -, -, -, -, rfl⟩ := redeem_ok_iff.1 h
    obtain ⟨i, hi, hr, rfl⟩ := (settlement_ok_iff hT).1 hu
    refine ⟨i, fun _ => r, hi, by simpa using hr, Function.update_self .., fun u => ?_,
      fun u hu => Ledger.debit_of_ne (by simpa using hu)⟩
    rw [Tx.paid_of_ne (by simp [hc]), Nat.add_zero]
    show credit s.stakerRewardsToClaim x.msg.sender r u = _
    simp [Ledger.credit_apply]
  | cooldown hc h => simp [hc] at hx
  | claimRewards dst amount n hc h =>
    simp only [hc, Option.some.injEq] at hx
    subst hx
    have hpaid : ∀ u, x.paid D s u = if u = x.msg.sender then n else 0 := fun u => by simp [Tx.paid, hc, h]
    obtain ⟨r, assets, w, hu, -, -, hn, -, rfl⟩ := claimRewards_ok_iff.1 h
    obtain ⟨i, hi, hr, rfl⟩ := (settlement_ok_iff hT).1 hu
    refine ⟨i, fun _ => r, hi, by simpa using hr, Function.update_self .., fun u => ?_, fun u _ => rfl⟩
    rw [hpaid]
    by_cases h : u = x.msg.sender
    · subst h; simp [Nat.sub_add_cancel hn]
    · simp [h]
  | transfer src dst amount f s₁ hc hs hs' =>
    subst hs'
    have husers : users = [src, dst] := by rcases hc with ⟨hc, rfl⟩ | hc <;> simpa [hc] using hx.symm
    obtain ⟨i, r, h⟩ := Settles.transfer hT (by rcases hc with ⟨hc, -⟩ | hc <;> simp [hc]) hs
    exact ⟨i, r, husers ▸ h.approve⟩
  | configureAssets inputs hc h => simp [hc] at hx
  | aside hc f p n hs' => split at hx <;> simp_all [aside]

/-- A call that neither settles nor configures leaves what rewards depend on. -/
theorem kept_of_exec (hx : x.settledUsers = none) (hconfigures : ∀ inputs, x.call ≠ .configureAssets inputs)
    (h : exec D x s = .ok s') : Kept D s s' := by
  cases effect_of_exec h with
  | stake onBehalfOf amount hc => simp [Tx.settledUsers, hc] at hx
  | redeem dst amount hc => simp [Tx.settledUsers, hc] at hx
  | cooldown hc h =>
    obtain ⟨-, rfl⟩ := cooldown_ok_iff.1 h
    exact ⟨rfl, rfl, rfl, rfl⟩
  | claimRewards dst amount n hc => simp [Tx.settledUsers, hc] at hx
  | transfer src dst amount f s₁ hc => rcases hc with ⟨hc, -⟩ | hc <;> simp [Tx.settledUsers, hc] at hx
  | configureAssets inputs hc => exact absurd hc (hconfigures inputs)
  | aside hc f p n hs' =>
    subst hs'
    exact ⟨rfl, rfl, rfl, rfl⟩

/-- A call that configures does so as the last entry for the staked token
says, if there is one. -/
theorem configures_of_exec {inputs : List AssetConfigInput} (hT : x.msg.timestamp < 2 ^ 128)
    (hx : x.call = .configureAssets inputs) (h : exec D x s = .ok s') :
    (lastEntry D.self inputs = none ∧ Kept D s s') ∨
      ∃ i last, lastEntry D.self inputs = some last ∧ Configures D x last i s s' := by
  have hinputs : x.call.assetsConfigInput = inputs := by rw [hx]; rfl
  rw [exec, hx] at h
  obtain ⟨-, assets, hfold, rfl⟩ := configureAssets_ok_iff.1 h
  obtain ⟨hnone, hasset⟩ | ⟨i, last, hlast, hindex, hasset⟩ := entries_of_foldlM hT hfold
  · exact .inl ⟨hnone, hasset, rfl, rfl, rfl⟩
  · exact .inr ⟨i, last, hlast, hinputs ▸ hindex, hasset, rfl, rfl, rfl⟩

/-- Only a claim pays, and a claim settles. -/
theorem Tx.paid_of_settledUsers (hx : x.settledUsers = none) : x.paid D s u = 0 :=
  Tx.paid_of_ne fun _ _ hc => by simp [Tx.settledUsers, hc] at hx

theorem Kept.step (h : Kept D s s') (hx : x.settledUsers = none) : RewardStep D x s s' :=
  .keep h.asset h.rewards h.balances h.supply fun _ => Tx.paid_of_settledUsers hx

theorem Settles.step (h : Settles D x users i r s s') : RewardStep D x s s' :=
  .settle users i r h.index h.accrued h.asset h.rewards h.balances

theorem Configures.step {last : AssetConfigInput} (h : Configures D x last i s s')
    (hlast : lastEntry D.self x.call.assetsConfigInput = some last) (hx : x.settledUsers = none) :
    RewardStep D x s s' := by
  obtain ⟨first, hfirst, hself, hindex⟩ := h.index
  obtain ⟨hmem, hlast⟩ := lastEntry_mem hlast
  exact .configure i first last hfirst hmem ⟨hself, hlast⟩ hindex h.asset h.rewards h.balances h.supply fun _ =>
    Tx.paid_of_settledUsers hx

/-- Every successful call is such a step. -/
theorem rewardStep_of_exec (hT : x.msg.timestamp < 2 ^ 128) (h : exec D x s = .ok s') : RewardStep D x s s' := by
  cases hx : x.settledUsers with
  | some users =>
    obtain ⟨i, r, h⟩ := settles_of_exec hT hx h
    exact h.step
  | none =>
    by_cases hc : ∃ inputs, x.call = .configureAssets inputs
    · obtain ⟨inputs, hc⟩ := hc
      obtain ⟨-, h⟩ | ⟨i, last, hlast, h⟩ := configures_of_exec hT hc h
      · exact h.step hx
      · exact h.step (by rw [hc]; exact hlast) hx
    · exact (kept_of_exec hx (fun inputs h => hc ⟨inputs, h⟩) h).step hx

end

end StarlayStake
