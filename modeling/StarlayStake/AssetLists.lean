/-
Lists of assets. A claim gathers what the assets of its list answer, and
then settles them one by one against a storage that changes under it. What
it comes to does not depend on the order, and an asset listed again counts
for nothing: the second time its index and the user's are where the first
left them (`claimRewards_same_assets`).

The view computes the same amounts from a storage that does not change, so
for it an asset listed again counts again: it agrees with a claim exactly
when what is listed again is worth nothing (`getRewardsBalance_iff`).
-/
import StarlayStake.Backing
import StarlayStake.IncentivesEffects

namespace StarlayStake

open Outcome (bind_ok_iff pure_ok_iff)

variable {W : Type} {D : Deployment W} {C : IncentivesDeployment W}

/-! ## What a list answers -/

namespace IncentivesController

/-- The entry gathered for an asset at a place of the list. -/
def entry (C : IncentivesDeployment W) (user : Address) (w : W) (p : Address × Nat) : Except String UserStakeInput := do
  let scaled ← C.getScaledUserBalanceAndSupply p.1 user p.2 w
  return { underlyingAsset := p.1, stakedByUser := scaled.1, totalStaked := scaled.2 }

/-- What an asset answers, the first time it is asked. -/
def answered (C : IncentivesDeployment W) (user : Address) (w : W) (asset : Address) : UserStakeInput :=
  match C.getScaledUserBalanceAndSupply asset user 0 w with
  | .ok scaled => { underlyingAsset := asset, stakedByUser := scaled.1, totalStaked := scaled.2 }
  | .error _ => { underlyingAsset := asset, stakedByUser := 0, totalStaked := 0 }

variable {assets : List Address} {asset user : Address} {place : Nat} {w : W} {stakes : List UserStakeInput}
  {stake : UserStakeInput}

theorem userState_eq : userState C assets user w = assets.zipIdx.mapM (entry C user w) := rfl

theorem entry_ok_iff :
    entry C user w (asset, place) = .ok stake ↔
      ∃ scaled, C.getScaledUserBalanceAndSupply asset user place w = .ok scaled ∧
        stake = { underlyingAsset := asset, stakedByUser := scaled.1, totalStaked := scaled.2 } := by
  simp only [entry, bind_ok_iff, pure_ok_iff]

theorem answered_underlyingAsset : (answered C user w asset).underlyingAsset = asset := by
  unfold answered
  split <;> rfl

/-- The entries gathered are for the assets of the list, in its order. -/
theorem userState_assets (h : userState C assets user w = .ok stakes) : stakes.map (·.underlyingAsset) = assets := by
  rw [userState_eq, Outcome.mapM_ok_iff] at h
  have hmap : List.Forall₂ (fun (p : Address × Nat) (stake : UserStakeInput) => p.1 = stake.underlyingAsset)
      assets.zipIdx stakes := h.imp fun p stake hp => by
    obtain ⟨_, -, rfl⟩ := entry_ok_iff.1 hp
    rfl
  have := List.forall₂_map_left_iff.2 (List.forall₂_map_right_iff.2 hmap)
  rw [List.forall₂_eq_eq_eq, List.zipIdx_map_fst] at this
  exact this.symm

/-- Assets that answer the same whenever they are asked answer the same
anywhere in a list. -/
theorem userState_ok_iff (hsame : ∀ a ∈ assets, ∀ place,
    C.getScaledUserBalanceAndSupply a user place w = C.getScaledUserBalanceAndSupply a user 0 w) :
    userState C assets user w = .ok stakes ↔
      (∀ a ∈ assets, ∃ scaled, C.getScaledUserBalanceAndSupply a user 0 w = .ok scaled) ∧
        stakes = assets.map (answered C user w) := by
  have hentry : ∀ p ∈ assets.zipIdx, ∀ stake, entry C user w p = .ok stake ↔
      ∃ scaled, C.getScaledUserBalanceAndSupply p.1 user 0 w = .ok scaled ∧ stake = answered C user w p.1 := by
    rintro ⟨a, place⟩ hp stake
    rw [entry_ok_iff, hsame a (List.fst_mem_of_mem_zipIdx hp)]
    refine exists_congr fun scaled => and_congr_right fun h => ?_
    simp [answered, h]
  have hanswered : ∀ p ∈ assets.zipIdx, ∀ stake, entry C user w p = .ok stake → stake = answered C user w p.1 := by
    intro p hp stake h
    obtain ⟨_, -, h⟩ := (hentry p hp stake).1 h
    exact h
  rw [userState_eq, Outcome.mapM_ok_iff_map hanswered, ← Function.comp_def (answered C user w) Prod.fst,
    ← List.map_map, List.zipIdx_map_fst]
  refine and_congr_left fun _ => ?_
  constructor
  · intro h a ha
    rw [← List.zipIdx_map_fst 0 assets, List.mem_map] at ha
    obtain ⟨p, hp, rfl⟩ := ha
    obtain ⟨scaled, hscaled, -⟩ := (hentry p hp _).1 (h p hp)
    exact ⟨scaled, hscaled⟩
  · intro h p hp
    obtain ⟨scaled, hscaled⟩ := h p.1 (List.fst_mem_of_mem_zipIdx hp)
    exact (hentry p hp _).2 ⟨scaled, hscaled, rfl⟩

end IncentivesController

/-! ## The loop of a claim -/

namespace DistributionManager

variable {E T : Nat} {user : Address} {stake stake' : UserStakeInput} {p p₁ p' : Nat × (Address → AssetData)}

/-- Entries for different assets settle one without the other. -/
theorem claimStep_commute (hne : stake.underlyingAsset ≠ stake'.underlyingAsset) :
    Runs.Commute (claimStep E T user) stake stake' := by
  rintro ⟨n, assets⟩ ⟨n₁, assets₁⟩ ⟨n', assets'⟩ h h'
  obtain ⟨r, a, ha, hfits, rfl, rfl⟩ := claimStep_ok_iff.1 h
  obtain ⟨r', a', ha', hfits', rfl, rfl⟩ := claimStep_ok_iff.1 h'
  rw [Function.update_of_ne hne.symm] at ha'
  refine ⟨(n + r', Function.update assets stake'.underlyingAsset a'),
    claimStep_ok_iff.2 ⟨r', a', ha', by omega, rfl, rfl⟩, claimStep_ok_iff.2 ⟨r, a, ?_, by omega, by omega, ?_⟩⟩
  · rwa [Function.update_of_ne hne]
  · exact Function.update_comm hne ..

/-- The asset and the user's index of it are up to date. -/
def UpToDate (timestamp : Nat) (user : Address) (a : AssetData) : Prop :=
  a.lastUpdateTimestamp = timestamp ∧ a.users user = a.index

theorem UpToDate.getAssetIndex {a : AssetData} {total : Nat} (h : UpToDate T user a) :
    getAssetIndex E T a.index a.emissionPerSecond a.lastUpdateTimestamp total = .ok a.index := by
  simp [DistributionManager.getAssetIndex, h.1]

theorem UpToDate.settled {a : AssetData} (h : UpToDate T user a) :
    (a.settled (storedTimestamp T a) a.index).setUser user a.index = a := by
  obtain ⟨rfl, hu⟩ := h
  have : Function.update a.users user a.index = a.users := by rw [← hu, Function.update_eq_self]
  simp [storedTimestamp, AssetData.settled, AssetData.setUser, this]

/-- Then an entry accrues nothing and changes nothing. -/
theorem UpToDate.claimStep {n : Nat} {assets : Address → AssetData} (hn : n < 2 ^ 256)
    (h : UpToDate T user (assets stake.underlyingAsset)) :
    claimStep E T user stake (n, assets) = .ok (n, assets) := by
  refine claimStep_ok_iff.2 ⟨0, assets stake.underlyingAsset, settleAsset_ok_iff.2 ⟨_, h.getAssetIndex, ?_,
    h.settled.symm⟩, hn, rfl, (Function.update_eq_self ..).symm⟩
  simp [accrued, h.2]

theorem upToDate_of_claimStep (hT : T < 2 ^ 128) (h : claimStep E T user stake p = .ok p') :
    p'.1 < 2 ^ 256 ∧ UpToDate T user (p'.2 stake.underlyingAsset) := by
  obtain ⟨r, a, ha, hfits, hn, hassets⟩ := claimStep_ok_iff.1 h
  obtain ⟨i, -, -, rfl⟩ := settleAsset_ok_iff.1 ha
  rw [hassets, Function.update_self, storedTimestamp_of_lt hT]
  exact ⟨by omega, rfl, Function.update_self ..⟩

theorem claimStep_again (hT : T < 2 ^ 128) (h : claimStep E T user stake p = .ok p') :
    claimStep E T user stake p' = .ok p' := by
  obtain ⟨hn, hdate⟩ := upToDate_of_claimStep hT h
  exact hdate.claimStep hn

end DistributionManager

/-! ## Any order, any repetition -/

section

variable {m : Msg} {v : Version} {l l' : List Address} {amount : Nat} {dst : Address} {stake : Bool} {σ : System W}
  {p : Nat × System W}

open IncentivesController (answered answered_underlyingAsset userState_ok_iff claimRewards_ok_iff)

/-- A claim over a list that answers also answers over any list of the same
assets. -/
theorem claimRewards_of_same_assets (hT : m.timestamp < 2 ^ 128) (hset : ∀ a, a ∈ l ↔ a ∈ l')
    (hsame : ∀ a ∈ l, ∀ place, C.getScaledUserBalanceAndSupply a m.sender place σ.staked.world =
      C.getScaledUserBalanceAndSupply a m.sender 0 σ.staked.world)
    (h : IncentivesController.claimRewards D C m v l amount dst stake σ = .ok p) :
    IncentivesController.claimRewards D C m v l' amount dst stake σ = .ok p := by
  rcases claimRewards_ok_iff.1 h with h | ⟨hne, stakes, r, assets, hstakes, hclaim, hfits, hpay⟩
  · exact claimRewards_ok_iff.2 (.inl h)
  obtain ⟨hok, rfl⟩ := (userState_ok_iff hsame).1 hstakes
  refine claimRewards_ok_iff.2 (.inr ⟨hne, l'.map (answered C m.sender σ.staked.world), r, assets,
    (userState_ok_iff fun a ha => hsame a ((hset a).2 ha)).2 ⟨fun a ha => hok a ((hset a).2 ha), rfl⟩, ?_, hfits, hpay⟩)
  rw [DistributionManager.claimRewards_eq, Runs.transact_map] at hclaim ⊢
  refine Runs.transact_of_mem_iff hset (fun a _ b _ => ?_) (fun a _ p p' => ?_) hclaim
  · by_cases hab : a = b
    · subst hab
      exact fun s s₁ s' h h' => ⟨s₁, h, h'⟩
    · exact DistributionManager.claimStep_commute (by rwa [answered_underlyingAsset, answered_underlyingAsset])
  · exact DistributionManager.claimStep_again hT

/-- **A claim depends on the set of assets alone.** Two lists of the same
assets, in any order and with any repetitions, each asset answering the same
whenever it is asked: a claim over the one returns, draws, pays and leaves
behind exactly what a claim over the other does, at the same timestamp, or
both revert. -/
theorem claimRewards_same_assets (hT : m.timestamp < 2 ^ 128) (hset : ∀ a, a ∈ l ↔ a ∈ l')
    (hsame : ∀ a ∈ l, ∀ place, C.getScaledUserBalanceAndSupply a m.sender place σ.staked.world =
      C.getScaledUserBalanceAndSupply a m.sender 0 σ.staked.world) :
    IncentivesController.claimRewards D C m v l amount dst stake σ = .ok p ↔
      IncentivesController.claimRewards D C m v l' amount dst stake σ = .ok p :=
  ⟨claimRewards_of_same_assets hT hset hsame,
    claimRewards_of_same_assets hT (fun a => (hset a).symm) fun a ha => hsame a ((hset a).2 ha)⟩

end

/-! An asset that emits 1 a second, of which every user holds 5 of 10. -/

def sampleEmission : List (Action (Address → Erc20)) :=
  [.configureAssets ⟨.ofNat 5, 1, 100, sampleManager_ne⟩ [⟨1, 10, .ofNat 7, by decide⟩]]

def sampleSystem : System (Address → Erc20) :=
  System.run .erc20 .erc20 (.fresh 0 System.erc20.staked.world) sampleEmission

theorem claimRewards_same_assets_repeated :
    let claim := fun l => IncentivesController.claimRewards .erc20 .erc20 ⟨.ofNat 10, 2, 200, sampleHolder_ne⟩ .v2 l 30
      (.ofNat 10) false sampleSystem
    ∃ p, claim [.ofNat 7, .ofNat 8, .ofNat 7] = .ok p ∧ claim [.ofNat 8, .ofNat 7] = .ok p := by
  intro claim
  have hok : (claim [.ofNat 7, .ofNat 8, .ofNat 7]).isOk = true := by decide +kernel
  obtain ⟨p, hp⟩ := Outcome.exists_ok hok
  exact ⟨p, hp, (claimRewards_same_assets (by decide) (by simp) fun _ _ _ => rfl).1 hp⟩

/-- Where the timestamp does not fit its 128 bits, an asset listed again
counts again: what the first settlement stores lies in the past. -/
theorem claimRewards_counted_again :
    let claim := fun l => (IncentivesController.claimRewards .erc20 .erc20
      ⟨.ofNat 10, 2, 2 ^ 128 + 200, sampleHolder_ne⟩ .v2 l 30 (.ofNat 10) false sampleSystem).map
        fun p => (p.1, p.2.usersUnclaimedRewards (.ofNat 10))
    claim [.ofNat 7] = .ok (30, 420) ∧ claim [.ofNat 7, .ofNat 7] = .ok (30, 820) := by
  decide +kernel

/-! ## The view -/

namespace DistributionManager

/-- The entries of a list for an asset listed before them, or in `seen`. -/
def listedAgain (seen : List Address) : List UserStakeInput → List UserStakeInput
  | [] => []
  | stake :: stakes =>
    if stake.underlyingAsset ∈ seen then stake :: listedAgain seen stakes
    else listedAgain (stake.underlyingAsset :: seen) stakes

/-- An entry whose index can be brought forward, and then comes to less than
one unit of rewards. -/
def Worthless (DISTRIBUTION_END timestamp : Nat) (user : Address) (assets : Address → AssetData)
    (stake : UserStakeInput) : Prop :=
  let a := assets stake.underlyingAsset
  (getAssetIndex DISTRIBUTION_END timestamp a.index a.emissionPerSecond a.lastUpdateTimestamp stake.totalStaked).isOk =
      true ∧
    stake.stakedByUser * (a.index + indexGrowth DISTRIBUTION_END timestamp a.emissionPerSecond a.lastUpdateTimestamp
      stake.totalStaked - a.users user) < precisionUnit

instance {E T : Nat} {user : Address} {assets : Address → AssetData} {stake : UserStakeInput} :
    Decidable (Worthless E T user assets stake) := inferInstanceAs (Decidable (_ ∧ _))

variable {E T : Nat} {user : Address} {stake : UserStakeInput} {stakes : List UserStakeInput} {seen : List Address}
  {n n' k k' : Nat} {assets₀ assets assets' : Address → AssetData}

/-- A turn of the view that adds nothing. -/
theorem viewStep_self_iff (hn : n < 2 ^ 256)
    (hindex : (assets stake.underlyingAsset).users user ≤ (assets stake.underlyingAsset).index) :
    viewStep E T user assets stake n = .ok n ↔ Worthless E T user assets stake := by
  rw [viewStep_ok_iff]
  constructor
  · rintro ⟨i, r, hi, hr, -, hnr⟩
    obtain ⟨-, -, rfl⟩ := getRewards_ok_iff.1 hr
    obtain rfl := getAssetIndex_ok hi
    refine ⟨by rw [hi]; rfl, (Nat.div_eq_zero_iff_lt precisionUnit_pos).1 (by omega)⟩
  · rintro ⟨hok, hlt⟩
    obtain ⟨i, hi⟩ := Outcome.exists_ok hok
    obtain rfl := getAssetIndex_ok hi
    have hunit : precisionUnit < 2 ^ 256 := by decide
    exact ⟨_, 0, hi, getRewards_ok_iff.2 ⟨by omega, by omega, (Nat.div_eq_of_lt hlt).symm⟩, hn, rfl⟩

/-- Where a claim has come to in its list: the assets it has seen are up to
date, the others as they were. -/
structure Seen (timestamp : Nat) (user : Address) (seen : List Address) (assets₀ assets : Address → AssetData) :
    Prop where
  upToDate : ∀ a ∈ seen, UpToDate timestamp user (assets a)
  same : ∀ a, a ∉ seen → assets a = assets₀ a

theorem Seen.start (assets : Address → AssetData) : Seen T user [] assets assets :=
  ⟨fun _ h => absurd h (by simp), fun _ _ => rfl⟩

/-- An asset not seen before counts the same for the claim and the view. -/
theorem Seen.unseen (hT : T < 2 ^ 128) (hindexed : ∀ a, (assets₀ a).users user ≤ (assets₀ a).index)
    (h : Seen T user seen assets₀ assets) (hstake : stake.underlyingAsset ∉ seen)
    (hs : claimStep E T user stake (n, assets) = .ok (n', assets')) :
    Seen T user (stake.underlyingAsset :: seen) assets₀ assets' ∧
      ∃ r, n' = n + r ∧ ∀ k, viewStep E T user assets₀ stake k = SafeMath.add k r := by
  obtain ⟨hn, hdate⟩ := upToDate_of_claimStep hT hs
  obtain ⟨r, a, ha, hfits, rfl, rfl⟩ := claimStep_ok_iff.1 hs
  refine ⟨⟨fun b hb => ?_, fun b hb => ?_⟩, r, rfl, fun k => ?_⟩
  · by_cases hne : b = stake.underlyingAsset
    · exact hne ▸ hdate
    · simp only [List.mem_cons, hne, false_or] at hb
      rw [Function.update_of_ne hne]
      exact h.upToDate b hb
  · rw [List.mem_cons, not_or] at hb
    rw [Function.update_of_ne hb.1]
    exact h.same b hb.2
  · rw [h.same _ hstake] at ha
    obtain ⟨i, hi, hr, -⟩ := settleAsset_ok_iff.1 ha
    have hle : (assets₀ stake.underlyingAsset).users user ≤ i :=
      (hindexed _).trans (getAssetIndex_ok hi ▸ Nat.le_add_right _ _)
    obtain ⟨hlt, hr⟩ := (accrued_ok_iff hle).1 hr
    simp only [viewStep, hi, Outcome.ok_bind, getRewards_ok_iff.2 ⟨hle, hlt, hr⟩]

/-- One seen before counts for nothing. -/
theorem Seen.again (hn : n < 2 ^ 256) (h : Seen T user seen assets₀ assets) (hstake : stake.underlyingAsset ∈ seen) :
    claimStep E T user stake (n, assets) = .ok (n, assets) := (h.upToDate _ hstake).claimStep hn

/-- The view never adds less than a claim does. -/
theorem Seen.view_le (hT : T < 2 ^ 128) (hindexed : ∀ a, (assets₀ a).users user ≤ (assets₀ a).index) (hn : n < 2 ^ 256)
    (h : Seen T user seen assets₀ assets)
    (hclaim : Runs.transact (claimStep E T user) (n, assets) stakes = .ok (n', assets'))
    (hview : Runs.transact (viewStep E T user assets₀) k stakes = .ok k') : n' + k ≤ n + k' := by
  induction stakes generalizing n k assets seen with
  | nil =>
    obtain ⟨rfl, rfl⟩ := Prod.mk.inj (Except.ok.inj hclaim)
    obtain rfl := Except.ok.inj hview
    exact le_refl _
  | cons stake stakes ih =>
    obtain ⟨⟨n₁, assets₁⟩, hs, hclaim⟩ := Runs.transact_cons_ok_iff.1 hclaim
    obtain ⟨k₁, hk, hview⟩ := Runs.transact_cons_ok_iff.1 hview
    by_cases hstake : stake.underlyingAsset ∈ seen
    · obtain ⟨rfl, rfl⟩ := Prod.mk.inj (Except.ok.inj ((h.again hn hstake).symm.trans hs))
      obtain ⟨_, r, -, -, -, rfl⟩ := viewStep_ok_iff.1 hk
      have := ih hn h hclaim hview
      omega
    · obtain ⟨h₁, r, rfl, hadd⟩ := h.unseen hT hindexed hstake hs
      rw [hadd, SafeMath.add_ok_iff] at hk
      have := ih (upToDate_of_claimStep hT hs).1 h₁ hclaim hview
      omega

/-- The view agrees with a claim exactly when what is listed again is
worthless; and the claim leaves the assets of the list up to date. -/
theorem Seen.view_iff (hT : T < 2 ^ 128) (hindexed : ∀ a, (assets₀ a).users user ≤ (assets₀ a).index) (hn : n < 2 ^ 256)
    (h : Seen T user seen assets₀ assets)
    (hclaim : Runs.transact (claimStep E T user) (n, assets) stakes = .ok (n', assets')) :
    (Runs.transact (viewStep E T user assets₀) n stakes = .ok n' ↔
        ∀ stake ∈ listedAgain seen stakes, Worthless E T user assets₀ stake) ∧
      ∀ a, a ∈ seen ∨ a ∈ stakes.map (·.underlyingAsset) → UpToDate T user (assets' a) := by
  induction stakes generalizing n assets seen with
  | nil =>
    obtain ⟨rfl, rfl⟩ := Prod.mk.inj (Except.ok.inj hclaim)
    exact ⟨by simp [listedAgain, Runs.transact, pure, Except.pure], fun a ha => h.upToDate a (by simpa using ha)⟩
  | cons stake stakes ih =>
    obtain ⟨⟨n₁, assets₁⟩, hs, hclaim⟩ := Runs.transact_cons_ok_iff.1 hclaim
    rw [Runs.transact_cons_ok_iff]
    by_cases hstake : stake.underlyingAsset ∈ seen
    · obtain ⟨rfl, rfl⟩ := Prod.mk.inj (Except.ok.inj ((h.again hn hstake).symm.trans hs))
      obtain ⟨hview, hdate⟩ := ih hn h hclaim
      have hself : viewStep E T user assets₀ stake n = .ok n ↔ Worthless E T user assets₀ stake :=
        viewStep_self_iff hn (hindexed _)
      refine ⟨?_, fun a ha => hdate a ?_⟩
      · rw [listedAgain, if_pos hstake, List.forall_mem_cons, ← hview, ← hself]
        constructor
        · rintro ⟨k, hk, hrest⟩
          -- the rest adds no less than the claim, so this entry adds nothing
          have hle := h.view_le hT hindexed hn hclaim hrest
          obtain ⟨_, r, -, -, -, hr⟩ := viewStep_ok_iff.1 hk
          obtain rfl : k = n := by omega
          exact ⟨hk, hrest⟩
        · rintro ⟨hk, hrest⟩
          exact ⟨n, hk, hrest⟩
      · rw [List.map_cons, List.mem_cons] at ha
        rcases ha with ha | rfl | ha
        · exact .inl ha
        · exact .inl hstake
        · exact .inr ha
    · obtain ⟨h₁, r, rfl, hadd⟩ := h.unseen hT hindexed hstake hs
      have hn₁ := (upToDate_of_claimStep hT hs).1
      obtain ⟨hview, hdate⟩ := ih hn₁ h₁ hclaim
      refine ⟨?_, fun a ha => hdate a ?_⟩
      · rw [listedAgain, if_neg hstake, ← hview]
        constructor
        · rintro ⟨k, hk, hrest⟩
          rw [hadd, SafeMath.add_ok_iff] at hk
          obtain ⟨-, rfl⟩ := hk
          exact hrest
        · intro hrest
          exact ⟨n + r, by rw [hadd, SafeMath.add_of hn₁], hrest⟩
      · rw [List.map_cons, List.mem_cons] at ha
        rw [List.mem_cons]
        tauto

/-- The view of assets that are up to date adds nothing. -/
theorem view_upToDate (hn : n < 2 ^ 256) (h : ∀ stake ∈ stakes, UpToDate T user (assets stake.underlyingAsset)) :
    Runs.transact (viewStep E T user assets) n stakes = .ok n := by
  induction stakes with
  | nil => rfl
  | cons stake stakes ih =>
    rw [List.forall_mem_cons] at h
    refine Runs.transact_cons_ok_iff.2 ⟨n, viewStep_ok_iff.2 ⟨_, 0, h.1.getAssetIndex, ?_, hn, rfl⟩, ih h.2⟩
    rw [h.1.2, getRewards_ok_iff]
    simp

end DistributionManager

namespace IncentivesController

variable {m : Msg} {v : Version} {dst user : Address} {unclaimed n T : Nat} {σ σ' : System W} {assets : List Address}

/-- A claim of everything returns, draws and books it all. -/
theorem payUnclaimed_all (hfits : unclaimed < 2 ^ 256) (hstored : σ.usersUnclaimedRewards m.sender ≤ unclaimed)
    (h : payUnclaimed D C m v uint256Max dst false unclaimed σ = .ok (n, σ')) :
    n = unclaimed ∧ σ'.assets = σ.assets ∧ σ'.usersUnclaimedRewards m.sender = 0 ∧
      (n = 0 ∧ σ'.staked = σ.staked ∨
        IERC20.transferFrom D.ext C.REWARD_TOKEN C.self C.REWARDS_VAULT dst n σ.staked.world = .ok σ'.staked.world) := by
  have hmin : min uint256Max unclaimed = unclaimed := by
    rw [Nat.min_eq_right]
    show unclaimed ≤ 2 ^ 256 - 1
    omega
  rcases payUnclaimed_ok_iff.1 h with ⟨rfl, rfl, rfl⟩ | ⟨-, s, hpay, rfl⟩
  · exact ⟨rfl, rfl, Nat.le_zero.1 hstored, .inl ⟨rfl, rfl⟩⟩
  · simp only [payRewards, Bool.false_eq_true, if_false, bind_ok_iff, pure_ok_iff, Prod.mk.injEq, hmin] at hpay
    obtain ⟨w, hw, rfl, rfl⟩ := hpay
    refine ⟨rfl, rfl, ?_, .inr hw⟩
    show Function.update σ.usersUnclaimedRewards m.sender (n - min uint256Max n) m.sender = 0
    rw [Function.update_self, hmin, Nat.sub_self]

/-- Once nothing is unclaimed and the assets are up to date, the view
answers zero. -/
theorem getRewardsBalance_upToDate {stakes : List UserStakeInput} (hzero : σ.usersUnclaimedRewards user = 0)
    (hdate : ∀ a ∈ assets, DistributionManager.UpToDate T user (σ.assets a))
    (hstakes : userState C assets user σ.staked.world = .ok stakes) : getRewardsBalance C T assets user σ = .ok 0 := by
  refine getRewardsBalance_ok_iff.2 ⟨stakes, 0, hstakes, ?_, by rw [hzero]; decide, by rw [hzero]⟩
  refine DistributionManager.view_upToDate (by decide) fun stake hstake => hdate _ ?_
  rw [← userState_assets hstakes]
  exact List.mem_map_of_mem hstake

end IncentivesController

open IncentivesController (userState getRewardsBalance claimRewards_ok_iff getRewardsBalance_ok_iff
  userState_assets)

/-- **The view and the claim.** A claim of everything by `m.sender`, in any
state reached: the view had answered what it returns and draws, over the
same list with the same answers, if and only if every entry listed again is
worthless; and after it the view answers zero, whatever the assets then
answer. -/
theorem getRewardsBalance_iff {g : Address} {w : W} {l : List (Action W)} {m : Msg} {v : Version}
    {assets : List Address} {dst : Address} {n : Nat} {σ' : System W} (hT : m.timestamp < 2 ^ 128) :
    let σ := System.run D C (.fresh g w) l
    IncentivesController.claimRewards D C m v assets uint256Max dst false σ = .ok (n, σ') →
    ∃ stakes, userState C assets m.sender σ.staked.world = .ok stakes ∧
      (getRewardsBalance C m.timestamp assets m.sender σ = .ok n ↔
        ∀ stake ∈ DistributionManager.listedAgain [] stakes,
          DistributionManager.Worthless C.DISTRIBUTION_END m.timestamp m.sender σ.assets stake) ∧
      (n = 0 ∧ σ'.staked = σ.staked ∨
        IERC20.transferFrom D.ext C.REWARD_TOKEN C.self C.REWARDS_VAULT dst n σ.staked.world = .ok σ'.staked.world) ∧
      ∀ stakes', userState C assets m.sender σ'.staked.world = .ok stakes' →
        getRewardsBalance C m.timestamp assets m.sender σ' = .ok 0 := by
  intro σ h
  have hindexed : ∀ a, (σ.assets a).users m.sender ≤ (σ.assets a).index := fun a => System.indexed_of_run a m.sender
  have hword : σ.usersUnclaimedRewards m.sender < 2 ^ 256 := System.unclaimed_of_run m.sender
  rcases claimRewards_ok_iff.1 h with ⟨h, -⟩ | ⟨-, stakes, r, assets', hstakes, hclaim, hfits, hpay⟩
  · exact absurd h (by decide)
  have hfits' : σ.usersUnclaimedRewards m.sender + r < 2 ^ 256 := by
    by_cases hr : r = 0
    · rw [hr]; exact hword
    · exact hfits hr
  obtain ⟨rfl, hassets, hzero, hpaid⟩ := IncentivesController.payUnclaimed_all
    (σ := { σ with assets := assets' }) hfits' (Nat.le_add_right _ _) hpay
  rw [DistributionManager.claimRewards_eq] at hclaim
  obtain ⟨hview, hdate⟩ := (DistributionManager.Seen.start σ.assets).view_iff hT hindexed (by decide) hclaim
  refine ⟨stakes, hstakes, ?_, hpaid, fun stakes' hstakes' => ?_⟩
  · rw [← hview, getRewardsBalance_ok_iff]
    constructor
    · rintro ⟨_, r', hstakes', hr', -, hn⟩
      obtain rfl := Except.ok.inj (hstakes.symm.trans hstakes')
      obtain rfl : r' = r := by omega
      exact hr'
    · intro hr
      exact ⟨stakes, r, hstakes, hr, hfits', rfl⟩
  · refine IncentivesController.getRewardsBalance_upToDate hzero (fun a ha => ?_) hstakes'
    rw [hassets]
    refine hdate a (.inr ?_)
    rw [userState_assets hstakes]
    exact ha

/-- A list in which an asset that emits nothing is listed twice. -/
theorem getRewardsBalance_iff_once :
    let m : Msg := ⟨.ofNat 10, 2, 200, sampleHolder_ne⟩
    ∃ σ', IncentivesController.claimRewards .erc20 .erc20 m .v2 [.ofNat 8, .ofNat 7, .ofNat 8] uint256Max (.ofNat 10)
        false sampleSystem = .ok (50, σ') ∧
      getRewardsBalance .erc20 200 [.ofNat 8, .ofNat 7, .ofNat 8] (.ofNat 10) sampleSystem = .ok 50 ∧
      getRewardsBalance .erc20 200 [.ofNat 8, .ofNat 7, .ofNat 8] (.ofNat 10) σ' = .ok 0 := by
  intro m
  have hok : (IncentivesController.claimRewards .erc20 .erc20 m .v2 [.ofNat 8, .ofNat 7, .ofNat 8] uint256Max
      (.ofNat 10) false sampleSystem).isOk = true := by decide +kernel
  obtain ⟨⟨n, σ'⟩, h⟩ := Outcome.exists_ok hok
  obtain ⟨stakes, hstakes, hview, -, hafter⟩ := getRewardsBalance_iff (by decide) h
  have hn : (IncentivesController.claimRewards .erc20 .erc20 m .v2 [.ofNat 8, .ofNat 7, .ofNat 8] uint256Max
      (.ofNat 10) false sampleSystem).map (·.1) = .ok 50 := by decide +kernel
  rw [h] at hn
  obtain rfl := Except.ok.inj hn
  obtain rfl := Except.ok.inj hstakes
  exact ⟨σ', h, hview.2 (by decide +kernel), hafter _ rfl⟩

/-- An asset listed twice, of which the view answers twice what a claim pays. -/
theorem getRewardsBalance_counts_twice :
    let m : Msg := ⟨.ofNat 10, 2, 200, sampleHolder_ne⟩
    getRewardsBalance .erc20 200 [.ofNat 7, .ofNat 7] (.ofNat 10) sampleSystem = .ok 100 ∧
      (IncentivesController.claimRewards .erc20 .erc20 m .v2 [.ofNat 7, .ofNat 7] uint256Max (.ofNat 10) false
        sampleSystem).map (·.1) = .ok 50 := by
  decide +kernel

end StarlayStake
