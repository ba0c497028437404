/-
The index of an asset in closed form. Whatever is configured and whoever is
settled, the index is a sum over the times at which the asset was updated
(`closedForm`): from each to the next, the emission in force since the one
times the time up to the end of the distribution, per unit of the total
passed at the other, rounded down. An update adds the last summand
(`closedForm_concat`). The emissions fit 128 bits and the times 64, so the
arithmetic of an update stays within its 256 (`Indexed.getAssetIndex`).
-/
import StarlayStake.DistributionManager
import StarlayStake.Lib.Runs
import StarlayStake.Lib.Timeline

namespace StarlayStake

open DistributionManager
open Timeline (sumBetween times firstAt upTo)
open Outcome (bind_ok_iff pure_ok_iff)

/-! ## Updates -/

/-- A call that updates assets: `configureAssets`, and those that come down
to `_updateUserAssetInternal`. -/
inductive UpdateCall
  | configureAssets (sender : Address) (timestamp : Nat) (assetsConfigInput : List AssetConfigInput)
  | updateUserAsset (timestamp : Nat) (user asset : Address) (stakedByUser totalStaked : Nat)

/-- An update of one asset; a configuration sets the emission. -/
structure AssetUpdate where
  timestamp : Nat
  totalStaked : Nat
  emissionPerSecond : Option Nat

namespace UpdateCall

def timestamp : UpdateCall → Nat
  | .configureAssets _ timestamp _ => timestamp
  | .updateUserAsset timestamp _ _ _ _ => timestamp

/-- The updates of an asset a call makes. -/
def updates (asset : Address) : UpdateCall → List AssetUpdate
  | .configureAssets _ timestamp inputs =>
    (inputs.filter fun input => input.underlyingAsset = asset).map fun input =>
      ⟨timestamp, input.totalStaked, some input.emissionPerSecond⟩
  | .updateUserAsset timestamp _ underlyingAsset _ totalStaked =>
    if underlyingAsset = asset then [⟨timestamp, totalStaked, none⟩] else []

theorem updates_cons {asset sender : Address} {T : Nat} {input : AssetConfigInput} {inputs : List AssetConfigInput} :
    (configureAssets sender T (input :: inputs)).updates asset =
      (if input.underlyingAsset = asset then [⟨T, input.totalStaked, some input.emissionPerSecond⟩] else []) ++
        (configureAssets sender T inputs).updates asset := by
  by_cases h : input.underlyingAsset = asset <;> simp [updates, h]

theorem timestamp_of_mem {asset : Address} {x : UpdateCall} {u : AssetUpdate} (hu : u ∈ x.updates asset) :
    u.timestamp = x.timestamp := by
  cases x with
  | configureAssets sender T inputs =>
    obtain ⟨input, -, rfl⟩ := List.mem_map.1 hu
    rfl
  | updateUserAsset T user underlyingAsset staked total =>
    by_cases h : underlyingAsset = asset
    · simp only [updates, if_pos h, List.mem_singleton] at hu
      rw [hu]
      rfl
    · simp only [updates, if_neg h, List.not_mem_nil] at hu

variable (EMISSION_MANAGER : Address) (DISTRIBUTION_END : Nat)

def exec (x : UpdateCall) (assets : Address → AssetData) : Except String (Address → AssetData) :=
  match x with
  | .configureAssets sender timestamp inputs =>
    DistributionManager.configureAssets EMISSION_MANAGER DISTRIBUTION_END timestamp sender inputs assets
  | .updateUserAsset timestamp user asset stakedByUser totalStaked => do
    let updated ← updateUserAssetInternal DISTRIBUTION_END timestamp user asset stakedByUser totalStaked
      assets
    return updated.2

/-- The assets before anything is configured. -/
def unset : Address → AssetData := fun _ => ⟨0, 0, 0, fun _ => 0⟩

def run (l : List UpdateCall) : Address → AssetData := Runs.run (exec EMISSION_MANAGER DISTRIBUTION_END) unset l

/-- The updates an asset had in a run. -/
def history (asset : Address) (l : List UpdateCall) : List AssetUpdate :=
  (Runs.run (Runs.record (exec EMISSION_MANAGER DISTRIBUTION_END) fun x _ _ log => log ++ x.updates asset)
    (unset, []) l).2

end UpdateCall

/-! ## The closed form -/

/-- The emission in force since `t`: the last one configured by then. -/
def emissionAt (us : List AssetUpdate) (t : Nat) : Nat :=
  ((upTo AssetUpdate.timestamp us t).filterMap AssetUpdate.emissionPerSecond).getLast?.getD 0

/-- The total passed at `t`: by the first update then. -/
def totalAt (us : List AssetUpdate) (t : Nat) : Nat :=
  ((firstAt AssetUpdate.timestamp us t).map AssetUpdate.totalStaked).getD 0

/-- What the index grows by from one time to the next. -/
def growthBetween (DISTRIBUTION_END : Nat) (us : List AssetUpdate) (t t' : Nat) : Nat :=
  if totalAt us t' = 0 then 0
  else emissionAt us t * (min t' DISTRIBUTION_END - min t DISTRIBUTION_END) * precisionUnit / totalAt us t'

/-- The index after the updates `us`. -/
def closedForm (DISTRIBUTION_END : Nat) (us : List AssetUpdate) : Nat :=
  sumBetween (growthBetween DISTRIBUTION_END us) (times AssetUpdate.timestamp us)

/-- The time of the last update. -/
def lastTime (us : List AssetUpdate) : Nat := (us.getLast?.map AssetUpdate.timestamp).getD 0

/-- The emission in force after all updates. -/
def lastEmission (us : List AssetUpdate) : Nat := (us.filterMap AssetUpdate.emissionPerSecond).getLast?.getD 0

section

variable {E t t' : Nat} {us : List AssetUpdate} {u : AssetUpdate}

theorem growthBetween_eq :
    growthBetween E us t t' = indexGrowth E t' (emissionAt us t) t (totalAt us t') := by
  unfold growthBetween indexGrowth
  split
  · next h => rw [h, Nat.div_zero]
  · rfl

theorem growthBetween_self : growthBetween E us t t = 0 := by
  rw [growthBetween_eq, indexGrowth_stopped (.inr (.inr (.inl rfl)))]

theorem lastEmission_concat : lastEmission (us ++ [u]) = u.emissionPerSecond.getD (lastEmission us) := by
  unfold lastEmission
  rw [List.filterMap_append]
  cases h : u.emissionPerSecond <;> simp [h]

theorem lastTime_concat : lastTime (us ++ [u]) = u.timestamp := by simp [lastTime]

theorem le_lastTime {v : AssetUpdate} (hsorted : us.Pairwise fun u u' => u.timestamp ≤ u'.timestamp) (hv : v ∈ us) :
    v.timestamp ≤ lastTime us := by
  cases us using List.reverseRecOn with
  | nil => cases hv
  | append_singleton us u =>
    rw [lastTime_concat]
    rcases List.mem_append.1 hv with hv | hv
    · exact (List.pairwise_append.1 hsorted).2.2 v hv u (by simp)
    · rw [List.mem_singleton.1 hv]

/-- An update adds what the index grows by since the one before it. -/
theorem closedForm_concat (hsorted : (us ++ [u]).Pairwise fun u u' => u.timestamp ≤ u'.timestamp) :
    closedForm E (us ++ [u]) =
      closedForm E us + indexGrowth E u.timestamp (lastEmission us) (lastTime us) u.totalStaked := by
  cases us using List.reverseRecOn with
  | nil =>
    have hstopped : indexGrowth E u.timestamp (lastEmission []) (lastTime []) u.totalStaked = 0 :=
      indexGrowth_stopped (.inl rfl)
    rw [hstopped]
    rfl
  | append_singleton us u' =>
    obtain ⟨hbefore, -, hlast⟩ := List.pairwise_append.1 hsorted
    have hle : ∀ v ∈ us ++ [u'], v.timestamp ≤ u.timestamp := fun v hv => hlast v hv u (by simp)
    rw [closedForm, Timeline.sumBetween_times_concat (f := growthBetween E (us ++ [u'])) hsorted
      (fun a b hb hab => ?_) growthBetween_self]
    · -- the last summand
      congr 1
      rw [growthBetween_eq, lastTime_concat]
      by_cases htime : u'.timestamp = u.timestamp
      · rw [htime, indexGrowth_stopped (.inr (.inr (.inl rfl))), indexGrowth_stopped (.inr (.inr (.inl rfl)))]
      · have hlt : u'.timestamp < u.timestamp := lt_of_le_of_ne (hle u' (by simp)) htime
        have hemission : emissionAt (us ++ [u'] ++ [u]) u'.timestamp = lastEmission (us ++ [u']) := by
          rw [emissionAt, Timeline.upTo_concat hlt,
            Timeline.upTo_eq_self fun v hv => (le_lastTime hbefore hv).trans_eq lastTime_concat]
          rfl
        have htotal : totalAt (us ++ [u'] ++ [u]) u.timestamp = u.totalStaked := by
          rw [totalAt, Timeline.firstAt_new fun h => htime (Timeline.eq_of_mem_times hsorted h)]
          rfl
        rw [hemission, htotal]
    · -- the others are as they were
      obtain ⟨v, hv, rfl⟩ := Timeline.mem_times.1 hb
      rw [growthBetween, growthBetween, emissionAt, Timeline.upTo_concat (hab.trans_le (hle v hv)), totalAt,
        Timeline.firstAt_concat hb]
      rfl

/-- Several updates at one time add what the first of them does, under the
emission in force before: an emission does not act on the time before it. -/
theorem closedForm_append {vs : List AssetUpdate}
    (hsorted : (us ++ vs).Pairwise fun u u' => u.timestamp ≤ u'.timestamp) (hvs : ∀ v ∈ vs, v.timestamp = t) :
    closedForm E (us ++ vs) = closedForm E us +
      (vs.head?.map fun v => indexGrowth E t (lastEmission us) (lastTime us) v.totalStaked).getD 0 := by
  induction vs using List.reverseRecOn with
  | nil => rw [List.append_nil]; rfl
  | append_singleton vs v ih =>
    rw [← List.append_assoc] at hsorted ⊢
    have hv : v.timestamp = t := hvs v (by simp)
    rw [closedForm_concat hsorted, ih (List.pairwise_append.1 hsorted).1 fun v' hv' => hvs v' (by simp [hv']), hv]
    cases vs using List.reverseRecOn with
    | nil => simp
    | append_singleton vs v' =>
      have hv' : v'.timestamp = t := hvs v' (by simp)
      rw [← List.append_assoc, lastTime_concat, hv', indexGrowth_stopped (.inr (.inr (.inl rfl))), Nat.add_zero]
      simp

end

/-! ## What every update keeps -/

/-- The record of an asset after the updates `us`. -/
structure Indexed (E : Nat) (us : List AssetUpdate) (a : AssetData) : Prop where
  sorted : us.Pairwise fun u u' => u.timestamp ≤ u'.timestamp
  last : a.lastUpdateTimestamp = lastTime us
  emission : a.emissionPerSecond = lastEmission us
  emission_lt : a.emissionPerSecond < 2 ^ 128
  index : a.index = closedForm E us
  users : ∀ user, a.users user ≤ a.index
  bound : a.index ≤ 2 ^ 128 * min a.lastUpdateTimestamp E * precisionUnit

section

variable {E T i : Nat} {us : List AssetUpdate} {u : AssetUpdate} {a : AssetData} {asset : Address}

theorem Indexed.unset (E : Nat) : Indexed E [] (UpdateCall.unset asset) :=
  { sorted := .nil, last := rfl, emission := rfl, emission_lt := Nat.two_pow_pos 128, index := rfl
    users := fun _ => le_refl _, bound := Nat.zero_le _ }

/-- Brought forward to any time, with any total, the index stays within what
the greatest emission makes of the time. -/
theorem Indexed.broughtForward (h : Indexed E us a) (hT : a.lastUpdateTimestamp ≤ T) (total : Nat) :
    a.index + indexGrowth E T a.emissionPerSecond a.lastUpdateTimestamp total ≤ 2 ^ 128 * min T E * precisionUnit := by
  have hgrowth : indexGrowth E T a.emissionPerSecond a.lastUpdateTimestamp total ≤
      2 ^ 128 * (min T E - min a.lastUpdateTimestamp E) * precisionUnit :=
    (Nat.div_le_self ..).trans (Nat.mul_le_mul_right _ (Nat.mul_le_mul_right _ h.emission_lt.le))
  calc a.index + indexGrowth E T a.emissionPerSecond a.lastUpdateTimestamp total
      ≤ 2 ^ 128 * min a.lastUpdateTimestamp E * precisionUnit +
          2 ^ 128 * (min T E - min a.lastUpdateTimestamp E) * precisionUnit := Nat.add_le_add h.bound hgrowth
    _ = 2 ^ 128 * min T E * precisionUnit := by
        rw [← Nat.add_mul, ← Nat.mul_add]
        congr 2
        omega

/-- What a time of 64 bits makes of an emission of 128 fits a word. -/
theorem emitted_lt (ht : T < 2 ^ 64) : 2 ^ 128 * T * precisionUnit < 2 ^ 256 := by
  calc 2 ^ 128 * T * precisionUnit ≤ 2 ^ 128 * 2 ^ 64 * precisionUnit :=
        Nat.mul_le_mul_right _ (Nat.mul_le_mul_left _ ht.le)
    _ < 2 ^ 256 := by decide

/-- The arithmetic of an update does not overflow, whatever total it is
passed, nor does its subtraction of times underflow. -/
theorem Indexed.getAssetIndex (h : Indexed E us a) (hT : a.lastUpdateTimestamp ≤ T) (ht : T < 2 ^ 64) (total : Nat) :
    DistributionManager.getAssetIndex E T a.index a.emissionPerSecond a.lastUpdateTimestamp total =
        .ok (a.index + indexGrowth E T a.emissionPerSecond a.lastUpdateTimestamp total) ∧
      a.index + indexGrowth E T a.emissionPerSecond a.lastUpdateTimestamp total < 2 ^ 256 := by
  have hfits := (h.broughtForward hT total).trans_lt (emitted_lt (show min T E < 2 ^ 64 by omega))
  refine ⟨getAssetIndex_of hT (fun _ => ?_) hfits, hfits⟩
  refine lt_of_le_of_lt ?_ (emitted_lt (show min T E - min a.lastUpdateTimestamp E < 2 ^ 64 by omega))
  exact Nat.mul_le_mul_right _ (Nat.mul_le_mul_right _ h.emission_lt.le)

/-- An update that may set the emission. -/
theorem Indexed.update (h : Indexed E us a) (hT : a.lastUpdateTimestamp ≤ u.timestamp)
    (hemission : u.emissionPerSecond.getD a.emissionPerSecond < 2 ^ 128)
    (hi : DistributionManager.getAssetIndex E u.timestamp a.index a.emissionPerSecond a.lastUpdateTimestamp
      u.totalStaked = .ok i) :
    Indexed E (us ++ [u])
      { a.settled u.timestamp i with emissionPerSecond := u.emissionPerSecond.getD a.emissionPerSecond } := by
  obtain rfl := getAssetIndex_ok hi
  have hsorted : (us ++ [u]).Pairwise fun u u' => u.timestamp ≤ u'.timestamp := by
    refine List.pairwise_append.2 ⟨h.sorted, List.pairwise_singleton .., fun v hv v' hv' => ?_⟩
    rw [List.mem_singleton.1 hv']
    exact (le_lastTime h.sorted hv).trans (h.last.symm.trans_le hT)
  refine { sorted := hsorted, last := lastTime_concat.symm, emission := ?_, emission_lt := hemission, index := ?_
           users := fun user => (h.users user).trans (Nat.le_add_right ..), bound := h.broughtForward hT u.totalStaked }
  · rw [lastEmission_concat, ← h.emission]
  · rw [closedForm_concat hsorted, ← h.index, ← h.emission, ← h.last]
    rfl

/-- A user is set to the index. -/
theorem Indexed.setUser (h : Indexed E us a) (user : Address) : Indexed E us (a.setUser user a.index) := by
  refine { h with users := fun v => ?_ }
  show Function.update a.users user a.index v ≤ a.index
  by_cases hv : v = user
  · rw [hv, Function.update_self]
  · rw [Function.update_of_ne hv]
    exact h.users v

end

/-! ## Calls -/

/-- The records of all assets, after the updates each of them had up to
`now`. -/
structure Histories (E now : Nat) (us : Address → List AssetUpdate) (assets : Address → AssetData) : Prop where
  indexed : ∀ asset, Indexed E (us asset) (assets asset)
  last : ∀ asset, (assets asset).lastUpdateTimestamp ≤ now

section

variable {E T T' total staked r : Nat} {us : Address → List AssetUpdate} {assets assets' : Address → AssetData}
  {user asset manager : Address} {x : UpdateCall}

theorem Histories.mono (h : Histories E T us assets) (hle : T ≤ T') : Histories E T' us assets :=
  ⟨h.indexed, fun asset => (h.last asset).trans hle⟩

/-- One asset has one more update. -/
theorem Histories.replace {u : AssetUpdate} {a : AssetData} (h : Histories E T us assets)
    (ha : Indexed E (us asset ++ [u]) a) (hlast : a.lastUpdateTimestamp ≤ T) :
    Histories E T (fun b => us b ++ if asset = b then [u] else []) (Function.update assets asset a) := by
  refine ⟨fun b => ?_, fun b => ?_⟩
  all_goals by_cases hb : b = asset
  · subst hb; rw [Function.update_self, if_pos rfl]; exact ha
  · rw [Function.update_of_ne hb, if_neg (Ne.symm hb), List.append_nil]; exact h.indexed b
  · subst hb; rw [Function.update_self]; exact hlast
  · rw [Function.update_of_ne hb]; exact h.last b

theorem lt_of_word (ht : T < 2 ^ 64) : T < 2 ^ 128 := ht.trans (by decide)

/-- An entry of a configuration always goes through. -/
theorem Histories.configureAsset (h : Histories E T us assets) (ht : T < 2 ^ 64) (input : AssetConfigInput) :
    ∃ assets', DistributionManager.configureAsset E T assets input = .ok assets' ∧
      Histories E T (fun b => us b ++ if input.underlyingAsset = b then
        [⟨T, input.totalStaked, some input.emissionPerSecond⟩] else []) assets' := by
  have hi := ((h.indexed input.underlyingAsset).getAssetIndex (h.last _) ht input.totalStaked).1
  refine ⟨_, (configureAsset_ok_iff (lt_of_word ht)).2 ⟨_, hi, rfl⟩, ?_⟩
  exact h.replace ((h.indexed _).update (u := ⟨T, input.totalStaked, some input.emissionPerSecond⟩) (h.last _)
    input.emission_lt hi) (le_refl _)

/-- A configuration always goes through. -/
theorem Histories.configureAssets (h : Histories E T us assets) (ht : T < 2 ^ 64) (sender : Address)
    (inputs : List AssetConfigInput) :
    ∃ assets', inputs.foldlM (DistributionManager.configureAsset E T) assets = .ok assets' ∧
      Histories E T (fun b => us b ++ (UpdateCall.configureAssets sender T inputs).updates b) assets' := by
  induction inputs generalizing us assets with
  | nil => exact ⟨assets, rfl, by simpa [UpdateCall.updates] using h⟩
  | cons input inputs ih =>
    obtain ⟨assets₁, hs, h₁⟩ := h.configureAsset ht input
    obtain ⟨assets', hl, h'⟩ := ih h₁
    refine ⟨assets', ?_, ?_⟩
    · rw [List.foldlM_cons, hs]
      exact hl
    · simpa only [UpdateCall.updates_cons, ← List.append_assoc] using h'

theorem Histories.settle (h : Histories E T us assets) (ht : T < 2 ^ 64)
    (hx : updateUserAssetInternal E T user asset staked total assets = .ok (r, assets')) :
    Histories E T (fun b => us b ++ if asset = b then [⟨T, total, none⟩] else []) assets' := by
  obtain ⟨i, hi, -, rfl⟩ := (updateUserAssetInternal_ok_iff (lt_of_word ht)).1 hx
  have hupdate := (h.indexed asset).update (u := ⟨T, total, none⟩) (h.last asset) (h.indexed asset).emission_lt hi
  exact h.replace (hupdate.setUser user) (le_refl _)

/-- A settlement goes through where what the user earned fits a word. -/
theorem Histories.settle_ok_iff (h : Histories E T us assets) (ht : T < 2 ^ 64) :
    (∃ assets', UpdateCall.exec manager E (.updateUserAsset T user asset staked total) assets = .ok assets') ↔
      staked * ((assets asset).index + indexGrowth E T (assets asset).emissionPerSecond
        (assets asset).lastUpdateTimestamp total - (assets asset).users user) < 2 ^ 256 := by
  have hi := ((h.indexed asset).getAssetIndex (h.last asset) ht total).1
  have hle := ((h.indexed asset).users user).trans (Nat.le_add_right _ (indexGrowth E T (assets asset).emissionPerSecond
    (assets asset).lastUpdateTimestamp total))
  simp only [UpdateCall.exec, bind_ok_iff, pure_ok_iff, Prod.exists, updateUserAssetInternal_ok_iff (lt_of_word ht)]
  constructor
  · rintro ⟨_, r, _, ⟨i, hi', hr, -⟩, -⟩
    obtain rfl := Except.ok.inj (hi'.symm.trans hi)
    exact ((accrued_ok_iff hle).1 hr).1
  · intro hfits
    exact ⟨_, _, _, ⟨_, hi, (accrued_ok_iff hle).2 ⟨hfits, rfl⟩, rfl⟩, rfl⟩

/-- Every successful call adds the updates it makes. -/
theorem Histories.exec (h : Histories E x.timestamp us assets) (ht : x.timestamp < 2 ^ 64)
    (hx : x.exec manager E assets = .ok assets') :
    Histories E x.timestamp (fun b => us b ++ x.updates b) assets' := by
  cases x with
  | configureAssets sender T inputs =>
    obtain ⟨-, hfold⟩ := configureAssets_ok_iff.1 hx
    obtain ⟨assets₁, hfold₁, h₁⟩ := h.configureAssets ht sender inputs
    obtain rfl := Except.ok.inj (hfold₁.symm.trans hfold)
    exact h₁
  | updateUserAsset T user asset staked total =>
    simp only [UpdateCall.exec, bind_ok_iff, pure_ok_iff, Prod.exists] at hx
    obtain ⟨r, _, hx, rfl⟩ := hx
    exact h.settle ht hx

end

/-! ## Runs -/

section

variable {E now : Nat} {l : List UpdateCall}

/-- After a run the record of every asset is that of its history. -/
theorem Histories.run (manager : Address) (htimes : l.Pairwise fun x y => x.timestamp ≤ y.timestamp)
    (hl : ∀ x ∈ l, x.timestamp < 2 ^ 64) (hnow : ∀ x ∈ l, x.timestamp ≤ now) :
    Histories E now (fun asset => UpdateCall.history manager E asset l) (UpdateCall.run manager E l) := by
  refine Runs.run_history (UpdateCall.exec manager E)
    (I := fun p assets => ∀ now, (∀ x ∈ p, x.timestamp ≤ now) →
      Histories E now (fun asset => UpdateCall.history manager E asset p) assets)
    (fun now _ => ⟨fun _ => .unset E, fun _ => Nat.zero_le now⟩)
    (fun p x assets' hp hI hs _ now hnow => ?_) (fun p x e hp hI hs _ now hnow => ?_) now hnow
  · have hbefore : ∀ y ∈ p, y.timestamp ≤ x.timestamp := fun y hy =>
      (List.pairwise_append.1 (htimes.sublist hp.sublist)).2.2 y hy x (by simp)
    have h' := (hI x.timestamp hbefore).exec (hl x (hp.subset (by simp))) hs
    have hhistory : (fun asset => UpdateCall.history manager E asset (p ++ [x])) =
        fun asset => UpdateCall.history manager E asset p ++ x.updates asset :=
      funext fun asset => Runs.record_concat_ok hs
    rw [hhistory]
    exact h'.mono (hnow x (by simp))
  · have hhistory : (fun asset => UpdateCall.history manager E asset (p ++ [x])) =
        fun asset => UpdateCall.history manager E asset p := funext fun asset => Runs.record_concat_error hs
    rw [hhistory]
    exact hI now fun y hy => hnow y (by simp [hy])

end

/-- **The reward index has a closed form, and its arithmetic is safe.** After
any calls of `configureAssets` and settlements, at timestamps of 64 bits that
do not go back: the index of every asset is the sum, over the times `t` of
its updates each followed by `t'`, of the emission in force since `t` times
the time between them up to the end of the distribution, in parts of
`10 ^ 18`, divided by the total passed at `t'` and rounded down, or 0 when
that is 0; and no user's index is above it. The next call adds to it what the
emission in force before makes of the time since the last update, and nothing
where the asset is not updated. At any later time, with any total, the index
is computed without an overflow or an underflow and is no less than any
user's, so that a configuration always goes through, and a settlement unless
the user's balance times what the index grew since overflows. -/
theorem index_closed_form (manager : Address) (E : Nat) {l : List UpdateCall}
    (htimes : l.Pairwise fun x y => x.timestamp ≤ y.timestamp) (hl : ∀ x ∈ l, x.timestamp < 2 ^ 64) :
    let assets := UpdateCall.run manager E l
    (∀ asset,
      let us := UpdateCall.history manager E asset l
      (times AssetUpdate.timestamp us).Pairwise (· < ·) ∧
      (assets asset).index = sumBetween (fun t t' => if totalAt us t' = 0 then 0
        else emissionAt us t * (min t' E - min t E) * precisionUnit / totalAt us t') (times AssetUpdate.timestamp us) ∧
      ∀ user, (assets asset).users user ≤ (assets asset).index) ∧
    (∀ (x : UpdateCall) assets', (∀ y ∈ l, y.timestamp ≤ x.timestamp) → x.timestamp < 2 ^ 64 →
      x.exec manager E assets = .ok assets' → ∀ asset,
        (assets asset).index ≤ (assets' asset).index ∧
        (x.updates asset = [] → (assets' asset).index = (assets asset).index) ∧
        (assets' asset).index = (assets asset).index + ((x.updates asset).head?.map fun u =>
          indexGrowth E x.timestamp (assets asset).emissionPerSecond (assets asset).lastUpdateTimestamp
            u.totalStaked).getD 0) ∧
    ∀ T, (∀ y ∈ l, y.timestamp ≤ T) → T < 2 ^ 64 →
      let indexAt := fun asset total => (assets asset).index + indexGrowth E T (assets asset).emissionPerSecond
        (assets asset).lastUpdateTimestamp total
      (∀ asset total, (assets asset).lastUpdateTimestamp ≤ T ∧
        getAssetIndex E T (assets asset).index (assets asset).emissionPerSecond (assets asset).lastUpdateTimestamp
          total = .ok (indexAt asset total) ∧
        indexAt asset total < 2 ^ 256 ∧ ∀ user, (assets asset).users user ≤ indexAt asset total) ∧
      (∀ inputs, ∃ assets', UpdateCall.exec manager E (.configureAssets manager T inputs) assets = .ok assets') ∧
      ∀ user asset staked total,
        (∃ assets', UpdateCall.exec manager E (.updateUserAsset T user asset staked total) assets = .ok assets') ↔
          staked * (indexAt asset total - (assets asset).users user) < 2 ^ 256 := by
  intro assets
  refine ⟨fun asset => ?_, fun x assets' hx ht hs asset => ?_, fun T hT ht => ?_⟩
  · obtain ⟨now, hnow⟩ : ∃ now, ∀ x ∈ l, x.timestamp ≤ now := ⟨2 ^ 64, fun x hx => (hl x hx).le⟩
    have h := (Histories.run (E := E) manager htimes hl hnow).indexed asset
    exact ⟨Timeline.times_increasing h.sorted, h.index, h.users⟩
  · have hrun := Histories.run (E := E) manager htimes hl hx
    have h := hrun.indexed asset
    have h' := (hrun.exec ht hs).indexed asset
    have hindex := h'.index
    rw [closedForm_append h'.sorted fun u hu => UpdateCall.timestamp_of_mem hu, ← h.index, ← h.emission,
      ← h.last] at hindex
    exact ⟨hindex.symm ▸ Nat.le_add_right .., fun hnone => by rw [hindex, hnone]; rfl, hindex⟩
  · have h := Histories.run (E := E) manager htimes hl hT
    intro indexAt
    refine ⟨fun asset total => ?_, fun inputs => ?_, fun user asset staked total => h.settle_ok_iff ht⟩
    · obtain ⟨hindex, hfits⟩ := (h.indexed asset).getAssetIndex (h.last asset) ht total
      exact ⟨h.last asset, hindex, hfits, fun user => ((h.indexed asset).users user).trans (Nat.le_add_right ..)⟩
    · obtain ⟨assets', hfold, -⟩ := h.configureAssets ht manager inputs
      exact ⟨assets', configureAssets_ok_iff.2 ⟨rfl, hfold⟩⟩

/-- An asset configured, settled, configured twice by one call and settled
after the end, and another asset in between. -/
theorem index_closed_form_reconfigured :
    let l : List UpdateCall := [.configureAssets (.ofNat 5) 100 [⟨3, 10, .ofNat 7, by decide⟩],
      .updateUserAsset 150 (.ofNat 10) (.ofNat 7) 10 10, .configureAssets (.ofNat 5) 170 [⟨1, 10, .ofNat 8, by decide⟩],
      .configureAssets (.ofNat 5) 200 [⟨1, 20, .ofNat 7, by decide⟩, ⟨2, 30, .ofNat 7, by decide⟩],
      .updateUserAsset 1100 (.ofNat 10) (.ofNat 7) 10 0, .updateUserAsset 1200 (.ofNat 11) (.ofNat 7) 10 40]
    let assets := UpdateCall.run (.ofNat 5) 1000 l
    let us := UpdateCall.history (.ofNat 5) 1000 (.ofNat 7) l
    times AssetUpdate.timestamp us = [100, 150, 200, 1100, 1200] ∧
      (assets (.ofNat 7)).index = sumBetween (fun t t' => if totalAt us t' = 0 then 0
        else emissionAt us t * (min t' 1000 - min t 1000) * precisionUnit / totalAt us t') [100, 150, 200, 1100, 1200] ∧
      ∃ assets', UpdateCall.exec (.ofNat 5) 1000 (.configureAssets (.ofNat 5) 1300 [⟨4, 10, .ofNat 7, by decide⟩])
        assets = .ok assets' := by
  intro l assets us
  have h := index_closed_form (.ofNat 5) 1000 (l := l) (by simp [l, UpdateCall.timestamp])
    (by simp [l, UpdateCall.timestamp])
  have htimes : times AssetUpdate.timestamp us = [100, 150, 200, 1100, 1200] := by decide +kernel
  refine ⟨htimes, htimes ▸ (h.1 (.ofNat 7)).2.1, (h.2.2 1300 (by simp [l, UpdateCall.timestamp]) (by decide)).2.1 _⟩

end StarlayStake
