/-
The rewards view: what `getTotalRewardsBalance` answers, and that no call
changes the answer at the moment it runs but by what it pays
(`rewards_neutral`).

The view brings the index of the asset forward to the time it is asked at,
without storing it. A call that settles stores the same index at the same
time: whoever it settles has the rewards the view had computed, and the
others are computed from the index stored, which does not grow again in the
same block. It takes two invariants (`RewardInv`): no update lies in the
future, and no account's index is ahead of the asset's.
-/
import StarlayStake.RewardSteps

namespace StarlayStake

open Outcome (bind_ok_iff)
open StakedToken
open DistributionManager (getRewards getRewards_ok_iff accrued accrued_ok_iff precisionUnit indexGrowth)

variable {W : Type} {D : Deployment W}

/-! ## The view -/

section

variable {s s' : State W} {u : Address} {T i n r : Nat}

/-- The view adds what the index brought forward accrues to what is stored. -/
theorem getTotalRewardsBalance_eq :
    getTotalRewardsBalance D T u s = (do
      let i ← assetIndex D T (s.assets D.self) s.totalSupply
      let r ← getRewards (s.balances u) i ((s.assets D.self).users u)
      SafeMath.add (s.stakerRewardsToClaim u) r) := by
  have hfits : ∀ i r, getRewards (s.balances u) i ((s.assets D.self).users u) = .ok r → SafeMath.add 0 r = .ok r := by
    intro i r hr
    obtain ⟨-, hlt, rfl⟩ := getRewards_ok_iff.1 hr
    have := Nat.div_le_self (s.balances u * (i - (s.assets D.self).users u)) precisionUnit
    rw [SafeMath.add_of (by omega), Nat.zero_add]
  simp only [getTotalRewardsBalance, DistributionManager.getUnclaimedRewards, List.foldlM_cons, List.foldlM_nil,
    bind_assoc, pure_bind]
  show (do let i ← assetIndex D T (s.assets D.self) s.totalSupply; _) = _
  cases assetIndex D T (s.assets D.self) s.totalSupply with
  | error e => rfl
  | ok i =>
    simp only [Outcome.ok_bind]
    cases hr : getRewards (s.balances u) i ((s.assets D.self).users u) with
    | error e => rfl
    | ok r => simp only [Outcome.ok_bind, hfits i r hr]

theorem getTotalRewardsBalance_ok_iff :
    getTotalRewardsBalance D T u s = .ok n ↔
      ∃ i, assetIndex D T (s.assets D.self) s.totalSupply = .ok i ∧ (s.assets D.self).users u ≤ i ∧
        s.balances u * (i - (s.assets D.self).users u) < 2 ^ 256 ∧
        s.stakerRewardsToClaim u + s.balances u * (i - (s.assets D.self).users u) / precisionUnit < 2 ^ 256 ∧
        n = s.stakerRewardsToClaim u + s.balances u * (i - (s.assets D.self).users u) / precisionUnit := by
  simp only [getTotalRewardsBalance_eq, bind_ok_iff, getRewards_ok_iff, SafeMath.add_ok_iff]
  constructor
  · rintro ⟨i, hi, r, ⟨hle, hlt, rfl⟩, hfits, rfl⟩; exact ⟨i, hi, hle, hlt, hfits, rfl⟩
  · rintro ⟨i, hi, hle, hlt, hfits, rfl⟩; exact ⟨i, hi, _, ⟨hle, hlt, rfl⟩, hfits, rfl⟩

/-- Two storages with the same index ahead of an account, and the same of
the account, answer the same. -/
theorem getTotalRewardsBalance_congr
    (hindex : assetIndex D T (s'.assets D.self) s'.totalSupply = assetIndex D T (s.assets D.self) s.totalSupply)
    (huser : (s'.assets D.self).users u = (s.assets D.self).users u) (hbalance : s'.balances u = s.balances u)
    (hrewards : s'.stakerRewardsToClaim u = s.stakerRewardsToClaim u) :
    getTotalRewardsBalance D T u s' = getTotalRewardsBalance D T u s := by
  simp only [getTotalRewardsBalance_eq, hindex, huser, hbalance, hrewards]

/-- An account just settled has what is stored. -/
theorem getTotalRewardsBalance_settled (hindex : assetIndex D T (s.assets D.self) s.totalSupply = .ok i)
    (huser : (s.assets D.self).users u = i) :
    getTotalRewardsBalance D T u s = SafeMath.add (s.stakerRewardsToClaim u) 0 := by
  have : getRewards (s.balances u) i i = .ok 0 := getRewards_ok_iff.2 (by simp)
  rw [getTotalRewardsBalance_eq, hindex, huser, Outcome.ok_bind, this, Outcome.ok_bind]

end

/-! ## Indexes -/

/-- No update of the staked token's asset lies in the future, and no
account's index is ahead of the asset's. -/
structure RewardInv (D : Deployment W) (now : Nat) (s : State W) : Prop where
  last : (s.assets D.self).lastUpdateTimestamp ≤ now
  users : ∀ u, (s.assets D.self).users u ≤ (s.assets D.self).index

section

variable {x : Tx} {s s' : State W} {now T i total : Nat}

theorem RewardInv.index_le (h : RewardInv D now s) (hi : assetIndex D T (s.assets D.self) total = .ok i)
    (u : Address) : (s.assets D.self).users u ≤ i :=
  (h.users u).trans (assetIndex_ok hi ▸ Nat.le_add_right _ _)

theorem RewardInv.step (hT : x.msg.timestamp < 2 ^ 128) (h : RewardInv D x.msg.timestamp s)
    (hx : exec D x s = .ok s') : RewardInv D x.msg.timestamp s' := by
  cases rewardStep_of_exec hT hx with
  | keep hasset => exact ⟨hasset ▸ h.last, hasset ▸ h.users⟩
  | settle users i r hindex haccrued hasset hrewards hbalances =>
    refine ⟨hasset ▸ le_refl _, fun u => ?_⟩
    rw [hasset]
    show (if u ∈ users then i else (s.assets D.self).users u) ≤ i
    split
    · exact le_refl _
    · exact h.index_le hindex u
  | configure i first last _ _ _ hindex hasset =>
    exact ⟨by rw [hasset]; exact le_refl _, fun u => by rw [hasset]; exact h.index_le hindex u⟩

theorem RewardInv.run {g : Address} {w : W} {l : List Tx}
    (htimes : l.Pairwise fun x y => x.msg.timestamp ≤ y.msg.timestamp) (hl : ∀ x ∈ l, x.msg.timestamp ≤ T)
    (hT : T < 2 ^ 128) : RewardInv D T (StakedToken.run D (.fresh g w) l) :=
  Runs.run_invariant_clocked (fun x : Tx => x.msg.timestamp) (RewardInv D) (P := fun _ => True)
    (Q := fun x => x.msg.timestamp < 2 ^ 128)
    (fun _ _ _ hle hi => ⟨hi.last.trans hle, hi.users⟩) (fun _ _ _ hx _ _ hi hs => hi.step hx hs)
    ⟨le_refl _, fun _ => le_refl _⟩ htimes (fun x hx => (hl x hx).trans_lt hT) (fun _ _ => trivial)
    (fun _ _ => Nat.zero_le _) (Nat.zero_le _) hl

end

/-! ## Neutrality -/

section

variable {x : Tx} {s s' : State W} {now T T' i total n : Nat} {u : Address}

/-- A call changes nobody's rewards, as they stand when it runs, but by what
it pays. -/
theorem RewardStep.neutral (h : RewardStep D x s s') (hinv : RewardInv D x.msg.timestamp s)
    (hsupply : x.PassesSupply D s) (hpaid : x.paid D s u = 0) :
    getTotalRewardsBalance D x.msg.timestamp u s' = getTotalRewardsBalance D x.msg.timestamp u s := by
  cases h with
  | keep hasset hrewards hbalances htotal _ =>
    exact getTotalRewardsBalance_congr (by rw [hasset, htotal]) (by rw [hasset]) (by rw [hbalances]) (by rw [hrewards])
  | settle users i r hindex haccrued hasset hrewards hbalances =>
    -- the index is where the view had brought it
    have hindex' : assetIndex D x.msg.timestamp (s'.assets D.self) s'.totalSupply = .ok i := by
      rw [hasset]; exact assetIndex_settled rfl
    have huser : (s'.assets D.self).users u = if u ∈ users then i else (s.assets D.self).users u := by
      rw [hasset]; rfl
    have hrewards := hrewards u
    rw [hpaid, Nat.add_zero] at hrewards
    by_cases hu : u ∈ users
    · rw [if_pos hu] at huser hrewards
      obtain ⟨hlt, hr⟩ := (accrued_ok_iff (hinv.index_le hindex u)).1 (haccrued u hu)
      have hget : getRewards (s.balances u) i ((s.assets D.self).users u) = .ok (r u) :=
        getRewards_ok_iff.2 ⟨hinv.index_le hindex u, hlt, hr⟩
      rw [getTotalRewardsBalance_settled hindex' huser, hrewards, getTotalRewardsBalance_eq, hindex, Outcome.ok_bind,
        hget, Outcome.ok_bind]
      rfl
    · rw [if_neg hu] at huser hrewards
      exact getTotalRewardsBalance_congr (hindex'.trans hindex.symm) huser (hbalances u hu) hrewards
  | configure i first last hfirst _ hself hindex hasset hrewards hbalances =>
    rw [hsupply first hfirst hself.1] at hindex
    have hindex' : assetIndex D x.msg.timestamp (s'.assets D.self) s'.totalSupply = .ok i := by
      rw [hasset]; exact assetIndex_settled rfl
    exact getTotalRewardsBalance_congr (hindex'.trans hindex.symm) (by rw [hasset]; rfl) (by rw [hbalances])
      (by rw [hrewards])

/-- A claim lowers the claimer's rewards by what it pays. -/
theorem claimRewards_lowers {m : Msg} {dst : Address} {amount : Nat} (hT : m.timestamp < 2 ^ 128)
    (hinv : RewardInv D m.timestamp s) (h : claimRewards D m dst amount s = .ok (n, s')) :
    ∃ before, getTotalRewardsBalance D m.timestamp m.sender s = .ok before ∧ n = amountToClaim amount before ∧
      n ≤ before ∧ getTotalRewardsBalance D m.timestamp m.sender s' = .ok (before - n) := by
  obtain ⟨r, assets, w, hu, hfits, rfl, hn, -, hs'⟩ := claimRewards_ok_iff.1 h
  obtain ⟨i, hi, hr, rfl⟩ := (settlement_ok_iff hT).1 hu
  have hasset : s'.assets D.self = (s.assets D.self).settledFor m.timestamp i [m.sender] := by
    rw [hs']; exact Function.update_self ..
  have hrewards : s'.stakerRewardsToClaim m.sender = s.stakerRewardsToClaim m.sender + r -
      amountToClaim amount (s.stakerRewardsToClaim m.sender + r) := by
    rw [hs']; exact Function.update_self ..
  obtain ⟨hlt, rfl⟩ := (accrued_ok_iff (hinv.index_le hi m.sender)).1 hr
  refine ⟨_, getTotalRewardsBalance_ok_iff.2 ⟨i, hi, hinv.index_le hi m.sender, hlt, hfits, rfl⟩, rfl, hn, ?_⟩
  rw [getTotalRewardsBalance_settled (i := i) (by rw [hasset]; exact assetIndex_settled rfl)
    (by rw [hasset]; simp [AssetData.settledFor]), hrewards, SafeMath.add_of (by omega), Nat.add_zero]

end

/-! ## The passing of time -/

section

variable {s : State W} {now T T' n : Nat} {u : Address}

/-- While nothing is called, rewards never decrease. -/
theorem RewardInv.mono (hinv : RewardInv D now s) (hnow : now ≤ T) (hle : T ≤ T')
    (h : getTotalRewardsBalance D T' u s = .ok n) : ∃ n', getTotalRewardsBalance D T u s = .ok n' ∧ n' ≤ n := by
  obtain ⟨i, hi, -, hlt, hfits, rfl⟩ := getTotalRewardsBalance_ok_iff.1 h
  obtain ⟨i', hi', hle'⟩ := DistributionManager.getAssetIndex_mono (hinv.last.trans hnow) hle hi
  have hproduct : s.balances u * (i' - (s.assets D.self).users u) ≤ s.balances u * (i - (s.assets D.self).users u) :=
    Nat.mul_le_mul_left _ (by omega)
  have hrewards := Nat.div_le_div_right (c := precisionUnit) hproduct
  exact ⟨_, getTotalRewardsBalance_ok_iff.2 ⟨i', hi', hinv.index_le hi' u, by omega, by omega, rfl⟩, by omega⟩

/-- Once the distribution has ended, they stay as they are. -/
theorem getTotalRewardsBalance_ended (hD : D.DISTRIBUTION_END ≤ T) (hD' : D.DISTRIBUTION_END ≤ T') :
    getTotalRewardsBalance D T u s = getTotalRewardsBalance D T' u s := by
  have : assetIndex D T (s.assets D.self) s.totalSupply = assetIndex D T' (s.assets D.self) s.totalSupply :=
    DistributionManager.getAssetIndex_clipped (by omega) (by omega)
  rw [getTotalRewardsBalance_eq, getTotalRewardsBalance_eq, this]

end

/-- **Calls are reward-neutral.** In every state reached by `T`, what
`getTotalRewardsBalance` answers at `T` is the same before and after any
successful call at `T` but a claim, if `configureAssets` is passed what is
staked; a claim lowers the claimer's answer by exactly what it pays out of
the vault and leaves everybody else's; and with no call in between the
answer never decreases, and stays once the distribution has ended. -/
theorem rewards_neutral {g : Address} {w : W} {l : List Tx} {T : Nat}
    (htimes : l.Pairwise fun x y => x.msg.timestamp ≤ y.msg.timestamp) (hl : ∀ x ∈ l, x.msg.timestamp ≤ T)
    (hT : T < 2 ^ 128) :
    let s := run D (.fresh g w) l
    (∀ x s', x.msg.timestamp = T → exec D x s = .ok s' → x.PassesSupply D s →
      (∀ dst amount, x.call ≠ .claimRewards dst amount) →
        ∀ u, getTotalRewardsBalance D T u s' = getTotalRewardsBalance D T u s) ∧
    (∀ m dst amount paid s', m.timestamp = T → claimRewards D m dst amount s = .ok (paid, s') →
      (∃ before, getTotalRewardsBalance D T m.sender s = .ok before ∧ paid = amountToClaim amount before ∧
        paid ≤ before ∧ getTotalRewardsBalance D T m.sender s' = .ok (before - paid)) ∧
      SafeERC20.safeTransferFrom D.ext D.REWARD_TOKEN D.self D.REWARDS_VAULT dst paid s.world = .ok s'.world ∧
      ∀ u ≠ m.sender, getTotalRewardsBalance D T u s' = getTotalRewardsBalance D T u s) ∧
    (∀ u T₁ T₂ later, T ≤ T₁ → T₁ ≤ T₂ → getTotalRewardsBalance D T₂ u s = .ok later →
      ∃ earlier, getTotalRewardsBalance D T₁ u s = .ok earlier ∧ earlier ≤ later) ∧
    ∀ u T₁ T₂, D.DISTRIBUTION_END ≤ T₁ → D.DISTRIBUTION_END ≤ T₂ →
      getTotalRewardsBalance D T₁ u s = getTotalRewardsBalance D T₂ u s := by
  intro s
  have hinv : RewardInv D T s := .run htimes hl hT
  refine ⟨fun x s' hx hs hsupply hcall u => ?_, fun m dst amount paid s' hm hs => ?_,
    fun u T₁ T₂ later h₁ h₂ h => hinv.mono h₁ h₂ h, fun u T₁ T₂ hD₁ hD₂ => getTotalRewardsBalance_ended hD₁ hD₂⟩
  · subst hx
    exact (rewardStep_of_exec hT hs).neutral hinv hsupply (Tx.paid_of_ne hcall)
  · subst hm
    have hexec : exec D ⟨.v2, m, .claimRewards dst amount⟩ s = .ok s' := by simp [exec, step, hs]
    refine ⟨claimRewards_lowers hT hinv hs, ?_, fun u hu => ?_⟩
    · obtain ⟨r, assets, w', -, -, -, -, hw, rfl⟩ := claimRewards_ok_iff.1 hs
      exact hw
    · have hstep := rewardStep_of_exec (x := ⟨.v2, m, .claimRewards dst amount⟩) hT hexec
      exact hstep.neutral hinv (fun _ h => by cases h) (by simp [Tx.paid, hs, hu])

/-- The emission of the sample deployment configured, and a stake. -/
def sampleRun : List Tx :=
  [⟨.v2, ⟨.ofNat 5, 1, 100, sampleManager_ne⟩, .configureAssets [⟨10, 0, .ofNat 1, by decide⟩]⟩,
    ⟨.v2, ⟨.ofNat 10, 2, 200, sampleHolder_ne⟩, .stake (.ofNat 10) 7⟩]

/-- A transfer a hundred seconds after a stake. -/
theorem rewards_neutral_transfer :
    let s := run .sample (.fresh 0 ()) sampleRun
    ∃ s', exec .sample ⟨.v2, ⟨.ofNat 10, 3, 300, by decide⟩, .transfer (.ofNat 11) 3⟩ s = .ok s' ∧
      ∀ u, getTotalRewardsBalance .sample 300 u s' = getTotalRewardsBalance .sample 300 u s := by
  intro s
  have hl : sampleRun.Pairwise fun x y => x.msg.timestamp ≤ y.msg.timestamp := by decide
  have hok : (exec .sample ⟨.v2, ⟨.ofNat 10, 3, 300, by decide⟩, .transfer (.ofNat 11) 3⟩ s).isOk = true := by
    decide +kernel
  obtain ⟨s', hs⟩ := Outcome.exists_ok hok
  exact ⟨s', hs, (rewards_neutral (T := 300) hl (by decide) (by decide)).1 _ s' rfl hs (by decide)
    (by intro _ _ h; cases h)⟩

/-- Where a timestamp does not fit its 128 bits calls are not neutral: what
a stake stores lies in the past again, and the seconds since count twice. -/
theorem rewards_counted_twice :
    let s := run .sample (.fresh 0 ()) sampleRun
    let x : Tx := ⟨.v2, ⟨.ofNat 11, 3, 2 ^ 128 + 300, by decide⟩, .stake (.ofNat 11) 7⟩
    ∃ s', exec .sample x s = .ok s' ∧
      getTotalRewardsBalance .sample x.msg.timestamp (.ofNat 10) s' ≠
        getTotalRewardsBalance .sample x.msg.timestamp (.ofNat 10) s := by
  intro s x
  have hok : (exec .sample x s).isOk = true := by decide +kernel
  have hview : getTotalRewardsBalance .sample x.msg.timestamp (.ofNat 10) (Runs.attempt (exec .sample) s x) ≠
      getTotalRewardsBalance .sample x.msg.timestamp (.ofNat 10) s := by decide +kernel
  obtain ⟨s', hs⟩ := Outcome.exists_ok hok
  exact ⟨s', hs, Runs.attempt_ok hs ▸ hview⟩

end StarlayStake
