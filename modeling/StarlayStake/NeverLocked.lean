/-
Stakes are never locked. While the supply, the emissions and the time are
within bounds, the checked arithmetic on the way of a transfer, a redemption
and a claim cannot fail (`never_locked`): the index and the rewards are
bounded by what can be emitted in the time there is (`Magnitudes`), whatever
`configureAssets` is told is staked; a cooldown is stored only beside a
balance (`Cooldown`); and the power of whoever stands for an account is at
least its balance (`Power`).
-/
import StarlayStake.Cooldown
import StarlayStake.Power
import StarlayStake.Rewards

namespace StarlayStake

open Ledger (debit share total)
open StakedToken
open DistributionManager (accrued accrued_ok_iff precisionUnit precisionUnit_pos)

variable {W : Type} {D : Deployment W}

/-! ## Magnitudes -/

/-- With at most `S` staked and emissions of at most `E`, configured in the
last `N` seconds of the distribution, the index is bounded by the time since,
and the rewards of an account by its index. -/
structure Magnitudes (D : Deployment W) (S E N now : Nat) (s : State W) : Prop where
  rewards : RewardInv D now s
  supply : total s.balances = s.totalSupply
  emission : (s.assets D.self).emissionPerSecond ≤ E
  started : (s.assets D.self).emissionPerSecond ≠ 0 →
    D.DISTRIBUTION_END ≤ (s.assets D.self).lastUpdateTimestamp + N
  index : (s.assets D.self).index ≤ E * (min (s.assets D.self).lastUpdateTimestamp D.DISTRIBUTION_END -
    (D.DISTRIBUTION_END - N)) * precisionUnit
  owed : ∀ u, s.stakerRewardsToClaim u * precisionUnit ≤ S * (s.assets D.self).users u

section

variable {x : Tx} {s s' : State W} {u : Address} {S E N now T i r B : Nat}

/-- The index brought forward, whatever is taken to be staked. -/
theorem Magnitudes.broughtForward (h : Magnitudes D S E N now s) (hnow : now ≤ T) :
    (s.assets D.self).index + assetGrowth D T (s.assets D.self) B ≤
      E * (min T D.DISTRIBUTION_END - (D.DISTRIBUTION_END - N)) * precisionUnit := by
  have hlast := h.rewards.last.trans hnow
  by_cases he : (s.assets D.self).emissionPerSecond = 0
  · have hzero : assetGrowth D T (s.assets D.self) B = 0 := DistributionManager.indexGrowth_stopped (by simp [he])
    rw [hzero, Nat.add_zero]
    exact h.index.trans (Nat.mul_le_mul_right _ (Nat.mul_le_mul_left _ (by omega)))
  · have hstarted := h.started he
    have hgrowth : assetGrowth D T (s.assets D.self) B ≤ E * (min T D.DISTRIBUTION_END -
        min (s.assets D.self).lastUpdateTimestamp D.DISTRIBUTION_END) * precisionUnit :=
      (Nat.div_le_self ..).trans (Nat.mul_le_mul_right _ (Nat.mul_le_mul_right _ h.emission))
    calc (s.assets D.self).index + assetGrowth D T (s.assets D.self) B
        ≤ E * (min (s.assets D.self).lastUpdateTimestamp D.DISTRIBUTION_END - (D.DISTRIBUTION_END - N)) *
            precisionUnit + E * (min T D.DISTRIBUTION_END -
              min (s.assets D.self).lastUpdateTimestamp D.DISTRIBUTION_END) * precisionUnit :=
          Nat.add_le_add h.index hgrowth
      _ = E * (min T D.DISTRIBUTION_END - (D.DISTRIBUTION_END - N)) * precisionUnit := by
          rw [← Nat.add_mul, ← Nat.mul_add]
          congr 2
          omega

theorem Magnitudes.balance_le (h : Magnitudes D S E N now s) (hS : s.totalSupply ≤ S) (u : Address) :
    s.balances u ≤ S := (Ledger.le_total s.balances u).trans (h.supply.le.trans hS)

/-- Rewards stay within the index through a settlement. -/
theorem Magnitudes.owed_settled (h : Magnitudes D S E N now s) (hS : s.totalSupply ≤ S)
    (hi : (s.assets D.self).users u ≤ i) :
    (s.stakerRewardsToClaim u + s.balances u * (i - (s.assets D.self).users u) / precisionUnit) * precisionUnit ≤
      S * i := by
  have hearned := Nat.div_mul_le_self (s.balances u * (i - (s.assets D.self).users u)) precisionUnit
  have hbalance := Nat.mul_le_mul_right (i - (s.assets D.self).users u) (h.balance_le hS u)
  calc _ = s.stakerRewardsToClaim u * precisionUnit +
          s.balances u * (i - (s.assets D.self).users u) / precisionUnit * precisionUnit := Nat.add_mul ..
    _ ≤ S * (s.assets D.self).users u + S * (i - (s.assets D.self).users u) :=
        Nat.add_le_add (h.owed u) (hearned.trans hbalance)
    _ = S * i := by rw [← Nat.mul_add, Nat.add_sub_cancel' hi]

theorem Magnitudes.step (hT : x.msg.timestamp < 2 ^ 128) (hS : s.totalSupply ≤ S)
    (hinputs : ∀ input ∈ x.call.assetsConfigInput,
      input.emissionPerSecond ≤ E ∧ D.DISTRIBUTION_END ≤ x.msg.timestamp + N)
    (h : Magnitudes D S E N x.msg.timestamp s) (hx : exec D x s = .ok s') :
    Magnitudes D S E N x.msg.timestamp s' := by
  have hrewards' := h.rewards.step hT hx
  have hsupply' := (powerStep_of_exec hx).total h.supply
  have hlast := h.rewards.last
  cases rewardStep_of_exec hT hx with
  | keep hasset hrewards =>
    refine ⟨hrewards', hsupply', ?_, ?_, ?_, ?_⟩
    · rw [hasset]; exact h.emission
    · rw [hasset]; exact h.started
    · rw [hasset]; exact h.index
    · rw [hasset, hrewards]; exact h.owed
  | settle users i r hindex haccrued hasset hrewards hbalances =>
    have hi := assetIndex_ok hindex
    refine ⟨hrewards', hsupply', ?_, ?_, ?_, fun u => ?_⟩
    · rw [hasset]; exact h.emission
    · rw [hasset]; exact fun he => (h.started he).trans (Nat.add_le_add_right hlast N)
    · rw [hasset]; exact hi ▸ h.broughtForward (le_refl _)
    · have huser : (s'.assets D.self).users u = if u ∈ users then i else (s.assets D.self).users u := by
        rw [hasset]; rfl
      have hcredited := hrewards u
      by_cases hu : u ∈ users
      · have hle := h.rewards.index_le hindex u
        obtain ⟨-, hr⟩ := (accrued_ok_iff hle).1 (haccrued u hu)
        rw [if_pos hu] at huser hcredited
        rw [huser]
        exact (Nat.mul_le_mul_right _ (by omega)).trans (h.owed_settled hS hle)
      · rw [if_neg hu] at huser hcredited
        rw [huser]
        exact (Nat.mul_le_mul_right _ (by omega)).trans (h.owed u)
  | configure i first last hfirst hlast' hself hindex hasset hrewards =>
    have hi := assetIndex_ok hindex
    refine ⟨hrewards', hsupply', ?_, ?_, ?_, ?_⟩
    · rw [hasset]; exact (hinputs last hlast').1
    · rw [hasset]; exact fun _ => (hinputs last hlast').2
    · rw [hasset]; exact hi ▸ h.broughtForward (le_refl _)
    · rw [hasset, hrewards]; exact h.owed

end

/-! ## What succeeds -/

section

variable {m : Msg} {s : State W} {u src dst : Address} {amount S E N : Nat}

theorem Magnitudes.index_le (h : Magnitudes D S E N m.timestamp s) {B i : Nat}
    (hi : assetIndex D m.timestamp (s.assets D.self) B = .ok i) : i ≤ E * N * precisionUnit := by
  rw [assetIndex_ok hi]
  exact (h.broughtForward (le_refl _)).trans (Nat.mul_le_mul_right _ (Nat.mul_le_mul_left _ (by omega)))

/-- The index can be brought forward: where nothing is staked it stays, and
else what can be emitted fits. -/
theorem Magnitudes.exists_index (h : Magnitudes D S E N m.timestamp s) (hS : s.totalSupply ≤ S)
    (hfit : S * E * N * precisionUnit < 2 ^ 256) :
    ∃ i, assetIndex D m.timestamp (s.assets D.self) s.totalSupply = .ok i := by
  by_cases hB : s.totalSupply = 0
  · exact ⟨(s.assets D.self).index, by simp [assetIndex, DistributionManager.getAssetIndex, hB]⟩
  · have hEN : E * N * precisionUnit < 2 ^ 256 := by
      refine lt_of_le_of_lt ?_ hfit
      rw [Nat.mul_assoc S]
      exact Nat.mul_le_mul_right _ (Nat.le_mul_of_pos_left _ (by omega))
    refine ⟨_, DistributionManager.getAssetIndex_of h.rewards.last (fun _ => lt_of_le_of_lt ?_ hEN) ?_⟩
    · refine Nat.mul_le_mul_right _ ?_
      by_cases he : (s.assets D.self).emissionPerSecond = 0
      · rw [he, Nat.zero_mul]; exact Nat.zero_le _
      · have hstarted := h.started he
        exact Nat.mul_le_mul h.emission (by omega)
    · refine lt_of_le_of_lt ((h.broughtForward (le_refl _)).trans ?_) hEN
      exact Nat.mul_le_mul_right _ (Nat.mul_le_mul_left _ (by omega))

/-- Everything a settlement computes fits. -/
theorem Magnitudes.settles (h : Magnitudes D S E N m.timestamp s) (hS : s.totalSupply ≤ S)
    (hfit : S * E * N * precisionUnit < 2 ^ 256) :
    ∃ i, assetIndex D m.timestamp (s.assets D.self) s.totalSupply = .ok i ∧
      ∀ u, accrued (s.balances u) i ((s.assets D.self).users u) =
          .ok (s.balances u * (i - (s.assets D.self).users u) / precisionUnit) ∧
        s.balances u * (i - (s.assets D.self).users u) < 2 ^ 256 ∧
        s.stakerRewardsToClaim u + s.balances u * (i - (s.assets D.self).users u) / precisionUnit < 2 ^ 256 := by
  obtain ⟨i, hi⟩ := h.exists_index hS hfit
  have hle : S * i < 2 ^ 256 := by
    refine lt_of_le_of_lt (Nat.mul_le_mul_left S (h.index_le hi)) ?_
    rwa [← Nat.mul_assoc, ← Nat.mul_assoc]
  refine ⟨i, hi, fun u => ?_⟩
  have huser := h.rewards.index_le hi u
  have hearned : s.balances u * (i - (s.assets D.self).users u) ≤ S * i :=
    Nat.mul_le_mul (h.balance_le hS u) (Nat.sub_le ..)
  have howed := h.owed_settled (u := u) hS huser
  have hunit := Nat.le_mul_of_pos_right (s.stakerRewardsToClaim u +
    s.balances u * (i - (s.assets D.self).users u) / precisionUnit) precisionUnit_pos
  exact ⟨(accrued_ok_iff huser).2 ⟨by omega, rfl⟩, by omega, by omega⟩

/-- The next cooldown timestamp can be computed. -/
theorem getNextCooldownTimestamp_succeeds (dst : Address) {fromCooldown toBalance : Nat} (hT : m.timestamp < 2 ^ 64)
    (hlate : D.COOLDOWN_SECONDS + D.UNSTAKE_WINDOW ≤ m.timestamp) (hamount : amount < 2 ^ 128)
    (hbalance : toBalance < 2 ^ 128) (hfrom : fromCooldown ≤ m.timestamp) (hto : s.stakersCooldowns dst ≤ m.timestamp)
    (hheld : s.stakersCooldowns dst ≠ 0 → toBalance ≠ 0) :
    ∃ c, getNextCooldownTimestamp D m fromCooldown amount dst toBalance s = .ok c := by
  simp only [getNextCooldownTimestamp]
  split
  · exact ⟨0, rfl⟩
  · next hne =>
    rw [SafeMath.sub_of (by omega), Outcome.ok_bind, SafeMath.sub_of (by omega), Outcome.ok_bind]
    split
    · exact ⟨0, rfl⟩
    · have hfrom' : (if m.timestamp - D.COOLDOWN_SECONDS - D.UNSTAKE_WINDOW > fromCooldown then m.timestamp
          else fromCooldown) < 2 ^ 64 := by split <;> omega
      generalize (if m.timestamp - D.COOLDOWN_SECONDS - D.UNSTAKE_WINDOW > fromCooldown then m.timestamp
        else fromCooldown) = f at hfrom' ⊢
      show ∃ c, (if f < s.stakersCooldowns dst then _ else _) = _
      split
      · exact ⟨_, rfl⟩
      · have hreceived : amount * f < 2 ^ 192 := by
          calc amount * f ≤ 2 ^ 128 * f := Nat.mul_le_mul_right _ hamount.le
            _ < 2 ^ 128 * 2 ^ 64 := Nat.mul_lt_mul_of_pos_left hfrom' (by decide)
            _ = 2 ^ 192 := by norm_num
        have hheldProduct : toBalance * s.stakersCooldowns dst < 2 ^ 192 := by
          calc toBalance * s.stakersCooldowns dst ≤ 2 ^ 128 * s.stakersCooldowns dst :=
                Nat.mul_le_mul_right _ hbalance.le
            _ < 2 ^ 128 * 2 ^ 64 := Nat.mul_lt_mul_of_pos_left (by omega) (by decide)
            _ = 2 ^ 192 := by norm_num
        have hpos := hheld hne
        rw [SafeMath.add_of (by omega), Outcome.ok_bind, SafeMath.mul_of (by omega), Outcome.ok_bind,
          SafeMath.mul_of (by omega), Outcome.ok_bind, SafeMath.add_of (by omega), Outcome.ok_bind,
          SafeMath.div_of (by omega)]
        exact ⟨_, rfl⟩

/-- Power can be moved along with tokens that are held. -/
theorem PowerInv.movePower_succeeds (h : PowerInv s) (hsupply : s.totalSupply < 2 ^ 128) (number : Nat) (dst : Address)
    (hsrc : src ≠ 0 → amount ≤ s.balances src) (hamount : amount < 2 ^ 128) (t : DelegationType) :
    ∃ data, movePower .v2 number s.balances src dst amount t (s.power t) = .ok data := by
  show ∃ data, moveDelegates number s.balances ((s.power t).delegatee src) ((s.power t).delegatee dst) amount
    (s.power t) = .ok data
  by_cases heq : (s.power t).delegatee src = (s.power t).delegatee dst
  · exact ⟨_, moveDelegates_ok_iff.2 ((if_pos heq).mpr rfl)⟩
  · refine ⟨_, moveDelegates_ok_iff.2 ((if_neg heq).mpr ⟨fun hne => ?_, fun _ => ?_, rfl⟩)⟩
    · -- who stands for the source has its balance at least
      have hsrc' : src ≠ 0 := fun h0 => hne (((h.power t).delegatee_eq_zero src).2 h0)
      rw [(h.power t).lastPower_eq_share]
      exact (hsrc hsrc').trans (Ledger.le_share _ s.balances src)
    · have hshare := Ledger.share_le_total (s.power t).delegatee s.balances ((s.power t).delegatee dst)
      rw [(h.power t).lastPower_eq_share]
      rw [h.supply] at hshare
      omega

end

/-- What holds of a storage within the bounds, at `now`. -/
structure Sound (D : Deployment W) (S E N now : Nat) (s : State W) : Prop where
  magnitudes : Magnitudes D S E N now s
  power : PowerInv s
  supply : s.totalSupply ≤ S
  past : ∀ u, s.stakersCooldowns u ≤ now
  held : ∀ u, s.stakersCooldowns u ≠ 0 → s.balances u ≠ 0

section

variable {m : Msg} {s : State W} {src dst : Address} {amount S E N : Nat} {w w' : W}
  (h : Sound D S E N m.timestamp s) (hS : S < 2 ^ 128) (hfit : S * E * N * precisionUnit < 2 ^ 256)
include h hS hfit

theorem Sound.transfer (hT : m.timestamp < 2 ^ 64) (hlate : D.COOLDOWN_SECONDS + D.UNSTAKE_WINDOW ≤ m.timestamp)
    (hsrc : src ≠ 0) (hdst : dst ≠ 0) (hamount : amount ≤ s.balances src)
    (hw : notified D .v2 src dst amount s.governance s.world = .ok w) :
    ∃ s', StakedToken.transfer D m .v2 src dst amount s = .ok s' := by
  have hT' : m.timestamp < 2 ^ 128 := by omega
  have hbalance := h.magnitudes.balance_le h.supply
  have hsrcS := hbalance src
  obtain ⟨i, hi, hsettled⟩ := h.magnitudes.settles h.supply hfit
  choose p hp using h.power.movePower_succeeds (h.supply.trans_lt hS) m.number dst (fun _ => hamount)
    (by omega)
  have hsettle : settlement D m src s = .ok _ := (settlement_ok_iff hT').2 ⟨i, hi, (hsettled src).1, rfl⟩
  by_cases heq : src = dst
  · subst heq
    refine ⟨_, transfer_self_ok_iff.2 ⟨hsrc, hamount, ?_, _, _, p, w, hsettle, (hsettled src).2.2, hp, hw, rfl⟩⟩
    rw [Ledger.debit_self]
    omega
  · have hdstS := hbalance dst
    obtain ⟨c, hc⟩ := getNextCooldownTimestamp_succeeds (D := D) dst hT hlate (by omega : amount < 2 ^ 128)
      (by omega : s.balances dst < 2 ^ 128) (h.past src) (h.past dst) (h.held dst)
    have hsettle' : settlement D m dst _ = .ok _ :=
      (settlement_settle_ok_iff hT' (Ne.symm heq) hsettle).2 ⟨i, hi, (hsettled dst).1, rfl⟩
    exact ⟨_, (transfer_ok_iff heq).2 ⟨hsrc, hdst, hamount, by omega, _, _, _, _, c, p, w, hsettle, (hsettled src).2.2,
      hsettle', (hsettled dst).2.2, hc, hp, hw, rfl⟩⟩

theorem Sound.redeem (hT : m.timestamp < 2 ^ 64) (hamount : amount ≠ 0)
    (hafter : s.stakersCooldowns m.sender + D.COOLDOWN_SECONDS < m.timestamp)
    (hwindow : m.timestamp - (s.stakersCooldowns m.sender + D.COOLDOWN_SECONDS) ≤ D.UNSTAKE_WINDOW)
    (hw : notified D .v2 m.sender 0 (min amount (s.balances m.sender)) s.governance s.world = .ok w)
    (hw' : SafeERC20.safeTransfer D.ext D.STAKED_TOKEN D.self dst (min amount (s.balances m.sender)) w = .ok w') :
    ∃ s', StakedToken.redeem D m .v2 dst amount s = .ok s' := by
  have hT' : m.timestamp < 2 ^ 128 := by omega
  have hsender := h.magnitudes.balance_le h.supply m.sender
  have htotal := Ledger.le_total s.balances m.sender
  rw [h.magnitudes.supply] at htotal
  obtain ⟨i, hi, hsettled⟩ := h.magnitudes.settles h.supply hfit
  choose p hp using h.power.movePower_succeeds (h.supply.trans_lt hS) m.number 0
    (fun _ => Nat.min_le_right amount (s.balances m.sender)) (by omega)
  exact ⟨_, redeem_ok_iff.2 ⟨hamount, by omega, hafter, hwindow, by omega, _, _, p, w, w',
    (settlement_ok_iff hT').2 ⟨i, hi, (hsettled m.sender).1, rfl⟩, (hsettled m.sender).2.2, hp, hw, hw', rfl⟩⟩

omit hS in
theorem Sound.claimRewards (hT : m.timestamp < 2 ^ 128) :
    ∃ total, getTotalRewardsBalance D m.timestamp m.sender s = .ok total ∧
      ∀ dst amount w, amountToClaim amount total ≤ total →
        SafeERC20.safeTransferFrom D.ext D.REWARD_TOKEN D.self D.REWARDS_VAULT dst (amountToClaim amount total)
          s.world = .ok w →
        ∃ s', StakedToken.claimRewards D m dst amount s = .ok (amountToClaim amount total, s') := by
  obtain ⟨i, hi, hsettled⟩ := h.magnitudes.settles h.supply hfit
  obtain ⟨haccrued, hearned, hfits⟩ := hsettled m.sender
  refine ⟨_, getTotalRewardsBalance_ok_iff.2
    ⟨i, hi, h.magnitudes.rewards.index_le hi m.sender, hearned, hfits, rfl⟩, fun dst amount w hn hw => ?_⟩
  exact ⟨_, claimRewards_ok_iff.2 ⟨_, _, w, (settlement_ok_iff hT).2 ⟨i, hi, haccrued, rfl⟩, hfits, rfl, hn, hw, rfl⟩⟩

end

/-! ## Runs -/

/-- A run stakes at most `S` at any time, and what it configures emits at
most `E`, in the last `N` seconds of the distribution. -/
structure WithinBounds (D : Deployment W) (S E N : Nat) (s : State W) (l : List Tx) : Prop where
  supply : ∀ p, p <+: l → (run D s p).totalSupply ≤ S
  configured : ∀ p x s', p ++ [x] <+: l → exec D x (run D s p) = .ok s' → ∀ input ∈ x.call.assetsConfigInput,
    input.emissionPerSecond ≤ E ∧ D.DISTRIBUTION_END ≤ x.msg.timestamp + N

section

variable {g : Address} {w : W} {l l₁ l₂ : List Tx} {S E N T : Nat}

/-- Bounds on all calls, whether they succeed or not, to evaluate runs by. -/
theorem WithinBounds.of_calls {s : State W} (hsupply : ∀ p ∈ l.inits, (StakedToken.run D s p).totalSupply ≤ S)
    (hcalls : ∀ x ∈ l, ∀ input ∈ x.call.assetsConfigInput,
      input.emissionPerSecond ≤ E ∧ D.DISTRIBUTION_END ≤ x.msg.timestamp + N) : WithinBounds D S E N s l :=
  ⟨fun p hp => hsupply p ((List.mem_inits ..).2 hp), fun _ x _ hp _ => hcalls x (hp.subset (by simp))⟩

theorem Magnitudes.fresh : Magnitudes D S E N 0 (.fresh g w) :=
  { rewards := ⟨le_refl _, fun _ => le_refl _⟩
    supply := by rw [Ledger.total_def]; exact Finset.sum_const_zero
    emission := Nat.zero_le _
    started := fun h => absurd rfl h
    index := Nat.zero_le _
    owed := fun u => by
      show 0 * precisionUnit ≤ _
      rw [Nat.zero_mul]
      exact Nat.zero_le _ }

theorem Magnitudes.run (htimes : l.Pairwise fun x y => x.msg.timestamp ≤ y.msg.timestamp)
    (hl : ∀ x ∈ l, x.msg.timestamp ≤ T) (hT : T < 2 ^ 128) (hbounds : WithinBounds D S E N (.fresh g w) l) :
    Magnitudes D S E N T (StakedToken.run D (.fresh g w) l) :=
  Runs.run_clocked (exec D) (fun x : Tx => x.msg.timestamp) (Magnitudes D S E N)
    (Q := fun x s _ => x.msg.timestamp < 2 ^ 128 ∧ s.totalSupply ≤ S ∧ ∀ s', exec D x s = .ok s' →
      ∀ input ∈ x.call.assetsConfigInput,
        input.emissionPerSecond ≤ E ∧ D.DISTRIBUTION_END ≤ x.msg.timestamp + N)
    (fun _ _ _ hle h => { h with rewards := ⟨h.rewards.last.trans hle, h.rewards.users⟩ })
    (fun _ _ s' hx h hs => h.step hx.1 hx.2.1 (hx.2.2 s' hs) hs) Magnitudes.fresh htimes
    (fun p x hp => ⟨(hl x (hp.subset (by simp))).trans_lt hT,
      hbounds.supply p ((List.prefix_append p [x]).trans hp), fun s' => hbounds.configured p x s' hp⟩)
    (fun _ _ => Nat.zero_le _) (Nat.zero_le _) hl

/-- Every state reached within the bounds, through an upgrade or not, is sound. -/
theorem Sound.run (h₁ : ∀ x ∈ l₁, x.version = .v1) (h₂ : ∀ x ∈ l₂, x.version = .v2)
    (htimes : (l₁ ++ l₂).Pairwise fun x y => x.msg.timestamp ≤ y.msg.timestamp)
    (hl : ∀ x ∈ l₁ ++ l₂, x.msg.timestamp ≤ T) (hT : T < 2 ^ 128) (hS : S < 2 ^ 128)
    (hbounds : WithinBounds D S E N (.fresh g w) (l₁ ++ l₂)) :
    Sound D S E N T (StakedToken.run D (.fresh g w) (l₁ ++ l₂)) :=
  { magnitudes := .run htimes hl hT hbounds
    power := .upgraded h₁ h₂ fun p hp => (hbounds.supply p hp).trans_lt hS
    supply := hbounds.supply _ (List.prefix_refl _)
    past := stakersCooldowns_le htimes hl
    held := fun u hu => by
      obtain ⟨p, c, q, heq, -, -, -, hheld, -⟩ := cooledDown htimes hu
      rw [heq]
      exact hheld q (List.prefix_refl q) }

end

/-- **Stakes are never locked.** In every state of version 2 reached with at
most `S` staked, emissions of at most `E` and `N` seconds from the first
`configureAssets` to the end of the distribution, `S` below 2^128,
`S * E * N * 10^18` below 2^256, timestamps below 2^64 and past the cooldown
and the window: a transfer of at most the balance between non-zero
addresses succeeds, by the owner or within an allowance; a redemption within
the window succeeds; and the caller's rewards can be told and, up to that
amount, claimed. The hook and the tokens are assumed to do their part. -/
theorem never_locked {g : Address} {w : W} {l₁ l₂ : List Tx} {S E N : Nat} {m : Msg} (h₁ : ∀ x ∈ l₁, x.version = .v1)
    (h₂ : ∀ x ∈ l₂, x.version = .v2) (htimes : (l₁ ++ l₂).Pairwise fun x y => x.msg.timestamp ≤ y.msg.timestamp)
    (hl : ∀ x ∈ l₁ ++ l₂, x.msg.timestamp ≤ m.timestamp) (hT : m.timestamp < 2 ^ 64)
    (hlate : D.COOLDOWN_SECONDS + D.UNSTAKE_WINDOW < m.timestamp) (hS : S < 2 ^ 128)
    (hfit : S * E * N * 10 ^ 18 < 2 ^ 256) (hbounds : WithinBounds D S E N (.fresh g w) (l₁ ++ l₂)) :
    let s := run D (.fresh g w) (l₁ ++ l₂)
    let u := m.sender
    (∀ dst amount w₁, dst ≠ 0 → amount ≤ s.balances u → notified D .v2 u dst amount s.governance s.world = .ok w₁ →
      ∃ s', exec D ⟨.v2, m, .transfer dst amount⟩ s = .ok s') ∧
    (∀ src dst amount w₁, src ≠ 0 → dst ≠ 0 → amount ≤ s.balances src → amount ≤ s.allowances src u →
      notified D .v2 src dst amount s.governance s.world = .ok w₁ →
      ∃ s', exec D ⟨.v2, m, .transferFrom src dst amount⟩ s = .ok s') ∧
    (∀ dst amount w₁ w₂, amount ≠ 0 → s.stakersCooldowns u + D.COOLDOWN_SECONDS < m.timestamp →
      m.timestamp ≤ s.stakersCooldowns u + D.COOLDOWN_SECONDS + D.UNSTAKE_WINDOW →
      notified D .v2 u 0 (min amount (s.balances u)) s.governance s.world = .ok w₁ →
      SafeERC20.safeTransfer D.ext D.STAKED_TOKEN D.self dst (min amount (s.balances u)) w₁ = .ok w₂ →
      ∃ s', exec D ⟨.v2, m, .redeem dst amount⟩ s = .ok s') ∧
    ∃ total, getTotalRewardsBalance D m.timestamp u s = .ok total ∧
      ∀ dst amount w₁, (amount ≤ total ∨ amount = uint256Max) →
        SafeERC20.safeTransferFrom D.ext D.REWARD_TOKEN D.self D.REWARDS_VAULT dst (amountToClaim amount total)
          s.world = .ok w₁ →
        ∃ s', exec D ⟨.v2, m, .claimRewards dst amount⟩ s = .ok s' := by
  intro s u
  have hsound : Sound D S E N m.timestamp s := .run h₁ h₂ htimes hl (by omega) hS hbounds
  refine ⟨fun dst amount w₁ hdst hamount hw => ?_, fun src dst amount w₁ hsrc hdst hamount hallowed hw => ?_,
    fun dst amount w₁ w₂ hamount hafter hwindow hw hw' => ?_, ?_⟩
  · exact hsound.transfer hS hfit hT hlate.le m.sender_ne hdst hamount hw
  · obtain ⟨s₁, hs₁⟩ := hsound.transfer hS hfit hT hlate.le hsrc hdst hamount hw
    exact ⟨_, transferFrom_ok_iff.2 ⟨s₁, hs₁, (transfer_aside hs₁).1.symm ▸ hallowed, hsrc, rfl⟩⟩
  · exact hsound.redeem hS hfit hT hamount hafter (tsub_le_iff_left.2 hwindow) hw hw'
  · obtain ⟨total, htotal, hclaim⟩ := hsound.claimRewards hfit (by omega)
    refine ⟨total, htotal, fun dst amount w₁ hamount hw => ?_⟩
    have hle : amountToClaim amount total ≤ total := by
      unfold amountToClaim
      split <;> omega
    obtain ⟨s', hs'⟩ := hclaim dst amount w₁ hle hw
    exact ⟨s', by simp [exec, step, hs']⟩

/-- The sample run and a cooldown. -/
def coolingRun : List Tx := sampleRun ++ [⟨.v2, ⟨.ofNat 10, 3, 210, sampleHolder_ne⟩, .cooldown⟩]

/-- A holder past the cooldown redeems, as well as they transfer or claim. -/
theorem never_locked_redeemed :
    let s := run .sample (.fresh 0 ()) coolingRun
    let m : Msg := ⟨.ofNat 10, 4, 330, by decide⟩
    (∃ s', exec .sample ⟨.v2, m, .redeem (.ofNat 10) 7⟩ s = .ok s') ∧
      (∃ s', exec .sample ⟨.v2, m, .transfer (.ofNat 11) 3⟩ s = .ok s') ∧
      ∃ s', exec .sample ⟨.v2, m, .claimRewards (.ofNat 10) uint256Max⟩ s = .ok s' := by
  intro s m
  have hbounds : WithinBounds .sample 7 10 900 (.fresh 0 ()) ([] ++ coolingRun) :=
    .of_calls (by decide +kernel) (by decide)
  obtain ⟨htransfer, -, hredeem, total, -, hclaim⟩ := never_locked (D := .sample) (g := 0) (w := ()) (m := m)
    (by simp) (by decide) (by decide) (by decide) (by decide) (by decide) (by decide) (by decide) hbounds
  exact ⟨hredeem (.ofNat 10) 7 () () (by decide) (by decide +kernel) (by decide +kernel) rfl rfl,
    htransfer (.ofNat 11) 3 () (by decide) (by decide +kernel) rfl, hclaim (.ofNat 10) uint256Max () (.inr rfl) rfl⟩

end StarlayStake
