/-
What each entry point of the staking token does, when it does not revert:
one equivalence per function, so that no later proof unfolds one.

`movePower` is the part of `beforeTokenTransfer` that concerns power, and
`notified` the part that concerns the governance hook. `Effect` says of a
successful call which of the functions it was, and what the calls about
allowances, delegation and nonces leave alone.
-/
import StarlayStake.Lib.Ledger
import StarlayStake.StakedToken

namespace StarlayStake

/-- What `beforeTokenTransfer` makes of the power data of one type. -/
def movePower (v : Version) (number : Nat) (balances : Address → Nat) (src dst : Address) (amount : Nat)
    (t : DelegationType) (data : DelegationData) : Except String DelegationData :=
  match v, t with
  | .v1, .VOTING_POWER => if src = dst then .ok data else moveBalances number balances src dst amount data
  | .v1, .PROPOSITION_POWER => .ok data
  | .v2, _ => moveDelegates number balances (getDelegatee src data.delegates) (getDelegatee dst data.delegates)
      amount data

/-- What `delegateByType` makes of the power data of its type. -/
def delegatePower (number : Nat) (balances : Address → Nat) (delegator delegatee : Address)
    (data : DelegationData) : Except String DelegationData :=
  moveDelegates number balances (getDelegatee delegator data.delegates) delegatee (balances delegator)
    { data with delegates := Function.update data.delegates delegator delegatee }

/-- Power data by type, for both types. -/
def powerOf (voting proposition : DelegationData) : DelegationType → DelegationData
  | .VOTING_POWER => voting
  | .PROPOSITION_POWER => proposition

namespace StakedToken

open Ledger (credit debit)
open Outcome (bind_ok_iff pure_ok_iff)

variable {W : Type} {D : Deployment W} {m : Msg} {s s' : State W} {v : Version}
  {src dst user : Address} {amount : Nat}

/-- The world after the governance hook, if version `v` calls it. -/
def notified (D : Deployment W) (v : Version) (src dst : Address) (amount : Nat) (governance : Address)
    (w : W) : Except String W :=
  if governance = 0 ∨ (v = .v1 ∧ src = dst) then .ok w else D.ext.onTransfer governance src dst amount w

/-! ## Before a transfer of tokens -/

theorem notifyGovernance_ok_iff :
    notifyGovernance D src dst amount s = .ok s' ↔
      ∃ w, notified D .v2 src dst amount s.governance s.world = .ok w ∧ s' = { s with world := w } := by
  unfold notifyGovernance notified
  by_cases hg : s.governance = 0
  · simp only [hg, ne_eq, not_true_eq_false, if_false, true_or, if_true, Except.ok.injEq]
    constructor
    · rintro rfl; exact ⟨_, rfl, by rw [← hg]⟩
    · rintro ⟨_, rfl, rfl⟩; rw [← hg]
  · simp only [hg, ne_eq, not_false_eq_true, if_true, bind_ok_iff, pure_ok_iff, false_or, reduceCtorEq, false_and,
      if_false]

theorem moveDelegatesByType_ok_iff {t : DelegationType} :
    moveDelegatesByType m src dst amount t s = .ok s' ↔
      ∃ data, moveDelegates m.number s.balances src dst amount (s.power t) = .ok data ∧
        s' = { s with power := Function.update s.power t data } := by
  simp only [moveDelegatesByType, bind_ok_iff, pure_ok_iff]

theorem update_voting (p : DelegationType → DelegationData) (d : DelegationData) :
    Function.update p .VOTING_POWER d = powerOf d (p .PROPOSITION_POWER) := by
  funext t; cases t <;> rfl

theorem update_proposition (p : DelegationType → DelegationData) (d : DelegationData) :
    Function.update p .PROPOSITION_POWER d = powerOf (p .VOTING_POWER) d := by
  funext t; cases t <;> rfl

/-- Before a transfer the contract moves power, of each type on its own,
and tells the hook; nothing else changes. -/
theorem beforeTokenTransfer_ok_iff :
    beforeTokenTransfer D m v src dst amount s = .ok s' ↔
      ∃ p w, (∀ t, movePower v m.number s.balances src dst amount t (s.power t) = .ok (p t)) ∧
        notified D v src dst amount s.governance s.world = .ok w ∧ s' = { s with power := p, world := w } := by
  cases v with
  | v1 =>
    simp only [beforeTokenTransfer, beforeTokenTransferV1]
    by_cases heq : src = dst
    · simp only [heq, if_true, Except.ok.injEq, notified, and_self, or_true]
      constructor
      · rintro rfl
        exact ⟨s.power, s.world, fun t => by cases t <;> simp [movePower], rfl, rfl⟩
      · rintro ⟨p, w, hp, rfl, rfl⟩
        have : p = s.power := by
          funext t
          have := hp t
          cases t <;> simpa [movePower, eq_comm] using this
        rw [this]
    · simp only [heq, if_false, bind_ok_iff, notifyGovernance_ok_iff]
      constructor
      · rintro ⟨data, hd, w, hw, rfl⟩
        refine ⟨_, w, fun t => ?_, by simpa [notified, heq] using hw, rfl⟩
        cases t with
        | VOTING_POWER => simpa [movePower, heq] using hd
        | PROPOSITION_POWER => simp [movePower]
      · rintro ⟨p, w, hp, hw, rfl⟩
        have hv : moveBalances m.number s.balances src dst amount (s.power .VOTING_POWER) =
            .ok (p .VOTING_POWER) := by simpa [movePower, heq] using hp .VOTING_POWER
        have hq : s.power .PROPOSITION_POWER = p .PROPOSITION_POWER := by
          simpa [movePower] using hp .PROPOSITION_POWER
        refine ⟨_, hv, w, by simpa [notified, heq] using hw, ?_⟩
        rw [update_voting, hq]
        congr
        funext t; cases t <;> rfl
  | v2 =>
    simp only [beforeTokenTransfer, beforeTokenTransferV2, bind_ok_iff, moveDelegatesByType_ok_iff,
      notifyGovernance_ok_iff]
    constructor
    · rintro ⟨_, ⟨dv, hv, rfl⟩, _, ⟨dp, hq, rfl⟩, w, hw, rfl⟩
      refine ⟨_, w, fun t => ?_, hw, rfl⟩
      cases t with
      | VOTING_POWER => exact hv
      | PROPOSITION_POWER => exact hq
    · rintro ⟨p, w, hp, hw, rfl⟩
      refine ⟨_, ⟨_, hp .VOTING_POWER, rfl⟩, _, ⟨_, hp .PROPOSITION_POWER, rfl⟩, w, hw, ?_⟩
      rw [update_proposition, update_voting]
      congr
      funext t; cases t <;> rfl

/-! ## ERC20 -/

theorem mint_ok_iff :
    mint D m v user amount s = .ok s' ↔
      user ≠ 0 ∧ s.totalSupply + amount < 2 ^ 256 ∧ s.balances user + amount < 2 ^ 256 ∧
        ∃ p w, (∀ t, movePower v m.number s.balances 0 user amount t (s.power t) = .ok (p t)) ∧
          notified D v 0 user amount s.governance s.world = .ok w ∧
          s' = { s with
            balances := credit s.balances user amount
            totalSupply := s.totalSupply + amount, power := p, world := w } := by
  simp only [mint, bind_ok_iff, require_ok_iff, beforeTokenTransfer_ok_iff, SafeMath.add_ok_iff, pure_ok_iff]
  constructor
  · rintro ⟨_, hu, _, ⟨p, w, hp, hw, rfl⟩, _, ⟨hs, rfl⟩, _, ⟨hb, rfl⟩, rfl⟩
    exact ⟨hu, hs, hb, p, w, hp, hw, rfl⟩
  · rintro ⟨hu, hs, hb, p, w, hp, hw, rfl⟩
    exact ⟨(), hu, _, ⟨p, w, hp, hw, rfl⟩, _, ⟨hs, rfl⟩, _, ⟨hb, rfl⟩, rfl⟩

theorem burn_ok_iff :
    burn D m v user amount s = .ok s' ↔
      user ≠ 0 ∧ amount ≤ s.balances user ∧ amount ≤ s.totalSupply ∧
        ∃ p w, (∀ t, movePower v m.number s.balances user 0 amount t (s.power t) = .ok (p t)) ∧
          notified D v user 0 amount s.governance s.world = .ok w ∧
          s' = { s with
            balances := debit s.balances user amount
            totalSupply := s.totalSupply - amount, power := p, world := w } := by
  simp only [burn, bind_ok_iff, require_ok_iff, beforeTokenTransfer_ok_iff, SafeMath.subMsg_ok_iff,
    SafeMath.sub_ok_iff, pure_ok_iff]
  constructor
  · rintro ⟨_, hu, _, ⟨p, w, hp, hw, rfl⟩, _, ⟨hb, rfl⟩, _, ⟨hs, rfl⟩, rfl⟩
    exact ⟨hu, hb, hs, p, w, hp, hw, rfl⟩
  · rintro ⟨hu, hb, hs, p, w, hp, hw, rfl⟩
    exact ⟨(), hu, _, ⟨p, w, hp, hw, rfl⟩, _, ⟨hb, rfl⟩, _, ⟨hs, rfl⟩, rfl⟩

theorem superTransfer_ok_iff :
    superTransfer D m v src dst amount s = .ok s' ↔
      src ≠ 0 ∧ dst ≠ 0 ∧ amount ≤ s.balances src ∧ debit s.balances src amount dst + amount < 2 ^ 256 ∧
        ∃ p w, (∀ t, movePower v m.number s.balances src dst amount t (s.power t) = .ok (p t)) ∧
          notified D v src dst amount s.governance s.world = .ok w ∧
          s' = { s with
            balances := credit (debit s.balances src amount) dst amount
            power := p, world := w } := by
  simp only [superTransfer, bind_ok_iff, require_ok_iff, beforeTokenTransfer_ok_iff, SafeMath.subMsg_ok_iff,
    SafeMath.add_ok_iff, pure_ok_iff]
  constructor
  · rintro ⟨_, hs, _, hd, _, ⟨p, w, hp, hw, rfl⟩, _, ⟨hb, rfl⟩, _, ⟨hc, rfl⟩, rfl⟩
    exact ⟨hs, hd, hb, hc, p, w, hp, hw, rfl⟩
  · rintro ⟨hs, hd, hb, hc, p, w, hp, hw, rfl⟩
    exact ⟨(), hs, (), hd, _, ⟨p, w, hp, hw, rfl⟩, _, ⟨hb, rfl⟩, _, ⟨hc, rfl⟩, rfl⟩

theorem approve_ok_iff {owner spender : Address} :
    approve owner spender amount s = .ok s' ↔
      owner ≠ 0 ∧ spender ≠ 0 ∧
        s' = { s with
          allowances := Function.update s.allowances owner
            (Function.update (s.allowances owner) spender amount) } := by
  simp only [approve, bind_ok_iff, require_ok_iff, pure_ok_iff]
  constructor
  · rintro ⟨_, ho, _, hs, rfl⟩; exact ⟨ho, hs, rfl⟩
  · rintro ⟨ho, hs, rfl⟩; exact ⟨(), ho, (), hs, rfl⟩

/-! ## Settlements -/

/-- The settlement of `user` at their balance and the supply in `s`: the
rewards it accrues, and the assets after. -/
def settlement (D : Deployment W) (m : Msg) (user : Address) (s : State W) :
    Except String (Nat × (Address → AssetData)) :=
  DistributionManager.updateUserAssetInternal D.DISTRIBUTION_END m.timestamp user D.self (s.balances user)
    s.totalSupply s.assets

/-- A settled user's rewards to claim are stored unless the caller goes on
to store them itself (`claimRewards`). -/
theorem updateCurrentUnclaimedRewards_ok_iff {updateStorage : Bool} {n : Nat} :
    updateCurrentUnclaimedRewards D m user (s.balances user) updateStorage s = .ok (n, s') ↔
      ∃ r assets, settlement D m user s = .ok (r, assets) ∧ s.stakerRewardsToClaim user + r < 2 ^ 256 ∧
        n = s.stakerRewardsToClaim user + r ∧
        s' = { s with
          assets
          stakerRewardsToClaim := if updateStorage = true then credit s.stakerRewardsToClaim user r
            else s.stakerRewardsToClaim } := by
  simp only [updateCurrentUnclaimedRewards, bind_ok_iff, SafeMath.add_ok_iff, Prod.exists]
  have hzero : credit s.stakerRewardsToClaim user 0 = s.stakerRewardsToClaim := by simp [credit]
  constructor
  · rintro ⟨r, assets, hu, _, ⟨hb, rfl⟩, h⟩
    refine ⟨r, assets, hu, hb, ?_⟩
    cases updateStorage <;> by_cases hr : r = 0 <;>
      simp_all [credit]
  · rintro ⟨r, assets, hu, hb, rfl, rfl⟩
    refine ⟨r, assets, hu, _, ⟨hb, rfl⟩, ?_⟩
    cases updateStorage <;> by_cases hr : r = 0 <;>
      simp_all [credit]

/-! ## The entry points -/

theorem stake_ok_iff :
    stake D m v user amount s = .ok s' ↔
      amount ≠ 0 ∧ user ≠ 0 ∧ s.totalSupply + amount < 2 ^ 256 ∧ s.balances user + amount < 2 ^ 256 ∧
        ∃ r assets c p w w',
          settlement D m user s = .ok (r, assets) ∧ (r ≠ 0 → s.stakerRewardsToClaim user + r < 2 ^ 256) ∧
          getNextCooldownTimestamp D m 0 amount user (s.balances user) s = .ok c ∧
          (∀ t, movePower v m.number s.balances 0 user amount t (s.power t) = .ok (p t)) ∧
          notified D v 0 user amount s.governance s.world = .ok w ∧
          SafeERC20.safeTransferFrom D.ext D.STAKED_TOKEN D.self m.sender D.self amount w = .ok w' ∧
          s' = { s with
            balances := credit s.balances user amount
            totalSupply := s.totalSupply + amount, power := p, assets
            stakerRewardsToClaim := credit s.stakerRewardsToClaim user r
            stakersCooldowns := Function.update s.stakersCooldowns user c
            world := w' } := by
  simp only [stake, bind_ok_iff, require_ok_iff, SafeMath.addNonzero_ok_iff, mint_ok_iff, pure_ok_iff, Prod.exists]
  constructor
  · rintro ⟨_, ha, r, assets, hu, _, ⟨hr, rfl⟩, c, hc, _, ⟨hne, hs, hb, p, w, hp, hw, rfl⟩, w', hw', rfl⟩
    exact ⟨ha, hne, hs, hb, r, assets, c, p, w, w', hu, hr, hc, hp, hw, hw', rfl⟩
  · rintro ⟨ha, hne, hs, hb, r, assets, c, p, w, w', hu, hr, hc, hp, hw, hw', rfl⟩
    exact ⟨(), ha, r, assets, hu, _, ⟨hr, rfl⟩, c, hc, _, ⟨hne, hs, hb, p, w, hp, hw, rfl⟩, w', hw', rfl⟩

theorem ite_stakersCooldowns {c : Prop} [Decidable c] (f : Address → Nat) (s : State W) :
    (if c then { s with stakersCooldowns := f } else s) =
      { s with stakersCooldowns := if c then f else s.stakersCooldowns } := by
  split <;> rfl

theorem ite_stakersCooldowns₂ {c : Prop} [Decidable c] (f g : Address → Nat) (s : State W) :
    (if c then { s with stakersCooldowns := f } else { s with stakersCooldowns := g }) =
      { s with stakersCooldowns := if c then f else g } := by
  split <;> rfl

theorem redeem_ok_iff :
    redeem D m v dst amount s = .ok s' ↔
      amount ≠ 0 ∧ s.stakersCooldowns m.sender + D.COOLDOWN_SECONDS < 2 ^ 256 ∧
        m.timestamp > s.stakersCooldowns m.sender + D.COOLDOWN_SECONDS ∧
        m.timestamp - (s.stakersCooldowns m.sender + D.COOLDOWN_SECONDS) ≤ D.UNSTAKE_WINDOW ∧
        min amount (s.balances m.sender) ≤ s.totalSupply ∧
        ∃ r assets p w w',
          settlement D m m.sender s = .ok (r, assets) ∧ s.stakerRewardsToClaim m.sender + r < 2 ^ 256 ∧
          (∀ t, movePower v m.number s.balances m.sender 0 (min amount (s.balances m.sender)) t (s.power t) =
            .ok (p t)) ∧
          notified D v m.sender 0 (min amount (s.balances m.sender)) s.governance s.world = .ok w ∧
          SafeERC20.safeTransfer D.ext D.STAKED_TOKEN D.self dst (min amount (s.balances m.sender)) w = .ok w' ∧
          s' = { s with
            balances := debit s.balances m.sender (min amount (s.balances m.sender))
            totalSupply := s.totalSupply - min amount (s.balances m.sender), power := p, assets
            stakerRewardsToClaim := credit s.stakerRewardsToClaim m.sender r
            stakersCooldowns := if s.balances m.sender ≤ amount then Function.update s.stakersCooldowns m.sender 0
              else s.stakersCooldowns
            world := w' } := by
  have hmin : (if amount > s.balances m.sender then s.balances m.sender else amount) =
      min amount (s.balances m.sender) := by split <;> omega
  have hle : min amount (s.balances m.sender) ≤ s.balances m.sender := Nat.min_le_right _ _
  have hleft : s.balances m.sender - min amount (s.balances m.sender) = 0 ↔ s.balances m.sender ≤ amount := by
    omega
  simp only [redeem, bind_ok_iff, require_ok_iff, SafeMath.add_ok_iff, SafeMath.sub_ok_iff, hmin, Prod.exists,
    updateCurrentUnclaimedRewards_ok_iff, burn_ok_iff, pure_ok_iff, ite_stakersCooldowns]
  constructor
  · rintro ⟨_, ha, _, ⟨hc, rfl⟩, _, ht, _, ⟨-, rfl⟩, _, hw, _, _, ⟨r, assets, hu, hr, rfl, rfl⟩, _,
      ⟨-, -, hs, p, w, hp, hn, rfl⟩, _, ⟨-, rfl⟩, w', hw', rfl⟩
    simp only [hleft]
    exact ⟨ha, hc, ht, hw, hs, r, assets, p, w, w', hu, hr, hp, hn, hw', rfl⟩
  · rintro ⟨ha, hc, ht, hw, hs, r, assets, p, w, w', hu, hr, hp, hn, hw', rfl⟩
    refine ⟨(), ha, _, ⟨hc, rfl⟩, (), ht, _, ⟨by omega, rfl⟩, (), hw, _, _, ⟨r, assets, hu, hr, rfl, rfl⟩, _,
      ⟨m.sender_ne, hle, hs, p, w, hp, hn, rfl⟩, _, ⟨hle, rfl⟩, w', hw', ?_⟩
    simp only [hleft]
    rfl

theorem cooldown_ok_iff :
    cooldown m s = .ok s' ↔
      s.balances m.sender ≠ 0 ∧
        s' = { s with stakersCooldowns := Function.update s.stakersCooldowns m.sender m.timestamp } := by
  simp only [cooldown, bind_ok_iff, require_ok_iff, pure_ok_iff]
  constructor
  · rintro ⟨_, hb, rfl⟩; exact ⟨hb, rfl⟩
  · rintro ⟨hb, rfl⟩; exact ⟨(), hb, rfl⟩

/-- The amount `claimRewards` pulls when `total` can be claimed. -/
def amountToClaim (amount total : Nat) : Nat := if amount = uint256Max then total else amount

theorem claimRewards_ok_iff {n : Nat} :
    claimRewards D m dst amount s = .ok (n, s') ↔
      ∃ r assets w,
        settlement D m m.sender s = .ok (r, assets) ∧ s.stakerRewardsToClaim m.sender + r < 2 ^ 256 ∧
        n = amountToClaim amount (s.stakerRewardsToClaim m.sender + r) ∧
        n ≤ s.stakerRewardsToClaim m.sender + r ∧
        SafeERC20.safeTransferFrom D.ext D.REWARD_TOKEN D.self D.REWARDS_VAULT dst n s.world = .ok w ∧
        s' = { s with
          assets
          stakerRewardsToClaim := Function.update s.stakerRewardsToClaim m.sender
            (s.stakerRewardsToClaim m.sender + r - n)
          world := w } := by
  simp only [claimRewards, bind_ok_iff, SafeMath.subMsg_ok_iff, Prod.exists, updateCurrentUnclaimedRewards_ok_iff,
    pure_ok_iff, Prod.mk.injEq]
  constructor
  · rintro ⟨_, _, ⟨r, assets, hu, hr, rfl, rfl⟩, _, ⟨hn, rfl⟩, w, hw, rfl, rfl⟩
    exact ⟨r, assets, w, hu, hr, rfl, hn, hw, rfl⟩
  · rintro ⟨r, assets, w, hu, hr, rfl, hn, hw, rfl⟩
    exact ⟨_, _, ⟨r, assets, hu, hr, rfl, rfl⟩, _, ⟨hn, rfl⟩, w, hw, rfl, rfl⟩

/-- The storage after `user` is settled with `r` rewards. -/
def settle (s : State W) (user : Address) (r : Nat) (assets : Address → AssetData) : State W :=
  { s with assets, stakerRewardsToClaim := credit s.stakerRewardsToClaim user r }

/-- The cooldowns after a transfer that gives the recipient `c`. -/
def transferredCooldowns (src dst : Address) (amount c : Nat) (s : State W) : Address → Nat :=
  if s.balances src = amount ∧ s.stakersCooldowns src ≠ 0 then
    Function.update (Function.update s.stakersCooldowns dst c) src 0
  else Function.update s.stakersCooldowns dst c

theorem transfer_self_ok_iff :
    transfer D m v user user amount s = .ok s' ↔
      user ≠ 0 ∧ amount ≤ s.balances user ∧ debit s.balances user amount user + amount < 2 ^ 256 ∧
        ∃ r assets p w,
          settlement D m user s = .ok (r, assets) ∧ s.stakerRewardsToClaim user + r < 2 ^ 256 ∧
          (∀ t, movePower v m.number s.balances user user amount t (s.power t) = .ok (p t)) ∧
          notified D v user user amount s.governance s.world = .ok w ∧
          s' = { settle s user r assets with
            balances := credit (debit s.balances user amount) user amount, power := p, world := w } := by
  simp only [transfer, ne_eq, not_true_eq_false, if_false, bind_ok_iff, Prod.exists,
    updateCurrentUnclaimedRewards_ok_iff, superTransfer_ok_iff]
  constructor
  · rintro ⟨_, _, ⟨r, assets, hu, hr, rfl, rfl⟩, hne, -, ha, hb, p, w, hp, hw, rfl⟩
    exact ⟨hne, ha, hb, r, assets, p, w, hu, hr, hp, hw, rfl⟩
  · rintro ⟨hne, ha, hb, r, assets, p, w, hu, hr, hp, hw, rfl⟩
    exact ⟨_, _, ⟨r, assets, hu, hr, rfl, rfl⟩, hne, hne, ha, hb, p, w, hp, hw, rfl⟩

theorem transfer_ok_iff (hne : src ≠ dst) :
    transfer D m v src dst amount s = .ok s' ↔
      src ≠ 0 ∧ dst ≠ 0 ∧ amount ≤ s.balances src ∧ s.balances dst + amount < 2 ^ 256 ∧
        ∃ r assets r' assets' c p w,
          settlement D m src s = .ok (r, assets) ∧ s.stakerRewardsToClaim src + r < 2 ^ 256 ∧
          settlement D m dst (settle s src r assets) = .ok (r', assets') ∧
          s.stakerRewardsToClaim dst + r' < 2 ^ 256 ∧
          getNextCooldownTimestamp D m (s.stakersCooldowns src) amount dst (s.balances dst) s = .ok c ∧
          (∀ t, movePower v m.number s.balances src dst amount t (s.power t) = .ok (p t)) ∧
          notified D v src dst amount s.governance s.world = .ok w ∧
          s' = { settle (settle s src r assets) dst r' assets' with
            balances := credit (debit s.balances src amount) dst amount, power := p
            stakersCooldowns := transferredCooldowns src dst amount c s
            world := w } := by
  have hdst : ∀ r, credit s.stakerRewardsToClaim src r dst = s.stakerRewardsToClaim dst := fun r => by
    simp [Ledger.credit_of_ne hne.symm]
  have hdebit : debit s.balances src amount dst = s.balances dst := by simp [Ledger.debit_of_ne hne.symm]
  simp only [transfer, ne_eq, hne, not_false_eq_true, if_true, bind_ok_iff, Prod.exists,
    updateCurrentUnclaimedRewards_ok_iff, superTransfer_ok_iff, ite_stakersCooldowns₂]
  constructor
  · rintro ⟨_, _, ⟨r, assets, hu, hr, rfl, rfl⟩, _, _, ⟨r', assets', hu', hr', rfl, rfl⟩, c, hc, hs, hd, ha, hb, p, w,
      hp, hw, rfl⟩
    simp only [hdst] at hr'
    simp only [hdebit] at hb
    exact ⟨hs, hd, ha, hb, r, assets, r', assets', c, p, w, hu, hr, hu', hr', hc, hp, hw, rfl⟩
  · rintro ⟨hs, hd, ha, hb, r, assets, r', assets', c, p, w, hu, hr, hu', hr', hc, hp, hw, rfl⟩
    refine ⟨_, _, ⟨r, assets, hu, hr, rfl, rfl⟩, _, _, ⟨r', assets', hu', ?_, rfl, rfl⟩, c, hc, hs, hd, ha, ?_, p, w,
      hp, hw, rfl⟩
    · simpa only [if_true, hdst] using hr'
    · simpa only [hdebit] using hb

/-- A transfer of tokens leaves allowances and nonces alone. -/
theorem transfer_aside (h : transfer D m v src dst amount s = .ok s') :
    s'.allowances = s.allowances ∧ s'.nonces = s.nonces := by
  by_cases heq : src = dst
  · subst heq
    obtain ⟨-, -, -, r, assets, p, w, -, -, -, -, rfl⟩ := transfer_self_ok_iff.1 h
    exact ⟨rfl, rfl⟩
  · obtain ⟨-, -, -, -, r, assets, r', assets', c, p, w, -, -, -, -, -, -, -, rfl⟩ := (transfer_ok_iff heq).1 h
    exact ⟨rfl, rfl⟩

theorem transferFrom_ok_iff :
    transferFrom D m v src dst amount s = .ok s' ↔
      ∃ s₁, transfer D m v src dst amount s = .ok s₁ ∧ amount ≤ s₁.allowances src m.sender ∧ src ≠ 0 ∧
        s' = { s₁ with
          allowances := Function.update s₁.allowances src
            (Function.update (s₁.allowances src) m.sender (s₁.allowances src m.sender - amount)) } := by
  simp only [transferFrom, bind_ok_iff, SafeMath.subMsg_ok_iff, approve_ok_iff]
  constructor
  · rintro ⟨s₁, h, _, ⟨ha, rfl⟩, hs, -, rfl⟩; exact ⟨s₁, h, ha, hs, rfl⟩
  · rintro ⟨s₁, h, ha, hs, rfl⟩; exact ⟨s₁, h, _, ⟨ha, rfl⟩, hs, m.sender_ne, rfl⟩

theorem configureAssets_ok_iff {inputs : List AssetConfigInput} :
    configureAssets D m inputs s = .ok s' ↔
      m.sender = D.EMISSION_MANAGER ∧
        ∃ assets, inputs.foldlM (DistributionManager.configureAsset D.DISTRIBUTION_END m.timestamp) s.assets =
            .ok assets ∧ s' = { s with assets } := by
  simp only [configureAssets, DistributionManager.configureAssets_ok_iff, bind_ok_iff, pure_ok_iff]
  constructor
  · rintro ⟨assets, ⟨hm, h⟩, rfl⟩; exact ⟨hm, assets, h, rfl⟩
  · rintro ⟨hm, assets, h, rfl⟩; exact ⟨assets, ⟨hm, h⟩, rfl⟩

/-! ## Delegation and signed messages -/

theorem delegateByType_ok_iff {delegator delegatee : Address} {t : DelegationType} :
    delegateByType m delegator delegatee t s = .ok s' ↔
      delegatee ≠ 0 ∧ ∃ data, delegatePower m.number s.balances delegator delegatee (s.power t) = .ok data ∧
        s' = { s with power := Function.update s.power t data } := by
  simp only [delegateByType, bind_ok_iff, require_ok_iff, moveDelegatesByType_ok_iff, Function.update_self,
    Function.update_idem]
  constructor
  · rintro ⟨_, hd, data, h, rfl⟩; exact ⟨hd, data, h, rfl⟩
  · rintro ⟨hd, data, h, rfl⟩; exact ⟨(), hd, data, h, rfl⟩

/-- `delegate` moves the power of each type on its own. -/
theorem delegate_ok_iff {delegator delegatee : Address} :
    delegate m delegator delegatee s = .ok s' ↔
      delegatee ≠ 0 ∧ ∃ p, (∀ t, delegatePower m.number s.balances delegator delegatee (s.power t) = .ok (p t)) ∧
        s' = { s with power := p } := by
  simp only [delegate, bind_ok_iff, delegateByType_ok_iff]
  constructor
  · rintro ⟨_, ⟨hd, dv, hv, rfl⟩, -, dp, hp, rfl⟩
    refine ⟨hd, _, fun t => ?_, rfl⟩
    cases t with
    | VOTING_POWER => exact hv
    | PROPOSITION_POWER => exact hp
  · rintro ⟨hd, p, h, rfl⟩
    refine ⟨_, ⟨hd, _, h .VOTING_POWER, rfl⟩, hd, _, h .PROPOSITION_POWER, ?_⟩
    rw [update_proposition, update_voting]
    congr
    funext t; cases t <;> rfl

theorem useNonce_ok_iff {message : TypedData} {nonce expiry : Nat} {signature : Signature} {a : Address} :
    useNonce D m message nonce expiry signature s = .ok (a, s') ↔
      D.ext.recover message signature = .ok a ∧ a ≠ 0 ∧ nonce = s.nonces a ∧ m.timestamp ≤ expiry ∧
        s' = { s with nonces := Function.update s.nonces a ((s.nonces a + 1) % 2 ^ 256) } := by
  simp only [useNonce, bind_ok_iff, require_ok_iff, pure_ok_iff, Prod.mk.injEq]
  constructor
  · rintro ⟨_, h, _, ha, _, hn, _, ht, rfl, rfl⟩; exact ⟨h, ha, hn, ht, rfl⟩
  · rintro ⟨h, ha, hn, ht, rfl⟩; exact ⟨a, h, (), ha, (), hn, (), ht, rfl, rfl⟩

/-- A signed delegation is the signer's own, and uses a nonce. -/
theorem delegateBySig_ok_iff {delegatee : Address} {nonce expiry : Nat} {signature : Signature} :
    delegateBySig D m delegatee nonce expiry signature s = .ok s' ↔
      ∃ signer, D.ext.recover (.delegate delegatee nonce expiry) signature = .ok signer ∧ signer ≠ 0 ∧
        nonce = s.nonces signer ∧ m.timestamp ≤ expiry ∧
        ∃ s₁, delegate m signer delegatee s = .ok s₁ ∧
          s' = { s₁ with nonces := Function.update s.nonces signer ((s.nonces signer + 1) % 2 ^ 256) } := by
  simp only [delegateBySig, bind_ok_iff, Prod.exists, useNonce_ok_iff, delegate_ok_iff]
  constructor
  · rintro ⟨signer, _, ⟨hrecover, hne, hnonce, htime, rfl⟩, hy, p, hp, rfl⟩
    exact ⟨signer, hrecover, hne, hnonce, htime, _, ⟨hy, p, hp, rfl⟩, rfl⟩
  · rintro ⟨signer, hrecover, hne, hnonce, htime, _, ⟨hy, p, hp, rfl⟩, rfl⟩
    exact ⟨signer, _, ⟨hrecover, hne, hnonce, htime, rfl⟩, hy, p, hp, rfl⟩

theorem delegateByTypeBySig_ok_iff {delegatee : Address} {t : DelegationType} {nonce expiry : Nat}
    {signature : Signature} :
    delegateByTypeBySig D m delegatee t nonce expiry signature s = .ok s' ↔
      ∃ signer, D.ext.recover (.delegateByType delegatee t nonce expiry) signature = .ok signer ∧ signer ≠ 0 ∧
        nonce = s.nonces signer ∧ m.timestamp ≤ expiry ∧
        ∃ s₁, delegateByType m signer delegatee t s = .ok s₁ ∧
          s' = { s₁ with nonces := Function.update s.nonces signer ((s.nonces signer + 1) % 2 ^ 256) } := by
  simp only [delegateByTypeBySig, bind_ok_iff, Prod.exists, useNonce_ok_iff, delegateByType_ok_iff]
  constructor
  · rintro ⟨signer, _, ⟨hrecover, hne, hnonce, htime, rfl⟩, hy, data, hd, rfl⟩
    exact ⟨signer, hrecover, hne, hnonce, htime, _, ⟨hy, data, hd, rfl⟩, rfl⟩
  · rintro ⟨signer, hrecover, hne, hnonce, htime, _, ⟨hy, data, hd, rfl⟩, rfl⟩
    exact ⟨signer, _, ⟨hrecover, hne, hnonce, htime, rfl⟩, hy, data, hd, rfl⟩

theorem permit_ok_iff {owner spender : Address} {value deadline : Nat} {signature : Signature} :
    permit D m owner spender value deadline signature s = .ok s' ↔
      owner ≠ 0 ∧ m.timestamp ≤ deadline ∧ spender ≠ 0 ∧ s.nonces owner + 1 < 2 ^ 256 ∧
        D.ext.recover (.permit owner spender value (s.nonces owner) deadline) signature = .ok owner ∧
        s' = { s with
          allowances := Function.update s.allowances owner (Function.update (s.allowances owner) spender value)
          nonces := Function.update s.nonces owner (s.nonces owner + 1) } := by
  simp only [permit, bind_ok_iff, require_ok_iff, SafeMath.add_ok_iff, approve_ok_iff]
  constructor
  · rintro ⟨_, ho, _, ht, _, h, _, rfl, _, ⟨hn, rfl⟩, -, hs, rfl⟩; exact ⟨ho, ht, hs, hn, h, rfl⟩
  · rintro ⟨ho, ht, hs, hn, h, rfl⟩; exact ⟨(), ho, (), ht, owner, h, (), rfl, _, ⟨hn, rfl⟩, ho, hs, rfl⟩

theorem increaseAllowance_ok {spender : Address} {addedValue : Nat}
    (h : increaseAllowance m spender addedValue s = .ok s') : ∃ value, approve m.sender spender value s = .ok s' := by
  simp only [increaseAllowance, bind_ok_iff] at h
  obtain ⟨value, -, h⟩ := h
  exact ⟨value, h⟩

theorem decreaseAllowance_ok {spender : Address} {subtractedValue : Nat}
    (h : decreaseAllowance m spender subtractedValue s = .ok s') :
    ∃ value, approve m.sender spender value s = .ok s' := by
  simp only [decreaseAllowance, bind_ok_iff] at h
  obtain ⟨value, -, h⟩ := h
  exact ⟨value, h⟩

/-! ## A call -/

/-- What a claim leaves behind is what `claimRewards` does. -/
theorem exec_claimRewards_ok_iff :
    exec D ⟨v, m, .claimRewards dst amount⟩ s = .ok s' ↔ ∃ n, claimRewards D m dst amount s = .ok (n, s') := by
  simp only [exec, step, bind_ok_iff, pure_ok_iff, Prod.exists]
  constructor
  · rintro ⟨n, _, h, rfl⟩; exact ⟨n, h⟩
  · rintro ⟨n, h⟩; exact ⟨n, s', h, rfl⟩

/-- The calls about allowances, delegation and nonces alone. -/
def aside : Call → Bool
  | .stake _ _ => false
  | .redeem _ _ => false
  | .cooldown => false
  | .claimRewards _ _ => false
  | .transfer _ _ => false
  | .transferFrom _ _ _ => false
  | .configureAssets _ => false
  | _ => true

/-- What a successful call is, the two kinds of transfer taken together and
the calls aside. -/
inductive Effect (D : Deployment W) (x : Tx) (s s' : State W) : Prop
  | stake (onBehalfOf : Address) (amount : Nat) (hx : x.call = .stake onBehalfOf amount)
      (h : StakedToken.stake D x.msg x.version onBehalfOf amount s = .ok s')
  | redeem (dst : Address) (amount : Nat) (hx : x.call = .redeem dst amount)
      (h : StakedToken.redeem D x.msg x.version dst amount s = .ok s')
  | cooldown (hx : x.call = .cooldown) (h : StakedToken.cooldown x.msg s = .ok s')
  | claimRewards (dst : Address) (amount claimed : Nat) (hx : x.call = .claimRewards dst amount)
      (h : StakedToken.claimRewards D x.msg dst amount s = .ok (claimed, s'))
  | transfer (src dst : Address) (amount : Nat) (allowances : Address → Address → Nat) (s₁ : State W)
      (hx : (x.call = .transfer dst amount ∧ src = x.msg.sender) ∨ x.call = .transferFrom src dst amount)
      (h : StakedToken.transfer D x.msg x.version src dst amount s = .ok s₁) (hs' : s' = { s₁ with allowances })
  | configureAssets (inputs : List AssetConfigInput) (hx : x.call = .configureAssets inputs)
      (h : StakedToken.configureAssets D x.msg inputs s = .ok s')
  | aside (hx : StakedToken.aside x.call = true)
      (allowances : Address → Address → Nat) (power : DelegationType → DelegationData) (nonces : Address → Nat)
      (hs' : s' = { s with allowances, power, nonces })

theorem effect_of_exec {x : Tx} (h : exec D x s = .ok s') : Effect D x s s' := by
  obtain ⟨v, m, c⟩ := x
  cases c with
  | stake onBehalfOf amount => exact .stake onBehalfOf amount rfl h
  | redeem dst amount => exact .redeem dst amount rfl h
  | cooldown => exact .cooldown rfl h
  | claimRewards dst amount =>
    obtain ⟨n, h⟩ := exec_claimRewards_ok_iff.1 h
    exact .claimRewards dst amount n rfl h
  | transfer recipient amount => exact .transfer m.sender recipient amount _ s' (.inl ⟨rfl, rfl⟩) h rfl
  | transferFrom sender recipient amount =>
    obtain ⟨s₁, h₁, -, -, rfl⟩ := transferFrom_ok_iff.1 h
    exact .transfer sender recipient amount _ s₁ (.inr rfl) h₁ rfl
  | approve spender amount =>
    obtain ⟨-, -, rfl⟩ := approve_ok_iff.1 h
    exact .aside rfl _ _ _ rfl
  | increaseAllowance spender addedValue =>
    obtain ⟨value, h⟩ := increaseAllowance_ok h
    obtain ⟨-, -, rfl⟩ := approve_ok_iff.1 h
    exact .aside rfl _ _ _ rfl
  | decreaseAllowance spender subtractedValue =>
    obtain ⟨value, h⟩ := decreaseAllowance_ok h
    obtain ⟨-, -, rfl⟩ := approve_ok_iff.1 h
    exact .aside rfl _ _ _ rfl
  | configureAssets inputs => exact .configureAssets inputs rfl h
  | delegate y =>
    cases v with
    | v1 => cases h
    | v2 =>
      obtain ⟨-, p, -, rfl⟩ := delegate_ok_iff.1 h
      exact .aside rfl _ _ _ rfl
  | delegateByType y t =>
    cases v with
    | v1 => cases h
    | v2 =>
      obtain ⟨-, p, -, rfl⟩ := delegateByType_ok_iff.1 h
      exact .aside rfl _ _ _ rfl
  | delegateBySig y nonce expiry signature =>
    cases v with
    | v1 => cases h
    | v2 =>
      obtain ⟨signer, -, -, -, -, s₁, h₁, rfl⟩ := delegateBySig_ok_iff.1 h
      obtain ⟨-, p, -, rfl⟩ := delegate_ok_iff.1 h₁
      exact .aside rfl _ _ _ rfl
  | delegateByTypeBySig y t nonce expiry signature =>
    cases v with
    | v1 => cases h
    | v2 =>
      obtain ⟨signer, -, -, -, -, s₁, h₁, rfl⟩ := delegateByTypeBySig_ok_iff.1 h
      obtain ⟨-, p, -, rfl⟩ := delegateByType_ok_iff.1 h₁
      exact .aside rfl _ _ _ rfl
  | permit owner spender value deadline signature =>
    cases v with
    | v1 => cases h
    | v2 =>
      obtain ⟨-, -, -, -, -, rfl⟩ := permit_ok_iff.1 h
      exact .aside rfl _ _ _ rfl

end StakedToken

end StarlayStake
