/-
What a claim of rewards debits, it should pay. The controller writes the
debit first and then has the reward token move the payment out of the vault,
through `IERC20`, whose answer it ignores: where the token refuses with
`false` the debit stands (`Refused`), while `StakedToken` pays the same
rewards through `SafeERC20`, which reverts. The staking of the payment does
go through `SafeERC20`, and so only succeeds then on tokens the controller
held already.
-/
import StarlayStake.VaultOutflow

namespace StarlayStake

open Ledger (credit debit)
open IncentivesController (userState claimRewards_ok_iff payUnclaimed_ok_iff payRewards_ok_iff newlyAccrued debited
  debited_eq claim_exact payment SurplusFits Drawn stakeInPSM)

variable {W : Type}

/-- The `transferFrom` of a token: it moves exactly the amount and answers
`true`, or it moves nothing, and answers `false` or reverts. -/
structure ExactTransferFrom (ext : Externals W) (token : Address) (tok : TokenViews W) : Prop where
  transferFrom : ∀ {sender src dst value w r w'}, ext.transferFrom token sender src dst value w = .ok (r, w') →
    r = some true ∧ tok.Moved w w' src dst value ∨ r = some false ∧ tok.balanceOf w' = tok.balanceOf w

/-- Tokens that are not moved are as after a transfer only where that would
go back to where they are. -/
theorem TokenViews.moved_unchanged_iff {tok : TokenViews W} {w w' : W} {src dst : Address} {value : Nat}
    (hvalue : value ≠ 0) (h : tok.balanceOf w' = tok.balanceOf w) :
    tok.Moved w w' src dst value ↔ dst = src ∧ value ≤ tok.balanceOf w src := by
  rw [TokenViews.Moved, h]
  constructor
  · rintro ⟨hle, hmoved⟩
    refine ⟨?_, hle⟩
    by_contra hne
    have hdst := congrFun hmoved dst
    rw [Ledger.credit_self, Ledger.debit_of_ne hne] at hdst
    omega
  · rintro ⟨rfl, hle⟩
    refine ⟨hle, funext fun a => ?_⟩
    by_cases ha : a = dst
    · rw [ha, Ledger.credit_self, Ledger.debit_self, Nat.sub_add_cancel hle]
    · rw [Ledger.credit_of_ne ha, Ledger.debit_of_ne ha]

/-! ## The law, and what breaks it -/

section

variable (D : Deployment W) (C : IncentivesDeployment W) (tok : TokenViews W) (m : Msg) (v : Version)
  (assets : List Address) (amount : Nat) (dst : Address) (stake : Bool) (σ : System W)

/-- Whom the reward token pays: the controller, when it stakes. -/
def paidTo : Address := if stake = true then C.self else dst

/-- From `σ` to `σ'` a claim pays what it debits. -/
structure Pays (σ' : System W) : Prop where
  /-- the caller's rewards, unclaimed and accrued, are lowered by the debit -/
  debits : σ'.usersUnclaimedRewards = Function.update σ.usersUnclaimedRewards m.sender
    (σ.usersUnclaimedRewards m.sender + newlyAccrued C m assets amount σ - debited C m assets amount σ)
  /-- what was accrued is counted now, and not again -/
  settled : amount ≠ 0 → ∀ asset ∈ assets,
    DistributionManager.UpToDate m.timestamp m.sender (σ'.assets asset)
  /-- the token moves as much, or more when it is staked, from the vault to
  the recipient, or to the controller for the recipient's stake -/
  pays : debited C m assets amount σ = 0 ∧ σ'.staked = σ.staked ∨
    let paid := payment C (debited C m assets amount σ) stake
    ∃ w, IERC20.transferFrom D.ext C.REWARD_TOKEN C.self C.REWARDS_VAULT (paidTo C dst stake) paid σ.staked.world =
        .ok w ∧
      tok.Moved σ.staked.world w C.REWARDS_VAULT (paidTo C dst stake) paid ∧
      if stake = true then
        stakeInPSM D C m v dst paid { σ.staked with world := w } = .ok σ'.staked ∧
          σ'.staked.balances = credit σ.staked.balances dst paid
      else σ'.staked = { σ.staked with world := w }

/-- A claim reverts and leaves all as it was, or pays what it debits. -/
def RevertsOrPays : Prop :=
  (∃ e, IncentivesController.claimRewards D C m v assets amount dst stake σ = .error e ∧
    System.run D C σ [.claimRewards v m assets amount dst stake] = σ) ∨
  ∃ n σ', IncentivesController.claimRewards D C m v assets amount dst stake σ = .ok (n, σ') ∧
    Pays D C tok m v assets amount dst stake σ σ'

/-- A claim comes to a payment: the assets answer, what they owe the caller
can be added up, with the surplus of a stake, and something is debited. -/
structure Due : Prop where
  settles : ∃ stakes r assets', userState C assets m.sender σ.staked.world = .ok stakes ∧
    DistributionManager.claimRewards C.DISTRIBUTION_END m.timestamp m.sender stakes σ.assets = .ok (r, assets') ∧
    (r ≠ 0 → σ.usersUnclaimedRewards m.sender + r < 2 ^ 256)
  debits : debited C m assets amount σ ≠ 0
  surplus : SurplusFits C (debited C m assets amount σ) stake

/-- The token refuses a payment that is due with `false`, and a stake of it
succeeds all the same. A vault that would pay itself, and can, is left
aside: the payment would change nothing. -/
structure Refused : Prop where
  due : Due C m assets amount stake σ
  refused : D.ext.isContract C.REWARD_TOKEN σ.staked.world = true ∧
    ∃ w, D.ext.transferFrom C.REWARD_TOKEN C.self C.REWARDS_VAULT (paidTo C dst stake)
        (payment C (debited C m assets amount σ) stake) σ.staked.world = .ok (some false, w) ∧
      (stake = true → ∃ s, stakeInPSM D C m v dst (payment C (debited C m assets amount σ) stake)
        { σ.staked with world := w } = .ok s)
  missed : ¬ (paidTo C dst stake = C.REWARDS_VAULT ∧
    payment C (debited C m assets amount σ) stake ≤ tok.balanceOf σ.staked.world C.REWARDS_VAULT)

end

section

variable {D : Deployment W} {C : IncentivesDeployment W} {tok : TokenViews W} {m : Msg} {v : Version}
  {assets : List Address} {amount n d : Nat} {dst : Address} {stake : Bool} {σ σ' : System W} {s s' : State W}

theorem payment_ne_zero (hd : d ≠ 0) : payment C d stake ≠ 0 := by
  unfold payment
  split <;> omega

/-- Where something is debited, a claim succeeds if it is due and drawn. -/
theorem claimRewards_due_iff (hd : debited C m assets amount σ ≠ 0) :
    (∃ σ', IncentivesController.claimRewards D C m v assets amount dst stake σ = .ok (n, σ') ∧ σ'.staked = s) ↔
      n = payment C (debited C m assets amount σ) stake ∧ Due C m assets amount stake σ ∧
        Drawn D C m v dst stake n σ.staked s := by
  have hamount : amount ≠ 0 := fun h => hd (by rw [h]; exact Nat.zero_min _)
  constructor
  · rintro ⟨σ', h, rfl⟩
    rcases claimRewards_ok_iff.1 h with ⟨hzero, -, -⟩ | ⟨-, stakes, r, assets', hstakes, hclaim, hfits, hpay⟩
    · exact absurd hzero hamount
    have hd' := debited_eq hamount hstakes hclaim
    rcases payUnclaimed_ok_iff.1 hpay with ⟨hzero, -, -⟩ | ⟨-, s, hs, rfl⟩
    · exact absurd (hd'.trans (by rw [hzero, Nat.min_zero])) hd
    · rw [← hd'] at hs
      obtain ⟨rfl, hsurplus, hdrawn⟩ := payRewards_ok_iff.1 hs
      exact ⟨rfl, ⟨⟨stakes, r, assets', hstakes, hclaim, hfits⟩, hd, hsurplus⟩, hdrawn⟩
  · rintro ⟨hn, ⟨⟨stakes, r, assets', hstakes, hclaim, hfits⟩, -, hsurplus⟩, hdrawn⟩
    have hd' := debited_eq hamount hstakes hclaim
    have hunclaimed : σ.usersUnclaimedRewards m.sender + r ≠ 0 := by omega
    have hpay := payRewards_ok_iff.2 ⟨hn, hsurplus, hdrawn⟩
    rw [hd'] at hpay
    refine ⟨_, claimRewards_ok_iff.2 (.inr ⟨hamount, stakes, r, assets', hstakes, hclaim, hfits,
      payUnclaimed_ok_iff.2 (.inr ⟨hunclaimed, s, hpay, rfl⟩)⟩), rfl⟩

/-- Where nothing is debited nothing is paid. -/
theorem staked_of_claimRewards (h : IncentivesController.claimRewards D C m v assets amount dst stake σ = .ok (n, σ'))
    (hd : debited C m assets amount σ = 0) : σ'.staked = σ.staked := by
  rcases claimRewards_ok_iff.1 h with ⟨-, -, rfl⟩ | ⟨hamount, stakes, r, assets', hstakes, hclaim, -, hpay⟩
  · rfl
  rw [debited_eq hamount hstakes hclaim] at hd
  rcases payUnclaimed_ok_iff.1 hpay with ⟨-, -, rfl⟩ | ⟨hunclaimed, -⟩
  · rfl
  · omega

/-- After a claim its assets are up to date. -/
theorem upToDate_of_claimRewards (hindexed : ∀ asset, (σ.assets asset).users m.sender ≤ (σ.assets asset).index)
    (h : IncentivesController.claimRewards D C m v assets amount dst stake σ = .ok (n, σ'))
    (hT : m.timestamp < 2 ^ 128) (hamount : amount ≠ 0) :
    ∀ asset ∈ assets, DistributionManager.UpToDate m.timestamp m.sender (σ'.assets asset) := by
  rcases claimRewards_ok_iff.1 h with ⟨hzero, -, -⟩ | ⟨-, stakes, r, assets', hstakes, hclaim, -, hpay⟩
  · exact absurd hzero hamount
  rw [DistributionManager.claimRewards_eq] at hclaim
  intro asset hasset
  rw [IncentivesController.assets_of_payUnclaimed hpay]
  refine ((DistributionManager.Seen.start σ.assets).view_iff hT hindexed (by decide) hclaim).2 asset (.inr ?_)
  rw [IncentivesController.userState_assets hstakes]
  exact hasset

/-- What is staked is credited to the recipient. -/
theorem balances_of_stakeInPSM (h : stakeInPSM D C m v dst n s = .ok s') : s'.balances = credit s.balances dst n := by
  obtain ⟨-, -, -, -, r, assets, c, p, w, w', -, -, -, -, -, -, rfl⟩ := StakedToken.stake_ok_iff.1 h
  rfl

theorem staked_of_drawn {w : W}
    (h : if stake = true then stakeInPSM D C m v dst n { s with world := w } = .ok s' else s' = { s with world := w }) :
    if stake = true then
      stakeInPSM D C m v dst n { s with world := w } = .ok s' ∧ s'.balances = credit s.balances dst n
    else s' = { s with world := w } := by
  by_cases hstake : stake = true
  · rw [if_pos hstake] at h ⊢
    have hbalances := balances_of_stakeInPSM h
    exact ⟨h, hbalances⟩
  · rw [if_neg hstake] at h ⊢
    exact h

/-- A claim that succeeds though the token answers `false` was refused. -/
theorem refused_of_false {w : W} (hd : debited C m assets amount σ ≠ 0)
    (h : IncentivesController.claimRewards D C m v assets amount dst stake σ = .ok (n, σ'))
    (hcall : D.ext.transferFrom C.REWARD_TOKEN C.self C.REWARDS_VAULT (paidTo C dst stake)
      (payment C (debited C m assets amount σ) stake) σ.staked.world = .ok (some false, w))
    (hmissed : ¬ (paidTo C dst stake = C.REWARDS_VAULT ∧
      payment C (debited C m assets amount σ) stake ≤ tok.balanceOf σ.staked.world C.REWARDS_VAULT)) :
    Refused D C tok m v assets amount dst stake σ := by
  obtain ⟨rfl, hdue, w', hw', hs⟩ := (claimRewards_due_iff hd).1 ⟨σ', h, rfl⟩
  obtain ⟨hcontract, b, hcall'⟩ := IERC20.transferFrom_ok_iff.1 hw'
  obtain ⟨-, rfl⟩ := Prod.mk.inj (Except.ok.inj (hcall.symm.trans hcall'))
  refine ⟨hdue, ⟨hcontract, w, hcall, fun hstake => ⟨σ'.staked, ?_⟩⟩, hmissed⟩
  rw [if_pos hstake] at hs
  exact hs

/-- A claim that succeeds pays what it debits, or was refused. -/
theorem pays_or_refused (htoken : ExactTransferFrom D.ext C.REWARD_TOKEN tok) (hT : m.timestamp < 2 ^ 128)
    (hindexed : ∀ asset, (σ.assets asset).users m.sender ≤ (σ.assets asset).index)
    (h : IncentivesController.claimRewards D C m v assets amount dst stake σ = .ok (n, σ')) :
    Pays D C tok m v assets amount dst stake σ σ' ∨ Refused D C tok m v assets amount dst stake σ := by
  have hbooked := (claim_exact h).1
  have hsettled := upToDate_of_claimRewards hindexed h hT
  by_cases hd : debited C m assets amount σ = 0
  · exact .inl ⟨hbooked, hsettled, .inl ⟨hd, staked_of_claimRewards h hd⟩⟩
  obtain ⟨rfl, -, w, hw, hs⟩ := (claimRewards_due_iff hd).1 ⟨σ', h, rfl⟩
  obtain ⟨-, b, hcall⟩ := IERC20.transferFrom_ok_iff.1 hw
  by_cases hmoved : tok.Moved σ.staked.world w C.REWARDS_VAULT (paidTo C dst stake)
      (payment C (debited C m assets amount σ) stake)
  · exact .inl ⟨hbooked, hsettled, .inr ⟨w, hw, hmoved, staked_of_drawn hs⟩⟩
  · -- nothing moved, so the token answered false
    rcases htoken.transferFrom hcall with ⟨-, hmoved'⟩ | ⟨hb, hsame⟩
    · exact absurd hmoved' hmoved
    rw [hb] at hcall
    exact .inr (refused_of_false hd h hcall fun hself =>
      hmoved ((TokenViews.moved_unchanged_iff (payment_ne_zero hd) hsame).2 hself))

/-- A claim that is refused succeeds, and does not pay. -/
theorem not_pays_of_refused (htoken : ExactTransferFrom D.ext C.REWARD_TOKEN tok)
    (h : Refused D C tok m v assets amount dst stake σ) : ¬ RevertsOrPays D C tok m v assets amount dst stake σ := by
  obtain ⟨hdue, ⟨hcontract, w, hcall, hstake⟩, hmissed⟩ := h
  have hw := IERC20.transferFrom_ok_iff.2 ⟨hcontract, false, hcall⟩
  obtain ⟨s, hdrawn⟩ : ∃ s, Drawn D C m v dst stake (payment C (debited C m assets amount σ) stake) σ.staked s := by
    by_cases hs : stake = true
    · obtain ⟨s, hok⟩ := hstake hs
      exact ⟨s, w, hw, by rw [if_pos hs]; exact hok⟩
    · exact ⟨_, w, hw, by rw [if_neg hs]⟩
  obtain ⟨σ₁, hclaim, -⟩ := (claimRewards_due_iff hdue.debits).2 ⟨rfl, hdue, hdrawn⟩
  rintro (⟨e, herror, -⟩ | ⟨n, σ', -, hpays⟩)
  · exact absurd (hclaim.symm.trans herror) (by simp)
  rcases hpays.pays with ⟨hd, -⟩ | ⟨w', hw', hmoved, -⟩
  · exact hdue.debits hd
  · obtain rfl := Except.ok.inj (hw.symm.trans hw')
    rcases htoken.transferFrom hcall with ⟨htrue, -⟩ | ⟨-, hsame⟩
    · exact absurd htrue (by simp)
    · exact hmissed ((TokenViews.moved_unchanged_iff (payment_ne_zero hdue.debits) hsame).1 hmoved)

theorem revertsOrPays_iff_not_refused (htoken : ExactTransferFrom D.ext C.REWARD_TOKEN tok)
    (hT : m.timestamp < 2 ^ 128) (hindexed : ∀ asset, (σ.assets asset).users m.sender ≤ (σ.assets asset).index) :
    RevertsOrPays D C tok m v assets amount dst stake σ ↔ ¬ Refused D C tok m v assets amount dst stake σ := by
  refine ⟨fun h hrefused => not_pays_of_refused htoken hrefused h, fun hnot => ?_⟩
  cases hclaim : IncentivesController.claimRewards D C m v assets amount dst stake σ with
  | error e =>
    refine .inl ⟨e, hclaim, Runs.attempt_error (e := e) ?_⟩
    simp only [System.exec, hclaim]
    rfl
  | ok p =>
    exact .inr ⟨p.1, p.2, hclaim, (pays_or_refused htoken hT hindexed hclaim).resolve_right hnot⟩

end

/-- **A claim pays what it debits, unless the token refuses with `false`.**
In every state reached, whatever the assets, the amount, the recipient and
the branch, before 2^128: a claim reverts and leaves all as it was, or lowers
the caller's rewards by exactly what the token then moves from the vault, with
the surplus when it is staked; if and only if it is not the case that a payment
is due, the token answers `false` to it, and the staking, where there is one,
succeeds without it. -/
theorem claimRewards_pays_iff (D : Deployment W) (C : IncentivesDeployment W) {tok : TokenViews W}
    (htoken : ExactTransferFrom D.ext C.REWARD_TOKEN tok) (g : Address) (w : W) (l : List (Action W)) (m : Msg)
    (v : Version) (assets : List Address) (amount : Nat) (dst : Address) (stake : Bool) (hT : m.timestamp < 2 ^ 128) :
    let σ := System.run D C (.fresh g w) l
    RevertsOrPays D C tok m v assets amount dst stake σ ↔ ¬ Refused D C tok m v assets amount dst stake σ :=
  revertsOrPays_iff_not_refused htoken hT fun asset => System.indexed_of_run asset m.sender

/-! Tokens that answer `false` where the plain ones revert. -/

def Externals.answering : Externals (Address → Erc20) :=
  { Externals.erc20 with
    transferFrom := fun token sender src dst value w =>
      tryCatch (Externals.erc20.transferFrom token sender src dst value w) fun _ => .ok (some false, w) }

theorem ExactTransferFrom.answering (token : Address) : ExactTransferFrom .answering token (.erc20 token) := by
  refine ⟨fun {sender src dst value w r w'} h => ?_⟩
  cases hcall : Externals.erc20.transferFrom token sender src dst value w with
  | error e =>
    simp only [Externals.answering, hcall] at h
    obtain ⟨rfl, rfl⟩ := Prod.mk.inj (Except.ok.inj h)
    exact .inr ⟨rfl, rfl⟩
  | ok p =>
    simp only [Externals.answering, hcall] at h
    obtain rfl := Except.ok.inj h
    obtain ⟨-, hle, rfl, rfl⟩ := Externals.erc20_transferFrom_ok_iff.1 hcall
    exact .inl ⟨rfl, hle, by simp [TokenViews.erc20]⟩

def Deployment.answering : Deployment (Address → Erc20) :=
  { Deployment.sample.toImmutables with ext := .answering }

/-- Everybody holds 100, and has approved everybody but for the vault. -/
def unapprovedVault : Address → Erc20 := fun _ =>
  { balances := fun _ => 100, allowances := fun owner _ => if owner = .ofNat 4 then 0 else 100 }

/-- A staked claim where the vault has approved the controller. -/
theorem claimRewards_pays_staked :
    let σ := System.run .answering .erc20 (.fresh 0 System.erc20.staked.world) sampleEmission
    RevertsOrPays .answering .erc20 (.erc20 (.ofNat 2)) ⟨.ofNat 10, 2, 200, sampleHolder_ne⟩ .v2 [.ofNat 7] 30
      (.ofNat 11) true σ := by
  intro σ
  refine (claimRewards_pays_iff .answering .erc20 (.answering (.ofNat 2)) 0 System.erc20.staked.world sampleEmission
    ⟨.ofNat 10, 2, 200, sampleHolder_ne⟩ .v2 [.ofNat 7] 30 (.ofNat 11) true (by decide)).2 fun hrefused => ?_
  obtain ⟨-, w, hcall, -⟩ := hrefused.refused
  have hanswer : ((Deployment.answering.ext.transferFrom (.ofNat 2) (.ofNat 6) (.ofNat 4)
      (paidTo .erc20 (.ofNat 11) true)
      (payment .erc20 (debited .erc20 ⟨.ofNat 10, 2, 200, sampleHolder_ne⟩ [.ofNat 7] 30 σ) true)
      σ.staked.world).map (·.1)) = .ok (some true) := by decide +kernel
  obtain ⟨⟨_, w'⟩, hcall', rfl⟩ := Outcome.map_ok_iff.1 hanswer
  exact absurd (Except.ok.inj (hcall.symm.trans hcall')) (by simp)

/-- Where the vault has approved nobody: the caller's rewards are lowered
from 50 to 20, in either branch, and the vault still holds what it did. -/
theorem claimRewards_unpaid :
    let σ := System.run .answering .erc20 (.fresh 0 unapprovedVault) sampleEmission
    let m : Msg := ⟨.ofNat 10, 2, 200, sampleHolder_ne⟩
    ExactTransferFrom Externals.answering (.ofNat 2) (.erc20 (.ofNat 2)) ∧
      ∀ stake,
        ((IncentivesController.claimRewards .answering .erc20 m .v2 [.ofNat 7] 30 (.ofNat 11) stake σ).map fun p =>
          (newlyAccrued .erc20 m [.ofNat 7] 30 σ, p.2.usersUnclaimedRewards (.ofNat 10),
            (p.2.staked.world (.ofNat 2)).balances (.ofNat 4))) = .ok (50, 20, 100) ∧
        ¬ RevertsOrPays .answering .erc20 (.erc20 (.ofNat 2)) m .v2 [.ofNat 7] 30 (.ofNat 11) stake σ := by
  intro σ m
  have hbooked : ∀ stake,
      ((IncentivesController.claimRewards .answering .erc20 m .v2 [.ofNat 7] 30 (.ofNat 11) stake σ).map fun p =>
        (newlyAccrued .erc20 m [.ofNat 7] 30 σ, p.2.usersUnclaimedRewards (.ofNat 10),
          (p.2.staked.world (.ofNat 2)).balances (.ofNat 4))) = .ok (50, 20, 100) := by decide +kernel
  have hanswer : ∀ stake, ((Deployment.answering.ext.transferFrom (.ofNat 2) (.ofNat 6) (.ofNat 4)
      (paidTo .erc20 (.ofNat 11) stake) (payment .erc20 (debited .erc20 m [.ofNat 7] 30 σ) stake)
      σ.staked.world).map (·.1)) = .ok (some false) := by decide +kernel
  have hother : ∀ stake, paidTo .erc20 (.ofNat 11) stake ≠ IncentivesDeployment.erc20.REWARDS_VAULT := by decide
  refine ⟨.answering (.ofNat 2), fun stake => ⟨hbooked stake, ?_⟩⟩
  obtain ⟨⟨n, σ'⟩, hclaim, -⟩ := Outcome.map_ok_iff.1 (hbooked stake)
  obtain ⟨⟨_, w⟩, hcall, rfl⟩ := Outcome.map_ok_iff.1 (hanswer stake)
  exact not_pays_of_refused (.answering (.ofNat 2))
    (refused_of_false (by decide +kernel) hclaim hcall fun hself => hother stake hself.1)

end StarlayStake
