/-
The staking token as the ERC-20 it is, for those who know no more of it than
its balances, allowances and supply. Through every upgrade its calls come down
to the operations of a fungible token that they stand for (`refines_token`):
a stake mints, a redemption burns, and no other call makes or takes tokens.
So all that accounts hold and let others spend is accounted for
(`token_accounts`).
-/
import StarlayStake.Lib.FungibleToken
import StarlayStake.Upgrades

namespace StarlayStake

open FungibleToken (Op)
open StakedToken

variable {W : Type}

/-- What a storage has of a fungible token. -/
def State.toToken (s : State W) : FungibleToken.State Address :=
  { balances := s.balances, allowances := s.allowances, supply := s.totalSupply }

/-- What a call is to a fungible token. `s` is what it finds: a redemption is
cut down to what the redeemer has. -/
def Tx.tokenOps (x : Tx) (s : State W) : List (Op Address) :=
  match x.call with
  | .stake onBehalfOf amount => [.mint onBehalfOf amount]
  | .redeem _ amount => [.burn x.msg.sender (min amount (s.balances x.msg.sender))]
  | .transfer recipient amount => [.move x.msg.sender recipient amount]
  | .transferFrom sender recipient amount => [.move sender recipient amount, .spend sender x.msg.sender amount]
  | .approve spender amount => [.approve x.msg.sender spender amount]
  | .increaseAllowance spender addedValue => [.raise x.msg.sender spender addedValue]
  | .decreaseAllowance spender subtractedValue => [.lower x.msg.sender spender subtractedValue]
  | .permit owner spender value _ _ => [.approve owner spender value]
  | _ => []

/-- What a function that ran is; an `initialize` is nothing to it. -/
def Ran.tokenOps (r : Ran) (t _t' : TokenStorage W) : List (Op Address) :=
  match r.function with
  | .initializeToken _ => []
  | .call c => Tx.tokenOps ⟨r.implementation.contract.version, r.msg, c⟩ t.toState

/-- What a run is, in order. -/
def Network.tokenOps (N : Network W) (p : TokenProxy W) (l : List ProxyTx) : List (Op Address) :=
  Runs.trace N.apply Ran.tokenOps p.storage (N.ran p l)

section

variable {D : Deployment W} {m : Msg} {v : Version} {x : Tx} {s s' : State W} {src dst : Address} {amount : Nat}

theorem transact_one {o : Op Address} {s s' : FungibleToken.State Address} (h : FungibleToken.apply o s = .ok s') :
    Runs.transact FungibleToken.apply s [o] = .ok s' := Runs.transact_cons_ok_iff.2 ⟨_, h, rfl⟩

theorem toToken_transfer (h : transfer D m v src dst amount s = .ok s') :
    FungibleToken.apply (.move src dst amount) s.toToken = .ok s'.toToken := by
  have hallowances := (transfer_aside h).1
  by_cases heq : src = dst
  · subst heq
    obtain ⟨-, ha, -, r, assets, p, w, -, -, -, -, rfl⟩ := transfer_self_ok_iff.1 h
    exact FungibleToken.ite_ok_iff.2 ⟨ha, rfl⟩
  · obtain ⟨-, -, ha, -, r, assets, r', assets', c, p, w, -, -, -, -, -, -, -, rfl⟩ := (transfer_ok_iff heq).1 h
    exact FungibleToken.ite_ok_iff.2 ⟨ha, rfl⟩

/-- A successful call is the operations it stands for. -/
theorem toToken_exec (h : exec D x s = .ok s') :
    Runs.transact FungibleToken.apply s.toToken (x.tokenOps s) = .ok s'.toToken := by
  obtain ⟨v, m, c⟩ := x
  cases c with
  | stake onBehalfOf amount =>
    obtain ⟨-, -, -, -, r, assets, c, p, w, w', -, -, -, -, -, -, rfl⟩ := stake_ok_iff.1 h
    exact transact_one rfl
  | redeem dst amount =>
    obtain ⟨-, -, -, -, -, r, assets, p, w, w', -, -, -, -, -, rfl⟩ := redeem_ok_iff.1 h
    exact transact_one (FungibleToken.ite_ok_iff.2 ⟨Nat.min_le_right _ _, rfl⟩)
  | cooldown =>
    obtain ⟨-, rfl⟩ := cooldown_ok_iff.1 h
    rfl
  | claimRewards dst amount =>
    obtain ⟨n, h⟩ := exec_claimRewards_ok_iff.1 h
    obtain ⟨r, assets, w, -, -, -, -, -, rfl⟩ := claimRewards_ok_iff.1 h
    rfl
  | transfer recipient amount => exact transact_one (toToken_transfer h)
  | transferFrom sender recipient amount =>
    obtain ⟨s₁, h₁, ha, -, rfl⟩ := transferFrom_ok_iff.1 h
    exact Runs.transact_cons_ok_iff.2 ⟨s₁.toToken, toToken_transfer h₁, transact_one (FungibleToken.ite_ok_iff.2 ⟨ha, rfl⟩)⟩
  | approve spender amount =>
    obtain ⟨-, -, rfl⟩ := approve_ok_iff.1 h
    exact transact_one rfl
  | increaseAllowance spender addedValue =>
    obtain ⟨value, hvalue, h⟩ := Outcome.bind_ok_iff.1 h
    obtain ⟨-, rfl⟩ := SafeMath.add_ok_iff.1 hvalue
    obtain ⟨-, -, rfl⟩ := approve_ok_iff.1 h
    exact transact_one rfl
  | decreaseAllowance spender subtractedValue =>
    obtain ⟨value, hvalue, h⟩ := Outcome.bind_ok_iff.1 h
    obtain ⟨hle, rfl⟩ := SafeMath.subMsg_ok_iff.1 hvalue
    obtain ⟨-, -, rfl⟩ := approve_ok_iff.1 h
    exact transact_one (FungibleToken.ite_ok_iff.2 ⟨hle, rfl⟩)
  | configureAssets inputs =>
    obtain ⟨-, assets, -, rfl⟩ := configureAssets_ok_iff.1 h
    rfl
  | permit owner spender value deadline signature =>
    cases v with
    | v1 => cases h
    | v2 =>
      obtain ⟨-, -, -, -, -, rfl⟩ := permit_ok_iff.1 h
      exact transact_one rfl
  | delegate y =>
    cases v with
    | v1 => cases h
    | v2 =>
      obtain ⟨-, p, -, rfl⟩ := delegate_ok_iff.1 h
      rfl
  | delegateByType y t =>
    cases v with
    | v1 => cases h
    | v2 =>
      obtain ⟨-, p, -, rfl⟩ := delegateByType_ok_iff.1 h
      rfl
  | delegateBySig y nonce expiry signature =>
    cases v with
    | v1 => cases h
    | v2 =>
      obtain ⟨signer, -, -, -, -, s₁, h₁, rfl⟩ := delegateBySig_ok_iff.1 h
      obtain ⟨-, p, -, rfl⟩ := delegate_ok_iff.1 h₁
      rfl
  | delegateByTypeBySig y t nonce expiry signature =>
    cases v with
    | v1 => cases h
    | v2 =>
      obtain ⟨signer, -, -, -, -, s₁, h₁, rfl⟩ := delegateByTypeBySig_ok_iff.1 h
      obtain ⟨-, p, -, rfl⟩ := delegateByType_ok_iff.1 h₁
      rfl

theorem toToken_apply {N : Network W} {r : Ran} {t t' : TokenStorage W} (h : N.apply r t = .ok t') :
    Runs.transact FungibleToken.apply t.toState.toToken (r.tokenOps t t') = .ok t'.toState.toToken := by
  rcases state_of_apply h with ⟨args, governance, hf, hstate⟩ | ⟨c, hf, hs⟩
  · simp only [Ran.tokenOps, hf]
    rw [hstate]
    rfl
  · simp only [Ran.tokenOps, hf]
    exact toToken_exec hs

/-- What a run leaves of the token is what the operations make of it. -/
theorem toToken_run (N : Network W) (p : TokenProxy W) (l : List ProxyTx) :
    Runs.transact FungibleToken.apply p.storage.toState.toToken (N.tokenOps p l) =
      .ok (Proxy.run N.chain p l).storage.toState.toToken := by
  have hrun : Runs.run N.apply p.storage (N.ran p l) = (Proxy.run N.chain p l).storage := Runs.run_of_transact (ran_ok p l)
  rw [← hrun]
  refine Runs.transact_trace (fun t : TokenStorage W => t.toState.toToken) (fun r t t' h => ?_) p.storage (N.ran p l)
  exact toToken_apply h

end

/-- **The token is a fungible token, through every upgrade.** From a storage
whose balances make up the supply, as a new one's do, whatever is called,
set up and upgraded: what is left is what the operations that the successful
calls stand for make of it. Balances make up the supply still; the supply is
what it was with what was minted and without what was burned, every balance
with what the account was given and without what was taken from it; and what a
spender can spend of an owner's, with what it spent, is within what it could
and what the owner granted since. -/
theorem token_accounts {N : Network W} {p : TokenProxy W} {l : List ProxyTx}
    (hsupply : Ledger.total p.storage.balances = p.storage.totalSupply) :
    let s := p.storage.toState
    let s' := (Proxy.run N.chain p l).storage.toState
    let ops := N.tokenOps p l
    Runs.transact FungibleToken.apply s.toToken ops = .ok s'.toToken ∧
      Ledger.total s'.balances = s'.totalSupply ∧
      s'.totalSupply + (ops.map Op.burned).sum = s.totalSupply + (ops.map Op.minted).sum ∧
      (∀ a, s'.balances a + (ops.map (Op.outgoing a)).sum = s.balances a + (ops.map (Op.incoming a)).sum) ∧
      ∀ owner spender, s'.allowances owner spender + (ops.map (Op.spent owner spender)).sum ≤
        s.allowances owner spender + (ops.map (Op.granted owner spender)).sum := by
  intro s s' ops
  have hrun := toToken_run N p l
  have haccounts := FungibleToken.accounts hsupply hrun
  exact ⟨hrun, haccounts.total, haccounts.supply, haccounts.balances, haccounts.allowances⟩

/-- A holder stakes, lets another spend and is spent from, more than once and
at last in vain, across an upgrade. -/
theorem token_accounts_spent :
    let admin : Msg := ⟨.ofNat 7, 1, 200, by decide⟩
    let holder : Msg := ⟨.ofNat 10, 2, 201, sampleHolder_ne⟩
    let other : Msg := ⟨.ofNat 11, 3, 202, sampleOther_ne⟩
    let p : TokenProxy Unit := Proxy.deployed (.fresh ())
    let l : List ProxyTx := [
      ⟨admin, .initializeAdmin (.ofNat 20) (.ofNat 7) (.function (.initializeToken (.withGovernance 0 [] [] 18)))⟩,
      ⟨holder, (Call.stake (.ofNat 10) 7).data⟩, ⟨holder, (Call.approve (.ofNat 11) 5).data⟩,
      ⟨other, (Call.transferFrom (.ofNat 10) (.ofNat 12) 3).data⟩,
      ⟨admin, .upgradeToAndCall (.ofNat 21) (.function (.initializeToken .bare))⟩,
      ⟨holder, (Call.increaseAllowance (.ofNat 11) 1).data⟩,
      ⟨other, (Call.transferFrom (.ofNat 10) (.ofNat 12) 3).data⟩,
      ⟨other, (Call.transferFrom (.ofNat 10) (.ofNat 12) 1).data⟩]
    let ops := Network.sample.tokenOps p l
    let s' := (Proxy.run Network.sample.chain p l).storage.toState
    (ops.map (Op.granted (.ofNat 10) (.ofNat 11))).sum = 6 ∧ (ops.map (Op.spent (.ofNat 10) (.ofNat 11))).sum = 6 ∧
      s'.balances (.ofNat 10) + (ops.map (Op.outgoing (.ofNat 10))).sum =
        p.storage.balances (.ofNat 10) + (ops.map (Op.incoming (.ofNat 10))).sum := by
  intro admin holder other p l ops s'
  have hsupply : Ledger.total p.storage.balances = p.storage.totalSupply := by
    rw [Ledger.total_def]
    exact Finset.sum_const_zero
  have hgranted : (ops.map (Op.granted (.ofNat 10) (.ofNat 11))).sum = 6 := by decide +kernel
  have hspent : (ops.map (Op.spent (.ofNat 10) (.ofNat 11))).sum = 6 := by decide +kernel
  have haccounts := token_accounts (N := .sample) (l := l) hsupply
  clear_value l
  exact ⟨hgranted, hspent, haccounts.2.2.2.1 (.ofNat 10)⟩

end StarlayStake
