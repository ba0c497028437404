/-
Tokens that call back. `stake`, `redeem` and `claimRewards` each call a token,
which may call the staking token again, any of its entry points and as often
as it likes, or have others call it, before it answers or fails; a token with
hooks for its senders and receivers does. The governance hook is trusted not
to, and so is a proxied view.

So the three are written once more, with their call to the token in its place
(`stakeBody`, `redeemBody`, `claimRewardsBody`): when it is answered, they go
on in the storage that there is then. With a token that does not call back
they do what they did (`answered_body`). In each the call to the token is the
last thing that is done (`last_body`). So whatever tokens do, every storage
that there ever is, also while calls wait for a token, is one that calls made
one after the other lead to (`callbacks_sequential`), and supply and power are
always exact (`callbacks_power`).
-/
import StarlayStake.Lib.Reentrancy
import StarlayStake.Holdings

namespace StarlayStake

open Reentrancy (Body)
open StakedToken

variable {W : Type}

/-! ## Calls with their call to a token in its place -/

/-- A call to a token. -/
inductive TokenTransfer
  | transferFrom (token src dst : Address) (value : Nat)
  | transfer (token dst : Address) (value : Nat)

/-- A token that does not call back. -/
def TokenTransfer.make (D : Deployment W) (t : TokenTransfer) (s : State W) : Except String (State W) :=
  match t with
  | .transferFrom token src dst value => do
    let world ← SafeERC20.safeTransferFrom D.ext token D.self src dst value s.world
    return { s with world }
  | .transfer token dst value => do
    let world ← SafeERC20.safeTransfer D.ext token D.self dst value s.world
    return { s with world }

namespace StakedToken

variable (D : Deployment W) (m : Msg)

/-- `stake` -/
def stakeBody (v : Version) (onBehalfOf : Address) (amount : Nat) (s : State W) :
    Body TokenTransfer (State W) String (State W) := do
  require (amount ≠ 0) "INVALID_ZERO_AMOUNT"
  let balanceOfUser := s.balances onBehalfOf
  let updated ← DistributionManager.updateUserAssetInternal D.DISTRIBUTION_END m.timestamp onBehalfOf D.self
    balanceOfUser s.totalSupply s.assets
  let accruedRewards := updated.1
  let s := { s with assets := updated.2 }
  let rewards ← (if accruedRewards ≠ 0 then SafeMath.add (s.stakerRewardsToClaim onBehalfOf) accruedRewards
    else .ok (s.stakerRewardsToClaim onBehalfOf) : Except String Nat)
  let s := { s with stakerRewardsToClaim := Function.update s.stakerRewardsToClaim onBehalfOf rewards }
  let cooldown ← getNextCooldownTimestamp D m 0 amount onBehalfOf balanceOfUser s
  let s := { s with stakersCooldowns := Function.update s.stakersCooldowns onBehalfOf cooldown }
  let s ← mint D m v onBehalfOf amount s
  .ask (.transferFrom D.STAKED_TOKEN m.sender D.self amount) s

/-- `redeem` -/
def redeemBody (v : Version) (dst : Address) (amount : Nat) (s : State W) :
    Body TokenTransfer (State W) String (State W) := do
  require (amount ≠ 0) "INVALID_ZERO_AMOUNT"
  let cooldownStartTimestamp := s.stakersCooldowns m.sender
  let cooldownEnd ← SafeMath.add cooldownStartTimestamp D.COOLDOWN_SECONDS
  require (m.timestamp > cooldownEnd) "INSUFFICIENT_COOLDOWN"
  let elapsed ← SafeMath.sub m.timestamp cooldownEnd
  require (elapsed ≤ D.UNSTAKE_WINDOW) "UNSTAKE_WINDOW_FINISHED"
  let balanceOfMessageSender := s.balances m.sender
  let amountToRedeem := if amount > balanceOfMessageSender then balanceOfMessageSender else amount
  let settled ← updateCurrentUnclaimedRewards D m m.sender balanceOfMessageSender true s
  let s ← burn D m v m.sender amountToRedeem settled.2
  let balanceLeft ← SafeMath.sub balanceOfMessageSender amountToRedeem
  let s := if balanceLeft = 0 then
      { s with stakersCooldowns := Function.update s.stakersCooldowns m.sender 0 } else s
  .ask (.transfer D.STAKED_TOKEN dst amountToRedeem) s

/-- `claimRewards` -/
def claimRewardsBody (dst : Address) (amount : Nat) (s : State W) :
    Body TokenTransfer (State W) String (Nat × State W) := do
  let settled ← updateCurrentUnclaimedRewards D m m.sender (s.balances m.sender) false s
  let newTotalRewards := settled.1
  let s := settled.2
  let amountToClaim := if amount = uint256Max then newTotalRewards else amount
  let rewardsLeft ← SafeMath.subMsg newTotalRewards amountToClaim "INVALID_AMOUNT"
  let s := { s with stakerRewardsToClaim := Function.update s.stakerRewardsToClaim m.sender rewardsLeft }
  let s ← .ask (.transferFrom D.REWARD_TOKEN D.REWARDS_VAULT dst amountToClaim) s
  return (amountToClaim, s)

end StakedToken

/-- A transaction, with its call to a token, if it makes one, in its place. -/
def Tx.body (D : Deployment W) (x : Tx) (s : State W) : Body TokenTransfer (State W) String (State W) :=
  match x.call with
  | .stake onBehalfOf amount => stakeBody D x.msg x.version onBehalfOf amount s
  | .redeem dst amount => redeemBody D x.msg x.version dst amount s
  | .claimRewards dst amount => do
    let claimed ← claimRewardsBody D x.msg dst amount s
    return claimed.2
  | _ => liftM (exec D x s)

/-- The deployment with tokens that answer, and do nothing. -/
def Deployment.quiet (D : Deployment W) : Deployment W :=
  { D with
    ext := { D.ext with
      isContract := fun _ _ => true
      transfer := fun _ _ _ _ w => .ok (some true, w)
      transferFrom := fun _ _ _ _ _ w => .ok (some true, w) } }

section

variable {D : Deployment W} {m : Msg} {v : Version} {x : Tx} {s s' : State W} {k : TokenTransfer} {w w' : W}
  {dst : Address} {amount : Nat}

theorem answered_stakeBody : (stakeBody D m v dst amount s).answered (·.make D) = stake D m v dst amount s := by
  simp only [stakeBody, Body.answered_bind, Body.answered_liftM, Body.answered_ask]
  rfl

theorem answered_redeemBody : (redeemBody D m v dst amount s).answered (·.make D) = redeem D m v dst amount s := by
  simp only [redeemBody, Body.answered_bind, Body.answered_liftM, Body.answered_ask]
  rfl

theorem answered_claimRewardsBody :
    (claimRewardsBody D m dst amount s).answered (·.make D) = claimRewards D m dst amount s := by
  simp only [claimRewardsBody, claimRewards, Body.answered_bind, Body.answered_liftM, Body.answered_ask,
    Body.answered_pure, TokenTransfer.make, bind_assoc]
  rfl

/-- With tokens that do not call back, calls do what they do. -/
theorem answered_body (x : Tx) (s : State W) : (x.body D s).answered (·.make D) = exec D x s := by
  obtain ⟨v, m, c⟩ := x
  cases c with
  | stake onBehalfOf amount => exact answered_stakeBody
  | redeem dst amount => exact answered_redeemBody
  | claimRewards dst amount =>
    show (claimRewardsBody D m dst amount s >>= fun claimed => pure claimed.2).answered _ = _
    rw [Body.answered_bind, answered_claimRewardsBody]
    rfl
  | _ => exact Body.answered_liftM _

/-- **The call to a token is the last thing that a call does.** -/
theorem last_body (x : Tx) (s : State W) : (x.body D s).Last := by
  obtain ⟨v, m, c⟩ := x
  cases c with
  | stake onBehalfOf amount =>
    exact Body.waits_liftM_bind fun _ => Body.waits_liftM_bind fun _ => Body.waits_liftM_bind fun _ =>
      Body.waits_liftM_bind fun _ => Body.waits_liftM_bind fun _ => Body.last_ask _ _
  | redeem dst amount =>
    exact Body.waits_liftM_bind fun _ => Body.waits_liftM_bind fun _ => Body.waits_liftM_bind fun _ =>
      Body.waits_liftM_bind fun _ => Body.waits_liftM_bind fun _ => Body.waits_liftM_bind fun _ =>
      Body.waits_liftM_bind fun _ => Body.waits_liftM_bind fun _ => Body.last_ask _ _
  | claimRewards dst amount =>
    show (claimRewardsBody D m dst amount s >>= fun claimed => pure claimed.2).Last
    simp only [claimRewardsBody, bind_assoc, pure_bind]
    exact Body.waits_liftM_bind fun _ => Body.waits_liftM_bind fun _ => Body.waits_ask_bind fun _ => rfl
  | _ => exact Body.waits_liftM _

theorem safeTransferFrom_quiet {token sender src dst : Address} {value : Nat} :
    SafeERC20.safeTransferFrom D.quiet.ext token sender src dst value w = .ok w' ↔ w' = w := by
  rw [SafeERC20.safeTransferFrom, SafeERC20.callOptionalReturn_ok_iff]
  simp [Deployment.quiet, eq_comm]

theorem safeTransfer_quiet {token sender dst : Address} {value : Nat} :
    SafeERC20.safeTransfer D.quiet.ext token sender dst value w = .ok w' ↔ w' = w := by
  rw [SafeERC20.safeTransfer, SafeERC20.callOptionalReturn_ok_iff]
  simp [Deployment.quiet, eq_comm]

theorem make_quiet (k : TokenTransfer) (s : State W) : k.make D.quiet s = .ok s := by
  cases k <;> rfl

/-- Up to its call to a token, a call does what it does with one that does nothing. -/
theorem upTo_body (x : Tx) (s : State W) : (x.body D s).upTo = exec D.quiet x s := by
  have hquiet : x.body D s = x.body D.quiet s := by
    obtain ⟨v, m, c⟩ := x
    cases c <;> rfl
  have hmake : (fun (k : TokenTransfer) (s : State W) => k.make D.quiet s) = fun _ s => .ok s := by
    funext k s
    exact make_quiet k s
  rw [← (last_body x s).answered, hquiet, ← hmake, answered_body]

end

/-! ## Sessions -/

/-- The staking token, as a contract that waits for tokens. -/
def waiting (D : Deployment W) : Reentrancy.Contract (State W) Tx TokenTransfer W String :=
  { body := Tx.body D
    outside := fun world s => { s with world } }

/-- What happens while calls wait: the world changes, calls are made, and
answered or undone. -/
abbrev Moves (W : Type) : Type := List (Reentrancy.Move Tx W)

/-- The storage, and the calls that wait, after all that happened. -/
def session (D : Deployment W) (s : State W) (l : Moves W) : Reentrancy.Session TokenTransfer (State W) String :=
  (waiting D).session s l

theorem tail (D : Deployment W) : (waiting D).Tail := last_body

/-- A call whose token does nothing, or a change of the world. -/
def alone (D : Deployment W) (e : Tx ⊕ W) (s : State W) : Except String (State W) :=
  match e with
  | .inl x => exec D.quiet x s
  | .inr world => .ok { s with world }

section

variable {D : Deployment W} {x : Tx} {s s' : State W} {k : TokenTransfer} {l : Moves W}

theorem plain_eq (D : Deployment W) : (waiting D).plain = alone D := by
  funext e s
  cases e with
  | inl x => exact upTo_body x s
  | inr world => rfl

/-- All that a token does by itself is to the world. -/
theorem make_outside (h : k.make D s = .ok s') : ∃ w, s' = { s with world := w } := by
  cases k with
  | transferFrom token src dst value =>
    obtain ⟨w, -, h⟩ := Outcome.bind_ok_iff.1 h
    exact ⟨w, (Except.ok.inj h).symm⟩
  | transfer token dst value =>
    obtain ⟨w, -, h⟩ := Outcome.bind_ok_iff.1 h
    exact ⟨w, (Except.ok.inj h).symm⟩

/-- A call whose token does not call back. -/
theorem session_of_exec (h : exec D x s = .ok s') : ∃ l : Moves W, session D s l = { state := s', pending := [] } :=
  Reentrancy.Contract.session_of_answered (C := waiting D) (·.make D) (fun _ _ _ => make_outside)
    ((answered_body x s).trans h)

end

/-- **Callbacks do nothing that calls could not do.** Calls with their call to
a token in its place do what they do where it does not call back; and where
they hand over to it, they have done all that they do. So whatever tokens do
while calls wait for them, to the world, by calling back at any depth and by
failing in the end: the storage, at every moment and so also inside a callback,
is one that calls which were made lead to one after the other, with tokens that
do nothing, where in between the world changes. -/
theorem callbacks_sequential (D : Deployment W) :
    (∀ x s, (x.body D s).answered (·.make D) = exec D x s) ∧
    (∀ x s k s₁ rest, x.body D s = .handOver k s₁ rest → exec D.quiet x s = .ok s₁ ∧ ∀ s', rest s' = .done s') ∧
    ∀ s (l : Moves W), ∃ e : List (Tx ⊕ W), (∀ x, .inl x ∈ e → .enter x ∈ l) ∧
      Runs.transact (alone D) s e = .ok (session D s l).state := by
  refine ⟨answered_body, fun x s k s₁ rest h => ?_, fun s l => ?_⟩
  · have hlast := last_body (D := D) x s
    rw [← upTo_body, h]
    rw [h] at hlast
    exact ⟨rfl, hlast⟩
  · obtain ⟨e, he, hs⟩ := Reentrancy.Contract.exists_sequential (tail D) s l
    exact ⟨e, he, plain_eq D ▸ hs⟩

/-- A stake hands over to the staked token, when all is staked. -/
theorem callbacks_sequential_stake :
    let holder : Msg := ⟨.ofNat 10, 2, 201, sampleHolder_ne⟩
    let x : Tx := ⟨.v2, holder, .stake (.ofNat 10) 7⟩
    ∃ s₁ rest, x.body .sample (.fresh 0 ()) =
        .handOver (.transferFrom Deployment.sample.STAKED_TOKEN (.ofNat 10) Deployment.sample.self 7) s₁ rest ∧
      s₁.balances (.ofNat 10) = 7 ∧ ∀ s', rest s' = .done s' := by
  intro holder x
  refine ⟨_, _, rfl, by decide +kernel, ?_⟩
  exact ((callbacks_sequential .sample).2.1 x (.fresh 0 ()) _ _ _ rfl).2

/-- What holds of a storage whatever the world, and calls with tokens that do
nothing keep, holds at every moment. -/
theorem session_invariant {D : Deployment W} {I P : State W → Prop} {Q : Tx → State W → Prop} {s : State W}
    {l : Moves W} (hcall : ∀ x s s', Q x s → P s' → I s → exec D.quiet x s = .ok s' → I s')
    (hworld : ∀ (w : W) s, I s → I { s with world := w }) (h0 : I s)
    (hQ : ∀ q x, q ++ [.enter x] <+: l → Q x (session D s q).state)
    (hP : ∀ q, q <+: l → P (session D s q).state) : I (session D s l).state := by
  refine Reentrancy.Contract.invariant_tail (R := fun _ _ => True) (tail D) (fun x s s' hQ hP hI h => ?_)
    (fun w s _ => hworld w s) h0 hQ (fun _ _ _ => trivial) hP
  rw [plain_eq] at h
  exact hcall x s s' hQ hP hI h

/-- **Power stays exact under callbacks.** Where version 2 is called, back or
not, and the supply stays below 2^128: at every moment, and so also inside a
callback, the supply is what all hold together, the power of an account is the
sum of the balances of those whose delegatee it is, and the powers make up the
supply. -/
theorem callbacks_power {D : Deployment W} {g : Address} {w : W} {l : Moves W}
    (hv : ∀ x, .enter x ∈ l → x.version = .v2)
    (hsupply : ∀ q, q <+: l → (session D (.fresh g w) q).state.totalSupply < 2 ^ 128) :
    let s := (session D (.fresh g w) l).state
    Ledger.total s.balances = s.totalSupply ∧
    ∀ t, (∀ a, lastPower s.balances (s.power t) a = ∑ d with getDelegateeByType d t s = a, s.balances d) ∧
      ∑ a, lastPower s.balances (s.power t) a = s.totalSupply := by
  intro s
  have hinv : PowerInv s := session_invariant (P := fun s => s.totalSupply < 2 ^ 128)
    (fun x s s' hv hbound hI h => hI.step hv hbound h) (fun w s hI => ⟨hI.supply, hI.power⟩)
    (PowerInvV1.fresh g w).toPowerInv (Q := fun x _ => x.version = .v2)
    (fun q x hq => hv x (hq.subset (by simp))) hsupply
  refine ⟨hinv.supply, fun t => ⟨fun a => ?_, hinv.sum_power t⟩⟩
  rw [(hinv.power t).lastPower_eq_share a, Ledger.share_def]
  rfl

/-- A stake whose token has the staker delegate, and stake for another under a
token that fails, before it answers. -/
theorem callbacks_power_nested :
    let holder : Msg := ⟨.ofNat 10, 2, 201, sampleHolder_ne⟩
    let l : Moves Unit := [.enter ⟨.v2, holder, .stake (.ofNat 10) 7⟩, .enter ⟨.v2, holder, .delegate (.ofNat 11)⟩,
      .enter ⟨.v2, holder, .stake (.ofNat 12) 3⟩, .undo]
    let s := (session .sample (.fresh 0 ()) l).state
    (session .sample (.fresh 0 ()) l).pending.length = 1 ∧ s.totalSupply = 7 ∧
      lastPower s.balances (s.power .VOTING_POWER) (.ofNat 11) = 7 ∧ Ledger.total s.balances = s.totalSupply := by
  intro holder l s
  have hv : ∀ x, .enter x ∈ l → x.version = .v2 := by simp [l]
  have hsupply : ∀ q, q <+: l → (session .sample (.fresh 0 ()) q).state.totalSupply < 2 ^ 128 := by
    simp only [← List.mem_inits]
    decide +kernel
  have hpower := callbacks_power hv hsupply
  exact ⟨by decide +kernel, by decide +kernel, by decide +kernel, hpower.1⟩

/-- **Callbacks take nothing from others.** Where nothing that is called, back
or not, is sent by an account or carries a message it signed: at every moment
its balance has fallen by no more than the allowances it gave, which have not
risen; its nonce and its delegatees are what they were, no cooldown of its was
started, and its rewards to claim have not fallen. -/
theorem callbacks_take_nothing {D : Deployment W} {s : State W} {l : Moves W} {u : Address}
    (hsent : ∀ x, .enter x ∈ l → x.msg.sender ≠ u)
    (hsigned : ∀ q x, q ++ [.enter x] <+: l → ∀ message signature,
      x.signed (session D s q).state = some (message, signature) → D.ext.recover message signature ≠ .ok u) :
    let s' := (session D s l).state
    s.balances u ≤ s'.balances u + ∑ spender, (s.allowances u spender - s'.allowances u spender) ∧
      (∀ spender, s'.allowances u spender ≤ s.allowances u spender) ∧ s'.nonces u = s.nonces u ∧
      (∀ t, (s'.power t).delegates u = (s.power t).delegates u) ∧
      (s.stakersCooldowns u = 0 → s'.stakersCooldowns u = 0) ∧ s.stakerRewardsToClaim u ≤ s'.stakerRewardsToClaim u := by
  intro s'
  have h : ∃ pulls received, Undisturbed u pulls received s s' := by
    refine session_invariant (I := fun s' => ∃ pulls received, Undisturbed u pulls received s s') (P := fun _ => True)
      (Q := fun x s => x.msg.sender ≠ u ∧ ∀ message signature, x.signed s = some (message, signature) →
        D.ext.recover message signature ≠ .ok u)
      (fun x s₁ s₂ hx _ hI hs => ?_) (fun w s₁ hI => ?_) ⟨[], 0, .refl u s⟩
      (fun q x hq => ⟨hsent x (hq.subset (by simp)), hsigned q x hq⟩) fun _ _ => trivial
    · obtain ⟨pulls, received, h⟩ := hI
      exact ⟨_, _, h.trans (undisturbed_of_exec (D := D.quiet) hx.1 hx.2 hs)⟩
    · obtain ⟨pulls, received, h⟩ := hI
      exact ⟨pulls, received, h.allowances, h.balance, h.nonce, h.delegatees, h.cooldown, h.rewards⟩
  obtain ⟨pulls, received, h⟩ := h
  have hpulled : pulled pulls = ∑ spender, (s.allowances u spender - s'.allowances u spender) := by
    rw [pulled_eq_sum]
    refine Finset.sum_congr rfl fun spender _ => ?_
    have hspender := h.allowances spender
    omega
  refine ⟨?_, fun spender => ?_, h.nonce, h.delegatees, h.cooldown, h.rewards⟩
  · have hbalance := h.balance
    omega
  · have hspender := h.allowances spender
    omega

/-- A spender pulls from a holder and stakes for it, and pulls again while the
token of the stake waits. -/
theorem callbacks_take_nothing_pulled :
    let holder : Msg := ⟨.ofNat 10, 2, 201, sampleHolder_ne⟩
    let other : Msg := ⟨.ofNat 11, 2, 201, sampleOther_ne⟩
    let s := run .sample (.fresh 0 ()) [⟨.v2, holder, .stake (.ofNat 10) 7⟩, ⟨.v2, holder, .approve (.ofNat 11) 5⟩]
    let l : Moves Unit := [.enter ⟨.v2, other, .transferFrom (.ofNat 10) (.ofNat 11) 3⟩,
      .enter ⟨.v2, other, .stake (.ofNat 10) 1⟩, .enter ⟨.v2, other, .transferFrom (.ofNat 10) (.ofNat 11) 3⟩,
      .enter ⟨.v2, other, .transferFrom (.ofNat 10) (.ofNat 11) 2⟩]
    let s' := (session .sample s l).state
    s'.balances (.ofNat 10) = 3 ∧
      s.balances (.ofNat 10) ≤ s'.balances (.ofNat 10) +
        ∑ spender, (s.allowances (.ofNat 10) spender - s'.allowances (.ofNat 10) spender) := by
  intro holder other s l s'
  have hcalls : ∀ x, Reentrancy.Move.enter x ∈ l → x.msg.sender ≠ .ofNat 10 ∧ ∀ s : State Unit, x.signed s = none := by
    intro x hx
    simp only [l, List.mem_cons, Reentrancy.Move.enter.injEq, List.not_mem_nil, or_false] at hx
    rcases hx with rfl | rfl | rfl | rfl <;> exact ⟨by decide, fun _ => rfl⟩
  have hsigned : ∀ q x, q ++ [.enter x] <+: l → ∀ message signature,
      x.signed (session .sample s q).state = some (message, signature) →
      Deployment.sample.ext.recover message signature ≠ .ok (.ofNat 10) := by
    intro q x hq message signature hx
    rw [(hcalls x (hq.subset (by simp))).2] at hx
    cases hx
  have hbalance : s'.balances (.ofNat 10) = 3 := by decide +kernel
  clear_value s
  exact ⟨hbalance, (callbacks_take_nothing (fun x hx => (hcalls x hx).1) hsigned).1⟩

end StarlayStake
