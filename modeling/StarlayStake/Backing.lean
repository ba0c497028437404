/-
One-to-one backing: the staking token never owes more than it holds.

The staked token is assumed to be a plain ERC-20 (`PlainToken`): it moves
exact amounts, and takes from an account only by its own call or its
allowance. The staking contract never approves anybody, so the only thing
that takes from its balance is its own `transfer`, on a redemption, and
that pays out what was burned. Everything else anybody does, the incentives
controller and the claims of rewards in the same token included, leaves the
balance at least as it was (`Untouched`).
-/
import StarlayStake.IncentivesController
import StarlayStake.Power

namespace StarlayStake

open Ledger (credit debit total)
open StakedToken

variable {W : Type} {D : Deployment W} {C : IncentivesDeployment W}

/-! ## The token -/

/-- What a token answers about itself. -/
structure TokenViews (W : Type) where
  balanceOf : W → Address → Nat
  allowance : W → Address → Address → Nat

/-- From `w` to `w'`, an account that has approved nobody lost nothing and
approved nobody. -/
def Untouched (tok : TokenViews W) (holder : Address) (w w' : W) : Prop :=
  (∀ spender, tok.allowance w holder spender = 0) →
    tok.balanceOf w holder ≤ tok.balanceOf w' holder ∧ ∀ spender, tok.allowance w' holder spender = 0

/-- The balances of a token after it moved `value`. -/
def TokenViews.Moved (tok : TokenViews W) (w w' : W) (src dst : Address) (value : Nat) : Prop :=
  value ≤ tok.balanceOf w src ∧ tok.balanceOf w' = credit (debit (tok.balanceOf w) src value) dst value

/-- A plain ERC-20: no fees, no callbacks, exact amounts. `transfer` moves
the caller's tokens and `transferFrom` what the caller is allowed, also of its
own, or the call answers `false` and moves nothing; and calls to other tokens
and the governance hook leave the account `holder` alone. -/
structure PlainToken (ext : Externals W) (token holder : Address) (tok : TokenViews W) : Prop where
  transfer : ∀ {sender dst value w r w'}, ext.transfer token sender dst value w = .ok (r, w') →
    tok.allowance w' = tok.allowance w ∧
      (r = some false ∧ tok.balanceOf w' = tok.balanceOf w ∨ tok.Moved w w' sender dst value)
  transferFrom : ∀ {sender src dst value w r w'}, ext.transferFrom token sender src dst value w = .ok (r, w') →
    (∀ owner spender, tok.allowance w' owner spender ≤ tok.allowance w owner spender) ∧
      (r = some false ∧ tok.balanceOf w' = tok.balanceOf w ∨
        value ≤ tok.allowance w src sender ∧ tok.Moved w w' src dst value)
  otherTransferFrom : ∀ {token' sender src dst value w r w'}, token' ≠ token →
    ext.transferFrom token' sender src dst value w = .ok (r, w') → Untouched tok holder w w'
  onTransfer : ∀ {governance src dst amount w w'}, ext.onTransfer governance src dst amount w = .ok w' →
    Untouched tok holder w w'

section

variable {tok : TokenViews W} {w w₁ w' : W} {holder token sender src dst : Address} {value : Nat}

theorem Untouched.refl (w : W) : Untouched tok holder w w := fun h => ⟨le_refl _, h⟩

/-- Moved tokens take from no account but the source. -/
theorem TokenViews.Moved.le (h : tok.Moved w w' src dst value) (hsrc : src ≠ holder ∨ value = 0) :
    tok.balanceOf w holder ≤ tok.balanceOf w' holder := by
  have hdebit : debit (tok.balanceOf w) src value holder = tok.balanceOf w holder := by
    rcases hsrc with hsrc | rfl
    · exact Ledger.debit_of_ne (Ne.symm hsrc)
    · unfold debit
      rw [Nat.sub_zero, Function.update_eq_self]
  rw [h.2]
  by_cases hd : dst = holder
  · subst hd; rw [Ledger.credit_self, hdebit]; exact Nat.le_add_right _ _
  · rw [Ledger.credit_of_ne (Ne.symm hd), hdebit]

variable (htoken : PlainToken D.ext D.STAKED_TOKEN D.self tok)
include htoken

/-- No `transferFrom`, of any token and by anybody, takes from the contract. -/
theorem untouched_of_transferFrom {r : Option Bool}
    (h : D.ext.transferFrom token sender src dst value w = .ok (r, w')) : Untouched tok D.self w w' := by
  by_cases ht : token = D.STAKED_TOKEN
  · subst ht
    intro hself
    obtain ⟨hallowance, hmoved⟩ := htoken.transferFrom h
    refine ⟨?_, fun spender => Nat.le_zero.1 ((hallowance D.self spender).trans_eq (hself spender))⟩
    rcases hmoved with ⟨-, heq⟩ | ⟨hle, hmoved⟩
    · rw [heq]
    · refine hmoved.le ?_
      by_cases hs : src = D.self
      · subst hs
        exact .inr (Nat.le_zero.1 (hle.trans_eq (hself sender)))
      · exact .inl hs
  · exact htoken.otherTransferFrom ht h

theorem untouched_of_notified {v : Version} {g : Address} (h : notified D v src dst value g w = .ok w') :
    Untouched tok D.self w w' := by
  unfold notified at h
  split at h
  · cases h; exact .refl _
  · exact htoken.onTransfer h

theorem safeTransferFrom_moved
    (h : SafeERC20.safeTransferFrom D.ext D.STAKED_TOKEN D.self src dst value w = .ok w') :
    tok.Moved w w' src dst value := by
  obtain ⟨-, r, h, hr⟩ := SafeERC20.callOptionalReturn_ok_iff.1 h
  rcases (htoken.transferFrom h).2 with ⟨hf, -⟩ | ⟨-, hmoved⟩
  · exact absurd hf hr
  · exact hmoved

theorem safeTransfer_moved (h : SafeERC20.safeTransfer D.ext D.STAKED_TOKEN D.self dst value w = .ok w') :
    tok.Moved w w' D.self dst value ∧ tok.allowance w' = tok.allowance w := by
  obtain ⟨-, r, h, hr⟩ := SafeERC20.callOptionalReturn_ok_iff.1 h
  obtain ⟨hallowance, ⟨hf, -⟩ | hmoved⟩ := htoken.transfer h
  · exact absurd hf hr
  · exact ⟨hmoved, hallowance⟩

theorem untouched_of_safeTransferFrom
    (h : SafeERC20.safeTransferFrom D.ext token sender src dst value w = .ok w') : Untouched tok D.self w w' := by
  obtain ⟨-, r, h, -⟩ := SafeERC20.callOptionalReturn_ok_iff.1 h
  exact untouched_of_transferFrom htoken h

theorem untouched_of_IERC20_transferFrom
    (h : IERC20.transferFrom D.ext token sender src dst value w = .ok w') : Untouched tok D.self w w' := by
  obtain ⟨-, b, h⟩ := IERC20.transferFrom_ok_iff.1 h
  exact untouched_of_transferFrom htoken h

end

/-! ## What each function books and moves -/

section

variable {tok : TokenViews W} {m : Msg} {v : Version} {s s' : State W} {dst : Address} {amount : Nat}

/-- A stake mints exactly what it pulls in, in the world the hook leaves. -/
theorem stake_exact (htoken : PlainToken D.ext D.STAKED_TOKEN D.self tok) (h : stake D m v dst amount s = .ok s') :
    s'.totalSupply = s.totalSupply + amount ∧ s'.balances = credit s.balances dst amount ∧
      ∃ w, notified D v 0 dst amount s.governance s.world = .ok w ∧ tok.Moved w s'.world m.sender D.self amount := by
  obtain ⟨-, -, -, -, r, assets, c, p, w, w', -, -, -, -, hw, hw', rfl⟩ := stake_ok_iff.1 h
  exact ⟨rfl, rfl, w, hw, safeTransferFrom_moved htoken hw'⟩

/-- A redemption burns exactly the amount, or the whole balance if that is
less, and pays exactly that. -/
theorem redeem_exact (htoken : PlainToken D.ext D.STAKED_TOKEN D.self tok) (h : redeem D m v dst amount s = .ok s') :
    s'.totalSupply + min amount (s.balances m.sender) = s.totalSupply ∧
      s'.balances = debit s.balances m.sender (min amount (s.balances m.sender)) ∧
      ∃ w, notified D v m.sender 0 (min amount (s.balances m.sender)) s.governance s.world = .ok w ∧
        tok.Moved w s'.world D.self dst (min amount (s.balances m.sender)) := by
  obtain ⟨-, -, -, -, hle, r, assets, p, w, w', -, -, -, hw, hw', rfl⟩ := redeem_ok_iff.1 h
  exact ⟨Nat.sub_add_cancel hle, rfl, w, hw, (safeTransfer_moved htoken hw').1⟩

end

/-! ## The invariant -/

/-- The supply is what all hold together, the contract holds it at least,
and nobody is approved to take from it. -/
structure Backed (D : Deployment W) (tok : TokenViews W) (s : State W) : Prop where
  supply : total s.balances = s.totalSupply
  backed : s.totalSupply ≤ tok.balanceOf s.world D.self
  unapproved : ∀ spender, tok.allowance s.world D.self spender = 0

section

variable {tok : TokenViews W} {x : Tx} {s s' : State W} {w : W}

theorem Backed.untouched (h : Backed D tok s) (hw : Untouched tok D.self s.world w) :
    s.totalSupply ≤ tok.balanceOf w D.self ∧ ∀ spender, tok.allowance w D.self spender = 0 :=
  ⟨h.backed.trans (hw h.unapproved).1, (hw h.unapproved).2⟩

variable (htoken : PlainToken D.ext D.STAKED_TOKEN D.self tok)
include htoken

/-- A successful call by anybody but the contract itself keeps the backing. -/
theorem Backed.step (h : Backed D tok s) (hsender : x.msg.sender ≠ D.self) (hx : exec D x s = .ok s') :
    Backed D tok s' := by
  have hsupply := (powerStep_of_exec hx).total h.supply
  cases effect_of_exec hx with
  | stake dst amount _ hs =>
    obtain ⟨-, -, -, -, r, assets, c, p, w, w', -, -, -, -, hw, hw', rfl⟩ := stake_ok_iff.1 hs
    obtain ⟨hle, hnone⟩ := h.untouched (untouched_of_notified htoken hw)
    have hmoved := safeTransferFrom_moved htoken hw'
    refine ⟨hsupply, ?_, (untouched_of_safeTransferFrom htoken hw' hnone).2⟩
    show s.totalSupply + amount ≤ tok.balanceOf w' D.self
    rw [hmoved.2, Ledger.credit_self, Ledger.debit_of_ne (Ne.symm hsender)]
    omega
  | redeem dst amount _ hs =>
    obtain ⟨-, -, -, -, hle', r, assets, p, w, w', -, -, -, hw, hw', rfl⟩ := redeem_ok_iff.1 hs
    obtain ⟨hle, hnone⟩ := h.untouched (untouched_of_notified htoken hw)
    obtain ⟨hmoved, hallowance⟩ := safeTransfer_moved htoken hw'
    refine ⟨hsupply, ?_, fun spender => ?_⟩
    · show s.totalSupply - min amount (s.balances x.msg.sender) ≤ tok.balanceOf w' D.self
      rw [hmoved.2]
      by_cases hd : dst = D.self
      · subst hd; rw [Ledger.credit_self, Ledger.debit_self]; omega
      · rw [Ledger.credit_of_ne (Ne.symm hd), Ledger.debit_self]; omega
    · show tok.allowance w' D.self spender = 0
      rw [hallowance]
      exact hnone spender
  | claimRewards dst amount n _ hs =>
    obtain ⟨r, assets, w, -, -, -, -, hw, rfl⟩ := claimRewards_ok_iff.1 hs
    obtain ⟨hle, hnone⟩ := h.untouched (untouched_of_safeTransferFrom htoken hw)
    exact ⟨hsupply, hle, hnone⟩
  | transfer src dst amount f s₁ _ hs hs' =>
    subst hs'
    by_cases heq : src = dst
    · subst heq
      obtain ⟨-, -, -, r, assets, p, w, -, -, -, hw, rfl⟩ := transfer_self_ok_iff.1 hs
      obtain ⟨hle, hnone⟩ := h.untouched (untouched_of_notified htoken hw)
      exact ⟨hsupply, hle, hnone⟩
    · obtain ⟨-, -, -, -, r, assets, r', assets', c, p, w, -, -, -, -, -, -, hw, rfl⟩ := (transfer_ok_iff heq).1 hs
      obtain ⟨hle, hnone⟩ := h.untouched (untouched_of_notified htoken hw)
      exact ⟨hsupply, hle, hnone⟩
  | cooldown _ hs =>
    obtain ⟨-, rfl⟩ := cooldown_ok_iff.1 hs
    exact ⟨hsupply, h.backed, h.unapproved⟩
  | configureAssets inputs _ hs =>
    obtain ⟨-, assets, -, rfl⟩ := configureAssets_ok_iff.1 hs
    exact ⟨hsupply, h.backed, h.unapproved⟩
  | aside _ f p n hs' =>
    subst hs'
    exact ⟨hsupply, h.backed, h.unapproved⟩

end

/-! ## The two contracts -/

namespace IncentivesController

open Outcome (bind_ok_iff pure_ok_iff)

variable {m : Msg} {v : Version} {σ σ' : System W}

theorem handleAction_staked {user : Address} {userBalance totalSupply : Nat}
    (h : handleAction C m user userBalance totalSupply σ = .ok σ') : σ'.staked = σ.staked := by
  simp only [handleAction, bind_ok_iff] at h
  obtain ⟨updated, -, h⟩ := h
  split at h
  · simp only [bind_ok_iff, pure_ok_iff] at h
    obtain ⟨_, -, rfl⟩ := h
    rfl
  · cases h
    rfl

theorem configureAssets_staked {inputs : List AssetConfigInput} (h : configureAssets C m inputs σ = .ok σ') :
    σ'.staked = σ.staked := by
  simp only [configureAssets, bind_ok_iff, pure_ok_iff] at h
  obtain ⟨_, -, rfl⟩ := h
  rfl

/-- A claim leaves the staking token as it was, or pays some amount. -/
theorem claimRewards_staked {assets : List Address} {amount n : Nat} {dst : Address} {stake : Bool}
    (h : claimRewards D C m v assets amount dst stake σ = .ok (n, σ')) :
    σ'.staked = σ.staked ∨ ∃ k, payRewards D C m v k dst stake σ.staked = .ok (n, σ'.staked) := by
  unfold claimRewards at h
  split at h
  · cases h; exact .inl rfl
  · simp only [bind_ok_iff] at h
    obtain ⟨_, -, _, -, unclaimedRewards, -, h⟩ := h
    split at h
    · cases h; exact .inl rfl
    · simp only [bind_ok_iff, pure_ok_iff, Prod.mk.injEq] at h
      obtain ⟨⟨n', s⟩, h, rfl, rfl⟩ := h
      exact .inr ⟨_, h⟩

end IncentivesController

/-- What may happen: the staking contract does not call itself, and what
others do elsewhere takes from it only by its allowance. -/
def Action.Admissible (D : Deployment W) (tok : TokenViews W) : Action W → Prop
  | .staking x => x.msg.sender ≠ D.self
  | .elsewhere act => ∀ w w', act w = .ok w' → Untouched tok D.self w w'
  | _ => True

section

variable {tok : TokenViews W} {σ σ' : System W} {a : Action W}
  (htoken : PlainToken D.ext D.STAKED_TOKEN D.self tok) (hC : C.self ≠ D.self)
include htoken hC

theorem Backed.payRewards {m : Msg} {v : Version} {k n : Nat} {dst : Address} {stake : Bool} {s s' : State W}
    (h : Backed D tok s) (hs : IncentivesController.payRewards D C m v k dst stake s = .ok (n, s')) :
    Backed D tok s' := by
  unfold IncentivesController.payRewards at hs
  split at hs
  · simp only [Outcome.bind_ok_iff, Outcome.pure_ok_iff, Prod.mk.injEq] at hs
    obtain ⟨_, -, _, -, amount, -, w, hw, _, hs, -, rfl⟩ := hs
    obtain ⟨hle, hnone⟩ := h.untouched (untouched_of_IERC20_transferFrom htoken hw)
    have hpulled : Backed D tok { s with world := w } := ⟨h.supply, hle, hnone⟩
    -- the controller stakes as any other account does
    have hstake : exec D ⟨v, { m with sender := C.self, sender_ne := C.self_ne }, .stake dst amount⟩
        { s with world := w } = .ok s' := hs
    exact hpulled.step htoken hC hstake
  · simp only [Outcome.bind_ok_iff, Outcome.pure_ok_iff, Prod.mk.injEq] at hs
    obtain ⟨w, hw, -, rfl⟩ := hs
    obtain ⟨hle, hnone⟩ := h.untouched (untouched_of_IERC20_transferFrom htoken hw)
    exact ⟨h.supply, hle, hnone⟩

theorem Backed.action (h : Backed D tok σ.staked) (ha : a.Admissible D tok) (hs : System.exec D C a σ = .ok σ') :
    Backed D tok σ'.staked := by
  cases a with
  | staking x =>
    simp only [System.exec, Outcome.bind_ok_iff, Outcome.pure_ok_iff] at hs
    obtain ⟨s, hs, rfl⟩ := hs
    exact h.step htoken ha hs
  | handleAction m user userBalance totalSupply =>
    rw [IncentivesController.handleAction_staked hs]; exact h
  | configureAssets m inputs => rw [IncentivesController.configureAssets_staked hs]; exact h
  | claimRewards v m assets amount dst stake =>
    simp only [System.exec, Outcome.bind_ok_iff, Outcome.pure_ok_iff] at hs
    obtain ⟨⟨n, σ''⟩, hs, rfl⟩ := hs
    rcases IncentivesController.claimRewards_staked hs with heq | ⟨k, hpay⟩
    · rw [heq]; exact h
    · exact h.payRewards htoken hC hpay
  | getRewardsBalance m assets user =>
    simp only [System.exec, Outcome.bind_ok_iff, Outcome.pure_ok_iff] at hs
    obtain ⟨_, -, rfl⟩ := hs
    exact h
  | elsewhere act =>
    simp only [System.exec, Outcome.bind_ok_iff, Outcome.pure_ok_iff] at hs
    obtain ⟨w, hw, rfl⟩ := hs
    obtain ⟨hle, hnone⟩ := h.untouched (ha _ _ hw)
    exact ⟨h.supply, hle, hnone⟩

end

/-! ## A plain ERC-20 -/

/-- The ledger of a token. -/
structure Erc20 where
  balances : Address → Nat
  allowances : Address → Address → Nat

/-- `_transfer` -/
def Erc20.move (src dst : Address) (value : Nat) (t : Erc20) : Except String Erc20 := do
  require (value ≤ t.balances src) "ERC20: transfer amount exceeds balance"
  return { t with balances := credit (debit t.balances src value) dst value }

/-- A world of plain tokens, by address. -/
def Externals.erc20 : Externals (Address → Erc20) :=
  { isContract := fun _ _ => true
    transfer := fun token sender dst value w => do
      let t ← (w token).move sender dst value
      return (some true, Function.update w token t)
    transferFrom := fun token sender src dst value w => do
      require (value ≤ (w token).allowances src sender) "ERC20: transfer amount exceeds allowance"
      let t ← (w token).move src dst value
      let allowances := Function.update t.allowances src
        (Function.update (t.allowances src) sender (t.allowances src sender - value))
      return (some true, Function.update w token { t with allowances })
    onTransfer := fun _ _ _ _ w => .ok w
    recover := fun _ _ => .error "" }

section

variable {token sender src dst : Address} {value : Nat} {r : Option Bool} {w w' : Address → Erc20}

theorem Externals.erc20_transfer_ok_iff :
    Externals.erc20.transfer token sender dst value w = .ok (r, w') ↔
      value ≤ (w token).balances sender ∧ r = some true ∧
        w' = Function.update w token
          { w token with balances := credit (debit (w token).balances sender value) dst value } := by
  simp only [Externals.erc20, Erc20.move, Outcome.bind_ok_iff, require_ok_iff, Outcome.pure_ok_iff, Prod.mk.injEq]
  constructor
  · rintro ⟨_, ⟨_, hle, rfl⟩, rfl, rfl⟩; exact ⟨hle, rfl, rfl⟩
  · rintro ⟨hle, rfl, rfl⟩; exact ⟨_, ⟨(), hle, rfl⟩, rfl, rfl⟩

theorem Externals.erc20_transferFrom_ok_iff :
    Externals.erc20.transferFrom token sender src dst value w = .ok (r, w') ↔
      value ≤ (w token).allowances src sender ∧ value ≤ (w token).balances src ∧ r = some true ∧
        w' = Function.update w token
          { balances := credit (debit (w token).balances src value) dst value
            allowances := Function.update (w token).allowances src
              (Function.update ((w token).allowances src) sender ((w token).allowances src sender - value)) } := by
  simp only [Externals.erc20, Erc20.move, Outcome.bind_ok_iff, require_ok_iff, Outcome.pure_ok_iff, Prod.mk.injEq]
  constructor
  · rintro ⟨_, ha, _, ⟨_, hle, rfl⟩, rfl, rfl⟩; exact ⟨ha, hle, rfl, rfl⟩
  · rintro ⟨ha, hle, rfl, rfl⟩; exact ⟨(), ha, _, ⟨(), hle, rfl⟩, rfl, rfl⟩

end

/-- What the plain token at `token` answers. -/
def TokenViews.erc20 (token : Address) : TokenViews (Address → Erc20) :=
  { balanceOf := fun w => (w token).balances
    allowance := fun w => (w token).allowances }

/-- Such tokens are plain. -/
theorem PlainToken.erc20 (token holder : Address) : PlainToken .erc20 token holder (.erc20 token) := by
  constructor
  · intro sender dst value w r w' h
    obtain ⟨hle, rfl, rfl⟩ := Externals.erc20_transfer_ok_iff.1 h
    exact ⟨by simp [TokenViews.erc20], .inr ⟨hle, by simp [TokenViews.erc20]⟩⟩
  · intro sender src dst value w r w' h
    obtain ⟨ha, hle, rfl, rfl⟩ := Externals.erc20_transferFrom_ok_iff.1 h
    refine ⟨fun owner spender => ?_, .inr ⟨ha, hle, by simp [TokenViews.erc20]⟩⟩
    by_cases ho : owner = src
    · subst ho
      by_cases hs : spender = sender
      · subst hs; simp [TokenViews.erc20]
      · simp [TokenViews.erc20, hs]
    · simp [TokenViews.erc20, ho]
  · intro token' sender src dst value w r w' hne h
    obtain ⟨-, -, rfl, rfl⟩ := Externals.erc20_transferFrom_ok_iff.1 h
    intro hnone
    simpa [TokenViews.erc20, hne.symm] using hnone
  · intro governance src dst amount w w' h
    cases h
    exact .refl w

/-! ## Runs -/

/-- **One-to-one backing.** After anything that happens to the staking
token, the incentives controller and the world, from a fresh storage: the
supply is the sum of all balances, and the contract's balance of the staked
token is at least the supply; a stake mints exactly what it pulls in; and a
redemption burns exactly the amount, at most the caller's balance, and pays
out exactly that. -/
theorem backed {tok : TokenViews W} (htoken : PlainToken D.ext D.STAKED_TOKEN D.self tok) (hC : C.self ≠ D.self)
    {g : Address} {w : W} (hw : ∀ spender, tok.allowance w D.self spender = 0) (assets : Address → AssetData)
    (rewards : Address → Nat) {l : List (Action W)} (hl : ∀ a ∈ l, a.Admissible D tok) :
    let s := (System.run D C ⟨.fresh g w, assets, rewards⟩ l).staked
    ∑ a, s.balances a = s.totalSupply ∧ s.totalSupply ≤ tok.balanceOf s.world D.self ∧
      (∀ m v onBehalfOf amount s', stake D m v onBehalfOf amount s = .ok s' →
        s'.totalSupply = s.totalSupply + amount ∧ s'.balances = credit s.balances onBehalfOf amount ∧
          ∃ w₁, notified D v 0 onBehalfOf amount s.governance s.world = .ok w₁ ∧
            tok.Moved w₁ s'.world m.sender D.self amount) ∧
      ∀ m v dst amount s', redeem D m v dst amount s = .ok s' →
        let redeemed := min amount (s.balances m.sender)
        s'.totalSupply + redeemed = s.totalSupply ∧ s'.balances = debit s.balances m.sender redeemed ∧
          ∃ w₁, notified D v m.sender 0 redeemed s.governance s.world = .ok w₁ ∧
            tok.Moved w₁ s'.world D.self dst redeemed := by
  intro s
  have hfresh : Backed D tok (.fresh g w) :=
    ⟨by rw [Ledger.total_def]; exact Finset.sum_const_zero, Nat.zero_le _, hw⟩
  have hinv : Backed D tok s := Runs.run_invariant (I := fun σ => Backed D tok σ.staked) (P := fun _ => True) hfresh
    (fun a σ σ' ha _ _ h hs => h.action htoken hC ha hs) hl fun _ _ => trivial
  refine ⟨(Ledger.total_def _).symm.trans hinv.supply, hinv.backed, fun m v onBehalfOf amount s' h => ?_,
    fun m v dst amount s' h => ?_⟩
  · exact stake_exact htoken h
  · exact redeem_exact htoken h

/-! A deployment over such tokens, the rewards in the staked token itself. -/

def Deployment.erc20 : Deployment (Address → Erc20) :=
  { Deployment.sample.toImmutables with ext := .erc20 }

def IncentivesDeployment.erc20 : IncentivesDeployment (Address → Erc20) :=
  { self := .ofNat 6
    REWARD_TOKEN := .ofNat 2
    REWARDS_VAULT := .ofNat 4
    EXTRA_PSM_REWARD := 10
    DISTRIBUTION_END := 1000
    EMISSION_MANAGER := .ofNat 5
    self_ne := by decide
    getScaledUserBalanceAndSupply := fun _ _ _ _ => .ok (5, 10) }

def System.erc20 : System (Address → Erc20) :=
  { staked := .fresh 0 fun _ =>
      { balances := fun a => if a = .ofNat 1 then 0 else 100
        allowances := fun owner _ => if owner = .ofNat 1 then 0 else 100 }
    assets := fun _ => ⟨0, 0, 0, fun _ => 0⟩
    usersUnclaimedRewards := fun _ => 20 }

/-- A stake, rewards of the same token staked by the controller, and
redemptions of parts, to the holder and to the staking contract itself. -/
def Action.erc20 : List (Action (Address → Erc20)) :=
  [.staking ⟨.v2, ⟨.ofNat 10, 1, 200, sampleHolder_ne⟩, .stake (.ofNat 10) 7⟩,
    .claimRewards .v2 ⟨.ofNat 10, 1, 200, sampleHolder_ne⟩ [.ofNat 7] 10 (.ofNat 10) true,
    .staking ⟨.v2, ⟨.ofNat 10, 2, 201, sampleHolder_ne⟩, .cooldown⟩, .elsewhere .ok,
    .staking ⟨.v2, ⟨.ofNat 10, 3, 310, sampleHolder_ne⟩, .redeem (.ofNat 10) 5⟩,
    .staking ⟨.v2, ⟨.ofNat 10, 3, 310, sampleHolder_ne⟩, .redeem (.ofNat 1) 3⟩]

/-- 10 of 18 are left, of 13 in the contract. Another's stake for the holder
and a redemption of more than there is book what they move. -/
theorem backed_erc20 :
    let l := Action.erc20
    let s := (System.run .erc20 .erc20 .erc20 l).staked
    let token := TokenViews.erc20 (.ofNat 2)
    s.totalSupply = 10 ∧ token.balanceOf s.world (.ofNat 1) = 13 ∧
      ∑ a, s.balances a = s.totalSupply ∧ s.totalSupply ≤ token.balanceOf s.world (.ofNat 1) ∧
      (∃ s', stake .erc20 ⟨.ofNat 11, 4, 310, sampleOther_ne⟩ .v2 (.ofNat 10) 4 s = .ok s' ∧
        s'.totalSupply = s.totalSupply + 4 ∧ s'.balances = credit s.balances (.ofNat 10) 4 ∧
        ∃ w, token.Moved w s'.world (.ofNat 11) (.ofNat 1) 4) ∧
      ∃ s', redeem .erc20 ⟨.ofNat 10, 4, 310, sampleHolder_ne⟩ .v2 (.ofNat 12) 30 s = .ok s' ∧
        s'.totalSupply + 10 = s.totalSupply ∧ s'.balances = debit s.balances (.ofNat 10) 10 ∧
        ∃ w, token.Moved w s'.world (.ofNat 1) (.ofNat 12) 10 := by
  intro l s token
  have hcaller : Address.ofNat 10 ≠ Deployment.erc20.self := by decide
  have hl : ∀ a ∈ l, a.Admissible .erc20 (.erc20 (.ofNat 2)) := by
    simp only [l, Action.erc20, List.forall_mem_cons, List.not_mem_nil, false_implies, implies_true, and_true]
    refine ⟨hcaller, trivial, hcaller, fun w w' hw => ?_, hcaller, hcaller⟩
    cases hw
    exact .refl w
  have hsupply : s.totalSupply = 10 := by decide +kernel
  have hbalance : token.balanceOf s.world (.ofNat 1) = 13 := by decide +kernel
  have hheld : min 30 (s.balances (.ofNat 10)) = 10 := by decide +kernel
  have hstake : (stake .erc20 ⟨.ofNat 11, 4, 310, sampleOther_ne⟩ .v2 (.ofNat 10) 4 s).isOk = true := by decide +kernel
  have hredeem : (redeem .erc20 ⟨.ofNat 10, 4, 310, sampleHolder_ne⟩ .v2 (.ofNat 12) 30 s).isOk = true := by
    decide +kernel
  -- the run is long to evaluate
  clear_value l
  obtain ⟨hsum, hbacked, hstakes, hredeems⟩ := backed (D := .erc20) (C := .erc20) (g := 0)
    (w := System.erc20.staked.world) (PlainToken.erc20 (.ofNat 2) (.ofNat 1)) (by decide) (fun _ => rfl)
    System.erc20.assets System.erc20.usersUnclaimedRewards hl
  obtain ⟨s₁, hs₁⟩ := Outcome.exists_ok hstake
  obtain ⟨s₂, hs₂⟩ := Outcome.exists_ok hredeem
  obtain ⟨hminted, hcredited, w₁, -, hpulled⟩ := hstakes _ _ _ _ _ hs₁
  obtain ⟨hburned, hdebited, w₂, -, hpaid⟩ := hredeems _ _ _ _ _ hs₂
  change s₂.totalSupply + min 30 (s.balances (.ofNat 10)) = _ at hburned
  change s₂.balances = debit _ _ (min 30 (s.balances (.ofNat 10))) at hdebited
  change token.Moved w₂ _ _ _ (min 30 (s.balances (.ofNat 10))) at hpaid
  rw [hheld] at hburned hdebited hpaid
  exact ⟨hsupply, hbalance, hsum, hbacked, ⟨s₁, hs₁, hminted, hcredited, w₁, hpulled⟩,
    s₂, hs₂, hburned, hdebited, w₂, hpaid⟩

end StarlayStake
