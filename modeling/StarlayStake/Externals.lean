/-
What the staking contract calls and does not contain: the staked and the
reward token, the governance hook, and the recovery of a message's signer.
`W` is the state of that outside world. Nothing is assumed of it here; a
result that needs more says so (a plain ERC-20, a hook that does not
revert). Here a callee does not call back into the contract; for tokens that
do, calls are written as bodies that wait for them (`Tx.body`).
-/
import StarlayStake.Solidity

namespace StarlayStake

inductive DelegationType
  | VOTING_POWER
  | PROPOSITION_POWER
  deriving DecidableEq, Repr

/-- The EIP-712 messages a signature can authorise. The digest the contract
hashes them to (with the domain of this contract and chain) stands for the
message itself. -/
inductive TypedData
  | permit (owner spender : Address) (value nonce deadline : Nat)
  | delegateByType (delegatee : Address) (delegationType : DelegationType) (nonce expiry : Nat)
  | delegate (delegatee : Address) (nonce expiry : Nat)
  deriving DecidableEq

structure Signature where
  v : Nat
  r : Nat
  s : Nat
  deriving DecidableEq, Repr

structure Externals (W : Type) where
  isContract : Address → W → Bool
  /-- `token.transfer(dst, value)`, called by `sender`; what it returns, if
  it returns data at all. -/
  transfer : (token sender dst : Address) → (value : Nat) → W → Except String (Option Bool × W)
  /-- `token.transferFrom(src, dst, value)`, called by `sender`. -/
  transferFrom : (token sender src dst : Address) → (value : Nat) → W → Except String (Option Bool × W)
  /-- `governance.onTransfer(src, dst, amount)` -/
  onTransfer : (governance src dst : Address) → (amount : Nat) → W → Except String W
  /-- `ecrecover`, which answers the zero address for a bad signature; in
  revision 4 `ECDSA.recover`, which reverts for one. -/
  recover : TypedData → Signature → Except String Address

/-- `token.transferFrom(src, dst, value)` through `IERC20`, whose answer, a
`bool`, must be there and is then ignored. -/
def IERC20.transferFrom {W : Type} (ext : Externals W) (token sender src dst : Address) (value : Nat) (w : W) :
    Except String W := do
  require (ext.isContract token w = true) ""
  let answer ← ext.transferFrom token sender src dst value w
  require (answer.1.isSome = true) ""
  return answer.2

theorem IERC20.transferFrom_ok_iff {W : Type} {ext : Externals W} {token sender src dst : Address} {value : Nat}
    {w w' : W} :
    IERC20.transferFrom ext token sender src dst value w = .ok w' ↔
      ext.isContract token w = true ∧ ∃ b, ext.transferFrom token sender src dst value w = .ok (some b, w') := by
  simp only [IERC20.transferFrom, Outcome.bind_ok_iff, require_ok_iff, Outcome.pure_ok_iff, Prod.exists]
  constructor
  · rintro ⟨_, hc, r, _, h, _, hr, rfl⟩
    obtain ⟨b, rfl⟩ := Option.isSome_iff_exists.1 hr
    exact ⟨hc, b, h⟩
  · rintro ⟨hc, b, h⟩
    exact ⟨(), hc, some b, w', h, (), rfl, rfl⟩

namespace SafeERC20

variable {W : Type}

/-- `callOptionalReturn(token, data)`: a token that fails or returns `false`
reverts the call, one that returns nothing does not. -/
def callOptionalReturn (ext : Externals W) (token : Address) (call : W → Except String (Option Bool × W))
    (w : W) : Except String W := do
  require (ext.isContract token w = true) "SafeERC20: call to non-contract"
  match call w with
  | .error _ => .error "SafeERC20: low-level call failed"
  | .ok (returndata, w') => do
    require (returndata ≠ some false) "SafeERC20: ERC20 operation did not succeed"
    return w'

/-- `token.safeTransfer(dst, value)` -/
def safeTransfer (ext : Externals W) (token sender dst : Address) (value : Nat) (w : W) : Except String W :=
  callOptionalReturn ext token (ext.transfer token sender dst value) w

/-- `token.safeTransferFrom(src, dst, value)` -/
def safeTransferFrom (ext : Externals W) (token sender src dst : Address) (value : Nat) (w : W) :
    Except String W :=
  callOptionalReturn ext token (ext.transferFrom token sender src dst value) w

theorem callOptionalReturn_ok_iff {ext : Externals W} {token : Address}
    {call : W → Except String (Option Bool × W)} {w w' : W} :
    callOptionalReturn ext token call w = .ok w' ↔
      ext.isContract token w = true ∧ ∃ r, call w = .ok (r, w') ∧ r ≠ some false := by
  simp only [callOptionalReturn, Outcome.bind_ok_iff, require_ok_iff]
  constructor
  · rintro ⟨_, hc, h⟩
    refine ⟨hc, ?_⟩
    split at h
    · simp at h
    · next r w'' hw =>
      simp only [Outcome.bind_ok_iff, require_ok_iff, Outcome.pure_ok_iff] at h
      obtain ⟨_, hr, rfl⟩ := h
      exact ⟨r, hw, hr⟩
  · rintro ⟨hc, r, hw, hr⟩
    refine ⟨(), hc, ?_⟩
    rw [hw]
    simp only [Outcome.bind_ok_iff, require_ok_iff, Outcome.pure_ok_iff, and_true]
    exact ⟨(), hr⟩

end SafeERC20

end StarlayStake
