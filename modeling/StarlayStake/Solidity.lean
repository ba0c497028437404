/-
What the contracts take from Solidity 0.7.5: addresses, the message and
block a call runs under, `require`, narrowing casts, and SafeMath.

A call answers `Except String`: what it returns, or the reason it reverts
with. Unsigned integers are `Nat`; SafeMath reverts where a result leaves
256 bits (`SafeMath.add_wraps`, `SafeMath.mul_wraps`: the tests the library
makes on wrapped words say exactly that), and unchecked arithmetic and casts
to a narrower type reduce modulo the width.
-/
import Mathlib.Data.Fintype.EquivFin
import Mathlib.Tactic.Linarith
import StarlayStake.Lib.Outcome

namespace StarlayStake

/-- A 160-bit account address. -/
structure Address where
  val : Fin (2 ^ 160)
  deriving DecidableEq

namespace Address

instance : Finite Address := Finite.of_injective Address.val fun a b h => by cases a; cases b; simp_all

/-- By choice: sums over all addresses are stated, and never to be evaluated. -/
noncomputable instance : Fintype Address := Fintype.ofFinite Address

/-- `address(0)` -/
instance : Zero Address := ⟨⟨0⟩⟩

/-- The address a literal stands for. -/
def ofNat (n : Nat) : Address := ⟨Fin.ofNat (2 ^ 160) n⟩

end Address

/-- `msg.sender`, `block.number` and `block.timestamp`. Nobody sends from the
zero address: it has no key and no code. -/
structure Msg where
  sender : Address
  number : Nat
  timestamp : Nat
  sender_ne : sender ≠ 0

/-- `type(uint256).max` -/
abbrev uint256Max : Nat := 2 ^ 256 - 1

/-- The cast `uint128(x)`, which drops the high bits. -/
def uint128 (x : Nat) : Nat := x % 2 ^ 128

theorem uint128_of_lt {x : Nat} (h : x < 2 ^ 128) : uint128 x = x := Nat.mod_eq_of_lt h

/-- `require(c, reason)` -/
def require (c : Prop) [Decidable c] (reason : String) : Except String Unit :=
  if c then .ok () else .error reason

@[simp] theorem require_ok_iff {c : Prop} [Decidable c] {reason : String} {u : Unit} :
    require c reason = .ok u ↔ c := by
  by_cases hc : c <;> simp [require, hc]

theorem require_never {c : Prop} [Decidable c] {reason e : String} (h : reason ≠ e) :
    Outcome.Never e (require c reason) := .ite .ok (.error h)

theorem require_of {c : Prop} [Decidable c] {reason : String} (hc : c) : require c reason = .ok () := by
  simp [require, hc]

/-! ## SafeMath -/

namespace SafeMath

def add (a b : Nat) : Except String Nat :=
  if a + b < 2 ^ 256 then .ok (a + b) else .error "SafeMath: addition overflow"

/-- `sub(a, b, errorMessage)` -/
def subMsg (a b : Nat) (errorMessage : String) : Except String Nat :=
  if b ≤ a then .ok (a - b) else .error errorMessage

def sub (a b : Nat) : Except String Nat := subMsg a b "SafeMath: subtraction overflow"

def mul (a b : Nat) : Except String Nat :=
  if a * b < 2 ^ 256 then .ok (a * b) else .error "SafeMath: multiplication overflow"

def div (a b : Nat) : Except String Nat :=
  if 0 < b then .ok (a / b) else .error "SafeMath: division by zero"

variable {a b c : Nat}

/-- What all four operations share: an answer where a test passes. -/
theorem guard_ok_iff {α : Type} {p : Prop} [Decidable p] {x y : α} {e : String} :
    (if p then Except.ok x else Except.error e) = .ok y ↔ p ∧ y = x := by
  by_cases h : p <;> simp [h, eq_comm]

@[simp] theorem add_ok_iff : add a b = .ok c ↔ a + b < 2 ^ 256 ∧ c = a + b := guard_ok_iff

@[simp] theorem subMsg_ok_iff {e : String} : subMsg a b e = .ok c ↔ b ≤ a ∧ c = a - b := guard_ok_iff

@[simp] theorem sub_ok_iff : sub a b = .ok c ↔ b ≤ a ∧ c = a - b := guard_ok_iff

@[simp] theorem mul_ok_iff : mul a b = .ok c ↔ a * b < 2 ^ 256 ∧ c = a * b := guard_ok_iff

@[simp] theorem div_ok_iff : div a b = .ok c ↔ 0 < b ∧ c = a / b := guard_ok_iff

/-- An amount that is added where it is not zero. -/
theorem addNonzero_ok_iff : (if b ≠ 0 then add a b else .ok a) = .ok c ↔ (b ≠ 0 → a + b < 2 ^ 256) ∧ c = a + b := by
  by_cases hb : b = 0
  · subst hb
    simp [eq_comm]
  · simp [hb]

/-- An operation fails for its own reason alone. -/
theorem guard_never {α : Type} {p : Prop} [Decidable p] {x : α} {e e' : String} (h : e ≠ e') :
    Outcome.Never e' (if p then Except.ok x else Except.error e) := .ite .ok (.error h)

theorem add_of (h : a + b < 2 ^ 256) : add a b = .ok (a + b) := add_ok_iff.2 ⟨h, rfl⟩

theorem sub_of (h : b ≤ a) : sub a b = .ok (a - b) := sub_ok_iff.2 ⟨h, rfl⟩

theorem mul_of (h : a * b < 2 ^ 256) : mul a b = .ok (a * b) := mul_ok_iff.2 ⟨h, rfl⟩

theorem div_of (h : 0 < b) : div a b = .ok (a / b) := div_ok_iff.2 ⟨h, rfl⟩

/-- The library tests `c >= a` on the wrapped sum `c`: on words, that the
sum did not wrap. -/
theorem add_wraps (ha : a < 2 ^ 256) (hb : b < 2 ^ 256) : a ≤ (a + b) % 2 ^ 256 ↔ a + b < 2 ^ 256 := by
  constructor
  · intro h
    by_contra hge
    have hmod : (a + b) % 2 ^ 256 = a + b - 2 ^ 256 := by
      rw [Nat.mod_eq_sub_mod (by omega), Nat.mod_eq_of_lt (by omega)]
    omega
  · intro h
    rw [Nat.mod_eq_of_lt h]
    omega

/-- The library answers 0 for `a == 0` and else tests `c / a == b` on the
wrapped product `c`: that the product did not wrap. -/
theorem mul_wraps (ha : 0 < a) : a * b % 2 ^ 256 / a = b ↔ a * b < 2 ^ 256 := by
  constructor
  · intro h
    by_contra hge
    have hlt : a * b % 2 ^ 256 < a * b := lt_of_lt_of_le (Nat.mod_lt _ (by decide)) (by omega)
    rw [← h] at hlt
    have := Nat.div_mul_le_self (a * b % 2 ^ 256) a
    rw [h] at hlt this
    rw [Nat.mul_comm] at hlt
    omega
  · intro h
    rw [Nat.mod_eq_of_lt h, Nat.mul_div_cancel_left b ha]

end SafeMath

end StarlayStake
