/-
A fungible token over any type of accounts: what accounts hold, what they let
others spend of it, and the supply. An operation (`apply`) fails only where it
takes what is not there.

After any operations, where balances made up the supply they do, and every
balance, the supply and every allowance are accounted for by the operations
made (`accounts`).
-/
import Mathlib.Algebra.Order.Ring.Nat
import StarlayStake.Lib.Ledger
import StarlayStake.Lib.Runs

namespace FungibleToken

open Ledger (credit debit total)

variable {α : Type}

structure State (α : Type) where
  balances : α → ℕ
  allowances : α → α → ℕ
  supply : ℕ

inductive Op (α : Type)
  | mint (account : α) (amount : ℕ)
  | burn (account : α) (amount : ℕ)
  | move (src dst : α) (amount : ℕ)
  /-- the allowance is set, -/
  | approve (owner spender : α) (amount : ℕ)
  /-- raised -/
  | raise (owner spender : α) (amount : ℕ)
  /-- or lowered by the owner, -/
  | lower (owner spender : α) (amount : ℕ)
  /-- or used up by the spender -/
  | spend (owner spender : α) (amount : ℕ)
  deriving DecidableEq, Repr

theorem ite_ok_iff {c : Prop} [Decidable c] {r s' : State α} :
    (if c then Except.ok r else Except.error () : Except Unit (State α)) = .ok s' ↔ c ∧ s' = r := by
  split
  · next h => simp [h, eq_comm]
  · next h => simp [h]

variable [DecidableEq α]

def State.setAllowance (s : State α) (owner spender : α) (amount : ℕ) : State α :=
  { s with allowances := Function.update s.allowances owner (Function.update (s.allowances owner) spender amount) }

def apply (o : Op α) (s : State α) : Except Unit (State α) :=
  match o with
  | .mint account amount => .ok { s with balances := credit s.balances account amount, supply := s.supply + amount }
  | .burn account amount =>
    if amount ≤ s.balances account then
      .ok { s with balances := debit s.balances account amount, supply := s.supply - amount }
    else .error ()
  | .move src dst amount =>
    if amount ≤ s.balances src then .ok { s with balances := credit (debit s.balances src amount) dst amount }
    else .error ()
  | .approve owner spender amount => .ok (s.setAllowance owner spender amount)
  | .raise owner spender amount => .ok (s.setAllowance owner spender (s.allowances owner spender + amount))
  | .lower owner spender amount | .spend owner spender amount =>
    if amount ≤ s.allowances owner spender then
      .ok (s.setAllowance owner spender (s.allowances owner spender - amount))
    else .error ()

/-! ## What operations account for -/

def Op.minted : Op α → ℕ
  | .mint _ amount => amount
  | _ => 0

def Op.burned : Op α → ℕ
  | .burn _ amount => amount
  | _ => 0

/-- What an account is given. -/
def Op.incoming (a : α) : Op α → ℕ
  | .mint account amount => if a = account then amount else 0
  | .move _ dst amount => if a = dst then amount else 0
  | _ => 0

/-- What is taken from it. -/
def Op.outgoing (a : α) : Op α → ℕ
  | .burn account amount => if a = account then amount else 0
  | .move src _ amount => if a = src then amount else 0
  | _ => 0

/-- What an owner lets a spender spend. -/
def Op.granted (o p : α) : Op α → ℕ
  | .approve owner spender amount => if o = owner ∧ p = spender then amount else 0
  | .raise owner spender amount => if o = owner ∧ p = spender then amount else 0
  | _ => 0

/-- What the spender spends of it. -/
def Op.spent (o p : α) : Op α → ℕ
  | .spend owner spender amount => if o = owner ∧ p = spender then amount else 0
  | _ => 0

variable {s s' : State α} {op : Op α} {ops : List (Op α)} {owner spender o p a : α} {amount k : ℕ}

theorem setAllowance_apply : (s.setAllowance owner spender amount).allowances o p =
    if o = owner ∧ p = spender then amount else s.allowances o p := by
  by_cases ho : o = owner
  · subst ho
    by_cases hp : p = spender <;> simp [State.setAllowance, hp]
  · simp [State.setAllowance, ho]

/-- What an account holds is what it held, what it was given and what was
taken from it. -/
theorem balance_of_apply (h : apply op s = .ok s') (a : α) :
    s'.balances a + op.outgoing a = s.balances a + op.incoming a := by
  cases op with
  | mint account amount =>
    obtain rfl := Except.ok.inj h
    exact Ledger.credit_apply ..
  | burn account amount =>
    obtain ⟨hle, rfl⟩ := ite_ok_iff.1 h
    by_cases ha : a = account
    · subst ha
      simp only [Op.outgoing, Op.incoming, if_true, Ledger.debit_self]
      omega
    · simp [Op.outgoing, Op.incoming, ha, Ledger.debit_of_ne]
  | move src dst amount =>
    obtain ⟨hle, rfl⟩ := ite_ok_iff.1 h
    simp only [Op.outgoing, Op.incoming, Ledger.credit_apply]
    by_cases ha : a = src
    · subst ha
      rw [Ledger.debit_self, if_pos rfl]
      omega
    · rw [Ledger.debit_of_ne ha, if_neg ha]
      omega
  | approve owner spender amount => obtain rfl := Except.ok.inj h; rfl
  | raise owner spender amount => obtain rfl := Except.ok.inj h; rfl
  | lower owner spender amount => obtain ⟨-, rfl⟩ := ite_ok_iff.1 h; rfl
  | spend owner spender amount => obtain ⟨-, rfl⟩ := ite_ok_iff.1 h; rfl

/-- What can be spent, and was, is within what could be and what was granted. -/
theorem allowance_of_apply (h : apply op s = .ok s') (o p : α) :
    s'.allowances o p + op.spent o p ≤ s.allowances o p + op.granted o p := by
  cases op with
  | mint account amount => obtain rfl := Except.ok.inj h; exact le_rfl
  | burn account amount => obtain ⟨-, rfl⟩ := ite_ok_iff.1 h; exact le_rfl
  | move src dst amount => obtain ⟨-, rfl⟩ := ite_ok_iff.1 h; exact le_rfl
  | approve owner spender amount =>
    obtain rfl := Except.ok.inj h
    rw [setAllowance_apply]
    simp only [Op.spent, Op.granted]
    split <;> omega
  | raise owner spender amount =>
    obtain rfl := Except.ok.inj h
    rw [setAllowance_apply]
    simp only [Op.spent, Op.granted]
    split
    · next heq => obtain ⟨rfl, rfl⟩ := heq; omega
    · omega
  | lower owner spender amount =>
    obtain ⟨-, rfl⟩ := ite_ok_iff.1 h
    rw [setAllowance_apply]
    simp only [Op.spent, Op.granted]
    split
    · next heq => obtain ⟨rfl, rfl⟩ := heq; omega
    · omega
  | spend owner spender amount =>
    obtain ⟨hle, rfl⟩ := ite_ok_iff.1 h
    rw [setAllowance_apply]
    simp only [Op.spent, Op.granted]
    split
    · next heq => obtain ⟨rfl, rfl⟩ := heq; omega
    · omega

variable [Fintype α]

/-- Balances go on making up the supply, which is what was minted and not burned. -/
theorem supply_of_apply (hsupply : total s.balances = s.supply) (h : apply op s = .ok s') :
    total s'.balances = s'.supply ∧ s'.supply + op.burned = s.supply + op.minted := by
  cases op with
  | mint account amount =>
    obtain rfl := Except.ok.inj h
    exact ⟨by rw [Ledger.total_credit, hsupply], rfl⟩
  | burn account amount =>
    obtain ⟨hle, rfl⟩ := ite_ok_iff.1 h
    have hdebit := Ledger.total_debit hle
    have hcovered := Ledger.le_total s.balances account
    simp only [Op.burned, Op.minted]
    omega
  | move src dst amount =>
    obtain ⟨hle, rfl⟩ := ite_ok_iff.1 h
    have hdebit := Ledger.total_debit hle
    refine ⟨?_, rfl⟩
    show total (credit (debit s.balances src amount) dst amount) = s.supply
    rw [Ledger.total_credit]
    omega
  | approve owner spender amount => obtain rfl := Except.ok.inj h; exact ⟨hsupply, rfl⟩
  | raise owner spender amount => obtain rfl := Except.ok.inj h; exact ⟨hsupply, rfl⟩
  | lower owner spender amount => obtain ⟨-, rfl⟩ := ite_ok_iff.1 h; exact ⟨hsupply, rfl⟩
  | spend owner spender amount => obtain ⟨-, rfl⟩ := ite_ok_iff.1 h; exact ⟨hsupply, rfl⟩

/-- How a token after some operations follows from the token before. -/
structure Accounts (s s' : State α) (ops : List (Op α)) : Prop where
  total : total s'.balances = s'.supply
  supply : s'.supply + (ops.map Op.burned).sum = s.supply + (ops.map Op.minted).sum
  balances : ∀ a, s'.balances a + (ops.map (Op.outgoing a)).sum = s.balances a + (ops.map (Op.incoming a)).sum
  allowances : ∀ o p, s'.allowances o p + (ops.map (Op.spent o p)).sum ≤
    s.allowances o p + (ops.map (Op.granted o p)).sum

/-- **Operations account for everything.** -/
theorem accounts (hsupply : total s.balances = s.supply) (h : Runs.transact apply s ops = .ok s') : Accounts s s' ops := by
  induction ops using List.reverseRecOn generalizing s' with
  | nil =>
    obtain rfl := Except.ok.inj h
    exact ⟨hsupply, rfl, fun _ => rfl, fun _ _ => le_rfl⟩
  | append_singleton ops op ih =>
    obtain ⟨s₁, h₁, hop⟩ := Runs.transact_concat_ok_iff.1 h
    have hbefore := ih h₁
    obtain ⟨htotal, hlast⟩ := supply_of_apply hbefore.total hop
    refine ⟨htotal, ?_, fun a => ?_, fun o p => ?_⟩
    · have hfirst := hbefore.supply
      simp only [List.map_append, List.sum_append, List.map_singleton, List.sum_singleton]
      omega
    · have hfirst := hbefore.balances a
      have hthen := balance_of_apply hop a
      simp only [List.map_append, List.sum_append, List.map_singleton, List.sum_singleton]
      omega
    · have hfirst := hbefore.allowances o p
      have hthen := allowance_of_apply hop o p
      simp only [List.map_append, List.sum_append, List.map_singleton, List.sum_singleton]
      omega

end FungibleToken
