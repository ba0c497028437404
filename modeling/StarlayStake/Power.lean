/-
Power over whole runs: in every state the token reaches, the power of an
account, of either type, is what the holders it stands for hold together,
whether the token started under version 2 or was upgraded from version 1
(`current_power_exact`).

A successful call moves power in one of three ways (`PowerStep`): not at
all, along with tokens, or by a delegation. The step lemma
(`powerStep_of_exec`) reads the calls once; the invariants of each version
follow from it. Version 1 moves power as version 2 does where nobody has a
delegatee, so a storage it leaves behind meets version 2's invariant.
-/
import Mathlib.Data.List.Infix
import StarlayStake.PowerMoves

namespace StarlayStake

open Ledger (credit debit share total)
open StakedToken

variable {W : Type} {D : Deployment W}

/-! ## What a call moves -/

/-- The ends between which a call moves power of a type: who stands for the
accounts it moves tokens between (the zero address for a mint or a burn), or
the delegatees before and after a delegation. -/
def Tx.ends (D : Deployment W) (x : Tx) (t : DelegationType) (s : State W) : Option (Address × Address) :=
  let delegatee := (s.power t).delegatee
  match x.call with
  | .stake onBehalfOf _ => some (delegatee 0, delegatee onBehalfOf)
  | .redeem _ _ => some (delegatee x.msg.sender, delegatee 0)
  | .transfer recipient _ => some (delegatee x.msg.sender, delegatee recipient)
  | .transferFrom sender recipient _ => some (delegatee sender, delegatee recipient)
  | .delegate y => some (delegatee x.msg.sender, y)
  | .delegateByType y t' => if t' = t then some (delegatee x.msg.sender, y) else none
  | .delegateBySig y nonce expiry signature =>
    match D.ext.recover (.delegate y nonce expiry) signature with
    | .ok u => some (delegatee u, y)
    | .error _ => none
  | .delegateByTypeBySig y t' nonce expiry signature =>
    match D.ext.recover (.delegateByType y t' nonce expiry) signature with
    | .ok u => if t' = t then some (delegatee u, y) else none
    | .error _ => none
  | _ => none

/-- What a successful call does to balances, supply and power. -/
inductive PowerStep (D : Deployment W) (x : Tx) (s s' : State W) : Prop
  | keep (hends : ∀ t, x.ends D t s = none) (hbalances : s'.balances = s.balances)
      (hsupply : s'.totalSupply = s.totalSupply) (hpower : s'.power = s.power)
  | move (src dst : Address) (amount : Nat)
      (hends : ∀ t, x.ends D t s = some ((s.power t).delegatee src, (s.power t).delegatee dst))
      (hne : src ≠ 0 ∨ dst ≠ 0)
      (hamount : src ≠ 0 → amount ≤ s.balances src)
      (hbalances : s'.balances = movedBalances s.balances src dst amount)
      (hsupply : s'.totalSupply + (if src = 0 then 0 else amount) =
        s.totalSupply + if dst = 0 then 0 else amount)
      (hpower : ∀ t, movePower x.version x.msg.number s.balances src dst amount t (s.power t) = .ok (s'.power t))
  | delegate (u y : Address) (types : List DelegationType)
      (hends : ∀ t, x.ends D t s = if t ∈ types then some ((s.power t).delegatee u, y) else none)
      (hv : x.version = .v2) (hu : u ≠ 0) (hy : y ≠ 0) (hbalances : s'.balances = s.balances)
      (hsupply : s'.totalSupply = s.totalSupply)
      (hpower : ∀ t ∈ types, delegatePower x.msg.number s.balances u y (s.power t) = .ok (s'.power t))
      (hother : ∀ t, t ∉ types → s'.power t = s.power t)

section

variable {x : Tx} {m : Msg} {s s' : State W} {v : Version} {src dst : Address} {amount : Nat}

theorem PowerStep.transfer (hends : ∀ t, x.ends D t s = some ((s.power t).delegatee src, (s.power t).delegatee dst))
    (h : StakedToken.transfer D x.msg x.version src dst amount s = .ok s') : PowerStep D x s s' := by
  by_cases heq : src = dst
  · subst heq
    rw [transfer_self_ok_iff] at h
    obtain ⟨hs, ha, -, r, assets, p, w, -, -, hp, -, rfl⟩ := h
    exact .move src src amount hends (.inl hs) (fun _ => ha) (by simp [movedBalances, hs]) (by simp [hs, settle]) hp
  · rw [transfer_ok_iff heq] at h
    obtain ⟨hs, hd, ha, -, r, assets, r', assets', c, p, w, -, -, -, -, -, hp, -, rfl⟩ := h
    exact .move src dst amount hends (.inl hs) (fun _ => ha) (by simp [movedBalances, hs, hd])
      (by simp [hs, hd, settle]) hp

/-- What a step does to power does not depend on allowances. -/
theorem PowerStep.approve {f : Address → Address → Nat} (h : PowerStep D x s s') :
    PowerStep D x s { s' with allowances := f } := by
  cases h with
  | keep hends hb hs hp => exact .keep hends hb hs hp
  | move src dst a hends hne ha hb hs hp => exact .move src dst a hends hne ha hb hs hp
  | delegate u y ts hends hv hu hy hb hs hp ho => exact .delegate u y ts hends hv hu hy hb hs hp ho

/-- A delegation of one type, by whoever signed or sent it. -/
theorem PowerStep.delegateByType {u y : Address} {t : DelegationType} {f : Address → Nat} (hu : u ≠ 0)
    (hends : ∀ t', x.ends D t' s = if t = t' then some ((s.power t').delegatee u, y) else none) (hv : x.version = .v2)
    (h : StakedToken.delegateByType x.msg u y t { s with nonces := f } = .ok s') : PowerStep D x s s' := by
  rw [delegateByType_ok_iff] at h
  obtain ⟨hy, data, hd, rfl⟩ := h
  refine .delegate u y [t] (by simpa [eq_comm] using hends) hv hu hy rfl rfl (fun t' ht' => ?_) (fun t' ht' => ?_)
  · rw [List.mem_singleton] at ht'
    subst ht'
    simpa using hd
  · exact Function.update_of_ne (by simpa using ht') ..

/-- A delegation of both types. -/
theorem PowerStep.delegateBoth {u y : Address} {f : Address → Nat} (hu : u ≠ 0)
    (hends : ∀ t, x.ends D t s = some ((s.power t).delegatee u, y)) (hv : x.version = .v2)
    (h : StakedToken.delegate x.msg u y { s with nonces := f } = .ok s') : PowerStep D x s s' := by
  rw [delegate_ok_iff] at h
  obtain ⟨hy, p, hp, rfl⟩ := h
  have hall : ∀ t, t ∈ [DelegationType.VOTING_POWER, .PROPOSITION_POWER] := fun t => by cases t <;> simp
  exact .delegate u y [.VOTING_POWER, .PROPOSITION_POWER] (fun t => by rw [hends, if_pos (hall t)]) hv hu hy rfl rfl
    (fun t _ => hp t) (fun t ht => absurd (hall t) ht)

/-- Every successful call is such a step. -/
theorem powerStep_of_exec (h : exec D x s = .ok s') : PowerStep D x s s' := by
  obtain ⟨v, m, c⟩ := x
  cases c with
  | stake onBehalfOf amount =>
    obtain ⟨-, hu, -, -, r, assets, c, p, w, w', -, -, -, hp, -, -, rfl⟩ := stake_ok_iff.1 h
    exact .move 0 onBehalfOf amount (fun t => rfl) (.inr hu) (fun h => absurd rfl h) (by simp [movedBalances, hu])
      (by simp [hu]) hp
  | redeem dst amount =>
    obtain ⟨-, -, -, -, hle, r, assets, p, w, w', -, -, hp, -, -, rfl⟩ := redeem_ok_iff.1 h
    exact .move m.sender 0 (min amount (s.balances m.sender)) (fun t => rfl) (.inl m.sender_ne)
      (fun _ => Nat.min_le_right _ _) (by simp [movedBalances, m.sender_ne]) (by simp [m.sender_ne, hle]) hp
  | cooldown =>
    obtain ⟨-, rfl⟩ := cooldown_ok_iff.1 h
    exact .keep (fun _ => rfl) rfl rfl rfl
  | claimRewards dst amount =>
    obtain ⟨n, h⟩ := exec_claimRewards_ok_iff.1 h
    obtain ⟨r, assets, w, -, -, -, -, -, rfl⟩ := claimRewards_ok_iff.1 h
    exact .keep (fun _ => rfl) rfl rfl rfl
  | transfer recipient amount => exact PowerStep.transfer (fun _ => rfl) h
  | transferFrom sender recipient amount =>
    obtain ⟨s₁, h₁, -, -, rfl⟩ := transferFrom_ok_iff.1 h
    exact (PowerStep.transfer (fun _ => rfl) h₁).approve
  | approve spender amount =>
    obtain ⟨-, -, rfl⟩ := approve_ok_iff.1 h
    exact .keep (fun _ => rfl) rfl rfl rfl
  | increaseAllowance spender addedValue =>
    obtain ⟨value, h⟩ := increaseAllowance_ok h
    obtain ⟨-, -, rfl⟩ := approve_ok_iff.1 h
    exact .keep (fun _ => rfl) rfl rfl rfl
  | decreaseAllowance spender subtractedValue =>
    obtain ⟨value, h⟩ := decreaseAllowance_ok h
    obtain ⟨-, -, rfl⟩ := approve_ok_iff.1 h
    exact .keep (fun _ => rfl) rfl rfl rfl
  | configureAssets inputs =>
    obtain ⟨-, assets, -, rfl⟩ := configureAssets_ok_iff.1 h
    exact .keep (fun _ => rfl) rfl rfl rfl
  | delegate y =>
    cases v with
    | v1 => cases h
    | v2 => exact .delegateBoth m.sender_ne (fun _ => rfl) rfl h
  | delegateByType y t =>
    cases v with
    | v1 => cases h
    | v2 => exact .delegateByType m.sender_ne (fun _ => rfl) rfl h
  | delegateBySig y nonce expiry signature =>
    cases v with
    | v1 => cases h
    | v2 =>
      simp only [exec, step, delegateBySig, Outcome.bind_ok_iff, Prod.exists, useNonce_ok_iff] at h
      obtain ⟨u, _, ⟨hrec, hu, -, -, rfl⟩, h⟩ := h
      exact .delegateBoth hu (fun _ => by simp [Tx.ends, hrec]) rfl h
  | delegateByTypeBySig y t nonce expiry signature =>
    cases v with
    | v1 => cases h
    | v2 =>
      simp only [exec, step, delegateByTypeBySig, Outcome.bind_ok_iff, Prod.exists, useNonce_ok_iff] at h
      obtain ⟨u, _, ⟨hrec, hu, -, -, rfl⟩, h⟩ := h
      exact .delegateByType hu (fun _ => by simp [Tx.ends, hrec]) rfl h
  | permit owner spender value deadline signature =>
    cases v with
    | v1 => cases h
    | v2 =>
      obtain ⟨-, -, -, -, -, rfl⟩ := permit_ok_iff.1 h
      exact .keep (fun _ => rfl) rfl rfl rfl

/-! ## What every step keeps -/

/-- The supply is what all hold together, and power of both types is exact. -/
structure PowerInv (s : State W) : Prop where
  supply : total s.balances = s.totalSupply
  power : ∀ t, PowerExact s.balances (s.power t)

/-- Under version 1 nobody has a delegatee, an account without a snapshot has
nothing, and nothing of proposition power is recorded. -/
structure PowerInvV1 (s : State W) : Prop extends PowerInv s where
  undelegated : (s.power .VOTING_POWER).delegates = fun _ => 0
  unrecorded : ∀ a, (s.power .VOTING_POWER).recorded a = none →
    share (s.power .VOTING_POWER).delegatee s.balances a = 0
  proposition : s.power .PROPOSITION_POWER = .empty

theorem PowerInvV1.fresh (g : Address) (w : W) : PowerInvV1 (State.fresh g w) :=
  { supply := by rw [Ledger.total_def]; exact Finset.sum_const_zero
    power := fun _ => .empty _
    undelegated := rfl
    unrecorded := fun _ _ => by rw [Ledger.share_def]; exact Finset.sum_const_zero
    proposition := rfl }

/-- A step changes the supply by what it changes the balances by. -/
theorem PowerStep.total (h : PowerStep D x s s') (hsupply : Ledger.total s.balances = s.totalSupply) :
    Ledger.total s'.balances = s'.totalSupply := by
  cases h with
  | keep _ hb hs _ => rw [hb, hs, hsupply]
  | move src dst amount _ _ ha hb hs _ =>
    have htotal : Ledger.total (movedBalances s.balances src dst amount) + _ = _ := total_movedBalances ha
    rw [← hb] at htotal
    omega
  | delegate _ _ _ _ _ _ _ hb hs _ _ => rw [hb, hs, hsupply]

/-- A step of version 2 keeps power exact, and the sums of the accounts it
leaves without a snapshot. -/
theorem PowerInv.power_step (hv : x.version = .v2) (h : PowerInv s) (hs' : s'.totalSupply < 2 ^ 128)
    (hx : exec D x s = .ok s') (t : DelegationType) :
    PowerExact s'.balances (s'.power t) ∧
      UnrecordedKept s.balances s'.balances (s.power t) (s'.power t) := by
  have hstep := powerStep_of_exec hx
  rw [← hstep.total h.supply] at hs'
  cases hstep with
  | keep _ hb _ hp => rw [hb, hp]; exact ⟨h.power t, fun _ hr => ⟨hr, rfl⟩⟩
  | move src dst amount _ _ ha hb _ hp =>
    have hpt := hp t
    rw [hv] at hpt
    rw [hb] at hs' ⊢
    exact (h.power t).moveDelegates ha hs' hpt
  | delegate u y types _ _ hu hy hb _ hp ho =>
    rw [hb] at hs' ⊢
    by_cases ht : t ∈ types
    · exact (h.power t).delegatePower hu hy hs' (hp t ht)
    · rw [ho t ht]; exact ⟨h.power t, fun _ hr => ⟨hr, rfl⟩⟩

theorem PowerInv.step (hv : x.version = .v2) (h : PowerInv s) (hs' : s'.totalSupply < 2 ^ 128)
    (hx : exec D x s = .ok s') : PowerInv s' :=
  ⟨(powerStep_of_exec hx).total h.supply, fun t => (h.power_step hv hs' hx t).1⟩

theorem PowerInvV1.step (hv : x.version = .v1) (h : PowerInvV1 s) (hs' : s'.totalSupply < 2 ^ 128)
    (hx : exec D x s = .ok s') : PowerInvV1 s' := by
  have hstep := powerStep_of_exec hx
  have htotal := hstep.total h.supply
  cases hstep with
  | keep _ hb _ hp => exact ⟨⟨htotal, fun t => by rw [hb, hp]; exact h.power t⟩, by rw [hp]; exact h.undelegated,
      by rw [hp, hb]; exact h.unrecorded, by rw [hp]; exact h.proposition⟩
  | move src dst amount _ _ ha hb _ hp =>
    have hvoting := hp .VOTING_POWER
    have hproposition := hp .PROPOSITION_POWER
    rw [hv] at hvoting hproposition
    rw [(h.power _).movePower_v1_iff h.undelegated] at hvoting
    rw [h.proposition] at hproposition
    have hempty : s'.power .PROPOSITION_POWER = .empty := (Except.ok.inj hproposition).symm
    rw [← htotal, hb] at hs'
    obtain ⟨hexact, hkept⟩ := (h.power _).moveDelegates ha hs' hvoting
    rw [← hb] at hexact hkept
    refine ⟨⟨htotal, fun t => ?_⟩, (moveDelegates_delegates hvoting).trans h.undelegated, fun a hr => ?_, hempty⟩
    · cases t with
      | VOTING_POWER => exact hexact
      | PROPOSITION_POWER => rw [hempty]; exact .empty _
    · rw [(hkept a hr).2]
      exact h.unrecorded a (hkept a hr).1
  | delegate _ _ _ _ hv2 => rw [hv] at hv2; cases hv2

/-! ## Runs -/

variable {g : Address} {w : W} {l l₁ l₂ : List Tx}

/-- The supply is what all hold together, whatever the versions. -/
theorem total_run : Ledger.total (run D (.fresh g w) l).balances = (run D (.fresh g w) l).totalSupply :=
  Runs.run_invariant (P := fun _ => True) (Q := fun _ => True)
    (I := fun s : State W => Ledger.total s.balances = s.totalSupply) (PowerInvV1.fresh g w).supply
    (fun _ _ _ _ _ _ hi hx => (powerStep_of_exec hx).total hi) (fun _ _ => trivial) fun _ _ => trivial

/-- The supply fits a snapshot in every state a run passes. -/
def SupplyBounded (D : Deployment W) (s : State W) (l : List Tx) : Prop :=
  ∀ p, p <+: l → (StakedToken.run D s p).totalSupply < 2 ^ 128

instance : Decidable (SupplyBounded D s l) :=
  decidable_of_iff (∀ p ∈ l.inits, (StakedToken.run D s p).totalSupply < 2 ^ 128) (by
    simp only [SupplyBounded, List.mem_inits])

theorem SupplyBounded.left (h : SupplyBounded D s (l₁ ++ l₂)) : SupplyBounded D s l₁ :=
  fun p hp => h p (hp.trans (List.prefix_append _ _))

theorem SupplyBounded.right (h : SupplyBounded D s (l₁ ++ l₂)) :
    SupplyBounded D (StakedToken.run D s l₁) l₂ := by
  intro p hp
  have := h (l₁ ++ p) ((List.prefix_append_right_inj l₁).2 hp)
  rwa [run_append] at this

theorem PowerInvV1.run (hv : ∀ x ∈ l, x.version = .v1) (hsupply : SupplyBounded D s l) (h : PowerInvV1 s) :
    PowerInvV1 (StakedToken.run D s l) :=
  Runs.run_invariant (P := fun s => s.totalSupply < 2 ^ 128) h
    (fun _ _ _ hv _ hs' hi hx => hi.step hv hs' hx) hv fun p hp => hsupply p hp

theorem PowerInv.run (hv : ∀ x ∈ l, x.version = .v2) (hsupply : SupplyBounded D s l) (h : PowerInv s) :
    PowerInv (StakedToken.run D s l) :=
  Runs.run_invariant (P := fun s => s.totalSupply < 2 ^ 128) h
    (fun _ _ _ hv _ hs' hi hx => hi.step hv hs' hx) hv fun p hp => hsupply p hp

/-- The invariant holds through an upgrade: after any run of version 1 and
then of version 2. -/
theorem PowerInv.upgraded (h₁ : ∀ x ∈ l₁, x.version = .v1) (h₂ : ∀ x ∈ l₂, x.version = .v2)
    (hsupply : SupplyBounded D (.fresh g w) (l₁ ++ l₂)) : PowerInv (StakedToken.run D (.fresh g w) (l₁ ++ l₂)) := by
  have hbefore : PowerInvV1 (StakedToken.run D (.fresh g w) l₁) :=
    (PowerInvV1.fresh g w).run h₁ hsupply.left
  rw [run_append]
  exact hbefore.toPowerInv.run h₂ hsupply.right

/-- The powers of all accounts make up the supply. -/
theorem PowerInv.sum_power (h : PowerInv s) (t : DelegationType) :
    ∑ a, lastPower s.balances (s.power t) a = s.totalSupply := by
  rw [← h.supply, ← Ledger.sum_share (s.power t).delegatee]
  exact Finset.sum_congr rfl fun a _ => (h.power t).lastPower_eq_share a

/-- An account without a snapshot stands for itself alone. -/
theorem PowerInv.share_of_unrecorded (h : PowerInv s) {t : DelegationType} {a : Address}
    (hr : (s.power t).recorded a = none) : share (s.power t).delegatee s.balances a = s.balances a :=
  Ledger.share_alone ((h.power t).alone a hr) s.balances

/-- A call about one type of power leaves the data of the other alone. -/
theorem power_other {t t' : DelegationType} (hx : exec D x s = .ok s') (ht : x.call.delegationType = some t)
    (hne : t' ≠ t) : s'.power t' = s.power t' := by
  have hends : x.ends D t' s = none := by
    obtain ⟨v, m, c⟩ := x
    cases c <;> simp only [Call.delegationType, reduceCtorEq, Option.some.injEq] at ht
    · simp [Tx.ends, ht, hne.symm]
    · simp only [Tx.ends, ht, hne.symm, if_false]
      split <;> rfl
  cases powerStep_of_exec hx with
  | keep _ _ _ hp => rw [hp]
  | move _ _ _ he => rw [he] at hends; cases hends
  | delegate u y types he _ _ _ _ _ _ ho =>
    rw [he] at hends
    exact ho t' fun hmem => by rw [if_pos hmem] at hends; cases hends

end

/-- **Delegation power is exact.** After any run of version 1 and then of
version 2, either empty, whose supply stays below 2^128: the power of an
account, of each type, is the sum of the balances of the holders whose
delegatee it is; the powers make up the supply; the zero address has no
delegatee; and a call about one type leaves the other's data alone. -/
theorem current_power_exact {g : Address} {w : W} {l₁ l₂ : List Tx} (h₁ : ∀ x ∈ l₁, x.version = .v1)
    (h₂ : ∀ x ∈ l₂, x.version = .v2) (hsupply : SupplyBounded D (.fresh g w) (l₁ ++ l₂)) :
    let s := run D (.fresh g w) (l₁ ++ l₂)
    (∀ t, (∀ a, lastPower s.balances (s.power t) a = ∑ d with getDelegateeByType d t s = a, s.balances d) ∧
      ∑ a, lastPower s.balances (s.power t) a = s.totalSupply ∧ (s.power t).delegates 0 = 0) ∧
    ∀ x s', exec D x s = .ok s' → ∀ t, x.call.delegationType = some t → ∀ t', t' ≠ t → s'.power t' = s.power t' := by
  intro s
  have hinv : PowerInv s := .upgraded h₁ h₂ hsupply
  refine ⟨fun t => ⟨fun a => ?_, hinv.sum_power t, (hinv.power t).zero⟩, fun x s' hx t ht t' hne => ?_⟩
  · rw [(hinv.power t).lastPower_eq_share a, Ledger.share_def]
    rfl
  · exact power_other hx ht hne

/-- A stake under version 1, then under version 2 a delegation to a
non-holder and a transfer that empties the delegator. -/
theorem current_power_exact_upgraded :
    let s := run .sample (.fresh 0 ())
      ([⟨.v1, ⟨.ofNat 10, 1, 200, by decide⟩, .stake (.ofNat 10) 7⟩] ++
        [⟨.v2, ⟨.ofNat 10, 2, 201, by decide⟩, .delegate (.ofNat 11)⟩,
          ⟨.v2, ⟨.ofNat 10, 3, 202, by decide⟩, .transfer (.ofNat 12) 7⟩])
    (∀ t, (∀ a, lastPower s.balances (s.power t) a = ∑ d with getDelegateeByType d t s = a, s.balances d) ∧
      ∑ a, lastPower s.balances (s.power t) a = s.totalSupply ∧ (s.power t).delegates 0 = 0) ∧
    ∀ x s', exec .sample x s = .ok s' → ∀ t, x.call.delegationType = some t →
      ∀ t', t' ≠ t → s'.power t' = s.power t' :=
  current_power_exact (by simp) (by simp) (by decide +kernel)

/-- Without the bound on the supply power is not exact: the snapshot of a
stake of 2^128 keeps the low bits, none of them set. -/
theorem current_power_wraps :
    let s := run .sample (.fresh 0 ()) [⟨.v2, ⟨.ofNat 10, 1, 200, by decide⟩, .stake (.ofNat 10) (2 ^ 128)⟩]
    lastPower s.balances (s.power .VOTING_POWER) (.ofNat 10) ≠
      ∑ d with getDelegateeByType d .VOTING_POWER s = .ofNat 10, s.balances d := by
  intro s
  have hpower : lastPower s.balances (s.power .VOTING_POWER) (.ofNat 10) = 0 := by decide +kernel
  have hbalance : s.balances (.ofNat 10) = 2 ^ 128 := by decide +kernel
  have hself : getDelegateeByType (.ofNat 10) .VOTING_POWER s = .ofNat 10 := by decide +kernel
  have hle := Ledger.le_share (fun d => getDelegateeByType d .VOTING_POWER s) s.balances (.ofNat 10)
  rw [hself, hbalance, Ledger.share_def] at hle
  rw [hpower]
  omega

end StarlayStake
