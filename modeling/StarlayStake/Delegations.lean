/-
What delegations are to everything but power: nothing. A delegation moves
power and no more, and power, being exact, is always there to be moved along
with tokens, so that no delegation makes a later call revert or go through.
A run and what is left of it without delegations end in the same storage but
for power (`delegations_neutral`).
-/
import StarlayStake.Power

namespace StarlayStake

open Outcome (Matches)
open StakedToken

variable {W : Type} {D : Deployment W}

/-- The delegations that an account makes itself. Those that it signs use a
nonce besides. -/
def Call.isDelegation : Call → Bool
  | .delegate _ => true
  | .delegateByType _ _ => true
  | _ => false

/-! ## Power is there to be moved -/

section

variable {balances : Address → Nat} {data : DelegationData} {src u : Address} {amount : Nat}

/-- What accounts have can be moved from who stands for them. -/
theorem PowerExact.exists_moveDelegates (h : PowerExact balances data) (number : Nat) (dst : Address)
    (f : Address → Address) (hsrc : src ≠ 0 → amount ≤ Ledger.share data.delegatee balances src)
    (hamount : Ledger.total balances + amount < 2 ^ 256) :
    ∃ data', StarlayStake.moveDelegates number balances src dst amount { data with delegates := f } = .ok data' := by
  have hlast : ∀ a, lastPower balances { data with delegates := f } a = Ledger.share data.delegatee balances a :=
    h.lastPower_eq_share
  have hdst := Ledger.share_le_total data.delegatee balances dst
  by_cases heq : src = dst
  · exact ⟨_, moveDelegates_ok_iff.2 ((if_pos heq).mpr rfl)⟩
  · refine ⟨_, moveDelegates_ok_iff.2 ((if_neg heq).mpr ⟨fun hne => ?_, fun _ => ?_, rfl⟩)⟩
    · rw [hlast]; exact hsrc hne
    · rw [hlast]; omega

theorem PowerExact.exists_movePower (h : PowerExact balances data) (number : Nat) (dst : Address) (t : DelegationType)
    (hsrc : src ≠ 0 → amount ≤ balances src) (hamount : Ledger.total balances + amount < 2 ^ 256) :
    ∃ data', movePower .v2 number balances src dst amount t data = .ok data' := by
  refine h.exists_moveDelegates number _ data.delegates (fun hne => ?_) hamount
  have hsrc' : src ≠ 0 := fun h0 => hne ((h.delegatee_eq_zero src).2 h0)
  exact (hsrc hsrc').trans (Ledger.le_share data.delegatee balances src)

theorem PowerExact.exists_delegatePower (h : PowerExact balances data) (number : Nat) (u y : Address)
    (hbound : Ledger.total balances < 2 ^ 128) :
    ∃ data', StarlayStake.delegatePower number balances u y data = .ok data' := by
  refine h.exists_moveDelegates number y _ (fun _ => Ledger.le_share data.delegatee balances u) ?_
  have hu := Ledger.le_total balances u
  omega

end

/-! ## Storages that differ in power -/

section

variable {x : Tx} {s s' : State W} {p : DelegationType → DelegationData}

theorem delegate_apart {m : Msg} {u y : Address} (hp : ∀ t, PowerExact s.balances (p t))
    (hbound : Ledger.total s.balances < 2 ^ 128) (h : delegate m u y s = .ok s') :
    ∃ p', delegate m u y { s with power := p } = .ok { s' with power := p' } := by
  obtain ⟨hy, q, -, rfl⟩ := delegate_ok_iff.1 h
  choose p' hp' using fun t => (hp t).exists_delegatePower m.number u y hbound
  exact ⟨p', delegate_ok_iff.2 ⟨hy, p', hp', rfl⟩⟩

theorem delegateByType_apart {m : Msg} {u y : Address} {t : DelegationType} (hp : ∀ t, PowerExact s.balances (p t))
    (hbound : Ledger.total s.balances < 2 ^ 128) (h : delegateByType m u y t s = .ok s') :
    ∃ p', delegateByType m u y t { s with power := p } = .ok { s' with power := p' } := by
  obtain ⟨hy, q, -, rfl⟩ := delegateByType_ok_iff.1 h
  obtain ⟨data, hdata⟩ := (hp t).exists_delegatePower m.number u y hbound
  exact ⟨_, delegateByType_ok_iff.2 ⟨hy, data, hdata, rfl⟩⟩

theorem transfer_apart {m : Msg} {src dst : Address} {amount : Nat} (hp : ∀ t, PowerExact s.balances (p t))
    (hbound : Ledger.total s.balances < 2 ^ 128) (h : transfer D m .v2 src dst amount s = .ok s') :
    ∃ p', transfer D m .v2 src dst amount { s with power := p } = .ok { s' with power := p' } := by
  have hsrc := Ledger.le_total s.balances src
  by_cases heq : src = dst
  · subst heq
    obtain ⟨hne, hcovered, hfits, r, assets, q, w, hsettle, hr, -, hw, rfl⟩ := transfer_self_ok_iff.1 h
    choose p' hp' using fun t => (hp t).exists_movePower m.number src t (fun _ : src ≠ 0 => hcovered) (by omega)
    exact ⟨p', transfer_self_ok_iff.2 ⟨hne, hcovered, hfits, r, assets, p', w, hsettle, hr, hp', hw, rfl⟩⟩
  · obtain ⟨hs, hd, hcovered, hfits, r, assets, r', assets', c, q, w, hsettle, hr, hsettle', hr', hc, -, hw, rfl⟩ :=
      (transfer_ok_iff heq).1 h
    choose p' hp' using fun t => (hp t).exists_movePower m.number dst t (fun _ : src ≠ 0 => hcovered) (by omega)
    exact ⟨p', (transfer_ok_iff heq).2
      ⟨hs, hd, hcovered, hfits, r, assets, r', assets', c, p', w, hsettle, hr, hsettle', hr', hc, hp', hw, rfl⟩⟩

/-- A call goes through whatever the power, as long as that is exact. -/
theorem exec_apart (hv : x.version = .v2) (hs : PowerInv s) (hp : ∀ t, PowerExact s.balances (p t))
    (hsupply : s.totalSupply < 2 ^ 128) (h : exec D x s = .ok s') :
    ∃ p', exec D x { s with power := p } = .ok { s' with power := p' } := by
  obtain ⟨v, m, c⟩ := x
  obtain rfl : v = .v2 := hv
  have hbound : Ledger.total s.balances < 2 ^ 128 := hs.supply.trans_lt hsupply
  cases c with
  | stake onBehalfOf amount =>
    obtain ⟨ha, hu, hfits, hb, r, assets, c, q, w, w', hsettle, hr, hc, -, hw, hw', rfl⟩ := stake_ok_iff.1 h
    choose p' hp' using fun t => (hp t).exists_movePower m.number onBehalfOf t
      (fun hne : (0 : Address) ≠ 0 => absurd rfl hne) (hs.supply.symm ▸ hfits)
    exact ⟨p', stake_ok_iff.2 ⟨ha, hu, hfits, hb, r, assets, c, p', w, w', hsettle, hr, hc, hp', hw, hw', rfl⟩⟩
  | redeem dst amount =>
    obtain ⟨ha, hc, ht, hlate, hle, r, assets, q, w, w', hsettle, hr, -, hw, hw', rfl⟩ := redeem_ok_iff.1 h
    have hmin : min amount (s.balances m.sender) ≤ s.totalSupply := hle
    choose p' hp' using fun t => (hp t).exists_movePower m.number 0 t
      (fun _ : m.sender ≠ 0 => Nat.min_le_right amount (s.balances m.sender)) (by omega)
    exact ⟨p', redeem_ok_iff.2 ⟨ha, hc, ht, hlate, hle, r, assets, p', w, w', hsettle, hr, hp', hw, hw', rfl⟩⟩
  | cooldown =>
    obtain ⟨hb, rfl⟩ := cooldown_ok_iff.1 h
    exact ⟨p, cooldown_ok_iff.2 ⟨hb, rfl⟩⟩
  | claimRewards dst amount =>
    obtain ⟨n, h⟩ := exec_claimRewards_ok_iff.1 h
    obtain ⟨r, assets, w, hsettle, hr, hn, hle, hw, rfl⟩ := claimRewards_ok_iff.1 h
    exact ⟨p, exec_claimRewards_ok_iff.2 ⟨n, claimRewards_ok_iff.2 ⟨r, assets, w, hsettle, hr, hn, hle, hw, rfl⟩⟩⟩
  | transfer recipient amount => exact transfer_apart hp hbound h
  | transferFrom sender recipient amount =>
    obtain ⟨s₁, h₁, hamount, hne, rfl⟩ := transferFrom_ok_iff.1 h
    obtain ⟨p', h₁'⟩ := transfer_apart hp hbound h₁
    exact ⟨p', transferFrom_ok_iff.2 ⟨_, h₁', hamount, hne, rfl⟩⟩
  | approve spender amount =>
    obtain ⟨ho, hspender, rfl⟩ := approve_ok_iff.1 h
    exact ⟨p, approve_ok_iff.2 ⟨ho, hspender, rfl⟩⟩
  | increaseAllowance spender addedValue =>
    obtain ⟨amount, hamount, h⟩ := Outcome.bind_ok_iff.1 h
    obtain ⟨ho, hspender, rfl⟩ := approve_ok_iff.1 h
    exact ⟨p, Outcome.bind_ok_iff.2 ⟨amount, hamount, approve_ok_iff.2 ⟨ho, hspender, rfl⟩⟩⟩
  | decreaseAllowance spender subtractedValue =>
    obtain ⟨amount, hamount, h⟩ := Outcome.bind_ok_iff.1 h
    obtain ⟨ho, hspender, rfl⟩ := approve_ok_iff.1 h
    exact ⟨p, Outcome.bind_ok_iff.2 ⟨amount, hamount, approve_ok_iff.2 ⟨ho, hspender, rfl⟩⟩⟩
  | configureAssets inputs =>
    obtain ⟨hm, assets, hassets, rfl⟩ := configureAssets_ok_iff.1 h
    exact ⟨p, configureAssets_ok_iff.2 ⟨hm, assets, hassets, rfl⟩⟩
  | delegate y => exact delegate_apart hp hbound h
  | delegateByType y t => exact delegateByType_apart hp hbound h
  | delegateBySig y nonce expiry signature =>
    obtain ⟨signer, hrecover, hne, hnonce, htime, s₁, h₁, rfl⟩ := delegateBySig_ok_iff.1 h
    obtain ⟨p', h₁'⟩ := delegate_apart hp hbound h₁
    exact ⟨p', delegateBySig_ok_iff.2 ⟨signer, hrecover, hne, hnonce, htime, _, h₁', rfl⟩⟩
  | delegateByTypeBySig y t nonce expiry signature =>
    obtain ⟨signer, hrecover, hne, hnonce, htime, s₁, h₁, rfl⟩ := delegateByTypeBySig_ok_iff.1 h
    obtain ⟨p', h₁'⟩ := delegateByType_apart hp hbound h₁
    exact ⟨p', delegateByTypeBySig_ok_iff.2 ⟨signer, hrecover, hne, hnonce, htime, _, h₁', rfl⟩⟩
  | permit owner spender value deadline signature =>
    obtain ⟨ho, htime, hspender, hfits, hrecover, rfl⟩ := permit_ok_iff.1 h
    exact ⟨p, permit_ok_iff.2 ⟨ho, htime, hspender, hfits, hrecover, rfl⟩⟩

/-- A delegation changes power alone. -/
theorem power_of_delegation (hx : x.call.isDelegation = true) (h : exec D x s = .ok s') :
    ∃ p, s' = { s with power := p } := by
  obtain ⟨v, m, c⟩ := x
  cases c with
  | delegate y =>
    cases v with
    | v1 => cases h
    | v2 =>
      obtain ⟨-, p, -, rfl⟩ := delegate_ok_iff.1 h
      exact ⟨p, rfl⟩
  | delegateByType y t =>
    cases v with
    | v1 => cases h
    | v2 =>
      obtain ⟨-, data, -, rfl⟩ := delegateByType_ok_iff.1 h
      exact ⟨_, rfl⟩
  | _ => cases hx

/-- Two storages that agree but for power, which is exact in both. -/
structure Apart (s t : State W) : Prop where
  left : PowerInv s
  right : PowerInv t
  bounded : s.totalSupply < 2 ^ 128
  same : ∃ p, t = { s with power := p }

variable {t : State W}

theorem Apart.delegation (hv : x.version = .v2) (hx : x.call.isDelegation = true) (hbound : s'.totalSupply < 2 ^ 128)
    (h : Apart s t) (hs : exec D x s = .ok s') : Apart s' t := by
  obtain ⟨q, rfl⟩ := power_of_delegation hx hs
  obtain ⟨p, rfl⟩ := h.same
  exact ⟨h.left.step hv hbound hs, h.right, h.bounded, p, rfl⟩

theorem Apart.matches (hv : x.version = .v2) (h : Apart s t) :
    Matches (fun a b => a.totalSupply < 2 ^ 128 → Apart a b) (exec D x s) (exec D x t) := by
  obtain ⟨p, rfl⟩ := h.same
  refine .of_ok (fun a ha => ?_) fun b hb => ?_
  · obtain ⟨p', hb⟩ := exec_apart hv h.left h.right.power h.bounded ha
    exact ⟨_, hb, fun hbound => ⟨h.left.step hv hbound ha, h.right.step hv hbound hb, hbound, p', rfl⟩⟩
  · obtain ⟨p', ha⟩ := exec_apart (p := s.power) hv h.right h.left.power h.bounded hb
    exact ⟨_, ha⟩

theorem Apart.run {l : List Tx} (hv : ∀ x ∈ l, x.version = .v2) (hsupply : SupplyBounded D s l) (h : Apart s t) :
    Apart (StakedToken.run D s l) (StakedToken.run D t (l.filter fun x => !x.call.isDelegation)) :=
  Runs.run_filter (P := fun s => s.totalSupply < 2 ^ 128) (Q := fun x => x.version = .v2)
    (fun _ _ _ _ hv hx hbound h hs => h.delegation hv (by simpa using hx) hbound hs)
    (fun _ _ _ hv _ h => h.matches hv) h hv fun p hp => hsupply p hp

end

/-- **Delegations cost nothing and take nothing.** After any run of version 1,
leave any run of version 2 without the delegations that accounts make: it ends
in the same storage and the same world but for power, and each call of the run
goes through after what is left of those before it if and only if it did after
all of them. -/
theorem delegations_neutral {g : Address} {w : W} {l₁ l : List Tx} (h₁ : ∀ x ∈ l₁, x.version = .v1)
    (h : ∀ x ∈ l, x.version = .v2) (hsupply : SupplyBounded D (.fresh g w) (l₁ ++ l)) :
    let without (l : List Tx) := run D (.fresh g w) (l₁ ++ l.filter fun x => !x.call.isDelegation)
    without l = { run D (.fresh g w) (l₁ ++ l) with power := (without l).power } ∧
    ∀ q x, q ++ [x] <+: l → (exec D x (without q)).isOk = (exec D x (run D (.fresh g w) (l₁ ++ q))).isOk := by
  intro without
  have hstart : PowerInv (run D (.fresh g w) l₁) := ((PowerInvV1.fresh g w).run h₁ hsupply.left).toPowerInv
  have hbound : (run D (.fresh g w) l₁).totalSupply < 2 ^ 128 := hsupply l₁ (List.prefix_append ..)
  have hapart : ∀ q, q <+: l → Apart (run D (.fresh g w) (l₁ ++ q)) (without q) := by
    intro q hq
    have hq' : SupplyBounded D (run D (.fresh g w) l₁) q := fun p hp => hsupply.right p (hp.trans hq)
    simp only [without, run_append]
    exact Apart.run (fun x hx => h x (hq.subset hx)) hq' ⟨hstart, hstart, hbound, _, rfl⟩
  refine ⟨?_, fun q x hq => ?_⟩
  · obtain ⟨p, hp⟩ := (hapart l (List.prefix_refl l)).same
    rw [hp]
  · have hv : x.version = .v2 := h x (hq.subset (by simp))
    exact ((hapart q ((List.prefix_append q [x]).trans hq)).matches hv).isOk_iff.symm

/-- Two holders, each other's delegatees, one of whom moves all it has. -/
theorem delegations_neutral_mutual :
    let holder : Msg := ⟨.ofNat 10, 2, 201, sampleHolder_ne⟩
    let other : Msg := ⟨.ofNat 11, 2, 201, sampleOther_ne⟩
    let l : List Tx := [⟨.v2, other, .stake (.ofNat 11) 5⟩, ⟨.v2, holder, .delegate (.ofNat 11)⟩,
      ⟨.v2, other, .delegateByType (.ofNat 10) .VOTING_POWER⟩, ⟨.v2, holder, .transfer (.ofNat 12) 7⟩]
    let l₁ : List Tx := [⟨.v1, holder, .stake (.ofNat 10) 7⟩]
    let without := run .sample (.fresh 0 ()) (l₁ ++ l.filter fun x => !x.call.isDelegation)
    (l.filter fun x => !x.call.isDelegation).length = 2 ∧
      without = { run .sample (.fresh 0 ()) (l₁ ++ l) with power := without.power } := by
  intro holder other l l₁ without
  have hsupply : SupplyBounded .sample (.fresh 0 ()) (l₁ ++ l) := by decide +kernel
  exact ⟨rfl, (delegations_neutral (by simp [l₁]) (by simp [l]) hsupply).1⟩

end StarlayStake
