/-
Version 2 in place of version 1. Where nobody delegates, the two versions
answer the shared calls alike and write the same snapshots
(`replacement_exact`): version 2 derives a snapshot from the last one,
version 1 from the balance, and the two agree because power is exact in
every state either version reaches. The proposition power version 2 keeps
besides is checked against the same numbers, so it never makes a call
revert that version 1 answers.
-/
import StarlayStake.Power

namespace StarlayStake

open Outcome (Matches)
open StakedToken

variable {W : Type} {D : Deployment W} {m : Msg} {s₁ s₂ : State W} {src dst : Address} {amount : Nat}

/-- The calls both versions have. -/
def Call.shared : Call → Bool
  | .delegate _ => false
  | .delegateByType _ _ => false
  | .delegateBySig _ _ _ _ => false
  | .delegateByTypeBySig _ _ _ _ _ => false
  | .permit _ _ _ _ _ => false
  | _ => true

/-- What is assumed outside: `R` relates worlds in which the tokens are the
same, and the governance hook neither reverts nor touches the tokens. -/
structure HarmlessHook (ext : Externals W) (R : W → W → Prop) : Prop where
  isContract : ∀ w w' token, R w w' → ext.isContract token w = ext.isContract token w'
  transfer : ∀ w w' token sender dst value, R w w' →
    Matches (fun r r' => r.1 = r'.1 ∧ R r.2 r'.2) (ext.transfer token sender dst value w)
      (ext.transfer token sender dst value w')
  transferFrom : ∀ w w' token sender src dst value, R w w' →
    Matches (fun r r' => r.1 = r'.1 ∧ R r.2 r'.2) (ext.transferFrom token sender src dst value w)
      (ext.transferFrom token sender src dst value w')
  onTransfer : ∀ governance src dst amount w, ∃ w₁, ext.onTransfer governance src dst amount w = .ok w₁ ∧
    ∀ w', (R w w' → R w₁ w') ∧ (R w' w → R w' w₁)

/-- A version 1 state and a version 2 state that agree: on everything but
proposition power, governance hook and nonces; and version 2 has no
delegates. -/
structure Related (R : W → W → Prop) (s₁ s₂ : State W) : Prop where
  balances : s₂.balances = s₁.balances
  allowances : s₂.allowances = s₁.allowances
  totalSupply : s₂.totalSupply = s₁.totalSupply
  assets : s₂.assets = s₁.assets
  stakerRewardsToClaim : s₂.stakerRewardsToClaim = s₁.stakerRewardsToClaim
  stakersCooldowns : s₂.stakersCooldowns = s₁.stakersCooldowns
  snapshots : (s₂.power .VOTING_POWER).snapshots = (s₁.power .VOTING_POWER).snapshots
  snapshotsCounts : (s₂.power .VOTING_POWER).snapshotsCounts = (s₁.power .VOTING_POWER).snapshotsCounts
  delegates : ∀ t, (s₂.power t).delegates = fun _ => 0
  world : R s₁.world s₂.world

theorem Related.exists_eq {R : W → W → Prop} (h : Related R s₁ s₂) :
    ∃ power governance nonces world, s₂ = { s₁ with power, governance, nonces, world } := by
  obtain ⟨b, a, ts, p, g, as, r, c, n, w⟩ := s₂
  obtain ⟨hb, ha, hts, has, hr, hc, -, -, -, -⟩ := h
  dsimp only at hb ha hts has hr hc
  subst hb ha hts has hr hc
  exact ⟨p, g, n, w, rfl⟩

/-- Two such states with what each version keeps of its own. -/
structure Synced (R : W → W → Prop) (s₁ s₂ : State W) : Prop extends Related R s₁ s₂ where
  left : PowerInvV1 s₁
  right : PowerInv s₂

theorem Synced.setAssets {R : W → W → Prop} (h : Synced R s₁ s₂) (assets : Address → AssetData) :
    Synced R { s₁ with assets } { s₂ with assets } :=
  { h with
    assets := rfl
    left := { h.left with supply := h.left.supply, power := h.left.power }
    right := { h.right with supply := h.right.supply, power := h.right.power } }

theorem Synced.setRewards {R : W → W → Prop} (h : Synced R s₁ s₂) (f : Address → Nat) :
    Synced R { s₁ with stakerRewardsToClaim := f } { s₂ with stakerRewardsToClaim := f } :=
  { h with
    stakerRewardsToClaim := rfl
    left := { h.left with supply := h.left.supply, power := h.left.power }
    right := { h.right with supply := h.right.supply, power := h.right.power } }

theorem Synced.setCooldowns {R : W → W → Prop} (h : Synced R s₁ s₂) (f : Address → Nat) :
    Synced R { s₁ with stakersCooldowns := f } { s₂ with stakersCooldowns := f } :=
  { h with
    stakersCooldowns := rfl
    left := { h.left with supply := h.left.supply, power := h.left.power }
    right := { h.right with supply := h.right.supply, power := h.right.power } }

/-! ## The outside -/

section

variable {R : W → W → Prop} (hhook : HarmlessHook D.ext R) {w₁ w₂ : W}
include hhook

theorem callOptionalReturn_matches {token : Address} {call : W → Except String (Option Bool × W)} (hw : R w₁ w₂)
    (hcall : Matches (fun r r' => r.1 = r'.1 ∧ R r.2 r'.2) (call w₁) (call w₂)) :
    Matches R (SafeERC20.callOptionalReturn D.ext token call w₁)
      (SafeERC20.callOptionalReturn D.ext token call w₂) := by
  refine .of_ok (fun a ha => ?_) (fun b hb => ?_)
  · obtain ⟨hc, r, hr, hne⟩ := SafeERC20.callOptionalReturn_ok_iff.1 ha
    obtain ⟨⟨r', b⟩, hr', heq, hR⟩ := hcall.of_left hr
    refine ⟨b, SafeERC20.callOptionalReturn_ok_iff.2 ⟨?_, r', hr', ?_⟩, hR⟩
    · rw [← hhook.isContract w₁ w₂ token hw]; exact hc
    · rw [← show r = r' from heq]; exact hne
  · obtain ⟨hc, r, hr, hne⟩ := SafeERC20.callOptionalReturn_ok_iff.1 hb
    obtain ⟨⟨r', a⟩, hr', heq, -⟩ := hcall.of_right hr
    refine ⟨a, SafeERC20.callOptionalReturn_ok_iff.2 ⟨?_, r', hr', ?_⟩⟩
    · rw [hhook.isContract w₁ w₂ token hw]; exact hc
    · rw [show r' = r from heq]; exact hne

/-- The hook, called under either version, answers a world like before. -/
theorem notified_matches (src dst : Address) (amount : Nat) {g₁ g₂ : Address} (hw : R w₁ w₂) :
    ∃ w₁' w₂', notified D .v1 src dst amount g₁ w₁ = .ok w₁' ∧ notified D .v2 src dst amount g₂ w₂ = .ok w₂' ∧
      R w₁' w₂' := by
  have hone : ∀ v g w, ∃ w', notified D v src dst amount g w = .ok w' ∧
      ∀ w₀, (R w w₀ → R w' w₀) ∧ (R w₀ w → R w₀ w') := by
    intro v g w
    unfold notified
    split
    · exact ⟨w, rfl, fun _ => ⟨id, id⟩⟩
    · exact hhook.onTransfer g src dst amount w
  obtain ⟨w₁', h₁, hR₁⟩ := hone .v1 g₁ w₁
  obtain ⟨w₂', h₂, hR₂⟩ := hone .v2 g₂ w₂
  exact ⟨w₁', w₂', h₁, h₂, (hR₂ w₁').2 ((hR₁ w₂).1 hw)⟩

end

/-! ## Power -/

/-- Where nobody has a delegatee, a move of version 2 answers when its
amounts fit the balances, whatever the type. -/
theorem PowerExact.exists_movePower_iff {number : Nat} {balances : Address → Nat} {data : DelegationData}
    (h : PowerExact balances data) (hnone : data.delegates = fun _ => 0) (t : DelegationType) :
    (∃ data', movePower .v2 number balances src dst amount t data = .ok data') ↔
      src = dst ∨ (src ≠ 0 → amount ≤ balances src) ∧ (dst ≠ 0 → balances dst + amount < 2 ^ 256) := by
  have hself : ∀ d, getDelegatee d data.delegates = d := fun d => by simp [getDelegatee, hnone]
  simp only [movePower, hself, moveDelegates_ok_iff, h.lastPower_undelegated hself]
  by_cases heq : src = dst
  · simp [heq]
  · simp [heq]

/-- Before a transfer the two versions write the same voting snapshots, and
the proposition snapshots version 2 writes besides never make it revert. -/
theorem movePower_matches {R : W → W → Prop} (h : Synced R s₁ s₂) {number : Nat} :
    (∀ p : DelegationType → DelegationData,
      (∀ t, movePower .v1 number s₁.balances src dst amount t (s₁.power t) = .ok (p t)) →
        ∃ p' : DelegationType → DelegationData,
          (∀ t, movePower .v2 number s₂.balances src dst amount t (s₂.power t) = .ok (p' t)) ∧
            p' .VOTING_POWER = p .VOTING_POWER ∧ ∀ t, (p' t).delegates = fun _ => 0) ∧
    ∀ p' : DelegationType → DelegationData,
      (∀ t, movePower .v2 number s₂.balances src dst amount t (s₂.power t) = .ok (p' t)) →
        ∃ p : DelegationType → DelegationData,
          ∀ t, movePower .v1 number s₁.balances src dst amount t (s₁.power t) = .ok (p t) := by
  have hvoting : s₁.power .VOTING_POWER = s₂.power .VOTING_POWER := by
    have h₁ := h.left.undelegated
    have h₂ := h.delegates .VOTING_POWER
    have h₃ := h.snapshots
    have h₄ := h.snapshotsCounts
    generalize s₁.power .VOTING_POWER = d₁ at *
    generalize s₂.power .VOTING_POWER = d₂ at *
    cases d₁; cases d₂
    simp_all
  have hiff : ∀ data', movePower .v1 number s₁.balances src dst amount .VOTING_POWER (s₁.power .VOTING_POWER) =
      .ok data' ↔ movePower .v2 number s₂.balances src dst amount .VOTING_POWER (s₂.power .VOTING_POWER) = .ok data' := by
    intro data'
    rw [← hvoting, h.balances]
    exact (h.left.power _).movePower_v1_iff h.left.undelegated
  constructor
  · intro p hp
    have hv := (hiff _).1 (hp .VOTING_POWER)
    -- the proposition move passes the checks the voting move passed
    have hmoves := ((h.right.power _).exists_movePower_iff (h.delegates _) .VOTING_POWER).1 ⟨_, hv⟩
    obtain ⟨d, hd⟩ := ((h.right.power .PROPOSITION_POWER).exists_movePower_iff (h.delegates _) _).2 hmoves
    refine ⟨powerOf (p .VOTING_POWER) d, fun t => ?_, rfl, fun t => ?_⟩
    · cases t with
      | VOTING_POWER => exact hv
      | PROPOSITION_POWER => exact hd
    · cases t with
      | VOTING_POWER => exact (moveDelegates_delegates hv).trans (h.delegates _)
      | PROPOSITION_POWER => exact (moveDelegates_delegates hd).trans (h.delegates _)
  · intro p' hp'
    refine ⟨powerOf (p' .VOTING_POWER) (s₁.power .PROPOSITION_POWER), fun t => ?_⟩
    cases t with
    | VOTING_POWER => exact (hiff _).2 (hp' _)
    | PROPOSITION_POWER => rfl

/-! ## The functions, in turn -/

section

variable {R : W → W → Prop} (hhook : HarmlessHook D.ext R)
include hhook

theorem beforeTokenTransfer_matches (h : Synced R s₁ s₂) :
    Matches (Related R) (beforeTokenTransfer D m .v1 src dst amount s₁)
      (beforeTokenTransfer D m .v2 src dst amount s₂) := by
  obtain ⟨w₁, w₂, hw₁, hw₂, hR⟩ := notified_matches hhook src dst amount h.world
  obtain ⟨hto, hfrom⟩ := movePower_matches h
  refine .of_ok (fun a ha => ?_) (fun b hb => ?_)
  · obtain ⟨p, w, hp, hw, rfl⟩ := beforeTokenTransfer_ok_iff.1 ha
    obtain ⟨p', hp', hvoting, hdelegates⟩ := hto p hp
    obtain rfl : w₁ = w := Except.ok.inj (hw₁.symm.trans hw)
    exact ⟨_, beforeTokenTransfer_ok_iff.2 ⟨p', w₂, hp', hw₂, rfl⟩,
      { h.toRelated with
        snapshots := congrArg DelegationData.snapshots hvoting
        snapshotsCounts := congrArg DelegationData.snapshotsCounts hvoting
        delegates := hdelegates
        world := hR }⟩
  · obtain ⟨p', w, hp', -, rfl⟩ := beforeTokenTransfer_ok_iff.1 hb
    obtain ⟨p, hp⟩ := hfrom p' hp'
    exact ⟨_, beforeTokenTransfer_ok_iff.2 ⟨p, w₁, hp, hw₁, rfl⟩⟩

theorem superTransfer_matches (h : Synced R s₁ s₂) :
    Matches (Related R) (superTransfer D m .v1 src dst amount s₁) (superTransfer D m .v2 src dst amount s₂) := by
  refine .bind_same fun _ _ => .bind_same fun _ _ => .bind (beforeTokenTransfer_matches hhook h) fun a b hab => ?_
  obtain ⟨p, g, n, w, rfl⟩ := hab.exists_eq
  refine .bind_same fun senderBalance _ => .bind_same fun recipientBalance _ => ?_
  exact .ok { hab with balances := rfl }

theorem mint_matches (h : Synced R s₁ s₂) :
    Matches (Related R) (mint D m .v1 dst amount s₁) (mint D m .v2 dst amount s₂) := by
  refine .bind_same fun _ _ => .bind (beforeTokenTransfer_matches hhook h) fun a b hab => ?_
  obtain ⟨p, g, n, w, rfl⟩ := hab.exists_eq
  refine .bind_same fun totalSupply _ => .bind_same fun accountBalance _ => ?_
  exact .ok { hab with balances := rfl, totalSupply := rfl }

theorem burn_matches (h : Synced R s₁ s₂) :
    Matches (Related R) (burn D m .v1 src amount s₁) (burn D m .v2 src amount s₂) := by
  refine .bind_same fun _ _ => .bind (beforeTokenTransfer_matches hhook h) fun a b hab => ?_
  obtain ⟨p, g, n, w, rfl⟩ := hab.exists_eq
  refine .bind_same fun accountBalance _ => .bind_same fun totalSupply _ => ?_
  exact .ok { hab with balances := rfl, totalSupply := rfl }

end

section

variable {R : W → W → Prop}

theorem updateCurrentUnclaimedRewards_matches (h : Synced R s₁ s₂) (user : Address) (userBalance : Nat)
    (updateStorage : Bool) :
    Matches (fun r r' => r.1 = r'.1 ∧ Synced R r.2 r'.2)
      (updateCurrentUnclaimedRewards D m user userBalance updateStorage s₁)
      (updateCurrentUnclaimedRewards D m user userBalance updateStorage s₂) := by
  obtain ⟨p, g, n, w, rfl⟩ := h.exists_eq
  refine .bind_same fun updated _ => .bind_same fun unclaimedRewards _ => ?_
  split
  · exact .ok ⟨rfl, (h.setAssets _).setRewards _⟩
  · exact .ok ⟨rfl, h.setAssets _⟩

/-- A call that settles its caller goes on from two storages in step. -/
theorem settled_matches {α β : Type} {S : α → β → Prop} {user : Address} {userBalance : Nat} {updateStorage : Bool}
    {f : Nat × State W → Except String α} {f' : Nat × State W → Except String β} (h : Synced R s₁ s₂)
    (hf : ∀ total a b, Synced R a b → Matches S (f (total, a)) (f' (total, b))) :
    Matches S (updateCurrentUnclaimedRewards D m user userBalance updateStorage s₁ >>= f)
      (updateCurrentUnclaimedRewards D m user userBalance updateStorage s₂ >>= f') := by
  refine .bind (updateCurrentUnclaimedRewards_matches h _ _ _) fun r r' hr => ?_
  obtain ⟨⟨total, a⟩, total', b⟩ := r, r'
  obtain ⟨rfl, hab⟩ := hr
  exact hf total a b hab

theorem approve_matches (h : Related R s₁ s₂) {owner spender : Address} :
    Matches (Related R) (approve owner spender amount s₁) (approve owner spender amount s₂) := by
  obtain ⟨p, g, n, w, rfl⟩ := h.exists_eq
  refine .bind_same fun _ _ => .bind_same fun _ _ => ?_
  exact .ok { h with allowances := rfl }

variable (hhook : HarmlessHook D.ext R)
include hhook

theorem stake_matches (h : Synced R s₁ s₂) :
    Matches (Related R) (stake D m .v1 dst amount s₁) (stake D m .v2 dst amount s₂) := by
  obtain ⟨p, g, n, w, rfl⟩ := h.exists_eq
  refine .bind_same fun _ _ => .bind_same fun updated _ => .bind_same fun rewards _ => .bind_same fun cooldown _ => ?_
  refine .bind (mint_matches hhook (((h.setAssets _).setRewards _).setCooldowns _)) fun a b hab => ?_
  refine .bind (callOptionalReturn_matches hhook hab.world
    (hhook.transferFrom _ _ _ _ _ _ _ hab.world)) fun w w' hw => ?_
  exact .ok { hab with world := hw }

theorem redeem_matches (h : Synced R s₁ s₂) :
    Matches (Related R) (redeem D m .v1 dst amount s₁) (redeem D m .v2 dst amount s₂) := by
  obtain ⟨p, g, n, w, rfl⟩ := h.exists_eq
  refine .bind_same fun _ _ => .bind_same fun cooldownEnd _ => .bind_same fun _ _ => .bind_same fun elapsed _ =>
    .bind_same fun _ _ => ?_
  refine settled_matches h fun total s s' hs => ?_
  refine .bind (burn_matches hhook hs) fun a b hab => ?_
  refine .bind_same fun balanceLeft _ => ?_
  have hleft : Related R
      (if balanceLeft = 0 then { a with stakersCooldowns := Function.update a.stakersCooldowns m.sender 0 } else a)
      (if balanceLeft = 0 then { b with stakersCooldowns := Function.update b.stakersCooldowns m.sender 0 } else b) := by
    split
    · exact { hab with stakersCooldowns := congrArg (Function.update · m.sender 0) hab.stakersCooldowns }
    · exact hab
  refine .bind (callOptionalReturn_matches hhook hleft.world
    (hhook.transfer _ _ _ _ _ _ hleft.world)) fun w w' hw => ?_
  exact .ok { hleft with world := hw }

theorem claimRewards_matches (h : Synced R s₁ s₂) :
    Matches (fun r r' => Related R r.2 r'.2) (claimRewards D m dst amount s₁) (claimRewards D m dst amount s₂) := by
  obtain ⟨p, g, n, w, rfl⟩ := h.exists_eq
  refine settled_matches h fun total s s' hs => ?_
  obtain ⟨p, g, n, w, rfl⟩ := hs.exists_eq
  refine .bind_same fun rewardsLeft _ => ?_
  refine .bind (callOptionalReturn_matches hhook hs.world
    (hhook.transferFrom _ _ _ _ _ _ _ hs.world)) fun w w' hw => ?_
  exact .ok { (hs.setRewards _).toRelated with world := hw }

theorem transfer_matches (h : Synced R s₁ s₂) :
    Matches (Related R) (transfer D m .v1 src dst amount s₁) (transfer D m .v2 src dst amount s₂) := by
  obtain ⟨p, g, n, w, rfl⟩ := h.exists_eq
  refine settled_matches h fun total s s' hs => ?_
  obtain ⟨p, g, n, w, rfl⟩ := hs.exists_eq
  split
  · refine settled_matches hs fun total s s' hs => ?_
    obtain ⟨p, g, n, w, rfl⟩ := hs.exists_eq
    refine .bind_same fun cooldown _ => superTransfer_matches hhook ?_
    split
    · exact (hs.setCooldowns _).setCooldowns _
    · exact hs.setCooldowns _
  · exact superTransfer_matches hhook hs

theorem transferFrom_matches (h : Synced R s₁ s₂) :
    Matches (Related R) (transferFrom D m .v1 src dst amount s₁) (transferFrom D m .v2 src dst amount s₂) := by
  refine .bind (transfer_matches hhook h) fun a b hab => ?_
  rw [hab.allowances]
  exact .bind_same fun allowance _ => approve_matches hab

/-- A shared call, under the two versions. -/
theorem step_matches {c : Call} (hc : c.shared = true) (h : Synced R s₁ s₂) :
    Matches (Related R) (step D m .v1 c s₁) (step D m .v2 c s₂) := by
  cases c with
  | stake onBehalfOf amount => exact stake_matches hhook h
  | redeem dst amount => exact redeem_matches hhook h
  | cooldown =>
    obtain ⟨p, g, n, w, rfl⟩ := h.exists_eq
    exact .bind_same fun _ _ => .ok (h.setCooldowns _).toRelated
  | claimRewards dst amount => exact .bind (claimRewards_matches hhook h) fun r r' hr => .ok hr
  | transfer recipient amount => exact transfer_matches hhook h
  | transferFrom sender recipient amount => exact transferFrom_matches hhook h
  | approve spender amount => exact approve_matches h.toRelated
  | increaseAllowance spender addedValue =>
    obtain ⟨p, g, n, w, rfl⟩ := h.exists_eq
    exact .bind_same fun amount _ => approve_matches h.toRelated
  | decreaseAllowance spender subtractedValue =>
    obtain ⟨p, g, n, w, rfl⟩ := h.exists_eq
    exact .bind_same fun amount _ => approve_matches h.toRelated
  | configureAssets inputs =>
    obtain ⟨p, g, n, w, rfl⟩ := h.exists_eq
    exact .bind_same fun assets _ => .ok (h.setAssets _).toRelated
  | delegate y => cases hc
  | delegateByType y t => cases hc
  | delegateBySig y nonce expiry signature => cases hc
  | delegateByTypeBySig y t nonce expiry signature => cases hc
  | permit owner spender value deadline signature => cases hc

/-! ## Runs -/

/-- Calls made under a version. -/
def under (v : Version) (l : List (Msg × Call)) : List Tx := l.map fun c => ⟨v, c.1, c.2⟩

omit hhook in
theorem run_under (v : Version) (s : State W) (l : List (Msg × Call)) :
    run D s (under v l) = Runs.run (fun (c : Msg × Call) => exec D ⟨v, c.1, c.2⟩) s l :=
  (Runs.run_map ..).symm

/-- Related states stay so, and each version keeps its own invariant. -/
theorem Synced.run {l : List (Msg × Call)} (h : Synced R s₁ s₂) (hshared : ∀ c ∈ l, c.2.shared = true)
    (hsupply : SupplyBounded D s₁ (under .v1 l)) :
    Synced R (StakedToken.run D s₁ (under .v1 l)) (StakedToken.run D s₂ (under .v2 l)) := by
  rw [run_under, run_under]
  refine Runs.run_simulation (P := fun s : State W => s.totalSupply < 2 ^ 128) (Q := fun c => c.2.shared = true)
    (fun c s s' hc hs h => ?_) h hshared fun p hp => ?_
  · refine (step_matches hhook hc h).mono fun a b ha hb hab hsupply => ?_
    have hsupply' : b.totalSupply < 2 ^ 128 := by rw [hab.totalSupply]; exact hsupply
    have hb' : exec D ⟨.v2, c.1, c.2⟩ s' = .ok b := hb
    exact { hab with left := h.left.step rfl hsupply ha, right := h.right.step rfl hsupply' hb' }
  · rw [← run_under]
    exact hsupply _ (hp.map _)

end

/-- **Version 2 without delegation is an exact replacement of version 1.**
Take a state version 1 reaches from empty and a related one reached under
version 2, from empty or by an upgrade, supplies below 2^128, and a hook
that does not revert and leaves the tokens alone. Any sequence of shared calls
succeeds or reverts call by call under both, and leaves related states: the
same snapshots, entry by entry, and the same balances, rewards and cooldowns. -/
theorem replacement_exact {R : W → W → Prop} (hhook : HarmlessHook D.ext R) {g g' : Address} {w w' : W}
    {l₁ k₁ k₂ : List Tx} (hl₁ : ∀ x ∈ l₁, x.version = .v1) (hsupply₁ : SupplyBounded D (.fresh g w) l₁)
    (hk₁ : ∀ x ∈ k₁, x.version = .v1) (hk₂ : ∀ x ∈ k₂, x.version = .v2)
    (hsupply₂ : SupplyBounded D (.fresh g' w') (k₁ ++ k₂))
    (hrel : Related R (run D (.fresh g w) l₁) (run D (.fresh g' w') (k₁ ++ k₂)))
    {l : List (Msg × Call)} (hshared : ∀ c ∈ l, c.2.shared = true)
    (hsupply : SupplyBounded D (run D (.fresh g w) l₁) (under .v1 l)) :
    let s₁ := run D (.fresh g w) l₁
    let s₂ := run D (.fresh g' w') (k₁ ++ k₂)
    Related R (run D s₁ (under .v1 l)) (run D s₂ (under .v2 l)) ∧
      ∀ p c, p ++ [c] <+: l →
        (exec D ⟨.v1, c.1, c.2⟩ (run D s₁ (under .v1 p))).isOk =
          (exec D ⟨.v2, c.1, c.2⟩ (run D s₂ (under .v2 p))).isOk := by
  intro s₁ s₂
  have hsynced : Synced R s₁ s₂ :=
    { hrel with
      left := (PowerInvV1.fresh g w).run hl₁ hsupply₁
      right := .upgraded hk₁ hk₂ hsupply₂ }
  refine ⟨(hsynced.run hhook hshared hsupply).toRelated, fun p c hp => ?_⟩
  have hpl : p <+: l := (List.prefix_append p [c]).trans hp
  have hsynced' : Synced R (run D s₁ (under .v1 p)) (run D s₂ (under .v2 p)) :=
    hsynced.run hhook (fun d hd => hshared d (hpl.subset hd)) fun q hq => hsupply q (hq.trans (hpl.map _))
  exact (step_matches hhook (hshared c (hp.subset (by simp))) hsynced').isOk_iff

theorem HarmlessHook.accepting : HarmlessHook Externals.accepting Eq :=
  { isContract := fun _ _ _ _ => rfl
    transfer := fun _ _ _ _ _ _ h => .ok ⟨rfl, h⟩
    transferFrom := fun _ _ _ _ _ _ _ h => .ok ⟨rfl, h⟩
    onTransfer := fun _ _ _ _ w => ⟨w, rfl, fun _ => ⟨id, id⟩⟩ }

/-- A stake under version 1; then that storage, left to version 1 and
upgraded in place, through a transfer, a call that reverts and a redemption. -/
theorem replacement_exact_upgraded :
    let before : List Tx := [⟨.v1, ⟨.ofNat 10, 1, 200, by decide⟩, .stake (.ofNat 10) 7⟩]
    let l : List (Msg × Call) := [(⟨.ofNat 10, 2, 201, by decide⟩, .transfer (.ofNat 11) 3),
      (⟨.ofNat 12, 3, 202, by decide⟩, .cooldown), (⟨.ofNat 10, 3, 202, by decide⟩, .cooldown),
      (⟨.ofNat 10, 4, 310, by decide⟩, .redeem (.ofNat 10) 4)]
    Related Eq (run .sample (run .sample (.fresh 0 ()) before) (under .v1 l))
      (run .sample (run .sample (.fresh 0 ()) (before ++ [])) (under .v2 l)) := by
  intro before l
  exact (@replacement_exact Unit .sample Eq .accepting 0 0 () () before before [] (by simp [before])
    (by decide +kernel) (by simp [before]) (by simp) (by decide +kernel)
    { balances := rfl, allowances := rfl, totalSupply := rfl, assets := rfl, stakerRewardsToClaim := rfl
      stakersCooldowns := rfl, snapshots := rfl, snapshotsCounts := rfl
      delegates := fun t => by cases t <;> rfl
      world := rfl } l (by simp [l, Call.shared]) (by decide +kernel)).1

end StarlayStake
