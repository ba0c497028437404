/-
Rewards under callbacks. A claim asks the vault for what it took off the
books before, so a token that calls back finds it taken. Beside a session go
the books of an ideal distribution (`Books`), in which a claim counts from
when the vault is asked on, and not any more when it is undone
(`bookedSession`). At every moment everybody's rewards, claimed and
claimable, track their ideal share, as they do without callbacks, and all
together come to no more than was emitted (`callbacks_rewards`).
-/
import StarlayStake.Callbacks
import StarlayStake.ProRata

namespace StarlayStake

open StakedToken

variable {W : Type} {D : Deployment W}

/-- The books do not depend on the world. -/
theorem Fair.world {now : Nat} {s : State W} {b : Books} (h : Fair D now s b) (w : W) :
    Fair D now { s with world := w } b :=
  ⟨⟨h.rewards.last, h.rewards.users⟩, h.supply, h.last_le, h.time_le, h.tracks, h.emitted⟩

/-- The session with books beside it. -/
def bookedSession (D : Deployment W) (s : State W) (l : Moves W) :
    Reentrancy.Session TokenTransfer (State W × Books) String :=
  ((waiting D).recording (Books.note D.quiet)).session (s, .empty) l

/-- The books at a moment. -/
def sessionBooks (D : Deployment W) (s : State W) (l : Moves W) : Books := (bookedSession D s l).state.2

section

variable {s : State W} {g : Address} {w : W} {l : Moves W} {T : Nat}

/-- The books beside a session are kept about the session. -/
theorem bookedSession_state (s : State W) (l : Moves W) :
    (bookedSession D s l).state = ((session D s l).state, sessionBooks D s l) := by
  exact Prod.ext (Reentrancy.Contract.session_recording (waiting D) (Books.note D.quiet) s .empty l) rfl

/-- Every entry for the staked token that is passed, in a callback or not,
passes what is staked then. -/
def SupplyPassedIn (D : Deployment W) (s : State W) (l : Moves W) : Prop :=
  ∀ q x, q ++ [.enter x] <+: l → x.PassesSupply D (session D s q).state

theorem Fair.session (htimes : (l.filterMap Reentrancy.Move.entered).Pairwise fun x y => x.msg.timestamp ≤ y.msg.timestamp)
    (hl : ∀ x, .enter x ∈ l → x.msg.timestamp ≤ T) (hT : T < 2 ^ 128) (hsupply : SupplyPassedIn D (.fresh g w) l) :
    Fair D.quiet T (StarlayStake.session D (.fresh g w) l).state (sessionBooks D (.fresh g w) l) := by
  have h := Reentrancy.Contract.invariant_clocked (C := (waiting D).recording (Books.note D.quiet)) (l := l)
    (s := (.fresh g w, .empty)) (tail D).recording (fun x : Tx => x.msg.timestamp)
    (fun now p => Fair D.quiet now p.1 p.2) (Q := fun x p => x.msg.timestamp < 2 ^ 128 ∧ x.PassesSupply D p.1)
    (fun _ _ _ hle h => h.mono hle) (fun x p p' hx hp hs => ?_) (fun _ o _ hp => hp.world o) Fair.fresh
    htimes (fun q x hq => ?_) (fun _ _ => Nat.zero_le _) (Nat.zero_le T) hl
  · have hstate := h.state
    rw [show ((waiting D).recording (Books.note D.quiet)).session (.fresh g w, .empty) l =
      bookedSession D (.fresh g w) l from rfl, bookedSession_state] at hstate
    exact hstate
  · obtain ⟨hs, hnote⟩ := Reentrancy.Contract.recording_plain_ok_iff.1 hs
    rw [plain_eq] at hs
    rw [hnote]
    exact hp.step hx.1 hx.2 hs
  · have hstate := bookedSession_state (D := D) (.fresh g w) q
    rw [bookedSession] at hstate
    rw [hstate]
    exact ⟨(hl x (hq.subset (by simp))).trans_lt hT, hsupply q x hq⟩

end

/-- **Callbacks gain no rewards, and cost none.** Whatever tokens do while
calls wait for them, where entries of `configureAssets` pass what is staked:
at every moment, and so also inside a callback, an account's rewards, those
the vault was asked for by claims not undone and those claimable, are at most
its ideal share; and at least that, less one for every accrual and one for the
view's, and less its balance in units of the index for every update of the
index and for the view's. All together come to no more than was emitted. -/
theorem callbacks_rewards {g : Address} {w : W} {l : Moves W} {T : Nat}
    (htimes : (l.filterMap Reentrancy.Move.entered).Pairwise fun x y => x.msg.timestamp ≤ y.msg.timestamp)
    (hl : ∀ x, .enter x ∈ l → x.msg.timestamp ≤ T) (hT : T < 2 ^ 128) (hsupply : SupplyPassedIn D (.fresh g w) l) :
    let s := (session D (.fresh g w) l).state
    let b := (sessionBooks D (.fresh g w) l).upTo D.quiet s T
    (∀ u n, getTotalRewardsBalance D T u s = .ok n →
      (b.claimed u + n : ℚ) ≤ b.ideal u ∧
        b.ideal u - (b.accruals u + 1) - (b.dust u + s.balances u / 10 ^ 18) ≤ b.claimed u + n) ∧
    ∀ n : Address → Nat, (∀ u, getTotalRewardsBalance D T u s = .ok (n u)) → ∑ u, (b.claimed u + n u) ≤ b.emitted := by
  intro s b
  have hfair : Fair D.quiet T s (sessionBooks D (.fresh g w) l) := .session htimes hl hT hsupply
  exact ⟨fun u n hn => hfair.answered hn, fun n hn => hfair.sum_answered hn⟩

/-- A holder claims, and while the vault is asked claims all that is left,
and once more, and stakes under a token that fails. -/
theorem callbacks_rewards_again :
    let holder (timestamp : Nat) : Msg := ⟨.ofNat 10, 2, timestamp, sampleHolder_ne⟩
    let l : Moves Unit := [
      .enter ⟨.v2, ⟨.ofNat 5, 1, 190, sampleManager_ne⟩, .configureAssets [⟨10, 0, .ofNat 1, by decide⟩]⟩,
      .enter ⟨.v2, holder 200, .stake (.ofNat 10) 7⟩, .answer,
      .enter ⟨.v2, holder 210, .claimRewards (.ofNat 10) 50⟩,
      .enter ⟨.v2, holder 210, .claimRewards (.ofNat 10) uint256Max⟩,
      .enter ⟨.v2, holder 210, .claimRewards (.ofNat 10) uint256Max⟩,
      .enter ⟨.v2, holder 210, .stake (.ofNat 10) 3⟩, .undo]
    let s := (session .sample (.fresh 0 ()) l).state
    let b := (sessionBooks .sample (.fresh 0 ()) l).upTo (Deployment.quiet .sample) s 220
    (session .sample (.fresh 0 ()) l).pending.length = 3 ∧ b.claimed (.ofNat 10) = 99 ∧
      getTotalRewardsBalance .sample 220 (.ofNat 10) s = .ok 99 ∧
      (b.claimed (.ofNat 10) + (99 : ℕ) : ℚ) ≤ b.ideal (.ofNat 10) := by
  intro holder l s b
  have hsupply : SupplyPassedIn .sample (.fresh 0 ()) l := by
    intro q x hq
    cases q with
    | nil =>
      obtain rfl := Reentrancy.Move.enter.inj (List.cons_prefix_cons.1 hq).1
      decide
    | cons m q =>
      -- no other call configures anything
      have hx : .enter x ∈ l.tail := (List.cons_prefix_cons.1 hq).2.subset (by simp)
      simp only [l, List.tail_cons, List.mem_cons, Reentrancy.Move.enter.injEq, reduceCtorEq, List.not_mem_nil,
        false_or, or_false] at hx
      rcases hx with rfl | rfl | rfl | rfl | rfl <;> exact fun input hinput => absurd hinput List.not_mem_nil
  have hl : ∀ x, .enter x ∈ l → x.msg.timestamp ≤ 220 := by simp [l, holder]
  have hclaimable : getTotalRewardsBalance .sample 220 (.ofNat 10) s = .ok 99 := by decide +kernel
  have h := callbacks_rewards (T := 220) (by decide) hl (by decide) hsupply
  exact ⟨by decide +kernel, by decide +kernel, hclaimable, (h.1 _ _ hclaimable).1⟩

end StarlayStake
