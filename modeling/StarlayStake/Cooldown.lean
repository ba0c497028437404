/-
The cooldown before a redemption. The stored timestamp of an account is
rewritten by stakes on its behalf and by transfers to it, and cleared when
its balance goes. None of that lets it redeem without a cooldown of its
own: where a timestamp is stored, the account called `cooldown`, held
tokens ever since, and the timestamp lies between that call and the last
time it received tokens (`CooledDown`). A weighted mean of timestamps keeps
within them, and whatever counts as expired becomes the present.
-/
import StarlayStake.Effects
import StarlayStake.Lib.Mean

namespace StarlayStake

open StakedToken

variable {W : Type} {D : Deployment W}

/-! ## Stored timestamps -/

section

variable {m : Msg} {s s' : State W} {src dst u : Address} {amount r : Nat}

/-- The next cooldown timestamp is none, or lies between the one stored and
now, and is the one stored where nothing is received. -/
theorem getNextCooldownTimestamp_bounds {fromCooldown toBalance : Nat} (hfrom : fromCooldown ≤ m.timestamp)
    (hto : s.stakersCooldowns dst ≤ m.timestamp)
    (h : getNextCooldownTimestamp D m fromCooldown amount dst toBalance s = .ok r) :
    r = 0 ∨ (s.stakersCooldowns dst ≤ r ∧ r ≤ m.timestamp ∧ s.stakersCooldowns dst ≠ 0 ∧
      (amount = 0 → r = s.stakersCooldowns dst)) := by
  simp only [getNextCooldownTimestamp] at h
  split at h
  · exact .inl (Except.ok.inj h).symm
  · next hne =>
    simp only [Outcome.bind_ok_iff, SafeMath.sub_ok_iff] at h
    obtain ⟨_, ⟨-, rfl⟩, minimal, ⟨-, hminimal⟩, h⟩ := h
    split at h
    · exact .inl (Except.ok.inj h).symm
    · right
      have hfrom' : (if minimal > fromCooldown then m.timestamp else fromCooldown) ≤ m.timestamp := by
        split <;> omega
      generalize (if minimal > fromCooldown then m.timestamp else fromCooldown) = f at h hfrom'
      split at h
      · obtain rfl := Except.ok.inj h
        exact ⟨le_refl _, hto, hne, fun _ => rfl⟩
      · next hge =>
        simp only [Outcome.bind_ok_iff, SafeMath.mul_ok_iff, SafeMath.add_ok_iff, SafeMath.div_ok_iff] at h
        obtain ⟨_, ⟨-, rfl⟩, _, ⟨-, rfl⟩, _, ⟨-, rfl⟩, _, ⟨-, rfl⟩, hpos, rfl⟩ := h
        refine ⟨Mean.le_mean hpos (not_lt.1 hge), Mean.mean_le hfrom' hto, hne, fun ha => ?_⟩
        subst ha
        exact Mean.mean_zero (by omega)

end

/-! ## What a call does to a stored timestamp -/

/-- The call gives tokens to `u`: a stake on its behalf, or a transfer to it
from another account of a non-zero amount. -/
def Tx.gives (x : Tx) (u : Address) : Bool :=
  match x.call with
  | .stake onBehalfOf _ => onBehalfOf = u
  | .transfer recipient amount => recipient = u ∧ x.msg.sender ≠ u ∧ amount ≠ 0
  | .transferFrom sender recipient amount => recipient = u ∧ sender ≠ u ∧ amount ≠ 0
  | _ => false

/-- The call is `u`'s own `cooldown`. -/
def Tx.isCooldownOf (x : Tx) (u : Address) : Prop := x.msg.sender = u ∧ x.call = .cooldown

/-- What a successful call does to the timestamp stored for `u`. -/
inductive CooldownStep (u : Address) (x : Tx) (s s' : State W) : Prop
  | own (hx : x.isCooldownOf u) (hset : s'.stakersCooldowns u = x.msg.timestamp) (hbalance : s'.balances u ≠ 0)
  | cleared (h : s'.stakersCooldowns u = 0)
  | kept (hx : ¬ x.isCooldownOf u) (h : s'.stakersCooldowns u = s.stakersCooldowns u)
      (hbalance : s.stakersCooldowns u ≠ 0 → s.balances u ≠ 0 → s'.balances u ≠ 0)
  | raised (hx : ¬ x.isCooldownOf u) (hgives : x.gives u = true) (hne : s.stakersCooldowns u ≠ 0)
      (hle : s.stakersCooldowns u ≤ s'.stakersCooldowns u) (hnow : s'.stakersCooldowns u ≤ x.msg.timestamp)
      (hbalance : s.balances u ≤ s'.balances u)

section

variable {x : Tx} {s s' : State W} {src dst u : Address} {amount : Nat}

theorem CooldownStep.same (hx : x.call ≠ .cooldown) (h : s'.stakersCooldowns u = s.stakersCooldowns u)
    (hbalance : s'.balances u = s.balances u) : CooldownStep u x s s' :=
  .kept (fun hc => hx hc.2) h fun _ hb => hbalance ▸ hb

theorem CooldownStep.transfer (hx : x.call ≠ .cooldown)
    (hgives : dst = u → src ≠ u → amount ≠ 0 → x.gives u = true)
    (hnow : ∀ a, s.stakersCooldowns a ≤ x.msg.timestamp)
    (h : StakedToken.transfer D x.msg x.version src dst amount s = .ok s') : CooldownStep u x s s' := by
  by_cases heq : src = dst
  · subst heq
    obtain ⟨-, ha, -, r, assets, p, w, -, -, -, -, rfl⟩ := transfer_self_ok_iff.1 h
    exact .same hx rfl (by rw [Ledger.credit_debit ha])
  · obtain ⟨-, -, ha, -, r, assets, r', assets', c, p, w, -, -, -, -, hc, -, -, rfl⟩ := (transfer_ok_iff heq).1 h
    by_cases hu : u = src
    · subst hu
      -- the sender's timestamp stays, unless the whole balance goes
      by_cases hwhole : s.balances u = amount ∧ s.stakersCooldowns u ≠ 0
      · exact .cleared (by simp [transferredCooldowns, hwhole])
      · refine .kept (fun hc => hx hc.2) (by simp [transferredCooldowns, hwhole, heq]) fun hcd hb => ?_
        show Ledger.credit (Ledger.debit s.balances u amount) dst amount u ≠ 0
        rw [Ledger.credit_of_ne heq, Ledger.debit_self]
        have : s.balances u ≠ amount := fun hbal => hwhole ⟨hbal, hcd⟩
        omega
    · by_cases hd : u = dst
      · subst hd
        have hset : transferredCooldowns src u amount c s u = c := by
          unfold transferredCooldowns
          split <;> simp [hu]
        have hbalance : Ledger.credit (Ledger.debit s.balances src amount) u amount u = s.balances u + amount := by
          rw [Ledger.credit_self, Ledger.debit_of_ne hu]
        rcases getNextCooldownTimestamp_bounds (hnow src) (hnow u) hc with rfl | ⟨hle, hle', hne, hzero⟩
        · exact .cleared hset
        · by_cases ha0 : amount = 0
          · exact .same hx (hset.trans (hzero ha0)) (by rw [ha0] at hbalance ⊢; exact hbalance)
          · exact .raised (fun hc => hx hc.2) (hgives rfl heq ha0) hne (hle.trans_eq hset.symm) (hset.trans_le hle')
              ((Nat.le_add_right _ _).trans_eq hbalance.symm)
      · refine .same hx ?_ ?_
        · show transferredCooldowns src dst amount c s u = _
          unfold transferredCooldowns
          split <;> simp [hu, hd]
        · show Ledger.credit (Ledger.debit s.balances src amount) dst amount u = _
          rw [Ledger.credit_of_ne hd, Ledger.debit_of_ne hu]

/-- Every successful call is such a step. -/
theorem cooldownStep_of_exec (hnow : ∀ a, s.stakersCooldowns a ≤ x.msg.timestamp) (h : exec D x s = .ok s') :
    CooldownStep u x s s' := by
  cases effect_of_exec h with
  | stake onBehalfOf amount hx h =>
    obtain ⟨ha, -, -, -, r, assets, c, p, w, w', -, -, hc, -, -, -, rfl⟩ := stake_ok_iff.1 h
    by_cases hu : u = onBehalfOf
    · subst hu
      rcases getNextCooldownTimestamp_bounds (Nat.zero_le _) (hnow u) hc with rfl | ⟨hle, hle', hne, -⟩
      · exact .cleared (by simp)
      · exact .raised (by simp [Tx.isCooldownOf, hx]) (by simp [Tx.gives, hx]) hne (by simpa using hle)
          (by simpa using hle') (by simp)
    · exact .same (by simp [hx]) (by simp [hu]) (Ledger.credit_of_ne hu)
  | redeem dst amount hx h =>
    obtain ⟨-, -, -, -, -, r, assets, p, w, w', -, -, -, -, -, rfl⟩ := redeem_ok_iff.1 h
    by_cases hu : u = x.msg.sender
    · subst hu
      by_cases hwhole : s.balances x.msg.sender ≤ amount
      · exact .cleared (by simp [hwhole])
      · refine .kept (by simp [Tx.isCooldownOf, hx]) (by simp [hwhole]) fun _ _ => ?_
        show Ledger.debit s.balances x.msg.sender (min amount (s.balances x.msg.sender)) x.msg.sender ≠ 0
        rw [Ledger.debit_self]
        omega
    · refine .same (by simp [hx]) ?_ (Ledger.debit_of_ne hu)
      show (if s.balances x.msg.sender ≤ amount then Function.update s.stakersCooldowns x.msg.sender 0
        else s.stakersCooldowns) u = _
      split <;> simp [hu]
  | cooldown hx h =>
    obtain ⟨hb, rfl⟩ := cooldown_ok_iff.1 h
    by_cases hu : x.msg.sender = u
    · subst hu
      exact .own ⟨rfl, hx⟩ (by simp) hb
    · exact .kept (fun hc => hu hc.1) (by simp [Ne.symm hu]) fun _ hb => hb
  | claimRewards dst amount n hx h =>
    obtain ⟨r, assets, w, -, -, -, -, -, rfl⟩ := claimRewards_ok_iff.1 h
    exact .same (by simp [hx]) rfl rfl
  | transfer src dst amount f s₁ hx h hs' =>
    have hne : x.call ≠ .cooldown := by rcases hx with ⟨hx, -⟩ | hx <;> simp [hx]
    have hgives : dst = u → src ≠ u → amount ≠ 0 → x.gives u = true := by
      intro hd hs ha
      rcases hx with ⟨hx, rfl⟩ | hx <;> simp [Tx.gives, hx, hd, hs, ha]
    have hstep : CooldownStep u x s s₁ := .transfer hne hgives hnow h
    subst hs'
    cases hstep with
    | own hx hset hb => exact .own hx hset hb
    | cleared h => exact .cleared h
    | kept hx h hb => exact .kept hx h hb
    | raised hx hg hne hle hle' hb => exact .raised hx hg hne hle hle' hb
  | configureAssets inputs hx h =>
    obtain ⟨-, assets, -, rfl⟩ := configureAssets_ok_iff.1 h
    exact .same (by simp [hx]) rfl rfl
  | aside hx f p n hs' =>
    subst hs'
    exact .same (fun hc => by rw [hc] at hx; cases hx) rfl rfl

/-- No stored timestamp gets past the present. -/
theorem stakersCooldowns_le_of_exec (hnow : ∀ a, s.stakersCooldowns a ≤ x.msg.timestamp) (h : exec D x s = .ok s')
    (a : Address) : s'.stakersCooldowns a ≤ x.msg.timestamp := by
  cases cooldownStep_of_exec (u := a) hnow h with
  | own _ hset _ => exact hset.le
  | cleared h => rw [h]; exact Nat.zero_le _
  | kept _ h _ => rw [h]; exact hnow a
  | raised _ _ _ _ hle _ => exact hle

end

/-! ## Runs -/

/-- When `u` last received tokens in a run, `last` if it did not. -/
def lastReceived (D : Deployment W) (u : Address) : State W → Nat → List Tx → Nat
  | _, last, [] => last
  | s, last, x :: l => lastReceived D u (Runs.attempt (exec D) s x)
      (if x.gives u = true ∧ (exec D x s).isOk = true then x.msg.timestamp else last) l

/-- The history behind a timestamp stored for `u`: its own latest successful
`cooldown`, tokens held at every moment since, and the timestamp between
that call and the last time it received tokens. -/
def CooledDown (D : Deployment W) (s₀ : State W) (u : Address) (l : List Tx) (stored : Nat) : Prop :=
  ∃ p c q, l = p ++ c :: q ∧ c.isCooldownOf u ∧ (∃ s', exec D c (run D s₀ p) = .ok s') ∧
    (∀ r y, r ++ [y] <+: q → y.isCooldownOf u → ∃ e, exec D y (run D s₀ (p ++ c :: r)) = .error e) ∧
    (∀ r, r <+: q → (run D s₀ (p ++ c :: r)).balances u ≠ 0) ∧
    c.msg.timestamp ≤ stored ∧ stored ≤ max c.msg.timestamp (lastReceived D u s₀ 0 l)

section

variable {s₀ s : State W} {u : Address} {l : List Tx} {x : Tx} {n last stored : Nat}

theorem lastReceived_concat : lastReceived D u s₀ last (l ++ [x]) =
    if x.gives u = true ∧ (exec D x (run D s₀ l)).isOk = true then x.msg.timestamp
    else lastReceived D u s₀ last l := by
  induction l generalizing s₀ last with
  | nil => rfl
  | cons y l ih => exact ih

theorem lastReceived_le (hlast : last ≤ n) (hl : ∀ x ∈ l, x.msg.timestamp ≤ n) : lastReceived D u s₀ last l ≤ n := by
  induction l generalizing s₀ last with
  | nil => exact hlast
  | cons y l ih =>
    refine ih ?_ fun x hx => hl x (List.mem_cons_of_mem _ hx)
    split
    · exact hl y List.mem_cons_self
    · exact hlast

/-- No timestamp stored is later than now. -/
theorem stakersCooldowns_le {g : Address} {w : W} (htimes : l.Pairwise fun x y => x.msg.timestamp ≤ y.msg.timestamp)
    (hl : ∀ x ∈ l, x.msg.timestamp ≤ n) (a : Address) : (run D (.fresh g w) l).stakersCooldowns a ≤ n := by
  exact Runs.run_invariant_clocked (fun x : Tx => x.msg.timestamp)
    (fun k (s : State W) => ∀ a, s.stakersCooldowns a ≤ k) (P := fun _ => True) (Q := fun _ => True)
    (fun k k' s hle hi a => (hi a).trans hle) (fun x s s' _ _ _ hi hs => stakersCooldowns_le_of_exec hi hs)
    (fun _ => Nat.zero_le _) htimes (fun _ _ => trivial) (fun _ _ => trivial) (fun _ _ => Nat.zero_le _)
    (Nat.zero_le _) hl a

/-- The history goes on through a call that leaves `u` tokens and is no
successful cooldown of its own. -/
theorem CooledDown.concat {stored' : Nat} (h : CooledDown D s₀ u l stored)
    (hx : x.isCooldownOf u → ∃ e, exec D x (run D s₀ l) = .error e)
    (hbalance : (run D s₀ l).balances u ≠ 0 → (run D s₀ (l ++ [x])).balances u ≠ 0) (hle : stored ≤ stored')
    (hbound : stored' ≤ max stored (lastReceived D u s₀ 0 (l ++ [x])))
    (hreceived : lastReceived D u s₀ 0 l ≤ lastReceived D u s₀ 0 (l ++ [x])) :
    CooledDown D s₀ u (l ++ [x]) stored' := by
  obtain ⟨p, c, q, rfl, hc, hs, hlatest, hheld, hlow, hhigh⟩ := h
  refine ⟨p, c, q ++ [x], by simp, hc, hs, fun r y hr hy => ?_, fun r hr => ?_, hlow.trans hle, by omega⟩
  · rcases List.prefix_concat_iff.1 hr with heq | hr
    · obtain ⟨rfl, hyx⟩ := List.append_inj' heq rfl
      obtain rfl := List.singleton_inj.1 hyx
      exact hx hy
    · exact hlatest r y hr hy
  · rcases List.prefix_concat_iff.1 hr with rfl | hr
    · have := hbalance (hheld q (List.prefix_refl q))
      rwa [List.append_assoc] at this
    · exact hheld r hr

/-- Where a timestamp is stored, the history behind it is there. -/
theorem cooledDown {g : Address} {w : W} (htimes : l.Pairwise fun x y => x.msg.timestamp ≤ y.msg.timestamp)
    (hstored : (run D (.fresh g w) l).stakersCooldowns u ≠ 0) :
    CooledDown D (.fresh g w) u l ((run D (.fresh g w) l).stakersCooldowns u) := by
  have hbefore : ∀ p x, p ++ [x] <+: l → p.Pairwise (fun x y => x.msg.timestamp ≤ y.msg.timestamp) ∧
      ∀ y ∈ p, y.msg.timestamp ≤ x.msg.timestamp := by
    intro p x hp
    have := htimes.sublist hp.sublist
    rw [List.pairwise_append] at this
    exact ⟨this.1, fun y hy => this.2.2 y hy x (by simp)⟩
  -- what a call receives is later than what was received before it
  have hreceived : ∀ p x, p ++ [x] <+: l →
      lastReceived D u (.fresh g w) 0 p ≤ lastReceived D u (.fresh g w) 0 (p ++ [x]) := by
    intro p x hp
    rw [lastReceived_concat]
    split
    · exact lastReceived_le (Nat.zero_le _) (hbefore p x hp).2
    · exact le_refl _
  refine Runs.run_history (exec D)
    (I := fun l s => s.stakersCooldowns u ≠ 0 → CooledDown D (.fresh g w) u l (s.stakersCooldowns u))
    (fun h => absurd rfl h) (fun p x s' hp hI hs hrun hne => ?_) (fun p x e hp hI hs hrun hne => ?_) hstored
  · have hrun' : run D (.fresh g w) (p ++ [x]) = s' := hrun
    have hs : exec D x (run D (.fresh g w) p) = .ok s' := hs
    obtain ⟨htimes, hle⟩ := hbefore p x hp
    cases cooldownStep_of_exec (u := u) (stakersCooldowns_le htimes hle) hs with
    | own hx hset hbalance =>
      refine ⟨p, x, [], rfl, hx, ⟨s', hs⟩, fun r y hr => ?_, fun r hr => ?_, hset.ge, hset.trans_le (le_max_left _ _)⟩
      · exact absurd (List.prefix_nil.1 hr) (by simp)
      · rw [List.prefix_nil.1 hr, hrun']
        exact hbalance
    | cleared h => exact absurd h hne
    | kept hx h hbalance =>
      rw [h] at hne ⊢
      exact (hI hne).concat (fun hx' => absurd hx' hx) (fun hb => hrun'.symm ▸ hbalance hne hb) (le_refl _)
        (le_max_left _ _) (hreceived p x hp)
    | raised hx hgives hne₀ hle hnow hbalance =>
      refine (hI hne₀).concat (fun hx' => absurd hx' hx) (fun hb => ?_) hle ?_ (hreceived p x hp)
      · rw [hrun']
        have : (run D (.fresh g w) p).balances u ≤ s'.balances u := hbalance
        omega
      · have hok : (exec D x (run D (.fresh g w) p)).isOk = true := by rw [hs]; rfl
        rw [lastReceived_concat, if_pos ⟨hgives, hok⟩]
        exact hnow.trans (le_max_right _ _)
  · have hrun' : run D (.fresh g w) (p ++ [x]) = run D (.fresh g w) p := hrun
    exact (hI hne).concat (fun _ => ⟨e, hs⟩) (fun hb => hrun'.symm ▸ hb) (le_refl _) (le_max_left _ _)
      (hreceived p x hp)

end

/-- **A redemption follows the redeemer's own full cooldown.** In a run of
either version whose timestamps do not decrease and are past the cooldown
and the window, an account that redeems made a successful `cooldown` call;
at every moment since the latest one it held tokens; and it redeems after
the cooldown, and within the window from that call or from the last time it
received tokens, whichever is later. -/
theorem redeem_after_cooldown {g : Address} {w : W} {l : List Tx} {x : Tx} {dst : Address} {amount : Nat}
    {s' : State W} (htimes : (l ++ [x]).Pairwise fun x y => x.msg.timestamp ≤ y.msg.timestamp)
    (hlate : ∀ y ∈ l ++ [x], D.COOLDOWN_SECONDS + D.UNSTAKE_WINDOW < y.msg.timestamp)
    (hx : x.call = .redeem dst amount) (hs : exec D x (run D (.fresh g w) l) = .ok s') :
    let u := x.msg.sender
    ∃ p c q, l = p ++ c :: q ∧ c.isCooldownOf u ∧ (∃ s', exec D c (run D (.fresh g w) p) = .ok s') ∧
      (∀ r y, r ++ [y] <+: q → y.isCooldownOf u → ∃ e, exec D y (run D (.fresh g w) (p ++ c :: r)) = .error e) ∧
      (∀ r, r <+: q → (run D (.fresh g w) (p ++ c :: r)).balances u ≠ 0) ∧
      c.msg.timestamp + D.COOLDOWN_SECONDS < x.msg.timestamp ∧
      x.msg.timestamp ≤
        max c.msg.timestamp (lastReceived D u (.fresh g w) 0 l) + D.COOLDOWN_SECONDS + D.UNSTAKE_WINDOW := by
  intro u
  have hlate := hlate x (by simp)
  have hredeem : redeem D x.msg x.version dst amount (run D (.fresh g w) l) = .ok s' := by
    rw [exec, hx] at hs; exact hs
  obtain ⟨-, -, hafter, hwindow, -⟩ := redeem_ok_iff.1 hredeem
  have hstored : (run D (.fresh g w) l).stakersCooldowns u ≠ 0 := fun h0 => by
    rw [show x.msg.sender = u from rfl, h0] at hwindow
    omega
  obtain ⟨p, c, q, hl, hc, hok, hlatest, hheld, hlow, hhigh⟩ :=
    cooledDown (List.pairwise_append.1 htimes).1 hstored
  refine ⟨p, c, q, hl, hc, hok, hlatest, hheld, ?_, ?_⟩
  · exact lt_of_le_of_lt (Nat.add_le_add_right hlow _) hafter
  · have : (run D (.fresh g w) l).stakersCooldowns x.msg.sender = (run D (.fresh g w) l).stakersCooldowns u := rfl
    omega

/-- A stake, a cooldown, another's stake on behalf that moves the stored
timestamp, and a redemption. -/
theorem redeem_after_cooldown_raised :
    let l : List Tx := [⟨.v2, ⟨.ofNat 10, 1, 200, by decide⟩, .stake (.ofNat 10) 7⟩,
      ⟨.v2, ⟨.ofNat 10, 2, 201, by decide⟩, .cooldown⟩, ⟨.v2, ⟨.ofNat 11, 3, 221, by decide⟩, .stake (.ofNat 10) 7⟩]
    let x : Tx := ⟨.v2, ⟨.ofNat 10, 4, 330, by decide⟩, .redeem (.ofNat 10) 14⟩
    ∃ p c q, l = p ++ c :: q ∧ c.isCooldownOf (.ofNat 10) ∧
      (∃ s', exec .sample c (run .sample (.fresh 0 ()) p) = .ok s') ∧
      (∀ r y, r ++ [y] <+: q → y.isCooldownOf (.ofNat 10) →
        ∃ e, exec .sample y (run .sample (.fresh 0 ()) (p ++ c :: r)) = .error e) ∧
      (∀ r, r <+: q → (run .sample (.fresh 0 ()) (p ++ c :: r)).balances (.ofNat 10) ≠ 0) ∧
      c.msg.timestamp + 100 < x.msg.timestamp ∧
      x.msg.timestamp ≤ max c.msg.timestamp (lastReceived .sample (.ofNat 10) (.fresh 0 ()) 0 l) + 100 + 50 := by
  intro l x
  obtain ⟨s', hs⟩ : ∃ s', exec .sample x (run .sample (.fresh 0 ()) l) = .ok s' := Outcome.exists_ok (by decide +kernel)
  exact redeem_after_cooldown (by simp [l, x]) (by simp [l, x, Deployment.sample]) rfl hs

end StarlayStake
