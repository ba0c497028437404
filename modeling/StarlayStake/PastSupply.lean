/-
The supply at past blocks. The powers at a block make up the supply at its
end (`RunV2.sum_power`), but `totalSupplyAt` answers with the supply now. It
is the supply at the end of the block for as long as nothing is minted or
burned after it, and only so long (`totalSupplyAt_iff`).
-/
import StarlayStake.PowerHistory

namespace StarlayStake

open StakedToken

variable {W : Type} {D : Deployment W} {g : Address} {w : W} {x : Tx} {s s' : State W} {l p : List Tx} {b n : Nat}

/-! ## Mints and burns -/

/-- A call that mints or burns: a stake that succeeds, or a redemption by a
holder that does. -/
def Tx.MintsOrBurns (D : Deployment W) (x : Tx) (s : State W) : Prop :=
  (exec D x s).isOk = true ∧
    match x.call with
    | .stake _ _ => True
    | .redeem _ _ => s.balances x.msg.sender ≠ 0
    | _ => False

theorem supply_of_exec (h : exec D x s = .ok s') : s'.totalSupply ≠ s.totalSupply ↔ x.MintsOrBurns D s := by
  have hok : (exec D x s).isOk = true := by rw [h]; rfl
  simp only [Tx.MintsOrBurns, hok, true_and]
  cases effect_of_exec h with
  | stake onBehalfOf amount hx hs =>
    obtain ⟨hamount, -, -, -, r, assets, c, p, w, w', -, -, -, -, -, -, rfl⟩ := stake_ok_iff.1 hs
    simp [hx, hamount]
  | redeem dst amount hx hs =>
    obtain ⟨hamount, -, -, -, hle, r, assets, p, w, w', -, -, -, -, -, rfl⟩ := redeem_ok_iff.1 hs
    simp only [hx]
    omega
  | cooldown hx hs =>
    obtain ⟨-, rfl⟩ := cooldown_ok_iff.1 hs
    simp [hx]
  | claimRewards dst amount n hx hs =>
    obtain ⟨r, assets, w, -, -, -, -, -, rfl⟩ := claimRewards_ok_iff.1 hs
    simp [hx]
  | transfer src dst amount f s₁ hx hs hs' =>
    have hsupply : s₁.totalSupply = s.totalSupply := by
      by_cases heq : src = dst
      · subst heq
        obtain ⟨-, -, -, r, assets, p, w, -, -, -, -, rfl⟩ := transfer_self_ok_iff.1 hs
        rfl
      · obtain ⟨-, -, -, -, r, assets, r', assets', c, p, w, -, -, -, -, -, -, -, rfl⟩ := (transfer_ok_iff heq).1 hs
        rfl
    subst hs'
    rcases hx with ⟨hx, -⟩ | hx <;> simp [hx, hsupply]
  | configureAssets inputs hx hs =>
    obtain ⟨-, assets, -, rfl⟩ := configureAssets_ok_iff.1 hs
    simp [hx]
  | aside hx f p n hs' =>
    subst hs'
    cases hc : x.call <;> simp_all [aside]

theorem supply_of_attempt : (Runs.attempt (exec D) s x).totalSupply ≠ s.totalSupply ↔ x.MintsOrBurns D s := by
  rcases Runs.attempt_cases (exec D) s x with ⟨s', hs, he⟩ | ⟨e, hs, he⟩
  · rw [he]
    exact supply_of_exec hs
  · rw [he]
    simp [Tx.MintsOrBurns, hs, Except.isOk, Except.toBool]

/-! ## Past blocks -/

/-- The powers at a block make up the supply at its end. -/
theorem RunV2.sum_power (h : RunV2 D (.fresh g w) n l) (hn : n < 2 ^ 128) (hb : b ≤ n) (t : DelegationType) :
    ∃ power : Address → Nat, (∀ u, StakedToken.getPowerAtBlock n u b t (run D (.fresh g w) l) = .ok (power u)) ∧
      ∑ u, power u = (run D (.fresh g w) (untilBlock b l)).totalSupply :=
  ⟨_, fun u => h.getPowerAtBlock hn hb u t, (Ledger.sum_share ..).trans total_run⟩

theorem untilBlock_self (h : ∀ x ∈ l, x.msg.number ≤ b) : untilBlock b l = l :=
  List.takeWhile_eq_self_iff.2 fun x hx => decide_eq_true (h x hx)

/-- A run cut off earlier, as it is then. -/
theorem RunV2.cut {m : Nat} {p q : List Tx} (h : RunV2 D s n (p ++ q)) (hm : ∀ x ∈ p, x.msg.number ≤ m) :
    RunV2 D s m p :=
  { h.left with le := hm }

/-- **Power and supply at past blocks.** Under version 2 from the start, a
run up to the end of block `b` and then on, with the supply and the block
numbers below 2^128. Whenever it is asked afterwards, in whatever block, the
powers at `b` make up what `totalSupplyAt` answers, and this is the supply
at the end of `b`, if and only if no call after block `b` mints or burns. -/
theorem totalSupplyAt_iff {l₁ l₂ : List Tx} (h : RunV2 D (.fresh g w) n (l₁ ++ l₂)) (hn : n < 2 ^ 128)
    (hbefore : ∀ x ∈ l₁, x.msg.number ≤ b) (hafter : ∀ x ∈ l₂, b < x.msg.number) :
    let atEnd := run D (.fresh g w) l₁
    (∀ p m, p <+: l₂ → (∀ x ∈ p, x.msg.number ≤ m) → b < m → m ≤ n → ∀ t,
      let s := run D (.fresh g w) (l₁ ++ p)
      totalSupplyAt b s = atEnd.totalSupply ∧
        ∃ power : Address → Nat, (∀ u, getPowerAtBlock m u b t s = .ok (power u)) ∧
          totalSupplyAt b s = ∑ u, power u) ↔
    ∀ p x, p ++ [x] <+: l₂ → ¬ x.MintsOrBurns D (run D (.fresh g w) (l₁ ++ p)) := by
  intro atEnd
  have hstep : ∀ p x, run D (.fresh g w) (l₁ ++ (p ++ [x])) =
      Runs.attempt (exec D) (run D (.fresh g w) (l₁ ++ p)) x := fun p x => by
    rw [← List.append_assoc]
    exact Runs.run_concat ..
  constructor
  · intro hagree p x hp hchanges
    have hx : x ∈ l₂ := hp.subset (by simp)
    have hbn : b < n := (hafter x hx).trans_le (h.le x (by simp [hx]))
    have hle : ∀ q, q <+: l₂ → ∀ y ∈ q, y.msg.number ≤ n := fun q hq y hy => h.le y (by simp [hq.subset hy])
    have hp' : p <+: l₂ := (List.prefix_append p [x]).trans hp
    have hsupply := (hagree p n hp' (hle p hp') hbn (le_refl n) .VOTING_POWER).1
    have hsupply' := (hagree (p ++ [x]) n hp (hle _ hp) hbn (le_refl n) .VOTING_POWER).1
    rw [hstep] at hsupply'
    exact supply_of_attempt.2 hchanges (hsupply'.trans hsupply.symm)
  · intro hnone p m hp hm hbm hmn t s
    have hsupply : s.totalSupply = atEnd.totalSupply := by
      clear hm
      induction p using List.reverseRecOn with
      | nil => simp only [s, List.append_nil, atEnd]
      | append_singleton p x ih =>
        have hkept : (Runs.attempt (exec D) (run D (.fresh g w) (l₁ ++ p)) x).totalSupply =
            (run D (.fresh g w) (l₁ ++ p)).totalSupply := by
          by_contra hne
          exact hnone p x hp (supply_of_attempt.1 hne)
        simp only [s, hstep, hkept]
        exact ih ((List.prefix_append p [x]).trans hp)
    refine ⟨hsupply, ?_⟩
    obtain ⟨q, rfl⟩ := hp
    have hall : ∀ x ∈ l₁ ++ p, x.msg.number ≤ m := by
      intro x hx
      rcases List.mem_append.1 hx with hx | hx
      · exact (hbefore x hx).trans hbm.le
      · exact hm x hx
    rw [← List.append_assoc] at h
    obtain ⟨power, hpower, hsum⟩ := (h.cut hall).sum_power (hmn.trans_lt hn) hbm.le t
    rw [untilBlock_append (fun x hx => hafter x (by simp [hx])), untilBlock_self hbefore] at hsum
    exact ⟨power, hpower, hsupply.trans hsum.symm⟩

/-- A stake in block 1, a delegation and a transfer in block 3, asked about
block 2 in block 4. -/
theorem totalSupplyAt_iff_moved :
    let l₁ : List Tx := [⟨.v2, ⟨.ofNat 10, 1, 200, by decide⟩, .stake (.ofNat 10) 7⟩]
    let l₂ : List Tx := [⟨.v2, ⟨.ofNat 10, 3, 202, by decide⟩, .delegate (.ofNat 11)⟩,
      ⟨.v2, ⟨.ofNat 10, 3, 202, by decide⟩, .transfer (.ofNat 12) 3⟩]
    let s := run .sample (.fresh 0 ()) (l₁ ++ l₂)
    totalSupplyAt 2 s = 7 ∧ ∃ power : Address → Nat,
      (∀ u, getPowerAtBlock 4 u 2 .PROPOSITION_POWER s = .ok (power u)) ∧ totalSupplyAt 2 s = ∑ u, power u := by
  intro l₁ l₂ s
  have hrun : RunV2 .sample (.fresh 0 ()) 4 (l₁ ++ l₂) :=
    { version := by simp [l₁, l₂], blocks := by simp [l₁, l₂], le := by simp [l₁, l₂], supply := by decide +kernel }
  have hnone : ∀ p x, p ++ [x] <+: l₂ → ¬ x.MintsOrBurns .sample (run .sample (.fresh 0 ()) (l₁ ++ p)) := by
    intro p x hp hchanges
    have hx : x ∈ l₂ := hp.subset (by simp)
    simp only [l₂, List.mem_cons, List.not_mem_nil, or_false] at hx
    rcases hx with rfl | rfl <;> exact hchanges.2
  have hagree := (totalSupplyAt_iff (b := 2) hrun (by decide) (by simp [l₁]) (by simp [l₂])).2 hnone l₂ 4
    (List.prefix_refl _) (by simp [l₂]) (by decide) (le_refl 4) .PROPOSITION_POWER
  exact ⟨by decide +kernel, hagree.2⟩

/-- A stake after the block: what `totalSupplyAt` answers is not the supply
at its end. -/
theorem totalSupplyAt_counts_later_stakes :
    let l : List Tx := [⟨.v2, ⟨.ofNat 10, 1, 200, by decide⟩, .stake (.ofNat 10) 7⟩,
      ⟨.v2, ⟨.ofNat 11, 3, 202, by decide⟩, .stake (.ofNat 11) 5⟩]
    totalSupplyAt 2 (run .sample (.fresh 0 ()) l) = 12 ∧
      (run .sample (.fresh 0 ()) (untilBlock 2 l)).totalSupply = 7 ∧
      getPowerAtBlock 4 (.ofNat 10) 2 .VOTING_POWER (run .sample (.fresh 0 ()) l) = .ok 7 := by
  decide +kernel

end StarlayStake
