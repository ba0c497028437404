/-
Power at past blocks across the upgrade from version 1 to version 2.

The upgrade keeps the voting snapshots of version 1, and starts proposition
power with none. A holder from before it has a balance and no proposition
snapshot, so the contract answers with that balance, for every past block,
until it first writes one, and with zero for every block before that write
from then on. So history holds after the upgrade at block `m` exactly as
long as no call in a later block makes that first write for a holder
(`Migrates`); within block `m` it does no harm, for the snapshot then is of
block `m` (`history_survives_iff`).
-/
import StarlayStake.PowerHistory

namespace StarlayStake

open Ledger (share)
open StakedToken

variable {W : Type} {D : Deployment W} {x : Tx} {s s' : State W} {l l₁ l₂ : List Tx} {b m n : Nat}

theorem DelegationData.recorded_eq_none_iff {data : DelegationData} {a : Address} :
    data.recorded a = none ↔ data.snapshotsCounts a = 0 := by
  unfold recorded
  split <;> simp_all

/-- A call of version 2, if it succeeds, writes a snapshot for `a`. -/
def Writes (D : Deployment W) (x : Tx) (t : DelegationType) (s : State W) (a : Address) : Prop :=
  ∃ y z, x.ends D t s = some (y, z) ∧ y ≠ z ∧ a ≠ 0 ∧ (a = y ∨ a = z)

/-- A call that succeeds and writes the first proposition snapshot of a
holder. -/
def Migrates (D : Deployment W) (x : Tx) (s : State W) : Prop :=
  (∃ s', exec D x s = .ok s') ∧
    ∃ a, Writes D x .PROPOSITION_POWER s a ∧ (s.power .PROPOSITION_POWER).snapshotsCounts a = 0 ∧ s.balances a ≠ 0

theorem recorded_none_iff_of_exec (hv : x.version = .v2) (hx : exec D x s = .ok s') (t : DelegationType)
    (a : Address) :
    (s'.power t).recorded a = none ↔ (s.power t).recorded a = none ∧ ¬ Writes D x t s a := by
  have hmoved : ∀ (data : DelegationData) {y z : Address} {amount : Nat},
      x.ends D t s = some (y, z) → data.recorded = (s.power t).recorded →
      StarlayStake.moveDelegates x.msg.number s.balances y z amount data = .ok (s'.power t) →
      ((s'.power t).recorded a = none ↔ (s.power t).recorded a = none ∧ ¬ Writes D x t s a) := by
    intro data y z amount hends hdata hm
    have hwrites : Writes D x t s a ↔ y ≠ z ∧ a ≠ 0 ∧ (a = y ∨ a = z) := by
      simp only [Writes, hends, Option.some.injEq, Prod.mk.injEq]
      constructor
      · rintro ⟨_, _, ⟨rfl, rfl⟩, h⟩; exact h
      · exact fun h => ⟨y, z, ⟨rfl, rfl⟩, h⟩
    rw [moveDelegates_recorded hm a, hwrites, hdata]
    split
    · next hend => simp [hend]
    · next hend => simp [hend]
  have hkeep : x.ends D t s = none → s'.power t = s.power t →
      ((s'.power t).recorded a = none ↔ (s.power t).recorded a = none ∧ ¬ Writes D x t s a) := by
    intro hends hp
    simp [hp, Writes, hends]
  cases powerStep_of_exec hx with
  | keep hends _ _ hp => exact hkeep (hends t) (by rw [hp])
  | move src dst amount hends _ _ _ _ hp =>
    have hpt := hp t
    rw [hv] at hpt
    exact hmoved _ (hends t) rfl hpt
  | delegate u y types hends _ _ _ _ _ hp ho =>
    by_cases ht : t ∈ types
    · exact hmoved { s.power t with delegates := Function.update (s.power t).delegates u y }
        (by rw [hends, if_pos ht]; rfl) rfl (hp t ht)
    · exact hkeep (by rw [hends, if_neg ht]) (ho t ht)

/-- Runs of version 1 up to the upgrade in block `m`, and of version 2 from
then on. -/
structure UpgradeRun (D : Deployment W) (s : State W) (m : Nat) (l₁ l₂ : List Tx) : Prop where
  before : ∀ x ∈ l₁, x.version = .v1 ∧ x.msg.number ≤ m
  after : ∀ x ∈ l₂, x.version = .v2 ∧ m ≤ x.msg.number
  blocks : (l₁ ++ l₂).Pairwise fun x y => x.msg.number ≤ y.msg.number
  number_lt : ∀ x ∈ l₁ ++ l₂, x.msg.number < 2 ^ 128
  supply : SupplyBounded D s (l₁ ++ l₂)

namespace UpgradeRun

variable {g : Address} {w : W} {u : Address} {t : DelegationType}

theorem of_prefix {p : List Tx} (h : UpgradeRun D s m l₁ l₂) (hp : p <+: l₂) : UpgradeRun D s m l₁ p := by
  obtain ⟨q, rfl⟩ := hp
  obtain ⟨hbefore, hafter, hblocks, hlt, hsupply⟩ := h
  rw [← List.append_assoc] at hblocks hlt hsupply
  exact ⟨hbefore, fun x hx => hafter x (List.mem_append_left q hx), (List.pairwise_append.1 hblocks).1,
    fun x hx => hlt x (List.mem_append_left q hx), hsupply.left⟩

theorem version₂ (h : UpgradeRun D s m l₁ l₂) : ∀ x ∈ l₂, x.version = .v2 := fun x hx => (h.after x hx).1

theorem inv (h : UpgradeRun D (.fresh g w) m l₁ l₂) : PowerInv (run D (.fresh g w) (l₁ ++ l₂)) :=
  .upgraded (fun x hx => (h.before x hx).1) h.version₂ h.supply

theorem ordered (h : UpgradeRun D (.fresh g w) m l₁ l₂) (hl₂ : ∀ x ∈ l₂, x.msg.number ≤ n) (hm : m ≤ n)
    (hn : n < 2 ^ 128) (t : DelegationType) : ((run D (.fresh g w) (l₁ ++ l₂)).power t).Ordered n := by
  refine run_ordered (Ordered.fresh g w) h.blocks (fun _ _ => Nat.zero_le _) (fun x hx => ?_) (Nat.zero_le _) hn t
  rcases List.mem_append.1 hx with hx | hx
  · exact (h.before x hx).2.trans hm
  · exact hl₂ x hx

/-- From the end of a block not before the upgrade on: a run of version 2. -/
theorem since (h : UpgradeRun D (.fresh g w) m l₁ l₂) (hb : m ≤ b) (hlt : b < 2 ^ 128) :
    Since b (run D (.fresh g w) (l₁ ++ untilBlock b l₂)) (run D (.fresh g w) (l₁ ++ l₂)) := by
  obtain ⟨r, hl, huntil, hafter⟩ := exists_afterBlock b (List.pairwise_append.1 h.blocks).2.1
  have hinit : UpgradeRun D (.fresh g w) m l₁ (untilBlock b l₂) := h.of_prefix ⟨r, hl.symm⟩
  have hmem : ∀ x ∈ r, x ∈ l₂ := fun x hx => by rw [hl]; exact List.mem_append_right _ hx
  have hsupply := h.supply
  have hblocks := (List.pairwise_append.1 h.blocks).2.1
  rw [hl, ← List.append_assoc] at hsupply
  rw [hl] at hblocks
  have hrun : run D (.fresh g w) (l₁ ++ l₂) = run D (run D (.fresh g w) (l₁ ++ untilBlock b l₂)) r := by
    rw [← run_append, List.append_assoc, ← hl]
  rw [hrun]
  exact ⟨run_past (hinit.ordered huntil hb hlt) (List.pairwise_append.1 hblocks).2.1 hafter
      fun x hx => h.number_lt x (List.mem_append_right _ (hmem x hx)),
    run_unrecorded hinit.inv (fun x hx => h.version₂ x (hmem x hx)) hsupply.right⟩

/-- The answer after the upgrade for a block not before it. -/
theorem getPowerAtBlock (h : UpgradeRun D (.fresh g w) m l₁ l₂) (hb : m ≤ b) (hbn : b ≤ n) (hn : n < 2 ^ 128)
    (hl₂ : ∀ x ∈ l₂, x.msg.number ≤ n) (u : Address) (t : DelegationType) :
    let s₁ := run D (.fresh g w) (l₁ ++ untilBlock b l₂)
    let s := run D (.fresh g w) (l₁ ++ l₂)
    StakedToken.getPowerAtBlock n u b t s =
      .ok (if (s₁.power t).recorded u = none ∧ (s.power t).recorded u ≠ none then 0
        else share (s₁.power t).delegatee s₁.balances u) := by
  have hlt := lt_of_le_of_lt hbn hn
  obtain ⟨r, hl, huntil, -⟩ := exists_afterBlock b (List.pairwise_append.1 h.blocks).2.1
  have hinit : UpgradeRun D (.fresh g w) m l₁ (untilBlock b l₂) := h.of_prefix ⟨r, hl.symm⟩
  exact (h.since hb hlt).getPowerAtBlock_eq hinit.inv (hinit.ordered huntil hb hlt) h.inv
    (h.ordered hl₂ (hb.trans hbn) hn) hbn u t

/-- An account without a voting snapshot after the upgrade stands for
nothing: under version 1 every holder got one. -/
theorem voting_unrecorded (h : UpgradeRun D (.fresh g w) m l₁ l₂)
    (hr : ((run D (.fresh g w) (l₁ ++ l₂)).power .VOTING_POWER).recorded u = none) :
    share ((run D (.fresh g w) (l₁ ++ l₂)).power .VOTING_POWER).delegatee (run D (.fresh g w) (l₁ ++ l₂)).balances u =
      0 := by
  have hbefore : PowerInvV1 (run D (.fresh g w) l₁) :=
    (PowerInvV1.fresh g w).run (fun x hx => (h.before x hx).1) h.supply.left
  rw [run_append] at hr ⊢
  obtain ⟨hr, heq⟩ := run_unrecorded hbefore.toPowerInv h.version₂ h.supply.right .VOTING_POWER u hr
  rw [heq]
  exact hbefore.unrecorded u hr

/-- A holder without a proposition snapshot at the end of a block gets none
in later blocks, if no call there migrates. -/
theorem proposition_unrecorded (h : UpgradeRun D (.fresh g w) m l₁ l₂) (hb : m ≤ b)
    (hcalls : ∀ p x, p ++ [x] <+: l₂ → m < x.msg.number → ¬ Migrates D x (run D (.fresh g w) (l₁ ++ p)))
    (hr : ((run D (.fresh g w) (l₁ ++ untilBlock b l₂)).power .PROPOSITION_POWER).recorded u = none)
    (hu : share ((run D (.fresh g w) (l₁ ++ untilBlock b l₂)).power .PROPOSITION_POWER).delegatee
      (run D (.fresh g w) (l₁ ++ untilBlock b l₂)).balances u ≠ 0) :
    ((run D (.fresh g w) (l₁ ++ l₂)).power .PROPOSITION_POWER).recorded u = none := by
  obtain ⟨r, hl, -, hafter⟩ := exists_afterBlock b (List.pairwise_append.1 h.blocks).2.1
  have hinit : UpgradeRun D (.fresh g w) m l₁ (untilBlock b l₂) := h.of_prefix ⟨r, hl.symm⟩
  have hmem : ∀ x ∈ r, x ∈ l₂ := fun x hx => by rw [hl]; exact List.mem_append_right _ hx
  have hsupply := h.supply
  rw [hl, ← List.append_assoc] at hsupply
  rw [hl, ← List.append_assoc, run_append]
  refine Runs.run_induction (I := fun s : State W => (s.power .PROPOSITION_POWER).recorded u = none) hr
    fun q x s' hq hI hs _ => ?_
  have hx : x ∈ r := hq.subset (by simp)
  have hqr : q <+: r := (List.prefix_append q [x]).trans hq
  refine (recorded_none_iff_of_exec (h.version₂ x (hmem x hx)) hs _ u).2 ⟨hI, fun hw => ?_⟩
  have hcall := hcalls (untilBlock b l₂ ++ q) x (by
    rw [List.append_assoc]
    nth_rewrite 2 [hl]
    exact (List.prefix_append_right_inj _).2 hq) (lt_of_le_of_lt hb (hafter x hx))
  rw [← List.append_assoc, run_append] at hcall
  refine hcall ⟨⟨s', hs⟩, u, hw, DelegationData.recorded_eq_none_iff.1 hI, ?_⟩
  have hv : ∀ x ∈ q, x.version = .v2 := fun x hx => h.version₂ x (hmem x (hqr.subset hx))
  have hsq : SupplyBounded D (run D (.fresh g w) (l₁ ++ untilBlock b l₂)) q :=
    fun p hp => hsupply.right p (hp.trans hqr)
  rw [← (hinit.inv.run hv hsq).share_of_unrecorded hI,
    (run_unrecorded hinit.inv hv hsq _ u hI).2]
  exact hu

end UpgradeRun

/-- **History across the upgrade, exactly.** In every state of a run after
the upgrade at block `m`, the power at every past block from `m` on is the
sum of the balances delegated to the account at the end of that block, if
and only if no call in a block after `m` writes the first proposition
snapshot of a holder. -/
theorem history_survives_iff {g : Address} {w : W} {l₁ l₂ : List Tx} {m : Nat}
    (h : UpgradeRun D (.fresh g w) m l₁ l₂) :
    (∀ p, p <+: l₂ → ∀ n, (∀ x ∈ p, x.msg.number ≤ n) → n < 2 ^ 128 → ∀ b, m ≤ b → b < n → ∀ u t,
      getPowerAtBlock n u b t (run D (.fresh g w) (l₁ ++ p)) =
        .ok (∑ d with getDelegateeByType d t (run D (.fresh g w) (l₁ ++ untilBlock b p)) = u,
          (run D (.fresh g w) (l₁ ++ untilBlock b p)).balances d)) ↔
      ∀ p x, p ++ [x] <+: l₂ → m < x.msg.number → ¬ Migrates D x (run D (.fresh g w) (l₁ ++ p)) := by
  constructor
  · rintro hhistory p x hp hx ⟨⟨s', hs⟩, u, hw, hcount, hbalance⟩
    have hpx : UpgradeRun D (.fresh g w) m l₁ (p ++ [x]) := h.of_prefix hp
    have hpre : UpgradeRun D (.fresh g w) m l₁ p := hpx.of_prefix (List.prefix_append p [x])
    have hlt := hpx.number_lt x (by simp)
    have hle : ∀ y ∈ p ++ [x], y.msg.number ≤ x.msg.number := by
      have hblocks := (List.pairwise_append.1 (List.pairwise_append.1 hpx.blocks).2.1).2.2
      intro y hy
      rcases List.mem_append.1 hy with hy | hy
      · exact hblocks y hy x (by simp)
      · rw [List.mem_singleton.1 hy]
    have hafter : run D (.fresh g w) (l₁ ++ (p ++ [x])) = s' := by
      rw [← List.append_assoc, run_append]
      exact Runs.attempt_ok hs
    have huntil : untilBlock m (p ++ [x]) = untilBlock m p := untilBlock_append fun y hy => by
      rw [List.mem_singleton.1 hy]; exact hx
    have hr := DelegationData.recorded_eq_none_iff.2 hcount
    have hr' : (s'.power .PROPOSITION_POWER).recorded u ≠ none := fun hr' =>
      ((recorded_none_iff_of_exec (hpx.version₂ x (by simp)) hs _ u).1 hr').2 hw
    obtain ⟨hr₁, heq⟩ := (hpre.since (le_refl m) (hx.trans hlt)).unrecorded .PROPOSITION_POWER u hr
    -- the answer for block `m` is zero now, and the holder had its balance there
    have hanswer := hhistory _ hp x.msg.number hle hlt m (le_refl m) hx u .PROPOSITION_POWER
    rw [hpx.getPowerAtBlock (le_refl m) hx.le hlt hle, hafter, huntil, if_pos ⟨hr₁, hr'⟩] at hanswer
    refine hbalance ?_
    rw [← hpre.inv.share_of_unrecorded hr, heq, Ledger.share_def]
    exact (Except.ok.inj hanswer).symm
  · intro hcalls p hp n hn hlt b hb hbn u t
    have hpre := h.of_prefix hp
    rw [hpre.getPowerAtBlock hb hbn.le hlt hn]
    split
    · next hr =>
      have hzero : share ((run D (.fresh g w) (l₁ ++ untilBlock b p)).power t).delegatee
          (run D (.fresh g w) (l₁ ++ untilBlock b p)).balances u = 0 := by
        cases t with
        | VOTING_POWER => exact (hpre.of_prefix (List.takeWhile_prefix _)).voting_unrecorded hr.1
        | PROPOSITION_POWER =>
          by_contra hne
          exact hr.2 (hpre.proposition_unrecorded hb (fun q x hq => hcalls q x (hq.trans hp)) hr.1 hne)
      rw [← hzero, Ledger.share_def]
      rfl
    · rw [Ledger.share_def]
      rfl

/-- A holder who moves tokens in the block of the upgrade, and again later:
no call migrates, and history holds. -/
theorem history_survives_same_block :
    let l₁ : List Tx := [⟨.v1, ⟨.ofNat 10, 1, 200, by decide⟩, .stake (.ofNat 10) 7⟩]
    let p : List Tx := [⟨.v2, ⟨.ofNat 10, 1, 200, by decide⟩, .transfer (.ofNat 11) 3⟩]
    getPowerAtBlock 3 (.ofNat 10) 2 .PROPOSITION_POWER (run .sample (.fresh 0 ()) (l₁ ++ p)) =
      .ok (∑ d with getDelegateeByType d .PROPOSITION_POWER
          (run .sample (.fresh 0 ()) (l₁ ++ untilBlock 2 p)) = .ofNat 10,
        (run .sample (.fresh 0 ()) (l₁ ++ untilBlock 2 p)).balances d) :=
  (history_survives_iff (D := .sample) (m := 1)
      { before := by simp, after := by simp, blocks := by simp, number_lt := by simp
        supply := by decide +kernel }).2
    (fun p x hp hx => by
      have := hp.subset (List.mem_append_right p (List.mem_singleton_self x))
      simp_all)
    _ (List.prefix_refl _) 3 (by simp) (by decide) 2 (by decide) (by decide) (.ofNat 10) .PROPOSITION_POWER

/-- A holder from before the upgrade moves tokens in a later block: the
proposition power at the end of block 2 was 7, and block 2's answer, which
was 7 in block 3, is 0 in block 4. -/
theorem history_lost :
    let l₁ : List Tx := [⟨.v1, ⟨.ofNat 10, 1, 200, by decide⟩, .stake (.ofNat 10) 7⟩]
    let l₂ : List Tx := [⟨.v2, ⟨.ofNat 10, 3, 202, by decide⟩, .transfer (.ofNat 11) 3⟩]
    let atEnd := run .sample (.fresh 0 ()) (l₁ ++ untilBlock 2 l₂)
    getPowerAtBlock 3 (.ofNat 10) 2 .PROPOSITION_POWER (run .sample (.fresh 0 ()) l₁) = .ok 7 ∧
      getPowerAtBlock 4 (.ofNat 10) 2 .PROPOSITION_POWER (run .sample (.fresh 0 ()) (l₁ ++ l₂)) = .ok 0 ∧
      getPowerAtBlock 4 (.ofNat 10) 2 .PROPOSITION_POWER (run .sample (.fresh 0 ()) (l₁ ++ l₂)) ≠
        .ok (∑ d with getDelegateeByType d .PROPOSITION_POWER atEnd = .ofNat 10, atEnd.balances d) := by
  intro l₁ l₂ atEnd
  have hzero : getPowerAtBlock 4 (.ofNat 10) 2 .PROPOSITION_POWER (run .sample (.fresh 0 ()) (l₁ ++ l₂)) = .ok 0 := rfl
  have hself : getDelegateeByType (.ofNat 10) .PROPOSITION_POWER atEnd = .ofNat 10 := by decide +kernel
  have hbalance : atEnd.balances (.ofNat 10) = 7 := by decide +kernel
  refine ⟨rfl, hzero, fun heq => ?_⟩
  have hle := Ledger.le_share (fun d => getDelegateeByType d .PROPOSITION_POWER atEnd) atEnd.balances (.ofNat 10)
  rw [hself, hbalance, Ledger.share_def] at hle
  rw [hzero] at heq
  have := Except.ok.inj heq
  omega

end StarlayStake
