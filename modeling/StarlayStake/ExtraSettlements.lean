/-
Settling more often creates no rewards. A claim of nothing and a transfer to
oneself move nothing, but they bring the index forward and settle an account
(`Tx.neutral`). Of two runs that differ in such calls alone, the one with more
of them pays nobody more, and anybody less by at most what the roundings of
the extra calls can cost (`extra_settlements`).

An extra call cuts a slice of time in two, and from then on the indexes of
the two runs differ, for everybody. Account by account they are `Trails`, and
every call of both runs at once, like every extra one, keeps them that
(`Follows`).
-/
import StarlayStake.Lib.Slices
import StarlayStake.ProRata

namespace StarlayStake

open Accrual (Share Trails)
open Ledger (credit debit total)
open StakedToken
open DistributionManager (precisionUnit)

variable {W : Type} {D : Deployment W}

/-! ## Extra calls -/

/-- Claims of nothing and transfers to oneself. -/
def Tx.neutral (x : Tx) : Bool :=
  match x.call with
  | .claimRewards _ amount => amount = 0
  | .transfer recipient _ => recipient = x.msg.sender
  | .transferFrom sender recipient _ => sender = recipient
  | _ => false

/-- A call of both runs, or an extra one of the second. -/
inductive PairedTx
  | both (x : Tx)
  | extra (x : Tx) (hneutral : x.neutral = true)

namespace PairedTx

def tx : PairedTx → Tx
  | both x => x
  | extra x _ => x

/-- The calls of the first run. -/
def first : List PairedTx → List Tx
  | [] => []
  | both x :: l => x :: first l
  | extra _ _ :: l => first l

/-- The calls of the second run. -/
def second (l : List PairedTx) : List Tx := l.map tx

theorem first_sublist (l : List PairedTx) : (first l).Sublist (second l) := by
  induction l with
  | nil => exact .slnil
  | cons e l ih =>
    cases e with
    | both x => exact ih.cons_cons x
    | extra x hneutral => exact ih.cons x

/-- What the roundings of the extra calls can cost `u`: for each, two and the
balance at that call in units of the index. -/
def cost (D : Deployment W) (u : Address) : State W → List PairedTx → Nat
  | _, [] => 0
  | s, both x :: l => cost D u (Runs.attempt (exec D) s x) l
  | s, extra x _ :: l => s.balances u / 10 ^ 18 + 2 + cost D u (Runs.attempt (exec D) s x) l

end PairedTx

/-! ## Balances -/

/-- The balances after a successful call. -/
def Tx.balancesAfter (x : Tx) (balances : Address → Nat) : Address → Nat :=
  match x.call with
  | .stake onBehalfOf amount => credit balances onBehalfOf amount
  | .redeem _ amount => debit balances x.msg.sender (min amount (balances x.msg.sender))
  | .transfer recipient amount => credit (debit balances x.msg.sender amount) recipient amount
  | .transferFrom sender recipient amount => credit (debit balances sender amount) recipient amount
  | _ => balances

section

variable {x : Tx} {s s' : State W}

theorem balances_of_transfer {m : Msg} {v : Version} {src dst : Address} {amount : Nat}
    (h : transfer D m v src dst amount s = .ok s') :
    amount ≤ s.balances src ∧ s'.balances = credit (debit s.balances src amount) dst amount := by
  by_cases heq : src = dst
  · subst heq
    obtain ⟨-, ha, -, r, assets, p, w, -, -, -, -, rfl⟩ := transfer_self_ok_iff.1 h
    exact ⟨ha, rfl⟩
  · obtain ⟨-, -, ha, -, r, assets, r', assets', c, p, w, -, -, -, -, -, -, -, rfl⟩ := (transfer_ok_iff heq).1 h
    exact ⟨ha, rfl⟩

theorem balances_of_exec (h : exec D x s = .ok s') : s'.balances = x.balancesAfter s.balances := by
  cases effect_of_exec h with
  | stake onBehalfOf amount hx hs =>
    obtain ⟨-, -, -, -, r, assets, c, p, w, w', -, -, -, -, -, -, rfl⟩ := stake_ok_iff.1 hs
    simp [Tx.balancesAfter, hx]
  | redeem dst amount hx hs =>
    obtain ⟨-, -, -, -, -, r, assets, p, w, w', -, -, -, -, -, rfl⟩ := redeem_ok_iff.1 hs
    simp [Tx.balancesAfter, hx]
  | cooldown hx hs =>
    obtain ⟨-, rfl⟩ := cooldown_ok_iff.1 hs
    simp [Tx.balancesAfter, hx]
  | claimRewards dst amount n hx hs =>
    obtain ⟨r, assets, w, -, -, -, -, -, rfl⟩ := claimRewards_ok_iff.1 hs
    simp [Tx.balancesAfter, hx]
  | transfer src dst amount f s₁ hx hs hs' =>
    subst hs'
    rcases hx with ⟨hx, rfl⟩ | hx <;> simpa [Tx.balancesAfter, hx] using (balances_of_transfer hs).2
  | configureAssets inputs hx hs =>
    obtain ⟨-, assets, -, rfl⟩ := configureAssets_ok_iff.1 hs
    simp [Tx.balancesAfter, hx]
  | aside hx f p n hs' =>
    subst hs'
    cases hc : x.call <;> simp_all [Tx.balancesAfter, aside]

/-- An extra call settles, and moves nothing. -/
theorem neutral_of_exec (hx : x.neutral = true) (h : exec D x s = .ok s') :
    (∃ users, x.settledUsers = some users) ∧ s'.balances = s.balances := by
  unfold Tx.neutral at hx
  cases effect_of_exec h with
  | claimRewards dst amount n hc hs =>
    obtain ⟨r, assets, w, -, -, -, -, -, rfl⟩ := claimRewards_ok_iff.1 hs
    exact ⟨⟨[x.msg.sender], by rw [Tx.settledUsers, hc]⟩, rfl⟩
  | transfer src dst amount f s₁ hc hs hs' =>
    subst hs'
    obtain rfl : src = dst := by rcases hc with ⟨hc, rfl⟩ | hc <;> simpa [hc, eq_comm] using hx
    obtain ⟨ha, hb⟩ := balances_of_transfer hs
    refine ⟨?_, hb.trans (Ledger.credit_debit ha)⟩
    rcases hc with ⟨hc, rfl⟩ | hc
    · exact ⟨[x.msg.sender, x.msg.sender], by rw [Tx.settledUsers, hc]⟩
    · exact ⟨[src, src], by rw [Tx.settledUsers, hc]⟩
  | stake onBehalfOf amount hc => simp [hc] at hx
  | redeem dst amount hc => simp [hc] at hx
  | cooldown hc => simp [hc] at hx
  | configureAssets inputs hc => simp [hc] at hx
  | aside hc f p n hs' => split at hx <;> simp_all [aside]

end

/-! ## Two runs -/

/-- What an asset emits from its last update until `T`. -/
def AssetData.emittedUntil (D : Deployment W) (T : Nat) (a : AssetData) : Nat :=
  a.emissionPerSecond * (min T D.DISTRIBUTION_END - min a.lastUpdateTimestamp D.DISTRIBUTION_END)

/-- An account's claimed and stored rewards, beside the asset's index. -/
def State.share (D : Deployment W) (claimed : Address → Nat) (u : Address) (s : State W) : Share :=
  { credited := claimed u + s.stakerRewardsToClaim u
    index := (s.assets D.self).index
    userIndex := (s.assets D.self).users u }

/-- What the index grows by until `T`. -/
def State.growth (D : Deployment W) (T : Nat) (s : State W) : Nat :=
  (s.assets D.self).emittedUntil D T * precisionUnit / s.totalSupply

/-- The run of `q` follows the run of `p`: it has the same balances and the
same emission, was updated no earlier, and trails for every account by at
most its `loss`. -/
structure Follows (D : Deployment W) (now : Nat) (loss : Address → Nat) (p q : State W × Books) : Prop where
  rewards : RewardInv D now p.1 ∧ RewardInv D now q.1
  supply : total p.1.balances = p.1.totalSupply ∧ total q.1.balances = q.1.totalSupply
  balances : q.1.balances = p.1.balances
  emission : (q.1.assets D.self).emissionPerSecond = (p.1.assets D.self).emissionPerSecond
  last : (p.1.assets D.self).lastUpdateTimestamp ≤ (q.1.assets D.self).lastUpdateTimestamp
  trails : ∀ u, Trails precisionUnit (p.1.balances u) p.1.totalSupply
    ((p.1.assets D.self).emittedUntil D (q.1.assets D.self).lastUpdateTimestamp) (loss u)
    (p.1.share D p.2.claimed u) (q.1.share D q.2.claimed u)

section

variable {x : Tx} {s s' : State W} {users : List Address} {claimed : Address → Nat} {r : Address → Nat}
  {u : Address} {i now T : Nat} {loss : Address → Nat} {p q : State W × Books} {a a' : AssetData}

theorem emittedUntil_self (h : a.lastUpdateTimestamp = T) : a.emittedUntil D T = 0 := by
  simp [AssetData.emittedUntil, h]

/-- Until `T`, what was emitted until an update in between and since. -/
theorem emittedUntil_add (hemission : a'.emissionPerSecond = a.emissionPerSecond)
    (hlast : a.lastUpdateTimestamp ≤ a'.lastUpdateTimestamp) (hT : a'.lastUpdateTimestamp ≤ T) :
    a.emittedUntil D a'.lastUpdateTimestamp + a'.emittedUntil D T = a.emittedUntil D T := by
  rw [AssetData.emittedUntil, AssetData.emittedUntil, AssetData.emittedUntil, hemission, ← Nat.mul_add]
  congr 1
  omega

theorem index_growth (h : assetIndex D T (s.assets D.self) s.totalSupply = .ok i) :
    i = (s.assets D.self).index + s.growth D T := assetIndex_ok h

/-- A call that settles brings every share forward and settles those of its
accounts. -/
theorem Settles.share (h : Settles D x users i r s s') :
    s'.share D (fun u => claimed u + x.paid D s u) u =
      if u ∈ users then ((s.share D claimed u).grow (s.growth D x.msg.timestamp)).settle precisionUnit (s.balances u)
      else (s.share D claimed u).grow (s.growth D x.msg.timestamp) := by
  have hrewards := h.rewards u
  rw [State.share, h.asset, index_growth h.index]
  by_cases hu : u ∈ users
  · rw [if_pos hu] at hrewards ⊢
    have hcredited : claimed u + x.paid D s u + s'.stakerRewardsToClaim u =
        claimed u + s.stakerRewardsToClaim u + r u := by omega
    have hr := DistributionManager.accrued_eq (h.accrued u hu)
    rw [hr, index_growth h.index] at hcredited
    rw [Share.settle_grow]
    simp only [AssetData.settledFor, AssetData.settled, State.share, Share.lead, hu, if_true, hcredited]
  · rw [if_neg hu] at hrewards ⊢
    have hcredited : claimed u + x.paid D s u + s'.stakerRewardsToClaim u = claimed u + s.stakerRewardsToClaim u := by
      omega
    simp only [Share.grow, AssetData.settledFor, AssetData.settled, State.share, hu, if_false, hcredited]

/-- Settled or not, the shares of both runs go on trailing. -/
theorem trails_of_settles {first second : Share} {balance balance' total pending cost : Nat} (emitted total' : Nat)
    (hbalance : u ∉ users → balance' = balance) (h : Trails precisionUnit balance total pending cost first second) :
    Trails precisionUnit balance' total' 0 cost
      (if u ∈ users then (first.grow ((pending + emitted) * precisionUnit / total)).settle precisionUnit balance
        else first.grow ((pending + emitted) * precisionUnit / total))
      (if u ∈ users then (second.grow (emitted * precisionUnit / total)).settle precisionUnit balance
        else second.grow (emitted * precisionUnit / total)) := by
  by_cases hu : u ∈ users
  · rw [if_pos hu, if_pos hu]
    exact (h.join emitted total').settle
  · rw [if_neg hu, if_neg hu, hbalance hu]
    exact h.join emitted total'

/-- The supply is what all hold together, so it is the same in both. -/
theorem Follows.total (h : Follows D now loss p q) : q.1.totalSupply = p.1.totalSupply := by
  rw [← h.supply.1, ← h.supply.2, h.balances]

/-- An extra call. -/
theorem Follows.extra (hT : x.msg.timestamp < 2 ^ 128) (hx : x.neutral = true)
    (h : Follows D x.msg.timestamp loss p q) (hs : exec D x q.1 = .ok s') :
    Follows D x.msg.timestamp (fun u => loss u + (q.1.balances u / 10 ^ 18 + 2)) p (s', q.2.note D x q.1 s') := by
  obtain ⟨⟨users, husers⟩, hbalances⟩ := neutral_of_exec hx hs
  obtain ⟨i, r, hsettles⟩ := settles_of_exec hT husers hs
  have hlast : (s'.assets D.self).lastUpdateTimestamp = x.msg.timestamp := by rw [hsettles.asset]; rfl
  refine ⟨⟨h.rewards.1, h.rewards.2.step hT hs⟩, ⟨h.supply.1, (powerStep_of_exec hs).total h.supply.2⟩,
    hbalances.trans h.balances, ?_, ?_, fun u => ?_⟩
  · rw [hsettles.asset]
    exact h.emission
  · rw [hlast]
    exact h.rewards.1.last
  · have hcut := (h.trails u).cut ((q.1.assets D.self).emittedUntil D x.msg.timestamp)
    rw [emittedUntil_add h.emission h.last h.rewards.2.last] at hcut
    rw [hlast]
    show Trails _ _ _ _ _ _ (s'.share D (fun u => q.2.claimed u + x.paid D q.1 u) u)
    rw [hsettles.share, State.growth, h.total, h.balances, show (10 : Nat) ^ 18 = precisionUnit from rfl]
    by_cases hu : u ∈ users
    · rw [if_pos hu]
      exact hcut.settle_second ((h.rewards.2.users u).trans (Nat.le_add_right ..))
    · rw [if_neg hu]
      exact hcut.mono (Nat.le_succ _)

/-- A call of both runs that updates the assets of both, if the shares go on
trailing. -/
theorem Follows.update (hT : x.msg.timestamp < 2 ^ 128) (h : Follows D x.msg.timestamp loss p q)
    (hs : exec D x p.1 = .ok s) (hs' : exec D x q.1 = .ok s')
    (hlast : (s.assets D.self).lastUpdateTimestamp = x.msg.timestamp)
    (hlast' : (s'.assets D.self).lastUpdateTimestamp = x.msg.timestamp)
    (hemission : (s'.assets D.self).emissionPerSecond = (s.assets D.self).emissionPerSecond)
    (htrails : ∀ u, Trails precisionUnit (s.balances u) s.totalSupply 0 (loss u)
      (s.share D (fun u => p.2.claimed u + x.paid D p.1 u) u)
      (s'.share D (fun u => q.2.claimed u + x.paid D q.1 u) u)) :
    Follows D x.msg.timestamp loss (s, p.2.note D x p.1 s) (s', q.2.note D x q.1 s') where
  rewards := ⟨h.rewards.1.step hT hs, h.rewards.2.step hT hs'⟩
  supply := ⟨(powerStep_of_exec hs).total h.supply.1, (powerStep_of_exec hs').total h.supply.2⟩
  balances := (balances_of_exec hs').trans ((congrArg _ h.balances).trans (balances_of_exec hs).symm)
  emission := hemission
  last := (hlast.trans hlast'.symm).le
  trails := fun u => by
    rw [hlast', emittedUntil_self hlast]
    exact htrails u

/-- A call of both runs that settles. -/
theorem Follows.settle (hT : x.msg.timestamp < 2 ^ 128) (hx : x.settledUsers = some users)
    (h : Follows D x.msg.timestamp loss p q) (hs : exec D x p.1 = .ok s) (hs' : exec D x q.1 = .ok s') :
    Follows D x.msg.timestamp loss (s, p.2.note D x p.1 s) (s', q.2.note D x q.1 s') := by
  obtain ⟨i, r, hp⟩ := settles_of_exec hT hx hs
  obtain ⟨j, t, hq⟩ := settles_of_exec hT hx hs'
  refine h.update hT hs hs' (by rw [hp.asset]; rfl) (by rw [hq.asset]; rfl) ?_ fun u => ?_
  · rw [hp.asset, hq.asset]
    exact h.emission
  · have htrails := trails_of_settles ((q.1.assets D.self).emittedUntil D x.msg.timestamp) s.totalSupply
      (hp.balances u) (h.trails u)
    rw [emittedUntil_add h.emission h.last h.rewards.2.last] at htrails
    rw [hp.share, hq.share, State.growth, State.growth, h.total, h.balances]
    exact htrails

/-- A call of both runs that neither settles nor updates. -/
theorem Follows.keep (hpaid : ∀ s u, x.paid D s u = 0) (hp : Kept D p.1 s) (hq : Kept D q.1 s')
    (h : Follows D x.msg.timestamp loss p q) :
    Follows D x.msg.timestamp loss (s, p.2.note D x p.1 s) (s', q.2.note D x q.1 s') := by
  have hshare : ∀ u, s.share D (p.2.note D x p.1 s).claimed u = p.1.share D p.2.claimed u := fun u => by
    simp only [State.share, Books.note, hpaid, hp.asset, hp.rewards, Nat.add_zero]
  have hshare' : ∀ u, s'.share D (q.2.note D x q.1 s').claimed u = q.1.share D q.2.claimed u := fun u => by
    simp only [State.share, Books.note, hpaid, hq.asset, hq.rewards, Nat.add_zero]
  refine ⟨⟨?_, ?_⟩, ⟨?_, ?_⟩, ?_, ?_, ?_, fun u => ?_⟩
  · exact ⟨hp.asset ▸ h.rewards.1.last, hp.asset ▸ h.rewards.1.users⟩
  · exact ⟨hq.asset ▸ h.rewards.2.last, hq.asset ▸ h.rewards.2.users⟩
  · rw [hp.balances, hp.supply]; exact h.supply.1
  · rw [hq.balances, hq.supply]; exact h.supply.2
  · rw [hp.balances, hq.balances]; exact h.balances
  · rw [hp.asset, hq.asset]; exact h.emission
  · rw [hp.asset, hq.asset]; exact h.last
  · rw [hshare, hshare', hp.asset, hq.asset, hp.balances, hp.supply]
    exact h.trails u

/-- A configuration that is passed what is staked brings every share forward. -/
theorem Configures.share {last : AssetConfigInput} (h : Configures D x last i s s') (hsupply : x.PassesSupply D s)
    (hpaid : x.paid D s u = 0) :
    s'.share D (fun u => claimed u + x.paid D s u) u = (s.share D claimed u).grow (s.growth D x.msg.timestamp) := by
  obtain ⟨first, hfirst, hself, hindex⟩ := h.index
  rw [hsupply first hfirst hself] at hindex
  rw [State.share, h.asset, h.rewards, hpaid, index_growth hindex]
  rfl

/-- A configuration in both runs. -/
theorem Follows.configure {last : AssetConfigInput} {j : Nat} (hT : x.msg.timestamp < 2 ^ 128)
    (hsupply : x.PassesSupply D p.1) (hpaid : ∀ s u, x.paid D s u = 0) (hp : Configures D x last i p.1 s)
    (hq : Configures D x last j q.1 s') (h : Follows D x.msg.timestamp loss p q) (hs : exec D x p.1 = .ok s)
    (hs' : exec D x q.1 = .ok s') :
    Follows D x.msg.timestamp loss (s, p.2.note D x p.1 s) (s', q.2.note D x q.1 s') := by
  have hsupply' : x.PassesSupply D q.1 := fun input hinput hself => (hsupply input hinput hself).trans h.total.symm
  refine h.update hT hs hs' (by rw [hp.asset]; rfl) (by rw [hq.asset]; rfl) (by rw [hp.asset, hq.asset]) fun u => ?_
  have htrails := (h.trails u).join ((q.1.assets D.self).emittedUntil D x.msg.timestamp) s.totalSupply
  rw [emittedUntil_add h.emission h.last h.rewards.2.last] at htrails
  rw [hp.share hsupply (hpaid _ u), hq.share hsupply' (hpaid _ u), State.growth, State.growth, h.total, hp.balances]
  exact htrails

/-- A call of both runs. -/
theorem Follows.both (hT : x.msg.timestamp < 2 ^ 128) (hsupply : x.PassesSupply D p.1)
    (h : Follows D x.msg.timestamp loss p q) (hs : exec D x p.1 = .ok s) (hs' : exec D x q.1 = .ok s') :
    Follows D x.msg.timestamp loss (s, p.2.note D x p.1 s) (s', q.2.note D x q.1 s') := by
  cases hx : x.settledUsers with
  | some users => exact h.settle hT hx hs hs'
  | none =>
    have hpaid : ∀ s u, x.paid D s u = 0 := fun _ _ => Tx.paid_of_settledUsers hx
    by_cases hc : ∃ inputs, x.call = .configureAssets inputs
    · obtain ⟨inputs, hc⟩ := hc
      obtain ⟨hnone, hp⟩ | ⟨i, last, hlast, hp⟩ := configures_of_exec hT hc hs
      · obtain ⟨-, hq⟩ | ⟨j, last', hlast', -⟩ := configures_of_exec hT hc hs'
        · exact h.keep hpaid hp hq
        · rw [hnone] at hlast'
          cases hlast'
      · obtain ⟨hnone, -⟩ | ⟨j, last', hlast', hq⟩ := configures_of_exec hT hc hs'
        · rw [hnone] at hlast
          cases hlast
        · obtain rfl := Option.some.inj (hlast.symm.trans hlast')
          exact h.configure hT hsupply hpaid hp hq hs hs'
    · have hconfigures : ∀ inputs, x.call ≠ .configureAssets inputs := fun inputs h => hc ⟨inputs, h⟩
      exact h.keep hpaid (kept_of_exec hx hconfigures hs) (kept_of_exec hx hconfigures hs')

theorem Follows.mono (hle : now ≤ T) (h : Follows D now loss p q) : Follows D T loss p q :=
  { h with rewards := ⟨⟨h.rewards.1.last.trans hle, h.rewards.1.users⟩, ⟨h.rewards.2.last.trans hle, h.rewards.2.users⟩⟩ }

theorem Follows.fresh {g : Address} {w : W} : Follows D 0 (fun _ => 0) (.fresh g w, .empty) (.fresh g w, .empty) :=
  { rewards := ⟨Fair.fresh.rewards, Fair.fresh.rewards⟩
    supply := ⟨(PowerInvV1.fresh g w).supply, (PowerInvV1.fresh g w).supply⟩
    balances := rfl
    emission := rfl
    last := le_refl _
    trails := fun u => by
      rw [emittedUntil_self rfl]
      exact .refl }

/-- What the two runs lead to, if all their calls succeed. -/
theorem Follows.run {l : List PairedTx} {s₁ s₂ : State W} (h : Follows D now loss p q)
    (htimes : (PairedTx.second l).Pairwise fun x y => x.msg.timestamp ≤ y.msg.timestamp)
    (hnow : ∀ x ∈ PairedTx.second l, now ≤ x.msg.timestamp) (hl : ∀ x ∈ PairedTx.second l, x.msg.timestamp ≤ T)
    (hle : now ≤ T) (hT : T < 2 ^ 128) (hsupply : SupplyPassed D p.1 (PairedTx.first l))
    (h₁ : Runs.transact (exec D) p.1 (PairedTx.first l) = .ok s₁)
    (h₂ : Runs.transact (exec D) q.1 (PairedTx.second l) = .ok s₂) :
    Follows D T (fun u => loss u + PairedTx.cost D u q.1 l)
      (Runs.run (Runs.record (exec D) (Books.note D)) p (PairedTx.first l))
      (Runs.run (Runs.record (exec D) (Books.note D)) q (PairedTx.second l)) := by
  induction l generalizing now loss p q with
  | nil => exact h.mono hle
  | cons e l ih =>
    obtain ⟨hlater, hsorted⟩ := List.pairwise_cons.1 htimes
    obtain ⟨hx, hrest⟩ := List.forall_mem_cons.1 hl
    obtain ⟨s', hs', hl₂⟩ := Runs.transact_cons_ok_iff.1 h₂
    have hfollows := h.mono (hnow _ List.mem_cons_self)
    cases e with
    | both x =>
      obtain ⟨s, hs, hl₁⟩ := Runs.transact_cons_ok_iff.1 h₁
      obtain ⟨hpassed, hlater_passed⟩ := supplyPassed_cons.1 hsupply
      rw [Runs.attempt_ok hs] at hlater_passed
      replace hs' : exec D x q.1 = .ok s' := hs'
      have hrun := ih (hfollows.both (hx.trans_lt hT) hpassed hs hs') hsorted hlater hrest hx hlater_passed hl₁ hl₂
      show Follows D T (fun u => loss u + PairedTx.cost D u (Runs.attempt (exec D) q.1 x) l)
        (Runs.run _ (Runs.attempt _ p x) _) (Runs.run _ (Runs.attempt _ q x) _)
      rw [Runs.attempt_ok hs', Runs.attempt_record hs, Runs.attempt_record hs']
      exact hrun
    | extra x hneutral =>
      replace hs' : exec D x q.1 = .ok s' := hs'
      have hrun := ih (hfollows.extra (hx.trans_lt hT) hneutral hs') hsorted hlater hrest hx hsupply h₁ hl₂
      show Follows D T
        (fun u => loss u + (q.1.balances u / 10 ^ 18 + 2 + PairedTx.cost D u (Runs.attempt (exec D) q.1 x) l))
        (Runs.run _ p _) (Runs.run _ (Runs.attempt _ q x) _)
      rw [Runs.attempt_ok hs', Runs.attempt_record hs']
      simp only [Nat.add_assoc] at hrun ⊢
      exact hrun

/-- What a share is due now: what the account was paid and what the view
would answer. -/
theorem share_due (hi : assetIndex D T (s.assets D.self) s.totalSupply = .ok i) :
    (s.share D claimed u).due precisionUnit (s.balances u) (s.growth D T) =
      claimed u + (s.stakerRewardsToClaim u + s.balances u * (i - (s.assets D.self).users u) / precisionUnit) := by
  obtain rfl := index_growth hi
  exact Nat.add_assoc ..

/-- Until now the second index grows from no earlier, and to no more. -/
theorem Follows.growth (h : Follows D T loss p q) :
    (q.1.assets D.self).emittedUntil D T ≤ (p.1.assets D.self).emittedUntil D T ∧
      (q.1.assets D.self).index + q.1.growth D T ≤ (p.1.assets D.self).index + p.1.growth D T := by
  have hemitted := emittedUntil_add (D := D) h.emission h.last h.rewards.2.last
  have hindex := (h.trails 0).index.now ((q.1.assets D.self).emittedUntil D T)
  rw [hemitted] at hindex
  refine ⟨hemitted ▸ Nat.le_add_left _ _, ?_⟩
  rw [State.growth, State.growth, h.total]
  exact hindex

/-- The index of the second run is in reach where that of the first is. -/
theorem Follows.exists_index (h : Follows D T loss p q)
    (hi : assetIndex D T (p.1.assets D.self) p.1.totalSupply = .ok i) :
    ∃ j, assetIndex D T (q.1.assets D.self) q.1.totalSupply = .ok j := by
  have hemission := h.emission
  have hlast := h.last
  have hlast' := h.rewards.2.last
  by_cases hs : (q.1.assets D.self).emissionPerSecond = 0 ∨ q.1.totalSupply = 0 ∨
      (q.1.assets D.self).lastUpdateTimestamp = T ∨ (q.1.assets D.self).lastUpdateTimestamp ≥ D.DISTRIBUTION_END
  · exact ⟨_, by rw [assetIndex, DistributionManager.getAssetIndex, if_pos hs]⟩
  · have hs' : ¬ ((p.1.assets D.self).emissionPerSecond = 0 ∨ p.1.totalSupply = 0 ∨
        (p.1.assets D.self).lastUpdateTimestamp = T ∨
          (p.1.assets D.self).lastUpdateTimestamp ≥ D.DISTRIBUTION_END) := by
      rw [h.total] at hs
      omega
    obtain ⟨hscaled, hindex⟩ := DistributionManager.getAssetIndex_bounds hs' hi
    obtain ⟨hemitted, hgrown⟩ := h.growth
    exact ⟨_, DistributionManager.getAssetIndex_of hlast'
      (fun _ => (Nat.mul_le_mul_right _ hemitted).trans_lt hscaled) (hgrown.trans_lt hindex)⟩

/-- Where the view answers in the first run it does in the second, as long as
what the account was paid and can claim fits a word. -/
theorem Follows.getTotalRewardsBalance {n : Nat} (h : Follows D T loss p q)
    (hn : StakedToken.getTotalRewardsBalance D T u p.1 = .ok n) (hfits : p.2.claimed u + n < 2 ^ 256) :
    ∃ n', StakedToken.getTotalRewardsBalance D T u q.1 = .ok n' ∧ q.2.claimed u + n' ≤ p.2.claimed u + n ∧
      p.2.claimed u + n ≤ q.2.claimed u + n' + loss u := by
  obtain ⟨i, hi, -, hlt, -, rfl⟩ := getTotalRewardsBalance_ok_iff.1 hn
  obtain ⟨j, hj⟩ := h.exists_index hi
  have hlead := (h.trails u).lead.now ((q.1.assets D.self).emittedUntil D T)
  have hdue := (h.trails u).due ((q.1.assets D.self).emittedUntil D T)
  rw [emittedUntil_add h.emission h.last h.rewards.2.last] at hlead hdue
  have hproduct : q.1.balances u * (j - (q.1.assets D.self).users u) ≤
      p.1.balances u * (i - (p.1.assets D.self).users u) := by
    rw [h.balances, index_growth hi, index_growth hj, State.growth, State.growth, h.total]
    exact Nat.mul_le_mul_left _ hlead
  have hbounds : (q.1.share D q.2.claimed u).due precisionUnit (q.1.balances u) (q.1.growth D T) ≤
      (p.1.share D p.2.claimed u).due precisionUnit (p.1.balances u) (p.1.growth D T) ∧
      (p.1.share D p.2.claimed u).due precisionUnit (p.1.balances u) (p.1.growth D T) ≤
        (q.1.share D q.2.claimed u).due precisionUnit (q.1.balances u) (q.1.growth D T) + loss u := by
    rw [State.growth, State.growth, h.total, h.balances]
    exact hdue
  rw [share_due hi, share_due hj] at hbounds
  exact ⟨_, getTotalRewardsBalance_ok_iff.2 ⟨j, hj, h.rewards.2.index_le hj u, hproduct.trans_lt hlt,
    ((Nat.le_add_left ..).trans hbounds.1).trans_lt hfits, rfl⟩, hbounds⟩

/-- What an account was paid and can claim fits a word. -/
theorem claimed_add_rewards_lt {g : Address} {w : W} {l : List Tx} {n : Nat}
    (htimes : l.Pairwise fun x y => x.msg.timestamp ≤ y.msg.timestamp) (hl : ∀ x ∈ l, x.msg.timestamp ≤ T)
    (hT : T < 2 ^ 128) (hsupply : SupplyPassed D (.fresh g w) l)
    (hn : getTotalRewardsBalance D T u (StakedToken.run D (.fresh g w) l) = .ok n) :
    (books D (.fresh g w) l).claimed u + n < 2 ^ 256 := by
  have hfair := Fair.run htimes hl hT hsupply
  have hbounded : EmissionBounded D l (2 ^ 128) := fun _ _ input _ _ => input.emission_lt.le
  have hemitted := (Fits.run htimes hl hT hsupply hbounded).upTo hfair.time_le
  obtain ⟨i, hi, -, -, -, rfl⟩ := getTotalRewardsBalance_ok_iff.1 hn
  obtain rfl := assetIndex_ok hi
  have hpaid := (hfair.payable u).1.trans (hfair.ideal_le hfair.time_le u)
  rw [← Nat.cast_add, Nat.cast_le] at hpaid
  have hword : 2 ^ 128 * min T D.DISTRIBUTION_END < 2 ^ 256 := by omega
  exact (hpaid.trans hemitted).trans_lt hword

end

/-- **Extra settlements create no rewards, and cost only rounding.** Two runs
of calls that all succeed, the second with claims of nothing and transfers to
oneself in addition, by anybody and at any times. If `configureAssets` is
passed what is staked, whoever's rewards the view answers after the first it
does after the second; claimed and claimable they are at most those of the
first run, and at least those, less two and the balance at that call in units
of the index for every extra call. -/
theorem extra_settlements {g : Address} {w : W} {l : List PairedTx} {T : Nat} {s₁ s₂ : State W}
    (htimes : (PairedTx.second l).Pairwise fun x y => x.msg.timestamp ≤ y.msg.timestamp)
    (hl : ∀ x ∈ PairedTx.second l, x.msg.timestamp ≤ T) (hT : T < 2 ^ 128)
    (hsupply : SupplyPassed D (.fresh g w) (PairedTx.first l))
    (h₁ : Runs.transact (exec D) (.fresh g w) (PairedTx.first l) = .ok s₁)
    (h₂ : Runs.transact (exec D) (.fresh g w) (PairedTx.second l) = .ok s₂) {u : Address} {n₁ : Nat}
    (hn₁ : getTotalRewardsBalance D T u s₁ = .ok n₁) :
    ∃ n₂, getTotalRewardsBalance D T u s₂ = .ok n₂ ∧
      let total₁ := (books D (.fresh g w) (PairedTx.first l)).claimed u + n₁
      let total₂ := (books D (.fresh g w) (PairedTx.second l)).claimed u + n₂
      total₂ ≤ total₁ ∧ total₁ ≤ total₂ + PairedTx.cost D u (.fresh g w) l := by
  have h : Follows D T _ _ _ :=
    Follows.fresh.run htimes (fun _ _ => Nat.zero_le _) hl (Nat.zero_le _) hT hsupply h₁ h₂
  have hrun₁ : run D (.fresh g w) (PairedTx.first l) = s₁ := Runs.run_of_transact h₁
  have hrun₂ : run D (.fresh g w) (PairedTx.second l) = s₂ := Runs.run_of_transact h₂
  rw [run_books, run_books, hrun₁, hrun₂] at h
  have hsublist := PairedTx.first_sublist l
  have hfits := claimed_add_rewards_lt (htimes.sublist hsublist) (fun x hx => hl x (hsublist.subset hx)) hT hsupply
    (hrun₁ ▸ hn₁)
  obtain ⟨n₂, hn₂, hbounds⟩ := h.getTotalRewardsBalance hn₁ hfits
  rw [Nat.zero_add] at hbounds
  exact ⟨n₂, hn₂, hbounds⟩

/-- A claim of nothing before a second stake, and a transfer to oneself after
a claim. -/
theorem extra_settlements_two :
    let l : List PairedTx := sampleRun.map .both ++
      [.extra ⟨.v2, ⟨.ofNat 10, 3, 233, sampleHolder_ne⟩, .claimRewards (.ofNat 10) 0⟩ rfl,
        .both ⟨.v2, ⟨.ofNat 11, 4, 250, sampleOther_ne⟩, .stake (.ofNat 11) 5⟩,
        .both ⟨.v2, ⟨.ofNat 10, 5, 260, sampleHolder_ne⟩, .claimRewards (.ofNat 10) 400⟩,
        .extra ⟨.v2, ⟨.ofNat 11, 6, 271, sampleOther_ne⟩, .transfer (.ofNat 11) 3⟩ rfl]
    ∃ s₁ s₂ n₁ n₂, Runs.transact (exec .sample) (.fresh 0 ()) (PairedTx.first l) = .ok s₁ ∧
      Runs.transact (exec .sample) (.fresh 0 ()) (PairedTx.second l) = .ok s₂ ∧
      getTotalRewardsBalance .sample 300 (.ofNat 10) s₁ = .ok n₁ ∧
      getTotalRewardsBalance .sample 300 (.ofNat 10) s₂ = .ok n₂ ∧
      let total₁ := (books .sample (.fresh 0 ()) (PairedTx.first l)).claimed (.ofNat 10) + n₁
      let total₂ := (books .sample (.fresh 0 ()) (PairedTx.second l)).claimed (.ofNat 10) + n₂
      total₂ ≤ total₁ ∧ total₁ ≤ total₂ + PairedTx.cost .sample (.ofNat 10) (.fresh 0 ()) l := by
  intro l
  have hok₁ : (Runs.transact (exec .sample) (.fresh 0 ()) (PairedTx.first l)).isOk = true := by decide +kernel
  have hok₂ : (Runs.transact (exec .sample) (.fresh 0 ()) (PairedTx.second l)).isOk = true := by decide +kernel
  have hview : (getTotalRewardsBalance .sample 300 (.ofNat 10)
      (run .sample (.fresh 0 ()) (PairedTx.first l))).isOk = true := by decide +kernel
  obtain ⟨s₁, h₁⟩ := Outcome.exists_ok hok₁
  obtain ⟨s₂, h₂⟩ := Outcome.exists_ok hok₂
  obtain ⟨n₁, hn₁⟩ := Outcome.exists_ok hview
  rw [run, Runs.run_of_transact h₁] at hn₁
  obtain ⟨n₂, hn₂, hbounds⟩ := extra_settlements (D := .sample) (g := 0) (w := ()) (l := l) (T := 300) (by decide)
    (by decide) (by decide) (by decide +kernel) h₁ h₂ hn₁
  exact ⟨s₁, s₂, n₁, n₂, h₁, h₂, hn₁, hn₂, hbounds⟩

/-- Where a timestamp does not fit its 128 bits, seconds count twice, and a
claim of nothing creates rewards. -/
theorem extra_settlement_creates :
    let T := 2 ^ 128 + 300
    let l : List PairedTx := sampleRun.map .both ++
      [.extra ⟨.v2, ⟨.ofNat 10, 3, T, sampleHolder_ne⟩, .claimRewards (.ofNat 10) 0⟩ rfl]
    (PairedTx.second l).Pairwise (fun x y => x.msg.timestamp ≤ y.msg.timestamp) ∧
      SupplyPassed .sample (.fresh 0 ()) (PairedTx.first l) ∧
      ∃ s₁ s₂ n₁ n₂, Runs.transact (exec .sample) (.fresh 0 ()) (PairedTx.first l) = .ok s₁ ∧
        Runs.transact (exec .sample) (.fresh 0 ()) (PairedTx.second l) = .ok s₂ ∧
        getTotalRewardsBalance .sample T (.ofNat 10) s₁ = .ok n₁ ∧
        getTotalRewardsBalance .sample T (.ofNat 10) s₂ = .ok n₂ ∧
        (books .sample (.fresh 0 ()) (PairedTx.first l)).claimed (.ofNat 10) + n₁ <
          (books .sample (.fresh 0 ()) (PairedTx.second l)).claimed (.ofNat 10) + n₂ := by
  intro T l
  have hok₁ : (Runs.transact (exec .sample) (.fresh 0 ()) (PairedTx.first l)).isOk = true := by decide +kernel
  have hok₂ : (Runs.transact (exec .sample) (.fresh 0 ()) (PairedTx.second l)).isOk = true := by decide +kernel
  have hview₁ : getTotalRewardsBalance .sample T (.ofNat 10) (run .sample (.fresh 0 ()) (PairedTx.first l)) =
      .ok 7999 := by decide +kernel
  have hview₂ : getTotalRewardsBalance .sample T (.ofNat 10) (run .sample (.fresh 0 ()) (PairedTx.second l)) =
      .ok 14999 := by decide +kernel
  obtain ⟨s₁, h₁⟩ := Outcome.exists_ok hok₁
  obtain ⟨s₂, h₂⟩ := Outcome.exists_ok hok₂
  rw [run, Runs.run_of_transact h₁] at hview₁
  rw [run, Runs.run_of_transact h₂] at hview₂
  exact ⟨by decide, by decide +kernel, s₁, s₂, _, _, h₁, h₂, hview₁, hview₂, by decide +kernel⟩

end StarlayStake
