/-
Runs of the token behind its proxy, through every upgrade, back or forth,
among its implementations (`Implementations`), whatever their immutables.

A successful transaction runs one function of the implementation that the
proxy points at after it, or changes nothing of the token (`tokenEffect_of_exec`).
So what `initialize` sets is set once and for all (`initialized_once`), and
what every call of every version keeps is kept through upgrades
(`power_through_upgrades`).
-/
import StarlayStake.Implementations
import StarlayStake.Power

namespace StarlayStake

open Ledger (total)

variable {W : Type} {N : Network W}

/-! ## What a transaction does to the token -/

/-- The function that data selects, if it is one of an implementation's. -/
def Calldata.asFunction {ι : Type} : Calldata ι → Option ι
  | .function c => some c
  | _ => none

/-- The function of an implementation that a transaction carries. -/
def ProxyTx.carried (x : ProxyTx) : Option TokenCall :=
  match x.data with
  | .upgradeToAndCall _ data => data.asFunction
  | .initializeLogic _ data => data.asFunction
  | .initializeAdmin _ _ data => data.asFunction
  | data => data.asFunction

/-- A function that ran, of which implementation and called by whom. -/
structure Ran where
  implementation : Implementation
  msg : Msg
  function : TokenCall

def Network.apply (N : Network W) (r : Ran) (t : TokenStorage W) : Except String (TokenStorage W) :=
  N.exec r.implementation r.msg r.function t

/-- What a successful transaction ran. -/
def ProxyTx.ran (N : Network W) (x : ProxyTx) (p p' : TokenProxy W) : List Ran :=
  match x.carried, N.implementations p'.implementation p.storage.world with
  | some c, some i => [⟨i, x.msg, c⟩]
  | _, _ => []

/-- What ran in a run, in order. -/
def Network.ran (N : Network W) (p : TokenProxy W) (l : List ProxyTx) : List Ran :=
  Runs.trace (Proxy.exec N.chain) (ProxyTx.ran N) p l

/-- What ran since the proxy was deployed. -/
def Network.history (N : Network W) (w : W) (l : List ProxyTx) : List Ran := N.ran (Proxy.deployed (.fresh w)) l

/-- A successful transaction runs one function, or leaves the token alone. -/
inductive TokenEffect (N : Network W) (x : ProxyTx) (p p' : TokenProxy W) : Prop
  | keep (hx : x.ran N p p' = []) (h : p'.storage = p.storage)
  | ran (r : Ran) (hx : x.ran N p p' = [r]) (h : N.apply r p.storage = .ok p'.storage)

section

variable {x : ProxyTx} {p p' : TokenProxy W} {m : Msg} {account : Address} {t t' : TokenStorage W}
  {data : Calldata TokenCall}

theorem delegatecall_ok (h : N.chain.delegatecall account m data t = .ok t') :
    (N.implementations account t.world = none ∧ t' = t) ∨
      ∃ i c, N.implementations account t.world = some i ∧ data = .function c ∧ N.exec i m c t = .ok t' := by
  unfold Chain.delegatecall at h
  cases hi : N.implementations account t.world with
  | none =>
    simp only [Network.chain, hi, Option.map_none, Except.ok.injEq] at h
    exact .inl ⟨rfl, h.symm⟩
  | some i =>
    simp only [Network.chain, hi, Option.map_some] at h
    cases data with
    | function c => exact .inr ⟨i, c, rfl, rfl, h⟩
    | _ => cases h

/-- Data delegated to where the proxy points runs, or does nothing. -/
theorem TokenEffect.of_delegatecall (hcarried : ∀ c, data = .function c → x.carried = some c)
    (h : N.chain.delegatecall p'.implementation x.msg data p.storage = .ok p'.storage) : TokenEffect N x p p' := by
  rcases delegatecall_ok h with ⟨hi, hs⟩ | ⟨i, c, hi, rfl, hs⟩
  · refine .keep ?_ hs
    unfold ProxyTx.ran
    rw [hi]
    cases x.carried <;> rfl
  · refine .ran ⟨i, x.msg, c⟩ ?_ hs
    unfold ProxyTx.ran
    rw [hi, hcarried c rfl]

theorem TokenEffect.of_carried_none (hx : x.carried = none) (h : p'.storage = p.storage) : TokenEffect N x p p' :=
  .keep (by unfold ProxyTx.ran; rw [hx]) h

theorem TokenEffect.of_called {called : Option (Calldata TokenCall)}
    (hcarried : x.carried = called.bind Calldata.asFunction)
    (h : Proxy.Called N.chain x.msg p'.implementation called p.storage p'.storage) : TokenEffect N x p p' := by
  cases called with
  | none => exact .of_carried_none hcarried h
  | some data => exact .of_delegatecall (fun c hc => by rw [hcarried, hc]; rfl) h

theorem tokenEffect_of_exec (h : Proxy.exec N.chain x p = .ok p') : TokenEffect N x p p' := by
  obtain ⟨m, data⟩ := x
  cases Proxy.effect_of_exec h with
  | view _ hx hp =>
    subst hp
    exact .of_carried_none (by rcases hx with rfl | rfl <;> rfl) rfl
  | changeAdmin newAdmin _ hx _ hp =>
    subst hp hx
    exact .of_carried_none rfl rfl
  | upgrade newImplementation called storage _ hx _ hcalled hp =>
    subst hp
    refine .of_called ?_ hcalled
    cases data with
    | upgradeTo => obtain ⟨-, rfl⟩ := Prod.mk.inj (Option.some.inj hx); rfl
    | upgradeToAndCall _ data =>
      obtain ⟨-, rfl⟩ := Prod.mk.inj (Option.some.inj hx)
      cases data <;> rfl
    | _ => cases hx
  | claim logic admin called storage _ hx _ hcalled hp =>
    subst hp
    refine .of_called ?_ hcalled
    cases data with
    | initializeLogic _ data =>
      obtain ⟨-, hrest⟩ := Prod.mk.inj (Option.some.inj hx)
      obtain ⟨-, rfl⟩ := Prod.mk.inj hrest
      cases data <;> rfl
    | initializeAdmin _ _ data =>
      obtain ⟨-, hrest⟩ := Prod.mk.inj (Option.some.inj hx)
      obtain ⟨-, rfl⟩ := Prod.mk.inj hrest
      cases data <;> rfl
    | _ => cases hx
  | fallback storage _ hx hcalled hp =>
    subst hp
    exact .of_delegatecall (fun c hc => by subst hc; rfl) hcalled

end

section

variable {w : W} {l : List ProxyTx}

/-- **The token behind its proxy is what its functions make of it.** The
storage after a run is what the functions that ran, each of the implementation
pointed at, make of the storage before, one after the other. -/
theorem ran_ok (p : TokenProxy W) (l : List ProxyTx) :
    Runs.transact N.apply p.storage (N.ran p l) = .ok (Proxy.run N.chain p l).storage := by
  show Runs.transact N.apply p.storage (Runs.trace (Proxy.exec N.chain) (ProxyTx.ran N) p l) = _
  refine Runs.transact_trace Proxy.storage (fun x p p' hs => ?_) p l
  cases tokenEffect_of_exec hs with
  | keep hx h => rw [hx, h]; rfl
  | ran r hx h => rw [hx]; exact Runs.transact_cons_ok_iff.2 ⟨_, h, rfl⟩

theorem history_ok : Runs.transact N.apply (.fresh w) (N.history w l) = .ok (N.run w l).storage :=
  ran_ok (Proxy.deployed (.fresh w)) l

end

/-! ## Initialization -/

/-- What `initialize` can set. -/
structure Metadata where
  name : List UInt8
  symbol : List UInt8
  decimals : Nat
  governance : Address
  deriving DecidableEq

def TokenStorage.metadata (t : TokenStorage W) : Metadata := ⟨t.name, t.symbol, t.decimals, t.governance⟩

/-- As deployed. -/
def Metadata.unset : Metadata := ⟨[], [], 0, 0⟩

/-- What an `initialize` of `c` makes of them. -/
def Contract.sets (c : Contract) (args : Initialization) (d : Metadata) : Metadata :=
  match args with
  | .withGovernance governance name symbol decimals => ⟨name, symbol, decimals, governance⟩
  | .withMetadata name symbol decimals => if c.REVISION = 1 then { d with name, symbol, decimals } else d
  | .bare => d

theorem Contract.REVISION_mem (c : Contract) : c.REVISION ∈ [1, 2, 3, 4] := by cases c <;> decide

theorem Contract.REVISION_pos (c : Contract) : 0 < c.REVISION := by cases c <;> decide

section

variable {c : Contract} {args : Initialization} {t t' : TokenStorage W} {m : Msg} {D : Deployment W} {x : Tx}
  {s s' : State W}

theorem initializer_ok_iff {revision : Nat} {body : TokenStorage W → TokenStorage W} :
    initializer revision body t = .ok t' ↔
      t.lastInitializedRevision < revision ∧ t' = body { t with lastInitializedRevision := revision } := by
  simp only [initializer, Outcome.bind_ok_iff, require_ok_iff, Outcome.pure_ok_iff, exists_const, gt_iff_lt]

/-- An `initialize` raises the revision, and changes metadata only where no
revision was initialized before. -/
theorem initializeToken_ok (h : c.initializeToken args t = .ok t') :
    t.lastInitializedRevision < c.REVISION ∧ t'.lastInitializedRevision = c.REVISION ∧
      t'.metadata = c.sets args t.metadata ∧ (t.lastInitializedRevision ≠ 0 → t'.metadata = t.metadata) ∧
      t'.toState = { t.toState with governance := t'.governance } := by
  cases args with
  | withGovernance governance name symbol decimals =>
    cases c with
    | StakedToken =>
      simp only [Contract.initializeToken, initializer_ok_iff] at h
      obtain ⟨hlt, rfl⟩ := h
      exact ⟨hlt, rfl, rfl, fun hne => absurd (Nat.lt_one_iff.1 hlt) hne, rfl⟩
    | _ => cases h
  | bare =>
    cases c with
    | StakedTokenV2 | StakedTokenV2Rev3 | StakedTokenV2Rev4 =>
      simp only [Contract.initializeToken, initializer_ok_iff] at h
      obtain ⟨hlt, rfl⟩ := h
      exact ⟨hlt, rfl, rfl, fun _ => rfl, rfl⟩
    | _ => cases h
  | withMetadata name symbol decimals =>
    cases c with
    | StakedTokenV3 =>
      simp only [Contract.initializeToken, initializer_ok_iff] at h
      obtain ⟨hlt, rfl⟩ := h
      exact ⟨hlt, rfl, rfl, fun hne => absurd (Nat.lt_one_iff.1 hlt) hne, rfl⟩
    | StakedTokenBptRev2 =>
      simp only [Contract.initializeToken, initializer_ok_iff] at h
      obtain ⟨hlt, rfl⟩ := h
      exact ⟨hlt, rfl, rfl, fun _ => rfl, rfl⟩
    | _ => cases h

/-- A call of any version leaves the hook. -/
theorem governance_of_exec (h : StakedToken.exec D x s = .ok s') : s'.governance = s.governance := by
  cases StakedToken.effect_of_exec h with
  | stake dst amount _ hs =>
    obtain ⟨-, -, -, -, r, assets, c, p, w, w', -, -, -, -, -, -, rfl⟩ := StakedToken.stake_ok_iff.1 hs
    rfl
  | redeem dst amount _ hs =>
    obtain ⟨-, -, -, -, -, r, assets, p, w, w', -, -, -, -, -, rfl⟩ := StakedToken.redeem_ok_iff.1 hs
    rfl
  | cooldown _ hs =>
    obtain ⟨-, rfl⟩ := StakedToken.cooldown_ok_iff.1 hs
    rfl
  | claimRewards dst amount n _ hs =>
    obtain ⟨r, assets, w, -, -, -, -, -, rfl⟩ := StakedToken.claimRewards_ok_iff.1 hs
    rfl
  | transfer src dst amount allowances s₁ _ hs hs' =>
    subst hs'
    by_cases heq : src = dst
    · subst heq
      obtain ⟨-, -, -, r, assets, p, w, -, -, -, -, rfl⟩ := StakedToken.transfer_self_ok_iff.1 hs
      rfl
    · obtain ⟨-, -, -, -, r, assets, r', assets', c, p, w, -, -, -, -, -, -, -, rfl⟩ :=
        (StakedToken.transfer_ok_iff heq).1 hs
      rfl
  | configureAssets inputs _ hs =>
    obtain ⟨-, assets, -, rfl⟩ := StakedToken.configureAssets_ok_iff.1 hs
    rfl
  | aside _ allowances power nonces hs' => rw [hs']

/-- What ran was an `initialize`, or a call that leaves what those set. -/
theorem apply_ok {r : Ran} (h : N.apply r t = .ok t') :
    (∃ args, r.function = .initializeToken args ∧ r.implementation.contract.initializeToken args t = .ok t') ∨
      ∃ c s, r.function = .call c ∧
        StakedToken.exec (N.deployment r.implementation t.name) ⟨r.implementation.contract.version, r.msg, c⟩ t.toState =
          .ok s ∧ t' = { t with toState := s } ∧ t'.metadata = t.metadata := by
  obtain ⟨i, m, function⟩ := r
  cases function with
  | initializeToken args => exact .inl ⟨args, rfl, h⟩
  | call c =>
    simp only [Network.apply, Network.exec, Outcome.bind_ok_iff, Outcome.pure_ok_iff] at h
    obtain ⟨s, hs, rfl⟩ := h
    refine .inr ⟨c, s, rfl, hs, rfl, ?_⟩
    simp only [TokenStorage.metadata, governance_of_exec hs]

/-- To what calls work on, an `initialize` sets the hook at most. -/
theorem state_of_apply {r : Ran} (h : N.apply r t = .ok t') :
    (∃ args governance, r.function = .initializeToken args ∧ t'.toState = { t.toState with governance }) ∨
      ∃ c, r.function = .call c ∧
        StakedToken.exec (N.deployment r.implementation t.name) ⟨r.implementation.contract.version, r.msg, c⟩ t.toState =
          .ok t'.toState := by
  rcases apply_ok h with ⟨args, hf, hs⟩ | ⟨c, s, hf, hs, rfl, -⟩
  · obtain ⟨-, -, -, -, hstate⟩ := initializeToken_ok hs
    exact .inl ⟨args, _, hf, hstate⟩
  · exact .inr ⟨c, hf, hs⟩

/-- The initializers among what ran. -/
def Ran.initialization (r : Ran) : Option (Contract × Initialization) :=
  match r.function with
  | .initializeToken args => some (r.implementation.contract, args)
  | .call _ => none

/-- The initializers that ran in a run, in order. -/
def Network.initializations (N : Network W) (w : W) (l : List ProxyTx) : List (Contract × Initialization) :=
  (N.history w l).filterMap Ran.initialization

/-- What a list of initializers leaves. -/
structure Initialized (log : List (Contract × Initialization)) (t : TokenStorage W) : Prop where
  increasing : (log.map fun e => e.1.REVISION).Pairwise (· < ·)
  le_last : ∀ e ∈ log, e.1.REVISION ≤ t.lastInitializedRevision
  last : t.lastInitializedRevision = (log.getLast?.map fun e => e.1.REVISION).getD 0
  metadata : t.metadata = (log.head?.map fun e => e.1.sets e.2 .unset).getD .unset

theorem Initialized.step {log : List (Contract × Initialization)} (h : Initialized log t)
    (hs : c.initializeToken args t = .ok t') : Initialized (log ++ [(c, args)]) t' := by
  obtain ⟨hlt, hlast, hmetadata, hkept, -⟩ := initializeToken_ok hs
  refine ⟨?_, fun e he => ?_, ?_, ?_⟩
  · rw [List.map_append, List.pairwise_append]
    refine ⟨h.increasing, List.pairwise_singleton .., fun a ha b hb => ?_⟩
    obtain ⟨e, he, rfl⟩ := List.mem_map.1 ha
    obtain rfl := List.mem_singleton.1 hb
    exact (h.le_last e he).trans_lt hlt
  · rw [hlast]
    rcases List.mem_append.1 he with he | he
    · exact ((h.le_last e he).trans_lt hlt).le
    · rw [List.mem_singleton.1 he]
  · rw [hlast, List.getLast?_concat]
    rfl
  · cases log with
    | nil => rw [hmetadata, h.metadata]; rfl
    | cons e log =>
      have hpos : 0 < t.lastInitializedRevision := e.1.REVISION_pos.trans_le (h.le_last e (by simp))
      rw [hkept hpos.ne', h.metadata]
      rfl

theorem Initialized.of_history {w : W} {h : List Ran} (hok : Runs.transact N.apply (.fresh w) h = .ok t) :
    Initialized (h.filterMap Ran.initialization) t := by
  induction h using List.reverseRecOn generalizing t with
  | nil => exact Except.ok.inj hok ▸ ⟨.nil, by simp, rfl, rfl⟩
  | append_singleton h r ih =>
    obtain ⟨t₁, h₁, hr⟩ := Runs.transact_concat_ok_iff.1 hok
    have hbefore := ih h₁
    rw [List.filterMap_append]
    rcases apply_ok hr with ⟨args, hf, hs⟩ | ⟨c, s, hf, -, rfl, hmetadata⟩
    · have hlog : [r].filterMap Ran.initialization = [(r.implementation.contract, args)] := by
        simp [Ran.initialization, hf]
      rw [hlog]
      exact hbefore.step hs
    · have hlog : [r].filterMap Ran.initialization = [] := by simp [Ran.initialization, hf]
      rw [hlog, List.append_nil]
      exact ⟨hbefore.increasing, hbefore.le_last, hbefore.last, hmetadata.trans hbefore.metadata⟩

end

/-- **A proxied token is initialized once by each revision, upwards.** In
every run, whatever the admin upgrades to and whoever calls what, the
revisions of the initializers that ran increase strictly, so there are at
most four; and name, symbol, decimals and governance hook are what the first
of them made of nothing, never changed by a later one. -/
theorem initialized_once (N : Network W) (w : W) (l : List ProxyTx) :
    let log := N.initializations w l
    let t := (N.run w l).storage
    (log.map fun e => e.1.REVISION).Pairwise (· < ·) ∧ log.length ≤ 4 ∧
      t.lastInitializedRevision = (log.getLast?.map fun e => e.1.REVISION).getD 0 ∧
      t.metadata = (log.head?.map fun e => e.1.sets e.2 .unset).getD .unset := by
  intro log t
  have h : Initialized log t := .of_history history_ok
  have hnodup : (log.map fun e => e.1.REVISION).Nodup := h.increasing.imp fun hlt => hlt.ne
  have hsubset : (log.map fun e => e.1.REVISION) ⊆ [1, 2, 3, 4] := by
    intro revision hrevision
    obtain ⟨e, -, rfl⟩ := List.mem_map.1 hrevision
    exact e.1.REVISION_mem
  have hlength := (hnodup.subperm hsubset).length_le
  rw [List.length_map] at hlength
  exact ⟨h.increasing, hlength, h.last, h.metadata⟩

/-! ## Supply and power -/

section

variable {r : Ran} {t t' : TokenStorage W} {w : W} {l q : List ProxyTx} {x : ProxyTx}

theorem PowerInv.setGovernance {s : State W} (h : PowerInv s) (g : Address) : PowerInv { s with governance := g } :=
  ⟨h.supply, h.power⟩

theorem PowerInvV1.setGovernance {s : State W} (h : PowerInvV1 s) (g : Address) :
    PowerInvV1 { s with governance := g } :=
  ⟨h.toPowerInv.setGovernance g, h.undelegated, h.unrecorded, h.proposition⟩

theorem PowerInv.apply (h : PowerInv t.toState) (hv : r.implementation.contract.version = .v2)
    (hsupply : t'.totalSupply < 2 ^ 128) (hr : N.apply r t = .ok t') : PowerInv t'.toState := by
  rcases state_of_apply hr with ⟨args, governance, -, hstate⟩ | ⟨c, -, hs⟩
  · rw [hstate]
    exact h.setGovernance governance
  · exact h.step hv hsupply hs

theorem PowerInvV1.apply (h : PowerInvV1 t.toState) (hv : r.implementation.contract.version = .v1)
    (hsupply : t'.totalSupply < 2 ^ 128) (hr : N.apply r t = .ok t') : PowerInvV1 t'.toState := by
  rcases state_of_apply hr with ⟨args, governance, -, hstate⟩ | ⟨c, -, hs⟩
  · rw [hstate]
    exact h.setGovernance governance
  · exact h.step hv hsupply hs

/-- Nothing of version 1 ran after anything of version 2. -/
def Network.Forward (N : Network W) (w : W) (l : List ProxyTx) : Prop :=
  (N.history w l).Pairwise fun r r' =>
    r.implementation.contract.version = .v2 → r'.implementation.contract.version = .v2

instance : Decidable (N.Forward w l) := inferInstanceAs (Decidable (List.Pairwise _ _))

/-- The supply fits a snapshot after every transaction. -/
def Network.SupplyBounded (N : Network W) (w : W) (l : List ProxyTx) : Prop :=
  ∀ q, q <+: l → (N.run w q).storage.totalSupply < 2 ^ 128

instance : Decidable (N.SupplyBounded w l) :=
  decidable_of_iff (∀ q ∈ l.inits, (N.run w q).storage.totalSupply < 2 ^ 128) (by
    simp only [Network.SupplyBounded, List.mem_inits])

/-- One more transaction: nothing of the token, or one function more. -/
theorem history_concat (N : Network W) (w : W) (l : List ProxyTx) (x : ProxyTx) :
    (N.history w (l ++ [x]) = N.history w l ∧ (N.run w (l ++ [x])).storage = (N.run w l).storage) ∨
      ∃ r, N.history w (l ++ [x]) = N.history w l ++ [r] ∧
        N.apply r (N.run w l).storage = .ok (N.run w (l ++ [x])).storage := by
  have hrun : N.run w (l ++ [x]) = Runs.attempt (Proxy.exec N.chain) (N.run w l) x := Runs.run_concat ..
  rcases Runs.attempt_cases (Proxy.exec N.chain) (N.run w l) x with ⟨p', hs, he⟩ | ⟨e, hs, he⟩
  · have hhistory : N.history w (l ++ [x]) = N.history w l ++ x.ran N (N.run w l) p' := Runs.trace_concat_ok hs
    rw [hrun, he, hhistory]
    cases tokenEffect_of_exec hs with
    | keep hx h => rw [hx, List.append_nil]; exact .inl ⟨rfl, h⟩
    | ran r hx h => rw [hx]; exact .inr ⟨r, rfl, h⟩
  · rw [hrun, he]
    exact .inl ⟨Runs.trace_concat_error hs, rfl⟩

/-- While nothing of version 2 has run, version 1's invariant holds, and
version 2's all along. -/
theorem powerInv_through_upgrades (hforward : N.Forward w l) (hsupply : N.SupplyBounded w l) :
    PowerInv (N.run w l).storage.toState ∧ ((∀ r ∈ N.history w l, r.implementation.contract.version = .v1) →
      PowerInvV1 (N.run w l).storage.toState) := by
  induction l using List.reverseRecOn with
  | nil => exact ⟨(PowerInvV1.fresh 0 w).toPowerInv, fun _ => .fresh 0 w⟩
  | append_singleton l x ih =>
    have hbefore : N.SupplyBounded w l := fun q hq => hsupply q (hq.trans (List.prefix_append l [x]))
    have hlast := hsupply (l ++ [x]) (List.prefix_refl _)
    rcases history_concat N w l x with ⟨hhistory, hstorage⟩ | ⟨r, hhistory, happly⟩
    · rw [Network.Forward, hhistory] at hforward
      rw [hhistory, hstorage]
      exact ih hforward hbefore
    · rw [Network.Forward, hhistory, List.pairwise_append] at hforward
      obtain ⟨hforward, -, hr⟩ := hforward
      obtain ⟨hinv, hinv₁⟩ := ih hforward hbefore
      rw [hhistory]
      cases hv : r.implementation.contract.version with
      | v2 =>
        refine ⟨hinv.apply hv hlast happly, fun hall => ?_⟩
        have hv₁ := hall r (by simp)
        rw [hv] at hv₁
        cases hv₁
      | v1 =>
        -- nothing of version 2 ran before
        have hold : ∀ r' ∈ N.history w l, r'.implementation.contract.version = .v1 := by
          intro r' hr'
          cases hv' : r'.implementation.contract.version with
          | v1 => rfl
          | v2 =>
            have hv₂ := hr r' hr' r (by simp) hv'
            rw [hv] at hv₂
            cases hv₂
        have hinv' := (hinv₁ hold).apply hv hlast happly
        exact ⟨hinv'.toPowerInv, fun _ => hinv'⟩

end

/-- **Supply and power outlive every upgrade.** After any run of transactions
to the proxy, of calls, initializers and upgrades among all the
implementations, in which nothing of version 1 ran after anything of version
2 and the supply stays below 2^128: the supply is what all hold together; the
power of an account, of each type, is the sum of the balances of those whose
delegatee it is; the powers make up the supply; and the zero address has no
delegatee. -/
theorem power_through_upgrades {w : W} {l : List ProxyTx} (hforward : N.Forward w l) (hsupply : N.SupplyBounded w l) :
    let s := (N.run w l).storage.toState
    total s.balances = s.totalSupply ∧
    ∀ t, (∀ a, lastPower s.balances (s.power t) a = ∑ d with StakedToken.getDelegateeByType d t s = a, s.balances d) ∧
      ∑ a, lastPower s.balances (s.power t) a = s.totalSupply ∧ (s.power t).delegates 0 = 0 := by
  intro s
  have hinv : PowerInv s := (powerInv_through_upgrades hforward hsupply).1
  refine ⟨hinv.supply, fun t => ⟨fun a => ?_, hinv.sum_power t, (hinv.power t).zero⟩⟩
  rw [(hinv.power t).lastPower_eq_share a, Ledger.share_def]
  rfl

/-- Data that calls a function of the token. -/
def Call.data (c : Call) : Calldata TokenCall := .function (.call c)

/-- A proxy is pointed at `StakedToken` and staked in, upgraded to
`StakedTokenV2` and delegated under, and upgraded to revision 4, under which
the delegator moves all it has. -/
theorem power_through_upgrades_twice :
    let admin : Msg := ⟨.ofNat 7, 1, 200, by decide⟩
    let holder : Msg := ⟨.ofNat 10, 2, 201, sampleHolder_ne⟩
    let l : List ProxyTx := [
      ⟨admin, .initializeAdmin (.ofNat 20) (.ofNat 7)
        (.function (.initializeToken (.withGovernance 0 (ascii "Staked LAY") (ascii "stkLAY") 18)))⟩,
      ⟨holder, (Call.stake (.ofNat 10) 7).data⟩,
      ⟨admin, .upgradeToAndCall (.ofNat 21) (.function (.initializeToken .bare))⟩,
      ⟨holder, (Call.delegate (.ofNat 11)).data⟩,
      ⟨admin, .upgradeToAndCall (.ofNat 22) (.function (.initializeToken .bare))⟩,
      ⟨holder, (Call.transfer (.ofNat 12) 7).data⟩]
    let s := (Network.sample.run () l).storage.toState
    total s.balances = s.totalSupply ∧
    ∀ t, (∀ a, lastPower s.balances (s.power t) a = ∑ d with StakedToken.getDelegateeByType d t s = a, s.balances d) ∧
      ∑ a, lastPower s.balances (s.power t) a = s.totalSupply ∧ (s.power t).delegates 0 = 0 := by
  intro admin holder l
  exact power_through_upgrades (N := .sample) (w := ()) (l := l) (by decide +kernel) (by decide +kernel)

end StarlayStake
