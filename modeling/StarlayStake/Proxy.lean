/-
The proxies (`lib/Proxy.sol`, `lib/BaseUpgradeabilityProxy.sol`,
`lib/BaseAdminUpgradeabilityProxy.sol`,
`lib/InitializableUpgradeabilityProxy.sol` and
`lib/InitializableAdminUpgradeabilityProxy.sol`), over whatever contracts
they are pointed at.

The slots of the implementation and of the admin are hashes less one, where
Solidity puts no variable: the code a proxy delegates to has all the rest of
the storage, `σ`, and not these two. Ether is left out, and a call made from
delegated code does not come back to the proxy.

For everybody but the admin a proxy is the contract it points at
(`transparent`), and what it points at and who its admin is are the admin's
to change, once it has been pointed anywhere at all (`admin_alone_controls`).
-/
import StarlayStake.Lib.Runs
import StarlayStake.Solidity

namespace StarlayStake

/-- What a call carries: the selector and arguments of one of the proxy's
functions, those of another function, or nothing. The two `initialize` of
the proxy are told apart by their parameters. -/
inductive Calldata (ι : Type)
  | empty
  | admin
  | implementation
  | changeAdmin (newAdmin : Address)
  | upgradeTo (newImplementation : Address)
  | upgradeToAndCall (newImplementation : Address) (data : Calldata ι)
  | initializeLogic (logic : Address) (data : Calldata ι)
  | initializeAdmin (logic admin : Address) (data : Calldata ι)
  | function (call : ι)

variable {σ ι : Type}

/-- `data.length == 0` -/
def Calldata.isEmpty : Calldata ι → Bool
  | .empty => true
  | _ => false

/-- What code does to the storage it runs on. -/
def Code (σ ι : Type) : Type := Msg → Calldata ι → σ → Except String σ

/-- The contracts there are. `σ` has the world in it, so they may become more. -/
structure Chain (σ ι : Type) where
  code : Address → σ → Option (Code σ ι)
  /-- nobody deploys to the zero address -/
  codeless : ∀ s, code 0 s = none

namespace Chain

variable (chain : Chain σ ι)

/-- `Address.isContract`: by the hash of the account's code. -/
def isContract (account : Address) (s : σ) : Bool := (chain.code account s).isSome

/-- `delegatecall`: it succeeds, and does nothing, where there is no code. -/
def delegatecall (account : Address) (m : Msg) (data : Calldata ι) (s : σ) : Except String σ :=
  match chain.code account s with
  | none => .ok s
  | some code => code m data s

theorem delegatecall_zero (m : Msg) (data : Calldata ι) (s : σ) : chain.delegatecall 0 m data s = .ok s := by
  simp only [delegatecall, chain.codeless]

/-- Two contracts that count, the second down. -/
def sample : Chain Nat Nat :=
  { code := fun account _ =>
      if account = .ofNat 2 then some fun _ data s => match data with
        | .function n => .ok (s + n)
        | _ => .error ""
      else if account = .ofNat 3 then some fun _ data s => match data with
        | .function n => SafeMath.sub s n
        | _ => .error ""
      else none
    codeless := fun _ => rfl }

end Chain

/-- The storage of a proxy. -/
structure Proxy (σ : Type) where
  /-- at `IMPLEMENTATION_SLOT` -/
  implementation : Address
  /-- at `ADMIN_SLOT` -/
  admin : Address
  storage : σ

namespace Proxy

/-- A proxy as deployed. -/
def deployed (s : σ) : Proxy σ := { implementation := 0, admin := 0, storage := s }

variable (chain : Chain σ ι) (m : Msg)

/-- `_setImplementation` -/
def setImplementation (newImplementation : Address) (p : Proxy σ) : Except String (Proxy σ) := do
  require (chain.isContract newImplementation p.storage = true)
    "Cannot set a proxy implementation to a non-contract address"
  return { p with implementation := newImplementation }

/-- `_delegate`: the answer, or the reason, of the implementation. -/
def delegate (implementation : Address) (data : Calldata ι) (p : Proxy σ) : Except String (Proxy σ) := do
  let storage ← chain.delegatecall implementation m data p.storage
  return { p with storage }

/-- `(bool success, ) = logic.delegatecall(data)` and `require(success)` -/
def delegateRequired (logic : Address) (data : Calldata ι) (p : Proxy σ) : Except String (Proxy σ) :=
  match chain.delegatecall logic m data p.storage with
  | .ok storage => .ok { p with storage }
  | .error _ => .error ""

/-- `_fallback`, with `_willFallback` before it -/
def fallback (data : Calldata ι) (p : Proxy σ) : Except String (Proxy σ) := do
  require (m.sender ≠ p.admin) "Cannot call fallback function from the proxy admin"
  delegate chain m p.implementation data p

/-- `ifAdmin`: the body for the admin, the fallback for all others. -/
def ifAdmin (data : Calldata ι) (body : Proxy σ → Except String (Proxy σ)) (p : Proxy σ) :
    Except String (Proxy σ) :=
  if m.sender = p.admin then body p else fallback chain m data p

def changeAdmin (newAdmin : Address) (p : Proxy σ) : Except String (Proxy σ) := do
  require (newAdmin ≠ 0) "Cannot change the admin of a proxy to the zero address"
  return { p with admin := newAdmin }

def upgradeToAndCall (newImplementation : Address) (data : Calldata ι) (p : Proxy σ) : Except String (Proxy σ) := do
  let p ← setImplementation chain newImplementation p
  delegateRequired chain m newImplementation data p

/-- `initialize(logic, data)` -/
def initializeLogic (logic : Address) (data : Calldata ι) (p : Proxy σ) : Except String (Proxy σ) := do
  require (p.implementation = 0) ""
  let p ← setImplementation chain logic p
  if data.isEmpty = true then return p else delegateRequired chain m logic data p

/-- `initialize(logic, admin, data)` -/
def initializeAdmin (logic admin : Address) (data : Calldata ι) (p : Proxy σ) : Except String (Proxy σ) := do
  require (p.implementation = 0) ""
  let p ← initializeLogic chain m logic data p
  return { p with admin }

/-- A call to the proxy. No data goes to the fallback as well. -/
def call (data : Calldata ι) (p : Proxy σ) : Except String (Proxy σ) :=
  match data with
  | .admin => ifAdmin chain m data (fun p => return p) p
  | .implementation => ifAdmin chain m data (fun p => return p) p
  | .changeAdmin newAdmin => ifAdmin chain m data (changeAdmin newAdmin) p
  | .upgradeTo newImplementation => ifAdmin chain m data (setImplementation chain newImplementation) p
  | .upgradeToAndCall newImplementation data' =>
    ifAdmin chain m data (upgradeToAndCall chain m newImplementation data') p
  | .initializeLogic logic data' => initializeLogic chain m logic data' p
  | .initializeAdmin logic admin data' => initializeAdmin chain m logic admin data' p
  | .empty => fallback chain m data p
  | .function _ => fallback chain m data p

/-- What `admin()` and `implementation()` answer the admin; anybody else is
answered by the implementation. -/
def view (data : Calldata ι) (p : Proxy σ) : Option Address :=
  if m.sender = p.admin then
    match data with
    | .admin => some p.admin
    | .implementation => some p.implementation
    | _ => none
  else none

/-- A transaction. -/
structure Tx (ι : Type) where
  msg : Msg
  data : Calldata ι

def exec (x : Tx ι) (p : Proxy σ) : Except String (Proxy σ) := call chain x.msg x.data p

/-- The proxy after a list of transactions; one that reverts changes nothing. -/
def run (p : Proxy σ) (l : List (Tx ι)) : Proxy σ := Runs.run (exec chain) p l

/-! ## What a call does -/

/-- Where an upgrade points the proxy, and what it then calls there. -/
def Tx.upgrade (x : Tx ι) : Option (Address × Option (Calldata ι)) :=
  match x.data with
  | .upgradeTo newImplementation => some (newImplementation, none)
  | .upgradeToAndCall newImplementation data => some (newImplementation, some data)
  | _ => none

/-- Where an `initialize` points the proxy, the admin it gives it, if it does,
and what it then calls there. -/
def Tx.claim (x : Tx ι) : Option (Address × Option Address × Option (Calldata ι)) :=
  let called (data : Calldata ι) := if data.isEmpty = true then none else some data
  match x.data with
  | .initializeLogic logic data => some (logic, none, called data)
  | .initializeAdmin logic admin data => some (logic, some admin, called data)
  | _ => none

/-- The storage after a call to a contract, if there is one. -/
def Called (chain : Chain σ ι) (m : Msg) (logic : Address) (data : Option (Calldata ι)) (s s' : σ) : Prop :=
  match data with
  | none => s' = s
  | some data => chain.delegatecall logic m data s = .ok s'

/-- What a successful call is: a view, a change of the admin and an upgrade,
by the admin; the one `initialize`; or the implementation's. -/
inductive Effect (chain : Chain σ ι) (x : Tx ι) (p p' : Proxy σ) : Prop
  | view (hadmin : x.msg.sender = p.admin) (hx : x.data = .admin ∨ x.data = .implementation) (hp : p' = p)
  | changeAdmin (newAdmin : Address) (hadmin : x.msg.sender = p.admin) (hx : x.data = .changeAdmin newAdmin)
      (hne : newAdmin ≠ 0) (hp : p' = { p with admin := newAdmin })
  | upgrade (newImplementation : Address) (data : Option (Calldata ι)) (storage : σ)
      (hadmin : x.msg.sender = p.admin) (hx : x.upgrade = some (newImplementation, data))
      (hcode : chain.isContract newImplementation p.storage = true)
      (hcalled : Called chain x.msg newImplementation data p.storage storage)
      (hp : p' = { p with implementation := newImplementation, storage })
  | claim (logic : Address) (admin : Option Address) (data : Option (Calldata ι)) (storage : σ)
      (hunclaimed : p.implementation = 0) (hx : x.claim = some (logic, admin, data))
      (hcode : chain.isContract logic p.storage = true) (hcalled : Called chain x.msg logic data p.storage storage)
      (hp : p' = { implementation := logic, admin := admin.getD p.admin, storage })
  | fallback (storage : σ) (hadmin : x.msg.sender ≠ p.admin) (hx : x.claim = none)
      (hcalled : chain.delegatecall p.implementation x.msg x.data p.storage = .ok storage)
      (hp : p' = { p with storage })

section

variable {chain : Chain σ ι} {m : Msg} {data : Calldata ι} {logic : Address} {p p' : Proxy σ}

theorem setImplementation_ok_iff :
    setImplementation chain logic p = .ok p' ↔
      chain.isContract logic p.storage = true ∧ p' = { p with implementation := logic } := by
  simp only [setImplementation, Outcome.bind_ok_iff, require_ok_iff, Outcome.pure_ok_iff, exists_const]

theorem delegateRequired_ok_iff :
    delegateRequired chain m logic data p = .ok p' ↔
      ∃ storage, chain.delegatecall logic m data p.storage = .ok storage ∧ p' = { p with storage } := by
  unfold delegateRequired
  cases chain.delegatecall logic m data p.storage <;> simp [eq_comm]

theorem fallback_ok_iff :
    fallback chain m data p = .ok p' ↔
      m.sender ≠ p.admin ∧
        ∃ storage, chain.delegatecall p.implementation m data p.storage = .ok storage ∧ p' = { p with storage } := by
  simp only [fallback, delegate, Outcome.bind_ok_iff, require_ok_iff, Outcome.pure_ok_iff, exists_const]

theorem upgradeToAndCall_ok_iff :
    upgradeToAndCall chain m logic data p = .ok p' ↔
      chain.isContract logic p.storage = true ∧ ∃ storage, chain.delegatecall logic m data p.storage = .ok storage ∧
        p' = { p with implementation := logic, storage } := by
  simp only [upgradeToAndCall, Outcome.bind_ok_iff, setImplementation_ok_iff, delegateRequired_ok_iff]
  constructor
  · rintro ⟨_, ⟨hcode, rfl⟩, storage, hcalled, rfl⟩; exact ⟨hcode, storage, hcalled, rfl⟩
  · rintro ⟨hcode, storage, hcalled, rfl⟩; exact ⟨_, ⟨hcode, rfl⟩, storage, hcalled, rfl⟩

theorem initializeLogic_ok_iff :
    initializeLogic chain m logic data p = .ok p' ↔
      p.implementation = 0 ∧ chain.isContract logic p.storage = true ∧
        ∃ storage, Called chain m logic (if data.isEmpty = true then none else some data) p.storage storage ∧
          p' = { p with implementation := logic, storage } := by
  simp only [initializeLogic, Outcome.bind_ok_iff, require_ok_iff, setImplementation_ok_iff]
  by_cases hdata : data.isEmpty = true
  · simp only [hdata, if_true, Outcome.pure_ok_iff, Called, exists_eq_left]
    constructor
    · rintro ⟨_, hunclaimed, _, ⟨hcode, rfl⟩, rfl⟩; exact ⟨hunclaimed, hcode, rfl⟩
    · rintro ⟨hunclaimed, hcode, rfl⟩; exact ⟨(), hunclaimed, _, ⟨hcode, rfl⟩, rfl⟩
  · simp only [hdata, Bool.false_eq_true, if_false, delegateRequired_ok_iff, Called]
    constructor
    · rintro ⟨_, hunclaimed, _, ⟨hcode, rfl⟩, storage, hcalled, rfl⟩; exact ⟨hunclaimed, hcode, storage, hcalled, rfl⟩
    · rintro ⟨hunclaimed, hcode, storage, hcalled, rfl⟩
      exact ⟨(), hunclaimed, _, ⟨hcode, rfl⟩, storage, hcalled, rfl⟩

theorem initializeAdmin_ok_iff {admin : Address} :
    initializeAdmin chain m logic admin data p = .ok p' ↔
      ∃ p₁, initializeLogic chain m logic data p = .ok p₁ ∧ p' = { p₁ with admin } := by
  simp only [initializeAdmin, Outcome.bind_ok_iff, require_ok_iff, Outcome.pure_ok_iff]
  constructor
  · rintro ⟨_, -, p₁, h, rfl⟩; exact ⟨p₁, h, rfl⟩
  · rintro ⟨p₁, h, rfl⟩; exact ⟨(), (initializeLogic_ok_iff.1 h).1, p₁, h, rfl⟩

end

section

variable {chain : Chain σ ι} {x : Tx ι} {p p' : Proxy σ}

/-- One of the admin's functions is the admin's, or the implementation's. -/
theorem Effect.of_ifAdmin {body : Proxy σ → Except String (Proxy σ)} (hx : x.claim = none)
    (hbody : x.msg.sender = p.admin → body p = .ok p' → Effect chain x p p')
    (h : ifAdmin chain x.msg x.data body p = .ok p') : Effect chain x p p' := by
  unfold ifAdmin at h
  split at h
  · next hadmin => exact hbody hadmin h
  · obtain ⟨hadmin, storage, hcalled, rfl⟩ := fallback_ok_iff.1 h
    exact .fallback storage hadmin hx hcalled rfl

theorem effect_of_exec (h : exec chain x p = .ok p') : Effect chain x p p' := by
  obtain ⟨m, data⟩ := x
  cases data with
  | empty =>
    obtain ⟨hadmin, storage, hcalled, rfl⟩ := fallback_ok_iff.1 h
    exact .fallback storage hadmin rfl hcalled rfl
  | admin => exact .of_ifAdmin rfl (fun hadmin hp => .view hadmin (.inl rfl) (Outcome.pure_ok_iff.1 hp)) h
  | implementation => exact .of_ifAdmin rfl (fun hadmin hp => .view hadmin (.inr rfl) (Outcome.pure_ok_iff.1 hp)) h
  | changeAdmin newAdmin =>
    refine .of_ifAdmin rfl (fun hadmin hp => ?_) h
    simp only [Proxy.changeAdmin, Outcome.bind_ok_iff, require_ok_iff, Outcome.pure_ok_iff] at hp
    obtain ⟨-, hne, rfl⟩ := hp
    exact .changeAdmin newAdmin hadmin rfl hne rfl
  | upgradeTo newImplementation =>
    refine .of_ifAdmin rfl (fun hadmin hp => ?_) h
    obtain ⟨hcode, rfl⟩ := setImplementation_ok_iff.1 hp
    exact .upgrade newImplementation none p.storage hadmin rfl hcode rfl rfl
  | upgradeToAndCall newImplementation data =>
    refine .of_ifAdmin rfl (fun hadmin hp => ?_) h
    obtain ⟨hcode, storage, hcalled, rfl⟩ := upgradeToAndCall_ok_iff.1 hp
    exact .upgrade newImplementation (some data) storage hadmin rfl hcode hcalled rfl
  | initializeLogic logic data =>
    obtain ⟨hunclaimed, hcode, storage, hcalled, rfl⟩ := initializeLogic_ok_iff.1 h
    exact .claim logic none _ storage hunclaimed rfl hcode hcalled rfl
  | initializeAdmin logic admin data =>
    obtain ⟨p₁, h₁, rfl⟩ := initializeAdmin_ok_iff.1 h
    obtain ⟨hunclaimed, hcode, storage, hcalled, rfl⟩ := initializeLogic_ok_iff.1 h₁
    exact .claim logic (some admin) _ storage hunclaimed rfl hcode hcalled rfl
  | function call =>
    obtain ⟨hadmin, storage, hcalled, rfl⟩ := fallback_ok_iff.1 h
    exact .fallback storage hadmin rfl hcalled rfl

end

/-! ## Everybody but the admin -/

/-- What the code at `logic` does with a transaction to a proxy that points
at it. The proxy's own `initialize` stand in front of it. -/
def behind (chain : Chain σ ι) (logic : Address) (x : Tx ι) (s : σ) : Except String σ :=
  if x.claim.isSome = true then .error "" else chain.delegatecall logic x.msg x.data s

section

variable {chain : Chain σ ι} {x : Tx ι} {p p' : Proxy σ} {l : List (Tx ι)}

/-- A proxy that points somewhere is not initialized again. -/
theorem claim_refused (hclaimed : p.implementation ≠ 0) (hx : x.claim.isSome = true) :
    exec chain x p = .error "" := by
  obtain ⟨m, data⟩ := x
  cases data with
  | initializeLogic logic data =>
    simp only [exec, call, Proxy.initializeLogic, require, hclaimed, if_false]
    rfl
  | initializeAdmin logic admin data =>
    simp only [exec, call, Proxy.initializeAdmin, require, hclaimed, if_false]
    rfl
  | _ => cases hx

theorem exec_of_not_admin (hclaimed : p.implementation ≠ 0) (hadmin : x.msg.sender ≠ p.admin) :
    exec chain x p = (behind chain p.implementation x p.storage).map fun storage => { p with storage } := by
  by_cases hclaim : x.claim.isSome = true
  · rw [claim_refused hclaimed hclaim, behind, if_pos hclaim]
    rfl
  · rw [behind, if_neg hclaim]
    have hfallback : fallback chain x.msg x.data p =
        (chain.delegatecall p.implementation x.msg x.data p.storage).map fun storage => { p with storage } := by
      simp only [fallback, require_of hadmin, Outcome.ok_bind, delegate]
      cases chain.delegatecall p.implementation x.msg x.data p.storage <;> rfl
    obtain ⟨m, data⟩ := x
    cases data with
    | initializeLogic => exact absurd rfl hclaim
    | initializeAdmin => exact absurd rfl hclaim
    | empty => exact hfallback
    | function => exact hfallback
    | _ => exact (if_neg hadmin).trans hfallback

/-- **For everybody but the admin, a proxy is the contract it points at.** A
run in which the admin sends nothing leaves implementation and admin as they
are, and the storage as the code itself would have left it, called with the
same data by the same senders; each call fails where the code fails, for the
same reason, and nobody is answered by the proxy. Only its own `initialize`
stand in front of the code, and always fail. -/
theorem transparent (hclaimed : p.implementation ≠ 0) (hl : ∀ x ∈ l, x.msg.sender ≠ p.admin) :
    run chain p l = { p with storage := Runs.run (behind chain p.implementation) p.storage l } ∧
    ∀ q x, q ++ [x] <+: l → exec chain x (run chain p q) =
        (behind chain p.implementation x (run chain p q).storage).map
          (fun storage => { run chain p q with storage }) ∧
      view x.msg x.data (run chain p q) = none := by
  have hrun : ∀ l : List (Tx ι), (∀ x ∈ l, x.msg.sender ≠ p.admin) →
      run chain p l = { p with storage := Runs.run (behind chain p.implementation) p.storage l } := fun l hl =>
    (Runs.run_image (fun storage => { p with storage })
      (fun x hx s => exec_of_not_admin (p := { p with storage := s }) hclaimed (hl x hx)) p.storage :
      Runs.run (exec chain) p l = _)
  refine ⟨hrun l hl, fun q x hq => ?_⟩
  have hx : x.msg.sender ≠ p.admin := hl x (hq.subset (by simp))
  rw [hrun q fun y hy => hl y (hq.subset (by simp [hy]))]
  exact ⟨exec_of_not_admin hclaimed hx, if_neg hx⟩

/-- Two calls behind a proxy, one of which fails, and one of the admin's
functions called by somebody else. -/
theorem transparent_counter :
    let p : Proxy Nat := ⟨.ofNat 3, .ofNat 7, 10⟩
    let m : Msg := ⟨.ofNat 8, 1, 100, by decide⟩
    let l : List (Tx Nat) := [⟨m, .function 4⟩, ⟨m, .function 8⟩, ⟨m, .changeAdmin (.ofNat 8)⟩]
    run .sample p l = { p with storage := 6 } := by
  intro p m l
  have hl : ∀ x ∈ l, x.msg.sender ≠ p.admin := by decide
  exact (transparent (by decide) hl).1

/-! ## The admin -/

/-- How a call can change a proxy that points somewhere. -/
structure Controlled (chain : Chain σ ι) (x : Tx ι) (p p' : Proxy σ) : Prop where
  claimed : p'.implementation ≠ 0
  upgraded : p'.implementation ≠ p.implementation → x.msg.sender = p.admin ∧
    chain.isContract p'.implementation p.storage = true ∧ ∃ data, x.upgrade = some (p'.implementation, data)
  transferred : p'.admin ≠ p.admin → x.msg.sender = p.admin ∧ p'.admin ≠ 0 ∧ x.data = .changeAdmin p'.admin

theorem isContract_ne {logic : Address} {s : σ} (h : chain.isContract logic s = true) : logic ≠ 0 := by
  rintro rfl
  rw [Chain.isContract, chain.codeless] at h
  cases h

theorem Controlled.same (hclaimed : p.implementation ≠ 0) (s : σ) : Controlled chain x p { p with storage := s } :=
  ⟨hclaimed, fun h => absurd rfl h, fun h => absurd rfl h⟩

theorem controlled_of_exec (hclaimed : p.implementation ≠ 0) (h : exec chain x p = .ok p') :
    Controlled chain x p p' := by
  cases effect_of_exec h with
  | view _ _ hp => subst hp; exact .same hclaimed p'.storage
  | changeAdmin newAdmin hadmin hx hne hp =>
    subst hp
    exact ⟨hclaimed, fun h => absurd rfl h, fun _ => ⟨hadmin, hne, hx⟩⟩
  | upgrade newImplementation data storage hadmin hx hcode _ hp =>
    subst hp
    exact ⟨isContract_ne hcode, fun _ => ⟨hadmin, hcode, data, hx⟩, fun h => absurd rfl h⟩
  | claim _ _ _ _ hunclaimed => exact absurd hunclaimed hclaimed
  | fallback storage _ _ _ hp => subst hp; exact .same hclaimed storage

/-- Before it points anywhere a proxy has no admin, and calls do nothing. -/
theorem deployed_of_exec {s : σ} (h : exec chain x (deployed s) = .ok p') :
    p' = deployed s ∨ ∃ logic admin data storage, x.claim = some (logic, admin, data) ∧
      chain.isContract logic s = true ∧ Called chain x.msg logic data s storage ∧
      p' = { implementation := logic, admin := admin.getD 0, storage } := by
  cases effect_of_exec h with
  | view hadmin => exact absurd hadmin x.msg.sender_ne
  | changeAdmin _ hadmin => exact absurd hadmin x.msg.sender_ne
  | upgrade _ _ _ hadmin => exact absurd hadmin x.msg.sender_ne
  | claim logic admin data storage _ hx hcode hcalled hp => exact .inr ⟨logic, admin, data, storage, hx, hcode, hcalled, hp⟩
  | fallback storage _ _ hcalled hp =>
    obtain rfl : s = storage := Except.ok.inj ((chain.delegatecall_zero ..).symm.trans hcalled)
    exact .inl hp

theorem deployed_of_unclaimed {s : σ} (h : (run chain (deployed s) l).implementation = 0) :
    run chain (deployed s) l = deployed s := by
  have hinv : (run chain (deployed s) l).implementation = 0 → run chain (deployed s) l = deployed s := by
    refine Runs.run_induction (I := fun p : Proxy σ => p.implementation = 0 → p = deployed s) (fun _ => rfl)
      fun q y p' _ hI hs _ hunclaimed => ?_
    by_cases hbefore : (Runs.run (exec chain) (deployed s) q).implementation = 0
    · rw [hI hbefore] at hs
      rcases deployed_of_exec hs with hp | ⟨logic, _, _, _, _, hcode, _, rfl⟩
      · exact hp
      · exact absurd hunclaimed (isContract_ne hcode)
    · exact absurd hunclaimed (controlled_of_exec hbefore hs).claimed
  exact hinv h

/-- One more call of a run, whether it succeeds or not. -/
theorem controlled_concat (hclaimed : (run chain p l).implementation ≠ 0) :
    Controlled chain x (run chain p l) (run chain p (l ++ [x])) := by
  have hrun : run chain p (l ++ [x]) = Runs.attempt (exec chain) (run chain p l) x := Runs.run_concat ..
  rw [hrun]
  rcases Runs.attempt_cases (exec chain) (run chain p l) x with ⟨p', hs, he⟩ | ⟨e, hs, he⟩
  · rw [he]; exact controlled_of_exec hclaimed hs
  · rw [he]; exact .same hclaimed _

theorem claimed_run (hclaimed : p.implementation ≠ 0) : (run chain p l).implementation ≠ 0 :=
  Runs.run_induction (I := fun p : Proxy σ => p.implementation ≠ 0) hclaimed
    fun _ _ _ _ hI hs _ => (controlled_of_exec hI hs).claimed

/-- A proxy that points nowhere never did. -/
theorem unclaimed_left {q : List (Tx ι)} (hq : q <+: l) (h : (run chain p l).implementation = 0) :
    (run chain p q).implementation = 0 := by
  obtain ⟨r, rfl⟩ := hq
  by_contra hclaimed
  have hstays : (run chain (run chain p q) r).implementation ≠ 0 := claimed_run hclaimed
  rw [run, run, ← Runs.run_append] at hstays
  exact hstays h

/-- **The admin alone controls a proxy.** If a proxy as deployed points
anywhere after a run, then one call of the run, an `initialize`, pointed it
at a contract and gave it its admin; until then every call left it as
deployed. From then on it always points somewhere and no `initialize`
succeeds; it is pointed elsewhere only by an upgrade, to a contract, and gets
another admin, who is not the zero address, only by `changeAdmin`, both
called by the admin of the time. -/
theorem admin_alone_controls {s : σ} (h : (run chain (deployed s) l).implementation ≠ 0) :
    ∃ q x r logic admin data, l = q ++ x :: r ∧ x.claim = some (logic, admin, data) ∧
      (∀ q', q' <+: q → run chain (deployed s) q' = deployed s) ∧
      (∃ storage, Called chain x.msg logic data s storage ∧
        run chain (deployed s) (q ++ [x]) = { implementation := logic, admin := admin.getD 0, storage }) ∧
      ∀ r' y, r' ++ [y] <+: r →
        let p := run chain (deployed s) (q ++ x :: r')
        let p' := run chain (deployed s) (q ++ x :: (r' ++ [y]))
        Controlled chain y p p' ∧ (y.claim.isSome = true → exec chain y p = .error "") := by
  induction l using List.reverseRecOn with
  | nil => exact absurd rfl h
  | append_singleton l y ih =>
    by_cases hbefore : (run chain (deployed s) l).implementation = 0
    · -- the last call is the one that points the proxy somewhere
      have hl := deployed_of_unclaimed hbefore
      have hrun : run chain (deployed s) (l ++ [y]) = Runs.attempt (exec chain) (deployed s) y :=
        (Runs.run_concat ..).trans (congrArg (Runs.attempt (exec chain) · y) hl)
      rcases Runs.attempt_cases (exec chain) (deployed s) y with ⟨p', hs, he⟩ | ⟨e, hs, he⟩
      · rw [hrun, he] at h
        rcases deployed_of_exec hs with rfl | ⟨logic, admin, data, storage, hx, hcode, hcalled, rfl⟩
        · exact absurd rfl h
        · exact ⟨l, y, [], logic, admin, data, rfl, hx, fun q' hq' => deployed_of_unclaimed (unclaimed_left hq' hbefore),
            ⟨storage, hcalled, hrun.trans he⟩, fun r' z hr' => absurd hr' (by simp)⟩
      · rw [hrun, he] at h
        exact absurd rfl h
    · obtain ⟨q, x, r, logic, admin, data, rfl, hx, hq, hcalled, hr⟩ := ih hbefore
      refine ⟨q, x, r ++ [y], logic, admin, data, by simp, hx, hq, hcalled, fun r' z hr' => ?_⟩
      rcases List.prefix_concat_iff.1 hr' with hall | hr'
      · obtain ⟨rfl, hlast⟩ := List.append_inj' hall rfl
        obtain rfl := List.singleton_inj.1 hlast
        have hcontrolled : Controlled chain z (run chain (deployed s) (q ++ x :: r'))
            (run chain (deployed s) ((q ++ x :: r') ++ [z])) := controlled_concat hbefore
        rw [List.append_assoc, List.cons_append] at hcontrolled
        exact ⟨hcontrolled, claim_refused hbefore⟩
      · exact hr r' z hr'

/-- A proxy that is pointed at a contract, passed on and upgraded. -/
theorem admin_alone_controls_upgraded :
    let user : Msg := ⟨.ofNat 7, 1, 100, by decide⟩
    let other : Msg := ⟨.ofNat 8, 1, 100, by decide⟩
    let l : List (Tx Nat) := [⟨user, .initializeAdmin (.ofNat 2) (.ofNat 7) (.function 5)⟩,
      ⟨other, .upgradeTo (.ofNat 3)⟩, ⟨user, .changeAdmin (.ofNat 8)⟩,
      ⟨other, .upgradeToAndCall (.ofNat 3) (.function 1)⟩]
    ∃ q x r logic admin data, l = q ++ x :: r ∧ x.claim = some (logic, admin, data) ∧
      ∀ r' y, r' ++ [y] <+: r → Controlled .sample y (run .sample (deployed 0) (q ++ x :: r'))
        (run .sample (deployed 0) (q ++ x :: (r' ++ [y]))) := by
  intro user other l
  have hclaimed : (run .sample (deployed 0) l).implementation ≠ 0 := by decide
  obtain ⟨q, x, r, logic, admin, data, hl, hx, -, -, hr⟩ := admin_alone_controls hclaimed
  exact ⟨q, x, r, logic, admin, data, hl, hx, fun r' y hr' => (hr r' y hr').1⟩

end

end Proxy

end StarlayStake
