/-
The implementations that the staking token's proxy may point at:
`stake/StakedToken.sol`, `stake/StakedTokenV2.sol`, `stake/StakedTokenV3.sol`
and the ones of `proposals/extend-stktoken-distribution`. They keep one
layout of the storage. What tells them apart, besides the version of the
code, is the revision that `utils/VersionedInitializable.sol` guards their
`initialize` with, what that sets, how they recover a signer, and their
immutables.
-/
import StarlayStake.ECDSA
import StarlayStake.Proxy

namespace StarlayStake

inductive Contract
  | StakedToken
  | StakedTokenV2
  | StakedTokenV3
  | StakedTokenBptRev2
  | StakedTokenV2Rev3
  | StakedTokenV2Rev4
  deriving DecidableEq, Repr

namespace Contract

def REVISION : Contract → Nat
  | .StakedToken => 1
  | .StakedTokenV2 => 2
  | .StakedTokenV3 => 1
  | .StakedTokenBptRev2 => 2
  | .StakedTokenV2Rev3 => 3
  | .StakedTokenV2Rev4 => 4

def version : Contract → Version
  | .StakedToken => .v1
  | _ => .v2

/-- The signer of a message: revision 4 asks `ECDSA`, the others `ecrecover`. -/
def recover (c : Contract) (crypto : Crypto) (d : Domain) (message : TypedData) (signature : Signature) :
    Except String Address :=
  match c with
  | .StakedTokenV2Rev4 => ECDSA.recover crypto.ecrecover (digest crypto.keccak256 d message) signature
  | _ => .ok (crypto.ecrecover (digest crypto.keccak256 d message) signature)

end Contract

/-- The token's storage behind a proxy: with the state, which a call works on,
what `initialize` sets. -/
structure TokenStorage (W : Type) extends State W where
  lastInitializedRevision : Nat
  name : List UInt8
  symbol : List UInt8
  decimals : Nat

/-- The arguments of an `initialize`: of `StakedToken`; of no parameters; of
`StakedTokenV3` and `StakedTokenBptRev2`. -/
inductive Initialization
  | withGovernance (governance : Address) (name symbol : List UInt8) (decimals : Nat)
  | bare
  | withMetadata (name symbol : List UInt8) (decimals : Nat)
  deriving DecidableEq

/-- The functions of the implementations. -/
inductive TokenCall
  | initializeToken (args : Initialization)
  | call (c : Call)

variable {W : Type}

/-- The storage of a new proxy. -/
def TokenStorage.fresh (world : W) : TokenStorage W :=
  { State.fresh 0 world with
    lastInitializedRevision := 0
    name := []
    symbol := []
    decimals := 0 }

/-- The modifier `initializer`, around the body of an `initialize`. -/
def initializer (revision : Nat) (body : TokenStorage W → TokenStorage W) (t : TokenStorage W) :
    Except String (TokenStorage W) := do
  require (revision > t.lastInitializedRevision) "Contract instance has already been initialized"
  return body { t with lastInitializedRevision := revision }

/-- `initialize`. The contracts that take metadata set it if their `REVISION`
is 1, as that of `StakedTokenBptRev2` is not. -/
def Contract.initializeToken (c : Contract) (args : Initialization) (t : TokenStorage W) :
    Except String (TokenStorage W) :=
  match args with
  | .withGovernance governance name symbol decimals =>
    match c with
    | .StakedToken => initializer c.REVISION (fun t => { t with name, symbol, decimals, governance }) t
    | _ => .error ""
  | .bare =>
    match c with
    | .StakedTokenV2 | .StakedTokenV2Rev3 | .StakedTokenV2Rev4 => initializer c.REVISION (fun t => t) t
    | _ => .error ""
  | .withMetadata name symbol decimals =>
    match c with
    | .StakedTokenV3 | .StakedTokenBptRev2 =>
      initializer c.REVISION (fun t => if c.REVISION = 1 then { t with name, symbol, decimals } else t) t
    | _ => .error ""

/-- A deployed implementation. Its own address is of no consequence: delegated
to, `address(this)` is the proxy's. -/
structure Implementation extends Immutables where
  contract : Contract

/-- Where the proxied token runs. -/
structure Network (W : Type) where
  /-- the proxy's address -/
  self : Address
  chainId : Bytes32
  crypto : Crypto
  ext : Externals W
  /-- the implementations deployed, of which there may become more -/
  implementations : Address → W → Option Implementation
  codeless : ∀ w, implementations 0 w = none

namespace Network

variable (N : Network W)

/-- What the EIP-712 domain separator of the token is made of. -/
def domain (name : List UInt8) : Domain := { name, chainId := N.chainId, verifyingContract := N.self }

/-- The implementation's code run as the proxy. -/
def deployment (i : Implementation) (name : List UInt8) : Deployment W :=
  { i.toImmutables with
    self := N.self
    ext := { N.ext with recover := i.contract.recover N.crypto (N.domain name) } }

/-- The function of an implementation that was called. -/
def exec (i : Implementation) (m : Msg) (c : TokenCall) (t : TokenStorage W) : Except String (TokenStorage W) :=
  match c with
  | .initializeToken args => i.contract.initializeToken args t
  | .call c => do
    let s ← StakedToken.exec (N.deployment i t.name) ⟨i.contract.version, m, c⟩ t.toState
    return { t with toState := s }

/-- An implementation has neither the proxy's functions nor a fallback. -/
def code (i : Implementation) : Code (TokenStorage W) TokenCall := fun m data t =>
  match data with
  | .function c => N.exec i m c t
  | _ => .error ""

/-- The token's proxy is pointed at implementations of the token. -/
def chain : Chain (TokenStorage W) TokenCall :=
  { code := fun account t => (N.implementations account t.world).map N.code
    codeless := fun t => by rw [N.codeless]; rfl }

end Network

/-- A transaction to the token's proxy. -/
abbrev ProxyTx : Type := Proxy.Tx TokenCall

/-- The token's proxy. -/
abbrev TokenProxy (W : Type) : Type := Proxy (TokenStorage W)

namespace Network

variable (N : Network W)

/-- The token's proxy as deployed, and after a list of transactions. -/
def run (w : W) (l : List ProxyTx) : TokenProxy W := Proxy.run N.chain (Proxy.deployed (.fresh w)) l

/-- A network to evaluate runs at, with three implementations. -/
def sample : Network Unit :=
  { self := Deployment.sample.self
    chainId := 592
    crypto := { keccak256 := checksum, ecrecover := ECDSA.named }
    ext := .accepting
    implementations := fun account _ =>
      if account = .ofNat 20 then some ⟨Deployment.sample.toImmutables, .StakedToken⟩
      else if account = .ofNat 21 then some ⟨Deployment.sample.toImmutables, .StakedTokenV2⟩
      else if account = .ofNat 22 then some ⟨Deployment.sample.toImmutables, .StakedTokenV2Rev4⟩
      else none
    codeless := fun _ => rfl }

end Network

end StarlayStake
