/-
The EIP-712 digests that `permit`, `delegateByTypeBySig` and
`delegateBySig` put together and have a signature checked against.

What is hashed is written out (`hashed`), so that two messages, each for its
own contract and chain, have one digest only where they are the same message
for the same contract on the same chain, or two of the byte strings written
out for them collide under `keccak256` (`digest_binds`).
-/
import StarlayStake.Externals
import StarlayStake.Lib.BigEndian

namespace StarlayStake

open BigEndian (bytes)

/-- `bytes32`, and a word of the ABI. -/
abbrev Bytes32 : Type := BitVec 256

/-- `keccak256`, and the precompile that recovers a signer. -/
structure Crypto where
  keccak256 : List UInt8 → Bytes32
  /-- `ecrecover(hash, v, r, s)` -/
  ecrecover : Bytes32 → Signature → Address

/-- What `EIP712Domain` has of a contract; its version is always `'1'`. -/
structure Domain where
  /-- `bytes(name())` -/
  name : List UInt8
  chainId : Bytes32
  verifyingContract : Address
  deriving DecidableEq

/-- The bytes of a string of the source. -/
def ascii (s : String) : List UInt8 := s.toList.map fun c => UInt8.ofNat c.toNat

/-- `abi.encode` of static values, each a word. -/
def abiEncode (l : List Bytes32) : List UInt8 := (l.map BitVec.toNat).flatMap (bytes 32)

/-- A `uint256` as a word. -/
def wordOf (n : Nat) : Bytes32 := BitVec.ofNat 256 n

/-- An `address` as a word. -/
def wordOfAddress (a : Address) : Bytes32 := wordOf a.val

/-- `uint256(delegationType)` -/
def DelegationType.toNat : DelegationType → Nat
  | .VOTING_POWER => 0
  | .PROPOSITION_POWER => 1

def EIP712_DOMAIN : String :=
  "EIP712Domain(string name,string version,uint256 chainId,address verifyingContract)"

def EIP712_REVISION : String := "1"

def PERMIT_TYPE : String := "Permit(address owner,address spender,uint256 value,uint256 nonce,uint256 deadline)"

def DELEGATE_BY_TYPE_TYPE : String := "DelegateByType(address delegatee,uint256 type,uint256 nonce,uint256 expiry)"

def DELEGATE_TYPE : String := "Delegate(address delegatee,uint256 nonce,uint256 expiry)"

namespace TypedData

/-- The string whose hash is the message's typehash. -/
def type : TypedData → String
  | .permit _ _ _ _ _ => PERMIT_TYPE
  | .delegateByType _ _ _ _ => DELEGATE_BY_TYPE_TYPE
  | .delegate _ _ _ => DELEGATE_TYPE

/-- The words encoded after the typehash. -/
def words : TypedData → List Bytes32
  | .permit owner spender value nonce deadline =>
    [wordOfAddress owner, wordOfAddress spender, wordOf value, wordOf nonce, wordOf deadline]
  | .delegateByType delegatee delegationType nonce expiry =>
    [wordOfAddress delegatee, wordOf delegationType.toNat, wordOf nonce, wordOf expiry]
  | .delegate delegatee nonce expiry => [wordOfAddress delegatee, wordOf nonce, wordOf expiry]

end TypedData

section

variable (keccak256 : List UInt8 → Bytes32) (d : Domain) (t : TypedData)

/-- What `domainSeparator` is the hash of. -/
def domainEncoding : List UInt8 :=
  abiEncode [keccak256 (ascii EIP712_DOMAIN), keccak256 d.name, keccak256 (ascii EIP712_REVISION), d.chainId,
    wordOfAddress d.verifyingContract]

def domainSeparator : Bytes32 := keccak256 (domainEncoding keccak256 d)

/-- What `structHash` is the hash of. -/
def structEncoding : List UInt8 := abiEncode (keccak256 (ascii t.type) :: t.words)

def structHash : Bytes32 := keccak256 (structEncoding keccak256 t)

/-- `abi.encodePacked('\x19\x01', domainSeparator, structHash)` -/
def digestEncoding : List UInt8 :=
  [0x19, 0x01] ++ abiEncode [domainSeparator keccak256 d, structHash keccak256 t]

def digest : Bytes32 := keccak256 (digestEncoding keccak256 d t)

/-- All that is hashed on the way to a digest and that depends on the message
or the contract. -/
def hashed : List (List UInt8) :=
  [d.name, domainEncoding keccak256 d, structEncoding keccak256 t, digestEncoding keccak256 d t]

end

/-- Two byte strings, one from each list, have one hash. -/
def Collide (keccak256 : List UInt8 → Bytes32) (l l' : List (List UInt8)) : Prop :=
  ∃ x ∈ l, ∃ y ∈ l', x ≠ y ∧ keccak256 x = keccak256 y

/-! ## What the encodings tell apart -/

theorem abiEncode_inj {l l' : List Bytes32} : abiEncode l = abiEncode l' ↔ l = l' := by
  have hfits : ∀ l : List Bytes32, ∀ n ∈ l.map BitVec.toNat, n < 256 ^ 32 := by
    intro l n hn
    obtain ⟨word, -, rfl⟩ := List.mem_map.1 hn
    exact word.isLt
  rw [abiEncode, abiEncode, BigEndian.flatMap_bytes_inj (by decide) (hfits l) (hfits l')]
  exact List.map_inj_right fun _ _ => BitVec.eq_of_toNat_eq

theorem wordOf_inj {a b : Nat} (ha : a < 2 ^ 256) (hb : b < 2 ^ 256) : wordOf a = wordOf b ↔ a = b := by
  refine ⟨fun h => ?_, fun h => by rw [h]⟩
  have hnat := congrArg BitVec.toNat h
  rwa [wordOf, wordOf, BitVec.toNat_ofNat, BitVec.toNat_ofNat, Nat.mod_eq_of_lt ha, Nat.mod_eq_of_lt hb] at hnat

theorem wordOfAddress_inj {a b : Address} : wordOfAddress a = wordOfAddress b ↔ a = b := by
  have hfits : ∀ a : Address, (a.val : Nat) < 2 ^ 256 := fun a => a.val.isLt.trans (by decide)
  rw [wordOfAddress, wordOfAddress, wordOf_inj (hfits a) (hfits b), Fin.val_inj]
  exact ⟨fun h => by cases a; cases b; simp_all, fun h => by rw [h]⟩

namespace TypedData

/-- The arguments are `uint256`s. -/
def Fits : TypedData → Prop
  | .permit _ _ value nonce deadline => value < 2 ^ 256 ∧ nonce < 2 ^ 256 ∧ deadline < 2 ^ 256
  | .delegateByType _ _ nonce expiry => nonce < 2 ^ 256 ∧ expiry < 2 ^ 256
  | .delegate _ nonce expiry => nonce < 2 ^ 256 ∧ expiry < 2 ^ 256

/-- Messages of different types have different numbers of words. -/
theorem words_inj {t t' : TypedData} (ht : t.Fits) (ht' : t'.Fits) (h : t.words = t'.words) : t = t' := by
  cases t with
  | permit owner spender value nonce deadline =>
    cases t' with
    | permit owner' spender' value' nonce' deadline' =>
      simp only [words, List.cons.injEq, and_true] at h
      obtain ⟨howner, hspender, hvalue, hnonce, hdeadline⟩ := h
      rw [wordOfAddress_inj.1 howner, wordOfAddress_inj.1 hspender, (wordOf_inj ht.1 ht'.1).1 hvalue,
        (wordOf_inj ht.2.1 ht'.2.1).1 hnonce, (wordOf_inj ht.2.2 ht'.2.2).1 hdeadline]
    | _ => simp [words] at h
  | delegateByType delegatee delegationType nonce expiry =>
    cases t' with
    | delegateByType delegatee' delegationType' nonce' expiry' =>
      simp only [words, List.cons.injEq, and_true] at h
      obtain ⟨hdelegatee, htype, hnonce, hexpiry⟩ := h
      have htype : delegationType = delegationType' := by
        cases delegationType <;> cases delegationType' <;> first | rfl | exact absurd htype (by decide)
      rw [wordOfAddress_inj.1 hdelegatee, htype, (wordOf_inj ht.1 ht'.1).1 hnonce, (wordOf_inj ht.2 ht'.2).1 hexpiry]
    | _ => simp [words] at h
  | delegate delegatee nonce expiry =>
    cases t' with
    | delegate delegatee' nonce' expiry' =>
      simp only [words, List.cons.injEq, and_true] at h
      obtain ⟨hdelegatee, hnonce, hexpiry⟩ := h
      rw [wordOfAddress_inj.1 hdelegatee, (wordOf_inj ht.1 ht'.1).1 hnonce, (wordOf_inj ht.2 ht'.2).1 hexpiry]
    | _ => simp [words] at h

end TypedData

/-! ## What a digest binds -/

section

variable {keccak256 : List UInt8 → Bytes32} {d d' : Domain} {t t' : TypedData}

/-- Byte strings with one hash are one, or they collide. -/
theorem Collide.or_eq {l l' : List (List UInt8)} {x y : List UInt8} (hx : x ∈ l) (hy : y ∈ l')
    (h : keccak256 x = keccak256 y) : x = y ∨ Collide keccak256 l l' := by
  by_cases hxy : x = y
  · exact .inl hxy
  · exact .inr ⟨x, hx, y, hy, hxy, h⟩

theorem domain_of_domainSeparator (t t' : TypedData) (h : domainSeparator keccak256 d = domainSeparator keccak256 d') :
    d = d' ∨ Collide keccak256 (hashed keccak256 d t) (hashed keccak256 d' t') := by
  rw [domainSeparator, domainSeparator] at h
  have hor : domainEncoding keccak256 d = domainEncoding keccak256 d' ∨
      Collide keccak256 (hashed keccak256 d t) (hashed keccak256 d' t') :=
    Collide.or_eq (by simp [hashed]) (by simp [hashed]) h
  rcases hor with h | hcollide
  · rw [domainEncoding, domainEncoding, abiEncode_inj] at h
    simp only [List.cons.injEq, true_and, and_true, wordOfAddress_inj] at h
    obtain ⟨hname, hchain, hcontract⟩ := h
    refine (Collide.or_eq (by simp [hashed]) (by simp [hashed]) hname).imp_left fun hname => ?_
    cases d
    cases d'
    simp_all
  · exact .inr hcollide

theorem words_of_structHash (h : structHash keccak256 t = structHash keccak256 t') :
    t.words = t'.words ∨ Collide keccak256 (hashed keccak256 d t) (hashed keccak256 d' t') := by
  rw [structHash, structHash] at h
  refine (Collide.or_eq (by simp [hashed]) (by simp [hashed]) h).imp_left fun h => ?_
  rw [structEncoding, structEncoding, abiEncode_inj] at h
  exact (List.cons.inj h).2

/-- Two equal digests are of the same words for the same contract. -/
theorem words_of_digest (h : digest keccak256 d t = digest keccak256 d' t') :
    (d = d' ∧ t.words = t'.words) ∨ Collide keccak256 (hashed keccak256 d t) (hashed keccak256 d' t') := by
  rw [digest, digest] at h
  have hor : digestEncoding keccak256 d t = digestEncoding keccak256 d' t' ∨
      Collide keccak256 (hashed keccak256 d t) (hashed keccak256 d' t') :=
    Collide.or_eq (by simp [hashed]) (by simp [hashed]) h
  rcases hor with h | hcollide
  · rw [digestEncoding, digestEncoding, List.append_cancel_left_eq, abiEncode_inj] at h
    simp only [List.cons.injEq, and_true] at h
    rcases domain_of_domainSeparator t t' h.1 with hd | hcollide
    · exact (words_of_structHash h.2).imp_left fun hwords => ⟨hd, hwords⟩
    · exact .inr hcollide
  · exact .inr hcollide

/-- **A digest binds the message to its contract.** Two different messages, of
any type, or one message put together for two contracts, by name, chain and
address, have different digests, unless two of the byte strings hashed for
them collide. -/
theorem digest_binds (ht : t.Fits) (ht' : t'.Fits) (hne : d ≠ d' ∨ t ≠ t')
    (hfree : ¬ Collide keccak256 (hashed keccak256 d t) (hashed keccak256 d' t')) :
    digest keccak256 d t ≠ digest keccak256 d' t' := by
  intro h
  rcases words_of_digest h with ⟨hd, hwords⟩ | hcollide
  · exact hne.elim (fun hne => hne hd) fun hne => hne (TypedData.words_inj ht ht' hwords)
  · exact hfree hcollide

end

/-- A hash to evaluate digests with. -/
def checksum (l : List UInt8) : Bytes32 :=
  wordOf (l.foldl (fun n b => (n * 0x100000001b3 + b.toNat + 1) % 2 ^ 256) 0)

instance (keccak256 : List UInt8 → Bytes32) (l l' : List (List UInt8)) : Decidable (Collide keccak256 l l') :=
  inferInstanceAs (Decidable (∃ x ∈ l, ∃ y ∈ l', x ≠ y ∧ keccak256 x = keccak256 y))

/-- One permission, on two chains. -/
theorem digest_binds_chains :
    let d : Domain := ⟨ascii "Staked LAY", 592, .ofNat 1⟩
    let d' : Domain := ⟨ascii "Staked LAY", 336, .ofNat 1⟩
    let t : TypedData := .permit (.ofNat 10) (.ofNat 11) 5 0 300
    digest checksum d t ≠ digest checksum d' t := by
  intro d d' t
  have hfits : t.Fits := ⟨by decide, by decide, by decide⟩
  exact digest_binds hfits hfits (.inl (by decide)) (by decide +kernel)

end StarlayStake
