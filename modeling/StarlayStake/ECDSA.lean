/-
Recovering the signer of a digest (`lib/ECDSA.sol`). Where the versions
before it call the precompile `ecrecover`, revision 4 calls `ECDSA.recover`,
which refuses the zero address and one of the two forms every signature has.

Of the two forms exactly one is accepted (`one_of_twins`), and of the byte
strings a signature can be given in exactly two (`tryRecoverBytes_iff`).
-/
import StarlayStake.Digest
import StarlayStake.Effects

namespace StarlayStake

open BigEndian (bytes value)

namespace ECDSA

inductive RecoverError
  | NoError
  | InvalidSignature
  | InvalidSignatureLength
  | InvalidSignatureS
  | InvalidSignatureV
  deriving DecidableEq, Repr

/-- `_throwError` -/
def throwRecoverError : RecoverError → Except String Unit
  | .NoError => .ok ()
  | .InvalidSignature => .error "ECDSA: invalid signature"
  | .InvalidSignatureLength => .error "ECDSA: invalid signature length"
  | .InvalidSignatureS => .error "ECDSA: invalid signature 's' value"
  | .InvalidSignatureV => .error "ECDSA: invalid signature 'v' value"

/-- The largest `s` that is accepted. -/
def halfOrder : Nat := 0x7FFFFFFFFFFFFFFFFFFFFFFFFFFFFFFF5D576E7357A4501DDFE92F46681B20A0

variable (ecrecover : Bytes32 → Signature → Address) (hash : Bytes32)

/-- `tryRecover(hash, v, r, s)` -/
def tryRecover (signature : Signature) : Address × RecoverError :=
  if signature.s > halfOrder then (0, .InvalidSignatureS)
  else if signature.v ≠ 27 ∧ signature.v ≠ 28 then (0, .InvalidSignatureV)
  else
    let signer := ecrecover hash signature
    if signer = 0 then (0, .InvalidSignature) else (signer, .NoError)

/-- `tryRecover(hash, r, vs)` -/
def tryRecoverCompact (r vs : Nat) : Address × RecoverError :=
  let s := vs &&& 0x7fffffffffffffffffffffffffffffffffffffffffffffffffffffffffffffff
  let v := ((vs >>> 255) + 27) % 2 ^ 8
  tryRecover ecrecover hash { v, r, s }

/-- `tryRecover(hash, signature)`: what the words and the byte loaded from the
string stand for. -/
def tryRecoverBytes (signature : List UInt8) : Address × RecoverError :=
  if signature.length = 65 then
    let r := value (signature.take 32)
    let s := value ((signature.drop 32).take 32)
    let v := value ((signature.drop 64).take 1)
    tryRecover ecrecover hash { v, r, s }
  else if signature.length = 64 then
    let r := value (signature.take 32)
    let vs := value ((signature.drop 32).take 32)
    tryRecoverCompact ecrecover hash r vs
  else (0, .InvalidSignatureLength)

/-- `recover(hash, v, r, s)` -/
def recover (signature : Signature) : Except String Address := do
  let recovered := tryRecover ecrecover hash signature
  throwRecoverError recovered.2
  return recovered.1

/-! ## What is accepted -/

variable {ecrecover hash} {signature : Signature} {a : Address}

theorem tryRecover_iff :
    tryRecover ecrecover hash signature = (a, .NoError) ↔
      signature.s ≤ halfOrder ∧ (signature.v = 27 ∨ signature.v = 28) ∧ a ≠ 0 ∧ ecrecover hash signature = a := by
  unfold tryRecover
  by_cases hs : signature.s > halfOrder
  · simp [hs, Nat.not_le.2 hs]
  · by_cases hv : signature.v ≠ 27 ∧ signature.v ≠ 28
    · simp [hs, hv]
    · simp only [hs, if_false, hv]
      have hv' : signature.v = 27 ∨ signature.v = 28 := by tauto
      by_cases hsigner : ecrecover hash signature = 0
      · simp only [hsigner, if_true, Prod.mk.injEq, reduceCtorEq, and_false, false_iff, not_and]
        rintro - - hne rfl
        exact hne rfl
      · simp only [hsigner, if_false, Prod.mk.injEq, and_true, Nat.not_lt.1 hs, hv', true_and]
        constructor
        · rintro rfl; exact ⟨hsigner, rfl⟩
        · rintro ⟨-, h⟩; exact h

theorem recover_ok_iff :
    recover ecrecover hash signature = .ok a ↔
      signature.s ≤ halfOrder ∧ (signature.v = 27 ∨ signature.v = 28) ∧ a ≠ 0 ∧ ecrecover hash signature = a := by
  rw [← tryRecover_iff]
  unfold recover
  rcases tryRecover ecrecover hash signature with ⟨b, error⟩
  cases error <;> simp [throwRecoverError, eq_comm]

/-! ## Two forms of a signature -/

/-- The order of the curve's group. -/
def order : Nat := 0xFFFFFFFFFFFFFFFFFFFFFFFFFFFFFFFEBAAEDCE6AF48A03BBFD25E8CD0364141

/-- The other form of a signature. -/
def twin (signature : Signature) : Signature :=
  { v := 55 - signature.v, r := signature.r, s := order - signature.s }

/-- The form that is accepted. -/
def low (signature : Signature) : Signature := if signature.s ≤ halfOrder then signature else twin signature

/-- What is known of the precompile: it answers the zero address where `v` or
`s` is out of range, and the same for both forms of a signature. -/
structure Precompile (ecrecover : Bytes32 → Signature → Address) : Prop where
  range : ∀ hash signature, ecrecover hash signature ≠ 0 →
    (signature.v = 27 ∨ signature.v = 28) ∧ 0 < signature.s ∧ signature.s < order
  twin : ∀ hash signature, (signature.v = 27 ∨ signature.v = 28) → 0 < signature.s → signature.s < order →
    ecrecover hash (twin signature) = ecrecover hash signature

theorem order_eq : order = 2 * halfOrder + 1 := by decide

theorem recover_high (h : ¬ signature.s ≤ halfOrder) :
    recover ecrecover hash signature = .error "ECDSA: invalid signature 's' value" := by
  simp only [recover, tryRecover, gt_iff_lt, Nat.not_le.1 h, if_true]
  rfl

theorem recover_of_low (hlow : signature.s ≤ halfOrder) (hv : signature.v = 27 ∨ signature.v = 28)
    (hsigner : ecrecover hash signature ≠ 0) :
    recover ecrecover hash signature = .ok (ecrecover hash signature) :=
  recover_ok_iff.2 ⟨hlow, hv, hsigner, rfl⟩

theorem twin_twin (hv : signature.v = 27 ∨ signature.v = 28) (hs : signature.s < order) :
    twin (twin signature) = signature := by
  obtain ⟨v, r, s⟩ := signature
  have hv : v = 27 ∨ v = 28 := hv
  have hs : s < order := hs
  simp only [twin, Signature.mk.injEq, true_and]
  omega

/-- **Of the two forms of a signature exactly one is accepted.** Where
`ecrecover` finds a signer, `recover` answers that signer for the form whose
`s` is in the lower half, and refuses the other. -/
theorem one_of_twins (h : Precompile ecrecover) (hsigner : ecrecover hash signature ≠ 0) :
    ∃ accepted, (accepted = signature ∨ accepted = twin signature) ∧
      recover ecrecover hash accepted = .ok (ecrecover hash signature) ∧
      recover ecrecover hash (twin accepted) = .error "ECDSA: invalid signature 's' value" := by
  obtain ⟨hv, hpos, hlt⟩ := h.range hash signature hsigner
  have htwin := h.twin hash signature hv hpos hlt
  have horder := order_eq
  by_cases hlow : signature.s ≤ halfOrder
  · have hhigh : ¬ (twin signature).s ≤ halfOrder := by
      show ¬ order - signature.s ≤ halfOrder
      omega
    exact ⟨signature, .inl rfl, recover_of_low hlow hv hsigner, recover_high hhigh⟩
  · have hlow' : (twin signature).s ≤ halfOrder := by
      show order - signature.s ≤ halfOrder
      omega
    have hv' : (twin signature).v = 27 ∨ (twin signature).v = 28 := by
      show 55 - signature.v = 27 ∨ 55 - signature.v = 28
      omega
    refine ⟨twin signature, .inr rfl, ?_, ?_⟩
    · rw [← htwin]
      exact recover_of_low hlow' hv' (htwin ▸ hsigner)
    · rw [twin_twin hv hlt]
      exact recover_high hlow

/-- A precompile to evaluate with: a signature in range names its signer. -/
def named (_hash : Bytes32) (signature : Signature) : Address :=
  if (signature.v = 27 ∨ signature.v = 28) ∧ 0 < signature.s ∧ signature.s < order then .ofNat signature.r else 0

theorem precompile_named : Precompile named where
  range hash signature h := by
    unfold named at h
    split at h
    · assumption
    · exact absurd rfl h
  twin hash signature hv hpos hlt := by
    have hv' : 55 - signature.v = 27 ∨ 55 - signature.v = 28 := by omega
    have hpos' : 0 < order - signature.s := by omega
    have hlt' : order - signature.s < order := by omega
    simp only [named, twin, hv, hv', hpos, hpos', hlt, hlt', and_self, if_true]

/-- A signature with a high `s`. -/
theorem one_of_twins_high :
    ∃ accepted, (accepted = (⟨27, 10, order - 5⟩ : Signature) ∨ accepted = twin ⟨27, 10, order - 5⟩) ∧
      recover named 0 accepted = .ok (named 0 ⟨27, 10, order - 5⟩) ∧
      recover named 0 (twin accepted) = .error "ECDSA: invalid signature 's' value" :=
  one_of_twins precompile_named (by decide)

/-- The low form is accepted where `ecrecover` finds a signer. -/
theorem recover_low_iff (h : Precompile ecrecover) :
    recover ecrecover hash (low signature) = .ok a ↔ a ≠ 0 ∧ ecrecover hash signature = a := by
  have horder := order_eq
  rw [recover_ok_iff, low]
  by_cases hlow : signature.s ≤ halfOrder
  · rw [if_pos hlow]
    constructor
    · rintro ⟨-, -, hne, ha⟩; exact ⟨hne, ha⟩
    · rintro ⟨hne, rfl⟩; exact ⟨hlow, (h.range hash signature hne).1, hne, rfl⟩
  · rw [if_neg hlow]
    constructor
    · rintro ⟨-, hv, hne, rfl⟩
      obtain ⟨-, hpos, -⟩ := h.range hash _ hne
      have hv' : signature.v = 27 ∨ signature.v = 28 := by
        change 55 - signature.v = 27 ∨ 55 - signature.v = 28 at hv
        omega
      have hlt : signature.s < order := by
        change 0 < order - signature.s at hpos
        omega
      exact ⟨hne, (h.twin hash signature hv' (by omega) hlt).symm⟩
    · rintro ⟨hne, rfl⟩
      obtain ⟨hv, hpos, hlt⟩ := h.range hash signature hne
      refine ⟨?_, ?_, hne, h.twin hash signature hv hpos hlt⟩
      · show order - signature.s ≤ halfOrder
        omega
      · show 55 - signature.v = 27 ∨ 55 - signature.v = 28
        omega

/-! ## The byte strings of a signature -/

/-- `abi.encodePacked(r, s, v)` -/
def encode (signature : Signature) : List UInt8 :=
  bytes 32 signature.r ++ (bytes 32 signature.s ++ bytes 1 signature.v)

/-- The short form: `s` fits 255 bits, and the last stands for `v`. -/
def encodeCompact (signature : Signature) : List UInt8 :=
  bytes 32 signature.r ++ bytes 32 (signature.s + 2 ^ 255 * (signature.v - 27))

section

variable {l : List UInt8} {r vs : Nat}

theorem tryRecoverCompact_eq (hvs : vs < 2 ^ 256) :
    tryRecoverCompact ecrecover hash r vs = tryRecover ecrecover hash ⟨vs / 2 ^ 255 + 27, r, vs % 2 ^ 255⟩ := by
  have hmask : vs &&& 0x7fffffffffffffffffffffffffffffffffffffffffffffffffffffffffffffff = vs % 2 ^ 255 :=
    Nat.and_two_pow_sub_one_eq_mod vs 255
  have hv : ((vs >>> 255) + 27) % 2 ^ 8 = vs / 2 ^ 255 + 27 := by
    rw [Nat.shiftRight_eq_div_pow]
    omega
  simp only [tryRecoverCompact, hmask, hv]

/-- A string of 65 bytes is read as what it encodes. -/
theorem tryRecoverBytes_encode {signature : Signature} (hr : signature.r < 2 ^ 256) (hs : signature.s < 2 ^ 256)
    (hv : signature.v < 2 ^ 8) :
    tryRecoverBytes ecrecover hash (encode signature) = tryRecover ecrecover hash signature := by
  have hlength : (encode signature).length = 65 := by simp [encode]
  have hr' : value ((encode signature).take 32) = signature.r := by
    rw [encode, List.take_left' (by simp), BigEndian.value_bytes]
    exact Nat.mod_eq_of_lt hr
  have hs' : value (((encode signature).drop 32).take 32) = signature.s := by
    rw [encode, List.drop_left' (by simp), List.take_left' (by simp), BigEndian.value_bytes]
    exact Nat.mod_eq_of_lt hs
  have hv' : value (((encode signature).drop 64).take 1) = signature.v := by
    rw [encode, ← List.append_assoc, List.drop_left' (by simp), List.take_of_length_le (by simp),
      BigEndian.value_bytes]
    exact Nat.mod_eq_of_lt hv
  simp only [tryRecoverBytes, hlength, if_true, hr', hs', hv']

theorem split_sum {signature : Signature} (hs : signature.s < 2 ^ 255) (hv : signature.v = 27 ∨ signature.v = 28) :
    (⟨(signature.s + 2 ^ 255 * (signature.v - 27)) / 2 ^ 255 + 27, signature.r,
      (signature.s + 2 ^ 255 * (signature.v - 27)) % 2 ^ 255⟩ : Signature) = signature := by
  obtain ⟨v, r, s⟩ := signature
  have hv : v = 27 ∨ v = 28 := hv
  have hs : s < 2 ^ 255 := hs
  simp only [Signature.mk.injEq, true_and]
  omega

/-- A string of 64 bytes is read as what it encodes in short. -/
theorem tryRecoverBytes_encodeCompact {signature : Signature} (hr : signature.r < 2 ^ 256)
    (hs : signature.s < 2 ^ 255) (hv : signature.v = 27 ∨ signature.v = 28) :
    tryRecoverBytes ecrecover hash (encodeCompact signature) = tryRecover ecrecover hash signature := by
  have hlength : (encodeCompact signature).length = 64 := by simp [encodeCompact]
  have hr' : value ((encodeCompact signature).take 32) = signature.r := by
    rw [encodeCompact, List.take_left' (by simp), BigEndian.value_bytes]
    exact Nat.mod_eq_of_lt hr
  have hvs : value (((encodeCompact signature).drop 32).take 32) = signature.s + 2 ^ 255 * (signature.v - 27) := by
    rw [encodeCompact, List.drop_left' (by simp), List.take_of_length_le (by simp), BigEndian.value_bytes]
    exact Nat.mod_eq_of_lt (by omega)
  have hcompact : tryRecoverBytes ecrecover hash (encodeCompact signature) =
      tryRecoverCompact ecrecover hash signature.r (signature.s + 2 ^ 255 * (signature.v - 27)) := by
    simp only [tryRecoverBytes, hlength, Nat.reduceEqDiff, if_false, if_true, hr', hvs]
  have hfits : signature.s + 2 ^ 255 * (signature.v - 27) < 2 ^ 256 := by omega
  rw [hcompact, tryRecoverCompact_eq hfits, split_sum hs hv]

theorem value_lt_word (h : l.length = 32) : value l < 2 ^ 256 := by
  have hlt := BigEndian.value_lt l
  rw [h] at hlt
  exact hlt.trans_eq (by norm_num)

/-- The bytes of what `n` bytes stand for. -/
theorem bytes_value_of_length {n : Nat} (h : l.length = n) : bytes n (value l) = l := h ▸ BigEndian.bytes_value l

/-- Every string of 65 bytes encodes what is read from it. -/
theorem encode_parts (h : l.length = 65) :
    encode ⟨value ((l.drop 64).take 1), value (l.take 32), value ((l.drop 32).take 32)⟩ = l := by
  simp only [encode]
  rw [bytes_value_of_length (by simp [h]), bytes_value_of_length (by simp [h]), bytes_value_of_length (by simp [h]),
    List.take_of_length_le (by simp [h] : (l.drop 64).length ≤ 1), ← List.drop_drop (i := 32) (j := 32),
    List.take_append_drop, List.take_append_drop]

theorem encodeCompact_parts (h : l.length = 64) :
    encodeCompact ⟨value ((l.drop 32).take 32) / 2 ^ 255 + 27, value (l.take 32),
      value ((l.drop 32).take 32) % 2 ^ 255⟩ = l := by
  simp only [encodeCompact]
  rw [Nat.add_sub_cancel, Nat.mod_add_div, bytes_value_of_length (by simp [h]), bytes_value_of_length (by simp [h]),
    List.take_of_length_le (by simp [h] : (l.drop 32).length ≤ 32), List.take_append_drop]

/-- **A signature can be given in two byte strings.** Those that are accepted
are the long and the short encoding of the signatures that are. -/
theorem tryRecoverBytes_iff :
    tryRecoverBytes ecrecover hash l = (a, .NoError) ↔
      ∃ signature, signature.r < 2 ^ 256 ∧ tryRecover ecrecover hash signature = (a, .NoError) ∧
        (l = encode signature ∨ l = encodeCompact signature) := by
  constructor
  · intro h
    by_cases h65 : l.length = 65
    · exact ⟨_, value_lt_word (by rw [List.length_take, h65]; rfl), (if_pos h65).symm.trans h,
        .inl (encode_parts h65).symm⟩
    · by_cases h64 : l.length = 64
      · have hvs : value ((l.drop 32).take 32) < 2 ^ 256 :=
          value_lt_word (by rw [List.length_take, List.length_drop, h64]; rfl)
        have hcompact : tryRecoverCompact ecrecover hash (value (l.take 32)) (value ((l.drop 32).take 32)) =
            (a, .NoError) := by
          rw [← h]
          simp only [tryRecoverBytes, h64, Nat.reduceEqDiff, if_false, if_true]
        rw [tryRecoverCompact_eq hvs] at hcompact
        exact ⟨_, value_lt_word (by rw [List.length_take, h64]; rfl), hcompact,
          .inr (encodeCompact_parts h64).symm⟩
      · simp only [tryRecoverBytes, h65, h64, if_false, Prod.mk.injEq, reduceCtorEq, and_false] at h
  · rintro ⟨signature, hr, h, hl⟩
    obtain ⟨hs, hv, -, -⟩ := tryRecover_iff.1 h
    have hs' : signature.s < 2 ^ 255 := hs.trans_lt (by norm_num [halfOrder])
    have hv' : signature.v < 2 ^ 8 := by omega
    rcases hl with hl | hl
    · rw [hl]
      exact (tryRecoverBytes_encode hr (hs'.trans (by norm_num)) hv').trans h
    · rw [hl]
      exact (tryRecoverBytes_encodeCompact hr hs' hv).trans h

end

end ECDSA

end StarlayStake
