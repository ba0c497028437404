/-
Numbers as bytes, the most significant first, in a width of their own
(`bytes`), and what such bytes stand for (`value`). Numbers that fit the
width are told apart by their bytes (`bytes_inj`), and so are lists of them
written one after the other (`flatMap_bytes_inj`).
-/
import Mathlib.Data.List.Induction
import Mathlib.Data.Nat.ModEq
import Mathlib.Tactic.Ring

namespace BigEndian

variable {w a b : ℕ}

/-- The last `w` bytes of a number. -/
def bytes : ℕ → ℕ → List UInt8
  | 0, _ => []
  | w + 1, n => bytes w (n / 256) ++ [UInt8.ofNat n]

/-- The number that bytes stand for. -/
def value (l : List UInt8) : ℕ := l.foldl (fun n b => 256 * n + b.toNat) 0

@[simp] theorem length_bytes (w n : ℕ) : (bytes w n).length = w := by
  induction w generalizing n with
  | zero => rfl
  | succ w ih => rw [bytes, List.length_append, ih, List.length_singleton]

@[simp] theorem value_nil : value [] = 0 := rfl

theorem value_concat (l : List UInt8) (b : UInt8) : value (l ++ [b]) = 256 * value l + b.toNat := by
  rw [value, List.foldl_append]
  rfl

/-- Bytes of width `w` stand for what fits them. -/
theorem value_bytes (w n : ℕ) : value (bytes w n) = n % 256 ^ w := by
  induction w generalizing n with
  | zero => rw [bytes, value_nil, pow_zero, Nat.mod_one]
  | succ w ih =>
    have hlast : (UInt8.ofNat n).toNat = n % 256 := UInt8.toNat_ofNat'
    rw [bytes, value_concat, ih, hlast, pow_succ', Nat.mod_mul]
    omega

theorem value_lt (l : List UInt8) : value l < 256 ^ l.length := by
  induction l using List.reverseRecOn with
  | nil => exact Nat.one_pos
  | append_singleton l b ih =>
    have hb := b.toNat_lt
    rw [value_concat, List.length_append, List.length_singleton, pow_succ]
    omega

/-- Bytes are those of the number they stand for. -/
theorem bytes_value (l : List UInt8) : bytes l.length (value l) = l := by
  induction l using List.reverseRecOn with
  | nil => rfl
  | append_singleton l b ih =>
    have hb := b.toNat_lt
    have hquot : (256 * value l + b.toNat) / 256 = value l := by omega
    have hlast : UInt8.ofNat (256 * value l + b.toNat) = b := by
      apply UInt8.toNat_inj.1
      rw [UInt8.toNat_ofNat']
      omega
    rw [value_concat, List.length_append, List.length_singleton, bytes, hquot, ih, hlast]

theorem bytes_inj (ha : a < 256 ^ w) (hb : b < 256 ^ w) : bytes w a = bytes w b ↔ a = b := by
  refine ⟨fun h => ?_, fun h => by rw [h]⟩
  have hvalue := congrArg value h
  rwa [value_bytes, value_bytes, Nat.mod_eq_of_lt ha, Nat.mod_eq_of_lt hb] at hvalue

/-- Numbers of one width, written one after the other, can be told apart. -/
theorem flatMap_bytes_inj (hw : 0 < w) {l l' : List ℕ} (hl : ∀ n ∈ l, n < 256 ^ w) (hl' : ∀ n ∈ l', n < 256 ^ w) :
    l.flatMap (bytes w) = l'.flatMap (bytes w) ↔ l = l' := by
  refine ⟨fun h => ?_, fun h => by rw [h]⟩
  induction l generalizing l' with
  | nil =>
    cases l' with
    | nil => rfl
    | cons n l' =>
      have hlength := congrArg List.length h
      simp only [List.flatMap_nil, List.flatMap_cons, List.length_nil, List.length_append, length_bytes] at hlength
      omega
  | cons n l ih =>
    cases l' with
    | nil =>
      have hlength := congrArg List.length h
      simp only [List.flatMap_nil, List.flatMap_cons, List.length_nil, List.length_append, length_bytes] at hlength
      omega
    | cons n' l' =>
      rw [List.forall_mem_cons] at hl hl'
      rw [List.flatMap_cons, List.flatMap_cons] at h
      obtain ⟨hfirst, hrest⟩ := List.append_inj h (by rw [length_bytes, length_bytes])
      rw [(bytes_inj hl.1 hl'.1).1 hfirst, ih hl.2 hl'.2 hrest]

end BigEndian
