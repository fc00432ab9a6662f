import BeeEngine.Lib.Bytes
import BeeEngine.Lib.Text

/-!
# Big unsigned integers

Reading decimal text, and bytes with the most significant one first.
-/

namespace BeeEngine

/-- A reader of decimal numbers.  Digits alone are read as their number, and the
empty text is not read; what else it reads is left open. -/
structure DecimalReader where
  parseBytes : String → Option ℕ
  parse_empty : parseBytes "" = none
  parse_digits : ∀ {s n}, Text.parseDigits s.toList = some n → parseBytes s = some n

theorem Text.parseDigits_toDigits (n : ℕ) : Text.parseDigits (Nat.toDigits 10 n) = some n := by
  have hdigits : (Nat.toDigits 10 n).all Char.isDigit = true :=
    List.all_eq_true.mpr fun c hc ↦ Nat.isDigit_of_mem_toDigits (by decide) (by decide) hc
  rw [parseDigits, if_neg, Nat.ofDigitChars_toDigits (by decide) (by decide)]
  simp [hdigits]

/-- A number that is written is read. -/
theorem Text.parseUnsigned_toString {bound n : ℕ} (h : n < bound) :
    Text.parseUnsigned bound (toString n) = some n := by
  have hlist : (toString n).toList = Nat.toDigits 10 n := by
    rw [Nat.toString_eq_repr, Nat.toList_repr]
  rw [parseUnsigned, hlist]
  split
  · rename_i cs hdigits
    have hplus := Nat.isDigit_of_mem_toDigits (by decide) (by decide)
      (hdigits ▸ List.mem_cons_self : '+' ∈ Nat.toDigits 10 n)
    cases hplus
  · rw [parseDigits_toDigits]
    simp [h]

namespace BigUint

/-- `to_bytes_be`, which writes no leading zero but that of the number 0. -/
def toBytesBe (n : ℕ) : Bytes := Bytes.beBytes (n.log2 / 8 + 1) n

end BigUint

namespace Bytes

/-! ## Widths -/

theorem leBytes_add (a b n : ℕ) : leBytes (a + b) n = leBytes a n ++ leBytes b (n / 256 ^ a) := by
  induction a generalizing n with
  | zero => simp [leBytes]
  | succ a ih =>
      rw [Nat.succ_add, leBytes, leBytes, ih, List.cons_append, Nat.div_div_eq_div_mul,
        Nat.pow_succ, Nat.mul_comm (256 ^ a) 256]

/-- The bytes of a number are those of its upper part and of its lower part. -/
theorem beBytes_add (a b n : ℕ) : beBytes (a + b) n = beBytes a (n / 256 ^ b) ++ beBytes b n := by
  rw [Nat.add_comm, beBytes, leBytes_add, List.reverse_append]
  rfl

theorem beBytes_zero (w : ℕ) : beBytes w 0 = List.replicate w 0 := by
  have hle : leBytes w 0 = List.replicate w 0 := by
    induction w with
    | zero => rfl
    | succ w ih => rw [leBytes, Nat.zero_div, ih, List.replicate_succ]; rfl
  rw [beBytes, hle, List.reverse_replicate]

theorem lt_pow_length_toBytesBe (n : ℕ) : n < 256 ^ (BigUint.toBytesBe n).length := by
  rw [BigUint.toBytesBe, length_beBytes]
  calc
    n < 2 ^ (n.log2 + 1) := Nat.lt_log2_self
    _ ≤ 2 ^ (8 * (n.log2 / 8 + 1)) := Nat.pow_le_pow_right (by decide) (by omega)
    _ = 256 ^ (n.log2 / 8 + 1) := by rw [Nat.pow_mul]

/-! ## Hexadecimal text -/

def isLowerHex (c : Char) : Bool := "0123456789abcdef".toList.contains c

theorem isLowerHex_hexDigit : ∀ n < 16, isLowerHex (hexDigit n) = true := by decide

@[simp] theorem length_hexEncode (bs : Bytes) : (hexEncode bs).length = 2 * bs.length := by
  rw [hexEncode, String.length_ofList]
  induction bs with
  | nil => rfl
  | cons b bs ih =>
      rw [List.flatMap_cons, List.length_append, ih, List.length_cons]
      change 2 + 2 * bs.length = 2 * (bs.length + 1)
      omega

theorem isLowerHex_of_mem_hexEncode {bs : Bytes} {c : Char} (h : c ∈ (hexEncode bs).toList) :
    isLowerHex c = true := by
  rw [hexEncode, String.toList_ofList, List.mem_flatMap] at h
  obtain ⟨b, -, hc⟩ := h
  have hb : b.toNat < 256 := b.toNat_lt
  rcases List.mem_pair.mp hc with rfl | rfl
  · exact isLowerHex_hexDigit _ (by omega)
  · exact isLowerHex_hexDigit _ (by omega)

end Bytes

end BeeEngine
