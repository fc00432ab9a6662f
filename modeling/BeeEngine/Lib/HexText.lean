import BeeEngine.Lib.HexNumber

/-!
# Texts that are hexadecimal

Which texts `hex::decode` reads as so many bytes: those of twice as many digits.
-/

namespace BeeEngine

/-! ## Bytes of a character -/

theorem utf8EncodeChar_of_lt {c : Char} (h : c.toNat < 128) :
    String.utf8EncodeChar c = [UInt8.ofNat c.toNat] := by
  have hle : c.val.toNat ≤ 127 := Nat.le_of_lt_succ h
  rw [String.utf8EncodeChar]
  simp only [hle, if_true]
  rfl

/-- The bytes of a character outside ASCII are all outside ASCII. -/
theorem le_of_mem_utf8EncodeChar {c : Char} (h : 128 ≤ c.toNat) {b : UInt8}
    (hb : b ∈ String.utf8EncodeChar c) : 128 ≤ b.toNat := by
  have hbyte : ∀ m, 128 ≤ m → m < 256 → 128 ≤ (UInt8.ofNat m).toNat := by
    intro m hm hlt
    rwa [UInt8.toNat_ofNat', Nat.mod_eq_of_lt hlt]
  have hnot : ¬c.val.toNat ≤ 127 := by
    intro hle
    exact absurd (Nat.lt_succ_of_le hle) (Nat.not_lt.mpr h)
  rw [String.utf8EncodeChar] at hb
  simp only [hnot, if_false] at hb
  split_ifs at hb <;> simp only [List.mem_cons, List.not_mem_nil, or_false] at hb
  · rcases hb with rfl | rfl <;> exact hbyte _ (by omega) (by omega)
  · rcases hb with rfl | rfl | rfl <;> exact hbyte _ (by omega) (by omega)
  · rcases hb with rfl | rfl | rfl | rfl <;> exact hbyte _ (by omega) (by omega)

namespace Bytes

/-! ## Digits -/

theorem isSome_hexVal : ∀ n < 128,
    (hexVal (UInt8.ofNat n)).isSome = Text.isAsciiHexdigit (Char.ofNat n) := by
  decide +kernel

theorem hexVal_eq_none {b : UInt8} (h : 128 ≤ b.toNat) : hexVal b = none := by
  rw [hexVal, if_neg (by omega), if_neg (by omega), if_neg (by omega)]

/-- The bytes of a character are digits exactly if the character is one. -/
theorem forall_isSome_hexVal_iff (c : Char) :
    (∀ b ∈ String.utf8EncodeChar c, (hexVal b).isSome = true) ↔ Text.isAsciiHexdigit c = true := by
  by_cases h : c.toNat < 128
  · rw [utf8EncodeChar_of_lt h, List.forall_mem_singleton, isSome_hexVal _ h, Char.ofNat_toNat]
  · have hle := Nat.le_of_not_lt h
    constructor
    · intro hall
      obtain ⟨b, hb⟩ := List.exists_mem_of_ne_nil _ (String.utf8EncodeChar_ne_nil (c := c))
      have hsome := hall b hb
      rw [hexVal_eq_none (le_of_mem_utf8EncodeChar hle hb)] at hsome
      cases hsome
    · intro hhex
      exact absurd (HexNumber.toNat_of_isAsciiHexdigit hhex) h

/-- Pairs of digits are read, and nothing else is. -/
theorem hexDecodePairs_iff {bs : Bytes} {index n : ℕ} (heven : bs.length % 2 = 0) :
    (∃ out, hexDecodePairs index bs = .ok out ∧ out.length = n) ↔
      bs.length = 2 * n ∧ ∀ b ∈ bs, (hexVal b).isSome = true := by
  induction bs using List.twoStepInduction generalizing index n with
  | nil =>
      simp only [hexDecodePairs, Except.ok.injEq, exists_eq_left', List.length_nil,
        List.not_mem_nil, false_implies, implies_true, and_true]
      omega
  | singleton b => simp at heven
  | cons_cons hi lo rest ih _ =>
      have heven' : rest.length % 2 = 0 := by
        simp only [List.length_cons] at heven
        omega
      simp only [hexDecodePairs, hexValAt, List.forall_mem_cons, List.length_cons]
      cases hhi : hexVal hi with
      | none => simp
      | some h =>
          cases hlo : hexVal lo with
          | none => simp
          | some l =>
              cases n with
              | zero =>
                  cases hrest : hexDecodePairs (index + 2) rest with
                  | error e => simp
                  | ok out =>
                      simp only [Except.ok.injEq, exists_eq_left', List.length_cons]
                      omega
              | succ n =>
                  have hih := @ih (index + 2) n heven'
                  cases hrest : hexDecodePairs (index + 2) rest with
                  | error e =>
                      rw [hrest] at hih
                      simp only [reduceCtorEq, false_and, exists_false, false_iff] at hih ⊢
                      rintro ⟨hlength, -, -, hall⟩
                      exact hih ⟨by omega, hall⟩
                  | ok out =>
                      rw [hrest] at hih
                      simp only [Except.ok.injEq, exists_eq_left', List.length_cons,
                        Option.isSome_some, true_and] at hih ⊢
                      rw [Nat.succ_inj, hih]
                      exact and_congr_left fun _ ↦ by omega

/-- The text is the hexadecimal form of `n` bytes, in either case. -/
def IsHex (n : ℕ) (s : String) : Prop :=
  s.length = 2 * n ∧ ∀ c ∈ s.toList, Text.isAsciiHexdigit c = true

theorem length_flatMap_utf8EncodeChar {cs : List Char}
    (h : ∀ c ∈ cs, Text.isAsciiHexdigit c = true) :
    (cs.flatMap String.utf8EncodeChar).length = cs.length := by
  induction cs with
  | nil => rfl
  | cons c cs ih =>
      obtain ⟨hc, hcs⟩ := List.forall_mem_cons.mp h
      rw [List.flatMap_cons, List.length_append, ih hcs,
        utf8EncodeChar_of_lt (HexNumber.toNat_of_isAsciiHexdigit hc), List.length_singleton,
        List.length_cons, Nat.add_comm]

theorem hexDecode_iff {n : ℕ} {s : String} :
    (∃ bs, hexDecode s = .ok bs ∧ bs.length = n) ↔ IsHex n s := by
  have hbytes : utf8 s = s.toList.flatMap String.utf8EncodeChar := by
    rw [← utf8_ofList, String.ofList_toList]
  have hdigits : (∀ b ∈ utf8 s, (hexVal b).isSome = true) ↔
      ∀ c ∈ s.toList, Text.isAsciiHexdigit c = true := by
    rw [hbytes]
    simp only [List.mem_flatMap, ← forall_isSome_hexVal_iff]
    constructor
    · intro h c hc b hb
      exact h b ⟨c, hc, hb⟩
    · rintro h b ⟨c, hc, hb⟩
      exact h c hc b hb
  have hlength : (∀ c ∈ s.toList, Text.isAsciiHexdigit c = true) →
      (utf8 s).length = s.length := by
    intro h
    rw [hbytes, length_flatMap_utf8EncodeChar h, String.length_toList]
  rw [hexDecode, IsHex]
  by_cases hodd : (utf8 s).length % 2 = 0
  · simp only [hodd, ne_eq, not_true_eq_false, if_false]
    rw [hexDecodePairs_iff hodd, hdigits]
    exact and_congr_left fun hall ↦ by rw [hlength hall]
  · simp only [hodd, ne_eq, not_false_eq_true, if_true, reduceCtorEq, false_and, exists_false,
      false_iff, not_and]
    intro heven hall
    rw [hlength hall, heven] at hodd
    exact hodd (Nat.mul_mod_right 2 n)

theorem utf8ByteSize_of_hexDecode {s : String} {bs : Bytes} (h : hexDecode s = .ok bs) :
    s.utf8ByteSize = 2 * bs.length := by
  have ⟨hlength, hdigits⟩ := hexDecode_iff.mp ⟨bs, h, rfl⟩
  rw [HexNumber.utf8ByteSize_eq_length hdigits, hlength]

/-- No separator is a digit. -/
theorem IsHex.notMem {n : ℕ} {s : String} (h : IsHex n s) {c : Char}
    (hc : Text.isAsciiHexdigit c = false) : c ∉ s.toList := by
  intro hmem
  rw [h.2 c hmem] at hc
  cases hc

theorem isHex_hexEncode (bs : Bytes) : IsHex bs.length (hexEncode bs) :=
  hexDecode_iff.mp ⟨bs, hexDecode_hexEncode bs, rfl⟩

end Bytes

end BeeEngine
