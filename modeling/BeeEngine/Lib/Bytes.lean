import Mathlib

/-!
# Byte strings, fixed-width integers and hexadecimal text

Integers are written with a fixed number of bytes, least or most significant
byte first.  Hexadecimal text is produced in lower case and read in either
case.  Strings are sequences of Unicode scalar values; `utf8` and `fromUtf8`
move between a string and its encoding.
-/

namespace BeeEngine

/-- A vector of bytes. -/
abbrev Bytes := List UInt8

/-- The value of `k` at `n`, once `n` is evaluated. -/
def evaluated {α : Type} (n : ℕ) (k : ℕ → α) : α :=
  match n with
  | 0 => k 0
  | m + 1 => k (m + 1)

namespace Bytes

/-! ## Little and big endian integers -/

def leBytes : ℕ → ℕ → Bytes
  | 0, _ => []
  | w + 1, n => UInt8.ofNat n :: leBytes w (n / 256)

def ofLeBytes : Bytes → ℕ
  | [] => 0
  | b :: bs => b.toNat + 256 * ofLeBytes bs

def beBytes (w n : ℕ) : Bytes := (leBytes w n).reverse

def ofBeBytes (bs : Bytes) : ℕ := ofLeBytes bs.reverse

@[simp] theorem length_leBytes (w n : ℕ) : (leBytes w n).length = w := by
  induction w generalizing n with
  | zero => rfl
  | succ w ih => simp [leBytes, ih]

@[simp] theorem length_beBytes (w n : ℕ) : (beBytes w n).length = w := by
  simp [beBytes]

theorem ofLeBytes_lt (bs : Bytes) : ofLeBytes bs < 256 ^ bs.length := by
  induction bs with
  | nil => simp [ofLeBytes]
  | cons b bs ih =>
      have hb : b.toNat < 256 := b.toNat_lt
      have hpow : 256 ^ (b :: bs).length = 256 * 256 ^ bs.length := by
        rw [List.length_cons, Nat.pow_succ, Nat.mul_comm]
      rw [ofLeBytes, hpow]
      omega

/-- Writing keeps the residue that fits the width. -/
theorem ofLeBytes_leBytes (w n : ℕ) : ofLeBytes (leBytes w n) = n % 256 ^ w := by
  induction w generalizing n with
  | zero => simp [leBytes, ofLeBytes, Nat.mod_one]
  | succ w ih =>
      have hhead : (UInt8.ofNat n).toNat = n % 256 := by simp
      rw [leBytes, ofLeBytes, ih, hhead, Nat.pow_succ, Nat.mul_comm (256 ^ w) 256,
        Nat.mod_mul]

theorem ofLeBytes_leBytes_of_lt {w n : ℕ} (h : n < 256 ^ w) :
    ofLeBytes (leBytes w n) = n := by
  rw [ofLeBytes_leBytes, Nat.mod_eq_of_lt h]

theorem leBytes_ofLeBytes (bs : Bytes) : leBytes bs.length (ofLeBytes bs) = bs := by
  induction bs with
  | nil => rfl
  | cons b bs ih =>
      have hb : b.toNat < 256 := b.toNat_lt
      have hdiv : (b.toNat + 256 * ofLeBytes bs) / 256 = ofLeBytes bs := by omega
      have hhead : UInt8.ofNat (b.toNat + 256 * ofLeBytes bs) = b := by
        apply UInt8.toNat_inj.mp
        simp
      rw [List.length_cons, ofLeBytes, leBytes, hdiv, ih, hhead]

theorem ofBeBytes_lt (bs : Bytes) : ofBeBytes bs < 256 ^ bs.length := by
  simpa [ofBeBytes] using ofLeBytes_lt bs.reverse

theorem ofBeBytes_beBytes_of_lt {w n : ℕ} (h : n < 256 ^ w) :
    ofBeBytes (beBytes w n) = n := by
  simp [ofBeBytes, beBytes, ofLeBytes_leBytes_of_lt h]

theorem beBytes_ofBeBytes (bs : Bytes) : beBytes bs.length (ofBeBytes bs) = bs := by
  have h := leBytes_ofLeBytes bs.reverse
  rw [List.length_reverse] at h
  rw [beBytes, ofBeBytes, h, List.reverse_reverse]

/-! ## Arrays of 32 bytes -/

end Bytes

/-- A byte array of length 32. -/
structure Bytes32 where
  bytes : Bytes
  length_eq : bytes.length = 32
  deriving DecidableEq, Repr

namespace Bytes32

/-- Conversion of a slice, which fails on any other length. -/
def ofSlice? (bs : Bytes) : Option Bytes32 :=
  if h : bs.length = 32 then some ⟨bs, h⟩ else none

theorem bytes_injective {a b : Bytes32} (h : a.bytes = b.bytes) : a = b := by
  cases a
  cases b
  cases h
  rfl

@[simp] theorem ofSlice?_bytes (a : Bytes32) : ofSlice? a.bytes = some a :=
  dif_pos a.length_eq

theorem ofSlice?_eq_some_iff {bs : Bytes} {a : Bytes32} :
    ofSlice? bs = some a ↔ a.bytes = bs := by
  constructor
  · intro h
    rw [ofSlice?] at h
    split at h
    · rw [← Option.some.inj h]
    · cases h
  · rintro rfl
    exact ofSlice?_bytes a

theorem ofSlice?_eq_none_iff {bs : Bytes} : ofSlice? bs = none ↔ bs.length ≠ 32 := by
  rw [ofSlice?]
  split <;> simp_all

end Bytes32

namespace Bytes

/-! ## Text -/

/-- The UTF-8 encoding of a string. -/
def utf8 (s : String) : Bytes := s.toByteArray.data.toList

/-- Decoding fails exactly on byte strings that are not UTF-8. -/
def fromUtf8 (bs : Bytes) : Option String := String.fromUTF8? ⟨bs.toArray⟩

theorem fromUtf8_utf8 (s : String) : fromUtf8 (utf8 s) = some s := by
  have harr : (⟨(utf8 s).toArray⟩ : ByteArray) = s.toByteArray := by simp [utf8]
  rw [fromUtf8, harr, String.fromUTF8?, dif_pos s.isValidUTF8]
  rfl

theorem utf8_of_fromUtf8 {bs : Bytes} {s : String} (h : fromUtf8 bs = some s) :
    utf8 s = bs := by
  rw [fromUtf8, String.fromUTF8?] at h
  split at h
  · obtain rfl := Option.some.inj h
    simp [utf8, String.fromUTF8]
  · cases h

/-! ## Hexadecimal -/

def hexDigit (n : ℕ) : Char :=
  if n < 10 then Char.ofNat (48 + n) else Char.ofNat (87 + n)

/-- Lower-case hexadecimal text, two digits for each byte. -/
def hexEncode (bs : Bytes) : String :=
  String.ofList (bs.flatMap fun b ↦ [hexDigit (b.toNat / 16), hexDigit (b.toNat % 16)])

/-- The value of one hexadecimal digit of either case. -/
def hexVal (c : UInt8) : Option ℕ :=
  if 65 ≤ c.toNat ∧ c.toNat ≤ 70 then some (c.toNat - 55)
  else if 97 ≤ c.toNat ∧ c.toNat ≤ 102 then some (c.toNat - 87)
  else if 48 ≤ c.toNat ∧ c.toNat ≤ 57 then some (c.toNat - 48)
  else none

inductive FromHexError where
  | invalidHexCharacter (c : Char) (index : ℕ)
  | oddLength
  deriving DecidableEq, Repr

def FromHexError.message : FromHexError → String
  | invalidHexCharacter c index =>
      "Invalid character " ++ c.quote ++ " at position " ++ toString index
  | oddLength => "Odd number of digits"

/-- The digit at a position of the text, or the error that names it. -/
def hexValAt (c : UInt8) (index : ℕ) : Except FromHexError ℕ :=
  match hexVal c with
  | some v => .ok v
  | none => .error (.invalidHexCharacter (Char.ofNat c.toNat) index)

def hexDecodePairs : ℕ → Bytes → Except FromHexError Bytes
  | index, hi :: lo :: rest =>
      match hexValAt hi index with
      | .error e => .error e
      | .ok h =>
          match hexValAt lo (index + 1) with
          | .error e => .error e
          | .ok l =>
              match hexDecodePairs (index + 2) rest with
              | .error e => .error e
              | .ok bs => .ok (UInt8.ofNat (16 * h + l) :: bs)
  | _, _ => .ok []

def hexDecode (s : String) : Except FromHexError Bytes :=
  let text := utf8 s
  if text.length % 2 ≠ 0 then .error .oddLength else hexDecodePairs 0 text

theorem utf8_ofList (cs : List Char) : utf8 (String.ofList cs) =
    cs.flatMap String.utf8EncodeChar := by
  simp [utf8, List.utf8Encode]

/-- A hexadecimal digit is one byte of text, and reads back as its value. -/
theorem hexDigit_spec : ∀ n : Fin 16, ∃ c : UInt8,
    String.utf8EncodeChar (hexDigit n) = [c] ∧ hexVal c = some n.val := by
  intro n
  refine ⟨UInt8.ofNat (hexDigit n).toNat, ?_⟩
  revert n
  decide

theorem hexDecodePairs_encode (bs : Bytes) (index : ℕ) :
    hexDecodePairs index ((bs.flatMap fun b ↦
      [hexDigit (b.toNat / 16), hexDigit (b.toNat % 16)]).flatMap String.utf8EncodeChar) =
        .ok bs := by
  induction bs generalizing index with
  | nil => rfl
  | cons b bs ih =>
      have hb : b.toNat < 256 := b.toNat_lt
      obtain ⟨hi, hhi, hhiv⟩ := hexDigit_spec ⟨b.toNat / 16, by omega⟩
      obtain ⟨lo, hlo, hlov⟩ := hexDigit_spec ⟨b.toNat % 16, by omega⟩
      have hbyte : UInt8.ofNat (16 * (b.toNat / 16) + b.toNat % 16) = b := by
        rw [Nat.div_add_mod]
        simp
      simp only [List.flatMap_cons, List.flatMap_append, List.flatMap_nil, List.append_nil]
      rw [hhi, hlo]
      simp only [List.cons_append, List.nil_append, hexDecodePairs, hexValAt, hhiv, hlov, ih,
        hbyte]

theorem length_utf8_hexEncode (bs : Bytes) : (utf8 (hexEncode bs)).length = 2 * bs.length := by
  rw [hexEncode, utf8_ofList]
  induction bs with
  | nil => rfl
  | cons b bs ih =>
      have hb : b.toNat < 256 := b.toNat_lt
      obtain ⟨hi, hhi, -⟩ := hexDigit_spec ⟨b.toNat / 16, by omega⟩
      obtain ⟨lo, hlo, -⟩ := hexDigit_spec ⟨b.toNat % 16, by omega⟩
      simp only [List.flatMap_cons, List.flatMap_append, List.flatMap_nil, List.append_nil,
        List.length_append, List.length_cons, hhi, hlo, ih, List.length_nil]
      omega

theorem hexDecode_hexEncode (bs : Bytes) : hexDecode (hexEncode bs) = .ok bs := by
  have hlen := length_utf8_hexEncode bs
  rw [hexDecode]
  simp only [hlen, Nat.mul_mod_right, ne_eq, not_true_eq_false, if_false]
  rw [hexEncode, utf8_ofList]
  exact hexDecodePairs_encode bs 0

theorem hexEncode_injective {bs cs : Bytes} (h : hexEncode bs = hexEncode cs) : bs = cs := by
  have hb := hexDecode_hexEncode bs
  rw [h, hexDecode_hexEncode] at hb
  exact (Except.ok.inj hb).symm

end Bytes

end BeeEngine
