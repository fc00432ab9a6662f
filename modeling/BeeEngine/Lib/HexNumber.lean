import BeeEngine.Lib.BigUint
import BeeEngine.Lib.Text

/-!
# Numbers in hexadecimal digits

A number has one text of a given width in lower-case digits, which is reached
from each of its spellings by padding and lowering.
-/

namespace BeeEngine

namespace HexNumber

/-- The value of a hexadecimal digit. -/
def value (c : Char) : ℕ :=
  if c ≤ '9' then c.toNat - 48 else if c ≤ 'F' then c.toNat - 55 else c.toNat - 87

/-- The number of the digits, the most significant one first. -/
def number (cs : List Char) : ℕ := Nat.ofDigits 16 (cs.map value).reverse

/-- The digits in lower case, with zeros before them up to the width. -/
def padded (width : ℕ) (cs : List Char) : List Char :=
  List.replicate (width - cs.length) '0' ++ (Text.toAsciiLowercase (String.ofList cs)).toList

theorem toNat_of_isAsciiHexdigit {c : Char} (h : Text.isAsciiHexdigit c = true) :
    c.toNat < 128 := by
  rcases of_decide_eq_true h with h | h | h
  · exact (Text.toNat_of_between h).2.trans_lt (by decide)
  · exact (Text.toNat_of_between h).2.trans_lt (by decide)
  · exact (Text.toNat_of_between h).2.trans_lt (by decide)

/-- A fact about the characters of one byte. -/
theorem forall_digit {p : Char → Prop}
    (h : ∀ n < 128, Text.isAsciiHexdigit (Char.ofNat n) = true → p (Char.ofNat n)) {c : Char}
    (hc : Text.isAsciiHexdigit c = true) : p c := by
  have hn := h c.toNat (toNat_of_isAsciiHexdigit hc)
  rw [Char.ofNat_toNat] at hn
  exact hn hc

theorem value_lt {c : Char} (hc : Text.isAsciiHexdigit c = true) : value c < 16 := by
  revert hc
  apply forall_digit
  decide

theorem lower_eq {c : Char} (hc : Text.isAsciiHexdigit c = true) :
    (if 'A' ≤ c ∧ c ≤ 'Z' then Char.ofNat (c.toNat + 32) else c) = Bytes.hexDigit (value c) := by
  revert c
  apply forall_digit
  decide

theorem value_hexDigit : ∀ n < 16, value (Bytes.hexDigit n) = n := by decide

theorem isAsciiHexdigit_hexDigit : ∀ n < 16, Text.isAsciiHexdigit (Bytes.hexDigit n) = true := by
  decide

/-- One byte for each character of ASCII. -/
theorem utf8ByteSize_of_ascii {s : String} (h : ∀ c ∈ s.toList, c.toNat < 128) :
    s.utf8ByteSize = s.length := by
  obtain ⟨cs, rfl⟩ := s.exists_eq_ofList
  rw [String.toList_ofList] at h
  rw [String.length_ofList]
  induction cs with
  | nil => rfl
  | cons c cs ih =>
      have hc : c.utf8Size = 1 := by
        rw [Char.utf8Size_eq_one_iff]
        apply UInt32.le_iff_toNat_le.mpr
        exact Nat.le_of_lt_succ (h c List.mem_cons_self)
      have hcons : String.ofList (c :: cs) = String.singleton c ++ String.ofList cs := by
        apply String.toList_inj.mp
        simp
      rw [hcons, String.utf8ByteSize_append, String.utf8ByteSize_singleton, hc,
        ih fun c hc ↦ h c (List.mem_cons_of_mem _ hc), List.length_cons, Nat.add_comm]

theorem utf8ByteSize_eq_length {s : String} (h : ∀ c ∈ s.toList, Text.isAsciiHexdigit c = true) :
    s.utf8ByteSize = s.length :=
  utf8ByteSize_of_ascii fun c hc ↦ toNat_of_isAsciiHexdigit (h c hc)

/-! ## The text of a given width -/

section Padded

variable {width : ℕ} {cs : List Char}

theorem padded_eq (h : ∀ c ∈ cs, Text.isAsciiHexdigit c = true) :
    padded width cs =
      (List.replicate (width - cs.length) 0 ++ cs.map value).map Bytes.hexDigit := by
  have hlower : cs.map (fun c ↦ if 'A' ≤ c ∧ c ≤ 'Z' then Char.ofNat (c.toNat + 32) else c) =
      (cs.map value).map Bytes.hexDigit := by
    rw [List.map_map]
    apply List.map_congr_left
    intro c hc
    exact lower_eq (h c hc)
  rw [padded, Text.toAsciiLowercase, String.toList_ofList, String.toList_ofList, hlower,
    List.map_append, List.map_replicate]
  rfl

theorem lt_of_mem_padding (h : ∀ c ∈ cs, Text.isAsciiHexdigit c = true) :
    ∀ n ∈ List.replicate (width - cs.length) 0 ++ cs.map value, n < 16 := by
  intro n hn
  rcases List.mem_append.mp hn with hn | hn
  · rw [List.eq_of_mem_replicate hn]
    decide
  · obtain ⟨c, hc, rfl⟩ := List.mem_map.mp hn
    exact value_lt (h c hc)

theorem isAsciiHexdigit_of_mem_padded (h : ∀ c ∈ cs, Text.isAsciiHexdigit c = true) {c : Char}
    (hc : c ∈ padded width cs) : Text.isAsciiHexdigit c = true := by
  rw [padded_eq h] at hc
  obtain ⟨n, hn, rfl⟩ := List.mem_map.mp hc
  exact isAsciiHexdigit_hexDigit n (lt_of_mem_padding h n hn)

theorem length_padded (h : cs.length ≤ width) : (padded width cs).length = width := by
  rw [padded, List.length_append, List.length_replicate, Text.toAsciiLowercase,
    String.toList_ofList, List.length_map, String.toList_ofList]
  omega

theorem number_padded (h : ∀ c ∈ cs, Text.isAsciiHexdigit c = true) :
    number (padded width cs) = number cs := by
  have hvalues : ((List.replicate (width - cs.length) 0 ++ cs.map value).map
      Bytes.hexDigit).map value = List.replicate (width - cs.length) 0 ++ cs.map value := by
    have hid : ∀ n ∈ List.replicate (width - cs.length) 0 ++ cs.map value,
        (value ∘ Bytes.hexDigit) n = id n := fun n hn ↦ value_hexDigit n (lt_of_mem_padding h n hn)
    rw [List.map_map, List.map_congr_left hid, List.map_id]
  rw [number, padded_eq h, hvalues, List.reverse_append, List.reverse_replicate,
    Nat.ofDigits_append_replicate_zero, number]

/-- The text of a width depends on the number only. -/
theorem padded_eq_padded {ds : List Char} (hcs : ∀ c ∈ cs, Text.isAsciiHexdigit c = true)
    (hds : ∀ c ∈ ds, Text.isAsciiHexdigit c = true) (hcswidth : cs.length ≤ width)
    (hdswidth : ds.length ≤ width) (h : number cs = number ds) :
    padded width cs = padded width ds := by
  have hvalues : List.replicate (width - cs.length) 0 ++ cs.map value =
      List.replicate (width - ds.length) 0 ++ ds.map value := by
    apply List.reverse_injective
    apply Nat.ofDigits_inj_of_len_eq (b := 16) (by decide)
    · simp only [List.length_reverse, List.length_append, List.length_replicate, List.length_map]
      omega
    · intro n hn
      exact lt_of_mem_padding hcs n (List.mem_reverse.mp hn)
    · intro n hn
      exact lt_of_mem_padding hds n (List.mem_reverse.mp hn)
    · rw [List.reverse_append, List.reverse_append, List.reverse_replicate,
        List.reverse_replicate, Nat.ofDigits_append_replicate_zero,
        Nat.ofDigits_append_replicate_zero]
      exact h
  rw [padded_eq hcs, padded_eq hds, hvalues]

theorem exists_hexDigit_of_isLowerHex {c : Char} (h : Bytes.isLowerHex c = true) :
    ∃ n < 16, c = Bytes.hexDigit n := by
  have hdigits : "0123456789abcdef".toList = (List.range 16).map Bytes.hexDigit := by decide
  rw [Bytes.isLowerHex, hdigits, List.contains_iff_mem] at h
  obtain ⟨n, hn, rfl⟩ := List.mem_map.mp h
  exact ⟨n, List.mem_range.mp hn, rfl⟩

theorem hexDigit_value {c : Char} (h : Bytes.isLowerHex c = true) :
    Bytes.hexDigit (value c) = c := by
  obtain ⟨n, hn, rfl⟩ := exists_hexDigit_of_isLowerHex h
  rw [value_hexDigit n hn]

theorem isAsciiHexdigit_of_isLowerHex {c : Char} (h : Bytes.isLowerHex c = true) :
    Text.isAsciiHexdigit c = true := by
  obtain ⟨n, hn, rfl⟩ := exists_hexDigit_of_isLowerHex h
  exact isAsciiHexdigit_hexDigit n hn

/-- Digits in lower case that fill the width stay as they are. -/
theorem padded_of_lower (h : ∀ c ∈ cs, Bytes.isLowerHex c = true) (hlength : cs.length = width) :
    padded width cs = cs := by
  have hmap : (cs.map value).map Bytes.hexDigit = cs := by
    rw [List.map_map]
    exact (List.map_congr_left fun c hc ↦ hexDigit_value (h c hc)).trans (List.map_id cs)
  rw [padded_eq fun c hc ↦ isAsciiHexdigit_of_isLowerHex (h c hc), hlength, Nat.sub_self,
    List.replicate_zero, List.nil_append, hmap]

end Padded

/-! ## The digits of a number -/

/-- The digits of a number in lower case, without zeros before them. -/
def digits (n : ℕ) : List Char := (Nat.digits 16 n).reverse.map Bytes.hexDigit

theorem isAsciiHexdigit_of_mem_digits {n : ℕ} {c : Char} (hc : c ∈ digits n) :
    Text.isAsciiHexdigit c = true := by
  obtain ⟨d, hd, rfl⟩ := List.mem_map.mp hc
  exact isAsciiHexdigit_hexDigit d (Nat.digits_lt_base (by decide) (List.mem_reverse.mp hd))

theorem number_digits (n : ℕ) : number (digits n) = n := by
  have hvalues : ((Nat.digits 16 n).reverse.map Bytes.hexDigit).map value =
      (Nat.digits 16 n).reverse := by
    rw [List.map_map]
    refine (List.map_congr_left fun d hd ↦ ?_).trans (List.map_id _)
    exact value_hexDigit d (Nat.digits_lt_base (by decide) (List.mem_reverse.mp hd))
  rw [number, digits, hvalues, List.reverse_reverse, Nat.ofDigits_digits]

theorem length_digits_le {n width : ℕ} (h : n < 16 ^ width) : (digits n).length ≤ width := by
  rw [digits, List.length_map, List.length_reverse, Nat.digits_length_le_iff (by decide)]
  exact h

theorem number_lt {cs : List Char} (h : ∀ c ∈ cs, Text.isAsciiHexdigit c = true) :
    number cs < 16 ^ cs.length := by
  have hlt := Nat.ofDigits_lt_base_pow_length (b := 16) (l := (cs.map value).reverse) (by decide)
    fun d hd ↦ by
      obtain ⟨c, hc, rfl⟩ := List.mem_map.mp (List.mem_reverse.mp hd)
      exact value_lt (h c hc)
  rwa [List.length_reverse, List.length_map] at hlt

end HexNumber

end BeeEngine
