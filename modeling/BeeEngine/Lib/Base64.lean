import BeeEngine.Lib.Bytes

/-!
# Base64 for URLs, without padding

The alphabet ends in `-` and `_`.  Text is read only in the form that encoding
gives: no padding, and no bits set beyond the last byte.
-/

namespace BeeEngine

namespace Base64

/-- The digit of six bits. -/
def digit (n : ℕ) : Char :=
  if n < 26 then Char.ofNat (65 + n)
  else if n < 52 then Char.ofNat (71 + n)
  else if n < 62 then Char.ofNat (n - 4)
  else if n = 62 then '-'
  else '_'

/-- The six bits of a digit. -/
def digitVal (c : Char) : Option ℕ :=
  if 'A' ≤ c ∧ c ≤ 'Z' then some (c.toNat - 65)
  else if 'a' ≤ c ∧ c ≤ 'z' then some (c.toNat - 71)
  else if '0' ≤ c ∧ c ≤ '9' then some (c.toNat + 4)
  else if c = '-' then some 62
  else if c = '_' then some 63
  else none

theorem digitVal_digit : ∀ n < 64, digitVal (digit n) = some n := by decide

def encodeChars : Bytes → List Char
  | [] => []
  | [a] => [digit (a.toNat / 4), digit (a.toNat % 4 * 16)]
  | [a, b] =>
      [digit (a.toNat / 4), digit (a.toNat % 4 * 16 + b.toNat / 16), digit (b.toNat % 16 * 4)]
  | a :: b :: c :: rest =>
      digit (a.toNat / 4) :: digit (a.toNat % 4 * 16 + b.toNat / 16) ::
        digit (b.toNat % 16 * 4 + c.toNat / 64) :: digit (c.toNat % 64) :: encodeChars rest

def decodeChars : List Char → Option Bytes
  | [] => some []
  | [_] => none
  | [p, q] => do
      let x ← digitVal p
      let y ← digitVal q
      if y % 16 = 0 then return [UInt8.ofNat (x * 4 + y / 16)] else none
  | [p, q, r] => do
      let x ← digitVal p
      let y ← digitVal q
      let z ← digitVal r
      if z % 4 = 0 then
        return [UInt8.ofNat (x * 4 + y / 16), UInt8.ofNat (y % 16 * 16 + z / 4)]
      else none
  | p :: q :: r :: s :: rest => do
      let x ← digitVal p
      let y ← digitVal q
      let z ← digitVal r
      let w ← digitVal s
      let bs ← decodeChars rest
      return UInt8.ofNat (x * 4 + y / 16) :: UInt8.ofNat (y % 16 * 16 + z / 4) ::
        UInt8.ofNat (z % 4 * 64 + w) :: bs

def encode (bs : Bytes) : String := String.ofList (encodeChars bs)

def decode (text : String) : Option Bytes := decodeChars text.toList

/-- A byte put together from its upper and lower bits. -/
theorem ofNat_eq {a : UInt8} {n : ℕ} (h : n = a.toNat) : UInt8.ofNat n = a := by
  rw [h]
  exact UInt8.ofNat_toNat

theorem decodeChars_encodeChars (bs : Bytes) : decodeChars (encodeChars bs) = some bs := by
  induction bs using encodeChars.induct with
  | case1 => rfl
  | case2 a =>
      have ha := a.toNat_lt
      have hx : digitVal (digit (a.toNat / 4)) = some (a.toNat / 4) :=
        digitVal_digit _ (by omega)
      have hy : digitVal (digit (a.toNat % 4 * 16)) = some (a.toNat % 4 * 16) :=
        digitVal_digit _ (by omega)
      have hbits : a.toNat % 4 * 16 % 16 = 0 := by omega
      have hbyte : UInt8.ofNat (a.toNat / 4 * 4 + a.toNat % 4 * 16 / 16) = a :=
        ofNat_eq (by omega)
      rw [encodeChars, decodeChars]
      simp only [hx, hy, Option.bind_eq_bind, Option.bind_some, hbits, if_pos, hbyte]
      rfl
  | case3 a b =>
      have ha := a.toNat_lt
      have hb := b.toNat_lt
      have hx : digitVal (digit (a.toNat / 4)) = some (a.toNat / 4) :=
        digitVal_digit _ (by omega)
      have hy : digitVal (digit (a.toNat % 4 * 16 + b.toNat / 16)) =
          some (a.toNat % 4 * 16 + b.toNat / 16) := digitVal_digit _ (by omega)
      have hz : digitVal (digit (b.toNat % 16 * 4)) = some (b.toNat % 16 * 4) :=
        digitVal_digit _ (by omega)
      have hbits : b.toNat % 16 * 4 % 4 = 0 := by omega
      have hfirst : UInt8.ofNat (a.toNat / 4 * 4 + (a.toNat % 4 * 16 + b.toNat / 16) / 16) = a :=
        ofNat_eq (by omega)
      have hsecond : UInt8.ofNat
          ((a.toNat % 4 * 16 + b.toNat / 16) % 16 * 16 + b.toNat % 16 * 4 / 4) = b :=
        ofNat_eq (by omega)
      rw [encodeChars, decodeChars]
      simp only [hx, hy, hz, Option.bind_eq_bind, Option.bind_some, hbits, if_pos, hfirst, hsecond]
      rfl
  | case4 a b c rest ih =>
      have ha := a.toNat_lt
      have hb := b.toNat_lt
      have hc := c.toNat_lt
      have hx : digitVal (digit (a.toNat / 4)) = some (a.toNat / 4) :=
        digitVal_digit _ (by omega)
      have hy : digitVal (digit (a.toNat % 4 * 16 + b.toNat / 16)) =
          some (a.toNat % 4 * 16 + b.toNat / 16) := digitVal_digit _ (by omega)
      have hz : digitVal (digit (b.toNat % 16 * 4 + c.toNat / 64)) =
          some (b.toNat % 16 * 4 + c.toNat / 64) := digitVal_digit _ (by omega)
      have hw : digitVal (digit (c.toNat % 64)) = some (c.toNat % 64) :=
        digitVal_digit _ (by omega)
      have hfirst : UInt8.ofNat (a.toNat / 4 * 4 + (a.toNat % 4 * 16 + b.toNat / 16) / 16) = a :=
        ofNat_eq (by omega)
      have hsecond : UInt8.ofNat ((a.toNat % 4 * 16 + b.toNat / 16) % 16 * 16 +
          (b.toNat % 16 * 4 + c.toNat / 64) / 4) = b := ofNat_eq (by omega)
      have hthird : UInt8.ofNat
          ((b.toNat % 16 * 4 + c.toNat / 64) % 4 * 64 + c.toNat % 64) = c :=
        ofNat_eq (by omega)
      rw [encodeChars, decodeChars]
      simp only [hx, hy, hz, hw, ih, Option.bind_eq_bind, Option.bind_some, hfirst, hsecond, hthird]
      rfl

@[simp] theorem decode_encode (bs : Bytes) : decode (encode bs) = some bs := by
  rw [decode, encode, String.toList_ofList]
  apply decodeChars_encodeChars

/-- All characters of a text that decodes are digits. -/
theorem isSome_digitVal {cs : List Char} {bs : Bytes} (h : decodeChars cs = some bs) :
    ∀ c ∈ cs, (digitVal c).isSome := by
  induction cs using decodeChars.induct generalizing bs with
  | case1 => simp
  | case2 => cases h
  | case3 p q =>
      simp only [decodeChars, Option.bind_eq_bind, Option.bind_eq_some_iff] at h
      obtain ⟨x, hx, y, hy, -⟩ := h
      simp [hx, hy]
  | case4 p q r =>
      simp only [decodeChars, Option.bind_eq_bind, Option.bind_eq_some_iff] at h
      obtain ⟨x, hx, y, hy, z, hz, -⟩ := h
      simp [hx, hy, hz]
  | case5 p q r s rest ih =>
      simp only [decodeChars, Option.bind_eq_bind, Option.bind_eq_some_iff] at h
      obtain ⟨x, hx, y, hy, z, hz, w, hw, bs', hrest, -⟩ := h
      have hdigits := ih hrest
      simpa [hx, hy, hz, hw] using hdigits

example : encode (Bytes.utf8 "bee?>") = "YmVlPz4" := by decide +kernel

end Base64

end BeeEngine
