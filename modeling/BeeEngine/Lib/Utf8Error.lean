import BeeEngine.Lib.Bytes

/-!
# Errors of UTF-8

Where bytes stop being UTF-8, and what `FromUtf8Error` says of it.
-/

namespace BeeEngine

structure Utf8Error where
  validUpTo : ℕ
  /-- Nothing if the bytes end within a character. -/
  errorLen : Option ℕ
  deriving DecidableEq, Repr

namespace Utf8Error

def message (e : Utf8Error) : String :=
  match e.errorLen with
  | some n =>
      "invalid utf-8 sequence of " ++ toString n ++ " bytes from index " ++ toString e.validUpTo
  | none => "incomplete utf-8 byte sequence from index " ++ toString e.validUpTo

def between (a b : ℕ) (c : UInt8) : Bool := a ≤ c.toNat ∧ c.toNat ≤ b

/-- Number of bytes of a character that starts so; none for a byte that starts no
character. -/
def charWidth (first : UInt8) : ℕ :=
  if between 0 0x7f first then 1
  else if between 0xc2 0xdf first then 2
  else if between 0xe0 0xef first then 3
  else if between 0xf0 0xf4 first then 4
  else 0

/-- The second bytes after a first one. -/
def second (first : UInt8) : UInt8 → Bool :=
  if first = 0xe0 then between 0xa0 0xbf
  else if first = 0xed then between 0x80 0x9f
  else if first = 0xf0 then between 0x90 0xbf
  else if first = 0xf4 then between 0x80 0x8f
  else between 0x80 0xbf

/-- The first of the bytes after `len` good ones that does not continue a
character. -/
def continuation : ℕ → List (UInt8 → Bool) → Bytes → Option (Option ℕ)
  | _, [], _ => none
  | _, _ :: _, [] => some none
  | len, p :: ps, b :: bs => if p b then continuation (len + 1) ps bs else some (some len)

def find : ℕ → ℕ → Bytes → Option Utf8Error
  | _, _, [] => none
  | index, skip + 1, _ :: bs => find (index + 1) skip bs
  | index, 0, first :: bs =>
      let width := charWidth first
      if width = 0 then some ⟨index, some 1⟩
      else
        let rest := second first :: List.replicate (width - 2) (between 0x80 0xbf)
        match continuation 1 (rest.take (width - 1)) bs with
        | some errorLen => some ⟨index, errorLen⟩
        | none => find (index + 1) (width - 1) bs

end Utf8Error

/-- `String::from_utf8`, with the text of its error. -/
def Bytes.stringFromUtf8 (bs : Bytes) : Except String String :=
  match fromUtf8 bs with
  | some s => .ok s
  | none => .error (((Utf8Error.find 0 0 bs).map Utf8Error.message).getD "")

theorem Bytes.stringFromUtf8_eq_ok_iff {bs : Bytes} {s : String} :
    bs.stringFromUtf8 = .ok s ↔ bs = utf8 s := by
  rw [stringFromUtf8]
  constructor
  · intro h
    split at h
    · rename_i s' hs
      obtain rfl := Except.ok.inj h
      exact (utf8_of_fromUtf8 hs).symm
    · cases h
  · rintro rfl
    rw [fromUtf8_utf8]

end BeeEngine
