import BeeEngine.Lib.Bytes

/-!
# Canonical prefix codecs

A codec carries its own correctness: decoding the encoding of a value that
fits gives the value and the bytes that follow it, and every accepted byte
string is the encoding of the decoded value.  The combinators below build the
little-endian, length-prefixed binary format from fixed-width integers,
vectors, strings and records; both laws are kept by each of them, so a format
built from them is a bijection between the values that fit and its image.
-/

namespace BeeEngine

/-- Why a byte string is not accepted. -/
inductive DecodeError where
  | unexpectedLength
  | invalidUtf8
  | notAllBytesRead
  deriving DecidableEq, Repr

structure Codec (α : Type*) where
  encode : α → Bytes
  decode : Bytes → Except DecodeError (α × Bytes)
  /-- The values whose encoding loses nothing. -/
  fits : α → Bool
  decode_encode : ∀ a rest, fits a → decode (encode a ++ rest) = .ok (a, rest)
  encode_of_decode : ∀ bs a rest, decode bs = .ok (a, rest) → fits a ∧ encode a ++ rest = bs

namespace Codec

variable {α β : Type*}

/-! ## Fixed-width integers -/

/-- The first `w` bytes and what follows them. -/
def splitBytes (w : ℕ) (bs : Bytes) : Except DecodeError (Bytes × Bytes) :=
  if w ≤ bs.length then .ok (bs.take w, bs.drop w) else .error .unexpectedLength

theorem splitBytes_append {w : ℕ} {front : Bytes} (rest : Bytes) (h : front.length = w) :
    splitBytes w (front ++ rest) = .ok (front, rest) := by
  subst h
  simp [splitBytes]

theorem splitBytes_ok {w : ℕ} {bs front rest : Bytes}
    (h : splitBytes w bs = .ok (front, rest)) : front.length = w ∧ front ++ rest = bs := by
  rw [splitBytes] at h
  split at h
  · obtain ⟨rfl, rfl⟩ := Prod.mk.inj (Except.ok.inj h)
    exact ⟨List.length_take_of_le ‹w ≤ bs.length›, List.take_append_drop w bs⟩
  · cases h

/-- A little-endian integer type of `w` bytes, given by its embedding into
the naturals. -/
def fixed (w : ℕ) (toNat : α → ℕ) (ofNat : ℕ → α) (hlt : ∀ a, toNat a < 256 ^ w)
    (hof : ∀ a, ofNat (toNat a) = a) (hto : ∀ n < 256 ^ w, toNat (ofNat n) = n) : Codec α where
  encode a := Bytes.leBytes w (toNat a)
  decode bs :=
    match splitBytes w bs with
    | .error e => .error e
    | .ok (front, rest) => .ok (ofNat (Bytes.ofLeBytes front), rest)
  fits _ := true
  decode_encode a rest _ := by
    rw [splitBytes_append rest (Bytes.length_leBytes w (toNat a))]
    simp only [Bytes.ofLeBytes_leBytes_of_lt (hlt a), hof]
  encode_of_decode bs a rest h := by
    split at h
    · cases h
    · rename_i front rest' hsplit
      obtain ⟨rfl, rfl⟩ := Prod.mk.inj (Except.ok.inj h)
      obtain ⟨rfl, rfl⟩ := splitBytes_ok hsplit
      refine ⟨rfl, ?_⟩
      rw [hto _ (Bytes.ofLeBytes_lt front), Bytes.leBytes_ofLeBytes]

def u8 : Codec UInt8 :=
  fixed 1 UInt8.toNat UInt8.ofNat (fun a ↦ a.toNat_lt) (fun a ↦ by simp)
    (fun n hn ↦ by simpa using Nat.mod_eq_of_lt hn)

def u32 : Codec UInt32 :=
  fixed 4 UInt32.toNat UInt32.ofNat (fun a ↦ a.toNat_lt) (fun a ↦ by simp)
    (fun n hn ↦ by simpa using Nat.mod_eq_of_lt hn)

def u64 : Codec UInt64 :=
  fixed 8 UInt64.toNat UInt64.ofNat (fun a ↦ a.toNat_lt) (fun a ↦ by simp)
    (fun n hn ↦ by simpa using Nat.mod_eq_of_lt hn)

def u128 : Codec (BitVec 128) :=
  fixed 16 BitVec.toNat (BitVec.ofNat 128) (fun a ↦ a.isLt) (fun a ↦ by simp)
    (fun n hn ↦ by simpa using Nat.mod_eq_of_lt hn)

/-! ## Records -/

/-- One value after another. -/
def prod (A : Codec α) (B : Codec β) : Codec (α × β) where
  encode p := A.encode p.1 ++ B.encode p.2
  decode bs :=
    match A.decode bs with
    | .error e => .error e
    | .ok (a, bs) =>
        match B.decode bs with
        | .error e => .error e
        | .ok (b, rest) => .ok ((a, b), rest)
  fits p := A.fits p.1 && B.fits p.2
  decode_encode p rest h := by
    rw [Bool.and_eq_true] at h
    rw [List.append_assoc, A.decode_encode p.1 _ h.1]
    simp only [B.decode_encode p.2 rest h.2]
  encode_of_decode bs p rest h := by
    split at h
    · cases h
    · rename_i a mid hA
      split at h
      · cases h
      · rename_i b tail hB
        obtain ⟨rfl, rfl⟩ := Prod.mk.inj (Except.ok.inj h)
        obtain ⟨hfitA, rfl⟩ := A.encode_of_decode bs a mid hA
        obtain ⟨hfitB, rfl⟩ := B.encode_of_decode mid b tail hB
        exact ⟨by rw [hfitA, hfitB]; rfl, List.append_assoc _ _ _⟩

/-- The same format under another name for its values. -/
def map (A : Codec α) (e : α ≃ β) : Codec β where
  encode b := A.encode (e.symm b)
  decode bs :=
    match A.decode bs with
    | .error err => .error err
    | .ok (a, rest) => .ok (e a, rest)
  fits b := A.fits (e.symm b)
  decode_encode b rest h := by
    rw [A.decode_encode _ rest h]
    simp
  encode_of_decode bs b rest h := by
    split at h
    · cases h
    · rename_i a rest' hA
      obtain ⟨rfl, rfl⟩ := Prod.mk.inj (Except.ok.inj h)
      simpa using A.encode_of_decode bs a rest' hA

/-! ## Vectors -/

def decodeMany (A : Codec α) : ℕ → Bytes → Except DecodeError (List α × Bytes)
  | 0, bs => .ok ([], bs)
  | n + 1, bs =>
      match A.decode bs with
      | .error e => .error e
      | .ok (a, bs) =>
          match decodeMany A n bs with
          | .error e => .error e
          | .ok (as, rest) => .ok (a :: as, rest)

theorem decodeMany_encode (A : Codec α) (as : List α) (rest : Bytes)
    (h : ∀ a ∈ as, A.fits a) :
    decodeMany A as.length (as.flatMap A.encode ++ rest) = .ok (as, rest) := by
  induction as with
  | nil => rfl
  | cons a as ih =>
      have ha := A.decode_encode a (as.flatMap A.encode ++ rest) (h a List.mem_cons_self)
      have has := ih fun b hb ↦ h b (List.mem_cons_of_mem a hb)
      rw [List.flatMap_cons, List.append_assoc, List.length_cons, decodeMany, ha]
      simp only [has]

theorem decodeMany_ok (A : Codec α) (n : ℕ) (bs : Bytes) (as : List α) (rest : Bytes)
    (h : decodeMany A n bs = .ok (as, rest)) :
    as.length = n ∧ (∀ a ∈ as, A.fits a) ∧ as.flatMap A.encode ++ rest = bs := by
  induction n generalizing bs as with
  | zero =>
      obtain ⟨rfl, rfl⟩ := Prod.mk.inj (Except.ok.inj h)
      simp
  | succ n ih =>
      rw [decodeMany] at h
      split at h
      · cases h
      · rename_i a mid hA
        split at h
        · cases h
        · rename_i as' tail hmany
          obtain ⟨rfl, rfl⟩ := Prod.mk.inj (Except.ok.inj h)
          obtain ⟨hfit, rfl⟩ := A.encode_of_decode bs a mid hA
          obtain ⟨hlen, hfits, rfl⟩ := ih mid as' hmany
          refine ⟨by simp [hlen], ?_, by simp⟩
          intro b hb
          rcases List.mem_cons.mp hb with rfl | hb
          · exact hfit
          · exact hfits b hb

/-- A vector: its length as a `u32`, then its items. -/
def vec (A : Codec α) : Codec (List α) where
  encode as := Bytes.leBytes 4 as.length ++ as.flatMap A.encode
  decode bs :=
    match splitBytes 4 bs with
    | .error e => .error e
    | .ok (count, bs) => decodeMany A (Bytes.ofLeBytes count) bs
  fits as := decide (as.length < 2 ^ 32) && as.all A.fits
  decode_encode as rest h := by
    rw [Bool.and_eq_true, decide_eq_true_eq, List.all_eq_true] at h
    have hcount : Bytes.ofLeBytes (Bytes.leBytes 4 as.length) = as.length :=
      Bytes.ofLeBytes_leBytes_of_lt (lt_of_lt_of_eq h.1 (by decide))
    rw [List.append_assoc, splitBytes_append _ (Bytes.length_leBytes 4 as.length)]
    simp only [hcount]
    exact decodeMany_encode A as rest h.2
  encode_of_decode bs as rest h := by
    split at h
    · cases h
    · rename_i count tail hsplit
      obtain ⟨hlen, rfl⟩ := splitBytes_ok hsplit
      obtain ⟨hn, hfits, rfl⟩ := decodeMany_ok A _ tail as rest h
      have hlt := Bytes.ofLeBytes_lt count
      have hcount : Bytes.leBytes 4 as.length = count := by
        rw [hn, ← hlen, Bytes.leBytes_ofLeBytes]
      rw [hlen] at hlt
      refine ⟨?_, by rw [hcount, List.append_assoc]⟩
      rw [Bool.and_eq_true, decide_eq_true_eq, List.all_eq_true]
      exact ⟨by omega, hfits⟩

def bytes : Codec Bytes := vec u8

@[simp] theorem fits_bytes (bs : Bytes) : bytes.fits bs = decide (bs.length < 2 ^ 32) := by
  simp [bytes, vec, u8, fixed]

/-- A string: the length of its UTF-8 encoding as a `u32`, then the encoding. -/
def string : Codec String where
  encode s := bytes.encode (Bytes.utf8 s)
  decode bs :=
    match bytes.decode bs with
    | .error e => .error e
    | .ok (text, rest) =>
        match Bytes.fromUtf8 text with
        | none => .error .invalidUtf8
        | some s => .ok (s, rest)
  fits s := decide ((Bytes.utf8 s).length < 2 ^ 32)
  decode_encode s rest h := by
    rw [bytes.decode_encode _ rest ((fits_bytes _).trans h)]
    simp only [Bytes.fromUtf8_utf8]
  encode_of_decode bs s rest h := by
    split at h
    · cases h
    · rename_i text tail hbytes
      split at h
      · cases h
      · rename_i t hutf8
        obtain ⟨rfl, rfl⟩ := Prod.mk.inj (Except.ok.inj h)
        obtain ⟨hfit, rfl⟩ := bytes.encode_of_decode bs text tail hbytes
        rw [Bytes.utf8_of_fromUtf8 hutf8]
        exact ⟨(fits_bytes _).symm.trans hfit, rfl⟩

/-! ## Whole inputs -/

/-- Decoding of a whole byte string: nothing may be left over. -/
def fromSlice (A : Codec α) (bs : Bytes) : Except DecodeError α :=
  match A.decode bs with
  | .error e => .error e
  | .ok (a, []) => .ok a
  | .ok (_, _ :: _) => .error .notAllBytesRead

/-- A codec is a bijection between the values that fit and the byte strings
it accepts. -/
theorem fromSlice_eq_ok_iff (A : Codec α) (bs : Bytes) (a : α) :
    A.fromSlice bs = .ok a ↔ A.fits a ∧ A.encode a = bs := by
  constructor
  · intro h
    rw [fromSlice] at h
    split at h
    · cases h
    · rename_i b hdec
      obtain rfl := Except.ok.inj h
      simpa using A.encode_of_decode bs b [] hdec
    · cases h
  · rintro ⟨hfit, rfl⟩
    have h := A.decode_encode a [] hfit
    rw [List.append_nil] at h
    rw [fromSlice, h]

end Codec

end BeeEngine
