import BeeEngine.Lib.Bytes

/-!
# Ideal authenticated encryption

A cipher with associated data, of which nothing is known but that a ciphertext
opens for the key, the nonce and the data it was made with, and for no others.
-/

namespace BeeEngine

structure IdealAead where
  /-- No ciphertext is made of a message that is too long. -/
  encrypt : (key : Bytes32) → (nonce aad msg : Bytes) → Option Bytes
  decrypt : (key : Bytes32) → (nonce aad ciphertext : Bytes) → Option Bytes
  decrypt_of_encrypt : ∀ {key nonce aad msg ciphertext},
    encrypt key nonce aad msg = some ciphertext → decrypt key nonce aad ciphertext = some msg
  encrypt_of_decrypt : ∀ {key nonce aad msg ciphertext},
    decrypt key nonce aad ciphertext = some msg → encrypt key nonce aad msg = some ciphertext
  encrypt_injective : ∀ {key key' nonce nonce' aad aad' msg msg' ciphertext},
    encrypt key nonce aad msg = some ciphertext →
    encrypt key' nonce' aad' msg' = some ciphertext →
    key = key' ∧ nonce = nonce' ∧ aad = aad' ∧ msg = msg'

namespace IdealAead

variable {aead : IdealAead} {key key' : Bytes32} {nonce nonce' aad aad' msg msg' ciphertext : Bytes}

/-- What opens is what was sealed, with the same key, nonce and data. -/
theorem eq_of_decrypt (hseal : aead.encrypt key nonce aad msg = some ciphertext)
    (hopen : aead.decrypt key' nonce' aad' ciphertext = some msg') :
    key = key' ∧ nonce = nonce' ∧ aad = aad' ∧ msg = msg' :=
  aead.encrypt_injective hseal (aead.encrypt_of_decrypt hopen)

end IdealAead

/-! ## Ciphers that agree with a given one -/

/-- What goes into a ciphertext. -/
structure Sealing where
  key : Bytes32
  nonce : Bytes
  aad : Bytes
  msg : Bytes
  deriving DecidableEq

namespace IdealAead

/-- A cipher of which everything can be read back. -/
def ofReadable (enclose : Sealing → Bytes) (disclose : Bytes → Option Sealing)
    (h : ∀ q, disclose (enclose q) = some q) : IdealAead where
  encrypt key nonce aad msg := some (enclose ⟨key, nonce, aad, msg⟩)
  decrypt key nonce aad ciphertext :=
    match disclose ciphertext with
    | some q =>
        if q.key = key ∧ q.nonce = nonce ∧ q.aad = aad ∧ enclose q = ciphertext then some q.msg
        else none
    | none => none
  decrypt_of_encrypt := by
    rintro key nonce aad msg ciphertext hseal
    obtain rfl := Option.some.inj hseal
    simp [h]
  encrypt_of_decrypt := by
    rintro key nonce aad msg ciphertext hopen
    split at hopen
    · rename_i q hq
      split at hopen
      · rename_i hsame
        obtain ⟨rfl, rfl, rfl, hseal⟩ := hsame
        obtain rfl := Option.some.inj hopen
        exact congrArg some hseal
      · cases hopen
    · cases hopen
  encrypt_injective := by
    rintro key key' nonce nonce' aad aad' msg msg' ciphertext hseal hseal'
    obtain rfl := Option.some.inj hseal
    have hsame := h ⟨key', nonce', aad', msg'⟩
    rw [Option.some.inj hseal', h] at hsame
    exact Sealing.mk.inj (Option.some.inj hsame)

/-- A byte string after its length. -/
def frame (bs : Bytes) : Bytes := List.replicate bs.length 1 ++ 0 :: bs

def unframe : ℕ → Bytes → Option (Bytes × Bytes)
  | n, 1 :: rest => unframe (n + 1) rest
  | n, 0 :: rest => some (rest.take n, rest.drop n)
  | _, _ => none

theorem unframe_replicate (n k : ℕ) (rest : Bytes) :
    unframe k (List.replicate n 1 ++ 0 :: rest) = some (rest.take (k + n), rest.drop (k + n)) := by
  induction n generalizing k with
  | zero => rfl
  | succ n ih =>
      rw [List.replicate_succ, List.cons_append, unframe, ih, Nat.add_right_comm, Nat.add_assoc]

theorem unframe_frame (bs rest : Bytes) : unframe 0 (frame bs ++ rest) = some (bs, rest) := by
  rw [frame, List.append_assoc, List.cons_append, unframe_replicate, Nat.zero_add, List.take_left,
    List.drop_left]

/-- A ciphertext that shows all that went into it, after a zero byte. -/
def transparent (q : Sealing) : Bytes :=
  0 :: (q.key.bytes ++ (frame q.nonce ++ (frame q.aad ++ q.msg)))

def readTransparent : Bytes → Option Sealing
  | 0 :: rest => do
      let key ← Bytes32.ofSlice? (rest.take 32)
      let (nonce, rest) ← unframe 0 (rest.drop 32)
      let (aad, msg) ← unframe 0 rest
      return ⟨key, nonce, aad, msg⟩
  | _ => none

theorem readTransparent_transparent (q : Sealing) : readTransparent (transparent q) = some q := by
  rw [transparent, readTransparent, List.take_left' q.key.length_eq,
    List.drop_left' q.key.length_eq, Bytes32.ofSlice?_bytes]
  simp only [Option.bind_eq_bind, Option.bind_some, unframe_frame]
  rfl

variable (cipher : Sealing → Bytes) (known : List Sealing)

def encloseKnown (q : Sealing) : Bytes := if q ∈ known then cipher q else transparent q

def discloseKnown (ciphertext : Bytes) : Option Sealing :=
  match known.find? fun q ↦ cipher q = ciphertext with
  | some q => some q
  | none => readTransparent ciphertext

variable {cipher known}

theorem discloseKnown_encloseKnown (hnodup : (known.map cipher).Nodup)
    (hhead : ∀ q ∈ known, (cipher q).head? ≠ some 0) (q : Sealing) :
    discloseKnown cipher known (encloseKnown cipher known q) = some q := by
  rw [encloseKnown, discloseKnown]
  split_ifs with hq
  · cases hfind : known.find? fun q' ↦ cipher q' = cipher q with
    | none => simpa using List.find?_eq_none.mp hfind q hq
    | some q' =>
        have hsame : cipher q' = cipher q := by simpa using List.find?_some hfind
        rw [List.inj_on_of_nodup_map hnodup (List.mem_of_find?_eq_some hfind) hq hsame]
  · cases hfind : known.find? fun q' ↦ cipher q' = transparent q with
    | none => exact readTransparent_transparent q
    | some q' =>
        have hsame : cipher q' = transparent q := by simpa using List.find?_some hfind
        exact absurd (congrArg List.head? hsame) (hhead q' (List.mem_of_find?_eq_some hfind))

/-- The ideal cipher that gives the ciphertexts of `cipher` on the known
inputs. -/
def recorded (hnodup : (known.map cipher).Nodup)
    (hhead : ∀ q ∈ known, (cipher q).head? ≠ some 0) : IdealAead :=
  ofReadable (encloseKnown cipher known) (discloseKnown cipher known)
    (discloseKnown_encloseKnown hnodup hhead)

end IdealAead

end BeeEngine
