import BeeEngine.Lib.Aead
import BeeEngine.Lib.XChaCha

/-!
# Authenticated encryption of recorded calls

A cipher is ideal for the calls that were made if nothing opens but what they
sealed.  No two calls share a key and a nonce, and no two gave one ciphertext.
-/

namespace BeeEngine

structure Aead where
  /-- No ciphertext is made of a message that is too long. -/
  encrypt : Sealing → Option Bytes
  decrypt : (key : Bytes32) → (nonce aad ciphertext : Bytes) → Option Bytes

namespace Aead

variable {aead : Aead} {calls : Set Sealing} {q : Sealing} {key : Bytes32}
  {nonce aad msg ciphertext ciphertext' : Bytes}

/-- What a call sealed opens again. -/
def Opens (aead : Aead) (q : Sealing) : Prop :=
  ∀ ciphertext, aead.encrypt q = some ciphertext →
    aead.decrypt q.key q.nonce q.aad ciphertext = some q.msg

/-- A ciphertext ends with a tag of 16 bytes. -/
def Tagged (aead : Aead) : Prop :=
  ∀ key nonce aad ciphertext, aead.decrypt key nonce aad ciphertext ≠ none → 16 ≤ ciphertext.length

structure IdealFor (aead : Aead) (calls : Set Sealing) : Prop where
  authentic : ∀ {key nonce aad msg ciphertext},
    aead.decrypt key nonce aad ciphertext = some msg →
    ⟨key, nonce, aad, msg⟩ ∈ calls ∧ aead.encrypt ⟨key, nonce, aad, msg⟩ = some ciphertext
  fresh : ∀ {q q'}, q ∈ calls → q' ∈ calls → q.key = q'.key → q.nonce = q'.nonce → q = q'
  separate : ∀ {q q' ciphertext}, q ∈ calls → q' ∈ calls →
    aead.encrypt q = some ciphertext → aead.encrypt q' = some ciphertext → q = q'

/-- What opens and shares the ciphertext or the key and the nonce with a call is
what that call sealed. -/
theorem IdealFor.eq_of_decrypt (h : aead.IdealFor calls) (hq : q ∈ calls)
    (hseal : aead.encrypt q = some ciphertext)
    (hopen : aead.decrypt key nonce aad ciphertext' = some msg)
    (hshare : ciphertext' = ciphertext ∨ key = q.key ∧ nonce = q.nonce) :
    ciphertext' = ciphertext ∧ q = ⟨key, nonce, aad, msg⟩ := by
  obtain ⟨hcall, hseal'⟩ := h.authentic hopen
  rcases hshare with rfl | ⟨hkey, hnonce⟩
  · exact ⟨rfl, h.separate hq hcall hseal hseal'⟩
  · have hsame := h.fresh hq hcall hkey.symm hnonce.symm
    rw [hsame, hseal'] at hseal
    exact ⟨Option.some.inj hseal, hsame⟩

/-! ## A cipher that remembers -/

variable {cipher : Sealing → Bytes} {known : List Sealing}

/-- Seals with a given cipher, and opens what the known calls sealed. -/
def recorded (cipher : Sealing → Bytes) (known : List Sealing) : Aead where
  encrypt q := some (cipher q)
  decrypt key nonce aad ciphertext :=
    (known.find? fun q ↦ q.key = key ∧ q.nonce = nonce ∧ q.aad = aad ∧ cipher q = ciphertext).map
      Sealing.msg

theorem mem_of_decrypt_recorded
    (h : (recorded cipher known).decrypt key nonce aad ciphertext = some msg) :
    ⟨key, nonce, aad, msg⟩ ∈ known ∧ cipher ⟨key, nonce, aad, msg⟩ = ciphertext := by
  obtain ⟨q, hfind, rfl⟩ := Option.map_eq_some_iff.mp h
  have hq : q.key = key ∧ q.nonce = nonce ∧ q.aad = aad ∧ cipher q = ciphertext := by
    simpa using List.find?_some hfind
  obtain ⟨rfl, rfl, rfl, hcipher⟩ := hq
  exact ⟨List.mem_of_find?_eq_some hfind, hcipher⟩

theorem tagged_recorded (h : ∀ q, 16 ≤ (cipher q).length) : (recorded cipher known).Tagged := by
  intro key nonce aad ciphertext hopen
  obtain ⟨msg, hmsg⟩ := Option.ne_none_iff_exists'.mp hopen
  obtain ⟨-, rfl⟩ := mem_of_decrypt_recorded hmsg
  exact h _

theorem idealFor_recorded
    (hfresh : ∀ q ∈ known, ∀ q' ∈ known, q.key = q'.key → q.nonce = q'.nonce → q = q')
    (hseparate : ∀ q ∈ known, ∀ q' ∈ known, cipher q = cipher q' → q = q') :
    (recorded cipher known).IdealFor {q | q ∈ known} where
  authentic h := by
    obtain ⟨hq, hcipher⟩ := mem_of_decrypt_recorded h
    exact ⟨hq, congrArg some hcipher⟩
  fresh hq hq' hkey hnonce := hfresh _ hq _ hq' hkey hnonce
  separate hq hq' hseal hseal' :=
    hseparate _ hq _ hq' (Option.some.inj (hseal.trans hseal'.symm))

theorem opens_recorded
    (hfresh : ∀ q ∈ known, ∀ q' ∈ known, q.key = q'.key → q.nonce = q'.nonce → q = q')
    (hq : q ∈ known) : (recorded cipher known).Opens q := by
  rintro ciphertext hseal
  obtain rfl := Option.some.inj hseal
  cases hopen : (recorded cipher known).decrypt q.key q.nonce q.aad (cipher q) with
  | none => simpa using List.find?_eq_none.mp (Option.map_eq_none_iff.mp hopen) q hq
  | some msg =>
      obtain ⟨hmem, -⟩ := mem_of_decrypt_recorded hopen
      rw [hfresh q hq _ hmem rfl rfl]

end Aead

/-- XChaCha20-Poly1305 puts its tag at the end. -/
theorem XChaCha.le_length_encrypt (key : Bytes32) (nonce aad msg : Bytes) :
    16 ≤ (XChaCha.encrypt key nonce aad msg).length := by
  simp [XChaCha.encrypt, XChaCha.poly1305]

end BeeEngine
