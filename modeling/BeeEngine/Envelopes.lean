import BeeEngine.Chacha
import BeeEngine.StorageEnvelope

/-!
# Encrypted envelopes

No text belongs to two versions of envelopes, each of which is sound.
-/

namespace BeeEngine

def versions : List String := ["v3", "v2", "v1", Storage.storageEnvelopeVersion]

/-- No text has the tags of two versions. -/
theorem eq_of_stripPrefix {text tag tag' : String} (htag : tag ∈ versions)
    (htag' : tag' ∈ versions) (h : (Text.stripPrefix (tag ++ ":") text).isSome)
    (h' : (Text.stripPrefix (tag' ++ ":") text).isSome) : tag = tag' := by
  have hcolon : ∀ tag ∈ versions, ':' ∉ tag.toList := by decide
  obtain ⟨rest, hrest⟩ := Option.isSome_iff_exists.mp h
  obtain ⟨rest', hrest'⟩ := Option.isSome_iff_exists.mp h'
  obtain rfl := stripPrefix_tag_iff.mp hrest
  by_contra hne
  rw [stripPrefix_tag_eq_none (Ne.symm hne) (hcolon _ htag') (hcolon _ htag)] at hrest'
  cases hrest'

/-- On either target, by its derivation of keys. -/
theorem envelopes_sound {pbkdf2 : Pbkdf2Hmac} {derive : DeriveKey} (aead : Aead)
    (legacy : Chacha.LegacyCrypto) (hderive : DerivesKeys derive pbkdf2)
    (hsalts : Chacha.InjectiveInSalts pbkdf2) (htagged : aead.Tagged) :
    Chacha.Sound derive aead legacy pbkdf2 ∧ Storage.Sound aead ∧
      ∀ text, ∀ tag ∈ versions, ∀ tag' ∈ versions,
        (Text.stripPrefix (tag ++ ":") text).isSome →
        (Text.stripPrefix (tag' ++ ":") text).isSome → tag = tag' :=
  ⟨Chacha.sound hderive hsalts htagged, Storage.sound htagged,
    fun _ _ htag _ htag' h h' ↦ eq_of_stripPrefix htag htag' h h'⟩

/-! ## An envelope -/

def envelopeSalt : Bytes32 := ⟨List.replicate 32 7, rfl⟩

def envelopeNonce : Nonce24 := ⟨List.replicate 24 9, rfl⟩

/-- PBKDF2 of `correct horse` and the salt, with 100000 rounds. -/
def envelopeKey : Bytes32 where
  bytes := [0x6d, 0x25, 0x99, 0xc5, 0xd4, 0x8c, 0xaf, 0x5c, 0x0f, 0x9d, 0x07, 0xc9, 0x89, 0x9b,
    0x60, 0x42, 0x4e, 0xfc, 0x6f, 0x3f, 0x82, 0x7f, 0x50, 0x45, 0xe7, 0xad, 0x69, 0x61, 0x09,
    0x4d, 0x7d, 0xd2]
  length_eq := rfl

/-- Exchanges the salt and its key, and keeps other salts. -/
def exchangingPbkdf2 : Pbkdf2Hmac := fun _ salt _ ↦
  Equiv.swap envelopeSalt envelopeKey ((Bytes32.ofSlice? salt).getD envelopeSalt)

theorem injectiveInSalts_exchangingPbkdf2 : Chacha.InjectiveInSalts exchangingPbkdf2 := by
  intro password salt salt' h
  simpa [exchangingPbkdf2] using h

def envelopeSealing : Sealing := ⟨envelopeKey, envelopeNonce.val, [], Bytes.utf8 "secret"⟩

theorem sealing_correctHorse : Chacha.sealing exchangingPbkdf2 "correct horse" "secret"
    envelopeSalt.bytes envelopeNonce.val = envelopeSealing := by
  have hkey : exchangingPbkdf2 (Bytes.utf8 "correct horse") envelopeSalt.bytes pbkdf2Iterations =
      envelopeKey := by
    rw [exchangingPbkdf2, Bytes32.ofSlice?_bytes, Option.getD_some, Equiv.swap_apply_left]
  rw [Chacha.sealing, hkey]
  rfl

/-- Opens what was sealed in the one call. -/
def envelopeAead : Aead :=
  .recorded (fun q ↦ XChaCha.encrypt q.key q.nonce q.aad q.msg) [envelopeSealing]

def noLegacy : Chacha.LegacyCrypto where
  chacha20 _ _ _ := .error (.new "Wrong key size")
  b64StdDecode _ := .error "Invalid padding"

theorem envelopes_sound_correctHorse :
    ∃ envelope,
      Chacha.encrypt (Native.deriveKeyPbkdf2WithRounds exchangingPbkdf2) envelopeAead
        (.ok envelopeSalt) (.ok envelopeNonce) "secret" "correct horse" = .ok envelope ∧
      Chacha.decrypt (Native.deriveKeyPbkdf2WithRounds exchangingPbkdf2) envelopeAead noLegacy
        ⟨envelope, "correct horse"⟩ = .ok "secret" ∧
      ∃ e, Chacha.decrypt (Native.deriveKeyPbkdf2WithRounds exchangingPbkdf2) envelopeAead noLegacy
        ⟨Chacha.envelopeText "v3" envelopeSalt.bytes envelopeNonce.val [], "correct horse"⟩ =
          .error e := by
  obtain ⟨hsound, -, -⟩ := envelopes_sound envelopeAead noLegacy
    (derivesKeys_native exchangingPbkdf2) injectiveInSalts_exchangingPbkdf2
    (Aead.tagged_recorded fun _ ↦ XChaCha.le_length_encrypt _ _ _ _)
  have hopens : envelopeAead.Opens envelopeSealing :=
    Aead.opens_recorded (by simp) (List.mem_singleton_self _)
  have hideal : envelopeAead.IdealFor {q | q ∈ [envelopeSealing]} :=
    Aead.idealFor_recorded (by simp) (by simp)
  rw [← sealing_correctHorse] at hopens
  have hencrypt := (Chacha.encrypt_eq_ok_iff (derivesKeys_native exchangingPbkdf2)).mpr
    ⟨_, congrArg envelopeAead.encrypt sealing_correctHorse, rfl⟩
  refine ⟨_, hencrypt, hsound.round_trip hopens hencrypt, ?_⟩
  refine hsound.tampered hideal ⟨_, _, _, hencrypt, ?_⟩ Chacha.reads_envelopeText (.inr rfl)
    Chacha.reads_envelopeText (.inr ⟨rfl, rfl⟩) ?_
  · rw [sealing_correctHorse]
    exact List.mem_singleton_self _
  · intro h
    have hlength := XChaCha.le_length_encrypt envelopeKey envelopeNonce.val [] (Bytes.utf8 "secret")
    have hempty := (Prod.mk.inj (Prod.mk.inj h).2).2
    rw [show XChaCha.encrypt envelopeKey envelopeNonce.val [] (Bytes.utf8 "secret") = [] from
      hempty.symm] at hlength
    exact absurd hlength (by decide)

end BeeEngine
