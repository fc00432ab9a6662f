import BeeEngine.EnvelopeText

/-!
# Envelopes with a key

`storage_encrypt` and `storage_decrypt`.
-/

namespace BeeEngine

open Outcome

namespace Storage

def storageEnvelopeVersion : String := "enc1"

def storageEncrypt (aead : Aead) (nonceBytes : Except String Nonce24) (plaintext : Bytes)
    (key : Bytes32) : Except AppError String := do
  let nonceBytes ← nonceBytes.mapError fun e ↦ .new ("Failed to generate nonce: " ++ e)
  match aead.encrypt ⟨key, nonceBytes.val, [], plaintext⟩ with
  | some ciphertext =>
      return storageEnvelopeVersion ++ ":" ++ Bytes.hexEncode nonceBytes.val ++ ":" ++
        Bytes.hexEncode ciphertext
  | none => .error sealingError

def parseStorageEnvelope (rest : String) : Except AppError (Bytes × Bytes) :=
  match splitColons 2 rest with
  | [nonceHex, ctHex] => do
      let nonceBytes ← decodeHexIn "Invalid nonce hex" nonceHex
      if nonceBytes.length ≠ 24 then
        .error (.new ("Invalid nonce length: expected 24, got " ++ toString nonceBytes.length))
      else do
        let ciphertext ← decodeHexIn "Invalid ciphertext hex" ctHex
        return (nonceBytes, ciphertext)
  | _ => .error (.new "Missing ciphertext in storage envelope")

def storageDecrypt (aead : Aead) (envelope : String) (key : Bytes32) : Except AppError String :=
  match Text.stripPrefix "enc1:" envelope with
  | none => .error (.new "Unknown storage envelope version")
  | some rest => do
      let (nonceBytes, ciphertext) ← parseStorageEnvelope rest
      match aead.decrypt key nonceBytes [] ciphertext with
      | some plaintext => decodeUtf8In "Decrypted data is not valid UTF-8" plaintext
      | none => .error (.new "Storage decryption failed: wrong key or tampered data")

/-! ## What is read -/

/-- The text is a tag and hexadecimal fields for the given bytes. -/
def Reads (text tag : String) (nonce ciphertext : Bytes) : Prop :=
  ∃ nonceHex ctHex, text = tag ++ ":" ++ (nonceHex ++ ":" ++ ctHex) ∧
    Bytes.hexDecode nonceHex = .ok nonce ∧ Bytes.hexDecode ctHex = .ok ciphertext

variable {text tag rest plaintext : String} {nonce ciphertext nonce' ciphertext' : Bytes}
  {key : Bytes32} {aead : Aead}

theorem parseStorageEnvelope_eq_ok_iff :
    parseStorageEnvelope rest = .ok (nonce, ciphertext) ↔
      (∃ nonceHex ctHex, rest = nonceHex ++ ":" ++ ctHex ∧
        Bytes.hexDecode nonceHex = .ok nonce ∧ Bytes.hexDecode ctHex = .ok ciphertext) ∧
        nonce.length = 24 := by
  rw [parseStorageEnvelope]
  constructor
  · intro h
    split at h
    · rename_i nonceHex ctHex hsplit
      obtain ⟨-, hrest⟩ := splitColons_eq_pair_iff.mp hsplit
      obtain ⟨nonce', hnonce, h⟩ := bind_eq_ok_iff.mp h
      split at h
      · cases h
      · rename_i hnonceLength
        obtain ⟨ciphertext', hciphertext, h⟩ := bind_eq_ok_iff.mp h
        cases h
        exact ⟨⟨nonceHex, ctHex, hrest, decodeHexIn_eq_ok_iff.mp hnonce,
          decodeHexIn_eq_ok_iff.mp hciphertext⟩, not_not.mp hnonceLength⟩
    · cases h
  · rintro ⟨⟨nonceHex, ctHex, hrest, hnonce, hciphertext⟩, hnonceLength⟩
    rw [splitColons_eq_pair_iff.mpr ⟨colon_notMem hnonce, hrest⟩]
    refine bind_eq_ok_iff.mpr ⟨nonce, decodeHexIn_eq_ok_iff.mpr hnonce, ?_⟩
    rw [if_neg (not_not.mpr hnonceLength)]
    exact bind_eq_ok_iff.mpr ⟨ciphertext, decodeHexIn_eq_ok_iff.mpr hciphertext, rfl⟩

theorem Reads.eq (h : Reads text tag nonce ciphertext) (h' : Reads text tag nonce' ciphertext') :
    nonce = nonce' ∧ ciphertext = ciphertext' := by
  obtain ⟨a, b, rfl, ha, hb⟩ := h
  obtain ⟨a', b', htext, ha', hb'⟩ := h'
  have hrest := (String.append_right_inj _).mp htext
  have hsplit : splitColons 2 (a ++ ":" ++ b) = [a, b] :=
    splitColons_eq_pair_iff.mpr ⟨colon_notMem ha, rfl⟩
  rw [splitColons_eq_pair_iff.mpr ⟨colon_notMem ha', hrest⟩] at hsplit
  simp only [List.cons.injEq, and_true] at hsplit
  obtain ⟨rfl, rfl⟩ := hsplit
  exact ⟨Except.ok.inj (ha.symm.trans ha'), Except.ok.inj (hb.symm.trans hb')⟩

/-! ## What opens -/

theorem storageDecrypt_eq_ok_iff :
    storageDecrypt aead text key = .ok plaintext ↔
      ∃ nonce ciphertext, Reads text storageEnvelopeVersion nonce ciphertext ∧ nonce.length = 24 ∧
        aead.decrypt key nonce [] ciphertext = some (Bytes.utf8 plaintext) := by
  have hopen (nonce ciphertext : Bytes) :
      (match aead.decrypt key nonce [] ciphertext with
        | some plaintext => decodeUtf8In "Decrypted data is not valid UTF-8" plaintext
        | none => .error (.new "Storage decryption failed: wrong key or tampered data")) =
          .ok plaintext ↔
        aead.decrypt key nonce [] ciphertext = some (Bytes.utf8 plaintext) := by
    cases aead.decrypt key nonce [] ciphertext with
    | none => simp
    | some bs => exact decodeUtf8In_eq_ok_iff.trans (Option.some.injEq _ _).symm.to_iff
  rw [storageDecrypt]
  constructor
  · intro h
    split at h
    · cases h
    · rename_i rest hstrip
      simp only [bind_eq_ok_iff, Prod.exists, hopen] at h
      obtain ⟨nonce, ciphertext, hparse, h⟩ := h
      obtain ⟨⟨nonceHex, ctHex, hrest, hfields⟩, hnonceLength⟩ :=
        parseStorageEnvelope_eq_ok_iff.mp hparse
      have htext : text = storageEnvelopeVersion ++ ":" ++ rest := stripPrefix_tag_iff.mp hstrip
      exact ⟨nonce, ciphertext, ⟨nonceHex, ctHex, by rw [htext, hrest], hfields⟩, hnonceLength, h⟩
  · rintro ⟨nonce, ciphertext, ⟨nonceHex, ctHex, htext, hfields⟩, hnonceLength, h⟩
    have hstrip : Text.stripPrefix "enc1:" text = some (nonceHex ++ ":" ++ ctHex) :=
      stripPrefix_tag_iff.mpr htext
    rw [hstrip]
    simp only [bind_eq_ok_iff, Prod.exists, hopen]
    exact ⟨nonce, ciphertext, parseStorageEnvelope_eq_ok_iff.mpr
      ⟨⟨nonceHex, ctHex, rfl, hfields⟩, hnonceLength⟩, h⟩

theorem storageDecrypt_unknown (htag : ':' ∉ tag.toList) (h : tag ≠ storageEnvelopeVersion) :
    storageDecrypt aead (tag ++ ":" ++ rest) key =
      .error (.new "Unknown storage envelope version") := by
  have hstrip : Text.stripPrefix "enc1:" (tag ++ ":" ++ rest) = none :=
    stripPrefix_tag_eq_none h.symm (by decide) htag
  rw [storageDecrypt, hstrip]

/-! ## What is sealed -/

def envelopeText (nonce ciphertext : Bytes) : String :=
  storageEnvelopeVersion ++ ":" ++ Bytes.hexEncode nonce ++ ":" ++ Bytes.hexEncode ciphertext

theorem reads_envelopeText :
    Reads (envelopeText nonce ciphertext) storageEnvelopeVersion nonce ciphertext := by
  refine ⟨_, _, ?_, Bytes.hexDecode_hexEncode nonce, Bytes.hexDecode_hexEncode ciphertext⟩
  simp only [envelopeText, String.append_assoc]

theorem storageEncrypt_eq_ok_iff {nonce : Nonce24} {bs : Bytes} :
    storageEncrypt aead (.ok nonce) bs key = .ok text ↔
      ∃ ciphertext, aead.encrypt ⟨key, nonce.val, [], bs⟩ = some ciphertext ∧
        text = envelopeText nonce.val ciphertext := by
  rw [storageEncrypt]
  simp only [Except.mapError, ok_bind]
  cases aead.encrypt ⟨key, nonce.val, [], bs⟩ with
  | none => simp
  | some ciphertext =>
      simp only [Option.some.injEq, exists_eq_left']
      exact ⟨fun h ↦ (Except.ok.inj h).symm, fun h ↦ congrArg Except.ok h.symm⟩

/-! ## What is claimed -/

/-- An envelope that one of the calls made. -/
def Genuine (aead : Aead) (calls : Set Sealing) (key : Bytes32) (envelope : String) : Prop :=
  ∃ (nonce : Nonce24) (plaintext : String),
    storageEncrypt aead (.ok nonce) (Bytes.utf8 plaintext) key = .ok envelope ∧
      ⟨key, nonce.val, [], Bytes.utf8 plaintext⟩ ∈ calls

structure Sound (aead : Aead) : Prop where
  round_trip : ∀ {plaintext : String} {key : Bytes32} {nonce : Nonce24} {envelope : String},
    aead.Opens ⟨key, nonce.val, [], Bytes.utf8 plaintext⟩ →
    storageEncrypt aead (.ok nonce) (Bytes.utf8 plaintext) key = .ok envelope →
    storageDecrypt aead envelope key = .ok plaintext
  strict : ∀ {text plaintext : String} {key : Bytes32},
    storageDecrypt aead text key = .ok plaintext →
    ∃ nonceHex ctHex n, text = "enc1:" ++ nonceHex ++ ":" ++ ctHex ∧ Bytes.IsHex 24 nonceHex ∧
      Bytes.IsHex n ctHex ∧ 16 ≤ n
  authentic : ∀ {calls : Set Sealing}, aead.IdealFor calls →
    ∀ {text plaintext : String} {key : Bytes32} {nonce ciphertext : Bytes},
    Reads text storageEnvelopeVersion nonce ciphertext →
    storageDecrypt aead text key = .ok plaintext →
    ∃ envelope, Genuine aead calls key envelope ∧
      Reads envelope storageEnvelopeVersion nonce ciphertext
  /-- Either the ciphertext is changed, or the nonce. -/
  tampered : ∀ {calls : Set Sealing}, aead.IdealFor calls →
    ∀ {key : Bytes32} {envelope : String} {nonce ciphertext : Bytes},
    Genuine aead calls key envelope → Reads envelope storageEnvelopeVersion nonce ciphertext →
    ∀ {text : String} {nonce' ciphertext' : Bytes},
    Reads text storageEnvelopeVersion nonce' ciphertext' →
    ciphertext' = ciphertext ∨ nonce' = nonce → (nonce', ciphertext') ≠ (nonce, ciphertext) →
    ∃ e, storageDecrypt aead text key = .error e
  tag_unknown : ∀ {tag rest : String} {key : Bytes32}, ':' ∉ tag.toList →
    tag ≠ storageEnvelopeVersion → ∃ e, storageDecrypt aead (tag ++ ":" ++ rest) key = .error e

theorem sound (htagged : aead.Tagged) : Sound aead where
  round_trip := by
    intro plaintext key nonce envelope hopens hencrypt
    obtain ⟨ciphertext, hseal, rfl⟩ := storageEncrypt_eq_ok_iff.mp hencrypt
    exact storageDecrypt_eq_ok_iff.mpr
      ⟨nonce.val, ciphertext, reads_envelopeText, nonce.property, hopens ciphertext hseal⟩
  strict := by
    intro text plaintext key h
    obtain ⟨nonce, ciphertext, ⟨nonceHex, ctHex, htext, hnonce, hciphertext⟩, hnonceLength,
      hopen⟩ := storageDecrypt_eq_ok_iff.mp h
    refine ⟨nonceHex, ctHex, ciphertext.length, ?_,
      Bytes.hexDecode_iff.mp ⟨nonce, hnonce, hnonceLength⟩,
      Bytes.hexDecode_iff.mp ⟨ciphertext, hciphertext, rfl⟩, ?_⟩
    · rw [htext, storageEnvelopeVersion, ← String.append_assoc, ← String.append_assoc]
      rfl
    · apply htagged key nonce [] ciphertext
      rw [hopen]
      exact Option.some_ne_none _
  authentic := by
    intro calls hideal text plaintext key nonce ciphertext hreads h
    obtain ⟨nonce', ciphertext', hreads', hnonce, hopen⟩ := storageDecrypt_eq_ok_iff.mp h
    obtain ⟨rfl, rfl⟩ := hreads.eq hreads'
    obtain ⟨hcall, hseal⟩ := hideal.authentic hopen
    have hencrypt : storageEncrypt aead (.ok ⟨nonce, hnonce⟩) (Bytes.utf8 plaintext) key =
        .ok (envelopeText nonce ciphertext) := storageEncrypt_eq_ok_iff.mpr ⟨_, hseal, rfl⟩
    exact ⟨_, ⟨⟨nonce, hnonce⟩, plaintext, hencrypt, hcall⟩, reads_envelopeText⟩
  tampered := by
    intro calls hideal key envelope nonce ciphertext hgenuine hreads text nonce' ciphertext'
      hreads' hkept hchanged
    obtain ⟨nonce₀, plaintext, hencrypt, hcall⟩ := hgenuine
    obtain ⟨ciphertext₀, hseal, rfl⟩ := storageEncrypt_eq_ok_iff.mp hencrypt
    obtain ⟨rfl, rfl⟩ := reads_envelopeText.eq hreads
    cases h : storageDecrypt aead text key with
    | error e => exact ⟨e, rfl⟩
    | ok plaintext' =>
        obtain ⟨nonce₁, ciphertext₁, hreads₁, -, hopen⟩ := storageDecrypt_eq_ok_iff.mp h
        obtain ⟨rfl, rfl⟩ := hreads'.eq hreads₁
        obtain ⟨rfl, hsame⟩ :=
          hideal.eq_of_decrypt hcall hseal hopen (hkept.imp id fun hnonce ↦ ⟨rfl, hnonce⟩)
        obtain ⟨-, rfl, -, -⟩ := Sealing.mk.inj hsame
        exact absurd rfl hchanged
  tag_unknown htag h := ⟨_, storageDecrypt_unknown htag h⟩

end Storage

end BeeEngine
