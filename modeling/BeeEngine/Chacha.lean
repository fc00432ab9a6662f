import BeeEngine.EnvelopeText

/-!
# Envelopes with a password

`encrypt`, and `decrypt` of three versions of envelopes.
-/

namespace BeeEngine

open Outcome

namespace Chacha

def legacyPbkdf2Iterations : ℕ := 100000

def toKey (keyHex : String) : Except AppError Bytes32 := do
  let keyVec ← decodeHexIn "Failed to decode derived key" keyHex
  match Bytes32.ofSlice? keyVec with
  | some key => return key
  | none => .error (.new "Derived key must be 32 bytes")

def aeadEncrypt (aead : Aead) (plaintext : Bytes) (keyHex : String) (salt nonce : Bytes)
    (versionTag : String) : Except AppError String := do
  let keyBytes ← toKey keyHex
  match aead.encrypt ⟨keyBytes, nonce, [], plaintext⟩ with
  | some ciphertext =>
      return versionTag ++ ":" ++ Bytes.hexEncode salt ++ ":" ++ Bytes.hexEncode nonce ++ ":" ++
        Bytes.hexEncode ciphertext
  | none => .error sealingError

def aeadDecrypt (aead : Aead) (keyHex : String) (nonce ciphertext : Bytes) :
    Except AppError String := do
  let keyBytes ← toKey keyHex
  match aead.decrypt keyBytes nonce [] ciphertext with
  | some plaintext => decodeUtf8In "result decryption failure" plaintext
  | none =>
      .error (.new "Decryption failed: authentication tag mismatch (data may be tampered)")

def parseAeadEnvelope (rest : String) : Except AppError (Bytes × Bytes × Bytes) :=
  match splitColons 3 rest with
  | [saltHex, nonceHex, ciphertextHex] => do
      let salt ← decodeHexIn "Failed to decode salt" saltHex
      if salt.length ≠ 32 then
        .error (.new ("Invalid salt length: expected 32, got " ++ toString salt.length))
      else do
        let nonce ← decodeHexIn "Failed to decode nonce" nonceHex
        if nonce.length ≠ 24 then
          .error (.new ("Invalid nonce length: expected 24, got " ++ toString nonce.length))
        else do
          let ciphertext ← decodeHexIn "Failed to decode ciphertext" ciphertextHex
          return (salt, nonce, ciphertext)
  | _ => .error (.new "Invalid envelope format")

/-- The nonce and the ciphertext stay text. -/
def parseV1Envelope (rest : String) : Except AppError (Bytes × String × String) :=
  match splitColons 3 rest with
  | [saltHex, nonceHex, ciphertext] =>
      if nonceHex.utf8ByteSize ≠ 24 then
        .error (.new ("Invalid v1 nonce length: expected 24 hex chars, got " ++
          toString nonceHex.utf8ByteSize))
      else do
        let saltBytes ← decodeHexIn "Failed to decode salt hex" saltHex
        if saltBytes.length ≠ 16 then
          .error (.new ("Invalid v1 salt length: expected 16, got " ++ toString saltBytes.length))
        else return (saltBytes, nonceHex, ciphertext)
  | _ => .error (.new "Invalid envelope format")

/-- The salt and the nonce are what `getrandom` filled in, or its errors. -/
def encrypt (derive : DeriveKey) (aead : Aead) (salt : Except String Bytes32)
    (nonce : Except String Nonce24) (plaintext password : String) : Except AppError String := do
  let salt ← salt.mapError fun e ↦ .new ("Failed to generate salt: " ++ e)
  let nonce ← nonce.mapError fun e ↦ .new ("Failed to generate nonce: " ++ e)
  let keyHex ← derive (Bytes.utf8 password) salt.bytes pbkdf2Iterations
  aeadEncrypt aead (Bytes.utf8 plaintext) keyHex salt.bytes nonce.val "v3"

/-- What the oldest envelopes need of the client and of the base64 crate. -/
structure LegacyCrypto where
  chacha20 : (data key nonce : String) → Except AppError String
  b64StdDecode : String → Except String Bytes

def decryptV1Legacy (derive : DeriveKey) (legacy : LegacyCrypto) (rest password : String) :
    Except AppError String := do
  let (saltBytes, nonceHex, ciphertext) ← parseV1Envelope rest
  let keyHex ← derive (Bytes.utf8 password) saltBytes legacyPbkdf2Iterations
  let data ← inContext "ChaCha20 decryption failed" (legacy.chacha20 ciphertext keyHex nonceHex)
  let decryptedBytes ← inContext "Base64 decode error"
    ((legacy.b64StdDecode data).mapError fun e ↦ (AppError.new e).withKind "base64")
  decodeUtf8In "result decryption failure" decryptedBytes

structure ParamsOfDecrypt where
  encrypted : String
  password : String

/-- The branches of `v3` and `v2`, which differ in the number of rounds. -/
def decryptAead (derive : DeriveKey) (aead : Aead) (rounds : ℕ) (rest password : String) :
    Except AppError String := do
  let (salt, nonce, ciphertext) ← parseAeadEnvelope rest
  let keyHex ← derive (Bytes.utf8 password) salt rounds
  aeadDecrypt aead keyHex nonce ciphertext

def decrypt (derive : DeriveKey) (aead : Aead) (legacy : LegacyCrypto) (params : ParamsOfDecrypt) :
    Except AppError String :=
  match Text.stripPrefix "v3:" params.encrypted with
  | some rest => decryptAead derive aead pbkdf2Iterations rest params.password
  | none =>
      match Text.stripPrefix "v2:" params.encrypted with
      | some rest => decryptAead derive aead legacyPbkdf2Iterations rest params.password
      | none =>
          match Text.stripPrefix "v1:" params.encrypted with
          | some rest => decryptV1Legacy derive legacy rest params.password
          | none => .error (.new "Unknown encryption envelope version")

/-! ## What is read -/

/-- The text is a tag and hexadecimal fields for the given bytes. -/
def Reads (text tag : String) (salt nonce ciphertext : Bytes) : Prop :=
  ∃ saltHex nonceHex ciphertextHex,
    text = tag ++ ":" ++ (saltHex ++ ":" ++ nonceHex ++ ":" ++ ciphertextHex) ∧
      Bytes.hexDecode saltHex = .ok salt ∧ Bytes.hexDecode nonceHex = .ok nonce ∧
      Bytes.hexDecode ciphertextHex = .ok ciphertext

variable {rest tag password plaintext : String} {salt nonce ciphertext salt' nonce' ciphertext' : Bytes}
  {pbkdf2 : Pbkdf2Hmac} {derive : DeriveKey} {aead : Aead} {legacy : LegacyCrypto}

theorem parseAeadEnvelope_eq_ok_iff :
    parseAeadEnvelope rest = .ok (salt, nonce, ciphertext) ↔
      (∃ saltHex nonceHex ciphertextHex,
        rest = saltHex ++ ":" ++ nonceHex ++ ":" ++ ciphertextHex ∧
          Bytes.hexDecode saltHex = .ok salt ∧ Bytes.hexDecode nonceHex = .ok nonce ∧
          Bytes.hexDecode ciphertextHex = .ok ciphertext) ∧
        salt.length = 32 ∧ nonce.length = 24 := by
  rw [parseAeadEnvelope]
  constructor
  · intro h
    split at h
    · rename_i saltHex nonceHex ciphertextHex hsplit
      obtain ⟨-, -, hrest⟩ := splitColons_eq_triple_iff.mp hsplit
      obtain ⟨salt', hsalt, h⟩ := bind_eq_ok_iff.mp h
      split at h
      · cases h
      · rename_i hsaltLength
        obtain ⟨nonce', hnonce, h⟩ := bind_eq_ok_iff.mp h
        split at h
        · cases h
        · rename_i hnonceLength
          obtain ⟨ciphertext', hciphertext, h⟩ := bind_eq_ok_iff.mp h
          cases h
          exact ⟨⟨saltHex, nonceHex, ciphertextHex, hrest, decodeHexIn_eq_ok_iff.mp hsalt,
            decodeHexIn_eq_ok_iff.mp hnonce, decodeHexIn_eq_ok_iff.mp hciphertext⟩,
            not_not.mp hsaltLength, not_not.mp hnonceLength⟩
    · cases h
  · rintro ⟨⟨saltHex, nonceHex, ciphertextHex, hrest, hsalt, hnonce, hciphertext⟩, hsaltLength,
      hnonceLength⟩
    rw [splitColons_eq_triple_iff.mpr ⟨colon_notMem hsalt, colon_notMem hnonce, hrest⟩]
    refine bind_eq_ok_iff.mpr ⟨salt, decodeHexIn_eq_ok_iff.mpr hsalt, ?_⟩
    rw [if_neg (not_not.mpr hsaltLength)]
    refine bind_eq_ok_iff.mpr ⟨nonce, decodeHexIn_eq_ok_iff.mpr hnonce, ?_⟩
    rw [if_neg (not_not.mpr hnonceLength)]
    exact bind_eq_ok_iff.mpr ⟨ciphertext, decodeHexIn_eq_ok_iff.mpr hciphertext, rfl⟩

theorem toKey_hexEncode (key : Bytes32) : toKey (Bytes.hexEncode key.bytes) = .ok key := by
  rw [toKey]
  refine bind_eq_ok_iff.mpr
    ⟨key.bytes, decodeHexIn_eq_ok_iff.mpr (Bytes.hexDecode_hexEncode _), ?_⟩
  rw [Bytes32.ofSlice?_bytes]
  rfl

theorem aeadDecrypt_eq_ok_iff {key : Bytes32} :
    aeadDecrypt aead (Bytes.hexEncode key.bytes) nonce ciphertext = .ok plaintext ↔
      aead.decrypt key nonce [] ciphertext = some (Bytes.utf8 plaintext) := by
  rw [aeadDecrypt, toKey_hexEncode, ok_bind]
  cases aead.decrypt key nonce [] ciphertext with
  | none => simp
  | some bs => exact decodeUtf8In_eq_ok_iff.trans (Option.some.injEq _ _).symm.to_iff

theorem decryptAead_eq_ok_iff (hderive : DerivesKeys derive pbkdf2) {rounds : ℕ} :
    decryptAead derive aead rounds rest password = .ok plaintext ↔
      ∃ salt nonce ciphertext, parseAeadEnvelope rest = .ok (salt, nonce, ciphertext) ∧
        aead.decrypt (pbkdf2 (Bytes.utf8 password) salt rounds) nonce [] ciphertext =
          some (Bytes.utf8 plaintext) := by
  simp only [decryptAead, bind_eq_ok_iff, Prod.exists, hderive _ _ _, Except.ok.injEq,
    exists_eq_left', aeadDecrypt_eq_ok_iff]

/-- The fields of a text are determined. -/
theorem Reads.eq (h : Reads text tag salt nonce ciphertext)
    (h' : Reads text tag salt' nonce' ciphertext') :
    salt = salt' ∧ nonce = nonce' ∧ ciphertext = ciphertext' := by
  obtain ⟨a, b, c, rfl, ha, hb, hc⟩ := h
  obtain ⟨a', b', c', htext, ha', hb', hc'⟩ := h'
  have hrest := (String.append_right_inj _).mp htext
  have hsplit : splitColons 3 (a ++ ":" ++ b ++ ":" ++ c) = [a, b, c] :=
    splitColons_eq_triple_iff.mpr ⟨colon_notMem ha, colon_notMem hb, rfl⟩
  rw [splitColons_eq_triple_iff.mpr ⟨colon_notMem ha', colon_notMem hb', hrest⟩] at hsplit
  simp only [List.cons.injEq, and_true] at hsplit
  obtain ⟨rfl, rfl, rfl⟩ := hsplit
  exact ⟨Except.ok.inj (ha.symm.trans ha'), Except.ok.inj (hb.symm.trans hb'),
    Except.ok.inj (hc.symm.trans hc')⟩

/-! ## Versions -/

/-- Each branch is told by the tag before the first colon. -/
theorem decrypt_eq (text : String) :
    decrypt derive aead legacy ⟨text, password⟩ =
      match Text.stripPrefix ("v3" ++ ":") text with
      | some rest => decryptAead derive aead pbkdf2Iterations rest password
      | none =>
          match Text.stripPrefix ("v2" ++ ":") text with
          | some rest => decryptAead derive aead legacyPbkdf2Iterations rest password
          | none =>
              match Text.stripPrefix ("v1" ++ ":") text with
              | some rest => decryptV1Legacy derive legacy rest password
              | none => .error (.new "Unknown encryption envelope version") := rfl

theorem decrypt_of_tag (htag : tag = "v2" ∨ tag = "v3") :
    decrypt derive aead legacy ⟨tag ++ ":" ++ rest, password⟩ =
      decryptAead derive aead pbkdf2Iterations rest password := by
  rw [decrypt_eq]
  rcases htag with rfl | rfl
  · rw [stripPrefix_tag_eq_none (by decide) (by decide) (by decide), stripPrefix_tag_iff.mpr rfl]
    rfl
  · rw [stripPrefix_tag_iff.mpr rfl]

theorem decrypt_v1 : decrypt derive aead legacy ⟨"v1" ++ ":" ++ rest, password⟩ =
    decryptV1Legacy derive legacy rest password := by
  rw [decrypt_eq, stripPrefix_tag_eq_none (by decide) (by decide) (by decide),
    stripPrefix_tag_eq_none (by decide) (by decide) (by decide), stripPrefix_tag_iff.mpr rfl]

theorem decrypt_unknown (htag : ':' ∉ tag.toList) (h1 : tag ≠ "v1") (h2 : tag ≠ "v2")
    (h3 : tag ≠ "v3") :
    decrypt derive aead legacy ⟨tag ++ ":" ++ rest, password⟩ =
      .error (.new "Unknown encryption envelope version") := by
  rw [decrypt_eq, stripPrefix_tag_eq_none h3.symm (by decide) htag,
    stripPrefix_tag_eq_none h2.symm (by decide) htag,
    stripPrefix_tag_eq_none h1.symm (by decide) htag]

/-! ## What opens -/

theorem decrypt_eq_ok_iff (hderive : DerivesKeys derive pbkdf2) (htag : tag = "v2" ∨ tag = "v3")
    (hreads : Reads text tag salt nonce ciphertext) :
    decrypt derive aead legacy ⟨text, password⟩ = .ok plaintext ↔
      salt.length = 32 ∧ nonce.length = 24 ∧
        aead.decrypt (pbkdf2 (Bytes.utf8 password) salt pbkdf2Iterations) nonce [] ciphertext =
          some (Bytes.utf8 plaintext) := by
  have ⟨saltHex, nonceHex, ciphertextHex, htext, hsalt, hnonce, hciphertext⟩ := hreads
  rw [htext, decrypt_of_tag htag, decryptAead_eq_ok_iff hderive]
  constructor
  · rintro ⟨salt', nonce', ciphertext', hparse, hopen⟩
    obtain ⟨⟨a, b, c, hrest, hfields⟩, hsaltLength, hnonceLength⟩ :=
      parseAeadEnvelope_eq_ok_iff.mp hparse
    have hreads' : Reads text tag salt' nonce' ciphertext' :=
      ⟨a, b, c, by rw [htext, hrest], hfields⟩
    obtain ⟨rfl, rfl, rfl⟩ := hreads.eq hreads'
    exact ⟨hsaltLength, hnonceLength, hopen⟩
  · rintro ⟨hsaltLength, hnonceLength, hopen⟩
    exact ⟨salt, nonce, ciphertext, parseAeadEnvelope_eq_ok_iff.mpr
      ⟨⟨_, _, _, rfl, hsalt, hnonce, hciphertext⟩, hsaltLength, hnonceLength⟩, hopen⟩

theorem exists_reads_of_decrypt (hderive : DerivesKeys derive pbkdf2)
    (htag : tag = "v2" ∨ tag = "v3") (htext : text = tag ++ ":" ++ rest)
    (h : decrypt derive aead legacy ⟨text, password⟩ = .ok plaintext) :
    ∃ salt nonce ciphertext, Reads text tag salt nonce ciphertext := by
  rw [htext, decrypt_of_tag htag, decryptAead_eq_ok_iff hderive] at h
  obtain ⟨salt, nonce, ciphertext, hparse, -⟩ := h
  obtain ⟨⟨a, b, c, rfl, hfields⟩, -, -⟩ := parseAeadEnvelope_eq_ok_iff.mp hparse
  exact ⟨salt, nonce, ciphertext, a, b, c, htext, hfields⟩

/-! ## What is sealed -/

/-- What goes into the ciphertext of an envelope. -/
def sealing (pbkdf2 : Pbkdf2Hmac) (password plaintext : String) (salt : Bytes) (nonce : Bytes) :
    Sealing :=
  ⟨pbkdf2 (Bytes.utf8 password) salt pbkdf2Iterations, nonce, [], Bytes.utf8 plaintext⟩

def envelopeText (tag : String) (salt nonce ciphertext : Bytes) : String :=
  tag ++ ":" ++ Bytes.hexEncode salt ++ ":" ++ Bytes.hexEncode nonce ++ ":" ++
    Bytes.hexEncode ciphertext

theorem reads_envelopeText : Reads (envelopeText tag salt nonce ciphertext) tag salt nonce
    ciphertext := by
  refine ⟨_, _, _, ?_, Bytes.hexDecode_hexEncode salt, Bytes.hexDecode_hexEncode nonce,
    Bytes.hexDecode_hexEncode ciphertext⟩
  simp only [envelopeText, String.append_assoc]

theorem encrypt_eq_ok_iff (hderive : DerivesKeys derive pbkdf2) {salt : Bytes32} {nonce : Nonce24} :
    encrypt derive aead (.ok salt) (.ok nonce) plaintext password = .ok text ↔
      ∃ ciphertext,
        aead.encrypt (sealing pbkdf2 password plaintext salt.bytes nonce.val) = some ciphertext ∧
          text = envelopeText "v3" salt.bytes nonce.val ciphertext := by
  have hencrypt : encrypt derive aead (.ok salt) (.ok nonce) plaintext password =
      aeadEncrypt aead (Bytes.utf8 plaintext)
        (Bytes.hexEncode (pbkdf2 (Bytes.utf8 password) salt.bytes pbkdf2Iterations).bytes)
        salt.bytes nonce.val "v3" := by
    rw [encrypt]
    simp only [Except.mapError, ok_bind, hderive _ _ _]
  rw [hencrypt, aeadEncrypt, toKey_hexEncode, ok_bind, sealing]
  cases aead.encrypt ⟨pbkdf2 (Bytes.utf8 password) salt.bytes pbkdf2Iterations, nonce.val, [],
      Bytes.utf8 plaintext⟩ with
  | none => simp
  | some ciphertext =>
      simp only [Option.some.injEq, exists_eq_left']
      exact ⟨fun h ↦ (Except.ok.inj h).symm, fun h ↦ congrArg Except.ok h.symm⟩

/-- A nonce of 24 bytes has too many digits for the first version. -/
theorem decrypt_v1_eq_error (hreads : Reads text "v1" salt nonce ciphertext)
    (hnonce : nonce.length = 24) :
    ∃ e, decrypt derive aead legacy ⟨text, password⟩ = .error e := by
  obtain ⟨saltHex, nonceHex, ciphertextHex, rfl, hsalt, hnonceHex, -⟩ := hreads
  have hsize : nonceHex.utf8ByteSize ≠ 24 := by
    rw [Bytes.utf8ByteSize_of_hexDecode hnonceHex, hnonce]
    decide
  rw [decrypt_v1, decryptV1Legacy, parseV1Envelope,
    splitColons_eq_triple_iff.mpr ⟨colon_notMem hsalt, colon_notMem hnonceHex, rfl⟩]
  simp only [hsize, ne_eq, not_false_eq_true, if_true, error_bind]
  exact ⟨_, rfl⟩

/-! ## What is claimed -/

def InjectiveInSalts (pbkdf2 : Pbkdf2Hmac) : Prop :=
  ∀ (password : Bytes) (salt salt' : Bytes32),
    pbkdf2 password salt.bytes pbkdf2Iterations = pbkdf2 password salt'.bytes pbkdf2Iterations →
      salt = salt'

/-- An envelope that one of the calls made. -/
def Genuine (derive : DeriveKey) (aead : Aead) (pbkdf2 : Pbkdf2Hmac) (calls : Set Sealing)
    (password envelope : String) : Prop :=
  ∃ (salt : Bytes32) (nonce : Nonce24) (plaintext : String),
    encrypt derive aead (.ok salt) (.ok nonce) plaintext password = .ok envelope ∧
      sealing pbkdf2 password plaintext salt.bytes nonce.val ∈ calls

structure Sound (derive : DeriveKey) (aead : Aead) (legacy : LegacyCrypto) (pbkdf2 : Pbkdf2Hmac) :
    Prop where
  round_trip : ∀ {plaintext password : String} {salt : Bytes32} {nonce : Nonce24}
    {envelope : String}, aead.Opens (sealing pbkdf2 password plaintext salt.bytes nonce.val) →
    encrypt derive aead (.ok salt) (.ok nonce) plaintext password = .ok envelope →
    decrypt derive aead legacy ⟨envelope, password⟩ = .ok plaintext
  strict : ∀ {tag rest password plaintext : String}, tag = "v2" ∨ tag = "v3" →
    decrypt derive aead legacy ⟨tag ++ ":" ++ rest, password⟩ = .ok plaintext →
    ∃ saltHex nonceHex ciphertextHex n,
      rest = saltHex ++ ":" ++ nonceHex ++ ":" ++ ciphertextHex ∧ Bytes.IsHex 32 saltHex ∧
        Bytes.IsHex 24 nonceHex ∧ Bytes.IsHex n ciphertextHex ∧ 16 ≤ n
  authentic : ∀ {calls : Set Sealing}, aead.IdealFor calls →
    ∀ {text tag password plaintext : String} {salt nonce ciphertext : Bytes},
    tag = "v2" ∨ tag = "v3" → Reads text tag salt nonce ciphertext →
    decrypt derive aead legacy ⟨text, password⟩ = .ok plaintext →
    ∃ envelope, Genuine derive aead pbkdf2 calls password envelope ∧
      Reads envelope "v3" salt nonce ciphertext
  /-- Either the ciphertext is changed, or the salt or the nonce. -/
  tampered : ∀ {calls : Set Sealing}, aead.IdealFor calls →
    ∀ {password envelope : String} {salt nonce ciphertext : Bytes},
    Genuine derive aead pbkdf2 calls password envelope →
    Reads envelope "v3" salt nonce ciphertext →
    ∀ {text tag : String} {salt' nonce' ciphertext' : Bytes}, tag = "v2" ∨ tag = "v3" →
    Reads text tag salt' nonce' ciphertext' →
    ciphertext' = ciphertext ∨ salt' = salt ∧ nonce' = nonce →
    (salt', nonce', ciphertext') ≠ (salt, nonce, ciphertext) →
    ∃ e, decrypt derive aead legacy ⟨text, password⟩ = .error e
  tag_v1 : ∀ {calls : Set Sealing} {password envelope text : String}
    {salt nonce ciphertext : Bytes}, Genuine derive aead pbkdf2 calls password envelope →
    Reads envelope "v3" salt nonce ciphertext → Reads text "v1" salt nonce ciphertext →
    ∃ e, decrypt derive aead legacy ⟨text, password⟩ = .error e
  tag_unknown : ∀ {tag rest password : String}, ':' ∉ tag.toList → tag ≠ "v1" → tag ≠ "v2" →
    tag ≠ "v3" → ∃ e, decrypt derive aead legacy ⟨tag ++ ":" ++ rest, password⟩ = .error e

/-- The call that made an envelope, and the envelope's fields. -/
theorem Genuine.exists_call (hderive : DerivesKeys derive pbkdf2) {calls : Set Sealing}
    (h : Genuine derive aead pbkdf2 calls password text)
    (hreads : Reads text "v3" salt nonce ciphertext) :
    salt.length = 32 ∧ nonce.length = 24 ∧ ∃ plaintext,
      sealing pbkdf2 password plaintext salt nonce ∈ calls ∧
        aead.encrypt (sealing pbkdf2 password plaintext salt nonce) = some ciphertext := by
  obtain ⟨salt', nonce', plaintext, hencrypt, hcall⟩ := h
  obtain ⟨ciphertext', hseal, rfl⟩ := (encrypt_eq_ok_iff hderive).mp hencrypt
  obtain ⟨rfl, rfl, rfl⟩ := reads_envelopeText.eq hreads
  exact ⟨salt'.length_eq, nonce'.property, plaintext, hcall, hseal⟩

theorem exists_error_iff {x : Except AppError String} :
    (∃ e, x = .error e) ↔ ∀ s, x ≠ .ok s := by
  cases x <;> simp

theorem sound (hderive : DerivesKeys derive pbkdf2) (hsalts : InjectiveInSalts pbkdf2)
    (htagged : aead.Tagged) : Sound derive aead legacy pbkdf2 where
  round_trip := by
    intro plaintext password salt nonce envelope hopens hencrypt
    obtain ⟨ciphertext, hseal, rfl⟩ := (encrypt_eq_ok_iff hderive).mp hencrypt
    exact (decrypt_eq_ok_iff hderive (.inr rfl) reads_envelopeText).mpr
      ⟨salt.length_eq, nonce.property, hopens ciphertext hseal⟩
  strict := by
    intro tag rest password plaintext htag h
    obtain ⟨salt, nonce, ciphertext, hreads⟩ := exists_reads_of_decrypt hderive htag rfl h
    obtain ⟨hsaltLength, hnonceLength, hopen⟩ := (decrypt_eq_ok_iff hderive htag hreads).mp h
    obtain ⟨saltHex, nonceHex, ciphertextHex, htext, hsalt, hnonce, hciphertext⟩ := hreads
    refine ⟨saltHex, nonceHex, ciphertextHex, ciphertext.length,
      (String.append_right_inj _).mp htext, Bytes.hexDecode_iff.mp ⟨salt, hsalt, hsaltLength⟩,
      Bytes.hexDecode_iff.mp ⟨nonce, hnonce, hnonceLength⟩,
      Bytes.hexDecode_iff.mp ⟨ciphertext, hciphertext, rfl⟩, ?_⟩
    apply htagged _ nonce [] ciphertext
    rw [hopen]
    exact Option.some_ne_none _
  authentic := by
    intro calls hideal text tag password plaintext salt nonce ciphertext htag hreads h
    obtain ⟨hsalt, hnonce, hopen⟩ := (decrypt_eq_ok_iff hderive htag hreads).mp h
    obtain ⟨hcall, hseal⟩ := hideal.authentic hopen
    have hencrypt : encrypt derive aead (.ok ⟨salt, hsalt⟩) (.ok ⟨nonce, hnonce⟩) plaintext
        password = .ok (envelopeText "v3" salt nonce ciphertext) :=
      (encrypt_eq_ok_iff hderive).mpr ⟨ciphertext, hseal, rfl⟩
    exact ⟨_, ⟨⟨salt, hsalt⟩, ⟨nonce, hnonce⟩, plaintext, hencrypt, hcall⟩, reads_envelopeText⟩
  tampered := by
    intro calls hideal password envelope salt nonce ciphertext hgenuine hreads text tag salt' nonce'
      ciphertext' htag hreads' hkept hchanged
    obtain ⟨hsalt, -, plaintext, hcall, hseal⟩ := hgenuine.exists_call hderive hreads
    rw [exists_error_iff]
    intro plaintext' h
    obtain ⟨hsalt', -, hopen⟩ := (decrypt_eq_ok_iff hderive htag hreads').mp h
    have hshare : ciphertext' = ciphertext ∨
        pbkdf2 (Bytes.utf8 password) salt' pbkdf2Iterations =
          (sealing pbkdf2 password plaintext salt nonce).key ∧
        nonce' = (sealing pbkdf2 password plaintext salt nonce).nonce := by
      rcases hkept with hciphertext | ⟨rfl, rfl⟩
      · exact .inl hciphertext
      · exact .inr ⟨rfl, rfl⟩
    obtain ⟨rfl, hsame⟩ := hideal.eq_of_decrypt hcall hseal hopen hshare
    obtain ⟨hkey, rfl, -, -⟩ := Sealing.mk.inj hsame
    have hsalts := hsalts _ ⟨salt, hsalt⟩ ⟨salt', hsalt'⟩ hkey
    obtain rfl := congrArg Bytes32.bytes hsalts
    exact hchanged rfl
  tag_v1 := by
    intro calls password envelope text salt nonce ciphertext hgenuine hreads hreads'
    obtain ⟨-, hnonce, -⟩ := hgenuine.exists_call hderive hreads
    exact decrypt_v1_eq_error hreads' hnonce
  tag_unknown htag h1 h2 h3 := ⟨_, decrypt_unknown htag h1 h2 h3⟩

end Chacha

end BeeEngine
