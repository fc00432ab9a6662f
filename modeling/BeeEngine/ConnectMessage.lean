import BeeEngine.Dh
import BeeEngine.Lib.Aead
import BeeEngine.Lib.Base64
import BeeEngine.Lib.HexNumber
import BeeEngine.Lib.Json
import BeeEngine.Lib.Outcome
import BeeEngine.Lib.Text

/-!
# Connect messages

The encoder and the decoder of `bee_connect`, over the message utilities that
both crates share.  The cipher, HKDF and the JSON library are parameters;
random bytes and the time are arguments.
-/

namespace BeeEngine

open Json (Value Map)

/-- What the message codec is built from. -/
structure Primitives (F : Type) where
  crypto : Crypto
  aead : IdealAead
  serde : SerdeJson F

namespace ConnectMessage

def connectMessageVersion : String := "bee_connect.msg/1"
def typeWalletHello : String := "wallet_hello"
def typeClientDisconnect : String := "client_disconnect"
def typeSetMiningKeys : String := "set_mining_keys"
def typeSignChallenge : String := "sign_challenge"
def typeChallengeResponse : String := "challenge_response"
def encNone : String := "none"
def encXchacha20poly1305HkdfSha256 : String := "xchacha20poly1305-hkdf-sha256"
def keyInfo : Bytes := Bytes.utf8 "bee_connect.msg.key.v1"

variable {F : Type}

/-! ## Encrypted bodies -/

/-- The random bytes of one message. -/
structure Entropy where
  nonce : Except String { bs : Bytes // bs.length = 24 }
  salt : Except String Bytes32

structure EncryptedConnectBody where
  ciphertextB64url : String
  nonceB64url : String
  saltB64url : String
  deriving DecidableEq, Repr

/-- The text without a hexadecimal prefix. -/
def stripHexPrefix (value : String) : String :=
  (Text.stripPrefix "0x" value).getD ((Text.stripPrefix "0X" value).getD value)

/-- The bytes of a root. -/
def decodeEncryptionSecret (encryptionSecret : String) : Except String Bytes :=
  let secretHex := stripHexPrefix encryptionSecret
  if secretHex.isEmpty ∨ ¬secretHex.toList.all Text.isAsciiHexdigit then
    .error "encryption secret must be valid hex"
  else
    match Bytes.hexDecode secretHex with
    | .error e => .error ("Decode encryption secret hex (" ++ e.message ++ ")")
    | .ok secret =>
        if secret.isEmpty then .error "encryption secret must not be empty" else .ok secret

def deriveConnectMessageKey (c : Crypto) (encryptionSecret : String) (salt : Bytes) :
    Except String Bytes32 := do
  let secret ← decodeEncryptionSecret encryptionSecret
  return c.hkdf salt secret keyInfo

def encryptConnectBody (p : Primitives F) (entropy : Entropy) (body : Value F)
    (encryptionSecret : String) (aad : Bytes) : Except String EncryptedConnectBody := do
  let plaintext := p.serde.toVec body
  let nonce ← entropy.nonce.mapError fun e ↦ "Generate connect nonce (" ++ e ++ ")"
  let salt ← entropy.salt.mapError fun e ↦ "Generate connect salt (" ++ e ++ ")"
  let key ← deriveConnectMessageKey p.crypto encryptionSecret salt.bytes
  match p.aead.encrypt key nonce.val aad plaintext with
  | none => throw "Encrypt connect body (aead::Error)"
  | some ciphertext =>
      return ⟨Base64.encode ciphertext, Base64.encode nonce.val, Base64.encode salt.bytes⟩

/-- Read base64url text, with the message of the field. -/
def decodeField (error text : String) : Except String Bytes :=
  match Base64.decode text with
  | none => .error error
  | some bs => .ok bs

def decryptConnectBody (p : Primitives F)
    (ciphertextB64url nonceB64url saltB64url encryptionSecret : String) (aad : Bytes) :
    Except String Bytes := do
  let ciphertext ← decodeField "Decode encrypted connect ciphertext" ciphertextB64url
  let nonce ← decodeField "Decode encrypted connect nonce" nonceB64url
  if nonce.length ≠ 24 then
    throw ("Invalid encrypted connect nonce length: " ++ toString nonce.length)
  else
    let salt ← decodeField "Decode encrypted connect salt" saltB64url
    if salt.length ≠ 32 then
      throw ("Invalid encrypted connect salt length: " ++ toString salt.length)
    else
      let key ← deriveConnectMessageKey p.crypto encryptionSecret salt
      match p.aead.decrypt key nonce aad ciphertext with
      | none => throw "Decrypt connect body (aead::Error)"
      | some plaintext => return plaintext

/-! ## Associated data -/

/-- The fields of a message that its ciphertext is bound to. -/
structure Header where
  sessionId : String
  dir : String
  seq : UInt64
  msgType : String
  ts : UInt64
  deriving DecidableEq, Repr

def connectMessageAad (serde : SerdeJson F) (h : Header) : Bytes :=
  serde.toVec (.object (.ofList [
    ("v", .str connectMessageVersion),
    ("session_id", .str h.sessionId),
    ("dir", .str h.dir),
    ("seq", .u64 h.seq),
    ("type", .str h.msgType),
    ("ts", .u64 h.ts)]))

/-! ## Envelopes -/

structure ConnectMessageEnc where
  alg : String
  nonce : Option String
  salt : Option String
  deriving DecidableEq, Repr

structure ConnectMessageEnvelope (F : Type) where
  v : String
  sessionId : String
  dir : String
  seq : UInt64
  msgType : String
  ts : Option UInt64
  dhPublic : Option String
  enc : Option ConnectMessageEnc
  body : Value F

def ConnectMessageEnc.read (v : Value F) : Option ConnectMessageEnc := do
  let field ← v.members? ["alg", "nonce", "salt"]
  let alg ← Json.required (field "alg") (·.asStr?)
  let nonce ← Json.optional (field "nonce") (·.asStr?)
  let salt ← Json.optional (field "salt") (·.asStr?)
  return ⟨alg, nonce, salt⟩

def ConnectMessageEnvelope.read (v : Value F) : Option (ConnectMessageEnvelope F) := do
  let field ← v.members?
    ["v", "session_id", "dir", "seq", "type", "ts", "dh_public", "enc", "body"]
  let version ← Json.required (field "v") (·.asStr?)
  let sessionId ← Json.required (field "session_id") (·.asStr?)
  let dir ← Json.required (field "dir") (·.asStr?)
  let seq ← Json.required (field "seq") (·.asU64?)
  let msgType ← Json.required (field "type") (·.asStr?)
  let ts ← Json.optional (field "ts") (·.asU64?)
  let dhPublic ← Json.optional (field "dh_public") (·.asStr?)
  let enc ← Json.optional (field "enc") ConnectMessageEnc.read
  return ⟨version, sessionId, dir, seq, msgType, ts, dhPublic, enc, (field "body").getD .null⟩

/-- The JSON of an envelope with an encrypted body. -/
def envelopeFields (h : Header) (encrypted : EncryptedConnectBody) (dhPublic : Option String) :
    Map F :=
  let fields : Map F := .ofList [
    ("v", .str connectMessageVersion),
    ("session_id", .str h.sessionId),
    ("dir", .str h.dir),
    ("seq", .u64 h.seq),
    ("type", .str h.msgType),
    ("ts", .u64 h.ts),
    ("enc", .object (.ofList [
      ("alg", .str encXchacha20poly1305HkdfSha256),
      ("nonce", .str encrypted.nonceB64url),
      ("salt", .str encrypted.saltB64url)])),
    ("body", .str encrypted.ciphertextB64url)]
  match dhPublic with
  | some dhPub => fields.insert "dh_public" (.str dhPub)
  | none => fields

/-- The text of a message with this header and body. -/
def sealConnectMessage (p : Primitives F) (entropy : Entropy) (h : Header) (body : Value F)
    (encryptionSecret : String) (dhPublic : Option String) : Except String String := do
  let encrypted ← encryptConnectBody p entropy body encryptionSecret (connectMessageAad p.serde h)
  return p.serde.toString (.object (envelopeFields h encrypted dhPublic))

def encodeConnectMessage (p : Primitives F) (entropy : Entropy) (now : Except String UInt64)
    (sessionId dir : String) (seq : UInt64) (msgType : String) (body : Value F)
    (encryptionSecret dhPublic : Option String) : Except String String :=
  if Text.isBlank sessionId then .error "connect message session_id is empty"
  else if Text.isBlank dir then .error "connect message dir is empty"
  else if Text.isBlank msgType then .error "connect message type is empty"
  else do
    let ts ← now
    match encryptionSecret with
    | none =>
        throw ("connect message `" ++ msgType ++
          "` requires session owner secret for encryption")
    | some secret =>
        sealConnectMessage p entropy ⟨sessionId, dir, seq, msgType, ts⟩ body secret dhPublic

/-! ## The decoder of `bee_connect` -/

/-- A secret without the white space around it, if anything is left. -/
def trimSecret (encryptionSecret : Option String) : Option String :=
  (encryptionSecret.map Text.trim).filter fun v ↦ !v.isEmpty

/-- Open the body of an envelope whose algorithm is known, for a session. -/
def openBody (p : Primitives F) (envelope : ConnectMessageEnvelope F) (sessionId secret : String) :
    Except String (Value F) :=
  match envelope.enc with
  | none => .error "Encrypted connect message misses `enc`"
  | some enc =>
      match enc.nonce with
      | none => .error "Encrypted connect message misses nonce"
      | some nonceB64url =>
          match enc.salt with
          | none => .error "Encrypted connect message misses salt"
          | some saltB64url =>
              match envelope.body.asStr? with
              | none => .error "Encrypted connect message body must be base64url string"
              | some ciphertextB64url =>
                  match envelope.ts with
                  | none => .error "Encrypted connect message misses ts"
                  | some ts => do
                      let aad := connectMessageAad p.serde
                        ⟨sessionId, envelope.dir, envelope.seq, envelope.msgType, ts⟩
                      let plaintext ← decryptConnectBody p ciphertextB64url nonceB64url saltB64url
                        secret aad
                      match p.serde.fromSlice some plaintext with
                      | none => throw "Deserialize decrypted connect body"
                      | some body => return body

def algOf (envelope : ConnectMessageEnvelope F) : String :=
  (envelope.enc.map ConnectMessageEnc.alg).getD encNone

def decodeConnectMessageBody (p : Primitives F) (envelope : ConnectMessageEnvelope F)
    (encryptionSecret : Option String) : Except String (Option (Value F)) :=
  if algOf envelope = encNone then .error "Unencrypted connect messages are no longer accepted"
  else if algOf envelope ≠ encXchacha20poly1305HkdfSha256 then .ok none
  else
    match trimSecret encryptionSecret with
    | none => .ok none
    | some secret => (openBody p envelope envelope.sessionId secret).map some

/-! ## Normal forms of keys -/

def normalizeUint256Hex (value : String) : Except String String :=
  let stripped := stripHexPrefix value
  if stripped.isEmpty then .error "app_id must be a non-empty uint256 hex string"
  else if stripped.utf8ByteSize > 64 then
    .error ("app_id hex is too long for uint256 (" ++ toString stripped.utf8ByteSize ++ " > 64)")
  else if ¬stripped.toList.all Text.isAsciiHexdigit then
    .error ("app_id is not valid hex: " ++ value)
  else
    .ok ("0x" ++ String.ofList (List.replicate (64 - stripped.length) '0') ++
      Text.toAsciiLowercase stripped)

def normalizeOwnerPublicHex (value : String) : Except String String :=
  let stripped := stripHexPrefix value
  if stripped.isEmpty then .error "owner_public must be non-empty hex string"
  else if stripped.utf8ByteSize ≠ 64 then
    .error ("owner_public must be 64 hex chars (got " ++ toString stripped.utf8ByteSize ++ ")")
  else if ¬stripped.toList.all Text.isAsciiHexdigit then
    .error ("owner_public is not valid hex: " ++ value)
  else .ok (Text.toAsciiLowercase stripped)

/-! ## What the texts hold -/

variable {p : Primitives F}

theorem read_envelopeFields (h : Header) (encrypted : EncryptedConnectBody)
    (dhPublic : Option String) :
    ConnectMessageEnvelope.read (.object (envelopeFields h encrypted dhPublic) : Value F) =
      some ⟨connectMessageVersion, h.sessionId, h.dir, h.seq, h.msgType, some h.ts, dhPublic,
        some ⟨encXchacha20poly1305HkdfSha256, some encrypted.nonceB64url,
          some encrypted.saltB64url⟩, .str encrypted.ciphertextB64url⟩ := by
  cases dhPublic <;>
    simp [ConnectMessageEnvelope.read, ConnectMessageEnc.read, envelopeFields, Map.ofList,
      Json.required, Json.optional]

theorem ConnectMessageEnvelope.fields_of_read {m : Map F} {e : ConnectMessageEnvelope F}
    (h : ConnectMessageEnvelope.read (.object m) = some e) :
    (m.get? "session_id").bind (·.asStr?) = some e.sessionId ∧
      (m.get? "seq").bind (·.asU64?) = some e.seq := by
  simp only [ConnectMessageEnvelope.read, Value.members?_object, Json.required,
    Option.bind_eq_bind, Option.bind_some, Option.bind_eq_some_iff] at h
  obtain ⟨_, _, session, ⟨field, hfield, hsession⟩, _, _, seq, ⟨field', hfield', hseq⟩, _, _, _, _,
    _, _, _, _, h⟩ := h
  obtain rfl := Option.some.inj h
  rw [hfield, hfield']
  exact ⟨hsession, hseq⟩

theorem connectMessageAad_injective {serde : SerdeJson F} {h h' : Header}
    (haad : connectMessageAad serde h = connectMessageAad serde h') : h = h' := by
  have hmap := Value.object_injective (serde.toVec_injective haad)
  have hfield (k : String) := congrArg (fun m : Map F ↦ (m.get? k).map Value.tree) hmap
  have hsession : h.sessionId = h'.sessionId := by
    simpa [Map.ofList, Value.str] using hfield "session_id"
  have hdir : h.dir = h'.dir := by simpa [Map.ofList, Value.str] using hfield "dir"
  have hseq : h.seq = h'.seq := by simpa [Map.ofList, Value.u64] using hfield "seq"
  have htype : h.msgType = h'.msgType := by simpa [Map.ofList, Value.str] using hfield "type"
  have hts : h.ts = h'.ts := by simpa [Map.ofList, Value.u64] using hfield "ts"
  cases h
  cases h'
  simp_all only

/-! ## Sealed bodies -/

/-- The bytes of an encrypted body. -/
structure SealedBody where
  nonce : Bytes
  salt : Bytes
  ciphertext : Bytes
  deriving DecidableEq, Repr

namespace SealedBody

def encoded (x : SealedBody) : EncryptedConnectBody :=
  ⟨Base64.encode x.ciphertext, Base64.encode x.nonce, Base64.encode x.salt⟩

end SealedBody

/-- The bytes that an envelope carries. -/
def ConnectMessageEnvelope.sealedBody? (e : ConnectMessageEnvelope F) : Option SealedBody := do
  let enc ← e.enc
  let nonce ← enc.nonce.bind Base64.decode
  let salt ← enc.salt.bind Base64.decode
  let ciphertext ← e.body.asStr?.bind Base64.decode
  if nonce.length = 24 ∧ salt.length = 32 then return ⟨nonce, salt, ciphertext⟩ else none

/-- A body sealed for a header under the bytes of a root. -/
structure Sealed (p : Primitives F) (h : Header) (body : Value F) (root : Bytes) (x : SealedBody) :
    Prop where
  nonce : x.nonce.length = 24
  salt : x.salt.length = 32
  ciphertext : p.aead.encrypt (p.crypto.hkdf x.salt root keyInfo) x.nonce
    (connectMessageAad p.serde h) (p.serde.toVec body) = some x.ciphertext

/-- The envelope of a sealed body. -/
def envelopeOf (h : Header) (x : SealedBody) (dhPublic : Option String) :
    ConnectMessageEnvelope F :=
  ⟨connectMessageVersion, h.sessionId, h.dir, h.seq, h.msgType, some h.ts, dhPublic,
    some ⟨encXchacha20poly1305HkdfSha256, some (Base64.encode x.nonce),
      some (Base64.encode x.salt)⟩, .str (Base64.encode x.ciphertext)⟩

theorem Sealed.sealedBody?_envelopeOf {h : Header} {body : Value F} {root : Bytes} {x : SealedBody}
    (hx : Sealed p h body root x) (dhPublic : Option String) :
    (envelopeOf h x dhPublic : ConnectMessageEnvelope F).sealedBody? = some x := by
  simp [ConnectMessageEnvelope.sealedBody?, envelopeOf, hx.nonce, hx.salt]

/-- What an encoder needs and writes. -/
theorem sealConnectMessage_eq_ok {entropy : Entropy} {h : Header} {body : Value F}
    {secret text : String} {dhPublic : Option String}
    (hseal : sealConnectMessage p entropy h body secret dhPublic = .ok text) :
    ∃ root x salt, decodeEncryptionSecret secret = .ok root ∧ entropy.salt = .ok salt ∧
      x.salt = salt.bytes ∧ Sealed p h body root x ∧
      text = p.serde.toString (.object (envelopeFields h x.encoded dhPublic)) := by
  obtain ⟨encrypted, hencrypted, htext⟩ := Outcome.bind_eq_ok_iff.mp hseal
  rw [encryptConnectBody] at hencrypted
  obtain ⟨nonce, -, hencrypted⟩ := Outcome.bind_eq_ok_iff.mp hencrypted
  obtain ⟨salt, hsalt, hencrypted⟩ := Outcome.bind_eq_ok_iff.mp hencrypted
  obtain ⟨key, hkey, hencrypted⟩ := Outcome.bind_eq_ok_iff.mp hencrypted
  obtain ⟨root, hroot, hkey⟩ := Outcome.bind_eq_ok_iff.mp hkey
  obtain rfl := Except.ok.inj hkey
  split at hencrypted
  · cases hencrypted
  · rename_i ciphertext hciphertext
    obtain rfl := Except.ok.inj hencrypted
    exact ⟨root, ⟨nonce.val, salt.bytes, ciphertext⟩, salt, hroot, Outcome.mapError_eq_ok_iff.mp hsalt, rfl,
      ⟨nonce.property, salt.length_eq, hciphertext⟩, (Except.ok.inj htext).symm⟩

/-- An encoder writes a text when the random bytes are there, the root is valid
and the message is not too long. -/
theorem sealConnectMessage_of {entropy : Entropy} {nonce : { bs : Bytes // bs.length = 24 }}
    {salt : Bytes32} {root ciphertext : Bytes} {h : Header} {body : Value F} {secret : String}
    (hnonce : entropy.nonce = .ok nonce) (hsalt : entropy.salt = .ok salt)
    (hroot : decodeEncryptionSecret secret = .ok root)
    (hciphertext : p.aead.encrypt (p.crypto.hkdf salt.bytes root keyInfo) nonce.val
      (connectMessageAad p.serde h) (p.serde.toVec body) = some ciphertext)
    (dhPublic : Option String) :
    sealConnectMessage p entropy h body secret dhPublic =
      .ok (p.serde.toString (.object (envelopeFields h
        (SealedBody.mk nonce.val salt.bytes ciphertext).encoded dhPublic))) := by
  have hkey : deriveConnectMessageKey p.crypto secret salt.bytes =
      .ok (p.crypto.hkdf salt.bytes root keyInfo) := by
    rw [deriveConnectMessageKey, hroot]
    rfl
  rw [sealConnectMessage, encryptConnectBody, hnonce, hsalt]
  simp only [Except.mapError, Outcome.ok_bind, hkey, hciphertext]
  rfl

theorem fromStr_envelopeFields (h : Header) (x : SealedBody) (dhPublic : Option String) :
    p.serde.fromStr ConnectMessageEnvelope.read
      (p.serde.toString (.object (envelopeFields h x.encoded dhPublic))) =
        some (envelopeOf h x dhPublic) :=
  (p.serde.fromStr_toString _ _).trans (read_envelopeFields h x.encoded dhPublic)

theorem decodeField_eq_ok_iff {error text : String} {bs : Bytes} :
    decodeField error text = .ok bs ↔ Base64.decode text = some bs := by
  rw [decodeField]
  split <;> simp_all

theorem decryptConnectBody_eq_ok_iff {ciphertextB64url nonceB64url saltB64url secret : String}
    {aad plaintext : Bytes} :
    decryptConnectBody p ciphertextB64url nonceB64url saltB64url secret aad = .ok plaintext ↔
      ∃ ciphertext nonce salt root, Base64.decode ciphertextB64url = some ciphertext ∧
        Base64.decode nonceB64url = some nonce ∧ Base64.decode saltB64url = some salt ∧
        nonce.length = 24 ∧ salt.length = 32 ∧ decodeEncryptionSecret secret = .ok root ∧
        p.aead.decrypt (p.crypto.hkdf salt root keyInfo) nonce aad ciphertext = some plaintext := by
  constructor
  · intro h
    rw [decryptConnectBody] at h
    obtain ⟨ciphertext, hciphertext, h⟩ := Outcome.bind_eq_ok_iff.mp h
    obtain ⟨nonce, hnonce, h⟩ := Outcome.bind_eq_ok_iff.mp h
    split at h
    · cases h
    · rename_i hnonceLength
      obtain ⟨salt, hsalt, h⟩ := Outcome.bind_eq_ok_iff.mp h
      split at h
      · cases h
      · rename_i hsaltLength
        obtain ⟨key, hkey, h⟩ := Outcome.bind_eq_ok_iff.mp h
        obtain ⟨root, hroot, hkey⟩ := Outcome.bind_eq_ok_iff.mp hkey
        obtain rfl := Except.ok.inj hkey
        split at h
        · cases h
        · rename_i plaintext' hplaintext
          obtain rfl := Except.ok.inj h
          exact ⟨ciphertext, nonce, salt, root, decodeField_eq_ok_iff.mp hciphertext,
            decodeField_eq_ok_iff.mp hnonce, decodeField_eq_ok_iff.mp hsalt,
            not_not.mp hnonceLength, not_not.mp hsaltLength, hroot, hplaintext⟩
  · rintro ⟨ciphertext, nonce, salt, root, hciphertext, hnonce, hsalt, hnonceLength, hsaltLength,
      hroot, hplaintext⟩
    rw [decryptConnectBody, decodeField_eq_ok_iff.mpr hciphertext,
      decodeField_eq_ok_iff.mpr hnonce, decodeField_eq_ok_iff.mpr hsalt]
    simp only [Outcome.ok_bind, hnonceLength, hsaltLength, ne_eq, not_true_eq_false, if_false]
    rw [deriveConnectMessageKey, hroot]
    simp only [Outcome.ok_bind]
    change (match p.aead.decrypt (p.crypto.hkdf salt root keyInfo) nonce aad ciphertext with
      | none => _
      | some plaintext => _) = _
    rw [hplaintext]
    rfl

/-- When a body opens for a session and a root. -/
theorem openBody_eq_ok_iff {e : ConnectMessageEnvelope F} {sessionId secret : String}
    {body : Value F} :
    openBody p e sessionId secret = .ok body ↔
      ∃ x ts root plaintext, e.sealedBody? = some x ∧ e.ts = some ts ∧
        decodeEncryptionSecret secret = .ok root ∧
        p.aead.decrypt (p.crypto.hkdf x.salt root keyInfo) x.nonce
          (connectMessageAad p.serde ⟨sessionId, e.dir, e.seq, e.msgType, ts⟩) x.ciphertext =
            some plaintext ∧
        p.serde.fromSlice some plaintext = some body := by
  constructor
  · intro h
    rw [openBody] at h
    split at h
    · cases h
    · rename_i enc henc
      split at h
      · cases h
      · rename_i nonceText hnonceText
        split at h
        · cases h
        · rename_i saltText hsaltText
          split at h
          · cases h
          · rename_i cipherText hcipherText
            split at h
            · cases h
            · rename_i ts hts
              obtain ⟨plaintext, hplaintext, h⟩ := Outcome.bind_eq_ok_iff.mp h
              obtain ⟨ciphertext, nonce, salt, root, hciphertext, hnonce, hsalt, hnonceLength,
                hsaltLength, hroot, hopen⟩ := decryptConnectBody_eq_ok_iff.mp hplaintext
              split at h
              · cases h
              · rename_i body' hbody
                obtain rfl := Except.ok.inj h
                refine ⟨⟨nonce, salt, ciphertext⟩, ts, root, plaintext, ?_, hts, hroot, hopen,
                  hbody⟩
                simp [ConnectMessageEnvelope.sealedBody?, henc, hnonceText, hsaltText, hcipherText,
                  hciphertext, hnonce, hsalt, hnonceLength, hsaltLength]
  · rintro ⟨x, ts, root, plaintext, hx, hts, hroot, hopen, hbody⟩
    simp only [ConnectMessageEnvelope.sealedBody?, Option.bind_eq_bind, Option.bind_eq_some_iff]
      at hx
    obtain ⟨enc, henc, nonce, ⟨nonceText, hnonceText, hnonce⟩, salt,
      ⟨saltText, hsaltText, hsalt⟩, ciphertext, ⟨cipherText, hcipherText, hciphertext⟩, hx⟩ := hx
    split at hx
    · rename_i hlength
      obtain rfl := Option.some.inj hx
      have hplaintext : decryptConnectBody p cipherText nonceText saltText secret
          (connectMessageAad p.serde ⟨sessionId, e.dir, e.seq, e.msgType, ts⟩) = .ok plaintext :=
        decryptConnectBody_eq_ok_iff.mpr ⟨ciphertext, nonce, salt, root, hciphertext, hnonce, hsalt,
          hlength.1, hlength.2, hroot, hopen⟩
      simp only [openBody, henc, hnonceText, hsaltText, hcipherText, hts, hplaintext,
        Outcome.ok_bind, hbody]
      rfl
    · cases hx

/-- The fields that an envelope binds its body to, in a session. -/
def ConnectMessageEnvelope.header? (e : ConnectMessageEnvelope F) (sessionId : String) :
    Option Header :=
  e.ts.map fun ts ↦ ⟨sessionId, e.dir, e.seq, e.msgType, ts⟩

theorem ConnectMessageEnvelope.header?_eq_some_iff {e : ConnectMessageEnvelope F}
    {sessionId : String} {h : Header} :
    e.header? sessionId = some h ↔
      sessionId = h.sessionId ∧ e.dir = h.dir ∧ e.seq = h.seq ∧ e.msgType = h.msgType ∧
        e.ts = some h.ts := by
  cases h
  cases hts : e.ts with
  | none => simp [header?, hts]
  | some ts => simp [header?, hts]

namespace Sealed

variable {h : Header} {body : Value F} {root : Bytes} {x : SealedBody}

/-- A sealed body opens with its root in an envelope of its header. -/
theorem openBody_eq_ok (hx : Sealed p h body root x) {e : ConnectMessageEnvelope F}
    (he : e.sealedBody? = some x) {sessionId secret : String}
    (hheader : e.header? sessionId = some h) (hroot : decodeEncryptionSecret secret = .ok root) :
    openBody p e sessionId secret = .ok body := by
  obtain ⟨hsession, hdir, hseq, htype, hts⟩ := ConnectMessageEnvelope.header?_eq_some_iff.mp hheader
  refine openBody_eq_ok_iff.mpr ⟨x, h.ts, root, p.serde.toVec body, he, hts, hroot, ?_,
    p.serde.fromSlice_toVec some body⟩
  rw [hsession, hdir, hseq, htype]
  exact p.aead.decrypt_of_encrypt hx.ciphertext

/-- A sealed body opens in no other envelope, with no other key. -/
theorem of_openBody (hx : Sealed p h body root x) {e : ConnectMessageEnvelope F}
    (he : e.sealedBody? = some x) {sessionId secret : String} {body' : Value F}
    (hopen : openBody p e sessionId secret = .ok body') :
    e.header? sessionId = some h ∧ body' = body ∧ ∃ root',
      decodeEncryptionSecret secret = .ok root' ∧
        p.crypto.hkdf x.salt root' keyInfo = p.crypto.hkdf x.salt root keyInfo := by
  obtain ⟨x', ts, root', plaintext, he', hts, hroot, hdecrypt, hbody⟩ := openBody_eq_ok_iff.mp hopen
  obtain rfl := Option.some.inj (he.symm.trans he')
  obtain ⟨hkey, -, haad, hmsg⟩ := IdealAead.eq_of_decrypt hx.ciphertext hdecrypt
  have hheader := connectMessageAad_injective haad
  rw [← hmsg, p.serde.fromSlice_toVec] at hbody
  refine ⟨?_, (Option.some.inj hbody).symm, root', hroot, hkey.symm⟩
  rw [ConnectMessageEnvelope.header?, hts, hheader]
  rfl

end Sealed

/-! ## Roots -/

theorem exists_stripHexPrefix (value : String) :
    value = stripHexPrefix value ∨ ∃ c ∈ ['x', 'X'],
      value.toList = '0' :: c :: (stripHexPrefix value).toList := by
  rw [stripHexPrefix]
  cases hlower : Text.stripPrefix "0x" value with
  | some t => exact .inr ⟨'x', by simp, Text.toList_of_stripPrefix hlower⟩
  | none =>
      cases hupper : Text.stripPrefix "0X" value with
      | some t => exact .inr ⟨'X', by simp, Text.toList_of_stripPrefix hupper⟩
      | none => exact .inl rfl

/-- A valid root is not changed by the trimming of the decoders. -/
theorem trimSecret_of_decodeEncryptionSecret {secret : String} {root : Bytes}
    (hroot : decodeEncryptionSecret secret = .ok root) :
    trimSecret (some secret) = some secret := by
  rw [decodeEncryptionSecret] at hroot
  split at hroot
  · cases hroot
  · rename_i hvalid
    obtain ⟨hne, hdigits⟩ := not_or.mp hvalid
    have hdigits : ∀ c ∈ (stripHexPrefix secret).toList, Text.isWhitespace c = false := fun c hc ↦
      Text.isWhitespace_of_isAsciiHexdigit (List.all_eq_true.mp (not_not.mp hdigits) c hc)
    have hspace : ∀ c ∈ secret.toList, Text.isWhitespace c = false := by
      rcases exists_stripHexPrefix secret with hsecret | ⟨x, hx, hsecret⟩
      · rwa [← hsecret] at hdigits
      · rw [hsecret]
        rintro c hc
        rcases List.mem_cons.mp hc with rfl | hc
        · rfl
        · rcases List.mem_cons.mp hc with rfl | hc
          · rcases List.mem_pair.mp hx with rfl | rfl <;> rfl
          · exact hdigits c hc
    have hempty : secret.isEmpty = false := by
      rw [← Bool.not_eq_true, String.isEmpty_iff]
      rintro rfl
      exact hne rfl
    simp [trimSecret, Text.trim_eq_self hspace, hempty]

theorem isAsciiHexdigit_of_mem_hexEncode {bs : Bytes} {c : Char}
    (h : c ∈ (Bytes.hexEncode bs).toList) : Text.isAsciiHexdigit c = true := by
  rw [Bytes.hexEncode, String.toList_ofList] at h
  obtain ⟨b, -, hc⟩ := List.mem_flatMap.mp h
  have hb := b.toNat_lt
  rcases List.mem_pair.mp hc with rfl | rfl <;> exact HexNumber.isAsciiHexdigit_hexDigit _ (by omega)

theorem stripPrefix_hexEncode {bs : Bytes} {c : Char} (hc : Text.isAsciiHexdigit c = false) :
    Text.stripPrefix (String.ofList ['0', c]) (Bytes.hexEncode bs) = none := by
  cases hstrip : Text.stripPrefix (String.ofList ['0', c]) (Bytes.hexEncode bs) with
  | none => rfl
  | some t =>
      have hmem : c ∈ (Bytes.hexEncode bs).toList := by
        rw [Text.toList_of_stripPrefix hstrip, String.toList_ofList]
        simp
      rw [isAsciiHexdigit_of_mem_hexEncode hmem] at hc
      cases hc

/-- The root of a session state is a valid secret. -/
theorem decodeEncryptionSecret_hex (a : Bytes32) : decodeEncryptionSecret a.hex = .ok a.bytes := by
  have hstrip : stripHexPrefix a.hex = a.hex := by
    have hlower : Text.stripPrefix "0x" (Bytes.hexEncode a.bytes) = none :=
      stripPrefix_hexEncode (c := 'x') (by decide)
    have hupper : Text.stripPrefix "0X" (Bytes.hexEncode a.bytes) = none :=
      stripPrefix_hexEncode (c := 'X') (by decide)
    rw [stripHexPrefix, Bytes32.hex, hlower, hupper]
    rfl
  have hdigits : a.hex.toList.all Text.isAsciiHexdigit = true :=
    List.all_eq_true.mpr fun c hc ↦ isAsciiHexdigit_of_mem_hexEncode hc
  have hempty : a.hex.isEmpty = false := by
    rw [← Bool.not_eq_true, String.isEmpty_iff]
    intro h
    have hlength := Bytes.length_utf8_hexEncode a.bytes
    rw [a.length_eq, ← Bytes32.hex, h] at hlength
    exact absurd hlength (by decide)
  have hbytes : a.bytes.isEmpty = false := by
    rw [List.isEmpty_eq_false_iff]
    intro h
    have hlength := a.length_eq
    rw [h] at hlength
    cases hlength
  rw [decodeEncryptionSecret, hstrip, if_neg (by simp [hdigits, hempty]), Bytes32.hex,
    Bytes.hexDecode_hexEncode]
  simp only [hbytes, Bool.false_eq_true, if_false]

/-- What the encoder of `bee_connect` checks. -/
theorem encodeConnectMessage_eq_ok {entropy : Entropy} {now : Except String UInt64}
    {sessionId dir msgType secret text : String} {seq : UInt64} {body : Value F}
    {dhPublic : Option String}
    (hencode : encodeConnectMessage p entropy now sessionId dir seq msgType body (some secret)
      dhPublic = .ok text) :
    Text.isBlank sessionId = false ∧ Text.isBlank dir = false ∧ ∃ ts, now = .ok ts ∧
      sealConnectMessage p entropy ⟨sessionId, dir, seq, msgType, ts⟩ body secret dhPublic =
        .ok text := by
  rw [encodeConnectMessage] at hencode
  split at hencode
  · cases hencode
  · rename_i hsession
    split at hencode
    · cases hencode
    · rename_i hdir
      split at hencode
      · cases hencode
      · obtain ⟨ts, hts, hseal⟩ := Outcome.bind_eq_ok_iff.mp hencode
        exact ⟨Bool.eq_false_iff.mpr hsession, Bool.eq_false_iff.mpr hdir, ts, hts, hseal⟩

/-- When the decoder of `bee_connect` gives a body. -/
theorem decodeConnectMessageBody_eq_ok_some_iff {e : ConnectMessageEnvelope F}
    {encryptionSecret : Option String} {body : Value F} :
    decodeConnectMessageBody p e encryptionSecret = .ok (some body) ↔
      algOf e = encXchacha20poly1305HkdfSha256 ∧
        ∃ secret, trimSecret encryptionSecret = some secret ∧
          openBody p e e.sessionId secret = .ok body := by
  rw [decodeConnectMessageBody]
  split
  · rename_i halg
    simp [halg, encNone, encXchacha20poly1305HkdfSha256]
  · split
    · rename_i halg
      simp [halg]
    · rename_i halg
      rw [not_not] at halg
      cases trimSecret encryptionSecret with
      | none => simp
      | some secret =>
          cases hopen : openBody p e e.sessionId secret <;> simp [halg, hopen, Except.map]

end ConnectMessage

end BeeEngine
