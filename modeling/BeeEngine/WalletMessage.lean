import BeeEngine.ConnectMessage

/-!
# Connect messages of the wallet

The wallet's encoders, and its parser of the messages of a session.
-/

namespace BeeEngine

open ConnectMessage Dh
open Json (Value Map)

namespace WalletMessage

variable {F : Type}

/-! ## Typed bodies -/

structure WalletHelloMetadata where
  walletName : String
  walletAddress : String
  challengeNonce : Option String
  challengeSignature : Option String
  challengeEpkPublic : Option String
  deriving DecidableEq, Repr

structure SetMiningKeysMessageBody where
  appId : String
  ownerPublic : String
  deriving DecidableEq, Repr

structure ClientDisconnectMessageBody where
  reason : Option String
  deriving DecidableEq, Repr

structure SignChallengeBody where
  nonce : String
  deriving DecidableEq, Repr

structure ChallengeResponseBody where
  nonce : String
  signature : String
  walletAddress : String
  epkPublic : Option String
  deriving DecidableEq, Repr

def WalletHelloMetadata.read (v : Value F) : Option WalletHelloMetadata := do
  let field ← v.members? ["wallet_name", "wallet_address", "nonce", "signature", "epk_public"]
  let walletName ← Json.required (field "wallet_name") (·.asStr?)
  let walletAddress ← Json.required (field "wallet_address") (·.asStr?)
  let nonce ← Json.optional (field "nonce") (·.asStr?)
  let signature ← Json.optional (field "signature") (·.asStr?)
  let epkPublic ← Json.optional (field "epk_public") (·.asStr?)
  return ⟨walletName, walletAddress, nonce, signature, epkPublic⟩

def SetMiningKeysMessageBody.read (v : Value F) : Option SetMiningKeysMessageBody := do
  let field ← v.members? ["app_id", "owner_public"]
  let appId ← Json.required (field "app_id") (·.asStr?)
  let ownerPublic ← Json.required (field "owner_public") (·.asStr?)
  return ⟨appId, ownerPublic⟩

def ClientDisconnectMessageBody.read (v : Value F) : Option ClientDisconnectMessageBody := do
  let field ← v.members? ["reason"]
  let reason ← Json.optional (field "reason") (·.asStr?)
  return ⟨reason⟩

def SignChallengeBody.read (v : Value F) : Option SignChallengeBody := do
  let field ← v.members? ["nonce"]
  let nonce ← Json.required (field "nonce") (·.asStr?)
  return ⟨nonce⟩

def ChallengeResponseBody.read (v : Value F) : Option ChallengeResponseBody := do
  let field ← v.members? ["nonce", "signature", "wallet_address", "epk_public"]
  let nonce ← Json.required (field "nonce") (·.asStr?)
  let signature ← Json.required (field "signature") (·.asStr?)
  let walletAddress ← Json.required (field "wallet_address") (·.asStr?)
  let epkPublic ← Json.optional (field "epk_public") (·.asStr?)
  return ⟨nonce, signature, walletAddress, epkPublic⟩

/-! ## Encoders -/

/-- Set a field that is not always there. -/
def setOptional (k : String) (v : Option String) (m : Map F) : Map F :=
  match v with
  | some s => m.insert k (.str s)
  | none => m

def walletHelloBody (walletName walletAddress : String)
    (challengeNonce challengeSignature challengeEpkPublic : Option String) : Value F :=
  let body : Map F := .ofList [
    ("wallet_name", .str walletName),
    ("wallet_address", .str walletAddress)]
  .object <| setOptional "epk_public" challengeEpkPublic <|
    setOptional "signature" challengeSignature <| setOptional "nonce" challengeNonce body

def encodeWalletHelloMessage (p : Primitives F) (entropy : Entropy) (now : UInt64)
    (sessionId walletName walletAddress encryptionRoot walletDhPublic : String) (seq : UInt64)
    (challengeNonce challengeSignature challengeEpkPublic : Option String) :
    Except String String :=
  if sessionId.isEmpty then .error "wallet_hello session_id is empty"
  else if seq = 0 then .error "wallet_hello seq must be > 0"
  else
    sealConnectMessage p entropy ⟨sessionId, "w2c", seq, "wallet_hello", now⟩
      (walletHelloBody walletName walletAddress challengeNonce challengeSignature
        challengeEpkPublic) encryptionRoot (some walletDhPublic)

def challengeResponseBody (nonce signature walletAddress : String) (epkPublic : Option String) :
    Value F :=
  .object <| setOptional "epk_public" epkPublic <| .ofList [
    ("nonce", .str nonce),
    ("signature", .str signature),
    ("wallet_address", .str walletAddress)]

def encodeChallengeResponseMessage (p : Primitives F) (entropy : Entropy) (now : UInt64)
    (sessionId nonce signature walletAddress : String) (epkPublic : Option String)
    (encryptionRoot walletDhPublic : String) (seq : UInt64) : Except String String :=
  if sessionId.isEmpty then .error "challenge_response session_id is empty"
  else if seq = 0 then .error "challenge_response seq must be > 0"
  else
    sealConnectMessage p entropy ⟨sessionId, "w2c", seq, typeChallengeResponse, now⟩
      (challengeResponseBody nonce signature walletAddress epkPublic) encryptionRoot
      (some walletDhPublic)

/-- The wallet's response is read as it was written. -/
theorem read_challengeResponseBody (nonce signature walletAddress : String)
    (epkPublic : Option String) :
    ChallengeResponseBody.read (challengeResponseBody nonce signature walletAddress epkPublic :
      Value F) = some ⟨nonce, signature, walletAddress, epkPublic⟩ := by
  cases epkPublic <;>
    simp [ChallengeResponseBody.read, challengeResponseBody, setOptional, Map.ofList,
      Json.required, Json.optional]

/-! ## Messages of a session -/

structure ConnectSessionMessage where
  eventId : String
  eventCreatedAt : UInt64
  dir : String
  seq : UInt64
  msgType : String
  ts : Option UInt64
  rawMessageJson : String
  bodyJson : String
  bodyDecrypted : Bool
  walletHello : Option WalletHelloMetadata
  setMiningKeys : Option SetMiningKeysMessageBody
  clientDisconnect : Option ClientDisconnectMessageBody
  signChallenge : Option SignChallengeBody
  challengeResponse : Option ChallengeResponseBody
  sessionStateAfter : Option ConnectSessionState
  deriving DecidableEq, Repr

def decodeConnectMessageBody (p : Primitives F) (envelope : ConnectMessageEnvelope F)
    (encryptionSecret : Option String) (expectedSessionId : String) : Except String (Value F) :=
  if algOf envelope = encNone then .error "Unencrypted connect messages are no longer accepted"
  else if algOf envelope ≠ encXchacha20poly1305HkdfSha256 then
    .error ("Unsupported connect message enc alg `" ++ algOf envelope ++ "`")
  else
    match trimSecret encryptionSecret with
    | none => .error "Encrypted connect message requires encryption secret"
    | some secret => openBody p envelope expectedSessionId secret

/-- The keys of a request in normal form, if they have one. -/
def normalizeMiningKeys (body : SetMiningKeysMessageBody) : Option SetMiningKeysMessageBody :=
  match normalizeUint256Hex body.appId, normalizeOwnerPublicHex body.ownerPublic with
  | .ok appId, .ok ownerPublic => some ⟨appId, ownerPublic⟩
  | _, _ => none

/-- A reason without the white space around it, if anything is left. -/
def trimReason (body : ClientDisconnectMessageBody) : ClientDisconnectMessageBody :=
  ⟨(body.reason.filter fun v ↦ !Text.isBlank v).map Text.trim⟩

/-- Fill in the typed body of a known type. -/
def setTypedBody (rawBody : Value F) (decodedBody : Option (Value F))
    (message : ConnectSessionMessage) : ConnectSessionMessage :=
  if message.msgType = typeWalletHello then
    { message with walletHello := decodedBody.bind WalletHelloMetadata.read }
  else if message.msgType = typeSetMiningKeys then
    { message with
      setMiningKeys := (decodedBody.bind SetMiningKeysMessageBody.read).bind normalizeMiningKeys }
  else if message.msgType = typeClientDisconnect then
    { message with
      clientDisconnect :=
        (ClientDisconnectMessageBody.read (decodedBody.getD rawBody)).map trimReason }
  else if message.msgType = typeSignChallenge then
    { message with signChallenge := decodedBody.bind SignChallengeBody.read }
  else if message.msgType = typeChallengeResponse then
    { message with challengeResponse := decodedBody.bind ChallengeResponseBody.read }
  else message

/-- The message of an envelope, whose body was decoded or not. -/
def messageOf (serde : SerdeJson F) (rawMessageJson : String) (envelope : ConnectMessageEnvelope F)
    (decodedBody : Option (Value F)) (eventId : String) (eventCreatedAt : UInt64) :
    ConnectSessionMessage :=
  setTypedBody envelope.body decodedBody
    { eventId := eventId
      eventCreatedAt := eventCreatedAt
      dir := envelope.dir
      seq := envelope.seq
      msgType := envelope.msgType
      ts := envelope.ts
      rawMessageJson := rawMessageJson
      bodyJson := serde.toString (decodedBody.getD envelope.body)
      bodyDecrypted := decodedBody.isSome
      walletHello := none
      setMiningKeys := none
      clientDisconnect := none
      signChallenge := none
      challengeResponse := none
      sessionStateAfter := none }

def parseConnectSessionMessageWithSecret (p : Primitives F)
    (rawMessageJson expectedSessionId : String)
    (encryptionSecret : Option String) (eventId : String) (eventCreatedAt : UInt64) :
    Option ConnectSessionMessage :=
  let expectedSessionId := Text.trim expectedSessionId
  if expectedSessionId.isEmpty then none
  else
    match p.serde.fromStr ConnectMessageEnvelope.read rawMessageJson with
    | none => none
    | some envelope =>
        if envelope.v ≠ connectMessageVersion then none
        else if envelope.sessionId ≠ expectedSessionId then none
        else if Text.isBlank envelope.dir then none
        else
          some (messageOf p.serde rawMessageJson envelope
            (decodeConnectMessageBody p envelope encryptionSecret expectedSessionId).toOption
            eventId eventCreatedAt)

def parseConnectSessionMessage (p : Primitives F)
    (rawMessageJson expectedSessionId eventId : String)
    (eventCreatedAt : UInt64) : Option ConnectSessionMessage :=
  parseConnectSessionMessageWithSecret p rawMessageJson expectedSessionId none eventId
    eventCreatedAt

/-! ## What the parser gives -/

variable {p : Primitives F}

/-- The typed body is all that it fills in. -/
theorem setTypedBody_common (rawBody : Value F) (decodedBody : Option (Value F))
    (m : ConnectSessionMessage) :
    (setTypedBody rawBody decodedBody m).seq = m.seq ∧
      (setTypedBody rawBody decodedBody m).msgType = m.msgType ∧
      (setTypedBody rawBody decodedBody m).bodyJson = m.bodyJson ∧
      (setTypedBody rawBody decodedBody m).bodyDecrypted = m.bodyDecrypted ∧
      (setTypedBody rawBody decodedBody m).sessionStateAfter = m.sessionStateAfter := by
  rw [setTypedBody]
  split_ifs <;> exact ⟨rfl, rfl, rfl, rfl, rfl⟩

theorem setMiningKeys_setTypedBody {rawBody : Value F} {decodedBody : Option (Value F)}
    {m : ConnectSessionMessage} (h : m.msgType = typeSetMiningKeys) :
    (setTypedBody rawBody decodedBody m).setMiningKeys =
      (decodedBody.bind SetMiningKeysMessageBody.read).bind normalizeMiningKeys := by
  have hother : m.msgType ≠ typeWalletHello := by
    rw [h]
    decide
  rw [setTypedBody, if_neg hother, if_pos h]

/-- When the wallet's decoder gives a body. -/
theorem decodeConnectMessageBody_eq_ok_iff {e : ConnectMessageEnvelope F}
    {encryptionSecret : Option String} {expected : String} {body : Value F} :
    decodeConnectMessageBody p e encryptionSecret expected = .ok body ↔
      algOf e = encXchacha20poly1305HkdfSha256 ∧
        ∃ secret, trimSecret encryptionSecret = some secret ∧
          openBody p e expected secret = .ok body := by
  rw [decodeConnectMessageBody]
  split
  · rename_i halg
    simp [halg, encNone, encXchacha20poly1305HkdfSha256]
  · split
    · rename_i halg
      simp [halg]
    · rename_i halg
      rw [not_not] at halg
      cases trimSecret encryptionSecret <;> simp [halg]

/-- What a parsed message says of its envelope. -/
structure Parsed (p : Primitives F) (raw sessionId : String) (secret : Option String)
    (e : ConnectMessageEnvelope F) (m : ConnectSessionMessage) : Prop where
  nonempty : (Text.trim sessionId).isEmpty = false
  envelope : p.serde.fromStr ConnectMessageEnvelope.read raw = some e
  version : e.v = connectMessageVersion
  session : e.sessionId = Text.trim sessionId
  message : ∃ eventId createdAt, m = messageOf p.serde raw e
    (decodeConnectMessageBody p e secret (Text.trim sessionId)).toOption eventId createdAt

theorem parsed_of_eq_some {raw sessionId eventId : String} {secret : Option String}
    {createdAt : UInt64} {m : ConnectSessionMessage}
    (h : parseConnectSessionMessageWithSecret p raw sessionId secret eventId createdAt = some m) :
    ∃ e, Parsed p raw sessionId secret e m := by
  rw [parseConnectSessionMessageWithSecret] at h
  split at h
  · cases h
  · rename_i hempty
    split at h
    · cases h
    · rename_i e he
      split at h
      · cases h
      · rename_i hversion
        split at h
        · cases h
        · rename_i hsession
          split at h
          · cases h
          · exact ⟨e, Bool.eq_false_iff.mpr hempty, he, not_not.mp hversion, not_not.mp hsession,
              eventId, createdAt, (Option.some.inj h).symm⟩

/-- A message is parsed when its envelope passes the checks. -/
theorem parse_eq_some {raw sessionId eventId : String} {secret : Option String} {createdAt : UInt64}
    {e : ConnectMessageEnvelope F} (he : p.serde.fromStr ConnectMessageEnvelope.read raw = some e)
    (hempty : (Text.trim sessionId).isEmpty = false) (hversion : e.v = connectMessageVersion)
    (hsession : e.sessionId = Text.trim sessionId) (hdir : Text.isBlank e.dir = false) :
    parseConnectSessionMessageWithSecret p raw sessionId secret eventId createdAt =
      some (messageOf p.serde raw e
        (decodeConnectMessageBody p e secret (Text.trim sessionId)).toOption eventId createdAt) := by
  rw [parseConnectSessionMessageWithSecret]
  simp only [he, hempty, hversion, hsession, hdir, Bool.false_eq_true, ne_eq, not_true_eq_false,
    if_false]

theorem messageOf_common (raw : String) (e : ConnectMessageEnvelope F)
    (decodedBody : Option (Value F)) (eventId : String) (createdAt : UInt64) :
    (messageOf p.serde raw e decodedBody eventId createdAt).seq = e.seq ∧
      (messageOf p.serde raw e decodedBody eventId createdAt).msgType = e.msgType ∧
      (messageOf p.serde raw e decodedBody eventId createdAt).bodyJson =
        p.serde.toString (decodedBody.getD e.body) ∧
      (messageOf p.serde raw e decodedBody eventId createdAt).bodyDecrypted = decodedBody.isSome ∧
      (messageOf p.serde raw e decodedBody eventId createdAt).sessionStateAfter = none :=
  setTypedBody_common _ _ _

theorem rawMessageJson_messageOf (serde : SerdeJson F) (raw : String) (e : ConnectMessageEnvelope F)
    (decodedBody : Option (Value F)) (eventId : String) (createdAt : UInt64) :
    (messageOf serde raw e decodedBody eventId createdAt).rawMessageJson = raw := by
  rw [messageOf, setTypedBody]
  split_ifs <;> rfl

/-- A body that was read opens under the secret. -/
theorem Parsed.openBody {raw sessionId : String} {secret : Option String}
    {e : ConnectMessageEnvelope F} {m : ConnectSessionMessage} (h : Parsed p raw sessionId secret e m)
    (hread : m.bodyDecrypted = true) :
    ∃ key body, trimSecret secret = some key ∧ openBody p e e.sessionId key = .ok body ∧
      m.bodyJson = p.serde.toString body := by
  obtain ⟨eventId, createdAt, rfl⟩ := h.message
  obtain ⟨-, -, hjson, hdecrypted, -⟩ := messageOf_common (p := p) raw e
    (decodeConnectMessageBody p e secret (Text.trim sessionId)).toOption eventId createdAt
  rw [hdecrypted] at hread
  cases hdecode : decodeConnectMessageBody p e secret (Text.trim sessionId) with
  | error error =>
      rw [hdecode] at hread
      cases hread
  | ok body =>
      obtain ⟨-, key, hkey, hopen⟩ := decodeConnectMessageBody_eq_ok_iff.mp hdecode
      rw [← h.session] at hopen
      rw [hdecode] at hjson
      exact ⟨key, body, hkey, hopen, hjson⟩

end WalletMessage

end BeeEngine
