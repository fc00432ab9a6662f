import BeeEngine.ChainReading

/-!
# Where typed bodies come from

A typed body of a parsed message should be one that was sealed for the header
of the message.  The body of a `client_disconnect` is also taken as it stands
in the envelope.
-/

namespace BeeEngine

open ConnectMessage WalletMessage MessageChain
open Json (Value)

namespace TypedBodies

variable {F : Type}

/-! ## What is claimed -/

def HasTypedBody (m : ConnectSessionMessage) : Prop :=
  m.walletHello.isSome ∨ m.setMiningKeys.isSome ∨ m.clientDisconnect.isSome ∨
    m.signChallenge.isSome ∨ m.challengeResponse.isSome

/-- The typed bodies are those that a value gives. -/
structure TypedFrom (body : Value F) (m : ConnectSessionMessage) : Prop where
  walletHello : ∀ w, m.walletHello = some w → WalletHelloMetadata.read body = some w
  setMiningKeys : ∀ k, m.setMiningKeys = some k →
    (SetMiningKeysMessageBody.read body).bind normalizeMiningKeys = some k
  clientDisconnect : ∀ d, m.clientDisconnect = some d →
    (ClientDisconnectMessageBody.read body).map trimReason = some d
  signChallenge : ∀ c, m.signChallenge = some c → SignChallengeBody.read body = some c
  challengeResponse : ∀ r, m.challengeResponse = some r →
    ChallengeResponseBody.read body = some r

/-- The message has the body that was sealed under the secret for the session
and the header of the message, and nothing else seals to its ciphertext. -/
structure Authenticated (p : Primitives F) (raw sessionId : String) (secret : Option String)
    (m : ConnectSessionMessage) : Prop where
  decrypted : m.bodyDecrypted = true
  sealing : ∃ e x ts key root plaintext body,
    p.serde.fromStr ConnectMessageEnvelope.read raw = some e ∧
      e.v = connectMessageVersion ∧ e.sessionId = Text.trim sessionId ∧
      algOf e = encXchacha20poly1305HkdfSha256 ∧ e.sealedBody? = some x ∧ m.ts = some ts ∧
      trimSecret secret = some key ∧ decodeEncryptionSecret key = .ok root ∧
      (∀ key' nonce' aad' plaintext',
        p.aead.encrypt key' nonce' aad' plaintext' = some x.ciphertext ↔
          key' = p.crypto.hkdf x.salt root keyInfo ∧ nonce' = x.nonce ∧
          aad' = connectMessageAad p.serde
            ⟨Text.trim sessionId, m.dir, m.seq, m.msgType, ts⟩ ∧ plaintext' = plaintext) ∧
      p.serde.fromSlice some plaintext = some body ∧ m.bodyJson = p.serde.toString body ∧
      TypedFrom body m

/-- Every typed body that the parser gives is authenticated. -/
def TypedBodiesAuthenticated (p : Primitives F) (raw sessionId : String) (secret : Option String) :
    Prop :=
  ∀ eventId createdAt m,
    parseConnectSessionMessageWithSecret p raw sessionId secret eventId createdAt = some m →
      HasTypedBody m → Authenticated p raw sessionId secret m

/-- The text is a `client_disconnect` of the session whose body does not decrypt,
but reads as one as it stands. -/
structure IsPlainDisconnect (p : Primitives F) (raw sessionId : String) (secret : Option String)
    (e : ConnectMessageEnvelope F) : Prop where
  envelope : p.serde.fromStr ConnectMessageEnvelope.read raw = some e
  nonempty : (Text.trim sessionId).isEmpty = false
  version : e.v = connectMessageVersion
  session : e.sessionId = Text.trim sessionId
  dir : Text.isBlank e.dir = false
  msgType : e.msgType = typeClientDisconnect
  undecrypted :
    (decodeConnectMessageBody p e secret (Text.trim sessionId)).toOption.isSome = false
  body : (ClientDisconnectMessageBody.read e.body).isSome

/-! ## The typed bodies of an envelope -/

variable {p : Primitives F} {raw sessionId : String} {secret : Option String}

/-- The header is the envelope's. -/
theorem header_messageOf (raw : String) (e : ConnectMessageEnvelope F)
    (decodedBody : Option (Value F)) (eventId : String) (createdAt : UInt64) :
    (messageOf p.serde raw e decodedBody eventId createdAt).dir = e.dir ∧
      (messageOf p.serde raw e decodedBody eventId createdAt).ts = e.ts := by
  rw [messageOf, setTypedBody]
  split_ifs <;> exact ⟨rfl, rfl⟩

/-- A body that was decoded gives the typed bodies. -/
theorem typedFrom_messageOf (raw : String) (e : ConnectMessageEnvelope F) (body : Value F)
    (eventId : String) (createdAt : UInt64) :
    TypedFrom body (messageOf p.serde raw e (some body) eventId createdAt) := by
  rw [messageOf, setTypedBody]
  split_ifs <;> constructor <;> simp

/-- Without one there is only that of a disconnect. -/
theorem hasTypedBody_messageOf_none (raw : String) (e : ConnectMessageEnvelope F)
    (eventId : String) (createdAt : UInt64) :
    HasTypedBody (messageOf p.serde raw e none eventId createdAt) ↔
      e.msgType = typeClientDisconnect ∧ (ClientDisconnectMessageBody.read e.body).isSome := by
  have hhello : typeClientDisconnect ≠ typeWalletHello := by decide
  have hkeys : typeClientDisconnect ≠ typeSetMiningKeys := by decide
  by_cases htype : e.msgType = typeClientDisconnect
  · simp [HasTypedBody, messageOf, setTypedBody, htype, hhello, hkeys]
  · rw [HasTypedBody, messageOf, setTypedBody]
    simp only [htype, if_false, false_and, iff_false]
    split_ifs <;> simp

/-! ## When typed bodies are authenticated -/

/-- The body of an envelope that decrypts was sealed for the message. -/
theorem authenticated_of_decode {e : ConnectMessageEnvelope F} {body : Value F}
    (henvelope : p.serde.fromStr ConnectMessageEnvelope.read raw = some e)
    (hversion : e.v = connectMessageVersion) (hsession : e.sessionId = Text.trim sessionId)
    (hdecode : decodeConnectMessageBody p e secret (Text.trim sessionId) = .ok body)
    (eventId : String) (createdAt : UInt64) :
    Authenticated p raw sessionId secret
      (messageOf p.serde raw e (some body) eventId createdAt) := by
  obtain ⟨hseq, htype, hjson, hdecrypted, -⟩ :=
    messageOf_common (p := p) raw e (some body) eventId createdAt
  obtain ⟨hdir, hts⟩ := header_messageOf (p := p) raw e (some body) eventId createdAt
  obtain ⟨halg, key, hkey, hopen⟩ := decodeConnectMessageBody_eq_ok_iff.mp hdecode
  obtain ⟨x, ts, root, plaintext, hx, hets, hroot, hdecrypt, hbody⟩ := openBody_eq_ok_iff.mp hopen
  have hencrypt := p.aead.encrypt_of_decrypt hdecrypt
  refine ⟨hdecrypted, e, x, ts, key, root, plaintext, body, henvelope, hversion, hsession, halg, hx,
    hts.trans hets, hkey, hroot, ?_, hbody, hjson, typedFrom_messageOf raw e body eventId createdAt⟩
  intro key' nonce' aad' plaintext'
  rw [hdir, hseq, htype]
  constructor
  · intro hother
    exact p.aead.encrypt_injective hother hencrypt
  · rintro ⟨rfl, rfl, rfl, rfl⟩
    exact hencrypt

/-- The envelope of a parsed message has a direction. -/
theorem not_isBlank_dir {e : ConnectMessageEnvelope F} {m m' : ConnectSessionMessage}
    {eventId : String} {createdAt : UInt64} (h : Parsed p raw sessionId secret e m)
    (hparse : parseConnectSessionMessageWithSecret p raw sessionId secret eventId createdAt =
      some m') : Text.isBlank e.dir = false := by
  by_contra hdir
  rw [Bool.not_eq_false] at hdir
  rw [parseConnectSessionMessageWithSecret] at hparse
  simp [h.nonempty, h.envelope, h.version, h.session, hdir] at hparse

/-- Typed bodies are authenticated in every text but a plain disconnect. -/
theorem typedBodiesAuthenticated_iff (p : Primitives F) (raw sessionId : String)
    (secret : Option String) :
    TypedBodiesAuthenticated p raw sessionId secret ↔
      ∀ e, ¬IsPlainDisconnect p raw sessionId secret e := by
  constructor
  · intro h e hplain
    have hparse := @parse_eq_some _ p raw sessionId "" secret 0 e
      hplain.envelope hplain.nonempty hplain.version hplain.session hplain.dir
    have hnone : (decodeConnectMessageBody p e secret (Text.trim sessionId)).toOption = none :=
      Option.isNone_iff_eq_none.mp (Option.isSome_eq_false_iff.mp hplain.undecrypted)
    rw [hnone] at hparse
    have htyped := (hasTypedBody_messageOf_none (p := p) raw e "" 0).mpr
      ⟨hplain.msgType, hplain.body⟩
    have hdecrypted := (h _ _ _ hparse htyped).decrypted
    rw [(messageOf_common (p := p) raw e none "" 0).2.2.2.1] at hdecrypted
    cases hdecrypted
  · intro h eventId createdAt m hparse htyped
    obtain ⟨e, hparsed⟩ := parsed_of_eq_some hparse
    have hdir := not_isBlank_dir hparsed hparse
    obtain ⟨eventId', createdAt', rfl⟩ := hparsed.message
    cases hdecode : decodeConnectMessageBody p e secret (Text.trim sessionId) with
    | ok body =>
        exact authenticated_of_decode hparsed.envelope hparsed.version hparsed.session hdecode _ _
    | error error =>
        rw [hdecode] at htyped
        obtain ⟨htype, hbody⟩ := (hasTypedBody_messageOf_none raw e eventId' createdAt').mp htyped
        exact absurd ⟨hparsed.envelope, hparsed.nonempty, hparsed.version, hparsed.session, hdir,
          htype, by rw [hdecode]; rfl, hbody⟩ (h e)

/-! ## A plain disconnect -/

/-- A `client_disconnect` of the session that nobody sealed. -/
def plainDisconnect : String :=
  "\x7b\"v\":\"bee_connect.msg/1\",\"session_id\":\"session-1\",\"dir\":\"c2w\"," ++
    "\"seq\":1,\"type\":\"client_disconnect\",\"body\":\x7b\"reason\":\"bye\"\x7d\x7d"

/-- It is read as a disconnect. -/
theorem not_typedBodiesAuthenticated :
    ¬TypedBodiesAuthenticated examplePrimitives plainDisconnect "session-1" none := by
  have hparse : ((parseConnectSessionMessageWithSecret examplePrimitives plainDisconnect "session-1"
      none "event-1" 0).map fun m ↦ (m.clientDisconnect.isSome, m.bodyDecrypted)) =
        some (true, false) := by decide +kernel
  obtain ⟨m, hm, hshape⟩ := Option.map_eq_some_iff.mp hparse
  obtain ⟨hdisconnect, hdecrypted⟩ := Prod.mk.inj hshape
  intro h
  have hauthenticated := h "event-1" 0 m hm (.inr (.inr (.inl hdisconnect)))
  exact absurd (hauthenticated.decrypted.symm.trans hdecrypted) (by decide)

end TypedBodies

end BeeEngine
