import BeeEngine.Lib.JsonText
import BeeEngine.Lib.XChaCha
import BeeEngine.Ratchet
import BeeEngine.WalletMessage

/-!
# The message codec

A message that either crate wrote is read as it was by the decoders, and a
message whose ciphertext stands under another header, or that is read with
another root, is refused.
-/

namespace BeeEngine

open ConnectMessage WalletMessage
open Json (Value)

namespace MessageCodec

variable {F : Type} {p : Primitives F}

/-! ## Reading and refusing -/

/-- The decoder of `bee_connect` gives the body. -/
def DecodedByConnect (p : Primitives F) (text secret : String) (body : Value F) : Prop :=
  ∃ e, p.serde.fromStr ConnectMessageEnvelope.read text = some e ∧
    ConnectMessage.decodeConnectMessageBody p e (some secret) = .ok (some body)

/-- The wallet's parser gives the body. -/
def DecodedByWallet (p : Primitives F) (text sessionId secret : String) (body : Value F) : Prop :=
  ∀ eventId createdAt, ∃ m,
    parseConnectSessionMessageWithSecret p text sessionId (some secret) eventId createdAt =
      some m ∧ m.bodyDecrypted = true ∧ m.bodyJson = p.serde.toString body

/-- The decoder of `bee_connect` gives no body. -/
def RefusedByConnect (p : Primitives F) (text secret : String) : Prop :=
  ∀ e, p.serde.fromStr ConnectMessageEnvelope.read text = some e →
    ∀ body, ConnectMessage.decodeConnectMessageBody p e (some secret) ≠ .ok (some body)

/-- The wallet's parser decrypts no body, whichever session it expects. -/
def RefusedByWallet (p : Primitives F) (text secret : String) : Prop :=
  ∀ sessionId eventId createdAt m,
    parseConnectSessionMessageWithSecret p text sessionId (some secret) eventId createdAt =
      some m → m.bodyDecrypted = false

/-! ## Changed texts -/

/-- Another text around the same ciphertext. -/
def SameCiphertext (e e' : ConnectMessageEnvelope F) : Prop := e'.enc = e.enc ∧ e'.body = e.body

/-- One of `session_id`, `dir`, `seq`, `type` and `ts` differs. -/
def OtherHeader (e e' : ConnectMessageEnvelope F) : Prop :=
  (e'.sessionId, e'.dir, e'.seq, e'.msgType, e'.ts) ≠ (e.sessionId, e.dir, e.seq, e.msgType, e.ts)

/-- A secret that is not valid, or whose bytes are another one of the roots. -/
def OtherRoot (roots : Set Bytes) (root : Bytes) (secret : String) : Prop :=
  ∀ root', decodeEncryptionSecret (Text.trim secret) = .ok root' → root' ∈ roots ∧ root' ≠ root

/-- A text and a secret that do not belong together as the text and the root of
a message do. -/
def Changed (p : Primitives F) (roots : Set Bytes) (root : Bytes) (text text' secret' : String) :
    Prop :=
  ∃ e e', p.serde.fromStr ConnectMessageEnvelope.read text = some e ∧
    p.serde.fromStr ConnectMessageEnvelope.read text' = some e' ∧ SameCiphertext e e' ∧
    (OtherHeader e e' ∨ OtherRoot roots root secret')

/-- A text of another version. -/
def OtherVersion (p : Primitives F) (text' : String) : Prop :=
  ∃ e', p.serde.fromStr ConnectMessageEnvelope.read text' = some e' ∧ e'.v ≠ connectMessageVersion

/-! ## Messages of one header and body -/

theorem SameCiphertext.sealedBody? {e e' : ConnectMessageEnvelope F} (h : SameCiphertext e e') :
    e'.sealedBody? = e.sealedBody? := by
  rw [ConnectMessageEnvelope.sealedBody?, ConnectMessageEnvelope.sealedBody?, h.1, h.2]

variable {h : Header} {body : Value F} {root : Bytes} {x : SealedBody} {secret text : String}
  {dhPublic : Option String}

theorem decodedByConnect (hroot : decodeEncryptionSecret secret = .ok root)
    (hx : Sealed p h body root x)
    (htext : text = p.serde.toString (.object (envelopeFields h x.encoded dhPublic))) :
    DecodedByConnect p text secret body := by
  refine ⟨envelopeOf h x dhPublic, htext ▸ fromStr_envelopeFields h x dhPublic, ?_⟩
  refine decodeConnectMessageBody_eq_ok_some_iff.mpr
    ⟨rfl, secret, trimSecret_of_decodeEncryptionSecret hroot, ?_⟩
  exact hx.openBody_eq_ok (hx.sealedBody?_envelopeOf dhPublic) rfl hroot

theorem decodedByWallet (hroot : decodeEncryptionSecret secret = .ok root)
    (hx : Sealed p h body root x)
    (htext : text = p.serde.toString (.object (envelopeFields h x.encoded dhPublic)))
    (hsession : Text.isBlank h.sessionId = false) (hdir : Text.isBlank h.dir = false)
    (htrim : Text.trim h.sessionId = h.sessionId) :
    DecodedByWallet p text h.sessionId secret body := by
  intro eventId createdAt
  have henvelope : p.serde.fromStr ConnectMessageEnvelope.read text =
      some (envelopeOf h x dhPublic) := htext ▸ fromStr_envelopeFields h x dhPublic
  have hdecode : WalletMessage.decodeConnectMessageBody p (envelopeOf h x dhPublic) (some secret)
      (Text.trim h.sessionId) = .ok body := by
    refine decodeConnectMessageBody_eq_ok_iff.mpr
      ⟨rfl, secret, trimSecret_of_decodeEncryptionSecret hroot, ?_⟩
    rw [htrim]
    exact hx.openBody_eq_ok (hx.sealedBody?_envelopeOf dhPublic) rfl hroot
  refine ⟨_, parse_eq_some henvelope hsession rfl htrim.symm hdir, ?_⟩
  obtain ⟨-, -, hjson, hdecrypted, -⟩ := messageOf_common (p := p) text (envelopeOf h x dhPublic)
    (WalletMessage.decodeConnectMessageBody p (envelopeOf h x dhPublic) (some secret)
      (Text.trim h.sessionId)).toOption eventId createdAt
  rw [hdecode] at hjson hdecrypted
  rw [hdecode]
  exact ⟨hdecrypted, hjson⟩

/-- A changed text opens under no secret. -/
theorem openBody_ne_ok {roots : Set Bytes}
    (hinj : Set.InjOn (fun r ↦ p.crypto.hkdf x.salt r keyInfo) roots) (hmem : root ∈ roots)
    (hx : Sealed p h body root x)
    (htext : text = p.serde.toString (.object (envelopeFields h x.encoded dhPublic)))
    {text' secret' : String} (hchanged : Changed p roots root text text' secret')
    {e' : ConnectMessageEnvelope F}
    (he' : p.serde.fromStr ConnectMessageEnvelope.read text' = some e') {key : String}
    (hkey : trimSecret (some secret') = some key) (body' : Value F) :
    openBody p e' e'.sessionId key ≠ .ok body' := by
  intro hopen
  obtain ⟨e, e'', he, he'', hsame, hother⟩ := hchanged
  obtain rfl := Option.some.inj (he'.symm.trans he'')
  rw [htext, fromStr_envelopeFields] at he
  obtain rfl := Option.some.inj he
  have hbody := hsame.sealedBody?.trans (hx.sealedBody?_envelopeOf dhPublic)
  obtain ⟨hheader, -, root', hroot', hkeys⟩ := hx.of_openBody hbody hopen
  obtain ⟨hsession, hdir, hseq, htype, hts⟩ := ConnectMessageEnvelope.header?_eq_some_iff.mp hheader
  rcases hother with hother | hother
  · apply hother
    rw [hsession, hdir, hseq, htype, hts]
    rfl
  · obtain rfl : key = Text.trim secret' := by
      rw [trimSecret, Option.filter_eq_some_iff] at hkey
      exact (Option.some.inj hkey.1).symm
    obtain ⟨hmem', hne⟩ := hother root' hroot'
    exact hne (hinj hmem' hmem hkeys)

theorem refusedByConnect_of_openBody {text' secret' : String}
    (h : ∀ e', p.serde.fromStr ConnectMessageEnvelope.read text' = some e' →
      ∀ key, trimSecret (some secret') = some key → ∀ body', openBody p e' e'.sessionId key ≠ .ok body') :
    RefusedByConnect p text' secret' := by
  intro e he body' hdecode
  obtain ⟨-, key, hkey, hopen⟩ := decodeConnectMessageBody_eq_ok_some_iff.mp hdecode
  exact h e he key hkey body' hopen

theorem refusedByWallet_of_openBody {text' secret' : String}
    (h : ∀ e', p.serde.fromStr ConnectMessageEnvelope.read text' = some e' →
      ∀ key, trimSecret (some secret') = some key → ∀ body', openBody p e' e'.sessionId key ≠ .ok body') :
    RefusedByWallet p text' secret' := by
  intro sessionId eventId createdAt m hm
  obtain ⟨e, hparsed⟩ := parsed_of_eq_some hm
  cases hread : m.bodyDecrypted with
  | false => rfl
  | true =>
      obtain ⟨key, body', hkey, hopen, -⟩ := hparsed.openBody hread
      exact absurd hopen (h e hparsed.envelope key hkey body')

theorem refusedByWallet_of_otherVersion {text' : String} (h : OtherVersion p text')
    (secret' : String) : RefusedByWallet p text' secret' := by
  obtain ⟨e', he', hversion⟩ := h
  intro sessionId eventId createdAt m hm
  obtain ⟨e, hparsed⟩ := parsed_of_eq_some hm
  obtain rfl := Option.some.inj (hparsed.envelope.symm.trans he')
  exact absurd hparsed.version hversion

/-- A text of any encoder is a sealed body in its envelope. -/
theorem sealed_of_seal {nonce : Except String { bs : Bytes // bs.length = 24 }} {salt : Bytes32}
    (hroot : decodeEncryptionSecret secret = .ok root)
    (hseal : sealConnectMessage p ⟨nonce, .ok salt⟩ h body secret dhPublic = .ok text) :
    ∃ x, x.salt = salt.bytes ∧ Sealed p h body root x ∧
      text = p.serde.toString (.object (envelopeFields h x.encoded dhPublic)) := by
  obtain ⟨root', x, salt', hroot', hsalt', hsalt, hx, htext⟩ := sealConnectMessage_eq_ok hseal
  obtain rfl := Except.ok.inj (hroot.symm.trans hroot')
  obtain rfl := Except.ok.inj hsalt'
  exact ⟨x, hsalt, hx, htext⟩

theorem refused_of_seal {nonce : Except String { bs : Bytes // bs.length = 24 }} {salt : Bytes32}
    {roots : Set Bytes} (hinj : Set.InjOn (fun r ↦ p.crypto.hkdf salt.bytes r keyInfo) roots)
    (hroot : decodeEncryptionSecret secret = .ok root) (hmem : root ∈ roots)
    (hseal : sealConnectMessage p ⟨nonce, .ok salt⟩ h body secret dhPublic = .ok text)
    {text' secret' : String} (hchanged : Changed p roots root text text' secret') :
    RefusedByConnect p text' secret' ∧ RefusedByWallet p text' secret' := by
  obtain ⟨x, hsalt, hx, htext⟩ := sealed_of_seal hroot hseal
  have hopen : ∀ e', p.serde.fromStr ConnectMessageEnvelope.read text' = some e' →
      ∀ key, trimSecret (some secret') = some key →
        ∀ body', openBody p e' e'.sessionId key ≠ .ok body' := fun _ he' _ hkey body' ↦
    openBody_ne_ok (hsalt ▸ hinj) hmem hx htext hchanged he' hkey body'
  exact ⟨refusedByConnect_of_openBody hopen, refusedByWallet_of_openBody hopen⟩

/-! ## What the decoders do not agree on -/

/-- The wallet reads no message of a session whose identifier has white space
around it: it trims the one it expects. -/
theorem not_decodedByWallet {sessionId : String} (htrim : Text.trim sessionId ≠ sessionId)
    {e : ConnectMessageEnvelope F} (he : p.serde.fromStr ConnectMessageEnvelope.read text = some e)
    (hsession : e.sessionId = sessionId) : ¬DecodedByWallet p text sessionId secret body := by
  intro hdecoded
  obtain ⟨m, hm, -⟩ := hdecoded "" 0
  obtain ⟨e', hparsed⟩ := parsed_of_eq_some hm
  obtain rfl := Option.some.inj (hparsed.envelope.symm.trans he)
  exact htrim (hparsed.session.symm.trans hsession)

/-- The decoder of `bee_connect` leaves the version to its callers. -/
theorem decodedByConnect_of_version (hroot : decodeEncryptionSecret secret = .ok root)
    (hx : Sealed p h body root x) (version : String)
    (he : p.serde.fromStr ConnectMessageEnvelope.read text =
      some { envelopeOf h x dhPublic with v := version }) : DecodedByConnect p text secret body := by
  refine ⟨_, he, decodeConnectMessageBody_eq_ok_some_iff.mpr
    ⟨rfl, secret, trimSecret_of_decodeEncryptionSecret hroot, ?_⟩⟩
  exact hx.openBody_eq_ok (hx.sealedBody?_envelopeOf dhPublic) rfl hroot

theorem fromStr_insert_version (version : String) :
    p.serde.fromStr ConnectMessageEnvelope.read (p.serde.toString
      (.object ((envelopeFields h x.encoded dhPublic).insert "v" (.str version)))) =
        some { envelopeOf h x dhPublic with v := version } := by
  rw [p.serde.fromStr_toString]
  cases dhPublic <;>
    simp [ConnectMessageEnvelope.read, ConnectMessageEnc.read, envelopeFields, envelopeOf,
      Json.Map.ofList, Json.required, Json.optional, SealedBody.encoded]

/-! ## The codec -/

/-- Both crates read what the other wrote, and no text around the ciphertext of
a message is accepted with another header, nor with another root. -/
theorem connectMessage_codec (p : Primitives F)
    (nonce : Except String { bs : Bytes // bs.length = 24 }) (salt : Bytes32) {roots : Set Bytes}
    (hinj : Set.InjOn (fun r ↦ p.crypto.hkdf salt.bytes r keyInfo) roots) {secret : String}
    {root : Bytes} (hroot : decodeEncryptionSecret secret = .ok root) (hmem : root ∈ roots) :
    (∀ now sessionId dir seq msgType body dhPublic text,
      encodeConnectMessage p ⟨nonce, .ok salt⟩ now sessionId dir seq msgType body (some secret)
        dhPublic = .ok text →
      DecodedByConnect p text secret body ∧
        (Text.trim sessionId = sessionId → DecodedByWallet p text sessionId secret body) ∧
        (∀ text' secret', Changed p roots root text text' secret' →
          RefusedByConnect p text' secret' ∧ RefusedByWallet p text' secret') ∧
        ∀ text' secret', OtherVersion p text' → RefusedByWallet p text' secret') ∧
    (∀ now sessionId walletName walletAddress walletDhPublic seq challengeNonce challengeSignature
      challengeEpkPublic text,
      encodeWalletHelloMessage p ⟨nonce, .ok salt⟩ now sessionId walletName walletAddress secret
        walletDhPublic seq challengeNonce challengeSignature challengeEpkPublic = .ok text →
      DecodedByConnect p text secret (walletHelloBody walletName walletAddress challengeNonce
        challengeSignature challengeEpkPublic) ∧
        ∀ text' secret', Changed p roots root text text' secret' →
          RefusedByConnect p text' secret') ∧
    ∀ now sessionId challenge signature walletAddress epkPublic walletDhPublic seq text,
      encodeChallengeResponseMessage p ⟨nonce, .ok salt⟩ now sessionId challenge signature
        walletAddress epkPublic secret walletDhPublic seq = .ok text →
      DecodedByConnect p text secret
        (challengeResponseBody challenge signature walletAddress epkPublic) ∧
        ∀ text' secret', Changed p roots root text text' secret' →
          RefusedByConnect p text' secret' := by
  refine ⟨?_, ?_, ?_⟩
  · rintro now sessionId dir seq msgType body dhPublic text hencode
    obtain ⟨hsession, hdir, ts, -, hseal⟩ := encodeConnectMessage_eq_ok hencode
    obtain ⟨x, -, hx, htext⟩ := sealed_of_seal hroot hseal
    refine ⟨decodedByConnect hroot hx htext, ?_, ?_, ?_⟩
    · intro htrim
      exact decodedByWallet (h := ⟨sessionId, dir, seq, msgType, ts⟩) hroot hx htext hsession hdir
        htrim
    · intro text' secret' hchanged
      exact refused_of_seal hinj hroot hmem hseal hchanged
    · intro text' secret' hversion
      exact refusedByWallet_of_otherVersion hversion secret'
  · rintro now sessionId walletName walletAddress walletDhPublic seq challengeNonce
      challengeSignature challengeEpkPublic text hencode
    rw [encodeWalletHelloMessage] at hencode
    split_ifs at hencode
    obtain ⟨x, -, hx, htext⟩ := sealed_of_seal hroot hencode
    refine ⟨decodedByConnect hroot hx htext, ?_⟩
    intro text' secret' hchanged
    exact (refused_of_seal hinj hroot hmem hencode hchanged).1
  · rintro now sessionId challenge signature walletAddress epkPublic walletDhPublic seq text hencode
    rw [encodeChallengeResponseMessage] at hencode
    split_ifs at hencode
    obtain ⟨x, -, hx, htext⟩ := sealed_of_seal hroot hencode
    refine ⟨decodedByConnect hroot hx htext, ?_⟩
    intro text' secret' hchanged
    exact (refused_of_seal hinj hroot hmem hencode hchanged).1

/-! ## A disconnect over the real primitives -/

/-- What a sender gives to the cipher. -/
def sealingOf (c : Crypto) (serde : SerdeJson F) (h : Header) (body : Value F)
    (root nonce salt : Bytes) : Sealing :=
  ⟨c.hkdf salt root keyInfo, nonce, connectMessageAad serde h, serde.toVec body⟩

/-- XChaCha20-Poly1305 of what went into a ciphertext. -/
def xchacha (q : Sealing) : Bytes := XChaCha.encrypt q.key q.nonce q.aad q.msg

open Ratchet (repeated exampleCrypto)
open Json.Compact (serde)

theorem length_fives : (List.replicate 24 (5 : UInt8)).length = 24 := List.length_replicate

def exampleNonce : { bs : Bytes // bs.length = 24 } := ⟨List.replicate 24 5, length_fives⟩

def exampleHeader (sessionId : String) : Header :=
  ⟨sessionId, "c2w", 1700000000000, typeClientDisconnect, 1700000000⟩

def exampleBody : Value Empty := .object (.ofList [("reason", .str "done")])

/-- A disconnect, in a session whose identifier begins with a space or not. -/
def exampleSealings : List Sealing :=
  ["session-1", " session-1"].map fun sessionId ↦
    sealingOf exampleCrypto serde (exampleHeader sessionId) exampleBody (repeated 1).bytes
      exampleNonce.val (repeated 6).bytes

theorem nodup_exampleSealings : (exampleSealings.map xchacha).Nodup := by decide +kernel

theorem head_exampleSealings : ∀ q ∈ exampleSealings, (xchacha q).head? ≠ some 0 := by
  decide +kernel

def examplePrimitives : Primitives Empty :=
  ⟨exampleCrypto, .recorded nodup_exampleSealings head_exampleSealings, serde⟩

def exampleText (sessionId : String) : Except String String :=
  encodeConnectMessage examplePrimitives ⟨.ok exampleNonce, .ok (repeated 6)⟩ (.ok 1700000000)
    sessionId "c2w" 1700000000000 typeClientDisconnect exampleBody (some (repeated 1).hex) none

example : exampleSealings.head?.map (fun q ↦ Base64.encode (xchacha q)) =
    some "F3tWNuYJH_ewBHfmzADHFsGjj9YtaQSkSZ1WPmKACQ7f" := by
  decide +kernel

/-- The encoder writes the message, for a session with any visible name. -/
theorem exists_exampleText (sessionId : String) (h : Text.isBlank sessionId = false) :
    ∃ text, exampleText sessionId = .ok text ∧
      sealConnectMessage examplePrimitives ⟨.ok exampleNonce, .ok (repeated 6)⟩
        (exampleHeader sessionId) exampleBody (repeated 1).hex none = .ok text := by
  obtain ⟨text, htext⟩ : ∃ text, sealConnectMessage examplePrimitives
      ⟨.ok exampleNonce, .ok (repeated 6)⟩ (exampleHeader sessionId) exampleBody (repeated 1).hex
        none = .ok text :=
    ⟨_, sealConnectMessage_of rfl rfl (decodeEncryptionSecret_hex (repeated 1)) rfl none⟩
  refine ⟨text, ?_, htext⟩
  rw [exampleText, encodeConnectMessage, if_neg (by simp [h]), if_neg (by decide),
    if_neg (by decide)]
  exact htext

theorem injOn_exampleRoots : Set.InjOn
    (fun r ↦ examplePrimitives.crypto.hkdf (repeated 6).bytes r keyInfo)
    {(repeated 1).bytes, (repeated 2).bytes} := by
  have hne : Sha256.hkdf (repeated 6).bytes (repeated 1).bytes keyInfo ≠
      Sha256.hkdf (repeated 6).bytes (repeated 2).bytes keyInfo := by decide +kernel
  rintro r (rfl | rfl) r' (rfl | rfl) hsame
  · rfl
  · exact absurd hsame hne
  · exact absurd hsame.symm hne
  · rfl

theorem connectMessage_codec_disconnect :
    ∃ text, exampleText "session-1" = .ok text ∧
      DecodedByConnect examplePrimitives text (repeated 1).hex exampleBody ∧
      DecodedByWallet examplePrimitives text "session-1" (repeated 1).hex exampleBody ∧
      RefusedByConnect examplePrimitives text (repeated 2).hex ∧
      RefusedByWallet examplePrimitives text (repeated 2).hex := by
  obtain ⟨text, htext, hseal⟩ := exists_exampleText "session-1" (by decide)
  obtain ⟨hcodec, -⟩ := connectMessage_codec examplePrimitives (.ok exampleNonce) (repeated 6)
    injOn_exampleRoots (decodeEncryptionSecret_hex (repeated 1)) (Set.mem_insert _ _)
  obtain ⟨hconnect, hwallet, hchanged, -⟩ := hcodec _ _ _ _ _ _ _ _ htext
  refine ⟨text, htext, hconnect, hwallet (by decide), hchanged text _ ?_⟩
  obtain ⟨x, -, hx, rfl⟩ := sealed_of_seal (decodeEncryptionSecret_hex (repeated 1)) hseal
  refine ⟨_, _, fromStr_envelopeFields _ x none, fromStr_envelopeFields _ x none, ⟨rfl, rfl⟩,
    .inr ?_⟩
  intro root' hroot'
  have htrim : Text.trim (repeated 2).hex = (repeated 2).hex := by decide +kernel
  rw [htrim, decodeEncryptionSecret_hex] at hroot'
  obtain rfl := Except.ok.inj hroot'
  exact ⟨.inr rfl, by decide⟩

/-- A session identifier that begins with a space, and a message whose version
was changed. -/
theorem not_connectMessage_codec :
    (∃ text, exampleText " session-1" = .ok text ∧
      ¬DecodedByWallet examplePrimitives text " session-1" (repeated 1).hex exampleBody) ∧
    ∃ text text' e, exampleText "session-1" = .ok text ∧
      examplePrimitives.serde.fromStr ConnectMessageEnvelope.read text = some e ∧
      examplePrimitives.serde.fromStr ConnectMessageEnvelope.read text' =
        some { e with v := "bee_connect.msg/2" } ∧
      DecodedByConnect examplePrimitives text' (repeated 1).hex exampleBody := by
  constructor
  · obtain ⟨text, htext, hseal⟩ := exists_exampleText " session-1" (by decide)
    obtain ⟨x, -, hx, rfl⟩ := sealed_of_seal (decodeEncryptionSecret_hex (repeated 1)) hseal
    exact ⟨_, htext, not_decodedByWallet (by decide) (fromStr_envelopeFields _ x none) rfl⟩
  · obtain ⟨text, htext, hseal⟩ := exists_exampleText "session-1" (by decide)
    obtain ⟨x, -, hx, rfl⟩ := sealed_of_seal (decodeEncryptionSecret_hex (repeated 1)) hseal
    exact ⟨_, _, _, htext, fromStr_envelopeFields _ x none, fromStr_insert_version _,
      decodedByConnect_of_version (decodeEncryptionSecret_hex (repeated 1)) hx _
        (fromStr_insert_version _)⟩

end MessageCodec

end BeeEngine
