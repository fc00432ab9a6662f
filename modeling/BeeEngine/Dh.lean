import BeeEngine.Lib.Bytes

/-!
# Key agreement of a connect session

X25519, HKDF-SHA256 and Ed25519 are parameters; keys and roots are kept as
hexadecimal text, as the session state stores them.  Times and random bytes
are arguments.
-/

namespace BeeEngine

/-- The primitives that the session uses. -/
structure Crypto where
  publicKey : Bytes32 → Bytes32
  diffieHellman : Bytes32 → Bytes32 → Bytes32
  hkdf : Bytes → Bytes → Bytes → Bytes32
  verifyingKey : Bytes32 → Bytes32

/-- Two parties compute the same shared secret. -/
def Crypto.Agrees (c : Crypto) : Prop :=
  ∀ a b, c.diffieHellman a (c.publicKey b) = c.diffieHellman b (c.publicKey a)

namespace Bytes32

def hex (a : Bytes32) : String := Bytes.hexEncode a.bytes

theorem hex_injective {a b : Bytes32} (h : a.hex = b.hex) : a = b :=
  bytes_injective (Bytes.hexEncode_injective h)

/-- Read 32 bytes of hexadecimal text, with the caller's messages. -/
def decode (decodeError : String) (lengthError : ℕ → String) (text : String) :
    Except String Bytes32 :=
  match Bytes.hexDecode text with
  | .error e => .error (decodeError ++ " (" ++ e.message ++ ")")
  | .ok bs =>
      match ofSlice? bs with
      | some a => .ok a
      | none => .error (lengthError bs.length)

@[simp] theorem decode_hex (decodeError : String) (lengthError : ℕ → String) (a : Bytes32) :
    decode decodeError lengthError a.hex = .ok a := by
  rw [decode, hex, Bytes.hexDecode_hexEncode]
  simp only [ofSlice?_bytes]

end Bytes32

namespace Dh

def signingKeyInfo : Bytes := Bytes.utf8 "bee_connect.signing.v1"
def encryptionKeyInfo : Bytes := Bytes.utf8 "bee_connect.encryption.v1"
def rekeyInfo : Bytes := Bytes.utf8 "bee_connect.rekey.v1"

def defaultSessionTtlSecs : UInt64 := 24 * 60 * 60

structure DhKeyPair where
  publicHex : String
  secretHex : String
  deriving DecidableEq, Repr

structure DhSessionKeys where
  signingPublicHex : String
  signingSecretHex : String
  encryptionRootHex : String
  deriving DecidableEq, Repr

variable (c : Crypto)

def generateDhKeypair (random : Except String Bytes32) : Except String DhKeyPair :=
  match random with
  | .error e => .error ("Failed to generate random bytes: " ++ e)
  | .ok secret => .ok ⟨(c.publicKey secret).hex, secret.hex⟩

def computeSharedSecret (mySecretHex theirPublicHex : String) : Except String String := do
  let mySecret ← Bytes32.decode "Decode DH secret hex"
    (fun _ ↦ "DH secret must be 32 bytes") mySecretHex
  let theirPublic ← Bytes32.decode "Decode DH public hex"
    (fun _ ↦ "DH public key must be 32 bytes") theirPublicHex
  let shared := c.diffieHellman mySecret theirPublic
  if shared.bytes.all (· = 0) then
    throw "DH shared secret is zero (invalid peer public key)"
  else return shared.hex

/-- Read a shared secret. -/
def decodeShared (sharedSecretHex : String) : Except String Bytes32 :=
  Bytes32.decode "Decode shared secret hex"
    (fun n ↦ "Shared secret must be 32 bytes, got " ++ toString n) sharedSecretHex

def deriveSessionKeys (sharedSecretHex sessionId : String) : Except String DhSessionKeys := do
  let shared ← decodeShared sharedSecretHex
  let salt := Bytes.utf8 sessionId
  let signingSeed := c.hkdf salt shared.bytes signingKeyInfo
  let encryptionRoot := c.hkdf salt shared.bytes encryptionKeyInfo
  return ⟨(c.verifyingKey signingSeed).hex, signingSeed.hex, encryptionRoot.hex⟩

def deriveRekeyRoot (currentRootHex sharedSecretHex sessionId : String) :
    Except String String := do
  let root ← Bytes32.decode "Decode current root hex"
    (fun n ↦ "Encryption root must be 32 bytes, got " ++ toString n) currentRootHex
  let shared ← decodeShared sharedSecretHex
  return (c.hkdf (Bytes.utf8 sessionId) (root.bytes ++ shared.bytes) rekeyInfo).hex

structure ConnectSessionState where
  encryptionRoot : String
  myDhSecret : String
  peerDhPublic : String
  signingPublic : String
  signingSecret : String
  createdAt : UInt64
  expiresAt : UInt64
  lastSeenSeq : UInt64
  lastSentSeq : UInt64
  deriving DecidableEq, Repr

namespace ConnectSessionState

def isExpired (state : ConnectSessionState) (now : UInt64) : Bool :=
  if state.expiresAt = 0 then false else state.expiresAt ≤ now

def ensureNotExpired (state : ConnectSessionState) (now : UInt64) : Except String Unit :=
  if state.isExpired now then
    .error ("Connect session expired at " ++ toString state.expiresAt ++ " (created_at=" ++
      toString state.createdAt ++ ")")
  else .ok ()

end ConnectSessionState

structure RekeyResult where
  messageEncryptionRoot : String
  newDhPublic : Option String
  updatedState : ConnectSessionState
  outboundSeq : UInt64
  deriving DecidableEq, Repr

def createInitialState (sessionKeys : DhSessionKeys) (myDhSecretHex peerDhPublicHex : String)
    (now : UInt64) : ConnectSessionState where
  encryptionRoot := sessionKeys.encryptionRootHex
  myDhSecret := myDhSecretHex
  peerDhPublic := peerDhPublicHex
  signingPublic := sessionKeys.signingPublicHex
  signingSecret := sessionKeys.signingSecretHex
  createdAt := now
  expiresAt := now + defaultSessionTtlSecs
  lastSeenSeq := 0
  lastSentSeq := 0

def checkOutboundSeq (state : ConnectSessionState) (outboundSeq : UInt64) : Except String Unit :=
  if outboundSeq = 0 then .error "rekey_outbound: outbound_seq must be > 0"
  else if outboundSeq ≤ state.lastSentSeq then
    .error ("rekey_outbound: seq " ++ toString outboundSeq ++
      " is not monotonically increasing (last_sent=" ++ toString state.lastSentSeq ++ ")")
  else .ok ()

def checkIncomingSeq (state : ConnectSessionState) (incomingSeq : UInt64) : Except String Unit :=
  if incomingSeq = 0 then .error "rekey_inbound: incoming seq must be > 0"
  else if incomingSeq ≤ state.lastSeenSeq then
    .error ("rekey_inbound: replay detected — incoming seq " ++ toString incomingSeq ++
      " <= last_seen_seq " ++ toString state.lastSeenSeq)
  else .ok ()

def rekeyOutbound (state : ConnectSessionState) (sessionId : String) (outboundSeq now : UInt64)
    (random : Except String Bytes32) : Except String RekeyResult := do
  state.ensureNotExpired now
  checkOutboundSeq state outboundSeq
  let newDh ← generateDhKeypair c random
  let shared ← computeSharedSecret c newDh.secretHex state.peerDhPublic
  let newRoot ← deriveRekeyRoot c state.encryptionRoot shared sessionId
  return {
    messageEncryptionRoot := newRoot
    newDhPublic := some newDh.publicHex
    updatedState := { state with
      encryptionRoot := newRoot
      myDhSecret := newDh.secretHex
      lastSentSeq := outboundSeq }
    outboundSeq := outboundSeq }

def rekeyInbound (state : ConnectSessionState) (peerNewDhPublic sessionId : String)
    (incomingSeq now : UInt64) : Except String RekeyResult := do
  state.ensureNotExpired now
  checkIncomingSeq state incomingSeq
  let shared ← computeSharedSecret c state.myDhSecret peerNewDhPublic
  let newRoot ← deriveRekeyRoot c state.encryptionRoot shared sessionId
  return {
    messageEncryptionRoot := newRoot
    newDhPublic := none
    updatedState := { state with
      encryptionRoot := newRoot
      peerDhPublic := peerNewDhPublic
      lastSeenSeq := incomingSeq }
    outboundSeq := 0 }

end Dh

end BeeEngine
