import BeeEngine.Dh

/-!
# The handshake of a connect session

The wallet accepts a connection and sends its `wallet_hello`; the dApp finds
this event and makes its own session state of it.  The encryption of bodies is
a parameter of which nothing is assumed.
-/

namespace BeeEngine

open Dh

namespace Handshake

def connectMessageVersion : String := "bee_connect.msg/1"
def typeWalletHello : String := "wallet_hello"

/-- An envelope; `body` stands for the encrypted body and its parameters. -/
structure ConnectMessageEnvelope (Body : Type) where
  v : String
  sessionId : String
  dir : String
  seq : UInt64
  msgType : String
  ts : Option UInt64
  dhPublic : Option String
  body : Body

/-- Encryption of the hello body under a root, for a sequence number and time. -/
abbrev Seal (Body : Type) := String → UInt64 → UInt64 → Except String Body

inductive HelloFailure where
  | noDhPublic
  | dhFailure
  | decryptFailure
  | bodyParseFailure
  deriving DecidableEq, Repr

/-- Decryption of a hello body under a root. -/
abbrev Unseal (Body : Type) :=
  ConnectMessageEnvelope Body → String → Except HelloFailure Unit

variable {Body : Type} (c : Crypto)

def encodeWalletHelloMessage (encrypt : Seal Body)
    (sessionId encryptionRoot walletDhPublic : String)
    (seq ts : UInt64) : Except String (ConnectMessageEnvelope Body) := do
  if sessionId = "" then throw "wallet_hello session_id is empty"
  else if seq = 0 then throw "wallet_hello seq must be > 0"
  else
    let body ← encrypt encryptionRoot seq ts
    return {
      v := connectMessageVersion
      sessionId := sessionId
      dir := "w2c"
      seq := seq
      msgType := typeWalletHello
      ts := some ts
      dhPublic := some walletDhPublic
      body := body }

/-- What the wallet takes from outside while it accepts: random bytes, the
outcome of the profile's deployment and checks, the clock in milliseconds and
seconds, and the outcome of sending the hello. -/
structure AcceptInputs where
  random : Except String Bytes32
  profile : Except String Unit
  nowMs : Except String UInt64
  ts : UInt64
  sent : Except String Unit
  now : UInt64

/-- The wallet's state and its hello. -/
def acceptConnectCommon (encrypt : Seal Body) (sessionId clientDhPublic : String)
    (i : AcceptInputs) : Except String (ConnectSessionState × ConnectMessageEnvelope Body) := do
  let walletDh ← generateDhKeypair c i.random
  let shared ← computeSharedSecret c walletDh.secretHex clientDhPublic
  let sessionKeys ← deriveSessionKeys c shared sessionId
  i.profile
  let helloSeq ← i.nowMs
  let hello ← encodeWalletHelloMessage encrypt sessionId sessionKeys.encryptionRootHex
    walletDh.publicHex helloSeq i.ts
  i.sent
  let state := createInitialState sessionKeys walletDh.secretHex clientDhPublic i.now
  return ({ state with lastSentSeq := helloSeq }, hello)

def isWalletHello (sessionId : String) (envelope : ConnectMessageEnvelope Body) : Bool :=
  envelope.v = connectMessageVersion ∧ envelope.sessionId = sessionId ∧ envelope.dir = "w2c" ∧
    envelope.seq ≠ 0 ∧ envelope.msgType = typeWalletHello

/-- The dApp's session keys from the wallet's key. -/
def helloKeys (sessionId clientDhSecret walletDhPublic : String) : Except String DhSessionKeys := do
  let shared ← computeSharedSecret c clientDhSecret walletDhPublic
  deriveSessionKeys c shared sessionId

/-- The dApp's state from one matching envelope. -/
def helloState (decrypt : Unseal Body) (sessionId clientDhSecret : String) (now : UInt64)
    (envelope : ConnectMessageEnvelope Body) : Except HelloFailure ConnectSessionState :=
  match envelope.dhPublic with
  | none => .error .noDhPublic
  | some walletDhPublic =>
      match helloKeys c sessionId clientDhSecret walletDhPublic with
      | .error _ => .error .dhFailure
      | .ok sessionKeys =>
          match decrypt envelope sessionKeys.encryptionRootHex with
          | .error failure => .error failure
          | .ok _ =>
              .ok { createInitialState sessionKeys clientDhSecret walletDhPublic now with
                lastSeenSeq := envelope.seq }

def failureMessage (totalEvents : ℕ) (failures : List HelloFailure) : String :=
  "wallet_hello: found " ++ toString failures.length ++
    " matching event(s) but none succeeded (total_events=" ++ toString totalEvents ++
    ", no_dh=" ++ toString (failures.count .noDhPublic) ++
    ", dh_fail=" ++ toString (failures.count .dhFailure) ++
    ", decrypt_fail=" ++ toString (failures.count .decryptFailure) ++
    ", body_parse_fail=" ++ toString (failures.count .bodyParseFailure) ++ ")"

/-- The search through the events; one that is no envelope is `none`. -/
def searchHello (decrypt : Unseal Body) (sessionId clientDhSecret : String) (now : UInt64)
    (totalEvents : ℕ) (failures : List HelloFailure) :
    List (Option (ConnectMessageEnvelope Body)) → Except String (Option ConnectSessionState)
  | [] =>
      if failures.isEmpty then .ok none else .error (failureMessage totalEvents failures)
  | none :: rest => searchHello decrypt sessionId clientDhSecret now totalEvents failures rest
  | some envelope :: rest =>
      if isWalletHello sessionId envelope then
        match helloState c decrypt sessionId clientDhSecret now envelope with
        | .ok state => .ok (some state)
        | .error failure =>
            searchHello decrypt sessionId clientDhSecret now totalEvents (failures ++ [failure])
              rest
      else searchHello decrypt sessionId clientDhSecret now totalEvents failures rest

def findWalletHelloEvent (decrypt : Unseal Body) (sessionId clientDhSecret : String)
    (now : UInt64) (records : List (Option (ConnectMessageEnvelope Body))) :
    Except String (Option ConnectSessionState) :=
  searchHello c decrypt sessionId clientDhSecret now records.length [] records

/-- A state that was found is made of an event that matches. -/
theorem exists_of_searchHello {decrypt : Unseal Body} {sessionId clientDhSecret : String}
    {now : UInt64} {totalEvents : ℕ} {failures : List HelloFailure}
    {records : List (Option (ConnectMessageEnvelope Body))} {state : ConnectSessionState}
    (h : searchHello c decrypt sessionId clientDhSecret now totalEvents failures records =
      .ok (some state)) :
    ∃ envelope, some envelope ∈ records ∧ isWalletHello sessionId envelope = true ∧
      helloState c decrypt sessionId clientDhSecret now envelope = .ok state := by
  induction records generalizing failures with
  | nil =>
      rw [searchHello] at h
      split at h
      · cases h
      · cases h
  | cons record rest ih =>
      cases record with
      | none =>
          obtain ⟨envelope, hmem, hrest⟩ := ih h
          exact ⟨envelope, List.mem_cons_of_mem _ hmem, hrest⟩
      | some envelope =>
          rw [searchHello] at h
          split at h
          · rename_i hmatch
            split at h
            · rename_i found hfound
              obtain rfl := Option.some.inj (Except.ok.inj h)
              exact ⟨envelope, List.mem_cons_self, hmatch, hfound⟩
            · obtain ⟨envelope', hmem, hrest⟩ := ih h
              exact ⟨envelope', List.mem_cons_of_mem _ hmem, hrest⟩
          · obtain ⟨envelope', hmem, hrest⟩ := ih h
            exact ⟨envelope', List.mem_cons_of_mem _ hmem, hrest⟩

end Handshake

end BeeEngine
