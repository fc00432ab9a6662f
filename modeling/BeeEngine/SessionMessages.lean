import BeeEngine.WalletMessage

/-!
# Reading the messages of a session

`query_session_messages` of the wallet: each event of a page is tried with the
re-keyed root, and else parsed with the root of the state.  What the chain
answers is an argument; the clock is read for each event.
-/

namespace BeeEngine

open ConnectMessage WalletMessage Dh
open Json (Value)

namespace SessionMessages

variable {F : Type}

/-- An event of the profile, and the time when it is processed. -/
structure Record where
  eventId : String
  createdAt : UInt64
  text : String
  now : UInt64
  deriving DecidableEq, Repr

structure Params where
  sessionId : String
  description : String
  sessionState : Option ConnectSessionState

/-- What the chain answers: the address of the profile, whether it is deployed,
and a page of its events with the cursor. -/
structure Answer where
  profileAddress : Except String String
  isDeployed : Bool
  page : Except String (List Record × Option String)

structure ResultOfQuerySessionMessages where
  profileAddress : String
  messages : List ConnectSessionMessage
  nextBefore : Option String
  updatedSessionState : Option ConnectSessionState

def validateSessionMessageParams (sessionId description : String) : Except String Unit :=
  if Text.isBlank sessionId then .error "connect session_id is empty"
  else if Text.isBlank description then .error "connect description is empty"
  else .ok ()

/-- The peer key and the number of a text that asks for a re-key. -/
def needsRekey (serde : SerdeJson F) (sessionId text : String) : Option (String × UInt64) := do
  let envelope ← serde.fromStr some text
  let dir ← (envelope.get? "dir").bind (·.asStr?)
  let peerDhPub ← (envelope.get? "dh_public").bind (·.asStr?)
  let session ← (envelope.get? "session_id").bind (·.asStr?)
  if dir = "c2w" ∧ session = sessionId then
    return (peerDhPub, ((envelope.get? "seq").bind (·.asU64?)).getD 0)
  else none

/-- The message of an event and the state after it, if it opens under the
re-keyed root. -/
def acceptWithRekey (p : Primitives F) (sessionId : String) (state : ConnectSessionState)
    (record : Record) : Option (ConnectSessionMessage × ConnectSessionState) :=
  match needsRekey p.serde sessionId record.text with
  | none => none
  | some (peerDhPub, seq) =>
      match rekeyInbound p.crypto state peerDhPub sessionId seq record.now with
      | .error _ => none
      | .ok rekey =>
          match parseConnectSessionMessageWithSecret p record.text sessionId
              (some rekey.messageEncryptionRoot) record.eventId record.createdAt with
          | none => none
          | some msg =>
              if msg.bodyDecrypted then
                some ({ msg with sessionStateAfter := some rekey.updatedState },
                  rekey.updatedState)
              else none

/-- An event that is not accepted is parsed with the current root. -/
def parseWithCurrent (p : Primitives F) (sessionId : String)
    (state : Option ConnectSessionState) (record : Record) : Option ConnectSessionMessage :=
  match state with
  | some s =>
      parseConnectSessionMessageWithSecret p record.text sessionId (some s.encryptionRoot)
        record.eventId record.createdAt
  | none => parseConnectSessionMessage p record.text sessionId record.eventId record.createdAt

/-- The variables of the loop. -/
structure Loop where
  currentState : Option ConnectSessionState
  hadSuccessfulRekey : Bool
  messages : List ConnectSessionMessage

def processRecord (p : Primitives F) (sessionId : String) (l : Loop) (record : Record) : Loop :=
  match l.currentState.bind fun state ↦ acceptWithRekey p sessionId state record with
  | some (msg, state) => ⟨some state, true, l.messages ++ [msg]⟩
  | none =>
      { l with messages := l.messages ++ (parseWithCurrent p sessionId l.currentState record).toList }

def querySessionMessages (p : Primitives F) (params : Params) (answer : Answer) :
    Except String ResultOfQuerySessionMessages := do
  validateSessionMessageParams params.sessionId params.description
  let profileAddress ← answer.profileAddress
  if answer.isDeployed = false then
    return ⟨profileAddress, [], none, none⟩
  else
    let (events, cursor) ← answer.page
    let l := events.foldl (processRecord p params.sessionId) ⟨params.sessionState, false, []⟩
    return ⟨profileAddress, l.messages, cursor,
      if l.hadSuccessfulRekey then l.currentState else params.sessionState⟩

/-- What a query of a deployed profile gives. -/
theorem querySessionMessages_eq_ok {p : Primitives F} {params : Params} {answer : Answer}
    {result : ResultOfQuerySessionMessages}
    (h : querySessionMessages p params answer = .ok result) (hdeployed : answer.isDeployed = true) :
    ∃ events cursor, answer.page = .ok (events, cursor) ∧
      ∃ l, l = events.foldl (processRecord p params.sessionId) ⟨params.sessionState, false, []⟩ ∧
        result.messages = l.messages ∧ result.updatedSessionState =
          if l.hadSuccessfulRekey then l.currentState else params.sessionState := by
  obtain ⟨⟨⟩, -, h⟩ := Outcome.bind_eq_ok_iff.mp h
  obtain ⟨address, -, h⟩ := Outcome.bind_eq_ok_iff.mp h
  rw [if_neg (by simp [hdeployed])] at h
  obtain ⟨⟨events, cursor⟩, hpage, h⟩ := Outcome.bind_eq_ok_iff.mp h
  rw [← Except.ok.inj h]
  exact ⟨events, cursor, hpage, _, rfl, rfl, rfl⟩

end SessionMessages

end BeeEngine
