import BeeEngine.ConnectPayload
import BeeEngine.Infra
import BeeEngine.Lib.Chunks
import BeeEngine.Lib.Paging

/-!
# The active sessions of a multifactor

`query_active_sessions_by_multifactor` scans the events of deployed profiles in
chunks, newest first, until a page is full or the events run out.
-/

namespace BeeEngine

namespace ActiveSessions

open Deeplink

def activeSessionsChunkSize : ℕ := 10

/-- An event `AuthProfileDeployed` of the root. -/
structure ProfileDeployed where
  profile : String
  description : String
  eventId : String
  createdAt : UInt64
  deriving DecidableEq, Repr

structure ParamsOfQueryProfilesByMultifactor where
  multifactor : String
  createdAtFrom : Option UInt64
  limit : Option ℕ
  before : Option String
  deriving DecidableEq, Repr

structure ResultOfQueryProfiles where
  records : List ProfileDeployed
  oldestCursor : Option String

/-- What a call asks of the contract kit. -/
structure AuthServiceRoot where
  queryProfilesByMultifactor :
    ParamsOfQueryProfilesByMultifactor → Except AppError ResultOfQueryProfiles
  isDeployed : String → Bool

structure Params where
  multifactorAddress : String
  appId : Option String
  createdAtFrom : Option UInt64
  before : Option String

structure ActiveConnectSession where
  profileAddress : String
  description : String
  appId : Option String
  sessionId : Option String
  deployedEventId : String
  deployedAt : UInt64
  deriving DecidableEq, Repr

structure ResultOfQueryActiveSessions where
  sessions : List ActiveConnectSession
  nextBefore : Option String
  exhaustedActive : Bool

def normalizeOptionalAppId : Option String → Except AppError (Option String)
  | none => .ok none
  | some value =>
      if Text.isBlank value then .ok none
      else ((ConnectMessage.normalizeUint256Hex value).mapError AppError.new).map some

def isConnectDescription (value : String) : Bool :=
  (Text.stripPrefix connectDescriptionPrefix value).isSome

def activeSessionUniquenessKey (value : ActiveConnectSession) : String :=
  let sessionPart := ((value.sessionId.filter fun v ↦ !Text.isBlank v)).getD value.description
  Text.toAsciiLowercase value.profileAddress ++ "::" ++ sessionPart

/-! ## Scanning a chunk -/

/-- The variables of the scan. -/
structure Scan where
  sessions : List ActiveConnectSession
  seenSessionKeys : Finset String
  deployedCache : List (String × Bool)
  hasDeployedConnectProfile : Bool

def pushUniqueActiveSession (session : ActiveConnectSession) (scan : Scan) : Scan :=
  let key := activeSessionUniquenessKey session
  if key ∈ scan.seenSessionKeys then scan
  else
    { scan with
      sessions := scan.sessions ++ [session]
      seenSessionKeys := insert key scan.seenSessionKeys }

section

variable (isDeployed : String → Bool) (appIdFilter : Option String)

/-- Whether the profile is deployed, which is asked once. -/
def isDeployedCached (profile : String) (scan : Scan) : Bool × Scan :=
  match scan.deployedCache.lookup profile with
  | some cached => (cached, scan)
  | none =>
      let value := isDeployed profile
      (value, { scan with deployedCache := (profile, value) :: scan.deployedCache })

def sessionOf (record : ProfileDeployed) : ActiveConnectSession :=
  let parsed := parseConnectDescription record.description
  { profileAddress := record.profile
    description := record.description
    appId := parsed.appId
    sessionId := parsed.sessionId
    deployedEventId := record.eventId
    deployedAt := record.createdAt }

/-- The profile passes the filter, if there is one. -/
def matchesFilter (record : ProfileDeployed) : Bool :=
  match appIdFilter with
  | none => true
  | some filter => (parseConnectDescription record.description).appId = some filter

/-- A record, with whether a session of it was pushed. -/
def scanRecord (record : ProfileDeployed) (scan : Scan) : Scan × Bool :=
  if ¬isConnectDescription record.description then (scan, false)
  else
    let (deployed, scan) := isDeployedCached isDeployed record.profile scan
    if ¬deployed then (scan, false)
    else
      let scan := { scan with hasDeployedConnectProfile := true }
      if ¬matchesFilter appIdFilter record then (scan, false)
      else (pushUniqueActiveSession (sessionOf record) scan, true)

def scanRecords : List ProfileDeployed → Scan → Scan
  | [], scan => scan
  | record :: records, scan =>
      let (scan, pushed) := scanRecord isDeployed appIdFilter record scan
      -- Once the page is full, the rest of the chunk is left.
      if pushed ∧ scan.sessions.length ≥ activeSessionsChunkSize then scan
      else scanRecords records scan

end

/-! ## A call -/

structure Loop where
  scan : Scan
  nextBefore : Option String
  before : Option String
  cursorStalled : Bool

section

variable (root : AuthServiceRoot) (params : Params) (appIdFilter : Option String)

/-- A round of the loop, with whether the loop goes on. -/
def scanChunk (l : Loop) : Except AppError (Loop × Bool) := do
  let queryResult ← inContext "AuthServiceRoot::query_profiles_by_multifactor"
    (root.queryProfilesByMultifactor
      { multifactor := params.multifactorAddress
        createdAtFrom := params.createdAtFrom
        limit := some activeSessionsChunkSize
        before := l.before })
  if queryResult.records.isEmpty then return (l, false)
  else
    let scan := scanRecords root.isDeployed appIdFilter queryResult.records l.scan
    match queryResult.oldestCursor with
    | none => return ({ l with scan := scan }, false)
    | some cursor =>
        if l.before = some cursor then
          return ({ l with scan := scan, cursorStalled := true, nextBefore := none }, false)
        else
          return ({ l with scan := scan, nextBefore := some cursor, before := some cursor },
            decide (activeSessionsChunkSize ≤ queryResult.records.length))

/-- The loop, as far as the fuel goes. -/
def scanLoop : ℕ → Loop → Option (Except AppError Loop)
  | 0, _ => none
  | fuel + 1, l =>
      if l.scan.sessions.length < activeSessionsChunkSize then
        match scanChunk root params appIdFilter l with
        | .error e => some (.error e)
        | .ok (l, true) => scanLoop fuel l
        | .ok (l, false) => some (.ok l)
      else some (.ok l)

end

def resultOf (l : Loop) : ResultOfQueryActiveSessions where
  sessions := l.scan.sessions
  nextBefore := l.nextBefore
  exhaustedActive := l.cursorStalled || !l.scan.hasDeployedConnectProfile

/-- A call, with the client context or the error of making it. -/
def queryActiveSessionsByMultifactor (fuel : ℕ)
    (rootWithEndpoints : Except AppError AuthServiceRoot) (params : Params) : Option (Except AppError ResultOfQueryActiveSessions) :=
  match normalizeOptionalAppId params.appId with
  | .error e => some (.error e)
  | .ok appIdFilter =>
      match rootWithEndpoints with
      | .error e => some (.error e)
      | .ok root =>
          (scanLoop root params appIdFilter fuel
            { scan := ⟨[], ∅, [], false⟩
              nextBefore := none
              before := params.before
              cursorStalled := false }).map (·.map resultOf)

end ActiveSessions

end BeeEngine
