import BeeEngine.Lib.Bytes
import BeeEngine.Progress

/-!
# Progress of a new factor

`ZkpModule::add_zkp_factor` with the events that it emits.  What the chain, the
prover and the crypto library answer are the steps; each may fail.
-/

namespace BeeEngine

namespace FactorProgress

def addFactorTimeout : String := "add_factor_timeout"

/-- An error of a step.  Its kind is never the one that the confirmation sets. -/
structure StepError where
  error : AppError
  kind_ne : error.kind ≠ some addFactorTimeout

structure MultifactorData where
  zkid : String
  factorsLen : String
  ownerPubkey : String
  jwkUpdateKey : String
  issBase64 : String
  indexMod4 : String
  /-- `modulus_expire_at` of each key. -/
  jwkModulusData : List (String × String)
  deriving DecidableEq, Repr

/-- An account as it is read at some time, with what decoding its data gives. -/
structure Account where
  isDeployed : Bool
  data : Option (Except StepError MultifactorData)

structure TLSRes where
  rootCertSnHex : String
  tlsData : String

structure ParamsOfAddZKPFactor where
  walletName : String
  proof : String
  epk : String
  esk : String
  headerBase64 : String
  epkExpireAt : UInt64
  jwkExpiresAt : UInt64
  kid : String
  sub : String
  password : String
  zkid : String

/-- The message of a new factor. -/
structure ParamsOfAddZkpFactor where
  proof : String
  epk : String
  kid : String
  headerBase64 : String
  epkExpireAt : Int64

/-- The message of a new key. -/
structure ParamsOfAddJwkModulus where
  lvKid : String
  rootCertSn : String
  tlsData : String

structure ResultOfAddZKPFactor where
  name : String
  address : String
  messageId : Option String
  messageIds : List String
  pubkey : String
  passwordHash : String
  signingKeys : KeyPair
  deriving DecidableEq, Repr

/-- What is answered outside this code, for one call.  The reads of the account
that a poll makes are numbered by its attempts. -/
structure Steps where
  getIndexer : String → Except StepError String
  getDetails : String → Except StepError String
  account : Account
  getBocHash : String → Except StepError String
  nowSecs : UInt64
  fetchTls : String → String → Except StepError TLSRes
  resolveJwkUpdateSigner : String → String → String → Except StepError KeyPair
  addJwkModulus : ParamsOfAddJwkModulus → KeyPair → Except StepError ResultOfSendMessage
  jwkAccount : ℕ → Account
  addZkpFactor : ParamsOfAddZkpFactor → KeyPair → Except StepError ResultOfSendMessage
  factorAccount : ℕ → Account
  hashPassword : String → Except StepError String

/-! ## Steps with their context -/

def outcome {α : Type} (x : Except StepError α) : Except AppError α := x.mapError StepError.error

def getMultifactorDecodedData (address : String) (account : Account) :
    Except AppError MultifactorData :=
  if ¬account.isDeployed then .error (.new ("account " ++ address ++ " is not deployed"))
  else
    match account.data with
    | none => .error (.new ("account data " ++ address ++ " not found"))
    | some data => inContext ("failed to decode account data for " ++ address) (outcome data)

/-! ## The key of the provider -/

/-- The bytes of the key after their number. -/
def toLvKid (kidHex : String) : Except AppError String :=
  match Bytes.hexDecode kidHex with
  | .error e => .error (((AppError.new e.message).withKind "hex").withContext
      "failed to decode kid_hex")
  | .ok kid => .ok (Bytes.hexEncode (UInt8.ofNat kid.length :: kid))

def addJwkModulus (steps : Steps) (address : String) (data : MultifactorData)
    (params : ParamsOfAddZKPFactor) (kidBocHash : String) : Except AppError (Option String) := do
  let tlsRes ← inContext "failed to fetch tls"
    (outcome (steps.fetchTls data.issBase64 data.indexMod4))
  let lvKid ← toLvKid params.kid
  let jwkSigner ← outcome
    (steps.resolveJwkUpdateSigner params.password params.sub data.jwkUpdateKey)
  let res ← inContext "failed to add jwk modulus"
    (outcome (steps.addJwkModulus ⟨lvKid, tlsRes.rootCertSnHex, tlsRes.tlsData⟩ jwkSigner))
  let res ← ensureTxSuccess res "add_jwk_modulus"
  let _ ← (BeeEngine.pollUntil AppError.new
    (fun i ↦ inContext "Multifactor get details"
      (getMultifactorDecodedData address (steps.jwkAccount i)))
    (fun data ↦ (data.jwkModulusData.lookup ("0x" ++ kidBocHash)).isSome) none).1
  return res.messageHash

def shouldAddJwkModulus (now jwkExpiresAt : UInt64) (existingJwk : Option String) : Bool :=
  let minLife := 300
  let nowPlusLife := now + minLife + 1
  let newOk := decide (jwkExpiresAt > nowPlusLife)
  match existingJwk with
  | some modulusExpireAt =>
      let old := UInt64.ofNat ((Text.parseUnsigned (2 ^ 64) modulusExpireAt).getD 0)
      let oldExpiresSoon := decide (old < nowPlusLife)
      newOk && oldExpiresSoon && decide (jwkExpiresAt > old)
  | none => newOk

/-! ## The factor -/

def maxNumOfFactors : Int32 := 10
def addFactorConfirmMaxAttempts : UInt32 := 60

def factorsLen (data : MultifactorData) : Int32 :=
  Int32.ofInt ((Text.parseSigned (2 ^ 31) data.factorsLen).getD 0)

def timeoutError : AppError :=
  (AppError.new "add_zkp_factor: on-chain confirmation did not arrive in time").withKind
    addFactorTimeout

def confirmFactorIncrement {T : Type} (fetch : ℕ → Except AppError T) (predicate : T → Bool)
    (maxAttempts : UInt32) : Progress T :=
  let polled := Progress.pollUntil
    (Progress.withHeartbeat (.new "add_factor" "confirming") fetch) predicate (some maxAttempts)
  match polled.result with
  | .ok data => ⟨polled.events ++ [.new "add_factor" "confirmed"], .ok data⟩
  | .error e =>
      if isConfirmationPendingError e then
        ⟨polled.events ++ [.new "add_factor" "timed_out"], .error timeoutError⟩
      else ⟨polled.events, .error e⟩

/-- A read of the account while the factor is awaited. -/
def fetchFactor (steps : Steps) (address : String) (i : ℕ) : Except AppError MultifactorData :=
  inContext "Multifactor get details" (getMultifactorDecodedData address (steps.factorAccount i))

/-- The number of factors that is awaited. -/
def hasTargetLen (data : MultifactorData) (data' : MultifactorData) : Bool :=
  factorsLen data' = min (factorsLen data + 1) maxNumOfFactors

/-- `cmd::add_zkp_factor` until the network has accepted the message. -/
def submitZkpFactor (steps : Steps) (params : ParamsOfAddZKPFactor) :
    Progress ResultOfSendMessage := do
  let result ← inContext "failed to add zkp factor"
    (outcome (steps.addZkpFactor
      ⟨params.proof, "0x" ++ params.epk, params.kid, params.headerBase64,
        params.epkExpireAt.toInt64⟩
      ⟨params.epk, params.esk⟩))
  let result ← ensureTxSuccess result "add_zkp_factor"
  Reporting.emit (.new "add_factor" "submitted")
  return result

/-- `cmd::add_zkp_factor`, with the id of the message. -/
def cmdAddZkpFactor (steps : Steps) (address : String) (data : MultifactorData)
    (params : ParamsOfAddZKPFactor) : Progress (Option String) := do
  let result ← submitZkpFactor steps params
  let _ ← confirmFactorIncrement (fetchFactor steps address) (hasTargetLen data)
    addFactorConfirmMaxAttempts
  return result.messageHash

/-- What the reads before the factor itself give. -/
structure Prepared where
  address : String
  accData : MultifactorData
  messageIds : List String

/-- `run_add_zkp_factor` until the factor itself is added. -/
def prepare (steps : Steps) (params : ParamsOfAddZKPFactor) : Progress Prepared := do
  let indexer ← inContext "failed to get_indexer_address"
    (outcome (steps.getIndexer params.walletName))
  let address ← inContext "failed to get_indexer_details" (outcome (steps.getDetails indexer))
  if ¬steps.account.isDeployed then
    Reporting.ofExcept (.error (.new "contract is not deployed"))
  else
    match steps.account.data with
    | none => Reporting.ofExcept (.error (.new "failed to multifactor data"))
    | some data => do
        let accData ← inContext "failed to decode_account_data" (outcome data)
        if params.zkid ≠ accData.zkid then
          Reporting.ofExcept (.error (.new "Bad password or social account provided"))
        else do
          let hashedKid ← inContext "failed to hashed kid" (outcome (steps.getBocHash params.kid))
          let existingJwk := accData.jwkModulusData.lookup ("0x" ++ hashedKid)
          if shouldAddJwkModulus steps.nowSecs params.jwkExpiresAt existingJwk then do
            Reporting.emit
              ((ProgressEvent.new "add_factor" "jwk").withDetail "adding json web key modulus")
            let messageId ← inContext "Failed to add jwk modulus"
              (addJwkModulus steps address accData params hashedKid)
            Reporting.emit (.new "add_factor" "jwk_confirmed")
            return ⟨address, accData, messageId.toList⟩
          else return ⟨address, accData, []⟩

/-- The error of a computation in a context. -/
def reportInContext {α : Type} (context : String) (x : Progress α) : Progress α :=
  { x with result := inContext context x.result }

def runAddZkpFactor (steps : Steps) (params : ParamsOfAddZKPFactor) :
    Progress ResultOfAddZKPFactor := do
  let prepared ← prepare steps params
  let messageId ← reportInContext "Failed to add jwk modulus"
    (cmdAddZkpFactor steps prepared.address prepared.accData params)
  let passwordHash ← outcome (steps.hashPassword params.password)
  return ⟨params.walletName, prepared.address, messageId, prepared.messageIds ++ messageId.toList,
    prepared.accData.ownerPubkey, passwordHash, ⟨params.epk, params.esk⟩⟩

def addZkpFactor (steps : Steps) (params : ParamsOfAddZKPFactor) :
    Progress ResultOfAddZKPFactor :=
  let run := runAddZkpFactor steps params
  ⟨ProgressEvent.new "add_factor" "resolving" :: (run.events ++
    Progress.reportFailure "add_factor" run.result (some addFactorTimeout)), run.result⟩

/-! ## What is claimed -/

def IsTerminal (event : ProgressEvent) : Prop :=
  event.op = "add_factor" ∧ event.stage ∈ ["confirmed", "timed_out", "failed"]

def confirming : ProgressEvent := .new "add_factor" "confirming"

/-- The message was accepted, and its factor is awaited. -/
def Reached (steps : Steps) (params : ParamsOfAddZKPFactor) (prepared : Prepared) : Prop :=
  (prepare steps params).result = .ok prepared ∧
    ∃ result, (submitZkpFactor steps params).result = .ok result

/-- The attempt has read an account without the awaited number of factors. -/
def StillWaiting (steps : Steps) (prepared : Prepared) (i : ℕ) : Prop :=
  NotYet (fetchFactor steps prepared.address) (hasTargetLen prepared.accData) i

/-- All attempts have read an account without the awaited number of factors. -/
def UsedUp (steps : Steps) (params : ParamsOfAddZKPFactor) : Prop :=
  ∃ prepared, Reached steps params prepared ∧
    ∀ i < addFactorConfirmMaxAttempts.toNat, StillWaiting steps prepared i

/-- The reads of the confirmation: the result, and how many were made. -/
def polledFactor (steps : Steps) (prepared : Prepared) : Except AppError MultifactorData × ℕ :=
  BeeEngine.pollUntil AppError.new (fetchFactor steps prepared.address)
    (hasTargetLen prepared.accData) (some addFactorConfirmMaxAttempts)

/-- The attempts of `poll_until` in the confirmation. -/
def attempts (steps : Steps) (params : ParamsOfAddZKPFactor) : ℕ :=
  match (prepare steps params).result, (submitZkpFactor steps params).result with
  | .ok prepared, .ok _ => (polledFactor steps prepared).2
  | _, _ => 0

/-- The events end in the one terminal event, which tells how the call ended. -/
structure Truthful (steps : Steps) (params : ParamsOfAddZKPFactor) : Prop where
  ends : ∃ before last, (addZkpFactor steps params).events = before ++ [last] ∧
    IsTerminal last ∧ (∀ event ∈ before, ¬IsTerminal event) ∧
    (last.stage = "confirmed" ↔ ∃ r, (addZkpFactor steps params).result = .ok r) ∧
    (last.stage = "timed_out" ↔ UsedUp steps params)
  kind : (∃ e, (addZkpFactor steps params).result = .error e ∧ e.kind = some addFactorTimeout) ↔
    UsedUp steps params
  heartbeats : ((addZkpFactor steps params).events.filter (· = confirming)).length =
    attempts steps params

/-- The attempt that ends the poll fails with no error that reads as a timeout,
and if it finds the factor, the password is hashed. -/
def Undisturbed (steps : Steps) (params : ParamsOfAddZKPFactor) : Prop :=
  ∀ prepared, Reached steps params prepared → ∀ n < addFactorConfirmMaxAttempts.toNat,
    (∀ i < n, StillWaiting steps prepared i) →
      (∀ e, fetchFactor steps prepared.address n = .error e →
        isConfirmationPendingError e = false) ∧
      ∀ data, fetchFactor steps prepared.address n = .ok data →
        hasTargetLen prepared.accData data = true →
          ∃ hash, steps.hashPassword params.password = .ok hash

end FactorProgress

end BeeEngine
