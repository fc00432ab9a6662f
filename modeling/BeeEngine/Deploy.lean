import BeeEngine.Lib.Outcome
import BeeEngine.Progress

/-!
# Deploying a wallet

`DeployModule::deploy_multifactor`.  The seed of the wallet is made inside the
call, and leaves it with the result only.  What the chain and the crypto library
answer are the steps; each may fail.
-/

namespace BeeEngine

namespace Deploy

inductive WalletNameError where
  | invalidCharacters
  | consecutiveHyphens
  | consecutiveUnderscores
  | startsWithSymbol
  | tooLong
  | tooShort
  deriving DecidableEq, Repr

def WalletNameError.details : WalletNameError → String
  | invalidCharacters => "name must contain only lowercase latin letters, digits, '_' or '-'"
  | consecutiveHyphens => "name cannot contain consecutive hyphens"
  | consecutiveUnderscores => "name cannot contain consecutive underscores"
  | startsWithSymbol => "name cannot start with '-' or '_'"
  | tooLong => "name must be at most 39 characters"
  | tooShort => "name must be at least 4 characters"

/-- The parameters that the call itself reads; `rest` goes into the message. -/
structure ParamsOfDeployMultifactor (P : Type) where
  walletName : String
  password : String
  epk : String
  esk : String
  rest : P

structure Generated where
  phrase : String
  keys : KeyPair
  deriving DecidableEq, Repr

/-- The message that deploys a wallet under a name. -/
structure DeployParams (M : Type) where
  name : String
  rest : M

structure MultifactorData where
  forceRemoveOldest : Bool
  wasmHash : String

structure ResultOfDeployMultifactor where
  name : String
  address : String
  messageId : Option String
  messageIds : List String
  pendingStage : Option String
  pendingReason : Option String
  passwordHash : String
  phrase : String
  pubkey : String
  signingKeys : KeyPair
  deriving DecidableEq, Repr

/-- What is answered outside this code, for one call.  The reads of the account
are numbered, the first one before its polls. -/
structure Steps (P M : Type) where
  /-- The name without white space around it and in lower case, if it is valid. -/
  verifyWalletName : String → Except WalletNameError String
  genMnemonicAndDeriveKeys : Except AppError Generated
  getMvMultifactor : String → Except AppError String
  prepareMultifactorDeploy : ParamsOfDeployMultifactor P → KeyPair → String →
    Except AppError (DeployParams M)
  resolveMirror : String → Except AppError String
  deployMultifactor : String → DeployParams M → KeyPair → Except AppError ResultOfSendMessage
  hashPassword : String → Except AppError String
  waitAccount : Except AppError Unit
  multifactorData : ℕ → Except AppError MultifactorData
  setForceRemoveOldest : KeyPair → Except AppError ResultOfSendMessage
  setWasmHash : String → KeyPair → Except AppError ResultOfSendMessage

variable {P M : Type}

/-! ## The flags of the contract -/

def wasmHash : String := "343268736f6dbb5a075a477fb1146b3c25c114d341b41c142e6609a7d1a90a2c"

def setRemoveOldest (steps : Steps P M) (keys : KeyPair) : Except AppError (Option String) := do
  let result ← inContext "Set force to remove oldest failure" (steps.setForceRemoveOldest keys)
  let result ← ensureTxSuccess result "set_force_remove_oldest"
  return result.messageHash

def setWasmHash (steps : Steps P M) (keys : KeyPair) : Except AppError (Option String) := do
  let result ← inContext "Set wasm hash failure" (steps.setWasmHash wasmHash keys)
  let result ← ensureTxSuccess result "set_wasm_hash"
  return result.messageHash

def updateContractFlags (steps : Steps P M) (keys : KeyPair) (wait : Bool) :
    Except AppError (List String) := do
  let currentData ← steps.multifactorData 0
  let needRemoveOldest := !currentData.forceRemoveOldest
  let needWasmHash := decide (currentData.wasmHash ≠ wasmHash)
  if !needRemoveOldest && !needWasmHash then
    return []
  else
    let removeId ←
      if needRemoveOldest then
        inContext "Set force to remove oldest failure" (setRemoveOldest steps keys)
      else pure none
    let hashId ←
      if needWasmHash then inContext "Set wasm hash failure" (setWasmHash steps keys)
      else pure none
    if wait then
      let _ ← (BeeEngine.pollUntil AppError.new
        (fun i ↦ inContext "Multifactor get details" (steps.multifactorData (i + 1)))
        (fun data ↦ (!needRemoveOldest || data.forceRemoveOldest) &&
          (!needWasmHash || data.wasmHash = wasmHash)) none).1
    return removeId.toList ++ hashId.toList

/-! ## The call -/

/-- A message that the network has accepted, with the seed and the keys of its wallet. -/
structure Submitted (M : Type) where
  phrase : String
  ownerKeys : KeyPair
  address : String
  deployParams : DeployParams M
  deployResult : ResultOfSendMessage

/-- `run_deploy_multifactor` until `ensure_tx_success` has passed. -/
def submit (steps : Steps P M) (params : ParamsOfDeployMultifactor P) : Progress (Submitted M) := do
  let walletName ← (steps.verifyWalletName params.walletName).mapError fun err ↦
    ((AppError.new "Invalid wallet name").withCode "INVALID_WALLET_NAME").withDetails err.details
  let params := { params with walletName := walletName }
  let generated ← inContext "Failed to gen seed" steps.genMnemonicAndDeriveKeys
  let ownerKeys := generated.keys
  let address ← inContext "Failed to get multifactor address"
    (steps.getMvMultifactor ("0x" ++ ownerKeys.publicKey))
  let deployParams ← inContext "Failed to prepare params"
    (steps.prepareMultifactorDeploy params ownerKeys address)
  let mirror ← inContext "Failed to get mirror" (steps.resolveMirror ownerKeys.publicKey)
  Reporting.emit (.new "deploy" "deploying")
  let deployResult ← inContext "Failed to deploy"
    (steps.deployMultifactor mirror deployParams ownerKeys)
  let deployResult ← ensureTxSuccess deployResult "deploy multifactor"
  return ⟨generated.phrase, ownerKeys, address, deployParams, deployResult⟩

/-- The stage at which a wait is pending, with its reason, or the error of the wait. -/
def pendingOr {α : Type} (stage : String) (x : Except AppError α) :
    Except AppError (α ⊕ String × String) :=
  match x with
  | .ok a => .ok (.inl a)
  | .error err =>
      if isConfirmationPendingError err then .ok (.inr (stage, err.message)) else .error err

/-- `run_deploy_multifactor` after `ensure_tx_success` has passed. -/
def finish (steps : Steps P M) (params : ParamsOfDeployMultifactor P)
    (shouldUpdateContractFlags : Bool) (submitted : Submitted M) :
    Progress ResultOfDeployMultifactor := do
  Reporting.emit (.new "deploy" "submitted")
  let passwordHash ← steps.hashPassword params.password
  Reporting.emit (.new "deploy" "activating")
  let messageIds := submitted.deployResult.messageHash.toList
  let result (messageIds : List String) (pending : Option (String × String)) :
      ResultOfDeployMultifactor :=
    ⟨submitted.deployParams.name, submitted.address, submitted.deployResult.messageHash, messageIds,
      pending.map Prod.fst, pending.map Prod.snd, passwordHash, submitted.phrase,
      submitted.ownerKeys.publicKey, ⟨params.epk, params.esk⟩⟩
  let waited ← pendingOr "multifactor_activation"
    (inContext "Wait multifactor active" steps.waitAccount)
  match waited with
  | .inr pending => return result messageIds (some pending)
  | .inl () => do
      Reporting.emit (.new "deploy" "active")
      if shouldUpdateContractFlags then do
        Reporting.emit (.new "deploy" "configuring")
        let updated ← pendingOr "contract_flags"
          (updateContractFlags steps submitted.ownerKeys true)
        match updated with
        | .inl ids => return result (messageIds ++ ids) none
        | .inr pending => return result messageIds (some pending)
      else return result messageIds none

def runDeployMultifactor (steps : Steps P M) (params : ParamsOfDeployMultifactor P)
    (shouldUpdateContractFlags : Bool) : Progress ResultOfDeployMultifactor := do
  let submitted ← submit steps params
  finish steps params shouldUpdateContractFlags submitted

/-- The event of a deploy that has not failed. -/
def emitDeployOutcome (op : String) (pendingStage pendingReason : Option String) : ProgressEvent :=
  match pendingStage with
  | some stage => (ProgressEvent.new op "pending").withDetail (pendingReason.getD stage)
  | none => .new op "confirmed"

def deployMultifactor (steps : Steps P M) (params : ParamsOfDeployMultifactor P)
    (shouldUpdateContractFlags : Bool) : Progress ResultOfDeployMultifactor :=
  let run := runDeployMultifactor steps params shouldUpdateContractFlags
  let outcome := match run.result with
    | .ok r => [emitDeployOutcome "deploy" r.pendingStage r.pendingReason]
    | .error _ => []
  ⟨ProgressEvent.new "deploy" "preparing" :: (run.events ++ outcome ++
    Progress.reportFailure "deploy" run.result none), run.result⟩

/-! ## What is claimed -/

/-- The first stage after the message that has not come to its end. -/
def unfinishedStage (steps : Steps P M) (shouldUpdateContractFlags : Bool) (keys : KeyPair) :
    Option String :=
  match steps.waitAccount with
  | .error _ => some "multifactor_activation"
  | .ok () =>
      if shouldUpdateContractFlags then
        match updateContractFlags steps keys true with
        | .error _ => some "contract_flags"
        | .ok _ => none
      else none

/-- If the message is accepted, the caller gets the phrase and the public key of
the keys that signed it. -/
def KeepsSeed (steps : Steps P M) (params : ParamsOfDeployMultifactor P)
    (shouldUpdateContractFlags : Bool) : Prop :=
  ∀ submitted, (submit steps params).result = .ok submitted →
    ∃ generated mirror r, steps.genMnemonicAndDeriveKeys = .ok generated ∧
      steps.deployMultifactor mirror submitted.deployParams generated.keys =
        .ok submitted.deployResult ∧
      (deployMultifactor steps params shouldUpdateContractFlags).result = .ok r ∧
      r.phrase = generated.phrase ∧ r.pubkey = generated.keys.publicKey ∧
      r.pendingStage = unfinishedStage steps shouldUpdateContractFlags generated.keys

/-- What follows an accepted message fails in no way but as a pending confirmation. -/
def OnlyPending (steps : Steps P M) (params : ParamsOfDeployMultifactor P)
    (shouldUpdateContractFlags : Bool) : Prop :=
  ∀ submitted, (submit steps params).result = .ok submitted →
    (∃ hash, steps.hashPassword params.password = .ok hash) ∧
    (∀ e, steps.waitAccount = .error e →
      isConfirmationPendingError (e.withContext "Wait multifactor active") = true) ∧
    (steps.waitAccount = .ok () → shouldUpdateContractFlags = true →
      ∀ e, updateContractFlags steps submitted.ownerKeys true = .error e →
        isConfirmationPendingError e = true)

/-! ## When the seed is kept -/

section

variable {steps : Steps P M} {params : ParamsOfDeployMultifactor P}
  {shouldUpdateContractFlags : Bool} {submitted : Submitted M}

/-- An accepted message is signed with the keys of the generated seed. -/
theorem exists_generated (h : (submit steps params).result = .ok submitted) :
    ∃ generated mirror, steps.genMnemonicAndDeriveKeys = .ok generated ∧
      steps.deployMultifactor mirror submitted.deployParams generated.keys =
        .ok submitted.deployResult ∧
      submitted.phrase = generated.phrase ∧ submitted.ownerKeys = generated.keys := by
  simp only [submit, Reporting.bind_result, Reporting.emit_result, Reporting.liftM_result,
    Reporting.pure_result, Outcome.ok_bind, Outcome.bind_eq_ok_iff, inContext_eq_ok_iff] at h
  obtain ⟨walletName, -, generated, hgenerated, address, -, deployParams, -, mirror, -, sent, hsent,
    accepted, haccepted, hsubmitted⟩ := h
  obtain rfl := Except.ok.inj hsubmitted
  obtain rfl := eq_of_ensureTxSuccess haccepted
  exact ⟨generated, mirror, hgenerated, hsent, rfl, rfl⟩

theorem deployMultifactor_of_accepted (h : (submit steps params).result = .ok submitted) :
    (deployMultifactor steps params shouldUpdateContractFlags).result =
      (finish steps params shouldUpdateContractFlags submitted).result := by
  rw [deployMultifactor, runDeployMultifactor, Reporting.bind_of_ok h]

theorem pendingOr_of_pending {α : Type} {stage : String} {e : AppError}
    (h : isConfirmationPendingError e = true) :
    pendingOr stage (.error e : Except AppError α) = .ok (.inr (stage, e.message)) := by
  rw [pendingOr, if_pos h]

theorem pendingOr_of_fatal {α : Type} {stage : String} {e : AppError}
    (h : isConfirmationPendingError e = false) :
    pendingOr stage (.error e : Except AppError α) = .error e := by
  rw [pendingOr, if_neg (Bool.eq_false_iff.mp h)]

/-- The steps after an accepted message, with the result that they lead to. -/
theorem finish_of_onlyPending {hash : String}
    (hhash : steps.hashPassword params.password = .ok hash)
    (hwait : ∀ e, steps.waitAccount = .error e →
      isConfirmationPendingError (e.withContext "Wait multifactor active") = true)
    (hflags : steps.waitAccount = .ok () → shouldUpdateContractFlags = true →
      ∀ e, updateContractFlags steps submitted.ownerKeys true = .error e →
        isConfirmationPendingError e = true) :
    ∃ r, (finish steps params shouldUpdateContractFlags submitted).result = .ok r ∧
      r.phrase = submitted.phrase ∧ r.pubkey = submitted.ownerKeys.publicKey ∧
      r.pendingStage = unfinishedStage steps shouldUpdateContractFlags submitted.ownerKeys := by
  simp only [finish, Reporting.bind_result, Reporting.emit_result, Reporting.liftM_result,
    Outcome.ok_bind, hhash, unfinishedStage]
  cases hwaited : steps.waitAccount with
  | error e =>
      have hpending : pendingOr "multifactor_activation"
          (inContext "Wait multifactor active" (.error e : Except AppError Unit)) = _ :=
        pendingOr_of_pending (hwait e hwaited)
      rw [hpending]
      exact ⟨_, rfl, rfl, rfl, rfl⟩
  | ok u =>
      cases shouldUpdateContractFlags with
      | false => exact ⟨_, rfl, rfl, rfl, rfl⟩
      | true =>
          have hdone : pendingOr "multifactor_activation"
              (inContext "Wait multifactor active" (.ok u)) = .ok (.inl u) := rfl
          simp only [hdone, Outcome.ok_bind, Reporting.bind_result, Reporting.emit_result,
            Reporting.liftM_result, if_true]
          cases hupdated : updateContractFlags steps submitted.ownerKeys true with
          | error e =>
              rw [pendingOr_of_pending (hflags hwaited rfl e hupdated)]
              exact ⟨_, rfl, rfl, rfl, rfl⟩
          | ok ids => exact ⟨_, rfl, rfl, rfl, rfl⟩

/-- A result is given only if every failure was a pending confirmation. -/
theorem onlyPending_of_finish {r : ResultOfDeployMultifactor}
    (h : (finish steps params shouldUpdateContractFlags submitted).result = .ok r) :
    (∃ hash, steps.hashPassword params.password = .ok hash) ∧
    (∀ e, steps.waitAccount = .error e →
      isConfirmationPendingError (e.withContext "Wait multifactor active") = true) ∧
    (steps.waitAccount = .ok () → shouldUpdateContractFlags = true →
      ∀ e, updateContractFlags steps submitted.ownerKeys true = .error e →
        isConfirmationPendingError e = true) := by
  simp only [finish, Reporting.bind_result, Reporting.emit_result, Reporting.liftM_result,
    Outcome.ok_bind, Outcome.bind_eq_ok_iff] at h
  obtain ⟨hash, hhash, waited, hwaited, h⟩ := h
  refine ⟨⟨hash, hhash⟩, ?_, ?_⟩
  · intro e he
    by_contra hfatal
    rw [he] at hwaited
    have herror : pendingOr "multifactor_activation"
        (inContext "Wait multifactor active" (.error e : Except AppError Unit)) = _ :=
      pendingOr_of_fatal (Bool.eq_false_iff.mpr hfatal)
    rw [herror] at hwaited
    cases hwaited
  · intro hdone hupdate e he
    by_contra hfatal
    rw [hdone] at hwaited
    obtain rfl := Except.ok.inj hwaited
    simp only [hupdate, if_true, Reporting.bind_result, Reporting.emit_result,
      Reporting.liftM_result, Outcome.ok_bind, he,
      pendingOr_of_fatal (Bool.eq_false_iff.mpr hfatal)] at h
    cases h

end

/-- The seed is kept just when nothing after the message fails for good. -/
theorem keepsSeed_iff (steps : Steps P M) (params : ParamsOfDeployMultifactor P)
    (shouldUpdateContractFlags : Bool) :
    KeepsSeed steps params shouldUpdateContractFlags ↔
      OnlyPending steps params shouldUpdateContractFlags := by
  constructor
  · intro hkeeps submitted haccepted
    obtain ⟨-, -, r, -, -, hresult, -⟩ := hkeeps submitted haccepted
    rw [deployMultifactor_of_accepted haccepted] at hresult
    exact onlyPending_of_finish hresult
  · intro honly submitted haccepted
    obtain ⟨⟨hash, hhash⟩, hwait, hflags⟩ := honly submitted haccepted
    obtain ⟨generated, mirror, hgenerated, hsent, hphrase, hkeys⟩ := exists_generated haccepted
    obtain ⟨r, hresult, hrphrase, hrpubkey, hrstage⟩ := finish_of_onlyPending hhash hwait hflags
    rw [hphrase] at hrphrase
    rw [hkeys] at hrpubkey hrstage
    refine ⟨generated, mirror, r, hgenerated, hsent, ?_, hrphrase, hrpubkey, hrstage⟩
    rw [deployMultifactor_of_accepted haccepted, hresult]

def exampleParams : ParamsOfDeployMultifactor Unit := ⟨"wallet", "password", "epk", "esk", ()⟩

/-- A deploy whose message is accepted. -/
def exampleSteps (hashed : Except AppError String) (waited : Except AppError Unit) :
    Steps Unit Unit where
  verifyWalletName := .ok
  genMnemonicAndDeriveKeys := .ok ⟨"abandon ability", ⟨"owner", "secret"⟩⟩
  getMvMultifactor _ := .ok "0:1"
  prepareMultifactorDeploy params _ _ := .ok ⟨params.walletName, ()⟩
  resolveMirror _ := .ok "0:2"
  deployMultifactor _ _ _ := .ok ⟨some "id", some false, some 0⟩
  hashPassword _ := hashed
  waitAccount := waited
  multifactorData _ := .ok ⟨true, wasmHash⟩
  setForceRemoveOldest _ := .ok ⟨none, none, none⟩
  setWasmHash _ _ := .ok ⟨none, none, none⟩

/-- The seed is lost when the password is not hashed, and when the wait for the
account fails for good. -/
theorem not_keepsSeed :
    ¬KeepsSeed (exampleSteps (.error (.new "no entropy")) (.ok ())) exampleParams true ∧
      ¬KeepsSeed (exampleSteps (.ok "hash") (.error (.new "connection refused"))) exampleParams
        true := by
  constructor
  · intro hkeeps
    obtain ⟨-, -, r, -, -, hresult, -⟩ := hkeeps _ rfl
    cases hresult
  · intro hkeeps
    obtain ⟨-, -, r, -, -, hresult, -⟩ := hkeeps _ rfl
    have herror : (deployMultifactor (exampleSteps (.ok "hash")
        (.error (.new "connection refused"))) exampleParams true).result =
          .error ((AppError.new "connection refused").withContext "Wait multifactor active") := by
      decide +kernel
    rw [herror] at hresult
    cases hresult

end Deploy

end BeeEngine
