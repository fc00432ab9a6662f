import BeeEngine.Deploy
import BeeEngine.IssuerWindows
import BeeEngine.SeedPhrase

/-!
# The keys of an account

The recovery key and the key that updates the keys of the provider are written
by the deployment and by `update_zk_id`, and found again from the password.
-/

namespace BeeEngine

namespace AccountKeys

open Multifactor SeedPhrase Issuer

/-- What a call uses of the libraries. -/
structure Libraries (F : Type) where
  serde : SerdeJson F
  kit : CryptoKit
  getRootCertsMap : String → Except AppError (List (String × String))

variable {F : Type} (libs : Libraries F)

/-! ## The keys that are written -/

structure ParamsOfBuildRecoveryKeys where
  password : String
  multifactorAddress : String

structure ParamsOfBuildUpdateJwkKeys where
  password : String
  sub : String

structure RecoveryKeys where
  pubRecoveryKey : String
  pubRecoveryKeySig : String
  keys : KeyPair

structure JwkUpdateKeys where
  pubJwkUpdateKey : String
  pubJwkUpdateSig : String
  keys : KeyPair

section

variable (kit : CryptoKit)

def buildRecoveryKeys (params : ParamsOfBuildRecoveryKeys) : Except AppError RecoveryKeys := do
  let recoveryMnemonic ← recoveryPhrase kit params.password params.multifactorAddress
  let recoveryKeys ← inContext "failed to create recovery keys"
    (deriveSignKeys kit recoveryMnemonic currentDerivationPath)
  let pubRecoveryKeySig ← kit.signDetachedHex recoveryKeys.publicKey recoveryKeys.secretKey
  return ⟨"0x" ++ recoveryKeys.publicKey, pubRecoveryKeySig, recoveryKeys⟩

/-- The subject is hashed, with the password as its salt. -/
def buildUpdateJwk (passwordSha256 address : String) : Except AppError String := do
  let entropy ← kit.createSaltedHash address passwordSha256
  inContext "failed to create password secret" (kit.mnemonicFromEntropy entropy)

/-- The phrase that a password gives for a subject. -/
def updateJwkPhrase (password sub : String) : Except AppError String := do
  let passwordSha256 ← inContext "Failed to hash data" (kit.sha256 password)
  buildUpdateJwk kit passwordSha256 sub

def buildUpdateJwkKeys (params : ParamsOfBuildUpdateJwkKeys) : Except AppError JwkUpdateKeys := do
  let passwordSecretMnemonic ← updateJwkPhrase kit params.password params.sub
  let keys ← inContext "failed to create jwk update keys"
    (deriveSignKeys kit passwordSecretMnemonic currentDerivationPath)
  let pubJwkUpdateSig ← kit.signDetachedHex keys.publicKey keys.secretKey
  return ⟨"0x" ++ keys.publicKey, pubJwkUpdateSig, keys⟩

def resolveJwkUpdateSigner (params : ParamsOfBuildUpdateJwkKeys) (onChainJwkUpdateKey : String) :
    Except AppError (KeyPair × String) := do
  let phrase ← updateJwkPhrase kit params.password params.sub
  resolveSignKeys kit phrase onChainJwkUpdateKey candidatePaths

end

/-! ## The deployment -/

structure ParamsOfPrepareDeploy where
  zkid : String
  password : String
  proof : String
  epk : String
  esk : String
  jwkModulus : String
  jwkModulusExpireAt : UInt64
  indexMod4 : UInt8
  issBase64 : String
  headerBase64 : String
  epkExpireAt : UInt64
  keys : KeyPair
  kid : String
  walletName : String
  multifactorAddress : String
  sub : String

structure ParamsOfDeployMultifactor where
  name : String
  zkid : String
  proof : String
  epk : String
  epkSig : String
  epkExpireAt : UInt64
  jwkModulus : String
  kid : String
  jwkModulusExpireAt : UInt64
  indexMod4 : UInt8
  issBase64 : String
  headerBase64 : String
  pubRecoveryKey : String
  pubRecoveryKeySig : String
  rootProviderCertificates : List (String × String)
  provider : String
  jwkUpdateKey : String
  jwkUpdateKeySig : String

/-- The provider of a claim, and the certificates of its domain. -/
def checkProvider (claim : Claim) :
    Except AppError (OIDCProvider × List (String × String)) := do
  let provider ← getAuthProvider libs.serde claim
  let domain ← getDomainByAuthProvider provider
  let certificates ← inContext "failed to get root certificates" (libs.getRootCertsMap domain)
  return (provider, certificates)

def prepareMultifactorDeploy (params : ParamsOfPrepareDeploy) :
    Except AppError (ParamsOfDeployMultifactor × String) := do
  let (provider, rootProviderCertificates) ←
    checkProvider libs ⟨params.issBase64, params.indexMod4⟩
  let recoveryKeys ← buildRecoveryKeys libs.kit ⟨params.password, params.multifactorAddress⟩
  let updateJwkKeys ← buildUpdateJwkKeys libs.kit ⟨params.password, params.sub⟩
  let epkSig ← libs.kit.signDetachedHex params.epk params.esk
  return ({
    name := params.walletName
    zkid := params.zkid
    proof := params.proof
    epk := "0x" ++ params.epk
    epkSig := epkSig
    epkExpireAt := params.epkExpireAt
    jwkModulus := params.jwkModulus
    kid := params.kid
    jwkModulusExpireAt := params.jwkModulusExpireAt
    indexMod4 := params.indexMod4
    issBase64 := params.issBase64
    headerBase64 := params.headerBase64
    pubRecoveryKey := recoveryKeys.pubRecoveryKey
    pubRecoveryKeySig := recoveryKeys.pubRecoveryKeySig
    rootProviderCertificates := rootProviderCertificates
    provider := provider.toString
    jwkUpdateKey := updateJwkKeys.pubJwkUpdateKey
    jwkUpdateKeySig := updateJwkKeys.pubJwkUpdateSig }, Deploy.wasmHash)

/-! ## A new identity -/

structure UpdateMultifactorZkIdReq where
  address : String
  zkid : String
  password : String
  proof : String
  epk : String
  esk : String
  jwkModulus : String
  jwkModulusExpireAt : Int64
  indexMod4 : Int64
  issBase64 : String
  headerBase64 : String
  epkExpireAt : Int64
  pubkey : String
  secretkey : String
  kid : String
  sub : String

structure ParamsOfUpdateZkId where
  zkid : String
  proof : String
  epk : String
  epkSig : String
  epkExpireAt : Int64
  jwkModulus : String
  kid : String
  jwkModulusExpireAt : Int64
  indexMod4 : Int64
  issBase64 : String
  headerBase64 : String
  ownerPubkey : String
  rootProviderCertificates : List (String × String)
  provider : String
  jwkUpdateKey : String
  jwkUpdateKeySig : String

inductive Message where
  | updateZkId (params : ParamsOfUpdateZkId) (signer : KeyPair)
  | updateRecoveryPhrase (newPubRecoveryKey newPubRecoveryKeySig : String) (signer : KeyPair)

/-- The fields of an account that depend on the identity and the password. -/
structure Account where
  zkid : String
  jwkUpdateKey : String
  pubRecoveryKey : String
  issBase64 : String
  indexMod4 : ℤ
  deriving DecidableEq, Repr

/-- What the chain answers in a call. -/
structure Steps where
  updateZkId : Except AppError ResultOfSendMessage
  readZkId : ℕ → Except AppError Account
  updateRecoveryPhrase : Except AppError ResultOfSendMessage
  readRecoveryKey : ℕ → Except AppError Account

/-- The index of a claim as it is checked: its last eight bits. -/
def checkedIndex (indexMod4 : ℤ) : UInt8 := UInt8.ofInt indexMod4

section

variable (steps : Steps) (params : UpdateMultifactorZkIdReq)

/-- What `update_zk_id` computes before it sends anything. -/
structure Prepared where
  update : ParamsOfUpdateZkId
  recoveryKeys : RecoveryKeys

def prepareUpdate : Except AppError Prepared := do
  let (provider, rootProviderCertificates) ←
    checkProvider libs ⟨params.issBase64, checkedIndex params.indexMod4.toInt⟩
  let updateJwkKeys ← buildUpdateJwkKeys libs.kit ⟨params.password, params.sub⟩
  let epkSig ← libs.kit.signDetachedHex params.epk params.esk
  let recoveryKeys ← buildRecoveryKeys libs.kit ⟨params.password, params.address⟩
  return {
    update := {
      zkid := params.zkid
      proof := params.proof
      epk := "0x" ++ params.epk
      epkSig := epkSig
      epkExpireAt := params.epkExpireAt
      jwkModulus := params.jwkModulus
      kid := params.kid
      jwkModulusExpireAt := params.jwkModulusExpireAt
      indexMod4 := params.indexMod4
      issBase64 := params.issBase64
      headerBase64 := params.headerBase64
      ownerPubkey := "0x" ++ params.pubkey
      rootProviderCertificates := rootProviderCertificates
      provider := provider.toString
      jwkUpdateKey := updateJwkKeys.pubJwkUpdateKey
      jwkUpdateKeySig := updateJwkKeys.pubJwkUpdateSig }
    recoveryKeys := recoveryKeys }

def signer : KeyPair := ⟨params.pubkey, params.secretkey⟩

def submitUpdate (prepared : Prepared) : Reporting Message AppError ResultOfSendMessage := do
  let result ← sendMessage (.updateZkId prepared.update (signer params)) "update_zk_id failed"
    steps.updateZkId "update_zk_id"
  waitUntil steps.readZkId fun data ↦ params.zkid = data.zkid
  return result

def submitRecoveryPhrase (prepared : Prepared) : Reporting Message AppError Unit := do
  let _ ← sendMessage (.updateRecoveryPhrase prepared.recoveryKeys.pubRecoveryKey
      prepared.recoveryKeys.pubRecoveryKeySig (signer params))
    "update_recovery_phrase failed" steps.updateRecoveryPhrase "update_recovery_phrase"
  waitUntil steps.readRecoveryKey fun data ↦
    prepared.recoveryKeys.pubRecoveryKey = data.pubRecoveryKey
  return ()

def updateZkId : Reporting Message AppError ResultOfSendMessage := do
  let prepared ← prepareUpdate libs params
  let updateZkIdResult ← submitUpdate steps params prepared
  submitRecoveryPhrase steps params prepared
  return updateZkIdResult

end

/-! ## The account -/

/-- The account that a deployment makes. -/
def Account.ofDeploy (params : ParamsOfDeployMultifactor) : Account where
  zkid := params.zkid
  jwkUpdateKey := params.jwkUpdateKey
  pubRecoveryKey := params.pubRecoveryKey
  issBase64 := params.issBase64
  indexMod4 := params.indexMod4.toNat

/-- The account after a message that the contract accepts. -/
def Account.accept (account : Account) : Message → Account
  | .updateZkId params _ =>
      { account with
        zkid := params.zkid
        jwkUpdateKey := params.jwkUpdateKey
        issBase64 := params.issBase64
        indexMod4 := params.indexMod4.toInt }
  | .updateRecoveryPhrase newPubRecoveryKey _ _ =>
      { account with pubRecoveryKey := newPubRecoveryKey }

/-- A message of a call for the account at an address, which the contract accepts. -/
structure Accepted (address : String) where
  steps : Steps
  params : UpdateMultifactorZkIdReq
  message : Message
  address_eq : params.address = address
  mem_events : message ∈ (updateZkId libs steps params).events

variable {address : String}

def accountAfter (account : Account) (run : List (Accepted libs address)) : Account :=
  run.foldl (fun account accepted ↦ account.accept accepted.message) account

/-! ## What its owner knows -/

/-- The identity of an account with its password, and the password of the recovery key. -/
structure Secrets where
  zkid : String
  password : String
  sub : String
  recoveryPassword : String

namespace Secrets

def ofDeploy (params : ParamsOfPrepareDeploy) : Secrets :=
  ⟨params.zkid, params.password, params.sub, params.password⟩

def withIdentity (secrets : Secrets) (params : UpdateMultifactorZkIdReq) : Secrets :=
  ⟨params.zkid, params.password, params.sub, secrets.recoveryPassword⟩

def withRecovery (secrets : Secrets) (params : UpdateMultifactorZkIdReq) : Secrets :=
  { secrets with recoveryPassword := params.password }

/-- The secrets after a message of a call. -/
def accept (secrets : Secrets) (params : UpdateMultifactorZkIdReq) : Message → Secrets
  | .updateZkId _ _ => secrets.withIdentity params
  | .updateRecoveryPhrase _ _ _ => secrets.withRecovery params

def after (secrets : Secrets) (run : List (Accepted libs address)) : Secrets :=
  run.foldl (fun secrets accepted ↦ secrets.accept accepted.params accepted.message) secrets

end Secrets

/-- A key pair is found on the current path, and its public key is the one on the chain. -/
def Finds (resolve : String → Except AppError (KeyPair × String)) (onChain : String) : Prop :=
  ∃ keys, resolve onChain = .ok (keys, currentDerivationPath) ∧ onChain = "0x" ++ keys.publicKey

/-- The secrets give both signers of the account, whose issuer is trusted. -/
structure Opens (address : String) (secrets : Secrets) (account : Account) : Prop where
  zkid : account.zkid = secrets.zkid
  jwk : Finds (resolveJwkUpdateSigner libs.kit ⟨secrets.password, secrets.sub⟩)
    account.jwkUpdateKey
  recovery : Finds (resolveRecoverySigner libs.kit secrets.recoveryPassword address)
    account.pubRecoveryKey
  trusted : ∃ domain,
    domainOf libs.serde ⟨account.issBase64, checkedIndex account.indexMod4⟩ = .ok domain

/-! ## Keys that are written are found -/

section

variable {kit : CryptoKit} {phrase : String} {keys : KeyPair}

theorem pubkeyMatches_prefixed (publicKey : String) :
    pubkeyMatches publicKey ("0x" ++ publicKey) = true := by
  rw [pubkeyMatches, Text.stripPrefix_append]
  exact decide_eq_true rfl

theorem resolveSignKeys_of_current
    (h : deriveSignKeys kit phrase currentDerivationPath = .ok keys) :
    resolveSignKeys kit phrase ("0x" ++ keys.publicKey) candidatePaths =
      .ok (keys, currentDerivationPath) := by
  rw [candidatePaths, resolveSignKeys, h, Outcome.ok_bind, pubkeyMatches_prefixed, if_pos rfl]
  rfl

theorem finds_of_buildRecoveryKeys {params : ParamsOfBuildRecoveryKeys} {r : RecoveryKeys}
    (h : buildRecoveryKeys kit params = .ok r) :
    Finds (resolveRecoverySigner kit params.password params.multifactorAddress)
      r.pubRecoveryKey := by
  simp only [buildRecoveryKeys, Outcome.bind_eq_ok_iff, inContext_eq_ok_iff] at h
  obtain ⟨phrase, hphrase, keys, hkeys, sig, -, hr⟩ := h
  obtain rfl := Except.ok.inj hr
  refine ⟨keys, ?_, rfl⟩
  rw [resolveRecoverySigner, hphrase]
  exact resolveSignKeys_of_current hkeys

theorem finds_of_buildUpdateJwkKeys {params : ParamsOfBuildUpdateJwkKeys} {r : JwkUpdateKeys}
    (h : buildUpdateJwkKeys kit params = .ok r) :
    Finds (resolveJwkUpdateSigner kit params) r.pubJwkUpdateKey := by
  simp only [buildUpdateJwkKeys, Outcome.bind_eq_ok_iff, inContext_eq_ok_iff] at h
  obtain ⟨phrase, hphrase, keys, hkeys, sig, -, hr⟩ := h
  obtain rfl := Except.ok.inj hr
  refine ⟨keys, ?_, rfl⟩
  rw [resolveJwkUpdateSigner, hphrase]
  exact resolveSignKeys_of_current hkeys

end

/-! ## What is sent -/

variable {libs}

theorem domainOf_of_checkProvider {claim : Claim} {r : OIDCProvider × List (String × String)}
    (h : checkProvider libs claim = .ok r) : ∃ domain, domainOf libs.serde claim = .ok domain := by
  simp only [checkProvider, Outcome.bind_eq_ok_iff] at h
  obtain ⟨provider, hprovider, domain, hdomain, -⟩ := h
  exact ⟨domain, Outcome.bind_eq_ok_iff.mpr ⟨provider, hprovider, hdomain⟩⟩

/-- An index of the deployment is checked as it is. -/
theorem checkedIndex_toNat (i : UInt8) : checkedIndex i.toNat = i := by
  have hlt : (i.toNat : ℤ) < 2 ^ 8 := by exact_mod_cast i.toNat_lt
  have hi : (i.toNat : ℤ) % 2 ^ 8 = i.toNat := Int.emod_eq_of_lt (by simp) hlt
  rw [checkedIndex, UInt8.ofInt, hi, Int.toNat_natCast, UInt8.ofNat_toNat]

theorem opens_ofDeploy {params : ParamsOfPrepareDeploy} {deploy : ParamsOfDeployMultifactor}
    {hash : String} (h : prepareMultifactorDeploy libs params = .ok (deploy, hash)) :
    Opens libs params.multifactorAddress (.ofDeploy params) (.ofDeploy deploy) := by
  simp only [prepareMultifactorDeploy, Outcome.bind_eq_ok_iff] at h
  obtain ⟨_, hprovider, recoveryKeys, hrecovery, updateJwkKeys, hjwk, epkSig, -, hr⟩ := h
  obtain ⟨rfl, -⟩ := Prod.mk.inj (Except.ok.inj hr)
  refine ⟨rfl, finds_of_buildUpdateJwkKeys hjwk, finds_of_buildRecoveryKeys hrecovery, ?_⟩
  obtain ⟨domain, hdomain⟩ := domainOf_of_checkProvider hprovider
  refine ⟨domain, ?_⟩
  rw [Account.ofDeploy, checkedIndex_toNat]
  exact hdomain

section

variable {steps : Steps} {params : UpdateMultifactorZkIdReq} {prepared : Prepared}
  {secrets : Secrets} {account : Account}

/-- The message with the new identity brings all of it. -/
theorem Opens.update (hopens : Opens libs params.address secrets account)
    (h : prepareUpdate libs params = .ok prepared) (signer : KeyPair) :
    Opens libs params.address (secrets.withIdentity params)
      (account.accept (.updateZkId prepared.update signer)) := by
  simp only [prepareUpdate, Outcome.bind_eq_ok_iff] at h
  obtain ⟨_, hprovider, updateJwkKeys, hjwk, epkSig, -, recoveryKeys, -, hr⟩ := h
  obtain rfl := Except.ok.inj hr
  exact ⟨rfl, finds_of_buildUpdateJwkKeys hjwk, hopens.recovery,
    domainOf_of_checkProvider hprovider⟩

theorem Opens.updateRecovery (hopens : Opens libs params.address secrets account)
    (h : prepareUpdate libs params = .ok prepared) (sig : String) (signer : KeyPair) :
    Opens libs params.address (secrets.withRecovery params)
      (account.accept
        (.updateRecoveryPhrase prepared.recoveryKeys.pubRecoveryKey sig signer)) := by
  simp only [prepareUpdate, Outcome.bind_eq_ok_iff] at h
  obtain ⟨_, -, updateJwkKeys, -, epkSig, -, recoveryKeys, hrecovery, hr⟩ := h
  obtain rfl := Except.ok.inj hr
  exact ⟨hopens.zkid, hopens.jwk, finds_of_buildRecoveryKeys hrecovery, hopens.trusted⟩

theorem events_submitUpdate : (submitUpdate steps params prepared).events =
    [.updateZkId prepared.update (signer params)] :=
  events_sendMessage_waitUntil _

theorem events_submitRecoveryPhrase : (submitRecoveryPhrase steps params prepared).events =
    [.updateRecoveryPhrase prepared.recoveryKeys.pubRecoveryKey
      prepared.recoveryKeys.pubRecoveryKeySig (signer params)] :=
  events_sendMessage_waitUntil _

/-- What a call sends: the new identity, and the recovery key after the wait for it. -/
inductive Sends (libs : Libraries F) (steps : Steps) (params : UpdateMultifactorZkIdReq) :
    Message → Prop
  | updateZkId {prepared : Prepared} (h : prepareUpdate libs params = .ok prepared) :
      Sends libs steps params (.updateZkId prepared.update (signer params))
  | updateRecoveryPhrase {prepared : Prepared} (h : prepareUpdate libs params = .ok prepared)
      (hwait : ∃ i data, steps.readZkId i = .ok data ∧ data.zkid = params.zkid) :
      Sends libs steps params (.updateRecoveryPhrase prepared.recoveryKeys.pubRecoveryKey
        prepared.recoveryKeys.pubRecoveryKeySig (signer params))

theorem exists_read_of_submitUpdate {r : ResultOfSendMessage}
    (h : (submitUpdate steps params prepared).result = .ok r) :
    ∃ i data, steps.readZkId i = .ok data ∧ data.zkid = params.zkid := by
  rw [submitUpdate] at h
  simp only [Reporting.bind_result_eq_ok_iff] at h
  obtain ⟨-, -, _, hwait, -⟩ := h
  obtain ⟨i, data, hread, hzkid⟩ := of_waitUntil_eq_ok hwait
  exact ⟨i, data, hread, (of_decide_eq_true hzkid).symm⟩

theorem updateZkId_of_prepared (h : prepareUpdate libs params = .ok prepared) :
    updateZkId libs steps params = do
      let updateZkIdResult ← submitUpdate steps params prepared
      submitRecoveryPhrase steps params prepared
      return updateZkIdResult := by
  rw [updateZkId, h, Reporting.bind_of_ok rfl]
  rfl

theorem sends_of_mem_events {message : Message}
    (h : message ∈ (updateZkId libs steps params).events) : Sends libs steps params message := by
  cases hprepared : prepareUpdate libs params with
  | error e =>
      rw [updateZkId, hprepared, Reporting.bind_of_error rfl] at h
      cases h
  | ok prepared =>
      rw [updateZkId_of_prepared hprepared] at h
      cases hupdate : (submitUpdate steps params prepared).result with
      | error e =>
          rw [Reporting.bind_of_error hupdate] at h
          obtain rfl : message = _ := List.mem_singleton.mp (events_submitUpdate ▸ h)
          exact .updateZkId hprepared
      | ok r =>
          rw [Reporting.bind_of_ok hupdate, Reporting.bind_pure_events] at h
          obtain h | h := List.mem_append.mp h
          · obtain rfl : message = _ := List.mem_singleton.mp (events_submitUpdate ▸ h)
            exact .updateZkId hprepared
          · obtain rfl : message = _ := List.mem_singleton.mp (events_submitRecoveryPhrase ▸ h)
            exact .updateRecoveryPhrase hprepared (exists_read_of_submitUpdate hupdate)

end

/-! ## Any order of the messages -/

section

variable {secrets : Secrets} {account : Account}

theorem Opens.accept (hopens : Opens libs address secrets account)
    (accepted : Accepted libs address) :
    Opens libs address (secrets.accept accepted.params accepted.message)
      (account.accept accepted.message) := by
  obtain ⟨steps, params, message, rfl, hmem⟩ := accepted
  cases sends_of_mem_events hmem with
  | updateZkId h => exact hopens.update h _
  | updateRecoveryPhrase h _ => exact hopens.updateRecovery h _ _

theorem Opens.after (hopens : Opens libs address secrets account)
    (run : List (Accepted libs address)) :
    Opens libs address (secrets.after libs run) (accountAfter libs account run) := by
  induction run generalizing secrets account with
  | nil => exact hopens
  | cons accepted run ih => exact ih (hopens.accept accepted)

/-- The password of the recovery key is right for a new seed phrase. -/
theorem Opens.not_wrongPassword (hopens : Opens libs address secrets account)
    {steps : SeedPhrase.Steps} {params : ParamsOfChangeSeedPhrase}
    (hkey : steps.account.pubRecoveryKey = account.pubRecoveryKey)
    (hpassword : params.password = secrets.recoveryPassword)
    (haddress : params.multifactorAddress = address) :
    ¬WrongPassword libs.kit steps params := by
  intro hwrong
  obtain ⟨e, he⟩ := resolveRecoverySigner_of_wrong hwrong
  obtain ⟨keys, hkeys, -⟩ := hopens.recovery
  rw [hpassword, haddress, hkey, hkeys] at he
  cases he

end

section

variable {steps : Steps} {params : UpdateMultifactorZkIdReq}

/-- The account while a call runs alone.  Reads show it as it is, in the order of the call. -/
structure Timeline (libs : Libraries F) (steps : Steps) (params : UpdateMultifactorZkIdReq) where
  account : ℕ → Account
  zkIdReadAt : ℕ → ℕ
  recoveryReadAt : ℕ → ℕ
  readZkId : ∀ i data, steps.readZkId i = .ok data → data = account (zkIdReadAt i)
  readRecoveryKey : ∀ i data, steps.readRecoveryKey i = .ok data →
    data = account (recoveryReadAt i)
  ordered : ∀ i j, zkIdReadAt i ≤ recoveryReadAt j
  /-- A message that is accepted has been sent, the second after the wait for the first. -/
  next : ∀ t, account (t + 1) = account t ∨
    ∃ message ∈ (updateZkId libs steps params).events,
      account (t + 1) = (account t).accept message ∧
        ((∃ key sig signer, message = .updateRecoveryPhrase key sig signer) →
          ∃ i data, zkIdReadAt i ≤ t ∧ steps.readZkId i = .ok data ∧ data.zkid = params.zkid)

variable (params) in
/-- The account after the first message of a call. -/
def afterUpdate (prepared : Prepared) (account : Account) : Account :=
  account.accept (.updateZkId prepared.update (signer params))

variable (params) in
/-- The account after both. -/
def afterBoth (prepared : Prepared) (account : Account) : Account :=
  (afterUpdate params prepared account).accept
    (.updateRecoveryPhrase prepared.recoveryKeys.pubRecoveryKey
      prepared.recoveryKeys.pubRecoveryKeySig (signer params))

/-- How far a call has come. -/
inductive Stage (timeline : Timeline libs steps params) (prepared : Prepared) (t : ℕ) : Prop
  | before (h : ∀ s ≤ t, timeline.account s = timeline.account 0)
  | between (h : timeline.account t = afterUpdate params prepared (timeline.account 0))
  | done (h : timeline.account t = afterBoth params prepared (timeline.account 0))

namespace Timeline

variable {timeline : Timeline libs steps params} {prepared : Prepared}

/-- A read of the new identity is not from before the first message. -/
theorem not_before_of_read (hnew : (timeline.account 0).zkid ≠ params.zkid) {t i : ℕ}
    {data : Account} (hi : timeline.zkIdReadAt i ≤ t) (hread : steps.readZkId i = .ok data)
    (hzkid : data.zkid = params.zkid) :
    ¬∀ s ≤ t, timeline.account s = timeline.account 0 := by
  intro hbefore
  obtain rfl := timeline.readZkId i data hread
  rw [hbefore _ hi] at hzkid
  exact hnew hzkid

theorem done_next (hprepared : prepareUpdate libs params = .ok prepared) {t : ℕ}
    (h : timeline.account t = afterBoth params prepared (timeline.account 0)) :
    timeline.account (t + 1) = afterBoth params prepared (timeline.account 0) := by
  obtain hsame | ⟨message, hmem, haccept, -⟩ := timeline.next t
  · rw [hsame, h]
  · rw [haccept, h]
    cases sends_of_mem_events hmem with
    | updateZkId h' =>
        obtain rfl := Except.ok.inj (hprepared.symm.trans h')
        rfl
    | updateRecoveryPhrase h' _ =>
        obtain rfl := Except.ok.inj (hprepared.symm.trans h')
        rfl

/-- What both messages have made stays. -/
theorem done_of_le (hprepared : prepareUpdate libs params = .ok prepared) {t t' : ℕ} (hle : t ≤ t')
    (h : timeline.account t = afterBoth params prepared (timeline.account 0)) :
    timeline.account t' = afterBoth params prepared (timeline.account 0) := by
  induction hle with
  | refl => exact h
  | step _ ih => exact done_next hprepared ih

theorem stage_next (hprepared : prepareUpdate libs params = .ok prepared)
    (hnew : (timeline.account 0).zkid ≠ params.zkid) {t : ℕ} (h : Stage timeline prepared t) :
    Stage timeline prepared (t + 1) := by
  obtain hsame | ⟨message, hmem, haccept, hwait⟩ := timeline.next t
  · cases h with
    | before h =>
        refine .before fun s hs ↦ ?_
        obtain hs | rfl := Nat.lt_or_eq_of_le hs
        · exact h s (Nat.lt_succ_iff.mp hs)
        · rw [hsame, h t le_rfl]
    | between h => exact .between (hsame.trans h)
    | done h => exact .done (hsame.trans h)
  · cases sends_of_mem_events hmem with
    | updateZkId h' =>
        obtain rfl := Except.ok.inj (hprepared.symm.trans h')
        cases h with
        | before h => exact .between (by rw [haccept, h t le_rfl]; rfl)
        | between h => exact .between (by rw [haccept, h]; rfl)
        | done h => exact .done (done_next hprepared h)
    | updateRecoveryPhrase h' _ =>
        obtain rfl := Except.ok.inj (hprepared.symm.trans h')
        cases h with
        | before h =>
            obtain ⟨i, data, hi, hread, hzkid⟩ := hwait ⟨_, _, _, rfl⟩
            exact absurd h (not_before_of_read hnew hi hread hzkid)
        | between h => exact .done (by rw [haccept, h]; rfl)
        | done h => exact .done (done_next hprepared h)

theorem stage (hprepared : prepareUpdate libs params = .ok prepared)
    (hnew : (timeline.account 0).zkid ≠ params.zkid) (t : ℕ) : Stage timeline prepared t := by
  induction t with
  | zero => exact .before fun s hs ↦ by rw [Nat.le_zero.mp hs]
  | succ t ih => exact stage_next hprepared hnew ih

/-- A call that sends nothing leaves the account as it is. -/
theorem account_of_not_prepared {e : AppError} (h : prepareUpdate libs params = .error e) (t : ℕ) :
    timeline.account t = timeline.account 0 := by
  induction t with
  | zero => rfl
  | succ t ih =>
      obtain hsame | ⟨message, hmem, -⟩ := timeline.next t
      · rw [hsame, ih]
      · rw [updateZkId, h, Reporting.bind_of_error rfl] at hmem
        cases hmem

/-- A call that succeeds has read the account after both of its messages. -/
theorem exists_done (hprepared : prepareUpdate libs params = .ok prepared)
    (hnew : (timeline.account 0).zkid ≠ params.zkid) {r : ResultOfSendMessage}
    (h : (updateZkId libs steps params).result = .ok r) :
    ∃ t, timeline.account t = afterBoth params prepared (timeline.account 0) := by
  rw [updateZkId_of_prepared hprepared] at h
  simp only [submitRecoveryPhrase, Reporting.bind_result_eq_ok_iff] at h
  obtain ⟨_, hupdate, _, ⟨_, -, _, hwait, -⟩, -⟩ := h
  obtain ⟨i, data, hread, hzkid⟩ := exists_read_of_submitUpdate hupdate
  obtain ⟨j, data', hread', hkey⟩ := of_waitUntil_eq_ok hwait
  obtain rfl := timeline.readRecoveryKey j data' hread'
  refine ⟨timeline.recoveryReadAt j, ?_⟩
  cases timeline.stage hprepared hnew (timeline.recoveryReadAt j) with
  | before h => exact absurd h (not_before_of_read hnew (timeline.ordered i j) hread hzkid)
  | between h =>
      -- The recovery key was the new one before the second message.
      rw [h] at hkey ⊢
      rw [afterBoth, Account.accept, of_decide_eq_true hkey]
  | done h => exact h

end Timeline

end

/-- A call that runs alone, cut off at any point, leaves an account that the old secrets
open, or the new identity with the old recovery password, or the new secrets: and these
from some point on if it succeeds. -/
theorem opens_of_timeline {steps : Steps} {params : UpdateMultifactorZkIdReq}
    (timeline : Timeline libs steps params) {secrets : Secrets}
    (hopens : Opens libs params.address secrets (timeline.account 0))
    (hnew : secrets.zkid ≠ params.zkid) :
    (∀ t, ∃ secrets' ∈ [secrets, secrets.withIdentity params,
        (secrets.withIdentity params).withRecovery params],
      Opens libs params.address secrets' (timeline.account t)) ∧
    ∀ r, (updateZkId libs steps params).result = .ok r →
      ∃ t, ∀ t' ≥ t, Opens libs params.address
        ((secrets.withIdentity params).withRecovery params) (timeline.account t') := by
  rw [← hopens.zkid] at hnew
  cases hprepared : prepareUpdate libs params with
  | error e =>
      refine ⟨fun t ↦ ⟨secrets, List.mem_cons_self, ?_⟩, fun r hr ↦ ?_⟩
      · rw [timeline.account_of_not_prepared hprepared]
        exact hopens
      · rw [updateZkId, hprepared, Reporting.bind_of_error rfl] at hr
        cases hr
  | ok prepared =>
      have hbetween : Opens libs params.address (secrets.withIdentity params)
          (afterUpdate params prepared (timeline.account 0)) := hopens.update hprepared _
      have hdone : Opens libs params.address ((secrets.withIdentity params).withRecovery params)
          (afterBoth params prepared (timeline.account 0)) := hbetween.updateRecovery hprepared _ _
      refine ⟨fun t ↦ ?_, fun r hr ↦ ?_⟩
      · cases timeline.stage hprepared hnew t with
        | before h => exact ⟨secrets, by simp, h t le_rfl ▸ hopens⟩
        | between h => exact ⟨secrets.withIdentity params, by simp, h ▸ hbetween⟩
        | done h => exact ⟨(secrets.withIdentity params).withRecovery params, by simp, h ▸ hdone⟩
      · obtain ⟨t, ht⟩ := timeline.exists_done hprepared hnew hr
        exact ⟨t, fun t' ht' ↦ timeline.done_of_le hprepared ht' ht ▸ hdone⟩

/-! ## A password that changes -/

open Json.Compact (serde structWriter)

/-- Libraries whose keys name the password, or the subject. -/
def exampleLibs : Libraries Empty where
  serde := serde
  kit := exampleKit
  getRootCertsMap _ := .ok []

/-- The window of the issuer in a payload that begins with it. -/
def exampleIss : String :=
  windowOf (Bytes.utf8 "\x7b" ++ Bytes.utf8 (googleClaim ++ ",") ++ Bytes.utf8 "\"a\":1\x7d")
    (Bytes.utf8 "\x7b").length
    ((Bytes.utf8 "\x7b").length + (Bytes.utf8 (googleClaim ++ ",")).length)

theorem checkProvider_example : checkProvider exampleLibs ⟨exampleIss, 1⟩ = .ok (.google, []) := by
  have hdecode : decodeBase64Url exampleIss 1 = .ok (googleClaim ++ ",") :=
    decodeBase64Url_windowOf (by decide)
  have hclaim : verifyExtendedClaim exampleLibs.serde (googleClaim ++ ",") "iss" =
      .ok "https://accounts.google.com" := by
    rw [verifyExtendedClaim_append (.inr rfl)]
    have hmember : memberOf exampleLibs.serde googleClaim "iss" =
        some "https://accounts.google.com" := memberOf_of_writer structWriter googleClaim_eq
    rw [hmember]
  have hprovider : getAuthProvider exampleLibs.serde ⟨exampleIss, 1⟩ = .ok .google :=
    Outcome.bind_eq_ok_iff.mpr ⟨_, zkStep_eq_ok_iff.mpr hdecode,
      Outcome.bind_eq_ok_iff.mpr ⟨_, zkStep_eq_ok_iff.mpr hclaim, rfl⟩⟩
  rw [checkProvider, hprovider]
  rfl

def exampleDeploy : ParamsOfPrepareDeploy where
  zkid := "zkid"
  password := "password"
  proof := "proof"
  epk := "epk"
  esk := "esk"
  jwkModulus := "modulus"
  jwkModulusExpireAt := 2
  indexMod4 := 1
  issBase64 := exampleIss
  headerBase64 := "header"
  epkExpireAt := 2
  keys := ⟨"owner", "secret"⟩
  kid := "kid"
  walletName := "wallet"
  multifactorAddress := "0:1"
  sub := "sub"

def exampleUpdate : UpdateMultifactorZkIdReq where
  address := "0:1"
  zkid := "zkid2"
  password := "password2"
  proof := "proof"
  epk := "epk"
  esk := "esk"
  jwkModulus := "modulus"
  jwkModulusExpireAt := 2
  indexMod4 := 1
  issBase64 := exampleIss
  headerBase64 := "header"
  epkExpireAt := 2
  pubkey := "owner"
  secretkey := "secret"
  kid := "kid"
  sub := "sub"

theorem exists_prepareMultifactorDeploy_example :
    ∃ r, prepareMultifactorDeploy exampleLibs exampleDeploy = .ok r := by
  rw [prepareMultifactorDeploy, exampleDeploy, checkProvider_example]
  exact ⟨_, rfl⟩

theorem exists_prepareUpdate_example : ∃ prepared,
    prepareUpdate exampleLibs exampleUpdate = .ok prepared ∧ prepared.update.zkid = "zkid2" := by
  have hindex : checkedIndex exampleUpdate.indexMod4.toInt = 1 := by decide
  rw [prepareUpdate, hindex, exampleUpdate, checkProvider_example]
  exact ⟨_, rfl, rfl⟩

theorem mem_events_of_prepared {steps : Steps} {params : UpdateMultifactorZkIdReq}
    {prepared : Prepared} (h : prepareUpdate libs params = .ok prepared) :
    .updateZkId prepared.update (signer params) ∈ (updateZkId libs steps params).events := by
  rw [updateZkId_of_prepared h]
  apply Reporting.mem_events_bind
  rw [events_submitUpdate]
  exact List.mem_singleton_self _

/-- A chain whose first answer is lost. -/
def lostSteps : Steps where
  updateZkId := .error (.new "timeout")
  readZkId _ := .error (.new "timeout")
  updateRecoveryPhrase := .error (.new "timeout")
  readRecoveryKey _ := .error (.new "timeout")

theorem waitUntil_of_first {read : ℕ → Except AppError Account} {predicate : Account → Bool}
    {data : Account} (hread : read 0 = .ok data) (hdata : predicate data = true) :
    (waitUntil read predicate : Reporting Message AppError Unit).result = .ok () := by
  have hpoll : (pollUntil AppError.new (fun i ↦ inContext "Multifactor get details" (read i))
      predicate none).1 = .ok data := by
    change (pollLoop _ predicate _ (99 + 1) 0).1 = _
    rw [pollLoop, hread, inContext_eq_ok_iff.mpr rfl]
    simp only [hdata, if_true]
  rw [waitUntil, hpoll]
  rfl

def exampleSend : ResultOfSendMessage := ⟨some "hash", none, none⟩

/-- A chain that accepts both messages at once. -/
def promptSteps (prepared : Prepared) (account : Account) : Steps where
  updateZkId := .ok exampleSend
  readZkId _ := .ok (afterUpdate exampleUpdate prepared account)
  updateRecoveryPhrase := .ok exampleSend
  readRecoveryKey _ := .ok (afterBoth exampleUpdate prepared account)

section

variable {prepared : Prepared} {account : Account}

theorem submitUpdate_prompt (hzkid : prepared.update.zkid = exampleUpdate.zkid) :
    (submitUpdate (promptSteps prepared account) exampleUpdate prepared).result =
      .ok exampleSend := by
  have hwait : (waitUntil (promptSteps prepared account).readZkId
      fun data ↦ exampleUpdate.zkid = data.zkid : Reporting Message AppError Unit).result = .ok () :=
    waitUntil_of_first rfl (decide_eq_true hzkid.symm)
  rw [submitUpdate, Reporting.bind_result_eq_ok_iff]
  refine ⟨exampleSend, rfl, ?_⟩
  rw [Reporting.bind_result_eq_ok_iff]
  exact ⟨(), hwait, rfl⟩

theorem submitRecoveryPhrase_prompt :
    (submitRecoveryPhrase (promptSteps prepared account) exampleUpdate prepared).result =
      .ok () := by
  have hwait : (waitUntil (promptSteps prepared account).readRecoveryKey
      fun data ↦ prepared.recoveryKeys.pubRecoveryKey = data.pubRecoveryKey :
        Reporting Message AppError Unit).result = .ok () :=
    waitUntil_of_first rfl (decide_eq_true rfl)
  rw [submitRecoveryPhrase, Reporting.bind_result_eq_ok_iff]
  refine ⟨exampleSend, rfl, ?_⟩
  rw [Reporting.bind_result_eq_ok_iff]
  exact ⟨(), hwait, rfl⟩

/-- Both messages are sent. -/
theorem events_prompt (h : prepareUpdate exampleLibs exampleUpdate = .ok prepared)
    (hzkid : prepared.update.zkid = exampleUpdate.zkid) :
    (updateZkId exampleLibs (promptSteps prepared account) exampleUpdate).events =
      [.updateZkId prepared.update (signer exampleUpdate),
        .updateRecoveryPhrase prepared.recoveryKeys.pubRecoveryKey
          prepared.recoveryKeys.pubRecoveryKeySig (signer exampleUpdate)] := by
  rw [updateZkId_of_prepared h, Reporting.bind_of_ok (submitUpdate_prompt hzkid),
    Reporting.bind_of_ok submitRecoveryPhrase_prompt, events_submitUpdate,
    events_submitRecoveryPhrase]
  rfl

def promptTimeline (h : prepareUpdate exampleLibs exampleUpdate = .ok prepared)
    (hzkid : prepared.update.zkid = exampleUpdate.zkid) :
    Timeline exampleLibs (promptSteps prepared account) exampleUpdate where
  account
    | 0 => account
    | 1 => afterUpdate exampleUpdate prepared account
    | _ + 2 => afterBoth exampleUpdate prepared account
  zkIdReadAt _ := 1
  recoveryReadAt _ := 2
  readZkId _ _ hread := (Except.ok.inj hread).symm
  readRecoveryKey _ _ hread := (Except.ok.inj hread).symm
  ordered _ _ := one_le_two
  next
    | 0 => .inr ⟨_, mem_events_of_prepared h, rfl, nofun⟩
    | 1 => .inr ⟨_, by rw [events_prompt h hzkid]; exact .tail _ (.head _), rfl,
        fun _ ↦ ⟨0, _, le_rfl, rfl, hzkid⟩⟩
    | _ + 2 => .inl rfl

end

theorem opens_of_timeline_prompt : ∃ (steps : Steps)
    (timeline : Timeline exampleLibs steps exampleUpdate),
    timeline.account 0 ≠ timeline.account 2 ∧
      ∃ t, ∀ t' ≥ t, Opens exampleLibs "0:1" ⟨"zkid2", "password2", "sub", "password2"⟩
        (timeline.account t') := by
  obtain ⟨⟨deploy, hash⟩, hdeploy⟩ := exists_prepareMultifactorDeploy_example
  obtain ⟨prepared, hprepared, hzkid⟩ := exists_prepareUpdate_example
  have hopens := opens_ofDeploy hdeploy
  have hresult : (updateZkId exampleLibs (promptSteps prepared (.ofDeploy deploy))
      exampleUpdate).result = .ok exampleSend := by
    rw [updateZkId_of_prepared hprepared, Reporting.bind_of_ok (submitUpdate_prompt hzkid),
      Reporting.bind_of_ok submitRecoveryPhrase_prompt]
    rfl
  have hnew : exampleUpdate.zkid ≠ (Secrets.ofDeploy exampleDeploy).zkid := by decide
  refine ⟨_, promptTimeline hprepared hzkid, fun hsame ↦ ?_,
    (opens_of_timeline (promptTimeline hprepared hzkid) hopens hnew.symm).2 _ hresult⟩
  have hsame' := congrArg Account.zkid hsame
  exact hnew (hzkid.symm.trans (hsame'.symm.trans hopens.zkid))

end AccountKeys

end BeeEngine
