import BeeEngine.MultifactorWrites

/-!
# A new seed phrase

`change_seed_phrase`, a sequence of messages of which the last is signed by the
recovery key that the password gives.
-/

namespace BeeEngine

namespace SeedPhrase

open Multifactor

/-! ## The recovery key -/

/-- What the crypto libraries compute. -/
structure CryptoKit where
  signDetachedHex : String → String → Except AppError String
  sha256 : String → Except AppError String
  /-- PBKDF2 of the first text, with a salt from the second. -/
  createSaltedHash : String → String → Except AppError String
  mnemonicFromEntropy : String → Except AppError String
  mnemonicDeriveSignKeys : String → String → Except AppError KeyPair

def currentDerivationPath : String := "m/44'/1331'/0'/0/0"
def legacyDerivationPath : String := "m/44'/396'/0'/0/0"
def candidatePaths : List String := [currentDerivationPath, legacyDerivationPath]

def pubkeyMatches (derivedPublic onChainPubkey : String) : Bool :=
  let onChain := (Text.stripPrefix "0x" onChainPubkey).getD onChainPubkey
  Text.toAsciiLowercase derivedPublic = Text.toAsciiLowercase onChain

def noPathError : AppError :=
  (AppError.new ("no known HD derivation path matches the on-chain key " ++
    "(wrong password or social account?)")).withKind "key_path_resolution"

section

variable (kit : CryptoKit)

def deriveSignKeys (phrase path : String) : Except AppError KeyPair :=
  inContext "failed to derive sign keys" (kit.mnemonicDeriveSignKeys phrase path)

/-- The keys on the first of the paths that gives the key on the chain. -/
def resolveSignKeys (phrase onChainPubkey : String) :
    List String → Except AppError (KeyPair × String)
  | [] => .error noPathError
  | path :: paths => do
      let keys ← deriveSignKeys kit phrase path
      if pubkeyMatches keys.publicKey onChainPubkey then return (keys, path)
      else resolveSignKeys phrase onChainPubkey paths

def buildRecoveryPassword (passwordSha256 address : String) : Except AppError String := do
  let entropy ← kit.createSaltedHash passwordSha256 address
  inContext "failed to create recovery password" (kit.mnemonicFromEntropy entropy)

/-- The phrase that a password gives for an address. -/
def recoveryPhrase (password address : String) : Except AppError String := do
  let passwordSha256 ← inContext "Failed to hash data" (kit.sha256 password)
  buildRecoveryPassword kit passwordSha256 address

def resolveRecoverySigner (password address onChainPubRecoveryKey : String) :
    Except AppError (KeyPair × String) := do
  let phrase ← recoveryPhrase kit password address
  resolveSignKeys kit phrase onChainPubRecoveryKey candidatePaths

end

/-! ## The function -/

/-- The fields of an account that a call reads. -/
structure AccountData where
  ownerPubkey : String
  pubRecoveryKey : String
  candidateNewOwnerPubkeyAndExpiration : Option (List (String × String))
  deriving DecidableEq, Repr

def hasCandidateSeedPhrase (data : AccountData) : Bool :=
  match data.candidateNewOwnerPubkeyAndExpiration with
  | some candidate => ¬candidate.isEmpty
  | none => false

structure ParamsOfChangeSeedPhrase where
  password : String
  signerKeys : KeyPair
  newOwnerKeys : KeyPair
  multifactorAddress : String
  deriving DecidableEq, Repr

inductive Message where
  | deleteCandidateSeedPhrase (epkExpireAt : UInt64) (signer : KeyPair)
  | changeSeedPhrase (epkExpireAt : UInt64) (newOwnerPubkeySig newOwnerPubkey : String)
      (signer : KeyPair)
  | acceptCandidateSeedPhrase (newOwnerPubkey : String) (signer : KeyPair)
  deriving DecidableEq, Repr

/-- The account at the start of a call, and what the chain answers in it. -/
structure Steps where
  account : AccountData
  readError : Option AppError
  deleteCandidate : Except AppError ResultOfSendMessage
  readDeleted : ℕ → Except AppError AccountData
  change : Except AppError ResultOfSendMessage
  readChanged : ℕ → Except AppError AccountData
  accept : Except AppError ResultOfSendMessage
  readAccepted : ℕ → Except AppError AccountData

/-- The first read of the account. -/
def Steps.read (steps : Steps) : Except AppError AccountData :=
  match steps.readError with
  | some e => .error e
  | none => .ok steps.account

section

variable (kit : CryptoKit) (steps : Steps) (epkExpireAt : UInt64)
  (params : ParamsOfChangeSeedPhrase)

def newOwnerPubkey : String := "0x" ++ params.newOwnerKeys.publicKey

def deleteCandidateSeedPhraseAndWait : Reporting Message AppError (Option String) := do
  let result ← sendMessage (.deleteCandidateSeedPhrase epkExpireAt params.signerKeys)
    "[delete_candidate_seed_phrase]" steps.deleteCandidate "delete_candidate_seed_phrase"
  waitUntil steps.readDeleted fun data ↦ ¬hasCandidateSeedPhrase data
  return result.messageHash

/-- Removes a candidate that is there. -/
def removeCandidate (data : AccountData) : Reporting Message AppError (List String) :=
  if hasCandidateSeedPhrase data then do
    let messageId ← deleteCandidateSeedPhraseAndWait steps epkExpireAt params
    return messageId.toList
  else pure []

def submitChangeSeedPhrase (newOwnerPubkeySig : String) :
    Reporting Message AppError (Option String) := do
  let result ← sendMessage
    (.changeSeedPhrase epkExpireAt newOwnerPubkeySig (newOwnerPubkey params) params.signerKeys)
    "[change_seed_phrase]" steps.change "change_seed_phrase"
  waitUntil steps.readChanged hasCandidateSeedPhrase
  return result.messageHash

def acceptCandidateSeedPhraseAndWait (signerKeys : KeyPair) :
    Reporting Message AppError (Option String) := do
  let result ← sendMessage (.acceptCandidateSeedPhrase (newOwnerPubkey params) signerKeys)
    "[accept_candidate_seed_phrase]" steps.accept "accept_candidate_seed_phrase"
  waitUntil steps.readAccepted fun data ↦ data.ownerPubkey = newOwnerPubkey params
  return result.messageHash

/-- The ids of the messages.  The multifactor is the one at the address of the request. -/
def changeSeedPhrase : Reporting Message AppError (List String) := do
  let newOwnerPubkeySig ←
    kit.signDetachedHex params.newOwnerKeys.publicKey params.newOwnerKeys.secretKey
  let data ← steps.read
  let deleteIds ← removeCandidate steps epkExpireAt params data
  let changeId ← Reporting.mapError (·.withContext "change_seed_phrase step 2: submit")
    (submitChangeSeedPhrase steps epkExpireAt params newOwnerPubkeySig)
  let (recoverySigner, _) ←
    resolveRecoverySigner kit params.password params.multifactorAddress data.pubRecoveryKey
  let acceptId ← Reporting.mapError (·.withContext "change_seed_phrase step 3: accept")
    (acceptCandidateSeedPhraseAndWait steps params recoverySigner)
  return deleteIds ++ changeId.toList ++ acceptId.toList

/-! ## What is claimed -/

/-- No key that the password gives is the recovery key on the chain. -/
def WrongPassword : Prop :=
  ∀ phrase, recoveryPhrase kit params.password params.multifactorAddress = .ok phrase →
    ∀ path ∈ candidatePaths, ∀ keys, deriveSignKeys kit phrase path = .ok keys →
      pubkeyMatches keys.publicKey steps.account.pubRecoveryKey = false

/-- The message adds a candidate, or removes one. -/
def ChangesCandidate : Message → Prop
  | .deleteCandidateSeedPhrase _ _ => True
  | .changeSeedPhrase _ _ _ _ => True
  | .acceptCandidateSeedPhrase _ _ => False

/-- The messages of a call that succeeds.  A candidate is deleted if there is one. -/
def messagesOf (newOwnerPubkeySig : String) (recoverySigner : KeyPair) : List Message :=
  (if hasCandidateSeedPhrase steps.account then
    [.deleteCandidateSeedPhrase epkExpireAt params.signerKeys] else []) ++
  [.changeSeedPhrase epkExpireAt newOwnerPubkeySig (newOwnerPubkey params) params.signerKeys,
    .acceptCandidateSeedPhrase (newOwnerPubkey params) recoverySigner]

structure ChangesSafely : Prop where
  /-- A wrong password is refused before any candidate is changed. -/
  untouched : WrongPassword kit steps params →
    (∃ e, (changeSeedPhrase kit steps epkExpireAt params).result = .error e) ∧
      ∀ message ∈ (changeSeedPhrase kit steps epkExpireAt params).events,
        ¬ChangesCandidate message
  /-- All messages are sent in order, and the last read has the new owner. -/
  complete : ∀ ids, (changeSeedPhrase kit steps epkExpireAt params).result = .ok ids →
    (∃ newOwnerPubkeySig recoverySigner, (changeSeedPhrase kit steps epkExpireAt params).events =
      messagesOf steps epkExpireAt params newOwnerPubkeySig recoverySigner) ∧
    ∃ n data, steps.readAccepted n = .ok data ∧ data.ownerPubkey = newOwnerPubkey params

/-- The new key is signed, and the account is read. -/
def Begins : Prop :=
  (∃ newOwnerPubkeySig, kit.signDetachedHex params.newOwnerKeys.publicKey
    params.newOwnerKeys.secretKey = .ok newOwnerPubkeySig) ∧ steps.readError = none

end

/-! ## The password -/

section

variable {kit : CryptoKit} {steps : Steps} {epkExpireAt : UInt64}
  {params : ParamsOfChangeSeedPhrase}

theorem resolveSignKeys_of_none {phrase onChainPubkey : String} {paths : List String}
    (h : ∀ path ∈ paths, ∀ keys, deriveSignKeys kit phrase path = .ok keys →
      pubkeyMatches keys.publicKey onChainPubkey = false) :
    ∃ e, resolveSignKeys kit phrase onChainPubkey paths = .error e := by
  induction paths with
  | nil => exact ⟨_, rfl⟩
  | cons path paths ih =>
      rw [resolveSignKeys]
      cases hkeys : deriveSignKeys kit phrase path with
      | error e => exact ⟨e, rfl⟩
      | ok keys =>
          have hmatch := h path List.mem_cons_self keys hkeys
          obtain ⟨e, he⟩ := ih fun path hpath ↦ h path (List.mem_cons_of_mem _ hpath)
          refine ⟨e, ?_⟩
          change (if pubkeyMatches keys.publicKey onChainPubkey = true then _ else _) = _
          rw [hmatch, if_neg Bool.false_ne_true, he]

/-- The check fails for a wrong password. -/
theorem resolveRecoverySigner_of_wrong (h : WrongPassword kit steps params) :
    ∃ e, resolveRecoverySigner kit params.password params.multifactorAddress
      steps.account.pubRecoveryKey = .error e := by
  rw [resolveRecoverySigner]
  cases hphrase : recoveryPhrase kit params.password params.multifactorAddress with
  | error e => exact ⟨e, rfl⟩
  | ok phrase => exact resolveSignKeys_of_none (h phrase hphrase)

/-! ## The messages of a call -/

theorem events_deleteCandidateSeedPhraseAndWait :
    (deleteCandidateSeedPhraseAndWait steps epkExpireAt params).events =
      [.deleteCandidateSeedPhrase epkExpireAt params.signerKeys] :=
  events_sendMessage_waitUntil _

theorem events_submitChangeSeedPhrase {newOwnerPubkeySig : String} :
    (submitChangeSeedPhrase steps epkExpireAt params newOwnerPubkeySig).events =
      [.changeSeedPhrase epkExpireAt newOwnerPubkeySig (newOwnerPubkey params)
        params.signerKeys] :=
  events_sendMessage_waitUntil _

theorem events_acceptCandidateSeedPhraseAndWait {signerKeys : KeyPair} :
    (acceptCandidateSeedPhraseAndWait steps params signerKeys).events =
      [.acceptCandidateSeedPhrase (newOwnerPubkey params) signerKeys] :=
  events_sendMessage_waitUntil _

theorem removeCandidate_of_absent {data : AccountData} (h : hasCandidateSeedPhrase data = false) :
    removeCandidate steps epkExpireAt params data = pure [] := by
  rw [removeCandidate, h, if_neg Bool.false_ne_true]

theorem events_removeCandidate (data : AccountData) :
    (removeCandidate steps epkExpireAt params data).events =
      if hasCandidateSeedPhrase data then
        [.deleteCandidateSeedPhrase epkExpireAt params.signerKeys] else [] := by
  rw [removeCandidate]
  split
  · have hevents : (deleteCandidateSeedPhraseAndWait steps epkExpireAt params).events =
        [.deleteCandidateSeedPhrase epkExpireAt params.signerKeys] :=
      events_deleteCandidateSeedPhraseAndWait
    cases hdelete : (deleteCandidateSeedPhraseAndWait steps epkExpireAt params).result with
    | error e => rw [Reporting.bind_of_error hdelete, hevents]
    | ok messageId => rw [Reporting.bind_of_ok hdelete, hevents]; rfl
  · rfl

theorem newOwner_of_accept {signerKeys : KeyPair} {acceptId : Option String}
    (h : (acceptCandidateSeedPhraseAndWait steps params signerKeys).result = .ok acceptId) :
    ∃ n data, steps.readAccepted n = .ok data ∧ data.ownerPubkey = newOwnerPubkey params := by
  rw [acceptCandidateSeedPhraseAndWait] at h
  simp only [Reporting.bind_result_eq_ok_iff] at h
  obtain ⟨-, -, _, hwait, -⟩ := h
  obtain ⟨n, data, hread, howner⟩ := of_waitUntil_eq_ok hwait
  exact ⟨n, data, hread, of_decide_eq_true howner⟩

theorem steps_read_eq_ok_iff {data : AccountData} :
    steps.read = .ok data ↔ steps.readError = none ∧ steps.account = data := by
  rw [Steps.read]
  cases steps.readError <;> simp

/-! ## A whole call -/

theorem complete_of_result {ids : List String}
    (h : (changeSeedPhrase kit steps epkExpireAt params).result = .ok ids) :
    (∃ newOwnerPubkeySig recoverySigner, (changeSeedPhrase kit steps epkExpireAt params).events =
      messagesOf steps epkExpireAt params newOwnerPubkeySig recoverySigner) ∧
    ∃ n data, steps.readAccepted n = .ok data ∧ data.ownerPubkey = newOwnerPubkey params := by
  have hsteps := h
  rw [changeSeedPhrase] at hsteps
  simp only [Reporting.bind_result_eq_ok_iff] at hsteps
  obtain ⟨newOwnerPubkeySig, hsign, data, hread, deleteIds, hdelete, changeId, hchange,
    ⟨recoverySigner, path⟩, hsigner, acceptId, haccept, -⟩ := hsteps
  obtain ⟨-, rfl⟩ := steps_read_eq_ok_iff.mp hread
  refine ⟨⟨newOwnerPubkeySig, recoverySigner, ?_⟩,
    newOwner_of_accept (Reporting.mapError_result_eq_ok_iff.mp haccept)⟩
  rw [changeSeedPhrase, Reporting.bind_of_ok hsign, Reporting.bind_of_ok hread,
    Reporting.bind_of_ok hdelete, Reporting.bind_of_ok hchange, Reporting.bind_of_ok hsigner]
  dsimp only at haccept ⊢
  rw [Reporting.bind_of_ok haccept]
  change [] ++ ([] ++ ((removeCandidate steps epkExpireAt params steps.account).events ++
    ((submitChangeSeedPhrase steps epkExpireAt params newOwnerPubkeySig).events ++ ([] ++
      ((acceptCandidateSeedPhraseAndWait steps params recoverySigner).events ++ []))))) = _
  rw [events_removeCandidate, events_submitChangeSeedPhrase,
    events_acceptCandidateSeedPhraseAndWait, messagesOf]
  rfl

/-- A wrong password is always refused, at the latest before the last message. -/
theorem result_of_wrong (hwrong : WrongPassword kit steps params) :
    ∃ e, (changeSeedPhrase kit steps epkExpireAt params).result = .error e := by
  cases hresult : (changeSeedPhrase kit steps epkExpireAt params).result with
  | error e => exact ⟨e, rfl⟩
  | ok ids =>
      rw [changeSeedPhrase] at hresult
      simp only [Reporting.bind_result_eq_ok_iff] at hresult
      obtain ⟨-, -, data, hread, -, -, -, -, signer, hsigner, -⟩ := hresult
      obtain ⟨-, rfl⟩ := steps_read_eq_ok_iff.mp hread
      obtain ⟨e, he⟩ := resolveRecoverySigner_of_wrong hwrong
      rw [he] at hsigner
      cases hsigner

theorem events_of_not_begins (h : ¬Begins kit steps params) :
    (changeSeedPhrase kit steps epkExpireAt params).events = [] := by
  rw [changeSeedPhrase]
  cases hsign : kit.signDetachedHex params.newOwnerKeys.publicKey
      params.newOwnerKeys.secretKey with
  | error e => rfl
  | ok newOwnerPubkeySig =>
      cases hread : steps.readError with
      | some e => rw [Steps.read, hread]; rfl
      | none => exact absurd ⟨⟨_, hsign⟩, hread⟩ h

/-- A call that begins deletes the candidate, or adds one. -/
theorem exists_change_of_begins (h : Begins kit steps params) :
    ∃ message ∈ (changeSeedPhrase kit steps epkExpireAt params).events,
      ChangesCandidate message := by
  obtain ⟨⟨newOwnerPubkeySig, hsign⟩, hread⟩ := h
  have haccount : steps.read = .ok steps.account := steps_read_eq_ok_iff.mpr ⟨hread, rfl⟩
  rw [changeSeedPhrase, hsign, haccount]
  cases hcandidate : hasCandidateSeedPhrase steps.account with
  | true =>
      refine ⟨.deleteCandidateSeedPhrase epkExpireAt params.signerKeys, ?_, trivial⟩
      apply Reporting.mem_events_bind_of_ok rfl
      apply Reporting.mem_events_bind_of_ok rfl
      apply Reporting.mem_events_bind
      rw [events_removeCandidate, hcandidate, if_pos rfl]
      exact List.mem_singleton_self _
  | false =>
      refine ⟨.changeSeedPhrase epkExpireAt newOwnerPubkeySig (newOwnerPubkey params)
        params.signerKeys, ?_, trivial⟩
      apply Reporting.mem_events_bind_of_ok rfl
      apply Reporting.mem_events_bind_of_ok rfl
      rw [removeCandidate_of_absent hcandidate]
      apply Reporting.mem_events_bind_of_ok rfl
      apply Reporting.mem_events_bind
      exact events_submitChangeSeedPhrase ▸ List.mem_singleton_self _

end

/-- A call is safe exactly if the password is right, or nothing is sent for another reason. -/
theorem changesSafely_iff (kit : CryptoKit) (steps : Steps) (epkExpireAt : UInt64)
    (params : ParamsOfChangeSeedPhrase) :
    ChangesSafely kit steps epkExpireAt params ↔
      ¬(WrongPassword kit steps params ∧ Begins kit steps params) := by
  constructor
  · rintro hsafe ⟨hwrong, hbegins⟩
    obtain ⟨message, hmem, hchanges⟩ := exists_change_of_begins hbegins
    exact (hsafe.untouched hwrong).2 message hmem hchanges
  · intro hcond
    refine ⟨fun hwrong ↦ ⟨result_of_wrong hwrong, ?_⟩, fun ids hids ↦ complete_of_result hids⟩
    rw [events_of_not_begins fun hbegins ↦ hcond ⟨hwrong, hbegins⟩]
    simp

/-! ## A wrong password -/

/-- A kit whose keys name the password. -/
def exampleKit : CryptoKit where
  signDetachedHex publicKey _ := .ok ("signed " ++ publicKey)
  sha256 data := .ok data
  createSaltedHash hash _ := .ok hash
  mnemonicFromEntropy entropy := .ok entropy
  mnemonicDeriveSignKeys phrase _ := .ok ⟨phrase, "secret"⟩

def exampleAccount : AccountData := ⟨"0xowner", "0xright", none⟩

def exampleSend : ResultOfSendMessage := ⟨some "hash", none, none⟩

/-- A chain on which every message succeeds.  There is no candidate at first. -/
def exampleSteps : Steps where
  account := exampleAccount
  readError := none
  deleteCandidate := .ok exampleSend
  readDeleted _ := .ok exampleAccount
  change := .ok exampleSend
  readChanged _ := .ok ⟨"0xowner", "0xright", some [("0xnew", "1")]⟩
  accept := .ok exampleSend
  readAccepted _ := .ok ⟨"0xnew", "0xright", none⟩

def exampleParams : ParamsOfChangeSeedPhrase := ⟨"wrong", ⟨"zkp", "z"⟩, ⟨"new", "n"⟩, "0:1"⟩

/-- The candidate of a wrong password is left pending. -/
theorem not_changesSafely : ¬ChangesSafely exampleKit exampleSteps 0 exampleParams := by
  rw [changesSafely_iff, not_not]
  refine ⟨?_, ⟨_, rfl⟩, rfl⟩
  rintro phrase ⟨⟩ path hpath keys ⟨⟩
  decide +kernel

end SeedPhrase

end BeeEngine
