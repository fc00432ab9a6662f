import BeeEngine.MultifactorWrites

/-!
# The whitelist of a multifactor

`update_multifactor_whitelist_and_wait`, which empties a full whitelist before
it adds to it.
-/

namespace BeeEngine

namespace Whitelist

open Multifactor

/-! ## The function -/

/-- The contracts of the kit.  The code tells one from all others. -/
inductive ContractIndex where
  | popCoinWallet
  | other (index : ℕ)
  deriving DecidableEq, Repr

structure ParamsOfUpdateMultifactorWhiteList where
  epkExpireAt : UInt64
  payloadDestination : ContractIndex
  targetAddress : String
  mirrorIndex : BitVec 128
  whitelistedName : Option String
  deriving DecidableEq, Repr

inductive Message where
  | cleanWhitelist (epkExpireAt : UInt64)
  | updateWhitelist (epkExpireAt : UInt64) (payloadDestination : ContractIndex) (name : String)
      (mirrorIndex : BitVec 128)
  deriving DecidableEq, Repr

/-- What the chain answers in one call.  A read gives the keys of the whitelist. -/
structure Steps where
  read : Except AppError (Finset String)
  cleanWhitelist : Except AppError ResultOfSendMessage
  readCleaned : ℕ → Except AppError (Finset String)
  updateWhitelist : Except AppError ResultOfSendMessage
  readUpdated : ℕ → Except AppError (Finset String)

def expectedAfterClean : ℕ := 1
def whitelistMax : ℕ := 15

variable (steps : Steps) (params : ParamsOfUpdateMultifactorWhiteList)

/-- The request lacks the name that a popcoin wallet needs. -/
def IsInvalid : Prop :=
  params.payloadDestination = .popCoinWallet ∧ params.whitelistedName = none

instance : Decidable (IsInvalid params) := by
  unfold IsInvalid
  infer_instance

def invalidError : AppError :=
  .new "whitelisted_name should be set in case of destionation is popcoin wallet"

def updateMultifactorWhitelist : Reporting Message AppError (Option String) :=
  if IsInvalid params then Reporting.ofExcept (.error invalidError)
  else do
    let result ← sendMessage
      (.updateWhitelist params.epkExpireAt params.payloadDestination
        (params.whitelistedName.getD "") params.mirrorIndex)
      "Update mutifactor whitelist" steps.updateWhitelist "update_whitelist"
    return result.messageHash

/-- Empties a whitelist that is full. -/
def cleanWhitelist (whiteList : Finset String) : Reporting Message AppError (List String) :=
  if whiteList.card > whitelistMax then do
    let result ← sendMessage (.cleanWhitelist params.epkExpireAt) "clean_whitelist"
      steps.cleanWhitelist "clean_whitelist"
    waitUntil steps.readCleaned fun whiteList ↦ whiteList.card = expectedAfterClean
    return result.messageHash.toList
  else pure []

/-- The ids of the messages. -/
def updateMultifactorWhitelistAndWait : Reporting Message AppError (List String) := do
  let whiteList ← steps.read
  if params.targetAddress ∈ whiteList then return []
  else
    let cleanIds ← cleanWhitelist steps params whiteList
    let updateId ← updateMultifactorWhitelist steps params
    waitUntil steps.readUpdated fun whiteList ↦ params.targetAddress ∈ whiteList
    return cleanIds ++ updateId.toList

/-! ## What is claimed -/

structure UpdatesSafely : Prop where
  idempotent : ∀ whiteList, steps.read = .ok whiteList → params.targetAddress ∈ whiteList →
    updateMultifactorWhitelistAndWait steps params = ⟨[], .ok []⟩
  /-- The whitelist that was read last has the target. -/
  listed : ∀ ids, (updateMultifactorWhitelistAndWait steps params).result = .ok ids →
    ∃ whiteList, params.targetAddress ∈ whiteList ∧
      (steps.read = .ok whiteList ∨ ∃ n, steps.readUpdated n = .ok whiteList)
  /-- An invalid request sends nothing. -/
  untouched : IsInvalid params → (updateMultifactorWhitelistAndWait steps params).events = []

/-- The whitelist is read, full, and without the target. -/
def CleansFirst : Prop :=
  ∃ whiteList, steps.read = .ok whiteList ∧ params.targetAddress ∉ whiteList ∧
    whitelistMax < whiteList.card

/-! ## The steps of a call -/

variable {steps params}

theorem updateMultifactorWhitelistAndWait_of_listed {whiteList : Finset String}
    (hread : steps.read = .ok whiteList) (hlisted : params.targetAddress ∈ whiteList) :
    updateMultifactorWhitelistAndWait steps params = ⟨[], .ok []⟩ := by
  rw [updateMultifactorWhitelistAndWait, hread]
  change Reporting.ofExcept (.ok whiteList) >>= _ = _
  rw [Reporting.bind_of_ok rfl, if_pos hlisted]
  rfl

theorem updateMultifactorWhitelistAndWait_of_error {e : AppError} (hread : steps.read = .error e) :
    updateMultifactorWhitelistAndWait steps params = ⟨[], .error e⟩ := by
  rw [updateMultifactorWhitelistAndWait, hread]
  exact Reporting.bind_of_error rfl _

/-- The rest of a call, after a read without the target. -/
theorem updateMultifactorWhitelistAndWait_of_new {whiteList : Finset String}
    (hread : steps.read = .ok whiteList) (hnew : params.targetAddress ∉ whiteList) :
    updateMultifactorWhitelistAndWait steps params = (do
      let cleanIds ← cleanWhitelist steps params whiteList
      let updateId ← updateMultifactorWhitelist steps params
      waitUntil steps.readUpdated fun whiteList ↦ params.targetAddress ∈ whiteList
      return cleanIds ++ updateId.toList) := by
  rw [updateMultifactorWhitelistAndWait, hread]
  change Reporting.ofExcept (.ok whiteList) >>= _ = _
  rw [Reporting.bind_of_ok rfl, if_neg hnew]
  rfl

theorem updateMultifactorWhitelist_of_invalid (h : IsInvalid params) :
    updateMultifactorWhitelist steps params = ⟨[], .error invalidError⟩ :=
  if_pos h

theorem cleanWhitelist_of_small {whiteList : Finset String} (h : whiteList.card ≤ whitelistMax) :
    cleanWhitelist steps params whiteList = pure [] :=
  if_neg (Nat.not_lt.mpr h)

theorem mem_events_cleanWhitelist {whiteList : Finset String} (h : whitelistMax < whiteList.card) :
    .cleanWhitelist params.epkExpireAt ∈ (cleanWhitelist steps params whiteList).events := by
  rw [cleanWhitelist, if_pos h]
  apply Reporting.mem_events_bind
  rw [events_sendMessage]
  exact List.mem_singleton_self _

/-! ## A whole call -/

theorem listed_of_result {ids : List String}
    (h : (updateMultifactorWhitelistAndWait steps params).result = .ok ids) :
    ∃ whiteList, params.targetAddress ∈ whiteList ∧
      (steps.read = .ok whiteList ∨ ∃ n, steps.readUpdated n = .ok whiteList) := by
  cases hread : steps.read with
  | error e =>
      rw [updateMultifactorWhitelistAndWait_of_error hread] at h
      cases h
  | ok whiteList =>
      by_cases hlisted : params.targetAddress ∈ whiteList
      · exact ⟨whiteList, hlisted, .inl rfl⟩
      · rw [updateMultifactorWhitelistAndWait_of_new hread hlisted] at h
        simp only [Reporting.bind_result_eq_ok_iff] at h
        obtain ⟨cleanIds, -, updateId, -, _, hwait, -⟩ := h
        obtain ⟨n, whiteList', hread', htarget⟩ := of_waitUntil_eq_ok hwait
        exact ⟨whiteList', of_decide_eq_true htarget, .inr ⟨n, hread'⟩⟩

/-- An invalid request sends nothing, unless it has to make room first. -/
theorem events_of_invalid (hinvalid : IsInvalid params) (hroom : ¬CleansFirst steps params) :
    (updateMultifactorWhitelistAndWait steps params).events = [] := by
  cases hread : steps.read with
  | error e => rw [updateMultifactorWhitelistAndWait_of_error hread]
  | ok whiteList =>
      by_cases hlisted : params.targetAddress ∈ whiteList
      · rw [updateMultifactorWhitelistAndWait_of_listed hread hlisted]
      · have hsmall : whiteList.card ≤ whitelistMax :=
          Nat.not_lt.mp fun hlarge ↦ hroom ⟨whiteList, hread, hlisted, hlarge⟩
        rw [updateMultifactorWhitelistAndWait_of_new hread hlisted, cleanWhitelist_of_small hsmall,
          updateMultifactorWhitelist_of_invalid hinvalid, Reporting.bind_of_ok rfl,
          Reporting.bind_of_error rfl]
        rfl

theorem mem_events_of_cleansFirst (h : CleansFirst steps params) :
    .cleanWhitelist params.epkExpireAt ∈
      (updateMultifactorWhitelistAndWait steps params).events := by
  obtain ⟨whiteList, hread, hnew, hlarge⟩ := h
  rw [updateMultifactorWhitelistAndWait_of_new hread hnew]
  exact Reporting.mem_events_bind (mem_events_cleanWhitelist hlarge) _

/-- A call is safe exactly if an invalid request does not meet a full whitelist. -/
theorem updatesSafely_iff (steps : Steps) (params : ParamsOfUpdateMultifactorWhiteList) :
    UpdatesSafely steps params ↔ ¬(IsInvalid params ∧ CleansFirst steps params) := by
  constructor
  · rintro hsafe ⟨hinvalid, hfirst⟩
    have hmem := mem_events_of_cleansFirst hfirst
    rw [hsafe.untouched hinvalid] at hmem
    cases hmem
  · intro hcond
    constructor
    · exact fun whiteList hread hlisted ↦ updateMultifactorWhitelistAndWait_of_listed hread hlisted
    · exact fun ids hids ↦ listed_of_result hids
    · exact fun hinvalid ↦ events_of_invalid hinvalid fun hfirst ↦ hcond ⟨hinvalid, hfirst⟩

/-! ## A full whitelist -/

def fullWhitelist : Finset String :=
  (Finset.range 16).image fun i ↦ .ofList (List.replicate (i + 1) 'a')

def exampleSend : ResultOfSendMessage := ⟨some "hash", none, none⟩

/-- A chain on which every message succeeds. -/
def exampleSteps : Steps where
  read := .ok fullWhitelist
  cleanWhitelist := .ok exampleSend
  readCleaned _ := .ok {"owner"}
  updateWhitelist := .ok exampleSend
  readUpdated _ := .ok {"owner", "wallet"}

def namelessRequest : ParamsOfUpdateMultifactorWhiteList where
  epkExpireAt := 0
  payloadDestination := .popCoinWallet
  targetAddress := "wallet"
  mirrorIndex := 0
  whitelistedName := none

theorem not_updatesSafely : ¬UpdatesSafely exampleSteps namelessRequest := by
  intro hsafe
  have hsent : (updateMultifactorWhitelistAndWait exampleSteps namelessRequest).events ≠ [] := by
    decide +kernel
  exact hsent (hsafe.untouched ⟨rfl, rfl⟩)

end Whitelist

end BeeEngine
