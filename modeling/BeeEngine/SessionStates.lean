import BeeEngine.SessionReader

/-!
# The state that a query gives back

`query_session_messages` threads the state of the caller through the events of
a page.  It gives back the state after the last successful re-key, unless the
profile is not deployed.
-/

namespace BeeEngine

open ConnectMessage WalletMessage Dh MessageChain SessionMessages SessionReader

namespace SessionStates

variable {F : Type}

/-! ## What is claimed -/

/-- The state after the events: each successful re-key moves it. -/
def advanceBy (p : Primitives F) (sessionId : String) (state : ConnectSessionState)
    (records : List Record) : ConnectSessionState :=
  records.foldl
    (fun state record ↦ ((acceptWithRekey p sessionId state record).map Prod.snd).getD state) state

/-- The snapshots of the messages, in order. -/
def statesAfter (messages : List ConnectSessionMessage) : List ConnectSessionState :=
  messages.filterMap (·.sessionStateAfter)

/-- The result has a state: that of the caller moved by the successful re-keys,
which is the last snapshot if there is one. -/
structure KeepsState (p : Primitives F) (params : Params) (state : ConnectSessionState)
    (records : List Record) (result : ResultOfQuerySessionMessages) : Prop where
  advanced : result.updatedSessionState = some (advanceBy p params.sessionId state records)
  last : result.updatedSessionState = some ((statesAfter result.messages).getLast?.getD state)

/-! ## The loop -/

variable {p : Primitives F} {sessionId : String} {state current : ConnectSessionState}

theorem advanceBy_cons (record : Record) (records : List Record) :
    advanceBy p sessionId state (record :: records) =
      advanceBy p sessionId
        (((acceptWithRekey p sessionId state record).map Prod.snd).getD state) records :=
  List.foldl_cons

theorem statesAfter_append (messages messages' : List ConnectSessionMessage) :
    statesAfter (messages ++ messages') = statesAfter messages ++ statesAfter messages' :=
  List.filterMap_append

/-- The variables of the loop agree on the current state. -/
structure Holds (state current : ConnectSessionState) (l : Loop) : Prop where
  currentState : l.currentState = some current
  last : (statesAfter l.messages).getLast?.getD state = current
  unmoved : l.hadSuccessfulRekey = false → current = state

theorem Holds.start : Holds state state ⟨some state, false, []⟩ where
  currentState := rfl
  last := rfl
  unmoved _ := rfl

/-- An event that is accepted moves the state, and no other one does. -/
theorem Holds.processRecord {l : Loop} (h : Holds state current l) (record : Record) :
    Holds state (((acceptWithRekey p sessionId current record).map Prod.snd).getD current)
      (processRecord p sessionId l record) := by
  rw [SessionMessages.processRecord, h.currentState, Option.bind_some]
  cases haccept : acceptWithRekey p sessionId current record with
  | none =>
      have hnone : statesAfter (parseWithCurrent p sessionId (some current) record).toList = [] := by
        cases hparse : parseWithCurrent p sessionId (some current) record with
        | none => rfl
        | some m => simp [statesAfter, sessionStateAfter_of_parseWithCurrent hparse]
      refine ⟨rfl, ?_, h.unmoved⟩
      simp only [statesAfter_append, hnone, List.append_nil]
      exact h.last
  | some r =>
      obtain ⟨-, -, -, -, -, -, -, -, -, hafter, -⟩ := acceptWithRekey_eq_some haccept
      refine ⟨rfl, ?_, ?_⟩
      · simp [statesAfter, hafter]
      · intro hfalse
        cases hfalse

theorem Holds.foldl {l : Loop} (h : Holds state current l) (records : List Record) :
    Holds state (advanceBy p sessionId current records)
      (records.foldl (SessionMessages.processRecord p sessionId) l) := by
  induction records generalizing current l with
  | nil => exact h
  | cons record records ih =>
      rw [List.foldl_cons, advanceBy_cons]
      exact ih (h.processRecord record)

/-! ## The result -/

/-- What a query of a profile that is not deployed gives. -/
theorem updatedSessionState_of_not_deployed {params : Params} {answer : Answer}
    {result : ResultOfQuerySessionMessages}
    (h : querySessionMessages p params answer = .ok result) (hdeployed : answer.isDeployed = false) :
    result.updatedSessionState = none := by
  obtain ⟨⟨⟩, -, h⟩ := Outcome.bind_eq_ok_iff.mp h
  obtain ⟨address, -, h⟩ := Outcome.bind_eq_ok_iff.mp h
  rw [if_pos hdeployed] at h
  rw [← Except.ok.inj h]

/-- A query gives the state back exactly if the profile is deployed. -/
theorem keepsState_iff {params : Params} (hstate : params.sessionState = some state)
    {answer : Answer} {result : ResultOfQuerySessionMessages}
    (h : querySessionMessages p params answer = .ok result) :
    KeepsState p params state (Poll.records ⟨params.description, answer⟩) result ↔
      answer.isDeployed = true := by
  constructor
  · intro hkeeps
    by_contra hdeployed
    have hnone := updatedSessionState_of_not_deployed h (Bool.eq_false_iff.mpr hdeployed)
    exact absurd (hnone.symm.trans hkeeps.advanced) (Option.some_ne_none _).symm
  · intro hdeployed
    obtain ⟨records, cursor, hpage, l, hl, hmessages, hupdated⟩ :=
      querySessionMessages_eq_ok h hdeployed
    have hrecords : Poll.records ⟨params.description, answer⟩ = records := by
      rw [Poll.records, hpage]
    have hloop : Holds state (advanceBy p params.sessionId state records) l := by
      rw [hl, hstate]
      exact Holds.start.foldl records
    have hsome : result.updatedSessionState =
        some (advanceBy p params.sessionId state records) := by
      rw [hupdated]
      split
      · exact hloop.currentState
      · rename_i hrekey
        rw [hstate, hloop.unmoved (Bool.eq_false_iff.mpr hrekey)]
    rw [hrecords]
    refine ⟨hsome, ?_⟩
    rw [hsome, hmessages, hloop.last]

/-! ## A query -/

/-- The query of the wallet for its session. -/
def exampleQuery : Params := ⟨"session-1", "profile", some exampleWallet⟩

/-- The page with the first message of the session. -/
def exampleAnswer : Answer :=
  (examplePoll (exampleChallenge "session-1" firstRoot).text 1700000002 true).answer

/-- The first message of the session is accepted, and its state is kept. -/
theorem keepsState_example :
    ∃ result, querySessionMessages examplePrimitives exampleQuery exampleAnswer = .ok result ∧
      KeepsState examplePrimitives exampleQuery exampleWallet
        (Poll.records ⟨exampleQuery.description, exampleAnswer⟩) result := by
  obtain ⟨result, hresult⟩ : ∃ result,
      querySessionMessages examplePrimitives exampleQuery exampleAnswer = .ok result := ⟨_, rfl⟩
  exact ⟨result, hresult, (keepsState_iff rfl hresult).mpr rfl⟩

/-- A profile that is not deployed takes the state away. -/
theorem not_keepsState :
    ∃ result, querySessionMessages examplePrimitives exampleQuery
        ⟨.ok "0:profile", false, .error "not deployed"⟩ = .ok result ∧
      ∀ records, ¬KeepsState examplePrimitives exampleQuery exampleWallet records result := by
  refine ⟨_, rfl, ?_⟩
  intro records h
  cases h.advanced

end SessionStates

end BeeEngine
