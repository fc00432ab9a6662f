import BeeEngine.FactorProgress
import BeeEngine.Lib.Outcome

/-!
# How the events of a new factor end

Every call ends in one of six ways, of which two send events that do not tell
the end: a read whose error is taken for a timeout, and a failure after the
confirmation.
-/

namespace BeeEngine

namespace FactorProgress

/-! ## Steps are quiet -/

/-- Neither a terminal event nor a heartbeat. -/
def IsQuiet (event : ProgressEvent) : Prop := ¬IsTerminal event ∧ event ≠ confirming

/-- An error whose event is left out. -/
def IsSuppressed (e : AppError) : Prop := e.kind = some addFactorTimeout

section

variable {α : Type}

theorem avoids_new (message : String) :
    Outcome.Avoids IsSuppressed (.error (.new message) : Except AppError α) :=
  Outcome.avoids_error_iff.mpr nofun

theorem avoids_outcome (x : Except StepError α) : Outcome.Avoids IsSuppressed (outcome x) := by
  cases x with
  | ok a => exact Outcome.avoids_ok a
  | error e => exact Outcome.avoids_error_iff.mpr e.kind_ne

theorem avoids_inContext (context : String) {x : Except AppError α}
    (h : Outcome.Avoids IsSuppressed x) : Outcome.Avoids IsSuppressed (inContext context x) := by
  cases x with
  | ok a => exact Outcome.avoids_ok a
  | error e => exact Outcome.avoids_error_iff.mpr (h e rfl)

theorem meets_ofExcept {x : Except AppError α} (h : Outcome.Avoids IsSuppressed x) :
    (Reporting.ofExcept x : Progress α).Meets IsQuiet (¬IsSuppressed ·) :=
  .ofExcept h

theorem meets_pure (a : α) : (pure a : Progress α).Meets IsQuiet (¬IsSuppressed ·) := .pure a

end

theorem avoids_ensureTxSuccess (result : ResultOfSendMessage) (context : String) :
    Outcome.Avoids IsSuppressed (ensureTxSuccess result context) := by
  rw [ensureTxSuccess]
  split
  · apply avoids_new
  · apply Outcome.avoids_ok

theorem avoids_getMultifactorDecodedData (address : String) (account : Account) :
    Outcome.Avoids IsSuppressed (getMultifactorDecodedData address account) := by
  rw [getMultifactorDecodedData]
  split
  · apply avoids_new
  · split
    · apply avoids_new
    · apply avoids_inContext
      apply avoids_outcome

theorem avoids_toLvKid (kidHex : String) : Outcome.Avoids IsSuppressed (toLvKid kidHex) := by
  rw [toLvKid]
  split
  · rw [Outcome.avoids_error_iff, IsSuppressed, AppError.kind_withContext]
    exact fun hkind ↦ absurd (Option.some.inj hkind) (by decide)
  · apply Outcome.avoids_ok

/-- A poll fails with the error of an attempt, or with its own. -/
theorem avoids_pollUntil {T : Type} {fetchData : ℕ → Except AppError T} {predicate : T → Bool}
    {maxAttempts : Option UInt32} (h : ∀ i, Outcome.Avoids IsSuppressed (fetchData i)) :
    Outcome.Avoids IsSuppressed (pollUntil AppError.new fetchData predicate maxAttempts).1 := by
  have hpolled := @polled_pollLoop T AppError fetchData predicate
    (.new (maxAttemptsText (maxAttempts.getD 100))) (maxAttempts.getD 100).toNat 0
  rw [pollUntil]
  generalize pollLoop fetchData predicate (AppError.new (maxAttemptsText (maxAttempts.getD 100)))
    (maxAttempts.getD 100).toNat 0 = polled at hpolled ⊢
  cases hpolled with
  | found hfirst hn hbefore hfound hdata => apply Outcome.avoids_ok
  | failed hfirst hn hbefore hfailed =>
      rw [Outcome.avoids_error_iff]
      exact h _ _ hfailed
  | exhausted hall => apply avoids_new

theorem avoids_addJwkModulus (steps : Steps) (address : String) (data : MultifactorData)
    (params : ParamsOfAddZKPFactor) (kidBocHash : String) :
    Outcome.Avoids IsSuppressed (addJwkModulus steps address data params kidBocHash) := by
  rw [addJwkModulus, Outcome.avoids_bind_iff]
  refine ⟨avoids_inContext _ (avoids_outcome _), fun tlsRes _ ↦ ?_⟩
  rw [Outcome.avoids_bind_iff]
  refine ⟨avoids_toLvKid _, fun lvKid _ ↦ ?_⟩
  rw [Outcome.avoids_bind_iff]
  refine ⟨avoids_outcome _, fun jwkSigner _ ↦ ?_⟩
  rw [Outcome.avoids_bind_iff]
  refine ⟨avoids_inContext _ (avoids_outcome _), fun res _ ↦ ?_⟩
  rw [Outcome.avoids_bind_iff]
  refine ⟨avoids_ensureTxSuccess _ _, fun res _ ↦ ?_⟩
  rw [Outcome.avoids_bind_iff]
  refine ⟨?_, fun _ _ ↦ Outcome.avoids_ok _⟩
  apply avoids_pollUntil
  intro i
  exact avoids_inContext _ (avoids_getMultifactorDecodedData _ _)

theorem isQuiet_of_stage {stage : String} {detail : Option String}
    (h : stage ∉ ["confirmed", "timed_out", "failed"]) (hne : stage ≠ "confirming") :
    IsQuiet ⟨"add_factor", stage, detail, none⟩ :=
  ⟨fun hterminal ↦ h hterminal.2, fun heq ↦ hne (congrArg ProgressEvent.stage heq)⟩

theorem meets_emit {stage : String} {detail : Option String}
    (h : stage ∉ ["confirmed", "timed_out", "failed"]) (hne : stage ≠ "confirming") :
    (Reporting.emit ⟨"add_factor", stage, detail, none⟩ : Progress Unit).Meets IsQuiet
      (¬IsSuppressed ·) :=
  .emit (isQuiet_of_stage h hne)

theorem meets_submitZkpFactor (steps : Steps) (params : ParamsOfAddZKPFactor) :
    (submitZkpFactor steps params).Meets IsQuiet (¬IsSuppressed ·) := by
  apply Reporting.Meets.bind (meets_ofExcept (avoids_inContext _ (avoids_outcome _)))
  intro result _
  apply Reporting.Meets.bind (meets_ofExcept (avoids_ensureTxSuccess _ _))
  intro result _
  apply Reporting.Meets.bind (meets_emit (by decide) (by decide))
  intro _ _
  exact meets_pure result

theorem meets_prepare (steps : Steps) (params : ParamsOfAddZKPFactor) :
    (prepare steps params).Meets IsQuiet (¬IsSuppressed ·) := by
  apply Reporting.Meets.bind (meets_ofExcept (avoids_inContext _ (avoids_outcome _)))
  intro indexer _
  apply Reporting.Meets.bind (meets_ofExcept (avoids_inContext _ (avoids_outcome _)))
  intro address _
  split
  · exact meets_ofExcept (avoids_new _)
  · split
    · exact meets_ofExcept (avoids_new _)
    · apply Reporting.Meets.bind (meets_ofExcept (avoids_inContext _ (avoids_outcome _)))
      intro accData _
      split
      · exact meets_ofExcept (avoids_new _)
      · apply Reporting.Meets.bind (meets_ofExcept (avoids_inContext _ (avoids_outcome _)))
        intro hashedKid _
        dsimp only
        split
        · apply Reporting.Meets.bind (meets_emit (by decide) (by decide))
          intro _ _
          apply Reporting.Meets.bind
            (meets_ofExcept (avoids_inContext _ (avoids_addJwkModulus _ _ _ _ _)))
          intro messageId _
          apply Reporting.Meets.bind (meets_emit (by decide) (by decide))
          intro _ _
          apply meets_pure
        · apply meets_pure

/-! ## How a call ends -/

def failedEvent (e : AppError) : ProgressEvent :=
  (ProgressEvent.new "add_factor" "failed").withDetail e.message

/-- The attempts made, the events after them, and the result. -/
inductive Ending (steps : Steps) (params : ParamsOfAddZKPFactor) :
    ℕ → List ProgressEvent → Except AppError ResultOfAddZKPFactor → Prop where
  | unsent {e : AppError} (hreached : ∀ prepared, ¬Reached steps params prepared)
      (hkind : ¬IsSuppressed e) : Ending steps params 0 [failedEvent e] (.error e)
  | confirmed {prepared : Prepared} {n : ℕ} {data : MultifactorData} {hash : String}
      {r : ResultOfAddZKPFactor} (hreached : Reached steps params prepared)
      (hn : n < addFactorConfirmMaxAttempts.toNat)
      (hbefore : ∀ i < n, StillWaiting steps prepared i)
      (hfetch : fetchFactor steps prepared.address n = .ok data)
      (hdata : hasTargetLen prepared.accData data = true)
      (hhash : steps.hashPassword params.password = .ok hash) :
      Ending steps params (n + 1) [.new "add_factor" "confirmed"] (.ok r)
  | unhashed {prepared : Prepared} {n : ℕ} {data : MultifactorData} {e : AppError}
      (hreached : Reached steps params prepared) (hn : n < addFactorConfirmMaxAttempts.toNat)
      (hbefore : ∀ i < n, StillWaiting steps prepared i)
      (hfetch : fetchFactor steps prepared.address n = .ok data)
      (hdata : hasTargetLen prepared.accData data = true)
      (hhash : ∀ hash, steps.hashPassword params.password ≠ .ok hash) :
      Ending steps params (n + 1) [.new "add_factor" "confirmed", failedEvent e] (.error e)
  | mistaken {prepared : Prepared} {n : ℕ} {e e' : AppError}
      (hreached : Reached steps params prepared) (hn : n < addFactorConfirmMaxAttempts.toNat)
      (hbefore : ∀ i < n, StillWaiting steps prepared i)
      (hfetch : fetchFactor steps prepared.address n = .error e)
      (hpending : isConfirmationPendingError e = true) (hkind : IsSuppressed e') :
      Ending steps params (n + 1) [.new "add_factor" "timed_out"] (.error e')
  | failed {prepared : Prepared} {n : ℕ} {e e' : AppError}
      (hreached : Reached steps params prepared) (hn : n < addFactorConfirmMaxAttempts.toNat)
      (hbefore : ∀ i < n, StillWaiting steps prepared i)
      (hfetch : fetchFactor steps prepared.address n = .error e)
      (hpending : isConfirmationPendingError e = false) (hkind : ¬IsSuppressed e') :
      Ending steps params (n + 1) [failedEvent e'] (.error e')
  | timedOut {prepared : Prepared} {e : AppError} (hreached : Reached steps params prepared)
      (hall : ∀ i < addFactorConfirmMaxAttempts.toNat, StillWaiting steps prepared i)
      (hkind : IsSuppressed e) :
      Ending steps params addFactorConfirmMaxAttempts.toNat [.new "add_factor" "timed_out"]
        (.error e)

theorem reportFailure_ok (r : ResultOfAddZKPFactor) :
    Progress.reportFailure "add_factor" (.ok r) (some addFactorTimeout) = [] := rfl

theorem reportFailure_of_suppressed {e : AppError} (h : IsSuppressed e) :
    Progress.reportFailure "add_factor" (.error e : Except AppError ResultOfAddZKPFactor)
      (some addFactorTimeout) = [] :=
  if_pos ⟨rfl, h⟩

theorem reportFailure_of_reported {e : AppError} (h : ¬IsSuppressed e) :
    Progress.reportFailure "add_factor" (.error e : Except AppError ResultOfAddZKPFactor)
      (some addFactorTimeout) = [failedEvent e] :=
  if_neg fun hkind ↦ h hkind.2

theorem not_reached_of_prepare {steps : Steps} {params : ParamsOfAddZKPFactor} {e : AppError}
    (h : (prepare steps params).result = .error e) (prepared : Prepared) :
    ¬Reached steps params prepared := by
  rintro ⟨hprepared, -⟩
  rw [h] at hprepared
  cases hprepared

theorem not_reached_of_submit {steps : Steps} {params : ParamsOfAddZKPFactor} {e : AppError}
    (h : (submitZkpFactor steps params).result = .error e) (prepared : Prepared) :
    ¬Reached steps params prepared := by
  rintro ⟨-, result, hsubmitted⟩
  rw [h] at hsubmitted
  cases hsubmitted

section Reached

variable {steps : Steps} {params : ParamsOfAddZKPFactor} {prepared : Prepared}

/-- The confirmation of a call. -/
def confirm (steps : Steps) (prepared : Prepared) : Progress MultifactorData :=
  confirmFactorIncrement (fetchFactor steps prepared.address) (hasTargetLen prepared.accData)
    addFactorConfirmMaxAttempts

variable (prepared) in
theorem cmdAddZkpFactor_of_submitted {result : ResultOfSendMessage}
    (h : (submitZkpFactor steps params).result = .ok result) :
    cmdAddZkpFactor steps prepared.address prepared.accData params =
      ⟨(submitZkpFactor steps params).events ++ (confirm steps prepared).events,
        (confirm steps prepared).result.map fun _ ↦ result.messageHash⟩ := by
  rw [cmdAddZkpFactor, Reporting.bind_of_ok h, ← confirm]
  cases hconfirm : (confirm steps prepared).result with
  | ok data =>
      rw [Reporting.bind_of_ok hconfirm, Reporting.pure_events, List.append_nil]
      rfl
  | error e =>
      rw [Reporting.bind_of_error hconfirm]
      rfl

theorem runAddZkpFactor_of_error {e : AppError}
    (hprepared : (prepare steps params).result = .ok prepared)
    (hcmd : (cmdAddZkpFactor steps prepared.address prepared.accData params).result = .error e) :
    runAddZkpFactor steps params =
      ⟨(prepare steps params).events ++
          (cmdAddZkpFactor steps prepared.address prepared.accData params).events,
        .error (e.withContext "Failed to add jwk modulus")⟩ := by
  have hcontext : (reportInContext "Failed to add jwk modulus"
      (cmdAddZkpFactor steps prepared.address prepared.accData params)).result =
        .error (e.withContext "Failed to add jwk modulus") := by
    rw [reportInContext, hcmd]
    rfl
  rw [runAddZkpFactor, Reporting.bind_of_ok hprepared, Reporting.bind_of_error hcontext]
  rfl

theorem runAddZkpFactor_of_ok (messageId : Option String)
    (hprepared : (prepare steps params).result = .ok prepared)
    (hcmd : (cmdAddZkpFactor steps prepared.address prepared.accData params).result =
      .ok messageId) :
    (runAddZkpFactor steps params).events = (prepare steps params).events ++
        (cmdAddZkpFactor steps prepared.address prepared.accData params).events ∧
      ((∃ hash r, steps.hashPassword params.password = .ok hash ∧
          (runAddZkpFactor steps params).result = .ok r) ∨
        ∃ e, (∀ hash, steps.hashPassword params.password ≠ .ok hash) ∧ ¬IsSuppressed e ∧
          (runAddZkpFactor steps params).result = .error e) := by
  have hcontext : (reportInContext "Failed to add jwk modulus"
      (cmdAddZkpFactor steps prepared.address prepared.accData params)).result = .ok messageId := by
    rw [reportInContext, hcmd]
    rfl
  rw [runAddZkpFactor, Reporting.bind_of_ok hprepared, Reporting.bind_of_ok hcontext]
  cases hhash : steps.hashPassword params.password with
  | ok hash =>
      refine ⟨?_, .inl ⟨hash, _, rfl, rfl⟩⟩
      exact congrArg ((prepare steps params).events ++ ·) (List.append_nil _)
  | error e =>
      refine ⟨?_, .inr ⟨e.error, nofun, e.kind_ne, rfl⟩⟩
      exact congrArg ((prepare steps params).events ++ ·) (List.append_nil _)

theorem polled_polledFactor (steps : Steps) (prepared : Prepared) :
    Polled (fetchFactor steps prepared.address) (hasTargetLen prepared.accData)
      (AppError.new (maxAttemptsText addFactorConfirmMaxAttempts)) 0
      addFactorConfirmMaxAttempts.toNat (polledFactor steps prepared) := by
  have hpolled := @polled_pollLoop _ _ (fetchFactor steps prepared.address)
    (hasTargetLen prepared.accData) (.new (maxAttemptsText addFactorConfirmMaxAttempts))
    addFactorConfirmMaxAttempts.toNat 0
  rw [Nat.zero_add] at hpolled
  exact hpolled

theorem confirm_of_ok {data : MultifactorData} (h : (polledFactor steps prepared).1 = .ok data) :
    confirm steps prepared = ⟨List.replicate (polledFactor steps prepared).2 confirming ++
      [.new "add_factor" "confirmed"], .ok data⟩ := by
  rw [polledFactor] at h ⊢
  rw [confirm, confirmFactorIncrement, ← confirming, Progress.pollUntil_withHeartbeat]
  simp only [h]

theorem confirm_of_pending {e : AppError} (h : (polledFactor steps prepared).1 = .error e)
    (hpending : isConfirmationPendingError e = true) :
    confirm steps prepared = ⟨List.replicate (polledFactor steps prepared).2 confirming ++
      [.new "add_factor" "timed_out"], .error timeoutError⟩ := by
  rw [polledFactor] at h ⊢
  rw [confirm, confirmFactorIncrement, ← confirming, Progress.pollUntil_withHeartbeat]
  simp only [h, hpending, if_true]

theorem confirm_of_error {e : AppError} (h : (polledFactor steps prepared).1 = .error e)
    (hpending : isConfirmationPendingError e = false) :
    confirm steps prepared =
      ⟨List.replicate (polledFactor steps prepared).2 confirming, .error e⟩ := by
  rw [polledFactor] at h ⊢
  rw [confirm, confirmFactorIncrement, ← confirming, Progress.pollUntil_withHeartbeat]
  simp only [h, hpending, Bool.false_eq_true, if_false]

end Reached

/-- The events of a call: quiet ones, the heartbeats, and what tells of its end. -/
structure Ends (steps : Steps) (params : ParamsOfAddZKPFactor) (k : ℕ) (tail : List ProgressEvent)
    (result : Except AppError ResultOfAddZKPFactor) : Prop where
  ending : Ending steps params k tail result
  attempts_eq : attempts steps params = k
  result_eq : (addZkpFactor steps params).result = result
  events_eq : ∃ quiet, (∀ event ∈ quiet, IsQuiet event) ∧
    (addZkpFactor steps params).events = quiet ++ (List.replicate k confirming ++ tail)

theorem isQuiet_resolving : IsQuiet (.new "add_factor" "resolving") :=
  isQuiet_of_stage (by decide) (by decide)

/-- A call that fails before its message is accepted. -/
theorem ends_of_unsent {steps : Steps} {params : ParamsOfAddZKPFactor} {e : AppError}
    {quiet : List ProgressEvent} (hrun : runAddZkpFactor steps params = ⟨quiet, .error e⟩)
    (hquiet : ∀ event ∈ quiet, IsQuiet event) (hkind : ¬IsSuppressed e)
    (hreached : ∀ prepared, ¬Reached steps params prepared)
    (hattempts : attempts steps params = 0) :
    Ends steps params 0 [failedEvent e] (.error e) := by
  refine ⟨.unsent hreached hkind, hattempts, ?_, .new "add_factor" "resolving" :: quiet, ?_, ?_⟩
  · rw [addZkpFactor, hrun]
  · rintro event hevent
    rcases List.mem_cons.mp hevent with rfl | hevent
    · exact isQuiet_resolving
    · exact hquiet event hevent
  · rw [addZkpFactor, hrun, reportFailure_of_reported hkind]
    rfl

/-- A call whose message is accepted. -/
theorem ends_of_reached {steps : Steps} {params : ParamsOfAddZKPFactor} {prepared : Prepared}
    {k : ℕ} {tail : List ProgressEvent} {result : Except AppError ResultOfAddZKPFactor}
    (hreached : Reached steps params prepared)
    (hattempts : (polledFactor steps prepared).2 = k)
    (hevents : (runAddZkpFactor steps params).events = (prepare steps params).events ++
      ((submitZkpFactor steps params).events ++ (confirm steps prepared).events))
    (hresult : (runAddZkpFactor steps params).result = result)
    (htail : (confirm steps prepared).events ++
      Progress.reportFailure "add_factor" result (some addFactorTimeout) =
        List.replicate k confirming ++ tail)
    (hending : Ending steps params k tail result) : Ends steps params k tail result := by
  obtain ⟨hprepared, sent, hsent⟩ := hreached
  refine ⟨hending, ?_, hresult, .new "add_factor" "resolving" ::
    ((prepare steps params).events ++ (submitZkpFactor steps params).events), ?_, ?_⟩
  · rw [attempts, hprepared, hsent]
    exact hattempts
  · rintro event hevent
    rcases List.mem_cons.mp hevent with rfl | hevent
    · exact isQuiet_resolving
    · rcases List.mem_append.mp hevent with hevent | hevent
      · exact (meets_prepare steps params).events event hevent
      · exact (meets_submitZkpFactor steps params).events event hevent
  · rw [addZkpFactor]
    simp only [hevents, hresult, List.append_assoc, List.cons_append, htail]

theorem ends_of_confirmed {steps : Steps} {params : ParamsOfAddZKPFactor} {prepared : Prepared}
    {n : ℕ} {data : MultifactorData} (hreached : Reached steps params prepared)
    (hpoll : polledFactor steps prepared = (.ok data, n + 1))
    (hn : n < addFactorConfirmMaxAttempts.toNat) (hbefore : ∀ i < n, StillWaiting steps prepared i)
    (hfetch : fetchFactor steps prepared.address n = .ok data)
    (hdata : hasTargetLen prepared.accData data = true) :
    ∃ tail result, Ends steps params (n + 1) tail result := by
  obtain ⟨hprepared, sent, hsent⟩ := hreached
  have hconfirm := confirm_of_ok (congrArg Prod.fst hpoll)
  rw [hpoll] at hconfirm
  have hcmd := cmdAddZkpFactor_of_submitted prepared hsent
  obtain ⟨hevents, hhash⟩ := runAddZkpFactor_of_ok sent.messageHash hprepared
    (by rw [hcmd, hconfirm]; rfl)
  rw [hcmd] at hevents
  rcases hhash with ⟨hash, r, hhash, hresult⟩ | ⟨e, hhash, hkind, hresult⟩
  · refine ⟨_, _, ends_of_reached ⟨hprepared, sent, hsent⟩ (congrArg Prod.snd hpoll) hevents
      hresult ?_ (.confirmed ⟨hprepared, sent, hsent⟩ hn hbefore hfetch hdata hhash)⟩
    rw [hconfirm, reportFailure_ok, List.append_nil]
  · refine ⟨_, _, ends_of_reached ⟨hprepared, sent, hsent⟩ (congrArg Prod.snd hpoll) hevents
      hresult ?_ (.unhashed ⟨hprepared, sent, hsent⟩ hn hbefore hfetch hdata hhash)⟩
    rw [hconfirm, reportFailure_of_reported hkind, List.append_assoc]
    rfl

/-- The events of a confirmation that fails. -/
theorem run_of_unconfirmed {steps : Steps} {params : ParamsOfAddZKPFactor} {prepared : Prepared}
    {events : List ProgressEvent} {e : AppError} (hreached : Reached steps params prepared)
    (hconfirm : confirm steps prepared = ⟨events, .error e⟩) :
    (runAddZkpFactor steps params).events = (prepare steps params).events ++
        ((submitZkpFactor steps params).events ++ (confirm steps prepared).events) ∧
      (runAddZkpFactor steps params).result =
        .error (e.withContext "Failed to add jwk modulus") := by
  obtain ⟨hprepared, sent, hsent⟩ := hreached
  have hcmd := cmdAddZkpFactor_of_submitted prepared hsent
  have herror : (cmdAddZkpFactor steps prepared.address prepared.accData params).result =
      .error e := by
    rw [hcmd, hconfirm]
    rfl
  rw [runAddZkpFactor_of_error hprepared herror, hcmd]
  exact ⟨rfl, rfl⟩

theorem ends_of_timedOut {steps : Steps} {params : ParamsOfAddZKPFactor} {prepared : Prepared}
    {k : ℕ} {e : AppError} (hreached : Reached steps params prepared)
    (hpoll : polledFactor steps prepared = (.error e, k))
    (hpending : isConfirmationPendingError e = true)
    (hending : Ending steps params k [.new "add_factor" "timed_out"]
      (.error (timeoutError.withContext "Failed to add jwk modulus"))) :
    ∃ tail result, Ends steps params k tail result := by
  have hconfirm := confirm_of_pending (congrArg Prod.fst hpoll) hpending
  obtain ⟨hevents, hresult⟩ := run_of_unconfirmed hreached hconfirm
  refine ⟨_, _, ends_of_reached hreached (congrArg Prod.snd hpoll) hevents hresult ?_ hending⟩
  have hkind : IsSuppressed (timeoutError.withContext "Failed to add jwk modulus") := rfl
  rw [hconfirm, hpoll, reportFailure_of_suppressed hkind, List.append_nil]

theorem exists_ends (steps : Steps) (params : ParamsOfAddZKPFactor) :
    ∃ k tail result, Ends steps params k tail result := by
  have hprepare := meets_prepare steps params
  have hsubmit := meets_submitZkpFactor steps params
  cases hprepared : (prepare steps params).result with
  | error e =>
      refine ⟨0, _, _, ends_of_unsent (Reporting.bind_of_error hprepared _) hprepare.events
        (hprepare.error e hprepared) (not_reached_of_prepare hprepared) ?_⟩
      rw [attempts, hprepared]
  | ok prepared =>
      cases hsent : (submitZkpFactor steps params).result with
      | error e =>
          have hcmd : cmdAddZkpFactor steps prepared.address prepared.accData params =
              ⟨(submitZkpFactor steps params).events, .error e⟩ :=
            Reporting.bind_of_error hsent _
          have hrun := runAddZkpFactor_of_error hprepared (congrArg Reporting.result hcmd)
          rw [hcmd] at hrun
          refine ⟨0, _, _, ends_of_unsent hrun ?_ (hsubmit.error e hsent)
            (not_reached_of_submit hsent) ?_⟩
          · rintro event hevent
            rcases List.mem_append.mp hevent with hevent | hevent
            · exact hprepare.events event hevent
            · exact hsubmit.events event hevent
          · rw [attempts, hprepared, hsent]
      | ok sent =>
          have hreached : Reached steps params prepared := ⟨hprepared, sent, hsent⟩
          have hpolled := polled_polledFactor steps prepared
          generalize hpoll : polledFactor steps prepared = polled at hpolled
          cases hpolled with
          | found hfirst hn hbefore hfetch hdata =>
              have hbefore := fun i hi ↦ hbefore i (Nat.zero_le i) hi
              exact ⟨_, ends_of_confirmed hreached hpoll hn hbefore hfetch hdata⟩
          | @failed n e hfirst hn hbefore hfetch =>
              have hbefore := fun i hi ↦ hbefore i (Nat.zero_le i) hi
              cases hpending : isConfirmationPendingError e with
              | true =>
                  exact ⟨_, ends_of_timedOut hreached hpoll hpending
                    (.mistaken hreached hn hbefore hfetch hpending rfl)⟩
              | false =>
                  have hkind : ¬IsSuppressed (e.withContext "Failed to add jwk modulus") :=
                    avoids_inContext _ (avoids_getMultifactorDecodedData _ _) e hfetch
                  have hconfirm := confirm_of_error (congrArg Prod.fst hpoll) hpending
                  obtain ⟨hevents, hresult⟩ := run_of_unconfirmed hreached hconfirm
                  refine ⟨_, _, _, ends_of_reached hreached (congrArg Prod.snd hpoll) hevents
                    hresult ?_ (.failed hreached hn hbefore hfetch hpending hkind)⟩
                  rw [hconfirm, hpoll, reportFailure_of_reported hkind]
          | exhausted hall =>
              have hall := fun i hi ↦ hall i (Nat.zero_le i) hi
              exact ⟨_, ends_of_timedOut hreached hpoll
                (isConfirmationPendingError_maxAttempts _) (.timedOut hreached hall rfl)⟩

/-! ## When the events are truthful -/

section

variable {steps : Steps} {params : ParamsOfAddZKPFactor} {prepared : Prepared}

theorem Reached.unique {prepared' : Prepared} (h : Reached steps params prepared)
    (h' : Reached steps params prepared') : prepared' = prepared :=
  Except.ok.inj (h'.1.symm.trans h.1)

/-- An attempt that still waits neither fails nor finds the factor. -/
theorem StillWaiting.ne_error {i : ℕ} (h : StillWaiting steps prepared i) (e : AppError) :
    fetchFactor steps prepared.address i ≠ .error e := by
  obtain ⟨data, hfetch, -⟩ := h
  rw [hfetch]
  exact nofun

theorem StillWaiting.not_target {i : ℕ} (h : StillWaiting steps prepared i) {data : MultifactorData}
    (hfetch : fetchFactor steps prepared.address i = .ok data) :
    hasTargetLen prepared.accData data = false := by
  obtain ⟨data', hfetch', hdata⟩ := h
  rw [hfetch] at hfetch'
  obtain rfl := Except.ok.inj hfetch'
  exact hdata

theorem UsedUp.stillWaiting (h : UsedUp steps params) (hreached : Reached steps params prepared)
    {n : ℕ} (hn : n < addFactorConfirmMaxAttempts.toNat) : StillWaiting steps prepared n := by
  obtain ⟨prepared', hreached', hall⟩ := h
  rw [← hreached'.unique hreached] at hall
  exact hall n hn

/-- Only the attempt that ends the poll has to be looked at. -/
theorem undisturbed_of_last {n : ℕ} (hreached : Reached steps params prepared)
    (hbefore : ∀ i < n, StillWaiting steps prepared i) (hlast : ¬StillWaiting steps prepared n)
    (herror : ∀ e, fetchFactor steps prepared.address n = .error e →
      isConfirmationPendingError e = false)
    (hfound : ∀ data, fetchFactor steps prepared.address n = .ok data →
      hasTargetLen prepared.accData data = true →
        ∃ hash, steps.hashPassword params.password = .ok hash) : Undisturbed steps params := by
  intro prepared' hreached' m hm hbefore'
  obtain rfl := hreached.unique hreached'
  rcases lt_trichotomy m n with hlt | rfl | hlt
  · have hwaiting := hbefore m hlt
    refine ⟨fun e he ↦ absurd he (hwaiting.ne_error e), fun data hfetch hdata ↦ ?_⟩
    rw [hwaiting.not_target hfetch] at hdata
    cases hdata
  · exact ⟨herror, hfound⟩
  · exact absurd (hbefore' n hlt) hlast

theorem undisturbed_of_usedUp (h : UsedUp steps params) : Undisturbed steps params := by
  intro prepared hreached m hm hbefore
  have hwaiting := h.stillWaiting hreached hm
  refine ⟨fun e he ↦ absurd he (hwaiting.ne_error e), fun data hfetch hdata ↦ ?_⟩
  rw [hwaiting.not_target hfetch] at hdata
  cases hdata

theorem not_isTerminal_confirming : ¬IsTerminal confirming := by
  rintro ⟨-, hstage⟩
  revert hstage
  decide

/-- One terminal event after the heartbeats, if it tells the end. -/
theorem truthful_of_single {k : ℕ} {last : ProgressEvent}
    {result : Except AppError ResultOfAddZKPFactor} (h : Ends steps params k [last] result)
    (hterminal : IsTerminal last)
    (hconfirmed : last.stage = "confirmed" ↔ ∃ r, result = .ok r)
    (htimedOut : last.stage = "timed_out" ↔ UsedUp steps params)
    (hkind : (∃ e, result = .error e ∧ IsSuppressed e) ↔ UsedUp steps params) :
    Truthful steps params := by
  obtain ⟨quiet, hquiet, hevents⟩ := h.events_eq
  constructor
  · refine ⟨quiet ++ List.replicate k confirming, last, ?_, hterminal, ?_, ?_, htimedOut⟩
    · rw [hevents, List.append_assoc]
    · rintro event hevent
      rcases List.mem_append.mp hevent with hevent | hevent
      · exact (hquiet event hevent).1
      · rw [List.eq_of_mem_replicate hevent]
        exact not_isTerminal_confirming
    · rw [h.result_eq]
      exact hconfirmed
  · rw [h.result_eq]
    exact hkind
  · have hquietFilter : quiet.filter (· = confirming) = [] := by
      rw [List.filter_eq_nil_iff]
      intro event hevent
      simpa using (hquiet event hevent).2
    have hlast : last ≠ confirming := by
      rintro rfl
      exact not_isTerminal_confirming hterminal
    rw [hevents, h.attempts_eq, List.filter_append, hquietFilter, List.filter_append,
      List.filter_replicate]
    simp [hlast]

theorem isTerminal_failedEvent (e : AppError) : IsTerminal (failedEvent e) := by
  refine ⟨rfl, ?_⟩
  change "failed" ∈ ["confirmed", "timed_out", "failed"]
  decide

theorem isTerminal_of_stage {stage : String} (h : stage ∈ ["confirmed", "timed_out", "failed"]) :
    IsTerminal (.new "add_factor" stage) := ⟨rfl, h⟩

/-- A failure that is reported, where the attempts were not used up. -/
theorem truthful_of_failed {k : ℕ} {e : AppError}
    (h : Ends steps params k [failedEvent e] (.error e)) (hkind : ¬IsSuppressed e)
    (husedUp : ¬UsedUp steps params) : Truthful steps params := by
  apply truthful_of_single h (isTerminal_failedEvent e)
  · refine iff_of_false (fun hstage ↦ ?_) nofun
    exact absurd hstage (by change "failed" ≠ "confirmed"; decide)
  · refine iff_of_false (fun hstage ↦ ?_) husedUp
    exact absurd hstage (by change "failed" ≠ "timed_out"; decide)
  · refine iff_of_false ?_ husedUp
    rintro ⟨e', he', hkind'⟩
    obtain rfl := Except.error.inj he'
    exact hkind hkind'

/-- A confirmed factor and then a failure: two terminal events. -/
theorem not_truthful_of_unhashed {k : ℕ} {e : AppError}
    (h : Ends steps params k [.new "add_factor" "confirmed", failedEvent e] (.error e)) :
    ¬Truthful steps params := by
  rintro ⟨⟨before, last, hevents, -, hbefore, -⟩, -, -⟩
  obtain ⟨quiet, -, hevents'⟩ := h.events_eq
  have hsplit : before ++ [last] = (quiet ++ (List.replicate k confirming ++
      [.new "add_factor" "confirmed"])) ++ [failedEvent e] := by
    rw [← hevents, hevents', List.append_assoc, List.append_assoc]
    rfl
  obtain ⟨hquiet, -⟩ := List.append_inj' hsplit rfl
  apply hbefore (.new "add_factor" "confirmed")
  · rw [hquiet]
    simp
  · exact isTerminal_of_stage (by decide)

theorem not_truthful_of_mistaken {k n : ℕ} {e e' : AppError} {tail : List ProgressEvent}
    (h : Ends steps params k tail (.error e')) (hreached : Reached steps params prepared)
    (hn : n < addFactorConfirmMaxAttempts.toNat)
    (hfetch : fetchFactor steps prepared.address n = .error e) (hkind : IsSuppressed e') :
    ¬Truthful steps params := by
  intro htruthful
  have husedUp := htruthful.kind.mp ⟨e', h.result_eq, hkind⟩
  exact (husedUp.stillWaiting hreached hn).ne_error e hfetch

end

/-- The events are truthful just when no error of the reads is mistaken for a
timeout, and no failure follows the confirmation. -/
theorem truthful_iff (steps : Steps) (params : ParamsOfAddZKPFactor) :
    Truthful steps params ↔ Undisturbed steps params := by
  obtain ⟨k, tail, result, hends⟩ := exists_ends steps params
  cases hends.ending with
  | unsent hreached hkind =>
      have husedUp : ¬UsedUp steps params := fun ⟨prepared, hprepared, _⟩ ↦
        hreached prepared hprepared
      refine iff_of_true (truthful_of_failed hends hkind husedUp) ?_
      exact fun prepared hprepared ↦ absurd hprepared (hreached prepared)
  | confirmed hreached hn hbefore hfetch hdata hhash =>
      have hlast : ¬StillWaiting steps _ _ := fun hwaiting ↦ by
        rw [hwaiting.not_target hfetch] at hdata
        cases hdata
      have husedUp : ¬UsedUp steps params := fun husedUp ↦
        hlast (husedUp.stillWaiting hreached hn)
      refine iff_of_true ?_ ?_
      · apply truthful_of_single hends (isTerminal_of_stage (by decide))
        · exact iff_of_true rfl ⟨_, rfl⟩
        · exact iff_of_false (by change "confirmed" ≠ "timed_out"; decide) husedUp
        · exact iff_of_false nofun husedUp
      · apply undisturbed_of_last hreached hbefore hlast
        · intro e he
          rw [hfetch] at he
          cases he
        · intro _ _ _
          exact ⟨_, hhash⟩
  | unhashed hreached hn hbefore hfetch hdata hhash =>
      refine iff_of_false (not_truthful_of_unhashed hends) ?_
      intro hundisturbed
      obtain ⟨hash, hok⟩ := (hundisturbed _ hreached _ hn hbefore).2 _ hfetch hdata
      exact hhash hash hok
  | mistaken hreached hn hbefore hfetch hpending hkind =>
      refine iff_of_false (not_truthful_of_mistaken hends hreached hn hfetch hkind) ?_
      intro hundisturbed
      have hnot := (hundisturbed _ hreached _ hn hbefore).1 _ hfetch
      rw [hpending] at hnot
      cases hnot
  | failed hreached hn hbefore hfetch hpending hkind =>
      have hlast : ¬StillWaiting steps _ _ := fun hwaiting ↦ hwaiting.ne_error _ hfetch
      have husedUp : ¬UsedUp steps params := fun husedUp ↦
        hlast (husedUp.stillWaiting hreached hn)
      refine iff_of_true (truthful_of_failed hends hkind husedUp) ?_
      apply undisturbed_of_last hreached hbefore hlast
      · intro e he
        rw [hfetch] at he
        rwa [← Except.error.inj he]
      · intro data hok
        rw [hfetch] at hok
        cases hok
  | timedOut hreached hall hkind =>
      have husedUp : UsedUp steps params := ⟨_, hreached, hall⟩
      refine iff_of_true ?_ (undisturbed_of_usedUp husedUp)
      apply truthful_of_single hends (isTerminal_of_stage (by decide))
      · exact iff_of_false (by change "timed_out" ≠ "confirmed"; decide) nofun
      · exact iff_of_true rfl husedUp
      · exact iff_of_true ⟨_, rfl, hkind⟩ husedUp

/-! ## Two calls that are not -/

def exampleData (factorsLen : String) : MultifactorData :=
  ⟨"zkid", factorsLen, "0xowner", "0xjwk", "", "", []⟩

def exampleParams : ParamsOfAddZKPFactor :=
  ⟨"wallet", "proof", "epk", "esk", "", 1800000000, 0, "kid", "sub", "password", "zkid"⟩

/-- A wallet with one factor, to which a second one is added. -/
def exampleSteps (factorAccount : Account) (hashed : Except StepError String) : Steps where
  getIndexer _ := .ok "0:1"
  getDetails _ := .ok "0:2"
  account := ⟨true, some (.ok (exampleData "1"))⟩
  getBocHash _ := .ok "00"
  nowSecs := 1700000000
  fetchTls _ _ := .ok ⟨"", ""⟩
  resolveJwkUpdateSigner _ _ _ := .ok ⟨"", ""⟩
  addJwkModulus _ _ := .ok ⟨none, none, none⟩
  jwkAccount _ := ⟨true, some (.ok (exampleData "1"))⟩
  addZkpFactor _ _ := .ok ⟨some "id", some false, some 0⟩
  factorAccount _ := factorAccount
  hashPassword _ := hashed

def exampleError (message : String) : StepError :=
  ⟨(AppError.new message).withKind "tvm", fun h ↦ absurd (Option.some.inj h) (by decide)⟩

/-- The password is not hashed after the factor is confirmed. -/
def unhashedSteps : Steps :=
  exampleSteps ⟨true, some (.ok (exampleData "2"))⟩ (.error (exampleError "no entropy"))

/-- The first read fails with a text that has the word in it. -/
def mistakenSteps : Steps :=
  exampleSteps ⟨true, some (.error (exampleError "request timeout"))⟩ (.ok "hash")

theorem not_truthful :
    ¬Truthful unhashedSteps exampleParams ∧ ¬Truthful mistakenSteps exampleParams := by
  constructor
  · rintro ⟨⟨before, last, hevents, -, hbefore, -⟩, -, -⟩
    have hall : (addZkpFactor unhashedSteps exampleParams).events =
        [.new "add_factor" "resolving", .new "add_factor" "submitted", confirming,
          .new "add_factor" "confirmed"] ++
            [(ProgressEvent.new "add_factor" "failed").withDetail "no entropy"] := by
      decide +kernel
    obtain ⟨rfl, -⟩ := List.append_inj' (hevents.symm.trans hall) rfl
    exact hbefore (.new "add_factor" "confirmed") (by simp) (isTerminal_of_stage (by decide))
  · intro htruthful
    have hresult : (addZkpFactor mistakenSteps exampleParams).result =
        .error (timeoutError.withContext "Failed to add jwk modulus") := by decide +kernel
    obtain ⟨prepared, -, hall⟩ := htruthful.kind.mp ⟨_, hresult, rfl⟩
    obtain ⟨data, hfetch, -⟩ := hall 0 (by decide)
    cases hfetch

end FactorProgress

end BeeEngine
