import BeeEngine.MinerSystem

/-!
# What a task can do

Every piece of a task is one of five moves.  All later results about the miner
are derived from the moves, not from the code of the pieces.
-/

namespace BeeEngine

variable {M : RsMerkle} {blake3 : Bytes → Bytes32}

/-- The status that the code gives a task at each place. -/
def Pc.status : Pc M → MinerStatus
  | spawned => .queued
  | fetchingAccount _ => .computing
  | computing _ _ => .computing
  | waitingSubmitter _ => .computing
  | submittingRoot _ => .submitting
  | awaitingCommand _ => .submitting
  | submittingProof _ => .submitting

namespace Task

/-- The entry of the workers list for a task. -/
def entry (t : Task M) : MinerWorker := { t.worker with status := t.pc.status }

/-- The same task at another place. -/
def SameTask (t t' : Task M) : Prop := t'.channel = t.channel ∧ t'.worker = t.worker

/-- The moves of a task: to begin, to go on with the same status, to submit
its session, to give its seed back, and to finish its session. -/
inductive Moves (s : Shared) (t : Task M) : Shared → Option (Task M) → Prop
  | begin (t' : Task M) (hfrom : t.pc.status = .queued) (hto : t'.pc.status = .computing)
      (hsame : SameTask t t') :
      Moves s t { s with workers := updateWorkerStatus t.worker.id .computing s.workers } (some t')
  | stay (t' : Task M) (hfrom : t.pc.status ≠ .queued) (hto : t'.pc.status = t.pc.status)
      (hsame : SameTask t t') : Moves s t s (some t')
  | submit (t' : Task M) (x : Submission) (hfrom : t.pc.status = .computing)
      (hto : t'.pc.status = .submitting) (hsame : SameTask t t')
      (hfree : s.anySubmitting = false) (hx : x.worker = t.worker ∧ x.reported = s.reported) :
      Moves s t
        { s with
          workers := updateWorkerStatus t.worker.id .submitting s.workers
          submissions := s.submissions ++ [x] } (some t')
  | giveBack (hfrom : t.pc.status = .computing) :
      Moves s t
        (Shared.shutdownWorker { s with seeds := t.worker.seed :: s.seeds } t.worker false false)
        none
  | finish (minerStateCorrupted : Bool) (hfrom : t.pc.status = .submitting) :
      Moves s t (s.shutdownWorker t.worker true minerStateCorrupted) none

theorem sameTask_refl (t : Task M) : SameTask t t := ⟨rfl, rfl⟩

theorem moves_begin (s : Shared) {t : Task M} (hpc : t.pc = .spawned) :
    Moves s t (begin s t).1 (begin s t).2 :=
  .begin _ (by rw [hpc]; rfl) rfl ⟨rfl, rfl⟩

theorem moves_trySubmit (s : Shared) (t t₀ : Task M) (cores : Cores M)
    (hfrom : t₀.pc.status = .computing) (hsame : SameTask t₀ t) :
    Moves s t₀ (trySubmit s t cores).1 (trySubmit s t cores).2 := by
  obtain ⟨hchannel, hworker⟩ := hsame
  rw [trySubmit]
  by_cases hfree : s.anySubmitting
  · rw [if_pos hfree]
    exact .stay _ (by rw [hfrom]; decide) hfrom.symm ⟨hchannel, hworker⟩
  · rw [if_neg hfree, hworker]
    exact .submit _ _ hfrom rfl ⟨hchannel, rfl⟩ (by simpa using hfree) ⟨hworker, rfl⟩

theorem moves_finalize (s : Shared) (t t₀ : Task M) (cores : Cores M)
    (hfrom : t₀.pc.status = .computing) (hsame : SameTask t₀ t) :
    Moves s t₀ (finalize s t cores).1 (finalize s t cores).2 := by
  rw [finalize]
  by_cases hempty :
      (cores.time.getMerkle.2.leaves.isEmpty || cores.tap.getMerkle.2.leaves.isEmpty) = true
  · simp only [hempty, if_true, shutdown, hsame.2]
    exact .giveBack hfrom
  · simp only [hempty, Bool.false_eq_true, if_false]
    exact moves_trySubmit s t t₀ _ hfrom hsame

theorem moves_checkDuration (s : Shared) (t t₀ : Task M) (cores : Cores M)
    (startMs nowMs : UInt64) (hfrom : t₀.pc.status = .computing) (hsame : SameTask t₀ t) :
    Moves s t₀ (checkDuration s t cores startMs nowMs).1
      (checkDuration s t cores startMs nowMs).2 := by
  rw [checkDuration]
  by_cases hdone : startMs + t.worker.durationMs ≤ nowMs
  · rw [if_pos hdone]
    exact moves_finalize s t t₀ cores hfrom hsame
  · rw [if_neg hdone]
    exact .stay _ (by rw [hfrom]; decide) hfrom.symm hsame

/-- What a round of the loop does, by the message it finds. -/
theorem computeRound_cases {s : Shared} {t : Task M} {cores : Cores M} {startMs nowMs : UInt64}
    {outcome : Outcome M} (h : computeRound blake3 s t cores startMs nowMs = some outcome) :
    (∃ r, cores.time.compute blake3 ⟨0, 0, nowMs⟩ = some r ∧
      checkDuration s t { cores with time := r.1 } startMs nowMs = outcome) ∨
    (∃ x y rest, t.inbox = .queueTap x y :: rest ∧
      ∃ r, cores.tap.compute blake3 ⟨x, y, nowMs⟩ = some r ∧
        checkDuration s { t with inbox := rest } { cores with tap := r.1 } startMs nowMs =
          outcome) ∨
    (∃ rest, t.inbox = .stop :: rest ∧ finalize s { t with inbox := rest } cores = outcome) ∨
    ∃ m rest, t.inbox = m :: rest ∧
      checkDuration s { t with inbox := rest } cores startMs nowMs = outcome := by
  unfold computeRound at h
  cases hinbox : t.inbox with
  | nil =>
      rw [hinbox] at h
      exact .inl (Option.map_eq_some_iff.mp h)
  | cons m rest =>
      rw [hinbox] at h
      cases m with
      | queueTap x y => exact .inr (.inl ⟨x, y, rest, rfl, Option.map_eq_some_iff.mp h⟩)
      | stop => exact .inr (.inr (.inl ⟨rest, rfl, Option.some.inj h⟩))
      | _ => exact .inr (.inr (.inr ⟨_, rest, rfl, Option.some.inj h⟩))

theorem moves_computeRound {s s' : Shared} {t t₀ : Task M} {outcome : Option (Task M)}
    {cores : Cores M} {startMs nowMs : UInt64} (hfrom : t₀.pc.status = .computing)
    (hsame : SameTask t₀ t) (h : computeRound blake3 s t cores startMs nowMs = some (s', outcome)) :
    Moves s t₀ s' outcome := by
  obtain ⟨r, -, hr⟩ | ⟨x, y, rest, -, r, -, hr⟩ | ⟨rest, -, hr⟩ | ⟨m, rest, -, hr⟩ :=
    computeRound_cases h
  · obtain ⟨rfl, rfl⟩ := Prod.mk.inj hr
    exact moves_checkDuration s t t₀ _ startMs nowMs hfrom hsame
  · obtain ⟨rfl, rfl⟩ := Prod.mk.inj hr
    exact moves_checkDuration s _ t₀ _ startMs nowMs hfrom hsame
  · obtain ⟨rfl, rfl⟩ := Prod.mk.inj hr
    exact moves_finalize s _ t₀ _ hfrom hsame
  · obtain ⟨rfl, rfl⟩ := Prod.mk.inj hr
    exact moves_checkDuration s _ t₀ _ startMs nowMs hfrom hsame

theorem moves_processCommand {s s' : Shared} {t : Task M} {outcome : Option (Task M)}
    {cores : Cores M} (hpc : t.pc = .awaitingCommand cores)
    (h : processCommand s t cores = some (s', outcome)) : Moves s t s' outcome := by
  have hfrom : t.pc.status = .submitting := by rw [hpc]; rfl
  have hne : t.pc.status ≠ .queued := by rw [hfrom]; decide
  rw [processCommand] at h
  split at h
  · cases h
  · obtain ⟨r, -, hr⟩ := Option.map_eq_some_iff.mp h
    cases r with
    | error e =>
        obtain ⟨rfl, rfl⟩ := Prod.mk.inj hr
        exact .finish false hfrom
    | ok proofs =>
        obtain ⟨rfl, rfl⟩ := Prod.mk.inj hr
        exact .stay _ hne hfrom.symm ⟨rfl, rfl⟩
  · obtain ⟨rfl, rfl⟩ := Prod.mk.inj (Option.some.inj h)
    exact .finish false hfrom
  · obtain ⟨rfl, rfl⟩ := Prod.mk.inj (Option.some.inj h)
    exact .finish false hfrom
  · obtain ⟨rfl, rfl⟩ := Prod.mk.inj (Option.some.inj h)
    exact .stay _ hne rfl ⟨rfl, rfl⟩

/-- Every piece of a task is a move. -/
theorem moves_of_advance {s s' : Shared} {t : Task M} {wake : Wake} {outcome : Option (Task M)}
    (h : t.advance blake3 s wake = some (s', outcome)) : Moves s t s' outcome := by
  cases wake with
  | begin =>
      rw [advance] at h
      split at h
      · rename_i hpc
        obtain ⟨rfl, rfl⟩ := Prod.mk.inj (Option.some.inj h)
        exact moves_begin s hpc
      · cases h
  | accountRead account startMs nowMs =>
      rw [advance] at h
      split at h
      · rename_i sessionInFlight hpc
        have hfrom : t.pc.status = .computing := by rw [hpc]; rfl
        refine moves_computeRound hfrom ?_ h
        exact ⟨rfl, rfl⟩
      · cases h
  | tick nowMs =>
      rw [advance] at h
      split at h
      · rename_i cores startMs hpc
        exact moves_computeRound (by rw [hpc]; rfl) t.sameTask_refl h
      · cases h
  | retry =>
      rw [advance] at h
      split at h
      · rename_i cores hpc
        obtain ⟨rfl, rfl⟩ := Prod.mk.inj (Option.some.inj h)
        exact moves_trySubmit s t t cores (by rw [hpc]; rfl) t.sameTask_refl
      · cases h
  | rootSubmitted ok =>
      rw [advance] at h
      split at h
      · rename_i cores hpc
        cases ok with
        | false =>
            obtain ⟨rfl, rfl⟩ := Prod.mk.inj (Option.some.inj h)
            exact .finish true (by rw [hpc]; rfl)
        | true =>
            obtain ⟨rfl, rfl⟩ := Prod.mk.inj (Option.some.inj h)
            exact .stay _ (by rw [hpc]; exact nofun) (by rw [hpc]; rfl) ⟨rfl, rfl⟩
      · cases h
  | command =>
      rw [advance] at h
      split at h
      · rename_i cores hpc
        exact moves_processCommand hpc h
      · cases h
  | proofSubmitted ok =>
      rw [advance] at h
      split at h
      · rename_i cores hpc
        cases ok with
        | false =>
            obtain ⟨rfl, rfl⟩ := Prod.mk.inj (Option.some.inj h)
            exact .finish false (by rw [hpc]; rfl)
        | true =>
            obtain ⟨rfl, rfl⟩ := Prod.mk.inj (Option.some.inj h)
            exact .stay _ (by rw [hpc]; exact nofun) (by rw [hpc]; rfl) ⟨rfl, rfl⟩
      · cases h

/-! ## Delivery -/

theorem deliver_cases (sender : ℕ) (command : MinerCommand) (t : Task M) :
    SameTask t (t.deliver sender command) ∧ (t.deliver sender command).pc = t.pc := by
  rw [deliver]
  split
  · exact ⟨⟨rfl, rfl⟩, rfl⟩
  · exact ⟨⟨rfl, rfl⟩, rfl⟩

@[simp] theorem deliver_pc (sender : ℕ) (command : MinerCommand) (t : Task M) :
    (t.deliver sender command).pc = t.pc := (t.deliver_cases sender command).2

@[simp] theorem deliver_worker (sender : ℕ) (command : MinerCommand) (t : Task M) :
    (t.deliver sender command).worker = t.worker := (t.deliver_cases sender command).1.2

@[simp] theorem deliver_channel (sender : ℕ) (command : MinerCommand) (t : Task M) :
    (t.deliver sender command).channel = t.channel := (t.deliver_cases sender command).1.1

@[simp] theorem deliver_entry (sender : ℕ) (command : MinerCommand) (t : Task M) :
    (t.deliver sender command).entry = t.entry := by
  simp [entry]

theorem Moves.sameTask {s s' : Shared} {t t' : Task M} (h : t.Moves s s' (some t')) :
    SameTask t t' := by
  cases h with
  | begin _ _ _ hsame => exact hsame
  | stay _ _ _ hsame => exact hsame
  | submit _ _ _ _ hsame => exact hsame

end Task

/-! ## The list of tasks -/

/-- The tasks after a piece are the outcome and the other tasks. -/
theorem Miner.settle_perm {tasks : List (Task M)} {i : ℕ} {t : Task M} (ht : tasks[i]? = some t)
    (o : Option (Task M)) :
    tasks.Perm (t :: tasks.eraseIdx i) ∧ (settle tasks i o).Perm (o.toList ++ tasks.eraseIdx i) := by
  obtain ⟨hlt, rfl⟩ := List.getElem?_eq_some_iff.mp ht
  refine ⟨(List.getElem_cons_eraseIdx_perm hlt).symm, ?_⟩
  cases o with
  | none => exact List.Perm.refl _
  | some t' => exact List.set_perm_cons_eraseIdx hlt t'

end BeeEngine
