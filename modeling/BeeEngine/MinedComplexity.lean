import BeeEngine.MinerMoves

/-!
# The complexity that a task mines with

A task fixes its complexity when it reads the account.  Nothing changes it
afterwards, and the session that it submits carries it.
-/

namespace BeeEngine

variable {M : RsMerkle} {blake3 : Bytes → Bytes32}

def Pc.cores : Pc M → Option (Cores M)
  | spawned => none
  | fetchingAccount _ => none
  | computing cores _ => some cores
  | waitingSubmitter cores => some cores
  | submittingRoot cores => some cores
  | awaitingCommand cores => some cores
  | submittingProof cores => some cores

/-- A worker that mines, or a session that it submitted, with the complexity. -/
structure Mined where
  channel : ℕ
  worker : MinerWorker
  complexity : UInt32 × UInt32
  view : Option AccountView
  deriving DecidableEq, Repr

def Task.mined (t : Task M) (cores : Cores M) : Mined :=
  ⟨t.channel, t.worker, cores.complexity, t.view⟩

def Submission.mined (x : Submission) : Mined := ⟨x.channel, x.worker, x.complexity, x.view⟩

/-- What a task mines after it read the account. -/
def Task.minedOf (t : Task M) (account : Except String MinerComplexityData)
    (sessionInFlight : Bool) : Mined :=
  ⟨t.channel, t.worker, t.worker.sessionComplexity account sessionInFlight,
    some (account, sessionInFlight)⟩

/-- The outcome of a piece mines only `m`, and submits only sessions of `m`. -/
structure Produces (m : Mined) (s s' : Shared) (outcome : Option (Task M)) : Prop where
  task : ∀ t ∈ outcome, ∃ cores, t.pc.cores = some cores ∧ t.mined cores = m
  submissions : ∀ x ∈ s'.submissions, x ∈ s.submissions ∨ x.mined = m

/-- How a piece of a task changes what is mined. -/
inductive Task.Mining (s : Shared) (t : Task M) : Wake → Shared → Option (Task M) → Prop
  | begin (hpc : t.pc = .spawned) : Mining s t .begin (t.begin s).1 (t.begin s).2
  | read (account : Except String MinerComplexityData) (startMs nowMs : UInt64)
      (sessionInFlight : Bool) (s' : Shared) (outcome : Option (Task M))
      (hpc : t.pc = .fetchingAccount sessionInFlight)
      (h : Produces (t.minedOf account sessionInFlight) s s' outcome) :
      Mining s t (.accountRead account startMs nowMs) s' outcome
  | proceed (wake : Wake) (cores : Cores M) (s' : Shared) (outcome : Option (Task M))
      (hpc : t.pc.cores = some cores) (h : Produces (t.mined cores) s s' outcome) :
      Mining s t wake s' outcome

namespace Task

theorem produces_shutdown (m : Mined) (s s' : Shared) (t : Task M) (used corrupted : Bool)
    (h : s'.submissions = s.submissions) :
    Produces m s (shutdown s' t used corrupted).1 (shutdown s' t used corrupted).2 where
  task t ht := by cases ht
  submissions x hx := by
    left
    rw [← h]
    exact hx

theorem produces_stay {m : Mined} {s : Shared} {t : Task M} {cores : Cores M}
    (hpc : t.pc.cores = some cores) (h : t.mined cores = m) : Produces m s s (some t) where
  task := by
    rintro t' ⟨⟩
    exact ⟨cores, hpc, h⟩
  submissions x hx := .inl hx

theorem produces_trySubmit (s : Shared) (t : Task M) (cores : Cores M) :
    Produces (t.mined cores) s (trySubmit s t cores).1 (trySubmit s t cores).2 := by
  rw [trySubmit]
  split
  · exact produces_stay rfl rfl
  · constructor
    · rintro t' ⟨⟩
      exact ⟨cores, rfl, rfl⟩
    · intro x hx
      rcases List.mem_append.mp hx with hx | hx
      · exact .inl hx
      · obtain rfl := List.mem_singleton.mp hx
        exact .inr rfl

theorem targetBits_getMerkle (core : MiningCore M) :
    core.getMerkle.1.targetBits = core.targetBits := by
  rw [MiningCore.getMerkle]
  split
  · rfl
  · rfl

theorem produces_finalize (s : Shared) (t : Task M) (cores : Cores M) :
    Produces (t.mined cores) s (finalize s t cores).1 (finalize s t cores).2 := by
  have hcores : t.mined cores = t.mined ⟨cores.time.getMerkle.1, cores.tap.getMerkle.1⟩ := by
    simp only [mined, Cores.complexity, targetBits_getMerkle]
  simp only [finalize]
  split
  · exact produces_shutdown _ _ _ _ _ _ rfl
  · rw [hcores]
    exact produces_trySubmit s t _

theorem produces_checkDuration (s : Shared) (t : Task M) (cores : Cores M)
    (startMs nowMs : UInt64) :
    Produces (t.mined cores) s (checkDuration s t cores startMs nowMs).1
      (checkDuration s t cores startMs nowMs).2 := by
  rw [checkDuration]
  split
  · exact produces_finalize s t cores
  · exact produces_stay rfl rfl

theorem targetBits_compute {core core' : MiningCore M} {params : ParamsOfCompute}
    {result : Option ComputedLeaf} (h : core.compute blake3 params = some (core', result)) :
    core'.targetBits = core.targetBits := by
  have hstep : MiningCore.Step blake3 core (.compute params) core' :=
    Option.map_eq_some_iff.mpr ⟨(core', result), h, rfl⟩
  exact hstep.sameSettings.2.1

theorem produces_computeRound {s s' : Shared} {t : Task M} {outcome : Option (Task M)}
    {cores : Cores M} {startMs nowMs : UInt64}
    (h : computeRound blake3 s t cores startMs nowMs = some (s', outcome)) :
    Produces (t.mined cores) s s' outcome := by
  obtain ⟨r, hr, hround⟩ | ⟨x, y, rest, -, r, hr, hround⟩ | ⟨rest, -, hround⟩ |
    ⟨m, rest, -, hround⟩ := computeRound_cases h
  · obtain ⟨rfl, rfl⟩ := Prod.mk.inj hround
    have hcores : t.mined cores = t.mined { cores with time := r.1 } := by
      simp only [mined, Cores.complexity, targetBits_compute hr]
    rw [hcores]
    exact produces_checkDuration s t _ startMs nowMs
  · obtain ⟨rfl, rfl⟩ := Prod.mk.inj hround
    have hcores : t.mined cores =
        Task.mined { t with inbox := rest } { cores with tap := r.1 } := by
      simp only [mined, Cores.complexity, targetBits_compute hr]
    rw [hcores]
    exact produces_checkDuration s _ _ startMs nowMs
  · obtain ⟨rfl, rfl⟩ := Prod.mk.inj hround
    have hcores : t.mined cores = Task.mined { t with inbox := rest } cores := rfl
    rw [hcores]
    exact produces_finalize s _ cores
  · obtain ⟨rfl, rfl⟩ := Prod.mk.inj hround
    have hcores : t.mined cores = Task.mined { t with inbox := rest } cores := rfl
    rw [hcores]
    exact produces_checkDuration s _ cores startMs nowMs

theorem produces_processCommand {s s' : Shared} {t : Task M} {outcome : Option (Task M)}
    {cores : Cores M} (hpc : t.pc.cores = some cores)
    (h : processCommand s t cores = some (s', outcome)) :
    Produces (t.mined cores) s s' outcome := by
  rw [processCommand] at h
  split at h
  · cases h
  · obtain ⟨r, -, hr⟩ := Option.map_eq_some_iff.mp h
    cases r with
    | error e =>
        obtain ⟨rfl, rfl⟩ := Prod.mk.inj hr
        exact produces_shutdown _ _ _ _ _ _ rfl
    | ok proofs =>
        obtain ⟨rfl, rfl⟩ := Prod.mk.inj hr
        exact produces_stay rfl rfl
  · obtain ⟨rfl, rfl⟩ := Prod.mk.inj (Option.some.inj h)
    exact produces_shutdown _ _ _ _ _ _ rfl
  · obtain ⟨rfl, rfl⟩ := Prod.mk.inj (Option.some.inj h)
    exact produces_shutdown _ _ _ _ _ _ rfl
  · obtain ⟨rfl, rfl⟩ := Prod.mk.inj (Option.some.inj h)
    exact produces_stay hpc rfl

theorem mining_of_advance {s s' : Shared} {t : Task M} {wake : Wake} {outcome : Option (Task M)}
    (h : t.advance blake3 s wake = some (s', outcome)) : t.Mining s wake s' outcome := by
  cases wake with
  | begin =>
      rw [advance] at h
      split at h
      · rename_i hpc
        obtain ⟨rfl, rfl⟩ := Prod.mk.inj (Option.some.inj h)
        exact .begin hpc
      · cases h
  | accountRead account startMs nowMs =>
      rw [advance] at h
      split at h
      · rename_i sessionInFlight hpc
        exact .read account startMs nowMs sessionInFlight s' outcome hpc (produces_computeRound h)
      · cases h
  | tick nowMs =>
      rw [advance] at h
      split at h
      · rename_i cores startMs hpc
        exact .proceed _ cores s' outcome (by rw [hpc]; rfl) (produces_computeRound h)
      · cases h
  | retry =>
      rw [advance] at h
      split at h
      · rename_i cores hpc
        obtain ⟨rfl, rfl⟩ := Prod.mk.inj (Option.some.inj h)
        exact .proceed _ cores _ _ (by rw [hpc]; rfl) (produces_trySubmit s t cores)
      · cases h
  | rootSubmitted ok =>
      rw [advance] at h
      split at h
      · rename_i cores hpc
        cases ok with
        | false =>
            obtain ⟨rfl, rfl⟩ := Prod.mk.inj (Option.some.inj h)
            exact .proceed _ cores _ _ (by rw [hpc]; rfl) (produces_shutdown _ _ _ _ _ _ rfl)
        | true =>
            obtain ⟨rfl, rfl⟩ := Prod.mk.inj (Option.some.inj h)
            exact .proceed _ cores _ _ (by rw [hpc]; rfl) (produces_stay rfl rfl)
      · cases h
  | command =>
      rw [advance] at h
      split at h
      · rename_i cores hpc
        have hcores : t.pc.cores = some cores := by rw [hpc]; rfl
        exact .proceed _ cores _ _ hcores (produces_processCommand hcores h)
      · cases h
  | proofSubmitted ok =>
      rw [advance] at h
      split at h
      · rename_i cores hpc
        cases ok with
        | false =>
            obtain ⟨rfl, rfl⟩ := Prod.mk.inj (Option.some.inj h)
            exact .proceed _ cores _ _ (by rw [hpc]; rfl) (produces_shutdown _ _ _ _ _ _ rfl)
        | true =>
            obtain ⟨rfl, rfl⟩ := Prod.mk.inj (Option.some.inj h)
            exact .proceed _ cores _ _ (by rw [hpc]; rfl) (produces_stay rfl rfl)
      · cases h

end Task

/-! ## Calls and events -/

/-- A task without its unread commands. -/
def Task.bare (t : Task M) : Task M := { t with inbox := [] }

@[simp] theorem Task.bare_deliver (sender : ℕ) (command : MinerCommand) (t : Task M) :
    (t.deliver sender command).bare = t.bare := by
  rw [deliver]
  split
  · rfl
  · rfl

theorem Task.eq_of_bare {t t' : Task M} (h : t'.bare = t.bare) :
    t'.channel = t.channel ∧ t'.worker = t.worker ∧ t'.pc = t.pc ∧ t'.view = t.view := by
  simp only [bare, mk.injEq] at h
  exact ⟨h.1, h.2.1, h.2.2.2.1, h.2.2.2.2⟩

namespace Miner

/-- All that is mined or was submitted. -/
def mined (s : Miner M) : List Mined :=
  s.tasks.filterMap (fun t ↦ t.pc.cores.map t.mined) ++
    s.shared.submissions.map Submission.mined

/-- The seeds with one task or in the queue. -/
def active (s : Miner M) : List String := s.tasks.map (fun t ↦ t.worker.seed) ++ s.shared.seeds

theorem mem_mined_iff {s : Miner M} {m : Mined} :
    m ∈ s.mined ↔
      (∃ t ∈ s.tasks, ∃ cores, t.pc.cores = some cores ∧ t.mined cores = m) ∨
        ∃ x ∈ s.shared.submissions, x.mined = m := by
  simp [mined, List.mem_filterMap, Option.map_eq_some_iff]

theorem mem_active_iff {s : Miner M} {seed : String} :
    seed ∈ s.active ↔ (∃ t ∈ s.tasks, t.worker.seed = seed) ∨ seed ∈ s.shared.seeds := by
  simp [active]

/-- A step that neither starts nor wakes a task and brings no news. -/
structure Quiet (s s' : Miner M) : Prop where
  tasks_eq : s'.tasks.map Task.bare = s.tasks.map Task.bare
  submissions_eq : s'.shared.submissions = s.shared.submissions
  nextChannel_eq : s'.nextChannel = s.nextChannel
  complexity_eq : s'.complexity = s.complexity
  seeds_subset : ∀ seed ∈ s'.shared.seeds, seed ∈ s.shared.seeds

namespace Quiet

variable {s s' : Miner M}

theorem refl (s : Miner M) : s.Quiet s := ⟨rfl, rfl, rfl, rfl, fun _ h ↦ h⟩

theorem mem_tasks (h : s.Quiet s') {t' : Task M} (ht : t' ∈ s'.tasks) :
    ∃ t ∈ s.tasks, t'.bare = t.bare := by
  have hbare : t'.bare ∈ s.tasks.map Task.bare := by
    rw [← h.tasks_eq]
    exact List.mem_map_of_mem ht
  obtain ⟨t, ht, hbare⟩ := List.mem_map.mp hbare
  exact ⟨t, ht, hbare.symm⟩

theorem channels_eq (h : s.Quiet s') :
    s'.tasks.map Task.channel = s.tasks.map Task.channel := by
  have hbare := congrArg (List.map Task.channel) h.tasks_eq
  rw [List.map_map, List.map_map] at hbare
  exact hbare

theorem mem_mined (h : s.Quiet s') {m : Mined} (hm : m ∈ s'.mined) : m ∈ s.mined := by
  rw [mem_mined_iff] at hm ⊢
  rcases hm with ⟨t', ht', cores, hcores, rfl⟩ | hsubmitted
  · left
    obtain ⟨t, ht, hbare⟩ := h.mem_tasks ht'
    obtain ⟨hchannel, hworker, hpc, hview⟩ := Task.eq_of_bare hbare
    refine ⟨t, ht, cores, by rw [← hpc]; exact hcores, ?_⟩
    rw [Task.mined, Task.mined, hchannel, hworker, hview]
  · right
    rw [← h.submissions_eq]
    exact hsubmitted

theorem mem_active (h : s.Quiet s') {seed : String} (hseed : seed ∈ s'.active) :
    seed ∈ s.active := by
  rw [mem_active_iff] at hseed ⊢
  rcases hseed with ⟨t', ht', rfl⟩ | hqueued
  · left
    obtain ⟨t, ht, hbare⟩ := h.mem_tasks ht'
    exact ⟨t, ht, by rw [(Task.eq_of_bare hbare).2.1]⟩
  · right
    exact h.seeds_subset seed hqueued

end Quiet

theorem quiet_send (s : Miner M) (sender : ℕ) (command : MinerCommand) :
    s.Quiet (s.send sender command) where
  tasks_eq := by simp [send, Function.comp_def]
  submissions_eq := rfl
  nextChannel_eq := rfl
  complexity_eq := rfl
  seeds_subset _ h := h

theorem quiet_sends (s : Miner M) (command : MinerCommand) (workers : List MinerWorker) :
    s.Quiet (workers.foldl (fun s w ↦ s.send w.sender command) s) := by
  induction workers generalizing s with
  | nil => exact .refl s
  | cons w workers ih =>
      have hsend := quiet_send s w.sender command
      have hrest := ih (s.send w.sender command)
      constructor
      · exact hrest.tasks_eq.trans hsend.tasks_eq
      · exact hrest.submissions_eq.trans hsend.submissions_eq
      · exact hrest.nextChannel_eq.trans hsend.nextChannel_eq
      · exact hrest.complexity_eq.trans hsend.complexity_eq
      · exact fun seed h ↦ hsend.seeds_subset seed (hrest.seeds_subset seed h)

theorem quiet_sendTo (s : Miner M) (workerId : UInt64) (command : MinerCommand) :
    s.Quiet (s.sendTo workerId command) := by
  rw [sendTo]
  split
  · exact quiet_send s _ _
  · exact .refl s

theorem quiet_handleSessionResult (s : Miner M) (data : String) (command : MinerCommand) :
    s.Quiet (s.handleSessionResult data command) := by
  rw [handleSessionResult]
  split
  · exact .refl s
  · exact quiet_sendTo s _ _

theorem quiet_stop (s : Miner M) : s.Quiet s.stop := by
  obtain ⟨htasks, hsubmissions, hnext, hcomplexity, hseeds⟩ := quiet_sends
    { s with
      shared := { s.shared with workers := s.shared.workers.filter fun w ↦ w.status ≠ .queued }
      stopped := s.stopped ++
        (s.shared.workers.filter fun w ↦ w.status = .queued).map MinerWorker.sender } .stop
    ((s.shared.workers.filter fun w ↦ w.status ≠ .queued).filter fun w ↦ w.status = .computing)
  exact ⟨htasks, hsubmissions, hnext, hcomplexity, hseeds⟩

theorem quiet_addTap (s : Miner M) (x y : UInt32) : s.Quiet (s.orSame (s.addTap x y)) := by
  rw [addTap]
  split
  · exact quiet_send s _ _
  · exact .refl s

theorem quiet_removeSeed (s : Miner M) (seed : String) : s.Quiet (s.removeSeed seed) where
  tasks_eq := rfl
  submissions_eq := rfl
  nextChannel_eq := rfl
  complexity_eq := rfl
  seeds_subset _ h := (List.mem_filter.mp h).1

/-- What a call or a piece of a task changes. -/
inductive Change (blake3 : Bytes → Bytes32) (s : Miner M) : Label → Miner M → Prop
  | quiet (l : Label) (s' : Miner M) (hl : ∀ i wake, l ≠ .task i wake) (h : s.Quiet s') :
      Change blake3 s l s'
  | started (durationMs : UInt32) (id : UInt64) (s' : Miner M)
      (h : s.start durationMs id = .ok s') : Change blake3 s (.start durationMs id) s'
  | piece (i : ℕ) (wake : Wake) (t : Task M) (shared : Shared) (outcome : Option (Task M))
      (ht : s.tasks[i]? = some t) (h : t.advance blake3 s.shared wake = some (shared, outcome)) :
      Change blake3 s (.task i wake) (s.afterPiece shared (settle s.tasks i outcome))

theorem change_of_step {s s' : Miner M} {l : Label} (hl : ∀ e, l ≠ .event e)
    (h : s.Step blake3 l s') : s.Change blake3 l s' := by
  cases l with
  | start durationMs id =>
      obtain rfl := Option.some.inj h
      cases hstart : s.start durationMs id with
      | error e => exact .quiet _ _ (fun _ _ ↦ nofun) (.refl s)
      | ok s' => exact .started durationMs id s' hstart
  | stop =>
      obtain rfl := Option.some.inj h
      exact .quiet _ _ (fun _ _ ↦ nofun) s.quiet_stop
  | addTap x y =>
      obtain rfl := Option.some.inj h
      exact .quiet _ _ (fun _ _ ↦ nofun) (s.quiet_addTap x y)
  | removeSeed seed =>
      obtain rfl := Option.some.inj h
      exact .quiet _ _ (fun _ _ ↦ nofun) (s.quiet_removeSeed seed)
  | event e => exact absurd rfl (hl e)
  | task i wake =>
      obtain ⟨t, ht, hstep⟩ := Option.bind_eq_some_iff.mp h
      obtain ⟨⟨shared, outcome⟩, hadvance, hstep⟩ := Option.bind_eq_some_iff.mp hstep
      obtain rfl := Option.some.inj hstep
      exact .piece i wake t shared outcome ht hadvance

/-- A started worker has the first seed, the miner's complexity and a new channel. -/
theorem start_cases {s s' : Miner M} {durationMs : UInt32} {id : UInt64}
    (h : s.start durationMs id = .ok s') :
    ∃ t : Task M, s'.tasks = s.tasks ++ [t] ∧ t.channel = s.nextChannel ∧ t.pc = .spawned ∧
      (t.worker.easyComplexity, t.worker.hardComplexity) = s.complexity ∧
      s.shared.seeds = t.worker.seed :: s'.shared.seeds ∧
      s'.shared.submissions = s.shared.submissions ∧ s'.nextChannel = s.nextChannel + 1 ∧
      s'.complexity = s.complexity := by
  rw [start] at h
  split at h
  · cases h
  · split at h
    · cases h
    · rename_i seed seeds hseeds
      rw [← Except.ok.inj h]
      exact ⟨_, rfl, rfl, rfl, rfl, hseeds, rfl, rfl, rfl⟩

/-! ## Pieces of tasks -/

/-- What a task can mine after a piece. -/
theorem mem_mined_piece {s : Miner M} {i : ℕ} {wake : Wake} {t : Task M} {shared : Shared}
    {outcome : Option (Task M)} {m : Mined} (ht : s.tasks[i]? = some t)
    (h : t.Mining s.shared wake shared outcome)
    (hm : m ∈ (s.afterPiece shared (settle s.tasks i outcome)).mined) :
    m ∈ s.mined ∨ ∃ account startMs nowMs sessionInFlight,
      wake = .accountRead account startMs nowMs ∧ t.pc = .fetchingAccount sessionInFlight ∧
        m = t.minedOf account sessionInFlight := by
  obtain ⟨hbefore, hafter⟩ := settle_perm ht outcome
  have hother : ∀ t' ∈ settle s.tasks i outcome, t' ∈ outcome ∨ t' ∈ s.tasks := by
    intro t' ht'
    rcases List.mem_append.mp (hafter.mem_iff.mp ht') with ht' | ht'
    · exact .inl (Option.mem_toList.mp ht')
    · exact .inr (hbefore.mem_iff.mpr (List.mem_cons_of_mem t ht'))
  have hproduces : ∀ m₀, Produces m₀ s.shared shared outcome → m ∈ s.mined ∨ m = m₀ := by
    intro m₀ hproduces
    rcases mem_mined_iff.mp hm with ⟨t', ht', cores, hcores, hm⟩ | ⟨x, hx, hm⟩
    · rcases hother t' ht' with ht' | ht'
      · obtain ⟨cores', hcores', hm'⟩ := hproduces.task t' ht'
        obtain rfl := Option.some.inj (hcores.symm.trans hcores')
        exact .inr (hm.symm.trans hm')
      · exact .inl (mem_mined_iff.mpr (.inl ⟨t', ht', cores, hcores, hm⟩))
    · rcases hproduces.submissions x hx with hx | hx
      · exact .inl (mem_mined_iff.mpr (.inr ⟨x, hx, hm⟩))
      · exact .inr (hm.symm.trans hx)
  cases h with
  | begin hpc =>
      left
      rcases mem_mined_iff.mp hm with ⟨t', ht', cores, hcores, hm⟩ | hsubmitted
      · rcases hother t' ht' with ht' | ht'
        · obtain rfl := Option.some.inj ht'
          cases hcores
        · exact mem_mined_iff.mpr (.inl ⟨t', ht', cores, hcores, hm⟩)
      · exact mem_mined_iff.mpr (.inr hsubmitted)
  | read account startMs nowMs sessionInFlight _ _ hpc h =>
      rcases hproduces _ h with hm | hm
      · exact .inl hm
      · exact .inr ⟨account, startMs, nowMs, sessionInFlight, rfl, hpc, hm⟩
  | proceed _ cores _ _ hpc h =>
      left
      rcases hproduces _ h with hm | hm
      · exact hm
      · have hmem := List.mem_of_getElem? ht
        exact mem_mined_iff.mpr (.inl ⟨t, hmem, cores, hpc, hm.symm⟩)

theorem mem_active_piece {s : Miner M} {i : ℕ} {t : Task M} {shared : Shared}
    {outcome : Option (Task M)} {seed : String} (ht : s.tasks[i]? = some t)
    (h : t.Moves s.shared shared outcome)
    (hseed : seed ∈ (s.afterPiece shared (settle s.tasks i outcome)).active) :
    seed ∈ s.active := by
  obtain ⟨hbefore, hafter⟩ := settle_perm ht outcome
  have hmem := List.mem_of_getElem? ht
  rw [mem_active_iff] at hseed ⊢
  rcases hseed with ⟨t', ht', rfl⟩ | hqueued
  · left
    rcases List.mem_append.mp (hafter.mem_iff.mp ht') with ht' | ht'
    · obtain rfl := Option.mem_toList.mp ht'
      exact ⟨t, hmem, by rw [h.sameTask.2]⟩
    · exact ⟨t', hbefore.mem_iff.mpr (List.mem_cons_of_mem t ht'), rfl⟩
  · cases h with
    | begin => exact .inr hqueued
    | stay => exact .inr hqueued
    | submit => exact .inr hqueued
    | finish => exact .inr hqueued
    | giveBack =>
        -- The task gave its own seed back.
        rcases List.mem_cons.mp hqueued with rfl | hqueued
        · exact .inl ⟨t, hmem, rfl⟩
        · exact .inr hqueued

/-- The channels stay different, and the other tasks have other channels. -/
theorem channels_piece {s : Miner M} {i : ℕ} {t : Task M} {shared : Shared}
    {outcome : Option (Task M)} (hnodup : (s.tasks.map Task.channel).Nodup)
    (ht : s.tasks[i]? = some t) (h : t.Moves s.shared shared outcome) :
    ((settle s.tasks i outcome).map Task.channel).Nodup ∧
      ∀ t' ∈ settle s.tasks i outcome,
        t' ∈ outcome ∨ t' ∈ s.tasks ∧ t'.channel ≠ t.channel := by
  obtain ⟨hbefore, hafter⟩ := settle_perm ht outcome
  have hcons := (hbefore.map Task.channel).nodup_iff.mp hnodup
  rw [List.map_cons, List.nodup_cons] at hcons
  obtain ⟨hnew, hrest⟩ := hcons
  constructor
  · rw [(hafter.map Task.channel).nodup_iff]
    cases outcome with
    | none => exact hrest
    | some t' =>
        rw [Option.toList_some, List.singleton_append, List.map_cons, h.sameTask.1]
        exact List.nodup_cons.mpr ⟨hnew, hrest⟩
  · intro t' ht'
    rcases List.mem_append.mp (hafter.mem_iff.mp ht') with ht' | ht'
    · exact .inl (Option.mem_toList.mp ht')
    · refine .inr ⟨hbefore.mem_iff.mpr (List.mem_cons_of_mem t ht'), ?_⟩
      intro hchannel
      apply hnew
      rw [← hchannel]
      exact List.mem_map_of_mem ht'

end Miner

end BeeEngine
