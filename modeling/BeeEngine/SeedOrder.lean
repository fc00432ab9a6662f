import BeeEngine.MinerSessions

/-!
# Where the seeds of a miner are

No piece of a task, call or event loses or repeats a seed.  The order of the
submissions follows from the pipeline of one session at a time.
-/

namespace BeeEngine

open Transition

variable {M : RsMerkle} {blake3 : Bytes → Bytes32}

namespace Miner

/-- The seeds that are reported, with one task, or in the queue. -/
def heldSeeds (s : Miner M) : List String :=
  s.shared.reported ++ s.tasks.map (fun t ↦ t.worker.seed) ++ s.shared.seeds

/-- Every received seed is in exactly one place. -/
def SeedsConserved (s : Miner M) : Prop := s.received.Perm s.heldSeeds

/-- When a seed was submitted, all seeds received before it were reported. -/
def SubmitsInOrder (s : Miner M) : Prop :=
  ∀ x ∈ s.shared.submissions, ∃ earlier later,
    s.received = earlier ++ x.seed :: later ∧ earlier.Subperm x.reported

/-! ## Conservation -/

theorem count_settle (seed : String) {tasks : List (Task M)} {i : ℕ} {t : Task M}
    (ht : tasks[i]? = some t) (o : Option (Task M)) :
    ((settle tasks i o).map fun t ↦ t.worker.seed).count seed + [t.worker.seed].count seed =
      (tasks.map fun t ↦ t.worker.seed).count seed +
        (o.toList.map fun t ↦ t.worker.seed).count seed := by
  obtain ⟨hbefore, hafter⟩ := settle_perm ht o
  have htasks := (hbefore.map fun t ↦ t.worker.seed).count_eq seed
  have hsettled := (hafter.map fun t ↦ t.worker.seed).count_eq seed
  rw [htasks, hsettled]
  simp [List.count_cons]
  omega

/-- A move of a task keeps its seed somewhere. -/
theorem count_moves (seed : String) {s s' : Shared} {t : Task M} {o : Option (Task M)}
    (h : t.Moves s s' o) :
    s'.reported.count seed + (o.toList.map fun t ↦ t.worker.seed).count seed +
        s'.seeds.count seed =
      s.reported.count seed + [t.worker.seed].count seed + s.seeds.count seed := by
  cases h with
  | begin t' hfrom hto hsame => simp [Shared.reported, hsame.2]
  | stay t' hfrom hto hsame => simp [hsame.2]
  | submit t' x hfrom hto hsame hfree hx => simp [Shared.reported, hsame.2]
  | giveBack hfrom =>
      rw [reported_shutdownWorker_unused]
      simp [Shared.reported, Shared.shutdownWorker, List.count_cons]
      omega
  | finish corrupted hfrom =>
      rw [reported_shutdownWorker_used]
      simp [Shared.shutdownWorker]

theorem heldSeeds_send (s : Miner M) (sender : ℕ) (command : MinerCommand) :
    (s.send sender command).heldSeeds = s.heldSeeds := by
  simp [heldSeeds, send, Function.comp_def]

theorem heldSeeds_sends (s : Miner M) (command : MinerCommand) (workers : List MinerWorker) :
    (workers.foldl (fun s w ↦ s.send w.sender command) s).heldSeeds = s.heldSeeds := by
  induction workers generalizing s with
  | nil => rfl
  | cons w workers ih => exact (ih _).trans (heldSeeds_send s w.sender command)

theorem count_advance (seed : String) {s : Miner M} {s' : Shared} {i : ℕ} {t : Task M}
    {o : Option (Task M)} (ht : s.tasks[i]? = some t) (h : t.Moves s.shared s' o) :
    (s.afterPiece s' (settle s.tasks i o)).heldSeeds.count seed = s.heldSeeds.count seed := by
  have hsettle := count_settle seed ht o
  have hmoves := count_moves seed h
  simp only [heldSeeds, afterPiece_shared, afterPiece_tasks, List.count_append]
  omega

theorem heldSeeds_start {s s' : Miner M} {durationMs : UInt32} {id : UInt64}
    (h : s.start durationMs id = .ok s') :
    s'.heldSeeds.Perm s.heldSeeds ∧ s'.received = s.received := by
  rw [start] at h
  split at h
  · cases h
  · split at h
    · cases h
    · rename_i seed seeds hseeds
      rw [← Except.ok.inj h]
      exact ⟨by simp [heldSeeds, Shared.reported, hseeds], rfl⟩

theorem heldSeeds_stop (s : Miner M) :
    s.stop.heldSeeds = s.heldSeeds ∧ s.stop.received = s.received := by
  rw [stop]
  exact ⟨heldSeeds_sends _ _ _, (sends_record _ _ _).1⟩

theorem heldSeeds_sendTo (s : Miner M) (workerId : UInt64) (command : MinerCommand) :
    (s.sendTo workerId command).heldSeeds = s.heldSeeds ∧
      (s.sendTo workerId command).received = s.received := by
  rw [sendTo]
  split
  · exact ⟨heldSeeds_send s _ _, rfl⟩
  · exact ⟨rfl, rfl⟩

theorem SeedsConserved.handleSessionResult {s : Miner M} (h : s.SeedsConserved) (data : String)
    (command : MinerCommand) : (s.handleSessionResult data command).SeedsConserved := by
  rw [Miner.handleSessionResult]
  split
  · exact h
  · obtain ⟨hheld, hreceived⟩ := heldSeeds_sendTo s _ command
    rw [SeedsConserved, hheld, hreceived]
    exact h

theorem SeedsConserved.handleEvent {s : Miner M} (h : s.SeedsConserved) (e : MinerEvent) :
    (s.handleEvent e).SeedsConserved := by
  cases e with
  | sessionInterval data =>
      obtain ⟨hheld, hreceived⟩ := heldSeeds_sendTo s data.workerId (.sendSessionInterval data)
      exact (List.Perm.of_eq hreceived).trans (h.trans (List.Perm.of_eq hheld.symm))
  | seedUpdated nextSeed =>
      have happend := List.Perm.append_right [nextSeed] h
      rw [heldSeeds, List.append_assoc] at happend
      exact happend
  | complexityUpdated easy hard => exact h
  | sessionAccepted data wasmResult => exact h.handleSessionResult data _
  | sessionRejected data wasmResult => exact h.handleSessionResult data _

/-- Only the removal of a seed by hand loses it. -/
theorem SeedsConserved.step {s s' : Miner M} (h : s.SeedsConserved) {l : Label}
    (hremove : ¬IsRemoveSeed l) (hstep : s.Step blake3 l s') : s'.SeedsConserved := by
  cases l with
  | start durationMs id =>
      obtain rfl := Option.some.inj hstep
      cases hstart : s.start durationMs id with
      | error e => exact h
      | ok s' =>
          obtain ⟨hheld, hreceived⟩ := heldSeeds_start hstart
          exact (List.Perm.of_eq hreceived).trans (h.trans hheld.symm)
  | stop =>
      obtain rfl := Option.some.inj hstep
      obtain ⟨hheld, hreceived⟩ := heldSeeds_stop s
      exact (List.Perm.of_eq hreceived).trans (h.trans (List.Perm.of_eq hheld.symm))
  | addTap x y =>
      obtain rfl := Option.some.inj hstep
      rw [addTap]
      split
      · exact h.trans (List.Perm.of_eq (heldSeeds_send s _ _).symm)
      · exact h
  | removeSeed seed => exact absurd trivial hremove
  | event e =>
      obtain rfl := Option.some.inj hstep
      exact h.handleEvent e
  | task i wake =>
      obtain ⟨t, ht, hstep⟩ := Option.bind_eq_some_iff.mp hstep
      obtain ⟨⟨shared, outcome⟩, hadvance, hstep⟩ := Option.bind_eq_some_iff.mp hstep
      obtain rfl := Option.some.inj hstep
      refine h.trans (List.perm_iff_count.mpr ?_)
      intro seed
      exact (count_advance seed ht (Task.moves_of_advance hadvance)).symm

theorem seedsConserved_of_run {seeds : List String} {complexity : UInt32 × UInt32}
    {ls : List Label} {s : Miner M}
    (h : Run (Guarded (fun _ l ↦ ¬IsRemoveSeed l) (Step blake3)) (init M seeds complexity) ls s) :
    s.SeedsConserved := by
  refine Run.invariant SeedsConserved ?_ (List.Perm.of_eq (by simp [heldSeeds, init,
    Shared.reported])) h
  rintro s l s' hs ⟨hremove, hstep⟩
  exact hs.step hremove hstep

/-! ## Order -/

/-- The received seeds, in order, are the line of the pipeline. -/
structure InLine (s : Miner M) : Prop where
  serial : ∃ sub early, s.Serial sub early ∧ s.received = (s.view sub early).line
  submits : s.SubmitsInOrder

theorem InLine.step {s s' : Miner M} (h : s.InLine) {l : Label} (horderly : s.Orderly l)
    (hremove : ¬IsRemoveSeed l) (hstep : s.Step blake3 l s') : s'.InLine := by
  obtain ⟨⟨sub, early, hserial, hline⟩, hsubmits⟩ := h
  obtain ⟨sub', early', hserial', hrecorded⟩ := hserial.step horderly hstep
  rcases hrecorded hremove with ⟨hstep, hreceived, hsame⟩ | ⟨seed, hq, hreceived, hsame⟩ |
    ⟨x, hstep, hreceived, hnew, hlast, hfirst, hreported⟩
  · refine ⟨⟨sub', early', hserial', ?_⟩, ?_⟩
    · rw [hstep.line_eq, hreceived, hline]
    · rw [SubmitsInOrder, hsame, hreceived]
      exact hsubmits
  · refine ⟨⟨sub', early', hserial', ?_⟩, ?_⟩
    · rw [hq, Pipeline.line_arrive, hreceived, hline]
    · intro x hx
      rw [hsame] at hx
      obtain ⟨earlier, later, hsplit, hearlier⟩ := hsubmits x hx
      refine ⟨earlier, later ++ [seed], ?_, hearlier⟩
      rw [hreceived, hsplit, List.append_assoc, List.cons_append]
  · refine ⟨⟨sub', early', hserial', ?_⟩, ?_⟩
    · rw [hstep.line_eq, hreceived, hline]
    · intro y hy
      rw [hnew] at hy
      rw [hreceived]
      rcases List.mem_append.mp hy with hy | hy
      · exact hsubmits y hy
      · -- The new submission is of the first seed that is not yet reported.
        obtain rfl := List.mem_singleton.mp hy
        refine ⟨s.shared.reported, s.shared.seeds, ?_, ?_⟩
        · rw [hline]
          exact Pipeline.line_of_promotable hlast hfirst
        · rw [hreported]
          exact List.Subperm.refl _

theorem inLine_init (seeds : List String) (complexity : UInt32 × UInt32) :
    (init M seeds complexity).InLine where
  serial := ⟨none, none, serial_init seeds complexity, rfl⟩
  submits x hx := by cases hx

/-- Seeds are conserved and submitted in order, in every state that orderly
steps reach. -/
theorem seeds_of_run {seeds : List String} {complexity : UInt32 × UInt32} {ls : List Label}
    {s : Miner M}
    (h : Run (Guarded (fun s l ↦ s.Orderly l ∧ ¬IsRemoveSeed l) (Step blake3))
      (init M seeds complexity) ls s) :
    s.SeedsConserved ∧ s.SubmitsInOrder := by
  constructor
  · apply seedsConserved_of_run
    refine h.mono ?_
    rintro s l s' ⟨⟨-, hremove⟩, hstep⟩
    exact ⟨hremove, hstep⟩
  · refine (Run.invariant InLine ?_ (inLine_init seeds complexity) h).submits
    rintro s l s' hs ⟨⟨horderly, hremove⟩, hstep⟩
    exact hs.step horderly hremove hstep

theorem seeds_twoSessions :
    ∃ s, Run (Guarded (fun s l ↦ s.Orderly l ∧ ¬IsRemoveSeed l) (Step Blake3.hash))
        (init (RsMerkle.reference Blake3.hash) ["a", "b"] (0, 0)) twoSessions s ∧
      s.shared.submissions.map Submission.seed = ["a"] ∧ s.SeedsConserved ∧ s.SubmitsInOrder := by
  have hrun : ((run? (guard? (fun s l ↦ s.Orderly l ∧ ¬IsRemoveSeed l) (step? Blake3.hash))
      (init (RsMerkle.reference Blake3.hash) ["a", "b"] (0, 0)) twoSessions).map fun s ↦
        s.shared.submissions.map Submission.seed) = some ["a"] := by
    decide +kernel
  obtain ⟨s, hs, hseeds⟩ := Option.map_eq_some_iff.mp hrun
  have hrun := run_guarded_of_run? hs
  exact ⟨s, hrun, hseeds, seeds_of_run hrun⟩

/-- The worker of the second seed submits while the first seed waits. -/
def overtaking : List Label :=
  [.start 1000 1, .start 1000 2, .task 1 .begin, .addTap 3 4,
    .task 1 (.accountRead (.error "timeout") 0 0), .task 1 (.tick 500), .task 1 (.tick 1000)]

theorem not_submitsInOrder :
    ∃ s, Run (Step Blake3.hash) (init (RsMerkle.reference Blake3.hash) ["a", "b"] (0, 0))
      overtaking s ∧ ¬s.SubmitsInOrder := by
  have hrun : ((mineTwoSeeds overtaking).map fun s ↦
      (s.received, s.shared.submissions.map fun x ↦ (x.seed, x.reported))) =
        some (["a", "b"], [("b", [])]) := by decide +kernel
  obtain ⟨s, hs, hvalues⟩ := Option.map_eq_some_iff.mp hrun
  obtain ⟨hreceived, hsubmissions⟩ := Prod.mk.inj hvalues
  refine ⟨s, run?_eq_some_iff.mp hs, ?_⟩
  intro h
  have hmem : ("b", []) ∈ s.shared.submissions.map fun x ↦ (x.seed, x.reported) := by
    rw [hsubmissions]
    exact List.mem_singleton_self _
  obtain ⟨x, hx, hvalues⟩ := List.mem_map.mp hmem
  obtain ⟨hseed, hreported⟩ := Prod.mk.inj hvalues
  obtain ⟨earlier, later, hsplit, hearlier⟩ := h x hx
  rw [hreported, List.subperm_nil] at hearlier
  rw [hreceived, hseed, hearlier] at hsplit
  exact absurd (List.cons.inj hsplit).1 (by decide)

end Miner

end BeeEngine
