import BeeEngine.Lib.Pipeline
import BeeEngine.MinerMoves

/-!
# Sessions of one miner

A miner is meant to work on its seeds as a pipeline: one task computes while at
most one other submits.  The code keeps to this as long as no call of `start`
or `stop` comes between a `start` and the first piece of its task, and the
random worker ids differ.
-/

namespace BeeEngine

open Transition

variable {M : RsMerkle} {blake3 : Bytes → Bytes32}

/-! ## What is claimed of a state -/

def Pc.isComputing : Pc M → Bool
  | .computing _ _ => true
  | _ => false

def Pc.isSubmitting (pc : Pc M) : Bool := pc.status = .submitting

namespace Miner

/-- At most one task computes and at most one submits, the workers list says
so, and no worker removed by `stop` does either. -/
structure OneSession (s : Miner M) : Prop where
  computing_le_one : (s.tasks.filter fun t ↦ t.pc.isComputing).length ≤ 1
  submitting_le_one : (s.tasks.filter fun t ↦ t.pc.isSubmitting).length ≤ 1
  computing_listed : ∀ t ∈ s.tasks, t.pc.isComputing = true →
    ∃ w ∈ s.shared.workers, w.sender = t.channel ∧ w.status = .computing
  submitting_listed : ∀ t ∈ s.tasks, t.pc.isSubmitting = true →
    ∃ w ∈ s.shared.workers, w.sender = t.channel ∧ w.status = .submitting
  stopped_idle : ∀ t ∈ s.tasks, t.channel ∈ s.stopped →
    t.pc.isComputing = false ∧ t.pc.isSubmitting = false

/-- No `stop` and no successful `start` while a worker is queued, and fresh
worker ids. -/
def Orderly (s : Miner M) : Label → Prop
  | .start _ id => s.canStart = true →
      (∀ w ∈ s.shared.workers, w.status ≠ .queued) ∧ ∀ w ∈ s.shared.workers, w.id ≠ id
  | .stop => ∀ w ∈ s.shared.workers, w.status ≠ .queued
  | _ => True

instance (s : Miner M) : (l : Label) → Decidable (s.Orderly l)
  | .start _ id => inferInstanceAs (Decidable (s.canStart = true →
      (∀ w ∈ s.shared.workers, w.status ≠ .queued) ∧ ∀ w ∈ s.shared.workers, w.id ≠ id))
  | .stop => inferInstanceAs (Decidable (∀ w ∈ s.shared.workers, w.status ≠ .queued))
  | .addTap _ _ => isTrue trivial
  | .removeSeed _ => isTrue trivial
  | .event _ => isTrue trivial
  | .task _ _ => isTrue trivial

def IsRemoveSeed : Label → Prop
  | .removeSeed _ => True
  | _ => False

instance : (l : Label) → Decidable (IsRemoveSeed l)
  | .removeSeed _ => isTrue trivial
  | .start _ _ | .stop | .addTap _ _ | .event _ | .task _ _ => isFalse nofun

/-! ## The workers list -/

theorem updateWorkerStatus_append {id : UInt64} {status : MinerStatus} {ws : List MinerWorker}
    {w : MinerWorker} (hws : ∀ v ∈ ws, v.id ≠ id) (hw : w.id = id) (rest : List MinerWorker) :
    updateWorkerStatus id status (ws ++ w :: rest) = ws ++ { w with status := status } :: rest := by
  induction ws with
  | nil => rw [List.nil_append, updateWorkerStatus, if_pos hw, List.nil_append]
  | cons v ws ih =>
      obtain ⟨hv, hws⟩ := List.forall_mem_cons.mp hws
      rw [List.cons_append, updateWorkerStatus, if_neg hv, ih hws, List.cons_append]

theorem filter_updateWorkerStatus (id : UInt64) (status : MinerStatus) (ws : List MinerWorker) :
    ((updateWorkerStatus id status ws).filter fun w ↦ w.id ≠ id) =
      ws.filter fun w ↦ w.id ≠ id := by
  induction ws with
  | nil => rfl
  | cons w ws ih =>
      rw [updateWorkerStatus]
      by_cases hw : w.id = id
      · simp [hw]
      · simp only [hw, if_false, ne_eq, not_false_eq_true, decide_true, List.filter_cons_of_pos]
        rw [ih]

/-- Removing the one worker with an id. -/
theorem workers_shutdownWorker {s : Shared} (worker : MinerWorker) (used corrupted : Bool)
    {ws : List MinerWorker} {w : MinerWorker} {rest : List MinerWorker}
    (hworkers : s.workers = ws ++ w :: rest) (hw : w.id = worker.id)
    (hws : ∀ v ∈ ws, v.id ≠ worker.id) (hrest : ∀ v ∈ rest, v.id ≠ worker.id) :
    (s.shutdownWorker worker used corrupted).workers = ws ++ rest := by
  have hkeep : ∀ l : List MinerWorker, (∀ v ∈ l, v.id ≠ worker.id) →
      (l.filter fun v ↦ v.id ≠ worker.id) = l := by
    intro l hl
    rw [List.filter_eq_self]
    intro v hv
    simpa using hl v hv
  simp only [Shared.shutdownWorker]
  rw [filter_updateWorkerStatus, hworkers, List.filter_append, hkeep ws hws,
    List.filter_cons_of_neg (by simpa using hw), hkeep rest hrest]

/-! ## The pipeline of a state -/

/-- The live tasks are at most one that submits and at most one before that,
and the workers list shows exactly them. -/
structure Serial (s : Miner M) (sub early : Option (Task M)) : Prop where
  tasks_eq : s.tasks = sub.toList ++ early.toList
  sub_status : ∀ t ∈ sub, t.pc.status = .submitting
  early_status : ∀ t ∈ early, t.pc.status ≠ .submitting
  workers_eq : s.shared.workers = (sub.toList ++ early.toList).map Task.entry
  ids : ∀ a ∈ sub, ∀ b ∈ early, a.worker.id ≠ b.worker.id
  sender_eq : ∀ t ∈ s.tasks, t.worker.sender = t.channel
  stopped_eq : s.stopped = []

/-- The seeds of a state, by where they are. -/
def view (s : Miner M) (sub early : Option (Task M)) : Pipeline String where
  finished := s.shared.reported
  last := sub.map fun t ↦ t.worker.seed
  first := early.map fun t ↦ t.worker.seed
  waiting := s.shared.seeds

/-- What a step does to the record: nothing, the arrival of a seed, or the
submission of the seed in the first stage while the last stage is free. -/
inductive Recorded (s s' : Miner M) (p q : Pipeline String) : Prop
  | quiet (hstep : Pipeline.Step p q) (hreceived : s'.received = s.received)
      (hsubmissions : s'.shared.submissions = s.shared.submissions)
  | arrived (seed : String) (hq : q = p.arrive seed) (hreceived : s'.received = s.received ++ [seed])
      (hsubmissions : s'.shared.submissions = s.shared.submissions)
  | submitted (x : Submission) (hstep : Pipeline.Step p q) (hreceived : s'.received = s.received)
      (hsubmissions : s'.shared.submissions = s.shared.submissions ++ [x])
      (hlast : p.last = none) (hfirst : p.first = some x.seed) (hreported : x.reported = p.finished)

theorem serial_init (seeds : List String) (complexity : UInt32 × UInt32) :
    (init M seeds complexity).Serial none none where
  tasks_eq := rfl
  sub_status t h := by cases h
  early_status t h := by cases h
  workers_eq := rfl
  ids a h := by cases h
  sender_eq t h := by cases h
  stopped_eq := rfl

/-! ### Moves of the submitting task -/

theorem reported_shutdownWorker_used (s : Shared) (worker : MinerWorker) (corrupted : Bool) :
    (s.shutdownWorker worker true corrupted).reported = s.reported ++ [worker.seed] := by
  simp [Shared.reported, Shared.shutdownWorker]

theorem reported_shutdownWorker_unused (s : Shared) (worker : MinerWorker) (corrupted : Bool) :
    (s.shutdownWorker worker false corrupted).reported = s.reported := by
  simp [Shared.reported, Shared.shutdownWorker]

theorem Serial.moveSub {s : Miner M} {a : Task M} {early : Option (Task M)}
    (h : s.Serial (some a) early) {shared : Shared} {outcome : Option (Task M)}
    (hmove : a.Moves s.shared shared outcome) :
    Serial (s.afterPiece shared (outcome.toList ++ early.toList)) outcome early ∧
      Recorded s (s.afterPiece shared (outcome.toList ++ early.toList)) (s.view (some a) early)
        (view (s.afterPiece shared (outcome.toList ++ early.toList)) outcome early) := by
  have hstatus := h.sub_status a rfl
  have htasks := h.tasks_eq
  have hworkers := h.workers_eq
  have hsender := h.sender_eq a (by simp [htasks])
  have hearly : ∀ t ∈ early, t.worker.sender = t.channel := fun t ht ↦
    h.sender_eq t (by simp [htasks, Option.mem_def.mp ht])
  cases hmove with
  | begin t' hfrom => exact absurd (hstatus.symm.trans hfrom) (by decide)
  | submit t' x hfrom => exact absurd (hstatus.symm.trans hfrom) (by decide)
  | giveBack hfrom => exact absurd (hstatus.symm.trans hfrom) (by decide)
  | stay t' hfrom hto hsame =>
      obtain ⟨hchannel, hworker⟩ := hsame
      have hentry : t'.entry = a.entry := by rw [Task.entry, Task.entry, hto, hworker]
      refine ⟨⟨rfl, ?_, h.early_status, ?_, ?_, ?_, h.stopped_eq⟩, ?_⟩
      · rintro t ⟨⟩
        exact hto.trans hstatus
      · simp [hworkers, hentry]
      · rintro t ⟨⟩ b hb
        rw [hworker]
        exact h.ids a rfl b hb
      · intro t ht
        rcases List.mem_append.mp ht with ht | ht
        · obtain rfl := Option.some.inj (Option.mem_toList.mp ht)
          rw [hworker, hchannel, hsender]
        · exact hearly t (Option.mem_toList.mp ht)
      · have hview : view (s.afterPiece s.shared ((some t').toList ++ early.toList)) (some t')
            early = s.view (some a) early := by simp [view, hworker]
        rw [hview]
        exact .quiet (.idle _) rfl rfl
  | finish corrupted hfrom =>
      have hrest : ∀ v ∈ early.toList.map Task.entry, v.id ≠ a.worker.id := by
        intro v hv
        obtain ⟨b, hb, rfl⟩ := List.mem_map.mp hv
        exact (h.ids a rfl b (Option.mem_toList.mp hb)).symm
      have hworkers' : s.shared.workers = [] ++ a.entry :: early.toList.map Task.entry := by
        rw [hworkers]
        simp
      have hremoved := workers_shutdownWorker a.worker true corrupted hworkers' rfl (by simp) hrest
      refine ⟨⟨rfl, ?_, h.early_status, ?_, ?_, ?_, h.stopped_eq⟩, ?_⟩
      · rintro t ⟨⟩
      · simp [hremoved]
      · rintro t ⟨⟩
      · intro t ht
        exact hearly t (Option.mem_toList.mp ht)
      · refine .quiet ?_ rfl rfl
        simp only [view, afterPiece_shared, reported_shutdownWorker_used]
        exact .finish _ _ _ _

/-! ### Moves of the other task -/

theorem Serial.moveEarly {s : Miner M} {b : Task M} {sub : Option (Task M)}
    (h : s.Serial sub (some b)) {shared : Shared} {outcome : Option (Task M)}
    (hmove : b.Moves s.shared shared outcome) :
    ∃ sub' early', Serial (s.afterPiece shared (sub.toList ++ outcome.toList)) sub' early' ∧
      Recorded s (s.afterPiece shared (sub.toList ++ outcome.toList)) (s.view sub (some b))
        (view (s.afterPiece shared (sub.toList ++ outcome.toList)) sub' early') := by
  have hstatus := h.early_status b rfl
  have htasks := h.tasks_eq
  have hsender := h.sender_eq b (by simp [htasks])
  have hsub : ∀ t ∈ sub, t.worker.sender = t.channel := fun t ht ↦
    h.sender_eq t (by simp [htasks, Option.mem_def.mp ht])
  have hbefore : ∀ v ∈ sub.toList.map Task.entry, v.id ≠ b.worker.id := by
    intro v hv
    obtain ⟨a, ha, rfl⟩ := List.mem_map.mp hv
    exact h.ids a (Option.mem_toList.mp ha) b rfl
  have hworkers : s.shared.workers = sub.toList.map Task.entry ++ b.entry :: [] := by
    rw [h.workers_eq]
    simp
  have hupdate : ∀ status, updateWorkerStatus b.worker.id status s.shared.workers =
      sub.toList.map Task.entry ++ [{ b.entry with status := status }] := by
    intro status
    rw [hworkers]
    exact updateWorkerStatus_append (w := b.entry) hbefore rfl []
  -- A task that goes on before its submission keeps its place.
  have hkeep : ∀ (t' : Task M) (workers : List MinerWorker), t'.pc.status ≠ .submitting →
      b.SameTask t' → workers = sub.toList.map Task.entry ++ [t'.entry] →
      Serial (s.afterPiece { s.shared with workers := workers } (sub.toList ++ [t'])) sub
          (some t') ∧
        Recorded s (s.afterPiece { s.shared with workers := workers } (sub.toList ++ [t']))
          (s.view sub (some b))
          (view (s.afterPiece { s.shared with workers := workers } (sub.toList ++ [t'])) sub
            (some t')) := by
    rintro t' workers hto ⟨hchannel, hworker⟩ hlist
    refine ⟨⟨rfl, h.sub_status, ?_, ?_, ?_, ?_, h.stopped_eq⟩, ?_⟩
    · rintro t ⟨⟩
      exact hto
    · simp [hlist]
    · rintro a ha t ⟨⟩
      rw [hworker]
      exact h.ids a ha b rfl
    · intro t ht
      rcases List.mem_append.mp ht with ht | ht
      · exact hsub t (Option.mem_toList.mp ht)
      · obtain rfl := List.mem_singleton.mp ht
        rw [hworker, hchannel, hsender]
    · refine .quiet ?_ rfl rfl
      have hview : view (s.afterPiece { s.shared with workers := workers } (sub.toList ++ [t']))
          sub (some t') = s.view sub (some b) := by
        simp [view, afterPiece_shared, Shared.reported, hworker]
      rw [hview]
      exact .idle _
  cases hmove with
  | finish corrupted hfrom => exact absurd hfrom hstatus
  | begin t' hfrom hto hsame =>
      refine ⟨sub, some t', hkeep t' _ (by rw [hto]; decide) hsame ?_⟩
      rw [hupdate, Task.entry, Task.entry, hto, hsame.2]
  | stay t' hfrom hto hsame =>
      refine ⟨sub, some t', hkeep t' _ (hto ▸ hstatus) hsame ?_⟩
      rw [hworkers, Task.entry, Task.entry, hto, hsame.2]
  | submit t' x hfrom hto hsame hfree hx =>
      obtain ⟨hchannel, hworker⟩ := hsame
      -- The list shows no submitting worker, so there is no submitting task.
      have hnone : sub = none := by
        cases hsubEq : sub with
        | none => rfl
        | some a =>
            have hany : s.shared.anySubmitting = true := by
              rw [Shared.anySubmitting, hworkers, List.any_eq_true]
              refine ⟨a.entry, by simp [hsubEq], ?_⟩
              exact decide_eq_true (h.sub_status a hsubEq)
            exact absurd (hany.symm.trans hfree) (by decide)
      subst hnone
      refine ⟨some t', none, ⟨rfl, ?_, ?_, ?_, ?_, ?_, h.stopped_eq⟩, ?_⟩
      · rintro t ⟨⟩
        exact hto
      · rintro t ⟨⟩
      · simp [hupdate, Task.entry, hto, hworker]
      · rintro a ⟨⟩ t ⟨⟩
      · intro t ht
        obtain rfl := List.mem_singleton.mp ht
        rw [hworker, hchannel, hsender]
      · refine .submitted x ?_ rfl rfl rfl (by rw [Submission.seed, hx.1]; rfl) hx.2
        simp only [view, afterPiece_shared, Shared.reported, Option.map_some, Option.map_none,
            hworker]
        exact .promote _ _ _
  | giveBack hfrom =>
      have hworkers' : Shared.workers { s.shared with seeds := b.worker.seed :: s.shared.seeds } =
          sub.toList.map Task.entry ++ b.entry :: [] := hworkers
      have hremoved := workers_shutdownWorker b.worker false false hworkers' rfl hbefore (by simp)
      refine ⟨sub, none, ⟨rfl, h.sub_status, ?_, ?_, ?_, ?_, h.stopped_eq⟩, ?_⟩
      · rintro t ⟨⟩
      · simp [hremoved]
      · rintro a ha t ⟨⟩
      · intro t ht
        exact hsub t (Option.mem_toList.mp (by simpa using ht))
      · refine .quiet ?_ rfl rfl
        simp only [view, afterPiece_shared, reported_shutdownWorker_unused]
        exact .giveBack _ _ _ _

/-! ### Steps -/

/-- The task at a position, and the list after its move. -/
theorem Serial.task_cases {s : Miner M} {sub early : Option (Task M)} (h : s.Serial sub early)
    {i : ℕ} {t : Task M} (ht : s.tasks[i]? = some t) :
    (sub = some t ∧ ∀ o : Option (Task M), settle s.tasks i o = o.toList ++ early.toList) ∨
      (early = some t ∧ ∀ o : Option (Task M), settle s.tasks i o = sub.toList ++ o.toList) := by
  rw [h.tasks_eq] at ht ⊢
  cases sub with
  | none =>
      right
      cases early with
      | none => simp at ht
      | some b =>
          cases i with
          | zero =>
              refine ⟨by simpa using ht, ?_⟩
              rintro (_ | o) <;> rfl
          | succ i => simp at ht
  | some a =>
      cases i with
      | zero =>
          refine Or.inl ⟨by simpa using ht, ?_⟩
          rintro (_ | o) <;> rfl
      | succ i =>
          right
          cases early with
          | none => simp at ht
          | some b =>
              cases i with
              | zero =>
                  refine ⟨by simpa using ht, ?_⟩
                  rintro (_ | o) <;> rfl
              | succ i => simp at ht

theorem Serial.send {s : Miner M} {sub early : Option (Task M)} (h : s.Serial sub early)
    (sender : ℕ) (command : MinerCommand) :
    ∃ sub' early', (s.send sender command).Serial sub' early' ∧
      (s.send sender command).view sub' early' = s.view sub early := by
  have hfix : ∀ o : Option (Task M),
      ((o.map (Task.deliver sender command)).toList.map Task.entry) = o.toList.map Task.entry := by
    rintro (_ | t)
    · rfl
    · simp
  have hmap : ∀ o : Option (Task M),
      o.toList.map (Task.deliver sender command) =
        (o.map (Task.deliver sender command)).toList := by
    rintro (_ | t)
    · rfl
    · rfl
  refine ⟨sub.map (Task.deliver sender command), early.map (Task.deliver sender command),
    ⟨?_, ?_, ?_, ?_, ?_, ?_, h.stopped_eq⟩, ?_⟩
  · rw [Miner.send, h.tasks_eq, List.map_append, hmap, hmap]
  · intro t ht
    obtain ⟨a, ha, rfl⟩ := Option.map_eq_some_iff.mp ht
    rw [Task.deliver_pc]
    exact h.sub_status a ha
  · intro t ht
    obtain ⟨b, hb, rfl⟩ := Option.map_eq_some_iff.mp ht
    rw [Task.deliver_pc]
    exact h.early_status b hb
  · rw [List.map_append, hfix, hfix, ← List.map_append]
    exact h.workers_eq
  · intro t ht u hu
    obtain ⟨a, ha, rfl⟩ := Option.map_eq_some_iff.mp ht
    obtain ⟨b, hb, rfl⟩ := Option.map_eq_some_iff.mp hu
    rw [Task.deliver_worker, Task.deliver_worker]
    exact h.ids a ha b hb
  · intro t ht
    obtain ⟨a, ha, rfl⟩ := List.mem_map.mp ht
    rw [Task.deliver_worker, Task.deliver_channel]
    exact h.sender_eq a ha
  · simp [view, Miner.send, Option.map_map, Function.comp_def]

/-- Sending a command is not recorded. -/
theorem Serial.send_recorded {s : Miner M} {sub early : Option (Task M)} (h : s.Serial sub early)
    (sender : ℕ) (command : MinerCommand) :
    ∃ sub' early', (s.send sender command).Serial sub' early' ∧
      Recorded s (s.send sender command) (s.view sub early)
        ((s.send sender command).view sub' early') := by
  obtain ⟨sub', early', hserial, hview⟩ := h.send sender command
  refine ⟨sub', early', hserial, ?_⟩
  rw [hview]
  exact .quiet (.idle _) rfl rfl

theorem Serial.same_recorded {s : Miner M} {sub early : Option (Task M)}
    (h : s.Serial sub early) :
    ∃ sub' early', s.Serial sub' early' ∧ Recorded s s (s.view sub early) (s.view sub' early') :=
  ⟨sub, early, h, .quiet (.idle _) rfl rfl⟩

theorem Serial.sendTo_recorded {s : Miner M} {sub early : Option (Task M)}
    (h : s.Serial sub early) (workerId : UInt64) (command : MinerCommand) :
    ∃ sub' early', (s.sendTo workerId command).Serial sub' early' ∧
      Recorded s (s.sendTo workerId command) (s.view sub early)
        ((s.sendTo workerId command).view sub' early') := by
  rw [sendTo]
  split
  · exact h.send_recorded _ _
  · exact h.same_recorded

theorem Serial.handleSessionResult_recorded {s : Miner M} {sub early : Option (Task M)}
    (h : s.Serial sub early) (data : String) (command : MinerCommand) :
    ∃ sub' early', (s.handleSessionResult data command).Serial sub' early' ∧
      Recorded s (s.handleSessionResult data command) (s.view sub early)
        ((s.handleSessionResult data command).view sub' early') := by
  rw [handleSessionResult]
  split
  · exact h.same_recorded
  · exact h.sendTo_recorded _ _

theorem Serial.handleEvent_recorded {s : Miner M} {sub early : Option (Task M)}
    (h : s.Serial sub early) (e : MinerEvent) :
    ∃ sub' early', (s.handleEvent e).Serial sub' early' ∧
      Recorded s (s.handleEvent e) (s.view sub early) ((s.handleEvent e).view sub' early') := by
  cases e with
  | sessionInterval data => exact h.sendTo_recorded _ _
  | seedUpdated nextSeed =>
      refine ⟨sub, early, ⟨h.tasks_eq, h.sub_status, h.early_status, h.workers_eq, h.ids,
        h.sender_eq, h.stopped_eq⟩, ?_⟩
      exact .arrived nextSeed rfl rfl rfl
  | complexityUpdated easy hard =>
      exact ⟨sub, early, ⟨h.tasks_eq, h.sub_status, h.early_status, h.workers_eq, h.ids,
        h.sender_eq, h.stopped_eq⟩, .quiet (.idle _) rfl rfl⟩
  | sessionAccepted data wasmResult => exact h.handleSessionResult_recorded _ _
  | sessionRejected data wasmResult => exact h.handleSessionResult_recorded _ _

theorem canStart_of_start {s s' : Miner M} {durationMs : UInt32} {id : UInt64}
    (hstart : s.start durationMs id = .ok s') : s.canStart = true := by
  rw [start] at hstart
  split at hstart
  · cases hstart
  · rename_i hcomputing
    split at hstart
    · cases hstart
    · rename_i seed seeds hseeds
      have hcomputing := Bool.eq_false_iff.mpr hcomputing
      simp [canStart, hcomputing, hseeds]

/-- A fresh worker starts only when no other task is before its submission. -/
theorem Serial.start_recorded {s s' : Miner M} {sub early : Option (Task M)}
    (h : s.Serial sub early) {durationMs : UInt32} {id : UInt64}
    (horderly : s.Orderly (.start durationMs id)) (hstart : s.start durationMs id = .ok s') :
    ∃ sub' early', s'.Serial sub' early' ∧
      Recorded s s' (s.view sub early) (s'.view sub' early') := by
  obtain ⟨hqueued, hid⟩ := horderly (canStart_of_start hstart)
  rw [start] at hstart
  split at hstart
  · cases hstart
  · rename_i hcomputing
    have hnone : early = none := by
      cases hearly : early with
      | none => rfl
      | some b =>
          have hentry : b.entry ∈ s.shared.workers := by rw [h.workers_eq]; simp [hearly]
          have hnot : b.pc.status ≠ .computing := by
            intro hstatus
            apply hcomputing
            exact List.any_eq_true.mpr ⟨b.entry, hentry, decide_eq_true hstatus⟩
          have hnotQueued : b.pc.status ≠ .queued := hqueued _ hentry
          have hnotSubmitting := h.early_status b hearly
          cases hpc : b.pc <;> simp [hpc, Pc.status] at hnot hnotQueued hnotSubmitting
    subst hnone
    split at hstart
    · cases hstart
    · rename_i seed seeds hseeds
      have htasks := h.tasks_eq
      have hworkers := h.workers_eq
      rw [← Except.ok.inj hstart]
      let t₀ : Task M := ⟨s.nextChannel, ⟨id, s.nextChannel, .queued, seed, durationMs.toUInt64,
        s.complexity.1, s.complexity.2⟩, [], .spawned, none⟩
      refine ⟨sub, some t₀, ⟨?_, h.sub_status, ?_, ?_, ?_, ?_, h.stopped_eq⟩, ?_⟩
      · simp [htasks, t₀]
      · rintro t ⟨⟩
        exact nofun
      · simp [hworkers, Task.entry, Pc.status, t₀]
      · rintro a ha t ⟨⟩
        have hentry : a.entry ∈ s.shared.workers := by rw [hworkers]; simp [Option.mem_def.mp ha]
        exact hid a.entry hentry
      · intro t ht
        rcases List.mem_append.mp ht with ht | ht
        · exact h.sender_eq t ht
        · obtain rfl := List.mem_singleton.mp ht
          rfl
      · refine .quiet ?_ rfl rfl
        simp only [view, Shared.reported, hseeds]
        exact .take _ _ _ _

/-- Commands to a list of workers are not recorded. -/
theorem Serial.sends {s : Miner M} {sub early : Option (Task M)} (h : s.Serial sub early)
    (command : MinerCommand) (workers : List MinerWorker) :
    ∃ sub' early', (workers.foldl (fun s w ↦ s.send w.sender command) s).Serial sub' early' ∧
      (workers.foldl (fun s w ↦ s.send w.sender command) s).view sub' early' =
        s.view sub early := by
  induction workers generalizing s sub early with
  | nil => exact ⟨sub, early, h, rfl⟩
  | cons w workers ih =>
      obtain ⟨sub₁, early₁, h₁, hview₁⟩ := h.send w.sender command
      obtain ⟨sub₂, early₂, h₂, hview₂⟩ := ih h₁
      exact ⟨sub₂, early₂, h₂, hview₂.trans hview₁⟩

theorem sends_record (s : Miner M) (command : MinerCommand) (workers : List MinerWorker) :
    (workers.foldl (fun s w ↦ s.send w.sender command) s).received = s.received ∧
      (workers.foldl (fun s w ↦ s.send w.sender command) s).shared = s.shared := by
  induction workers generalizing s with
  | nil => exact ⟨rfl, rfl⟩
  | cons w workers ih => exact ih (s.send w.sender command)

theorem stop_of_orderly {s : Miner M} (horderly : s.Orderly .stop) :
    s.stop = (s.shared.workers.filter fun w ↦ w.status = .computing).foldl
      (fun s w ↦ s.send w.sender .stop) s := by
  have hremoved : (s.shared.workers.filter fun w ↦ w.status = .queued) = [] := by
    rw [List.filter_eq_nil_iff]
    intro w hw
    simpa using horderly w hw
  have hkept : (s.shared.workers.filter fun w ↦ w.status ≠ .queued) = s.shared.workers := by
    rw [List.filter_eq_self]
    intro w hw
    simpa using horderly w hw
  simp only [stop, hremoved, hkept, List.map_nil, List.append_nil]

theorem Serial.stop_recorded {s : Miner M} {sub early : Option (Task M)}
    (h : s.Serial sub early) (horderly : s.Orderly .stop) :
    ∃ sub' early', s.stop.Serial sub' early' ∧
      Recorded s s.stop (s.view sub early) (s.stop.view sub' early') := by
  rw [stop_of_orderly horderly]
  obtain ⟨sub', early', hserial, hview⟩ := h.sends .stop
    (s.shared.workers.filter fun w ↦ w.status = .computing)
  obtain ⟨hreceived, hshared⟩ := s.sends_record .stop
    (s.shared.workers.filter fun w ↦ w.status = .computing)
  refine ⟨sub', early', hserial, ?_⟩
  rw [hview]
  exact .quiet (.idle _) hreceived (congrArg Shared.submissions hshared)

theorem Serial.addTap_recorded {s : Miner M} {sub early : Option (Task M)}
    (h : s.Serial sub early) (x y : UInt32) :
    ∃ sub' early', (s.orSame (s.addTap x y)).Serial sub' early' ∧
      Recorded s (s.orSame (s.addTap x y)) (s.view sub early)
        ((s.orSame (s.addTap x y)).view sub' early') := by
  rw [addTap]
  split
  · exact h.send_recorded _ _
  · exact h.same_recorded

theorem Serial.task_recorded {s s' : Miner M} {sub early : Option (Task M)}
    (h : s.Serial sub early) {i : ℕ} {wake : Wake}
    (hstep : s.Step blake3 (.task i wake) s') :
    ∃ sub' early', s'.Serial sub' early' ∧
      Recorded s s' (s.view sub early) (s'.view sub' early') := by
  rw [Step, step?] at hstep
  obtain ⟨t, ht, hstep⟩ := Option.bind_eq_some_iff.mp hstep
  obtain ⟨⟨shared, outcome⟩, hadvance, hstep⟩ := Option.bind_eq_some_iff.mp hstep
  obtain rfl := Option.some.inj hstep
  have hmove := Task.moves_of_advance hadvance
  rcases h.task_cases ht with ⟨rfl, htasks⟩ | ⟨rfl, htasks⟩
  · rw [htasks]
    obtain ⟨hserial, hrecorded⟩ := h.moveSub hmove
    exact ⟨outcome, early, hserial, hrecorded⟩
  · rw [htasks]
    exact h.moveEarly hmove

theorem Serial.step {s s' : Miner M} {sub early : Option (Task M)} (h : s.Serial sub early)
    {l : Label} (horderly : s.Orderly l) (hstep : s.Step blake3 l s') :
    ∃ sub' early', s'.Serial sub' early' ∧
      (¬IsRemoveSeed l → Recorded s s' (s.view sub early) (s'.view sub' early')) := by
  cases l with
  | start durationMs id =>
      obtain rfl := Option.some.inj hstep
      cases hstart : s.start durationMs id with
      | error e => exact ⟨sub, early, h, fun _ ↦ .quiet (.idle _) rfl rfl⟩
      | ok s' =>
          obtain ⟨sub', early', hserial, hrecorded⟩ := h.start_recorded horderly hstart
          exact ⟨sub', early', hserial, fun _ ↦ hrecorded⟩
  | stop =>
      obtain rfl := Option.some.inj hstep
      obtain ⟨sub', early', hserial, hrecorded⟩ := h.stop_recorded horderly
      exact ⟨sub', early', hserial, fun _ ↦ hrecorded⟩
  | addTap x y =>
      obtain rfl := Option.some.inj hstep
      obtain ⟨sub', early', hserial, hrecorded⟩ := h.addTap_recorded x y
      exact ⟨sub', early', hserial, fun _ ↦ hrecorded⟩
  | removeSeed seed =>
      obtain rfl := Option.some.inj hstep
      exact ⟨sub, early, ⟨h.tasks_eq, h.sub_status, h.early_status, h.workers_eq, h.ids,
        h.sender_eq, h.stopped_eq⟩, fun hremove ↦ absurd trivial hremove⟩
  | event e =>
      obtain rfl := Option.some.inj hstep
      obtain ⟨sub', early', hserial, hrecorded⟩ := h.handleEvent_recorded e
      exact ⟨sub', early', hserial, fun _ ↦ hrecorded⟩
  | task i wake =>
      obtain ⟨sub', early', hserial, hrecorded⟩ := h.task_recorded hstep
      exact ⟨sub', early', hserial, fun _ ↦ hrecorded⟩

/-! ## One session at a time -/

theorem isComputing_status {t : Task M} (h : t.pc.isComputing = true) :
    t.pc.status = .computing := by
  cases hpc : t.pc <;> simp [hpc, Pc.isComputing] at h
  rfl

theorem Serial.listed {s : Miner M} {sub early : Option (Task M)} (h : s.Serial sub early)
    {t : Task M} (ht : t ∈ s.tasks) {status : MinerStatus} (hstatus : t.pc.status = status) :
    ∃ w ∈ s.shared.workers, w.sender = t.channel ∧ w.status = status := by
  refine ⟨t.entry, ?_, h.sender_eq t ht, hstatus⟩
  rw [h.workers_eq, ← h.tasks_eq]
  exact List.mem_map_of_mem ht

theorem Serial.oneSession {s : Miner M} {sub early : Option (Task M)} (h : s.Serial sub early) :
    s.OneSession := by
  have hlength : ∀ o : Option (Task M), o.toList.length ≤ 1 := by
    rintro (_ | t)
    · exact Nat.zero_le 1
    · exact Nat.le_refl 1
  have hsub : (sub.toList.filter fun t ↦ t.pc.isComputing) = [] := by
    rw [List.filter_eq_nil_iff]
    intro t ht hcomputing
    have hstatus := h.sub_status t (Option.mem_toList.mp ht)
    exact absurd (hstatus.symm.trans (isComputing_status hcomputing)) (by decide)
  have hearly : (early.toList.filter fun t ↦ t.pc.isSubmitting) = [] := by
    rw [List.filter_eq_nil_iff]
    intro t ht hsubmitting
    exact h.early_status t (Option.mem_toList.mp ht) (of_decide_eq_true hsubmitting)
  constructor
  · rw [h.tasks_eq, List.filter_append, hsub, List.nil_append]
    exact Nat.le_trans (List.length_filter_le _ _) (hlength early)
  · rw [h.tasks_eq, List.filter_append, hearly, List.append_nil]
    exact Nat.le_trans (List.length_filter_le _ _) (hlength sub)
  · intro t ht hcomputing
    exact h.listed ht (isComputing_status hcomputing)
  · intro t ht hsubmitting
    exact h.listed ht (of_decide_eq_true hsubmitting)
  · intro t ht hstopped
    rw [h.stopped_eq] at hstopped
    cases hstopped

theorem serial_of_run {seeds : List String} {complexity : UInt32 × UInt32} {ls : List Label}
    {s : Miner M} (h : Run (Guarded Orderly (Step blake3)) (init M seeds complexity) ls s) :
    ∃ sub early, s.Serial sub early := by
  refine Run.invariant (fun s ↦ ∃ sub early, s.Serial sub early) ?_ ⟨_, _, serial_init _ _⟩ h
  rintro s l s' ⟨sub, early, hserial⟩ ⟨horderly, hstep⟩
  obtain ⟨sub', early', hserial', -⟩ := hserial.step horderly hstep
  exact ⟨sub', early', hserial'⟩

/-- One session at a time, in every state that orderly steps reach. -/
theorem oneSession_of_run {seeds : List String} {complexity : UInt32 × UInt32} {ls : List Label}
    {s : Miner M} (h : Run (Guarded Orderly (Step blake3)) (init M seeds complexity) ls s) :
    s.OneSession := by
  obtain ⟨sub, early, hserial⟩ := serial_of_run h
  exact hserial.oneSession

/-- One worker submits while the next one computes. -/
def twoSessions : List Label :=
  [.start 1000 1, .task 0 .begin, .addTap 3 4, .task 0 (.accountRead (.error "timeout") 0 0),
    .task 0 (.tick 500), .stop, .task 0 (.tick 600), .start 1000 2, .task 1 .begin,
    .task 1 (.accountRead (.error "timeout") 700 700)]

theorem oneSession_twoSessions :
    ∃ s, Run (Guarded Orderly (Step Blake3.hash))
        (init (RsMerkle.reference Blake3.hash) ["a", "b"] (0, 0)) twoSessions s ∧
      s.shared.workers.map MinerWorker.status = [.submitting, .computing] ∧ s.OneSession := by
  have hrun : ((run? (guard? Orderly (step? Blake3.hash))
      (init (RsMerkle.reference Blake3.hash) ["a", "b"] (0, 0)) twoSessions).map fun s ↦
        s.shared.workers.map MinerWorker.status) = some [.submitting, .computing] := by
    decide +kernel
  obtain ⟨s, hs, hstatus⟩ := Option.map_eq_some_iff.mp hrun
  have hrun := run_guarded_of_run? hs
  exact ⟨s, hrun, hstatus, oneSession_of_run hrun⟩

/-- A second `start` before the first task runs, and a `stop` before it runs. -/
def twoStarts : List Label :=
  [.start 1000 1, .start 1000 2, .task 0 .begin, .task 1 .begin,
    .task 0 (.accountRead (.error "timeout") 0 0), .task 1 (.accountRead (.error "timeout") 0 0)]

def startThenStop : List Label :=
  [.start 1000 1, .stop, .task 0 .begin, .task 0 (.accountRead (.error "timeout") 0 0)]

def mineTwoSeeds (ls : List Label) : Option (Miner (RsMerkle.reference Blake3.hash)) :=
  run? (step? Blake3.hash) (init _ ["a", "b"] (0, 0)) ls

/-- Two tasks compute at once, or one that `stop` removed. -/
theorem not_oneSession :
    (∃ s, Run (Step Blake3.hash) (init (RsMerkle.reference Blake3.hash) ["a", "b"] (0, 0))
      twoStarts s ∧ ¬s.OneSession) ∧
    ∃ s, Run (Step Blake3.hash) (init (RsMerkle.reference Blake3.hash) ["a", "b"] (0, 0))
      startThenStop s ∧ ¬s.OneSession := by
  constructor
  · have hrun : ((mineTwoSeeds twoStarts).map fun s ↦
        (s.tasks.filter fun t ↦ t.pc.isComputing).length) = some 2 := by decide +kernel
    obtain ⟨s, hs, htwo⟩ := Option.map_eq_some_iff.mp hrun
    refine ⟨s, run?_eq_some_iff.mp hs, ?_⟩
    intro h
    have hone := h.computing_le_one
    omega
  · have hrun : ((mineTwoSeeds startThenStop).map fun s ↦
        (s.stopped, s.tasks.map fun t ↦ (t.channel, t.pc.isComputing))) =
          some ([0], [(0, true)]) := by decide +kernel
    obtain ⟨s, hs, hstopped⟩ := Option.map_eq_some_iff.mp hrun
    obtain ⟨hchannels, htasks⟩ := Prod.mk.inj hstopped
    refine ⟨s, run?_eq_some_iff.mp hs, ?_⟩
    intro h
    have hmem : (0, true) ∈ s.tasks.map fun t ↦ (t.channel, t.pc.isComputing) := by
      rw [htasks]
      exact List.mem_singleton_self _
    obtain ⟨t, ht, hvalues⟩ := List.mem_map.mp hmem
    obtain ⟨hchannel, hcomputing⟩ := Prod.mk.inj hvalues
    have hidle := h.stopped_idle t ht (by rw [hchannels, hchannel]; exact List.mem_singleton_self 0)
    rw [hcomputing] at hidle
    exact absurd hidle.1 (by decide)

end Miner

end BeeEngine
