import BeeEngine.MinedComplexity

/-!
# The taps of a worker

A ledger beside the miner: the taps that `add_tap` has accepted, what the
callbacks of each worker count, and the hard core with which it ended its
computation.  No step of the miner reads the ledger.
-/

namespace BeeEngine

open Transition

variable {M : RsMerkle}

/-! ## Taps -/

def MinerCommand.tap? : MinerCommand → Option (UInt32 × UInt32)
  | queueTap x y => some (x, y)
  | _ => none

def ComputedLeaf.tap (leaf : ComputedLeaf) : UInt32 × UInt32 := (leaf.x, leaf.y)

def MiningCore.taps (core : MiningCore M) : List (UInt32 × UInt32) :=
  core.completed.map ComputedLeaf.tap

/-- A task still takes taps, before the end of its computation. -/
def Pc.collects : Pc M → Bool
  | spawned => true
  | fetchingAccount _ => true
  | computing _ _ => true
  | _ => false

namespace Task

/-- The taps that are sent to a task and not read. -/
def queuedTaps (t : Task M) : List (UInt32 × UInt32) := t.inbox.filterMap MinerCommand.tap?

/-- The taps in the hard tree. -/
def hardTaps (t : Task M) : List (UInt32 × UInt32) :=
  match t.pc.cores with
  | some cores => cores.tap.taps
  | none => []

/-- A round of the loop: the cores, and the times that it reads. -/
structure Round (M : RsMerkle) where
  cores : Cores M
  startMs : UInt64
  nowMs : UInt64

/-- The round that a piece runs. -/
def round? (t : Task M) : Wake → Option (Round M)
  | .accountRead account startMs nowMs =>
      match t.pc with
      | .fetchingAccount sessionInFlight =>
          let complexity := t.worker.sessionComplexity account sessionInFlight
          some ⟨⟨.new M t.worker.seed t.worker.durationMs complexity.1,
            .new M t.worker.seed t.worker.durationMs complexity.2⟩, startMs, nowMs⟩
      | _ => none
  | .tick nowMs =>
      match t.pc with
      | .computing cores startMs => some ⟨cores, startMs, nowMs⟩
      | _ => none
  | _ => none

/-- The hard core after a round; `none` if a search for a nonce does not end. -/
def tapCoreAfter (blake3 : Bytes → Bytes32) (t : Task M) (round : Round M) :
    Option (MiningCore M) :=
  match t.inbox with
  | .queueTap x y :: _ => (round.cores.tap.compute blake3 ⟨x, y, round.nowMs⟩).map Prod.fst
  | _ => some round.cores.tap

/-- The round breaks out of the loop. -/
def breaks (t : Task M) (round : Round M) : Bool :=
  match t.inbox with
  | .stop :: _ => true
  | _ => decide (round.startMs + t.worker.durationMs ≤ round.nowMs)

/-- A round does not read a tap at or past the deadline of the hard core, and
leaves no tap unread when it breaks out of the loop. -/
structure ReadsAll (t : Task M) (round : Round M) : Prop where
  in_time : (t.inbox.head?.bind MinerCommand.tap?).isSome = true →
    (round.cores.tap.withDeadline round.nowMs).deadlineReachedMs round.nowMs = false
  none_left : t.breaks round = true → t.inbox.tail.filterMap MinerCommand.tap? = []

end Task

/-! ## The ledger -/

/-- The entry of a worker: the accepted taps, the number of `tap_computed`
callbacks, and the hard core with the taps of `computation_completed`. -/
structure Entry (M : RsMerkle) where
  accepted : List (UInt32 × UInt32)
  tapComputed : ℕ
  completed : Option (MiningCore M × ℕ)

namespace Entry

def blank (M : RsMerkle) : Entry M := ⟨[], 0, none⟩

def accept (e : Entry M) (tap : UInt32 × UInt32) : Entry M :=
  { e with accepted := e.accepted ++ [tap] }

/-- The callbacks of a round: `tap_computed` for every tap that it reads, and
`computation_completed` at its end. -/
def afterRound (blake3 : Bytes → Bytes32) (e : Entry M) (t : Task M) (round : Task.Round M) :
    Entry M where
  accepted := e.accepted
  tapComputed := match t.inbox with
    | .queueTap _ _ :: _ => e.tapComputed + 1
    | _ => e.tapComputed
  completed :=
    if t.breaks round then
      (t.tapCoreAfter blake3 round).map fun core ↦
        (core.getMerkle.1, core.getMerkle.2.leaves.length)
    else e.completed

end Entry

/-- The times that a step reads. -/
def Miner.Label.times : Miner.Label → List UInt64
  | .task _ (.accountRead _ startMs nowMs) => [startMs, nowMs]
  | .task _ (.tick nowMs) => [nowMs]
  | _ => []

/-- A miner, the entries by the channels of its workers, and the last time that
was read. -/
structure Watched (M : RsMerkle) where
  miner : Miner M
  entries : ℕ → Entry M
  nowMs : UInt64

namespace Watched

def init (M : RsMerkle) (seeds : List String) (complexity : UInt32 × UInt32) : Watched M :=
  ⟨.init M seeds complexity, fun _ ↦ .blank M, 0⟩

def record (blake3 : Bytes → Bytes32) (w : Watched M) : Miner.Label → ℕ → Entry M
  | .addTap x y =>
      match w.miner.shared.workers.find? fun worker ↦ worker.status = .computing with
      | some worker =>
          Function.update w.entries worker.sender ((w.entries worker.sender).accept (x, y))
      | none => w.entries
  | .task i wake =>
      match w.miner.tasks[i]? with
      | some t =>
          match t.round? wake with
          | some round =>
              Function.update w.entries t.channel
                ((w.entries t.channel).afterRound blake3 t round)
          | none => w.entries
      | none => w.entries
  | _ => w.entries

/-- A step of the miner, with a clock that does not go back. -/
def step? (blake3 : Bytes → Bytes32) (w : Watched M) (l : Miner.Label) : Option (Watched M) :=
  if (w.nowMs :: l.times).Pairwise (· ≤ ·) then
    (w.miner.step? blake3 l).map fun miner ↦
      ⟨miner, w.record blake3 l, l.times.getLastD w.nowMs⟩
  else none

def Step (blake3 : Bytes → Bytes32) (w : Watched M) (l : Miner.Label) (w' : Watched M) : Prop :=
  w.step? blake3 l = some w'

/-! ## What is claimed -/

/-- The worker has ended its computation with a hard tree of the accepted taps,
in their order, and as many callbacks. -/
structure Kept (blake3 : Bytes → Bytes32) (e : Entry M) (core : MiningCore M) (taps : ℕ) :
    Prop where
  completed_eq : e.completed = some (core, taps)
  accepted_eq : e.accepted = core.taps
  leaves_eq : core.getMerkle.2.leaves = (core.hashes blake3).map Bytes32.bytes
  taps_eq : taps = core.getMerkle.2.leaves.length
  callbacks_eq : e.tapComputed = taps

/-- The accepted taps are in the hard tree of the worker or still queued, in
their order, and the worker still takes taps. -/
structure Pending (w : Watched M) (channel : ℕ) (t : Task M) : Prop where
  mem_tasks : t ∈ w.miner.tasks
  channel_eq : t.channel = channel
  collects : t.pc.collects = true
  accepted_eq : (w.entries channel).accepted = t.hardTaps ++ t.queuedTaps
  callbacks_eq : (w.entries channel).tapComputed = t.hardTaps.length

/-- No accepted tap is lost, and the counts of a worker agree. -/
structure NoTapLost (blake3 : Bytes → Bytes32) (w : Watched M) : Prop where
  accounted : ∀ channel, (w.entries channel).accepted ≠ [] →
    (∃ t, w.Pending channel t) ∨ ∃ core taps, Kept blake3 (w.entries channel) core taps
  completed : ∀ channel core taps, (w.entries channel).completed = some (core, taps) →
    Kept blake3 (w.entries channel) core taps
  submitted : ∀ x ∈ w.miner.shared.submissions, ∃ core taps,
    (w.entries x.channel).completed = some (core, taps) ∧ x.hard.leavesCount = UInt64.ofNat taps

/-- A tap is accepted for a worker that still takes taps, and rounds read them
all in time. -/
def TapsRead (w : Watched M) : Miner.Label → Prop
  | .addTap _ _ =>
      ∀ worker ∈ w.miner.shared.workers.find? fun worker ↦ worker.status = .computing,
        ∃ t ∈ w.miner.tasks, t.channel = worker.sender ∧ t.pc.collects = true
  | .task i wake => ∀ t ∈ w.miner.tasks[i]?, ∀ round ∈ t.round? wake, t.ReadsAll round
  | _ => True

end Watched

/-! ## The hard core -/

namespace MiningCore

variable {blake3 : Bytes → Bytes32}

/-- The core collects leaves, the last one not after the given time. -/
structure Collecting (blake3 : Bytes → Bytes32) (nowMs : UInt64) (core : MiningCore M) :
    Prop where
  committed : core.committed = false
  tree : core.tree = M.inserted (core.hashes blake3)
  lastNow : ∀ prev, core.lastNowMs = some prev → prev ≤ nowMs

theorem collecting_new (nowMs : UInt64) (seed : String) (durationMs : UInt64)
    (targetBits : UInt32) : (new M seed durationMs targetBits).Collecting blake3 nowMs :=
  ⟨rfl, rfl, nofun⟩

namespace Collecting

variable {core : MiningCore M} {nowMs nowMs' : UInt64}

theorem mono (h : core.Collecting blake3 nowMs) (hle : nowMs ≤ nowMs') :
    core.Collecting blake3 nowMs' :=
  ⟨h.committed, h.tree, fun prev hprev ↦ UInt64.le_trans (h.lastNow prev hprev) hle⟩

theorem withDeadline (h : core.Collecting blake3 nowMs) (time : UInt64) :
    (core.withDeadline time).Collecting blake3 nowMs ∧
      (core.withDeadline time).completed = core.completed := by
  rcases core.withDeadline_cases time with heq | ⟨-, heq⟩
  · rw [heq]
    exact ⟨h, rfl⟩
  · rw [heq]
    exact ⟨⟨h.committed, h.tree, h.lastNow⟩, rfl⟩

/-- A call before the deadline adds one leaf, with its own tap. -/
theorem compute (h : core.Collecting blake3 nowMs) {x y : UInt32} (hle : nowMs ≤ nowMs')
    (htime : (core.withDeadline nowMs').deadlineReachedMs nowMs' = false)
    {r : MiningCore M × Option ComputedLeaf}
    (hcompute : core.compute blake3 ⟨x, y, nowMs'⟩ = some r) :
    r.1.Collecting blake3 nowMs' ∧ r.1.taps = core.taps ++ [(x, y)] := by
  obtain ⟨hdeadline, hcompleted⟩ := h.withDeadline nowMs'
  have hlast : ((core.withDeadline nowMs').lastNowMs.any fun prev ↦ decide (nowMs' < prev)) =
      false := by
    cases hprev : (core.withDeadline nowMs').lastNowMs with
    | none => rfl
    | some prev =>
        apply decide_eq_false
        exact UInt64.not_lt.mpr (UInt64.le_trans (hdeadline.lastNow prev hprev) hle)
  rw [MiningCore.compute, computeLeaf, htime, hdeadline.committed, hlast] at hcompute
  simp only [Bool.false_eq_true, if_false] at hcompute
  split at hcompute
  · cases hcompute
  · rename_i leaf hfound
    obtain rfl := Option.some.inj hcompute
    obtain ⟨nonce, hleaf⟩ := (foundFor_of_findNonce hfound).compute_eq
    constructor
    · refine ⟨rfl, ?_, ?_⟩
      · dsimp only [hashes]
        rw [hdeadline.tree, List.map_append, List.map_singleton, M.inserted_append]
        rfl
      · rintro prev ⟨⟩
        exact UInt64.le_refl _
    · have htap : leaf.tap = (x, y) := congrArg ComputedLeaf.tap hleaf
      dsimp only [taps]
      rw [hcompleted, List.map_append, List.map_singleton, htap]

/-- The leaves that are shown when the core is committed. -/
theorem getMerkle_leaves (h : core.Collecting blake3 nowMs) (hlaws : M.CommitLaws) :
    core.getMerkle.2.leaves = (core.hashes blake3).map Bytes32.bytes := by
  have hleaves : core.getMerkle.2.leaves =
      ((M.leaves (M.commit core.tree)).getD []).map Bytes32.bytes := by
    rw [getMerkle, h.committed]
    simp only [Bool.false_eq_true, if_false, getMerkleLeaves]
    cases M.leaves (M.commit core.tree) with
    | none => rfl
    | some leaves => rfl
  rw [hleaves, h.tree]
  exact congrArg _ (hlaws.leaves_committed _)

end Collecting

end MiningCore

/-! ## One piece of a task -/

namespace Task

variable {blake3 : Bytes → Bytes32}

/-- The entry of a task agrees with the task. -/
inductive Recorded (blake3 : Bytes → Bytes32) (nowMs : UInt64) (e : Entry M) (t : Task M) : Prop
  | early (hpc : t.pc.cores = none) (hcollects : t.pc.collects = true)
      (hcompleted : e.completed = none) (haccepted : e.accepted = t.queuedTaps)
      (hcallbacks : e.tapComputed = 0)
  | computing (cores : Cores M) (hpc : t.pc.cores = some cores) (hcollects : t.pc.collects = true)
      (hcore : cores.tap.Collecting blake3 nowMs) (hcompleted : e.completed = none)
      (haccepted : e.accepted = cores.tap.taps ++ t.queuedTaps)
      (hcallbacks : e.tapComputed = cores.tap.taps.length)
  | ended (cores : Cores M) (taps : ℕ) (hpc : t.pc.cores = some cores)
      (hcollects : t.pc.collects = false) (hcompleted : e.completed = some (cores.tap, taps))

/-- What a piece of a task leaves behind. -/
structure Leaves (blake3 : Bytes → Bytes32) (nowMs : UInt64) (s : Shared) (channel : ℕ)
    (e' : Entry M) (s' : Shared) (outcome : Option (Task M)) : Prop where
  recorded : ∀ t' ∈ outcome, t'.Recorded blake3 nowMs e'
  ended : outcome = none → e'.completed ≠ none
  submissions : ∀ x ∈ s'.submissions, x ∈ s.submissions ∨ x.channel = channel ∧
    ∃ core taps, e'.completed = some (core, taps) ∧ x.hard.leavesCount = UInt64.ofNat taps

theorem leaves_stay {nowMs : UInt64} {e : Entry M} {s : Shared} {channel : ℕ}
    {cores : Cores M} {taps : ℕ} (hcompleted : e.completed = some (cores.tap, taps)) {t' : Task M}
    (hpc : t'.pc.cores = some cores) (hcollects : t'.pc.collects = false) :
    Leaves blake3 nowMs s channel e s (some t') := by
  constructor
  · rintro _ ⟨⟩
    exact .ended cores taps hpc hcollects hcompleted
  · exact fun hnone ↦ absurd hnone (Option.some_ne_none _)
  · exact fun x hx ↦ .inl hx

theorem leaves_shutdown {nowMs : UInt64} {e : Entry M} {s s₀ : Shared}
    (hsub : s.submissions = s₀.submissions) {channel : ℕ} (hcompleted : e.completed ≠ none)
    (t : Task M) (used corrupted : Bool) :
    Leaves blake3 nowMs s₀ channel e (shutdown s t used corrupted).1
      (shutdown s t used corrupted).2 := by
  rw [shutdown]
  constructor
  · intro t' ht'
    cases ht'
  · exact fun _ ↦ hcompleted
  · intro x hx
    exact .inl (hsub ▸ hx)

theorem leaves_trySubmit {nowMs : UInt64} {s : Shared} {t : Task M} {cores : Cores M}
    {e : Entry M} {taps : ℕ} (hcompleted : e.completed = some (cores.tap, taps))
    (htaps : cores.tap.getMerkle.2.leaves.length = taps) :
    Leaves blake3 nowMs s t.channel e (trySubmit s t cores).1 (trySubmit s t cores).2 := by
  rw [trySubmit]
  split
  · exact leaves_stay hcompleted rfl rfl
  · constructor
    · rintro t' ⟨⟩
      exact .ended cores taps rfl rfl hcompleted
    · exact fun hnone ↦ absurd hnone (Option.some_ne_none _)
    · intro x hx
      rcases List.mem_append.mp hx with hx | hx
      · exact .inl hx
      · obtain rfl := List.mem_singleton.mp hx
        refine .inr ⟨rfl, cores.tap, taps, hcompleted, ?_⟩
        rw [← htaps]
        rfl

theorem leaves_finalize {nowMs : UInt64} {s : Shared} {t : Task M} {cores : Cores M}
    {e : Entry M}
    (hcompleted : e.completed =
      some (cores.tap.getMerkle.1, cores.tap.getMerkle.2.leaves.length)) :
    Leaves blake3 nowMs s t.channel e (finalize s t cores).1 (finalize s t cores).2 := by
  simp only [finalize]
  split
  · refine leaves_shutdown ?_ ?_ t false false
    · rfl
    · rw [hcompleted]
      exact Option.some_ne_none _
  · apply leaves_trySubmit hcompleted
    rw [MiningCore.getMerkle_getMerkle]

/-- What a round does to the task. -/
theorem computeRound_eq {s : Shared} {t : Task M} {round : Round M} {outcome : Outcome M}
    (h : computeRound blake3 s t round.cores round.startMs round.nowMs = some outcome) :
    ∃ cores, t.tapCoreAfter blake3 round = some cores.tap ∧
      outcome = if t.breaks round then finalize s { t with inbox := t.inbox.tail } cores
        else (s, some { t with
          inbox := t.inbox.tail
          pc := .computing cores round.startMs }) := by
  have hduration : ∀ (t : Task M) cores, checkDuration s t cores round.startMs round.nowMs =
      if decide (round.startMs + t.worker.durationMs ≤ round.nowMs) = true then finalize s t cores
      else (s, some { t with pc := .computing cores round.startMs }) := by
    intro t cores
    simp only [checkDuration, decide_eq_true_eq]
  unfold computeRound at h
  unfold tapCoreAfter breaks
  obtain ⟨channel, worker, inbox, pc, view⟩ := t
  cases inbox with
  | nil =>
      obtain ⟨r, -, rfl⟩ := Option.map_eq_some_iff.mp h
      exact ⟨{ round.cores with time := r.1 }, rfl, hduration _ _⟩
  | cons m rest =>
      cases m with
      | queueTap x y =>
          obtain ⟨r, hr, rfl⟩ := Option.map_eq_some_iff.mp h
          exact ⟨{ round.cores with tap := r.1 }, congrArg (Option.map Prod.fst) hr,
            hduration _ _⟩
      | stop =>
          obtain rfl := Option.some.inj h
          exact ⟨_, rfl, rfl⟩
      | _ =>
          obtain rfl := Option.some.inj h
          exact ⟨_, rfl, hduration _ _⟩

variable {nowMs : UInt64} {t : Task M} {round : Round M} {e : Entry M}

/-- The taps after a round that reads in time. -/
theorem taps_round (hcore : round.cores.tap.Collecting blake3 nowMs) (hle : nowMs ≤ round.nowMs)
    (hreads : t.ReadsAll round)
    (haccepted : e.accepted = round.cores.tap.taps ++ t.queuedTaps)
    (hcallbacks : e.tapComputed = round.cores.tap.taps.length) {core : MiningCore M}
    (hafter : t.tapCoreAfter blake3 round = some core) :
    core.Collecting blake3 round.nowMs ∧
      e.accepted = core.taps ++ t.inbox.tail.filterMap MinerCommand.tap? ∧
      (e.afterRound blake3 t round).tapComputed = core.taps.length := by
  have htime := hreads.in_time
  obtain ⟨channel, worker, inbox, pc, view⟩ := t
  cases inbox with
  | nil =>
      obtain rfl := Option.some.inj hafter
      exact ⟨hcore.mono hle, haccepted, hcallbacks⟩
  | cons m rest =>
      cases m with
      | queueTap x y =>
          obtain ⟨r, hr, rfl⟩ := Option.map_eq_some_iff.mp hafter
          obtain ⟨hcollecting, htaps⟩ := hcore.compute hle (htime rfl) hr
          refine ⟨hcollecting, ?_, ?_⟩
          · rw [htaps, List.append_assoc]
            exact haccepted
          · rw [htaps, List.length_append]
            exact congrArg (· + 1) hcallbacks
      | _ =>
          obtain rfl := Option.some.inj hafter
          exact ⟨hcore.mono hle, haccepted, hcallbacks⟩

/-- A round that reads its taps in time keeps them. -/
theorem leaves_round (hlaws : M.CommitLaws) (hcore : round.cores.tap.Collecting blake3 nowMs)
    (hle : nowMs ≤ round.nowMs) (hreads : t.ReadsAll round) (hcompleted : e.completed = none)
    (haccepted : e.accepted = round.cores.tap.taps ++ t.queuedTaps)
    (hcallbacks : e.tapComputed = round.cores.tap.taps.length) {s s' : Shared}
    {outcome : Option (Task M)}
    (h : computeRound blake3 s t round.cores round.startMs round.nowMs = some (s', outcome)) :
    Leaves blake3 round.nowMs s t.channel (e.afterRound blake3 t round) s' outcome ∧
      ∀ core taps, (e.afterRound blake3 t round).completed = some (core, taps) →
        Watched.Kept blake3 (e.afterRound blake3 t round) core taps := by
  obtain ⟨cores, hafter, houtcome⟩ := computeRound_eq h
  obtain ⟨hcollecting, haccepted', hcallbacks'⟩ :=
    taps_round hcore hle hreads haccepted hcallbacks hafter
  by_cases hbreaks : t.breaks round = true
  · have hended : (e.afterRound blake3 t round).completed =
        some (cores.tap.getMerkle.1, cores.tap.getMerkle.2.leaves.length) := by
      rw [Entry.afterRound, if_pos hbreaks, hafter]
      rfl
    rw [if_pos hbreaks] at houtcome
    have hshared := congrArg Prod.fst houtcome
    have htask := congrArg Prod.snd houtcome
    dsimp only at hshared htask
    rw [hshared, htask]
    refine ⟨leaves_finalize (t := { t with inbox := t.inbox.tail }) hended, ?_⟩
    intro core taps hcore
    rw [hended] at hcore
    obtain ⟨rfl, rfl⟩ := Prod.mk.inj (Option.some.inj hcore)
    have hleaves := hcollecting.getMerkle_leaves hlaws
    have htaps : cores.tap.getMerkle.1.taps = cores.tap.taps := by
      rw [MiningCore.taps, MiningCore.completed_getMerkle, MiningCore.taps]
    constructor
    · exact hended
    · rw [htaps, Entry.afterRound, haccepted', hreads.none_left hbreaks, List.append_nil]
    · rw [MiningCore.getMerkle_getMerkle, hleaves, MiningCore.hashes, MiningCore.hashes,
        MiningCore.completed_getMerkle]
    · rw [MiningCore.getMerkle_getMerkle]
    · rw [hcallbacks', hleaves, List.length_map, MiningCore.hashes, List.length_map,
        MiningCore.taps, List.length_map]
  · have hgoes : (e.afterRound blake3 t round).completed = none := by
      rw [Entry.afterRound, if_neg hbreaks, hcompleted]
    rw [if_neg hbreaks] at houtcome
    obtain ⟨rfl, rfl⟩ := Prod.mk.inj houtcome
    constructor
    · constructor
      · rintro t' ⟨⟩
        exact .computing cores rfl rfl hcollecting hgoes haccepted' hcallbacks'
      · exact fun hnone ↦ absurd hnone (Option.some_ne_none _)
      · exact fun x hx ↦ .inl hx
    · intro core taps hcore
      rw [hgoes] at hcore
      cases hcore

theorem Recorded.completed_of_round? (h : t.Recorded blake3 nowMs e) {wake : Wake}
    (hround : t.round? wake = some round) : e.completed = none := by
  cases h with
  | early _ _ hcompleted => exact hcompleted
  | computing _ _ _ _ hcompleted => exact hcompleted
  | ended cores taps hpc hcollects =>
      cases wake with
      | accountRead account startMs time =>
          rw [round?] at hround
          split at hround
          · rename_i hpc'
            rw [hpc'] at hcollects
            cases hcollects
          · cases hround
      | tick time =>
          rw [round?] at hround
          split at hround
          · rename_i hpc'
            rw [hpc'] at hcollects
            cases hcollects
          · cases hround
      | _ => cases hround

theorem Recorded.exists_completed (h : t.Recorded blake3 nowMs e) {cores : Cores M}
    (hpc : t.pc.cores = some cores) (hcollects : t.pc.collects = false) :
    ∃ taps, e.completed = some (cores.tap, taps) := by
  cases h with
  | early hpc' => rw [hpc'] at hpc; cases hpc
  | computing cores' hpc' hcollects' => rw [hcollects'] at hcollects; cases hcollects
  | ended cores' taps hpc' hcollects' hcompleted =>
      obtain rfl := Option.some.inj (hpc.symm.trans hpc')
      exact ⟨taps, hcompleted⟩

/-- A piece without a round leaves the entry as it is. -/
theorem leaves_of_advance_none (h : t.Recorded blake3 nowMs e)
    (hkept : ∀ core taps, e.completed = some (core, taps) → Watched.Kept blake3 e core taps)
    {wake : Wake} (hround : t.round? wake = none) {s s' : Shared} {outcome : Option (Task M)}
    (hadvance : t.advance blake3 s wake = some (s', outcome)) :
    Leaves blake3 nowMs s t.channel e s' outcome := by
  have hstay : ∀ cores, t.pc.cores = some cores → t.pc.collects = false → ∀ t' : Task M,
      t'.pc.cores = some cores → t'.pc.collects = false →
      Leaves blake3 nowMs s t.channel e s (some t') := by
    intro cores hpc hcollects t' hpc' hcollects'
    obtain ⟨taps, hcompleted⟩ := h.exists_completed hpc hcollects
    exact leaves_stay hcompleted hpc' hcollects'
  have hshutdown : ∀ cores, t.pc.cores = some cores → t.pc.collects = false → ∀ used corrupted,
      Leaves blake3 nowMs s t.channel e (shutdown s t used corrupted).1
        (shutdown s t used corrupted).2 := by
    intro cores hpc hcollects used corrupted
    obtain ⟨taps, hcompleted⟩ := h.exists_completed hpc hcollects
    apply leaves_shutdown rfl
    rw [hcompleted]
    exact Option.some_ne_none _
  cases wake with
  | begin =>
      rw [advance] at hadvance
      split at hadvance
      · rename_i hpc
        obtain ⟨rfl, rfl⟩ := Prod.mk.inj (Option.some.inj hadvance)
        cases h with
        | early hpc' hcollects hcompleted haccepted hcallbacks =>
            constructor
            · rintro t' ⟨⟩
              exact .early rfl rfl hcompleted haccepted hcallbacks
            · exact fun hnone ↦ absurd hnone (Option.some_ne_none _)
            · exact fun x hx ↦ .inl hx
        | computing cores hpc' => rw [hpc] at hpc'; cases hpc'
        | ended cores taps hpc' => rw [hpc] at hpc'; cases hpc'
      · cases hadvance
  | accountRead account startMs nowMs =>
      rw [advance] at hadvance
      rw [round?] at hround
      split at hadvance
      · rename_i hpc
        rw [hpc] at hround
        cases hround
      · cases hadvance
  | tick nowMs =>
      rw [advance] at hadvance
      rw [round?] at hround
      split at hadvance
      · rename_i hpc
        rw [hpc] at hround
        cases hround
      · cases hadvance
  | retry =>
      rw [advance] at hadvance
      split at hadvance
      · rename_i cores hpc
        have houtcome := Option.some.inj hadvance
        have hshared := congrArg Prod.fst houtcome
        have htask := congrArg Prod.snd houtcome
        dsimp only at hshared htask
        have hcores : t.pc.cores = some cores := by rw [hpc]; rfl
        obtain ⟨taps, hcompleted⟩ := h.exists_completed hcores (by rw [hpc]; rfl)
        rw [← hshared, ← htask]
        exact leaves_trySubmit hcompleted (hkept _ _ hcompleted).taps_eq.symm
      · cases hadvance
  | rootSubmitted ok =>
      rw [advance] at hadvance
      split at hadvance
      · rename_i cores hpc
        cases ok with
        | false =>
            obtain ⟨rfl, rfl⟩ := Prod.mk.inj (Option.some.inj hadvance)
            exact hshutdown cores (by rw [hpc]; rfl) (by rw [hpc]; rfl) true true
        | true =>
            obtain ⟨rfl, rfl⟩ := Prod.mk.inj (Option.some.inj hadvance)
            exact hstay cores (by rw [hpc]; rfl) (by rw [hpc]; rfl) _ rfl rfl
      · cases hadvance
  | command =>
      rw [advance] at hadvance
      split at hadvance
      · rename_i cores hpc
        have hcores : t.pc.cores = some cores := by rw [hpc]; rfl
        have hcollects : t.pc.collects = false := by rw [hpc]; rfl
        rw [processCommand] at hadvance
        split at hadvance
        · cases hadvance
        · obtain ⟨r, -, hr⟩ := Option.map_eq_some_iff.mp hadvance
          cases r with
          | error text =>
              obtain ⟨rfl, rfl⟩ := Prod.mk.inj hr
              exact hshutdown cores hcores hcollects true false
          | ok proofs =>
              obtain ⟨rfl, rfl⟩ := Prod.mk.inj hr
              exact hstay cores hcores hcollects _ rfl rfl
        · obtain ⟨rfl, rfl⟩ := Prod.mk.inj (Option.some.inj hadvance)
          exact hshutdown cores hcores hcollects true false
        · obtain ⟨rfl, rfl⟩ := Prod.mk.inj (Option.some.inj hadvance)
          exact hshutdown cores hcores hcollects true false
        · obtain ⟨rfl, rfl⟩ := Prod.mk.inj (Option.some.inj hadvance)
          exact hstay cores hcores hcollects _ hcores hcollects
      · cases hadvance
  | proofSubmitted ok =>
      rw [advance] at hadvance
      split at hadvance
      · rename_i cores hpc
        cases ok with
        | false =>
            obtain ⟨rfl, rfl⟩ := Prod.mk.inj (Option.some.inj hadvance)
            exact hshutdown cores (by rw [hpc]; rfl) (by rw [hpc]; rfl) true false
        | true =>
            obtain ⟨rfl, rfl⟩ := Prod.mk.inj (Option.some.inj hadvance)
            exact hstay cores (by rw [hpc]; rfl) (by rw [hpc]; rfl) _ rfl rfl
      · cases hadvance

/-- A piece with a round. -/
theorem leaves_of_advance_some (hlaws : M.CommitLaws) (h : t.Recorded blake3 nowMs e)
    {wake : Wake} (hround : t.round? wake = some round) (hle : nowMs ≤ round.nowMs)
    (hreads : t.ReadsAll round) {s s' : Shared} {outcome : Option (Task M)}
    (hadvance : t.advance blake3 s wake = some (s', outcome)) :
    Leaves blake3 round.nowMs s t.channel (e.afterRound blake3 t round) s' outcome ∧
      ∀ core taps, (e.afterRound blake3 t round).completed = some (core, taps) →
        Watched.Kept blake3 (e.afterRound blake3 t round) core taps := by
  cases wake with
  | accountRead account startMs time =>
      rw [advance] at hadvance
      rw [round?] at hround
      split at hadvance
      · rename_i sessionInFlight hpc
        rw [hpc] at hround
        obtain rfl := Option.some.inj hround
        cases h with
        | early hpc' hcollects hcompleted haccepted hcallbacks =>
            exact leaves_round (t := { t with view := some (account, sessionInFlight) }) hlaws
              (MiningCore.collecting_new nowMs _ _ _) hle ⟨hreads.in_time, hreads.none_left⟩
              hcompleted haccepted hcallbacks hadvance
        | computing cores hpc' => rw [hpc] at hpc'; cases hpc'
        | ended cores taps hpc' => rw [hpc] at hpc'; cases hpc'
      · cases hadvance
  | tick time =>
      rw [advance] at hadvance
      rw [round?] at hround
      split at hadvance
      · rename_i cores startMs hpc
        rw [hpc] at hround
        obtain rfl := Option.some.inj hround
        cases h with
        | early hpc' => rw [hpc] at hpc'; cases hpc'
        | computing cores' hpc' hcollects hcore hcompleted haccepted hcallbacks =>
            rw [hpc] at hpc'
            obtain rfl := Option.some.inj hpc'
            exact leaves_round hlaws hcore hle hreads hcompleted haccepted hcallbacks hadvance
        | ended cores' taps hpc' hcollects => rw [hpc] at hcollects; cases hcollects
      · cases hadvance
  | _ => cases hround

end Task

/-! ## Calls and events -/

namespace Task

variable {blake3 : Bytes → Bytes32}

/-- What the ledger of a task depends on. -/
def tapView (t : Task M) : ℕ × Pc M × List (UInt32 × UInt32) := (t.channel, t.pc, t.queuedTaps)

theorem Recorded.mono {nowMs nowMs' : UInt64} {e : Entry M} {t : Task M}
    (h : t.Recorded blake3 nowMs e) (hle : nowMs ≤ nowMs') : t.Recorded blake3 nowMs' e := by
  cases h with
  | early hpc hcollects hcompleted haccepted hcallbacks =>
      exact .early hpc hcollects hcompleted haccepted hcallbacks
  | computing cores hpc hcollects hcore hcompleted haccepted hcallbacks =>
      exact .computing cores hpc hcollects (hcore.mono hle) hcompleted haccepted hcallbacks
  | ended cores taps hpc hcollects hcompleted =>
      exact .ended cores taps hpc hcollects hcompleted

theorem Recorded.congr {nowMs : UInt64} {e : Entry M} {t t' : Task M}
    (h : t.Recorded blake3 nowMs e) (hview : t'.tapView = t.tapView) :
    t'.Recorded blake3 nowMs e := by
  obtain ⟨-, hview⟩ := Prod.mk.inj hview
  obtain ⟨hpc', htaps⟩ := Prod.mk.inj hview
  cases h with
  | early hpc hcollects hcompleted haccepted hcallbacks =>
      exact .early (hpc' ▸ hpc) (hpc' ▸ hcollects) hcompleted (htaps ▸ haccepted) hcallbacks
  | computing cores hpc hcollects hcore hcompleted haccepted hcallbacks =>
      exact .computing cores (hpc' ▸ hpc) (hpc' ▸ hcollects) hcore hcompleted
        (htaps ▸ haccepted) hcallbacks
  | ended cores taps hpc hcollects hcompleted =>
      exact .ended cores taps (hpc' ▸ hpc) (hpc' ▸ hcollects) hcompleted

theorem queuedTaps_deliver_self (t : Task M) (command : MinerCommand) :
    (t.deliver t.channel command).queuedTaps = t.queuedTaps ++ command.tap?.toList := by
  rw [deliver, if_pos rfl, queuedTaps, List.filterMap_append, queuedTaps]
  cases command <;> rfl

theorem deliver_of_ne {t : Task M} {sender : ℕ} (h : t.channel ≠ sender)
    (command : MinerCommand) : t.deliver sender command = t :=
  if_neg h

/-- A command that is no tap. -/
theorem tapView_deliver {command : MinerCommand} (h : command.tap? = none) (sender : ℕ)
    (t : Task M) : (t.deliver sender command).tapView = t.tapView := by
  by_cases hchannel : t.channel = sender
  · subst hchannel
    rw [tapView, queuedTaps_deliver_self, h, deliver_channel, deliver_pc]
    exact congrArg (fun taps ↦ (t.channel, t.pc, taps)) (List.append_nil _)
  · rw [deliver_of_ne hchannel]

end Task

namespace Miner

/-- A step that brings no taps. -/
structure SameTaps (s s' : Miner M) : Prop where
  tasks_eq : s'.tasks.map Task.tapView = s.tasks.map Task.tapView
  submissions_eq : s'.shared.submissions = s.shared.submissions
  nextChannel_eq : s'.nextChannel = s.nextChannel

theorem SameTaps.refl (s : Miner M) : s.SameTaps s := ⟨rfl, rfl, rfl⟩

theorem sameTaps_send (s : Miner M) (sender : ℕ) {command : MinerCommand}
    (h : command.tap? = none) : s.SameTaps (s.send sender command) where
  tasks_eq := by
    rw [send, List.map_map]
    exact List.map_congr_left fun t _ ↦ t.tapView_deliver h sender
  submissions_eq := rfl
  nextChannel_eq := rfl

theorem sameTaps_sends (s : Miner M) {command : MinerCommand} (h : command.tap? = none)
    (workers : List MinerWorker) :
    s.SameTaps (workers.foldl (fun s w ↦ s.send w.sender command) s) := by
  induction workers generalizing s with
  | nil => exact .refl s
  | cons w workers ih =>
      have hsend := sameTaps_send s w.sender h
      have hrest := ih (s.send w.sender command)
      constructor
      · exact hrest.tasks_eq.trans hsend.tasks_eq
      · exact hrest.submissions_eq.trans hsend.submissions_eq
      · exact hrest.nextChannel_eq.trans hsend.nextChannel_eq

theorem sameTaps_sendTo (s : Miner M) (workerId : UInt64) {command : MinerCommand}
    (h : command.tap? = none) : s.SameTaps (s.sendTo workerId command) := by
  rw [sendTo]
  split
  · exact sameTaps_send s _ h
  · exact .refl s

theorem sameTaps_handleSessionResult (s : Miner M) (data : String) {command : MinerCommand}
    (h : command.tap? = none) : s.SameTaps (s.handleSessionResult data command) := by
  rw [handleSessionResult]
  split
  · exact .refl s
  · exact sameTaps_sendTo s _ h

theorem sameTaps_handleEvent (s : Miner M) (e : MinerEvent) : s.SameTaps (s.handleEvent e) := by
  cases e with
  | sessionInterval data => exact sameTaps_sendTo s _ rfl
  | seedUpdated nextSeed => exact ⟨rfl, rfl, rfl⟩
  | complexityUpdated easy hard => exact ⟨rfl, rfl, rfl⟩
  | sessionAccepted data wasmResult => exact sameTaps_handleSessionResult s data rfl
  | sessionRejected data wasmResult => exact sameTaps_handleSessionResult s data rfl

theorem sameTaps_stop (s : Miner M) : s.SameTaps s.stop := by
  obtain ⟨htasks, hsubmissions, hnext⟩ := @sameTaps_sends _
    { s with
      shared := { s.shared with workers := s.shared.workers.filter fun w ↦ w.status ≠ .queued }
      stopped := s.stopped ++
        (s.shared.workers.filter fun w ↦ w.status = .queued).map MinerWorker.sender }
    .stop rfl
    ((s.shared.workers.filter fun w ↦ w.status ≠ .queued).filter fun w ↦ w.status = .computing)
  exact ⟨htasks, hsubmissions, hnext⟩

end Miner

/-! ## What holds in every state -/

namespace Watched

variable {blake3 : Bytes → Bytes32}

/-- Every task agrees with its entry, and every accepted tap has a task or a
completed computation. -/
structure Inv (blake3 : Bytes → Bytes32) (w : Watched M) : Prop where
  nodup : (w.miner.tasks.map Task.channel).Nodup
  below : ∀ t ∈ w.miner.tasks, t.channel < w.miner.nextChannel
  fresh : ∀ channel, w.miner.nextChannel ≤ channel → w.entries channel = .blank M
  recorded : ∀ t ∈ w.miner.tasks, t.Recorded blake3 w.nowMs (w.entries t.channel)
  kept : ∀ channel core taps, (w.entries channel).completed = some (core, taps) →
    Kept blake3 (w.entries channel) core taps
  accounted : ∀ channel, (w.entries channel).accepted ≠ [] →
    (w.entries channel).completed ≠ none ∨ ∃ t ∈ w.miner.tasks, t.channel = channel
  submitted : ∀ x ∈ w.miner.shared.submissions, ∃ core taps,
    (w.entries x.channel).completed = some (core, taps) ∧ x.hard.leavesCount = UInt64.ofNat taps

theorem inv_init (seeds : List String) (complexity : UInt32 × UInt32) :
    (init M seeds complexity).Inv blake3 where
  nodup := List.nodup_nil
  below t ht := by cases ht
  fresh channel _ := rfl
  recorded t ht := by cases ht
  kept channel core taps h := by cases h
  accounted channel h := absurd rfl h
  submitted x hx := by cases hx

theorem Inv.sameTaps {w : Watched M} (h : w.Inv blake3) {miner : Miner M}
    (hsame : w.miner.SameTaps miner) : (⟨miner, w.entries, w.nowMs⟩ : Watched M).Inv blake3 := by
  have hchannels : miner.tasks.map Task.channel = w.miner.tasks.map Task.channel := by
    have htasks := congrArg (List.map Prod.fst) hsame.tasks_eq
    rw [List.map_map, List.map_map] at htasks
    exact htasks
  have htask : ∀ t' ∈ miner.tasks, ∃ t ∈ w.miner.tasks, t'.tapView = t.tapView := by
    intro t' ht'
    have hmem := List.mem_map_of_mem (f := Task.tapView) ht'
    rw [hsame.tasks_eq] at hmem
    obtain ⟨t, ht, hview⟩ := List.mem_map.mp hmem
    exact ⟨t, ht, hview.symm⟩
  constructor
  · rw [hchannels]
    exact h.nodup
  · intro t' ht'
    obtain ⟨t, ht, hview⟩ := htask t' ht'
    rw [hsame.nextChannel_eq, (Prod.mk.inj hview).1]
    exact h.below t ht
  · intro channel hle
    exact h.fresh channel (hsame.nextChannel_eq ▸ hle)
  · intro t' ht'
    obtain ⟨t, ht, hview⟩ := htask t' ht'
    rw [(Prod.mk.inj hview).1]
    exact (h.recorded t ht).congr hview
  · exact h.kept
  · intro channel haccepted
    rcases h.accounted channel haccepted with hcompleted | ⟨t, ht, hchannel⟩
    · exact .inl hcompleted
    · right
      have hmem : channel ∈ miner.tasks.map Task.channel := by
        rw [hchannels, ← hchannel]
        exact List.mem_map_of_mem ht
      exact List.mem_map.mp hmem
  · intro x hx
    rw [hsame.submissions_eq] at hx
    exact h.submitted x hx

theorem Inv.start {w : Watched M} (h : w.Inv blake3) {durationMs : UInt32} {id : UInt64}
    {miner : Miner M} (hstart : w.miner.start durationMs id = .ok miner) :
    (⟨miner, w.entries, w.nowMs⟩ : Watched M).Inv blake3 := by
  obtain ⟨t, htasks, hchannel, hpc, hinbox, hsubmissions, hnext⟩ :
      ∃ t : Task M, miner.tasks = w.miner.tasks ++ [t] ∧ t.channel = w.miner.nextChannel ∧
        t.pc = .spawned ∧ t.inbox = [] ∧
        miner.shared.submissions = w.miner.shared.submissions ∧
        miner.nextChannel = w.miner.nextChannel + 1 := by
    rw [Miner.start] at hstart
    split at hstart
    · cases hstart
    · split at hstart
      · cases hstart
      · rw [← Except.ok.inj hstart]
        exact ⟨_, rfl, rfl, rfl, rfl, rfl, rfl⟩
  have hblank := h.fresh w.miner.nextChannel (Nat.le_refl _)
  constructor
  · rw [htasks, List.map_append, List.map_singleton, List.nodup_append]
    refine ⟨h.nodup, List.nodup_singleton _, ?_⟩
    intro channel hmem channel' hmem'
    obtain ⟨t', ht', rfl⟩ := List.mem_map.mp hmem
    rw [List.mem_singleton.mp hmem', hchannel]
    exact (h.below t' ht').ne
  · intro t' ht'
    rw [htasks] at ht'
    rw [hnext]
    rcases List.mem_append.mp ht' with ht' | ht'
    · exact Nat.lt_succ_of_lt (h.below t' ht')
    · rw [List.mem_singleton.mp ht', hchannel]
      exact Nat.lt_succ_self _
  · intro channel hle
    rw [hnext] at hle
    exact h.fresh channel (Nat.le_of_succ_le hle)
  · intro t' ht'
    rw [htasks] at ht'
    rcases List.mem_append.mp ht' with ht' | ht'
    · exact h.recorded t' ht'
    · rw [List.mem_singleton.mp ht', hchannel]
      dsimp only
      rw [hblank]
      refine .early ?_ ?_ rfl ?_ rfl
      · rw [hpc]
        rfl
      · rw [hpc]
        rfl
      · rw [Task.queuedTaps, hinbox]
        rfl
  · exact h.kept
  · intro channel haccepted
    rcases h.accounted channel haccepted with hcompleted | ⟨t', ht', hchannel'⟩
    · exact .inl hcompleted
    · exact .inr ⟨t', htasks ▸ List.mem_append_left _ ht', hchannel'⟩
  · intro x hx
    rw [hsubmissions] at hx
    exact h.submitted x hx

theorem Inv.task_unique {w : Watched M} (h : w.Inv blake3) {t t' : Task M}
    (ht : t ∈ w.miner.tasks) (ht' : t' ∈ w.miner.tasks) (hchannel : t'.channel = t.channel) :
    t' = t :=
  List.inj_on_of_nodup_map h.nodup ht' ht hchannel

/-- A tap is accepted for a task that still takes taps. -/
theorem Inv.addTap {w : Watched M} (h : w.Inv blake3) {t : Task M} (ht : t ∈ w.miner.tasks)
    (hcollects : t.pc.collects = true) (x y : UInt32) :
    (⟨w.miner.send t.channel (.queueTap x y), Function.update w.entries t.channel
      ((w.entries t.channel).accept (x, y)), w.nowMs⟩ : Watched M).Inv blake3 := by
  have hnone : (w.entries t.channel).completed = none := by
    cases h.recorded t ht with
    | early _ _ hcompleted => exact hcompleted
    | computing _ _ _ _ hcompleted => exact hcompleted
    | ended cores taps _ hnot => rw [hnot] at hcollects; cases hcollects
  have htasks : (w.miner.send t.channel (.queueTap x y)).tasks.map Task.channel =
      w.miner.tasks.map Task.channel := by
    rw [Miner.send, List.map_map]
    exact List.map_congr_left fun t' _ ↦ t'.deliver_channel _ _
  constructor
  · rw [htasks]
    exact h.nodup
  · intro t' ht'
    obtain ⟨t₀, ht₀, rfl⟩ := List.mem_map.mp ht'
    rw [Task.deliver_channel]
    exact h.below t₀ ht₀
  · intro channel hle
    have hne : channel ≠ t.channel := fun heq ↦ absurd (h.below t ht) (Nat.not_lt.mpr (heq ▸ hle))
    dsimp only
    rw [Function.update_of_ne hne]
    exact h.fresh channel hle
  · intro t' ht'
    obtain ⟨t₀, ht₀, rfl⟩ := List.mem_map.mp ht'
    rw [Task.deliver_channel]
    dsimp only
    by_cases hchannel : t₀.channel = t.channel
    · obtain rfl := h.task_unique ht ht₀ hchannel
      rw [Function.update_self]
      have hqueued := t₀.queuedTaps_deliver_self (.queueTap x y)
      cases h.recorded t₀ ht with
      | early hpc hcollects hcompleted haccepted hcallbacks =>
          refine .early ?_ ?_ hcompleted ?_ hcallbacks
          · rw [Task.deliver_pc]
            exact hpc
          · rw [Task.deliver_pc]
            exact hcollects
          · rw [Entry.accept, haccepted, hqueued]
            rfl
      | computing cores hpc hcollects hcore hcompleted haccepted hcallbacks =>
          refine .computing cores ?_ ?_ hcore hcompleted ?_ hcallbacks
          · rw [Task.deliver_pc]
            exact hpc
          · rw [Task.deliver_pc]
            exact hcollects
          · rw [Entry.accept, haccepted, hqueued, List.append_assoc]
            rfl
      | ended cores taps _ hnot => rw [hnot] at hcollects; cases hcollects
    · rw [Function.update_of_ne hchannel, Task.deliver_of_ne hchannel]
      exact h.recorded t₀ ht₀
  · intro channel core taps hcompleted
    by_cases hchannel : channel = t.channel
    · subst hchannel
      dsimp only at hcompleted
      rw [Function.update_self] at hcompleted
      cases hnone.symm.trans hcompleted
    · dsimp only at hcompleted ⊢
      rw [Function.update_of_ne hchannel] at hcompleted ⊢
      exact h.kept channel core taps hcompleted
  · intro channel haccepted
    by_cases hchannel : channel = t.channel
    · subst hchannel
      exact .inr (List.mem_map.mp (htasks ▸ List.mem_map_of_mem ht))
    · dsimp only at haccepted ⊢
      rw [Function.update_of_ne hchannel] at haccepted ⊢
      rcases h.accounted channel haccepted with hcompleted | ⟨t', ht', hchannel'⟩
      · exact .inl hcompleted
      · exact .inr (List.mem_map.mp (htasks ▸ hchannel' ▸ List.mem_map_of_mem ht'))
  · intro submission hsubmission
    obtain ⟨core, taps, hcompleted, hcount⟩ := h.submitted submission hsubmission
    refine ⟨core, taps, ?_, hcount⟩
    by_cases hchannel : submission.channel = t.channel
    · rw [hchannel, hnone] at hcompleted
      cases hcompleted
    · dsimp only
      rw [Function.update_of_ne hchannel]
      exact hcompleted

/-- A piece of a task changes the entry of its own worker. -/
theorem Inv.piece {w : Watched M} (h : w.Inv blake3) {i : ℕ} {t : Task M} {shared : Shared}
    {outcome : Option (Task M)} (ht : w.miner.tasks[i]? = some t)
    (hmoves : t.Moves w.miner.shared shared outcome) {nowMs : UInt64} (hle : w.nowMs ≤ nowMs)
    {e : Entry M} (haccepted : e.accepted = (w.entries t.channel).accepted)
    (hcompleted : ∀ p, (w.entries t.channel).completed = some p → e.completed = some p)
    (hleaves : Task.Leaves blake3 nowMs w.miner.shared t.channel e shared outcome)
    (hkept : ∀ core taps, e.completed = some (core, taps) → Kept blake3 e core taps) :
    (⟨w.miner.afterPiece shared (Miner.settle w.miner.tasks i outcome),
      Function.update w.entries t.channel e, nowMs⟩ : Watched M).Inv blake3 := by
  obtain ⟨hnodup, hothers⟩ := Miner.channels_piece h.nodup ht hmoves
  have hmem := List.mem_of_getElem? ht
  have hsame : ∀ t' ∈ outcome, t'.channel = t.channel := by
    rintro t' ht'
    obtain rfl := Option.mem_def.mp ht'
    exact hmoves.sameTask.1
  constructor
  · exact hnodup
  · intro t' ht'
    rcases hothers t' ht' with ht' | ⟨ht', -⟩
    · rw [hsame t' ht']
      exact h.below t hmem
    · exact h.below t' ht'
  · intro channel hle'
    have hne : channel ≠ t.channel :=
      fun heq ↦ absurd (h.below t hmem) (Nat.not_lt.mpr (heq ▸ hle'))
    dsimp only
    rw [Function.update_of_ne hne]
    exact h.fresh channel hle'
  · intro t' ht'
    dsimp only
    rcases hothers t' ht' with ht' | ⟨ht', hchannel⟩
    · rw [hsame t' ht', Function.update_self]
      exact hleaves.recorded t' ht'
    · rw [Function.update_of_ne hchannel]
      exact (h.recorded t' ht').mono hle
  · intro channel core taps hcompleted
    dsimp only at hcompleted ⊢
    by_cases hchannel : channel = t.channel
    · subst hchannel
      rw [Function.update_self] at hcompleted ⊢
      exact hkept core taps hcompleted
    · rw [Function.update_of_ne hchannel] at hcompleted ⊢
      exact h.kept channel core taps hcompleted
  · intro channel hne
    dsimp only at hne ⊢
    by_cases hchannel : channel = t.channel
    · subst hchannel
      rw [Function.update_self] at hne ⊢
      cases houtcome : outcome with
      | none => exact .inl (hleaves.ended houtcome)
      | some t' =>
          right
          obtain ⟨-, hafter⟩ := Miner.settle_perm ht outcome
          refine ⟨t', ?_, hsame t' houtcome⟩
          rw [Miner.afterPiece_tasks, ← houtcome]
          apply hafter.mem_iff.mpr
          rw [houtcome]
          exact List.mem_append_left _ (List.mem_singleton_self _)
    · rw [Function.update_of_ne hchannel] at hne ⊢
      rcases h.accounted channel hne with hcompleted | ⟨t', ht', hchannel'⟩
      · exact .inl hcompleted
      · right
        obtain ⟨hbefore, hafter⟩ := Miner.settle_perm ht outcome
        refine ⟨t', ?_, hchannel'⟩
        rcases List.mem_cons.mp (hbefore.mem_iff.mp ht') with rfl | hrest
        · exact absurd hchannel'.symm hchannel
        · exact hafter.mem_iff.mpr (List.mem_append_right _ hrest)
  · intro x hx
    dsimp only
    rcases hleaves.submissions x hx with hx | ⟨hchannel, hsubmitted⟩
    · obtain ⟨core, taps, hold, hcount⟩ := h.submitted x hx
      refine ⟨core, taps, ?_, hcount⟩
      by_cases hchannel : x.channel = t.channel
      · rw [hchannel, Function.update_self]
        exact hcompleted _ (hchannel ▸ hold)
      · rw [Function.update_of_ne hchannel]
        exact hold
    · rw [hchannel, Function.update_self]
      exact hsubmitted

theorem le_getLastD {nowMs : UInt64} {times : List UInt64}
    (h : (nowMs :: times).Pairwise (· ≤ ·)) : nowMs ≤ times.getLastD nowMs := by
  rcases List.mem_cons.mp (List.getLastD_mem_cons (l := times) (a := nowMs)) with heq | hmem
  · rw [heq]
    exact UInt64.le_refl _
  · exact (List.pairwise_cons.mp h).1 _ hmem

theorem getLastD_of_round? {t : Task M} {i : ℕ} {wake : Wake} {round : Task.Round M}
    (h : t.round? wake = some round) (nowMs : UInt64) :
    (Miner.Label.task i wake).times.getLastD nowMs = round.nowMs := by
  cases wake with
  | accountRead account startMs time =>
      rw [Task.round?] at h
      split at h
      · obtain rfl := Option.some.inj h
        rfl
      · cases h
  | tick time =>
      rw [Task.round?] at h
      split at h
      · obtain rfl := Option.some.inj h
        rfl
      · cases h
  | _ => cases h

theorem Inv.task (hlaws : M.CommitLaws) {w : Watched M} (h : w.Inv blake3) {i : ℕ} {wake : Wake}
    {t : Task M} {shared : Shared} {outcome : Option (Task M)}
    (hread : w.TapsRead (.task i wake)) (ht : w.miner.tasks[i]? = some t)
    (hadvance : t.advance blake3 w.miner.shared wake = some (shared, outcome))
    (hclock : (w.nowMs :: (Miner.Label.task i wake).times).Pairwise (· ≤ ·)) :
    (⟨w.miner.afterPiece shared (Miner.settle w.miner.tasks i outcome),
      w.record blake3 (.task i wake),
      (Miner.Label.task i wake).times.getLastD w.nowMs⟩ : Watched M).Inv blake3 := by
  have hmoves := Task.moves_of_advance hadvance
  have hrecorded := h.recorded t (List.mem_of_getElem? ht)
  have hle := le_getLastD hclock
  cases hround : t.round? wake with
  | none =>
      have hrecord : w.record blake3 (.task i wake) =
          Function.update w.entries t.channel (w.entries t.channel) := by
        rw [Function.update_eq_self]
        simp only [record, ht, hround]
      have hleaves := Task.leaves_of_advance_none (hrecorded.mono hle) (h.kept t.channel) hround
        hadvance
      rw [hrecord]
      exact h.piece ht hmoves hle rfl (fun _ hp ↦ hp) hleaves (h.kept t.channel)
  | some round =>
      have hrecord : w.record blake3 (.task i wake) = Function.update w.entries t.channel
          ((w.entries t.channel).afterRound blake3 t round) := by
        simp only [record, ht, hround]
      have hlast := getLastD_of_round? (i := i) hround w.nowMs
      rw [hlast] at hle
      obtain ⟨hleaves, hkept⟩ := Task.leaves_of_advance_some hlaws hrecorded hround hle
        (hread t ht round hround) hadvance
      rw [hrecord, hlast]
      refine h.piece ht hmoves hle rfl ?_ hleaves hkept
      intro p hp
      have hnone := hrecorded.completed_of_round? hround
      rw [hp] at hnone
      cases hnone

theorem Inv.step (hlaws : M.CommitLaws) {w w' : Watched M} {l : Miner.Label}
    (h : w.Inv blake3) (hread : w.TapsRead l) (hstep : w.Step blake3 l w') : w'.Inv blake3 := by
  obtain ⟨hclock, hsome⟩ := Option.ite_none_right_eq_some.mp hstep
  obtain ⟨miner, hminer, rfl⟩ := Option.map_eq_some_iff.mp hsome
  cases l with
  | start durationMs id =>
      obtain rfl := Option.some.inj hminer
      cases hstart : w.miner.start durationMs id with
      | error e => exact h.sameTaps (.refl _)
      | ok miner => exact h.start hstart
  | stop =>
      obtain rfl := Option.some.inj hminer
      exact h.sameTaps w.miner.sameTaps_stop
  | addTap x y =>
      obtain rfl := Option.some.inj hminer
      rw [Miner.addTap, record]
      cases hfind : w.miner.shared.workers.find? fun worker ↦ worker.status = .computing with
      | none => exact h.sameTaps (.refl _)
      | some worker =>
          obtain ⟨t, ht, hchannel, hcollects⟩ := hread worker hfind
          have hadded := h.addTap ht hcollects x y
          rw [hchannel] at hadded
          exact hadded
  | removeSeed seed =>
      obtain rfl := Option.some.inj hminer
      exact h.sameTaps ⟨rfl, rfl, rfl⟩
  | event e =>
      obtain rfl := Option.some.inj hminer
      exact h.sameTaps (w.miner.sameTaps_handleEvent e)
  | task i wake =>
      obtain ⟨t, ht, hpiece⟩ := Option.bind_eq_some_iff.mp hminer
      obtain ⟨⟨shared, outcome⟩, hadvance, hafter⟩ := Option.bind_eq_some_iff.mp hpiece
      obtain rfl := Option.some.inj hafter
      exact h.task hlaws hread ht hadvance hclock

theorem Inv.pending {w : Watched M} (h : w.Inv blake3) {t : Task M} (ht : t ∈ w.miner.tasks)
    (hnone : (w.entries t.channel).completed = none) : w.Pending t.channel t := by
  cases h.recorded t ht with
  | early hpc hcollects hcompleted haccepted hcallbacks =>
      have htaps : t.hardTaps = [] := by rw [Task.hardTaps, hpc]
      refine ⟨ht, rfl, hcollects, ?_, ?_⟩
      · rw [htaps, haccepted]
        rfl
      · rw [htaps, hcallbacks]
        rfl
  | computing cores hpc hcollects hcore hcompleted haccepted hcallbacks =>
      have htaps : t.hardTaps = cores.tap.taps := by rw [Task.hardTaps, hpc]
      exact ⟨ht, rfl, hcollects, htaps ▸ haccepted, htaps ▸ hcallbacks⟩
  | ended cores taps hpc hcollects hcompleted =>
      rw [hnone] at hcompleted
      cases hcompleted

theorem Inv.noTapLost {w : Watched M} (h : w.Inv blake3) : w.NoTapLost blake3 where
  accounted channel hne := by
    cases hcompleted : (w.entries channel).completed with
    | some p => exact .inr ⟨p.1, p.2, h.kept channel p.1 p.2 hcompleted⟩
    | none =>
        rcases h.accounted channel hne with hsome | ⟨t, ht, rfl⟩
        · exact absurd hcompleted hsome
        · exact .inl ⟨t, h.pending ht hcompleted⟩
  completed := h.kept
  submitted := h.submitted

/-- No tap is lost in the runs whose steps read the taps they accept. -/
theorem noTapLost_of_run (hlaws : M.CommitLaws) {seeds : List String}
    {complexity : UInt32 × UInt32} {ls : List Miner.Label} {w : Watched M}
    (h : Run (Guarded TapsRead (Step blake3)) (init M seeds complexity) ls w) :
    w.NoTapLost blake3 := by
  have hinv : w.Inv blake3 := by
    apply h.invariant _ _ (inv_init seeds complexity)
    rintro s l t hs ⟨hread, hstep⟩
    exact hs.step hlaws hread hstep
  exact hinv.noTapLost

/-! ## Taps in time and too late -/

instance (t : Task M) (round : Task.Round M) : Decidable (t.ReadsAll round) :=
  decidable_of_iff
    (((t.inbox.head?.bind MinerCommand.tap?).isSome = true →
        (round.cores.tap.withDeadline round.nowMs).deadlineReachedMs round.nowMs = false) ∧
      (t.breaks round = true → t.inbox.tail.filterMap MinerCommand.tap? = []))
    ⟨fun h ↦ ⟨h.1, h.2⟩, fun h ↦ ⟨h.in_time, h.none_left⟩⟩

instance (w : Watched M) : (l : Miner.Label) → Decidable (w.TapsRead l)
  | .addTap _ _ => inferInstanceAs (Decidable (∀ worker ∈ w.miner.shared.workers.find? _,
      ∃ t ∈ w.miner.tasks, t.channel = worker.sender ∧ t.pc.collects = true))
  | .task i wake => inferInstanceAs (Decidable (∀ t ∈ w.miner.tasks[i]?,
      ∀ round ∈ t.round? wake, t.ReadsAll round))
  | .start _ _ | .stop | .removeSeed _ | .event _ => isTrue trivial

/-- A worker reads two taps, and stops. -/
def tapsInTime : List Miner.Label :=
  [.start 1000 1, .task 0 .begin, .addTap 3 4, .task 0 (.accountRead (.error "timeout") 0 0),
    .task 0 (.tick 500), .addTap 5 6, .task 0 (.tick 600), .stop, .task 0 (.tick 700)]

theorem noTapLost_tapsInTime :
    ∃ w, Run (Guarded TapsRead (Step Blake3.hash))
        (init (RsMerkle.reference Blake3.hash) ["a"] (0, 0)) tapsInTime w ∧
      ((w.entries 0).accepted, (w.entries 0).completed.map Prod.snd) =
        ([(3, 4), (5, 6)], some 2) ∧ w.NoTapLost Blake3.hash := by
  have hrun : ((run? (guard? TapsRead (step? Blake3.hash))
      (init (RsMerkle.reference Blake3.hash) ["a"] (0, 0)) tapsInTime).map fun w ↦
        ((w.entries 0).accepted, (w.entries 0).completed.map Prod.snd)) =
          some ([(3, 4), (5, 6)], some 2) := by decide +kernel
  obtain ⟨w, hw, htaps⟩ := Option.map_eq_some_iff.mp hrun
  have hrun := run_guarded_of_run? hw
  exact ⟨w, hrun, htaps, noTapLost_of_run (RsMerkle.reference_commitLaws Blake3.hash) hrun⟩

/-- Two taps wait when the duration is reached: one is read and dropped by the
hard core, the other is not read. -/
def tapsTooLate : List Miner.Label :=
  [.start 1000 1, .task 0 .begin, .addTap 3 4, .task 0 (.accountRead (.error "timeout") 0 0),
    .task 0 (.tick 500), .addTap 5 6, .addTap 7 8, .task 0 (.tick 1000)]

theorem not_noTapLost :
    ∃ w, Run (Step Blake3.hash) (init (RsMerkle.reference Blake3.hash) ["a"] (0, 0))
      tapsTooLate w ∧ ¬w.NoTapLost Blake3.hash := by
  have hrun : ((run? (step? Blake3.hash)
      (init (RsMerkle.reference Blake3.hash) ["a"] (0, 0)) tapsTooLate).map fun w ↦
        ((w.entries 0).accepted, (w.entries 0).tapComputed,
          (w.entries 0).completed.map fun p ↦ (p.1.taps, p.2))) =
            some ([(3, 4), (5, 6), (7, 8)], 2, some ([(3, 4)], 1)) := by decide +kernel
  obtain ⟨w, hw, htaps⟩ := Option.map_eq_some_iff.mp hrun
  refine ⟨w, run?_eq_some_iff.mp hw, ?_⟩
  intro h
  rw [Prod.mk.injEq, Prod.mk.injEq] at htaps
  obtain ⟨haccepted, -, hcompleted⟩ := htaps
  obtain ⟨p, hp, hvalues⟩ := Option.map_eq_some_iff.mp hcompleted
  rw [Prod.mk.injEq] at hvalues
  have hkept := (h.completed 0 p.1 p.2 hp).accepted_eq
  rw [haccepted, hvalues.1] at hkept
  have hlength := congrArg List.length hkept
  simp at hlength

end Watched

end BeeEngine
