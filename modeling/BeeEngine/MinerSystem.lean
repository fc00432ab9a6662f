import BeeEngine.Completeness

/-!
# The miner and its worker tasks

A miner owns a queue of seeds and a list of workers.  Each call of `start`
spawns a task, which runs in pieces: a piece ends where the task awaits, and
between two pieces any call, event or other task may run.  A step below is one
such piece.  Replies of the network and times of the clock are part of the
label of a step.
-/

namespace BeeEngine

/-! ## Messages and workers -/

structure Interval where
  start : UInt64
  stop : UInt64
  deriving DecidableEq, Repr

structure SessionIntervalData where
  workerId : UInt64
  easy : Interval
  hard : Interval
  deriving DecidableEq, Repr

inductive MinerCommand where
  | stop
  | queueTap (x y : UInt32)
  | sendSessionInterval (data : SessionIntervalData)
  | processSessionAccepted (wasmResult : String)
  | processSessionRejected (wasmResult : String)
  deriving DecidableEq, Repr

inductive MinerStatus where
  | queued
  | computing
  | submitting
  | finished
  deriving DecidableEq, Repr

/-- An entry of the workers list; the sender is the channel of its task. -/
structure MinerWorker where
  id : UInt64
  sender : ℕ
  status : MinerStatus
  seed : String
  durationMs : UInt64
  easyComplexity : UInt32
  hardComplexity : UInt32
  deriving DecidableEq, Repr

def updateWorkerStatus (workerId : UInt64) (status : MinerStatus) :
    List MinerWorker → List MinerWorker
  | [] => []
  | w :: workers =>
      if w.id = workerId then { w with status := status } :: workers
      else w :: updateWorkerStatus workerId status workers

/-! ## Complexity of a session -/

/-- The fields of the miner account that select the complexity. -/
structure MinerComplexityData where
  seed : String
  nextSeed : String
  easy : UInt32
  hard : UInt32
  easyOld : UInt32
  hardOld : UInt32
  deriving DecidableEq, Repr

def selectSessionComplexity (seed : String) (data : MinerComplexityData)
    (sessionInFlight : Bool) : Option (UInt32 × UInt32) :=
  if seed = data.seed then some (data.easyOld, data.hardOld)
  else if seed = data.nextSeed then
    if sessionInFlight then some (data.easy, data.hard) else some (data.easyOld, data.hardOld)
  else none

/-- The complexity a worker mines with, after its account is read or failed to
be read. -/
def MinerWorker.sessionComplexity (worker : MinerWorker)
    (account : Except String MinerComplexityData) (sessionInFlight : Bool) : UInt32 × UInt32 :=
  match account with
  | .error _ => (worker.easyComplexity, worker.hardComplexity)
  | .ok data =>
      (selectSessionComplexity worker.seed data sessionInFlight).getD
        (worker.easyComplexity, worker.hardComplexity)

/-! ## Tasks -/

/-- The two cores of a task, for time and for taps. -/
structure Cores (M : RsMerkle) where
  time : MiningCore M
  tap : MiningCore M

/-- The complexity that the cores mine with. -/
def Cores.complexity {M : RsMerkle} (cores : Cores M) : UInt32 × UInt32 :=
  (cores.time.targetBits, cores.tap.targetBits)

/-- Where a task is. -/
inductive Pc (M : RsMerkle) where
  | spawned
  | fetchingAccount (sessionInFlight : Bool)
  | computing (cores : Cores M) (startMs : UInt64)
  | waitingSubmitter (cores : Cores M)
  | submittingRoot (cores : Cores M)
  | awaitingCommand (cores : Cores M)
  | submittingProof (cores : Cores M)

/-- What a worker read of the account, and its flag at that time. -/
abbrev AccountView := Except String MinerComplexityData × Bool

/-- A live task with its own copy of the worker and the unread commands; what
it read of the account is a record that no step reads. -/
structure Task (M : RsMerkle) where
  channel : ℕ
  worker : MinerWorker
  inbox : List MinerCommand
  pc : Pc M
  view : Option AccountView

/-- A session that was sent to the contract, with its worker and complexity and
the seeds that had been reported as used at that time. -/
structure Submission where
  channel : ℕ
  worker : MinerWorker
  complexity : UInt32 × UInt32
  view : Option AccountView
  easy : SessionSubmit
  hard : SessionSubmit
  reported : List String
  deriving DecidableEq, Repr

def Submission.seed (x : Submission) : String := x.worker.seed

/-- The callback for a removed worker. -/
structure Removal where
  workerId : UInt64
  seed : Option String
  minerStateCorrupted : Bool
  deriving DecidableEq, Repr

/-- What the tasks of a miner share; the removals and submissions are a record
that no step reads. -/
structure Shared where
  seeds : List String
  workers : List MinerWorker
  removals : List Removal
  submissions : List Submission
  deriving DecidableEq, Repr

namespace Shared

/-- The seeds reported as used. -/
def reported (s : Shared) : List String := s.removals.filterMap Removal.seed

def anySubmitting (s : Shared) : Bool := s.workers.any fun w ↦ w.status = .submitting

def shutdownWorker (s : Shared) (worker : MinerWorker) (seedUsed minerStateCorrupted : Bool) :
    Shared :=
  { s with
    workers := (updateWorkerStatus worker.id .finished s.workers).filter fun w ↦
      w.id ≠ worker.id
    removals := s.removals ++
      [⟨worker.id, if seedUsed then some worker.seed else none, minerStateCorrupted⟩] }

end Shared

/-- The session proof for an interval; the outer `none` is a panic. -/
def sessionProofs {M : RsMerkle} (cores : Cores M) (data : SessionIntervalData) :
    Option (Except String SessionProofs) :=
  let hardLeaves := cores.tap.getMerkle.2.leaves.length
  match cores.time.getProof (data.easy.start.toNat % 2 ^ 32) (data.easy.stop.toNat % 2 ^ 32) with
  | none => none
  | some (.error e) => some (.error ("Get easy proof (" ++ e ++ ")"))
  | some (.ok easy) =>
  match cores.tap.getProof 0 1 with
  | none => none
  | some (.error e) => some (.error ("Get hard first proof (" ++ e ++ ")"))
  | some (.ok hardFirst) =>
  match cores.tap.getProof (data.hard.start.toNat % 2 ^ 32) (data.hard.stop.toNat % 2 ^ 32) with
  | none => none
  | some (.error e) => some (.error ("Get hard range proof (" ++ e ++ ")"))
  | some (.ok hardRange) =>
  match cores.tap.getProof (hardLeaves - 1) hardLeaves with
  | none => none
  | some (.error e) => some (.error ("Get hard last proof (" ++ e ++ ")"))
  | some (.ok hardLast) => some (.ok ⟨easy, hardFirst, hardRange, hardLast⟩)

/-- What lets a task run its next piece. -/
inductive Wake where
  | begin
  | accountRead (account : Except String MinerComplexityData) (startMs nowMs : UInt64)
  | tick (nowMs : UInt64)
  | retry
  | rootSubmitted (ok : Bool)
  | command
  | proofSubmitted (ok : Bool)
  deriving DecidableEq, Repr

namespace Task

variable {M : RsMerkle} (blake3 : Bytes → Bytes32)

/-- A piece leaves the task at its next await, or ends it. -/
abbrev Outcome (M : RsMerkle) := Shared × Option (Task M)

/-- The end of a task. -/
def shutdown (s : Shared) (t : Task M) (seedUsed minerStateCorrupted : Bool) : Outcome M :=
  (s.shutdownWorker t.worker seedUsed minerStateCorrupted, none)

/-- The session that a task sends. -/
def submission (s : Shared) (t : Task M) (cores : Cores M) : Submission where
  channel := t.channel
  worker := t.worker
  complexity := cores.complexity
  view := t.view
  easy := cores.time.sessionSubmit
  hard := cores.tap.sessionSubmit
  reported := s.reported

/-- One round of the wait for other submitting workers. -/
def trySubmit (s : Shared) (t : Task M) (cores : Cores M) : Outcome M :=
  if s.anySubmitting then (s, some { t with pc := .waitingSubmitter cores })
  else
    ({ s with
        workers := updateWorkerStatus t.worker.id .submitting s.workers
        submissions := s.submissions ++ [t.submission s cores] },
      some { t with pc := .submittingRoot cores })

/-- From the end of the computation to the next await. -/
def finalize (s : Shared) (t : Task M) (cores : Cores M) : Outcome M :=
  let timeTree := cores.time.getMerkle
  let tapTree := cores.tap.getMerkle
  if timeTree.2.leaves.isEmpty || tapTree.2.leaves.isEmpty then
    shutdown { s with seeds := t.worker.seed :: s.seeds } t false false
  else trySubmit s t ⟨timeTree.1, tapTree.1⟩

/-- The check at the end of a round of the computation. -/
def checkDuration (s : Shared) (t : Task M) (cores : Cores M) (startMs nowMs : UInt64) :
    Outcome M :=
  if startMs + t.worker.durationMs ≤ nowMs then finalize s t cores
  else (s, some { t with pc := .computing cores startMs })

/-- One round of the computation; `none` if a search for a nonce does not end. -/
def computeRound (s : Shared) (t : Task M) (cores : Cores M) (startMs nowMs : UInt64) :
    Option (Outcome M) :=
  match t.inbox with
  | [] =>
      (cores.time.compute blake3 ⟨0, 0, nowMs⟩).map fun r ↦
        checkDuration s t { cores with time := r.1 } startMs nowMs
  | .queueTap x y :: rest =>
      (cores.tap.compute blake3 ⟨x, y, nowMs⟩).map fun r ↦
        checkDuration s { t with inbox := rest } { cores with tap := r.1 } startMs nowMs
  | .stop :: rest => some (finalize s { t with inbox := rest } cores)
  | _ :: rest => some (checkDuration s { t with inbox := rest } cores startMs nowMs)

def begin (s : Shared) (t : Task M) : Outcome M :=
  let s := { s with workers := updateWorkerStatus t.worker.id .computing s.workers }
  let sessionInFlight := s.workers.any fun w ↦ w.id ≠ t.worker.id && w.status = .submitting
  (s, some { t with pc := .fetchingAccount sessionInFlight })

def processCommand (s : Shared) (t : Task M) (cores : Cores M) : Option (Outcome M) :=
  match t.inbox with
  | [] => none
  | .sendSessionInterval data :: rest =>
      (sessionProofs cores data).map fun
        | .error _ => shutdown s t true false
        | .ok _ => (s, some { t with inbox := rest, pc := .submittingProof cores })
  | .processSessionAccepted _ :: _ => some (shutdown s t true false)
  | .processSessionRejected _ :: _ => some (shutdown s t true false)
  | _ :: rest => some (s, some { t with inbox := rest })

/-- The next piece of a task, if it is woken for what it awaits. -/
def advance (s : Shared) (t : Task M) : Wake → Option (Outcome M)
  | .begin =>
      match t.pc with
      | .spawned => some (begin s t)
      | _ => none
  | .accountRead account startMs nowMs =>
      match t.pc with
      | .fetchingAccount sessionInFlight =>
          let complexity := t.worker.sessionComplexity account sessionInFlight
          computeRound blake3 s { t with view := some (account, sessionInFlight) }
            ⟨.new M t.worker.seed t.worker.durationMs complexity.1,
              .new M t.worker.seed t.worker.durationMs complexity.2⟩ startMs nowMs
      | _ => none
  | .tick nowMs =>
      match t.pc with
      | .computing cores startMs => computeRound blake3 s t cores startMs nowMs
      | _ => none
  | .retry =>
      match t.pc with
      | .waitingSubmitter cores => some (trySubmit s t cores)
      | _ => none
  | .rootSubmitted ok =>
      match t.pc with
      | .submittingRoot cores =>
          if ok then some (s, some { t with pc := .awaitingCommand cores })
          else some (shutdown s t true true)
      | _ => none
  | .command =>
      match t.pc with
      | .awaitingCommand cores => processCommand s t cores
      | _ => none
  | .proofSubmitted ok =>
      match t.pc with
      | .submittingProof cores =>
          if ok then some (s, some { t with pc := .awaitingCommand cores })
          else some (shutdown s t true false)
      | _ => none

end Task

/-! ## Calls and events -/

inductive MinerEvent where
  | sessionInterval (data : SessionIntervalData)
  | seedUpdated (nextSeed : String)
  | complexityUpdated (easy hard : UInt32)
  | sessionAccepted (data wasmResult : String)
  | sessionRejected (data wasmResult : String)
  deriving DecidableEq, Repr

/-- The worker that a session result is about, from its hexadecimal data. -/
def sessionStatusWorkerId (data : String) : Option UInt64 :=
  match Bytes.hexDecode data with
  | .error _ => none
  | .ok bytes =>
      match Codec.u64.fromSlice bytes with
      | .error _ => none
      | .ok workerId => some workerId

/-- A miner with its live tasks; the seeds received so far and the channels of
the workers removed by `stop` are a record that no step reads. -/
structure Miner (M : RsMerkle) where
  shared : Shared
  complexity : UInt32 × UInt32
  tasks : List (Task M)
  nextChannel : ℕ
  received : List String
  stopped : List ℕ

/-- A task reads what is sent on its channel. -/
def Task.deliver {M : RsMerkle} (sender : ℕ) (command : MinerCommand) (t : Task M) : Task M :=
  if t.channel = sender then { t with inbox := t.inbox ++ [command] } else t

namespace Miner

variable {M : RsMerkle} (blake3 : Bytes → Bytes32)

/-- The miner that `new` builds from the seeds and the complexity it reads. -/
def init (M : RsMerkle) (seeds : List String) (complexity : UInt32 × UInt32) : Miner M where
  shared := ⟨seeds, [], [], []⟩
  complexity := complexity
  tasks := []
  nextChannel := 0
  received := seeds
  stopped := []

/-- Send a command; the task may have ended. -/
def send (s : Miner M) (sender : ℕ) (command : MinerCommand) : Miner M :=
  { s with tasks := s.tasks.map (Task.deliver sender command) }

def canStart (s : Miner M) : Bool :=
  let isActiveWorker := s.shared.workers.any fun w ↦ w.status = .computing
  let isSeedsEmpty := s.shared.seeds.isEmpty
  !isActiveWorker && !isSeedsEmpty

/-- `start`, which draws the given worker id. -/
def start (s : Miner M) (durationMs : UInt32) (id : UInt64) : Except String (Miner M) :=
  if s.shared.workers.any fun w ↦ w.status = .computing then
    .error "There is already running worker"
  else
    match s.shared.seeds with
    | [] => .error "No seeds available"
    | seed :: seeds =>
        let worker : MinerWorker :=
          { id := id
            sender := s.nextChannel
            status := .queued
            seed := seed
            durationMs := durationMs.toUInt64
            easyComplexity := s.complexity.1
            hardComplexity := s.complexity.2 }
        .ok { s with
          shared := { s.shared with seeds := seeds, workers := s.shared.workers ++ [worker] }
          tasks := s.tasks ++ [⟨s.nextChannel, worker, [], .spawned, none⟩]
          nextChannel := s.nextChannel + 1 }

def stop (s : Miner M) : Miner M :=
  let removed := s.shared.workers.filter fun w ↦ w.status = .queued
  let kept := s.shared.workers.filter fun w ↦ w.status ≠ .queued
  let s := { s with
    shared := { s.shared with workers := kept }
    stopped := s.stopped ++ removed.map MinerWorker.sender }
  (kept.filter fun w ↦ w.status = .computing).foldl (fun s w ↦ s.send w.sender .stop) s

def addTap (s : Miner M) (x y : UInt32) : Except String (Miner M) :=
  match s.shared.workers.find? fun w ↦ w.status = .computing with
  | some worker => .ok (s.send worker.sender (.queueTap x y))
  | none => .error "No running workers to add tap to"

def removeSeed (s : Miner M) (seed : String) : Miner M :=
  { s with shared := { s.shared with seeds := s.shared.seeds.filter fun v ↦ v ≠ seed } }

/-- A command for the first worker with an id, if there is one. -/
def sendTo (s : Miner M) (workerId : UInt64) (command : MinerCommand) : Miner M :=
  match s.shared.workers.find? fun w ↦ w.id = workerId with
  | some worker => s.send worker.sender command
  | none => s

def handleSessionResult (s : Miner M) (sessionStatusData : String) (cmd : MinerCommand) :
    Miner M :=
  match sessionStatusWorkerId sessionStatusData with
  | none => s
  | some workerId => s.sendTo workerId cmd

def handleEvent (s : Miner M) : MinerEvent → Miner M
  | .sessionInterval data => s.sendTo data.workerId (.sendSessionInterval data)
  | .seedUpdated nextSeed =>
      { s with
        shared := { s.shared with seeds := s.shared.seeds ++ [nextSeed] }
        received := s.received ++ [nextSeed] }
  | .complexityUpdated easy hard => { s with complexity := (easy, hard) }
  | .sessionAccepted data wasmResult =>
      s.handleSessionResult data (.processSessionAccepted wasmResult)
  | .sessionRejected data wasmResult =>
      s.handleSessionResult data (.processSessionRejected wasmResult)

/-! ## Steps -/

inductive Label where
  | start (durationMs : UInt32) (id : UInt64)
  | stop
  | addTap (x y : UInt32)
  | removeSeed (seed : String)
  | event (e : MinerEvent)
  | task (i : ℕ) (wake : Wake)
  deriving DecidableEq, Repr

/-- The tasks after the next piece of task `i`. -/
def settle (tasks : List (Task M)) (i : ℕ) : Option (Task M) → List (Task M)
  | some t => tasks.set i t
  | none => tasks.eraseIdx i

/-- The miner after a piece of one of its tasks. -/
def afterPiece (s : Miner M) (shared : Shared) (tasks : List (Task M)) : Miner M :=
  { s with shared := shared, tasks := tasks }

@[simp] theorem afterPiece_shared (s : Miner M) (shared : Shared) (tasks : List (Task M)) :
    (s.afterPiece shared tasks).shared = shared := rfl

@[simp] theorem afterPiece_tasks (s : Miner M) (shared : Shared) (tasks : List (Task M)) :
    (s.afterPiece shared tasks).tasks = tasks := rfl

/-- A call that fails changes nothing. -/
def orSame (s : Miner M) : Except String (Miner M) → Miner M
  | .ok s' => s'
  | .error _ => s

def step? (s : Miner M) : Label → Option (Miner M)
  | .start durationMs id => some (s.orSame (s.start durationMs id))
  | .stop => some s.stop
  | .addTap x y => some (s.orSame (s.addTap x y))
  | .removeSeed seed => some (s.removeSeed seed)
  | .event e => some (s.handleEvent e)
  | .task i wake => do
      let t ← s.tasks[i]?
      let (shared, outcome) ← t.advance blake3 s.shared wake
      return s.afterPiece shared (settle s.tasks i outcome)

def Step (s : Miner M) (l : Label) (s' : Miner M) : Prop := s.step? blake3 l = some s'

end Miner

end BeeEngine
