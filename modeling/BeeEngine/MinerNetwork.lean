import BeeEngine.MinedComplexity

/-!
# A miner beside its contract

The contract verifies a session on its current seed with the old complexity,
which only an accepted session replaces.  A worker looks for a session in
flight, awaits the account, and only then selects its complexity; the contract
may take any step in between.
-/

namespace BeeEngine

variable {M : RsMerkle}

/-! ## The contract -/

/-- The contract, with the number of its current seed among all its seeds. -/
structure MinerContract where
  position : ℕ
  complexity : UInt32 × UInt32
  complexityOld : UInt32 × UInt32
  deriving DecidableEq, Repr

namespace MinerContract

def data (seedAt : ℕ → String) (c : MinerContract) : MinerComplexityData where
  seed := seedAt c.position
  nextSeed := seedAt (c.position + 1)
  easy := c.complexity.1
  hard := c.complexity.2
  easyOld := c.complexityOld.1
  hardOld := c.complexityOld.2

/-- The current session is accepted. -/
def accept (c : MinerContract) : MinerContract :=
  { c with position := c.position + 1, complexityOld := c.complexity }

/-- A stale commit is cancelled. -/
def cancel (c : MinerContract) : MinerContract := { c with position := c.position + 1 }

end MinerContract

/-! ## The miner and the contract -/

/-- The seeds of the sessions in flight, as another worker sees them. -/
def Shared.inFlight (s : Shared) (worker : MinerWorker) : List String :=
  (s.workers.filter fun w ↦ w.id ≠ worker.id && w.status = .submitting).map MinerWorker.seed

theorem any_updateWorkerStatus (id : UInt64) (status : MinerStatus) (p : MinerWorker → Bool)
    (workers : List MinerWorker) :
    ((updateWorkerStatus id status workers).any fun w ↦ w.id ≠ id && p w) =
      workers.any fun w ↦ w.id ≠ id && p w := by
  induction workers with
  | nil => rfl
  | cons w workers ih =>
      rw [updateWorkerStatus]
      split
      · rename_i hw
        simp [hw]
      · rw [List.any_cons, List.any_cons, ih]

/-- The flag that a worker computes, after the update of its own status. -/
theorem Shared.any_inFlight (s : Shared) (worker : MinerWorker) (status : MinerStatus) :
    ((updateWorkerStatus worker.id status s.workers).any fun w ↦
      w.id ≠ worker.id && w.status = .submitting) = !(s.inFlight worker).isEmpty := by
  rw [any_updateWorkerStatus, inFlight, List.isEmpty_map, Bool.eq_iff_iff]
  simp

/-- What was the case when a worker began, and the account data it was served.
It is calm until the complexity changes before the session in flight is
accepted. -/
structure Beginning where
  seed : String
  inFlight : List String
  read : Option MinerComplexityData
  calm : Bool
  deriving DecidableEq, Repr

/-- The miner, its contract and the events on their way; the other fields are a
record that no step of the miner or the contract reads. -/
structure Network (M : RsMerkle) where
  miner : Miner M
  contract : MinerContract
  outbox : List MinerEvent
  accepted : List String
  beginnings : ℕ → Option Beginning
  cached : ℕ → UInt32 × UInt32
  lastUpdate : UInt32 × UInt32

namespace Network

inductive Label where
  | call (l : Miner.Label)
  | serveAccount (i : ℕ)
  | accept
  | cancel
  | changeComplexity (easy hard : UInt32)
  | notify (e : MinerEvent)
  | deliver
  | lose
  deriving DecidableEq, Repr

variable (seedAt : ℕ → String)

/-- The miner that `new` builds; it skips the current seed if the contract
holds a stale commit. -/
def init (M : RsMerkle) (complexity complexityOld : UInt32 × UInt32) (stale : Bool) :
    Network M where
  miner := Miner.init M (if stale then [seedAt 1] else [seedAt 0, seedAt 1]) complexity
  contract := ⟨0, complexity, complexityOld⟩
  outbox := []
  accepted := []
  beginnings _ := none
  cached _ := complexity
  lastUpdate := complexity

/-- Events come from the outbox only, and account data from the contract. -/
def served (N : Network M) : Miner.Label → Bool
  | .event _ => false
  | .task i (.accountRead (.ok data) _ _) =>
      (N.miner.tasks[i]?.bind fun t ↦ N.beginnings t.channel).any fun b ↦ b.read = some data
  | _ => true

/-- The record of a call: the pair that a new worker caches, and what a worker
sees as it begins. -/
def record (N : Network M) : Miner.Label → Network M
  | .start _ _ => { N with cached := Function.update N.cached N.miner.nextChannel N.lastUpdate }
  | .task i .begin =>
      match N.miner.tasks[i]? with
      | some t =>
          { N with
            beginnings := Function.update N.beginnings t.channel
              (some ⟨t.worker.seed, N.miner.shared.inFlight t.worker, none, true⟩) }
      | none => N
  | _ => N

theorem record_of_ne {N : Network M} {i : ℕ} {wake : Wake} (h : wake ≠ .begin) :
    N.record (.task i wake) = N := by
  cases wake with
  | begin => exact absurd rfl h
  | accountRead | tick | retry | rootSubmitted | command | proofSubmitted => rfl

def serveAccount (N : Network M) (i : ℕ) : Option (Network M) := do
  let t ← N.miner.tasks[i]?
  let b ← N.beginnings t.channel
  match t.pc, b.read with
  | .fetchingAccount _, none =>
      some { N with
        beginnings := Function.update N.beginnings t.channel
          (some { b with read := some (N.contract.data seedAt), calm := true }) }
  | _, _ => none

/-- The contract accepts a session that was submitted for its current seed. -/
def accept (N : Network M) : Option (Network M) :=
  if N.miner.shared.submissions.any fun x ↦ x.seed = seedAt N.contract.position then
    some { N with
      contract := N.contract.accept
      outbox := N.outbox ++ [.seedUpdated (seedAt (N.contract.position + 2))]
      accepted := N.accepted ++ [seedAt N.contract.position] }
  else none

def cancel (N : Network M) : Network M :=
  { N with
    contract := N.contract.cancel
    outbox := N.outbox ++ [.seedUpdated (seedAt (N.contract.position + 2))] }

def Beginning.disturb (accepted : List String) (b : Beginning) : Beginning :=
  { b with calm := b.calm && b.inFlight.all fun seed ↦ seed ∈ accepted }

def changeComplexity (N : Network M) (easy hard : UInt32) : Network M :=
  { N with
    contract := { N.contract with complexity := (easy, hard) }
    outbox := N.outbox ++ [.complexityUpdated easy hard]
    beginnings := fun c ↦ (N.beginnings c).map (Beginning.disturb N.accepted) }

/-- What the contract says about sessions is not restricted. -/
def notify (N : Network M) : MinerEvent → Option (Network M)
  | .seedUpdated _ => none
  | .complexityUpdated _ _ => none
  | e => some { N with outbox := N.outbox ++ [e] }

/-- The pair of the last `ComplexityUpdated` event. -/
def lastUpdateAfter (pair : UInt32 × UInt32) : MinerEvent → UInt32 × UInt32
  | .complexityUpdated easy hard => (easy, hard)
  | _ => pair

def deliver (N : Network M) : Option (Network M) :=
  match N.outbox with
  | [] => none
  | e :: rest =>
      some { N with
        miner := N.miner.handleEvent e
        outbox := rest
        lastUpdate := lastUpdateAfter N.lastUpdate e }

/-- The task that reads the events misses one. -/
def lose (N : Network M) : Option (Network M) :=
  match N.outbox with
  | [] => none
  | _ :: rest => some { N with outbox := rest }

def step? (blake3 : Bytes → Bytes32) (N : Network M) : Label → Option (Network M)
  | .call l =>
      if N.served l then (N.miner.step? blake3 l).map fun s ↦ { N.record l with miner := s }
      else none
  | .serveAccount i => N.serveAccount seedAt i
  | .accept => N.accept seedAt
  | .cancel => some (N.cancel seedAt)
  | .changeComplexity easy hard => some (N.changeComplexity easy hard)
  | .notify e => N.notify e
  | .deliver => N.deliver
  | .lose => N.lose

def Step (blake3 : Bytes → Bytes32) (N : Network M) (l : Label) (N' : Network M) : Prop :=
  N.step? seedAt blake3 l = some N'

end Network

end BeeEngine
