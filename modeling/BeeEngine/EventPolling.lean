import BeeEngine.Lib.Recent
import BeeEngine.Lib.Transition
import BeeEngine.MinerSystem

/-!
# Polling of contract events

`new` reads the details of the contract and the clock; then a task polls the
latest events and handles those created after a mark, which moves to the
newest event it handled.
-/

namespace BeeEngine

open Transition

variable {M : RsMerkle} {blake3 : Bytes → Bytes32}

/-! ## Events -/

/-- An event of the contract, with the result of decoding it. -/
structure Event where
  createdAt : UInt64
  decoded : Except String MinerEvent
  deriving DecidableEq, Repr

namespace Event

/-- The entry of a decoded batch for an event. -/
def item (e : Event) : Except String (UInt64 × MinerEvent) := do
  let decoded ← e.decoded
  return (e.createdAt, decoded)

/-- What can be handled of a list of events. -/
def readable (events : List Event) : List (UInt64 × MinerEvent) :=
  events.filterMap fun e ↦ e.item.toOption

end Event

/-- The decoded events after a mark, from the answer to a query. -/
def getMinerEvents (answer : Except String (List Event)) (afterDt : UInt64) :
    Except String (List (UInt64 × MinerEvent)) :=
  match answer with
  | .error e => .error ("Query miner events (" ++ e ++ ")")
  | .ok events => (events.filter fun e ↦ afterDt < e.createdAt).mapM Event.item

/-! ## The client -/

structure MinerDetails where
  seed : String
  nextSeed : String
  easyComplexity : UInt32
  hardComplexity : UInt32
  submitSessionData : Option String
  deriving DecidableEq, Repr

/-- The miner that `new` makes of the details. -/
def newMiner (M : RsMerkle) (details : MinerDetails) : Miner M :=
  .init M
    (if details.submitSessionData.isSome then [details.nextSeed]
      else [details.seed, details.nextSeed])
    (details.easyComplexity, details.hardComplexity)

/-- The event task: its mark, the answer it awaits and the miner it serves.
The other fields are a record that no step reads: the details, how many events
they reflect, how many the last answer reflects, how many the last handled
answer reflects, and the handled events. -/
structure EventTask (M : RsMerkle) where
  afterDt : UInt64
  answer : Option (Except String (List Event))
  miner : Miner M
  details : MinerDetails
  snapshot : ℕ
  answered : ℕ
  seen : ℕ
  handled : List MinerEvent

namespace EventTask

def spawn (M : RsMerkle) (details : MinerDetails) (snapshot : ℕ) (afterDt : UInt64) :
    EventTask M where
  afterDt := afterDt
  answer := none
  miner := newMiner M details
  details := details
  snapshot := snapshot
  answered := snapshot
  seen := snapshot
  handled := []

/-- The task after a batch of decoded events. -/
def process (p : EventTask M) (decodedEvents : List (UInt64 × MinerEvent)) : EventTask M where
  afterDt :=
    match (decodedEvents.map Prod.fst).max? with
    | some createdAtMax => createdAtMax
    | none => p.afterDt
  answer := none
  miner := decodedEvents.foldl (fun s e ↦ s.handleEvent e.2) p.miner
  details := p.details
  snapshot := p.snapshot
  answered := p.answered
  seen := p.answered
  handled := p.handled ++ decodedEvents.map Prod.snd

/-- The rest of a round of the task, once it has its answer. -/
def handle (p : EventTask M) (answer : Except String (List Event)) : EventTask M :=
  match getMinerEvents answer p.afterDt with
  | .error _ => { p with answer := none, seen := p.answered }
  | .ok decodedEvents => p.process decodedEvents

end EventTask

inductive Stage (M : RsMerkle) where
  | starting
  | readingDetails (details : MinerDetails) (snapshot : ℕ)
  | cancelling (details : MinerDetails) (snapshot : ℕ) (afterDt : UInt64)
  | polling (p : EventTask M)
  | failed

/-- The events of the contract so far, and how far `new` and its task are. -/
structure Client (M : RsMerkle) where
  log : List Event
  stage : Stage M

namespace Client

inductive Label where
  | emit (e : Event)
  | serveDetails (details : MinerDetails)
  | readClock (nowMs : UInt64)
  | cancelled (ok : Bool)
  | serveEvents
  | failQuery (error : String)
  | handle
  | miner (l : Miner.Label)
  deriving DecidableEq, Repr

def init (M : RsMerkle) : Client M := ⟨[], .starting⟩

/-- The events that a call or a piece of a task is about. -/
def eventOf : Miner.Label → Option MinerEvent
  | .event e => some e
  | _ => none

variable (queryEvents : List Event → List Event) (blake3)

def step? (s : Client M) : Label → Option (Client M)
  | .emit e => some { s with log := s.log ++ [e] }
  | .serveDetails details =>
      match s.stage with
      | .starting => some { s with stage := .readingDetails details s.log.length }
      | _ => none
  | .readClock nowMs =>
      match s.stage with
      | .readingDetails details snapshot =>
          let eventsAfterDt := nowMs / 1000 - 1
          if details.submitSessionData.isSome then
            some { s with stage := .cancelling details snapshot eventsAfterDt }
          else some { s with stage := .polling (.spawn M details snapshot eventsAfterDt) }
      | _ => none
  | .cancelled ok =>
      match s.stage with
      | .cancelling details snapshot eventsAfterDt =>
          if ok then some { s with stage := .polling (.spawn M details snapshot eventsAfterDt) }
          else some { s with stage := .failed }
      | _ => none
  | .serveEvents =>
      match s.stage with
      | .polling p =>
          if p.answer.isNone then
            some { s with
              stage := .polling { p with
                answer := some (.ok (queryEvents s.log))
                answered := s.log.length } }
          else none
      | _ => none
  | .failQuery error =>
      match s.stage with
      | .polling p =>
          if p.answer.isNone then
            some { s with stage := .polling { p with answer := some (.error error) } }
          else none
      | _ => none
  | .handle =>
      match s.stage with
      | .polling p => p.answer.map fun answer ↦ { s with stage := .polling (p.handle answer) }
      | _ => none
  | .miner l =>
      match s.stage with
      | .polling p =>
          if (eventOf l).isNone then
            (p.miner.step? blake3 l).map fun miner ↦
              { s with stage := .polling { p with miner := miner } }
          else none
      | _ => none

def Step (s : Client M) (l : Label) (s' : Client M) : Prop :=
  s.step? blake3 queryEvents l = some s'

end Client

end BeeEngine
