import BeeEngine.Infra
import BeeEngine.Lib.Reporting

/-!
# Progress events

The milestones that long operations of the wallet send to their caller, and
polling with an event for every attempt.
-/

namespace BeeEngine

structure ProgressEvent where
  op : String
  stage : String
  detail : Option String
  pct : Option UInt8
  deriving DecidableEq, Repr

namespace ProgressEvent

def new (op stage : String) : ProgressEvent := ⟨op, stage, none, none⟩

def withDetail (event : ProgressEvent) (detail : String) : ProgressEvent :=
  { event with detail := some detail }

end ProgressEvent

/-- An operation with the events that its sink receives. -/
abbrev Progress (α : Type) := Reporting ProgressEvent AppError α

namespace Progress

variable {α T : Type}

/-- A failure at the end of an operation is an event, unless its kind is suppressed. -/
def reportFailure (op : String) (result : Except AppError α) (suppressKind : Option String) :
    List ProgressEvent :=
  match result with
  | .ok _ => []
  | .error e =>
      if suppressKind.isSome ∧ e.kind = suppressKind then []
      else [(ProgressEvent.new op "failed").withDetail e.message]

/-- The attempts of `poll_until` from the `i`th on, for a fetch that emits events. -/
def pollLoop (fetchData : ℕ → Progress T) (predicate : T → Bool) (maxAttemptsErr : AppError) :
    ℕ → ℕ → Progress T
  | 0, _ => Reporting.ofExcept (.error maxAttemptsErr)
  | left + 1, i => do
      let data ← fetchData i
      if predicate data then pure data else pollLoop fetchData predicate maxAttemptsErr left (i + 1)

def pollUntil (fetchData : ℕ → Progress T) (predicate : T → Bool) (maxAttempts : Option UInt32) :
    Progress T :=
  let maxAttempts := maxAttempts.getD 100
  pollLoop fetchData predicate (.new (maxAttemptsText maxAttempts)) maxAttempts.toNat 0

/-- A heartbeat, and then the attempt itself. -/
def withHeartbeat (heartbeat : ProgressEvent) (fetchData : ℕ → Except AppError T) (i : ℕ) :
    Progress T := do
  Reporting.emit heartbeat
  Reporting.ofExcept (fetchData i)

section

variable {heartbeat : ProgressEvent} {fetchData : ℕ → Except AppError T} {predicate : T → Bool}
  {maxAttemptsErr : AppError}

theorem withHeartbeat_eq (i : ℕ) :
    withHeartbeat heartbeat fetchData i = ⟨[heartbeat], fetchData i⟩ := by
  rw [withHeartbeat, Reporting.bind_of_ok rfl]
  rfl

/-- The result is that of the fetches alone, and there is a heartbeat for every attempt. -/
theorem pollLoop_withHeartbeat (left i : ℕ) :
    (pollLoop (withHeartbeat heartbeat fetchData) predicate maxAttemptsErr left i).result =
        (BeeEngine.pollLoop fetchData predicate maxAttemptsErr left i).1 ∧
      i + (pollLoop (withHeartbeat heartbeat fetchData) predicate maxAttemptsErr left i).events.length =
        (BeeEngine.pollLoop fetchData predicate maxAttemptsErr left i).2 ∧
      ∀ event ∈ (pollLoop (withHeartbeat heartbeat fetchData) predicate maxAttemptsErr left i).events,
        event = heartbeat := by
  induction left generalizing i with
  | zero => exact ⟨rfl, rfl, nofun⟩
  | succ left ih =>
      obtain ⟨hresult, hlength, hevents⟩ := ih (i + 1)
      rw [pollLoop, BeeEngine.pollLoop]
      cases hfetch : fetchData i with
      | error e =>
          have hattempt : (withHeartbeat heartbeat fetchData i).result = .error e := by
            rw [withHeartbeat_eq, hfetch]
          rw [Reporting.bind_of_error hattempt, withHeartbeat_eq]
          exact ⟨rfl, rfl, fun event hevent ↦ List.mem_singleton.mp hevent⟩
      | ok data =>
          have hattempt : (withHeartbeat heartbeat fetchData i).result = .ok data := by
            rw [withHeartbeat_eq, hfetch]
          rw [Reporting.bind_of_ok hattempt, withHeartbeat_eq]
          dsimp only
          cases hdata : predicate data with
          | true => exact ⟨rfl, rfl, fun event hevent ↦ List.mem_singleton.mp hevent⟩
          | false =>
              simp only [Bool.false_eq_true, if_false, List.singleton_append, List.length_cons]
              refine ⟨hresult, by omega, ?_⟩
              rintro event hevent
              rcases List.mem_cons.mp hevent with rfl | hevent
              · rfl
              · exact hevents event hevent

theorem pollUntil_withHeartbeat (maxAttempts : UInt32) :
    pollUntil (withHeartbeat heartbeat fetchData) predicate (some maxAttempts) =
      ⟨List.replicate
          (BeeEngine.pollUntil AppError.new fetchData predicate (some maxAttempts)).2 heartbeat,
        (BeeEngine.pollUntil AppError.new fetchData predicate (some maxAttempts)).1⟩ := by
  obtain ⟨hresult, hlength, hevents⟩ := @pollLoop_withHeartbeat T heartbeat fetchData predicate
    (.new (maxAttemptsText maxAttempts)) maxAttempts.toNat 0
  have hreplicate := List.eq_replicate_of_mem hevents
  simp only [pollUntil, BeeEngine.pollUntil, Option.getD_some]
  rw [← hlength, Nat.zero_add, ← hreplicate, ← hresult]

end

end Progress

end BeeEngine
