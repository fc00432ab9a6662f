import Mathlib

/-!
# Programs that make requests

A program ends, or makes a request and goes on with its answer.  Between a
request and its answer the world may change, so a program is the state of a task
that awaits.  A failing program is one in `ExceptT`.
-/

namespace BeeEngine

inductive Program (Request : Type) (Answer : Request → Type) (α : Type) where
  | done (a : α)
  | ask (request : Request) (next : Answer request → Program Request Answer α)

namespace Program

variable {Request : Type} {Answer : Request → Type} {α β : Type}

/-- `f` goes on with the result of a program. -/
def andThen (f : α → Program Request Answer β) :
    Program Request Answer α → Program Request Answer β
  | .done a => f a
  | .ask request next => .ask request fun answer ↦ andThen f (next answer)

instance : Monad (Program Request Answer) where
  pure := .done
  bind program f := program.andThen f

/-- The answer to a single request. -/
def request (req : Request) : Program Request Answer (Answer req) := .ask req .done

/-! ## Failing programs -/

section

variable {Reply : Request → Type} {Err : Type}

/-- The programs that fail with an error, where a request may fail too. -/
abbrev Failing (Request : Type) (Reply : Request → Type) (Err α : Type) : Type :=
  ExceptT Err (Program Request fun req ↦ Except Err (Reply req)) α

/-- The error of a program, in its context. -/
def mapError (f : Err → Err) (program : Failing Request Reply Err α) :
    Failing Request Reply Err α :=
  ExceptT.mk (program.run.andThen fun result ↦ .done (result.mapError f))

/-- A request, whose error is changed by `f`. -/
def requestOr (f : Err → Err) (req : Request) : Failing Request Reply Err (Reply req) :=
  mapError f (ExceptT.mk (request req))

/-- The program makes a request, ends with an error if that fails, and goes on
with `rest` if it is answered. -/
def Asks (program : Failing Request Reply Err α) (req : Request)
    (rest : Reply req → Program Request (fun req ↦ Except Err (Reply req)) (Except Err α)) :
    Prop :=
  ∃ next, program.run = .ask req next ∧ (∀ e, ∃ e', next (.error e) = .done (.error e')) ∧
    ∀ reply, next (.ok reply) = rest reply

theorem asks_requestOr_bind (f : Err → Err) (req : Request)
    (rest : Reply req → Failing Request Reply Err α) :
    Asks (requestOr f req >>= rest) req fun reply ↦ (rest reply).run :=
  ⟨_, rfl, fun _ ↦ ⟨_, rfl⟩, fun _ ↦ rfl⟩

variable {program : Failing Request Reply Err α} {req : Request}
  {rest : Reply req → Program Request (fun req ↦ Except Err (Reply req)) (Except Err α)}

theorem Asks.run_ne_done (h : Asks program req rest) (result : Except Err α) :
    program.run ≠ .done result := by
  obtain ⟨next, hrun, -, -⟩ := h
  rw [hrun]
  nofun

theorem Asks.request_eq (h : Asks program req rest) {req' : Request}
    {next : Except Err (Reply req') →
      Program Request (fun req ↦ Except Err (Reply req)) (Except Err α)}
    (hrun : program.run = .ask req' next) : req' = req := by
  obtain ⟨next', hrun', -, -⟩ := h
  rw [hrun'] at hrun
  cases hrun
  rfl

/-- The request is answered: the program fails, or goes on with an answer that
the request can get. -/
theorem Asks.next (h : Asks program req rest) {req' : Request}
    {next : Except Err (Reply req') →
      Program Request (fun req ↦ Except Err (Reply req)) (Except Err α)}
    (hrun : program.run = .ask req' next)
    {can : (req : Request) → Except Err (Reply req) → Prop}
    {answer : Except Err (Reply req')} (hcan : can req' answer) :
    (∃ e, next answer = .done (.error e)) ∨
      ∃ reply, can req (.ok reply) ∧ next answer = rest reply := by
  obtain ⟨next', hrun', herror, hok⟩ := h
  rw [hrun'] at hrun
  cases hrun
  cases answer with
  | error e => exact .inl (herror e)
  | ok reply => exact .inr ⟨reply, hcan, hok reply⟩

end

end Program

end BeeEngine
