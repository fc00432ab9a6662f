import BeeEngine.Lib.Outcome

/-!
# Computations that report events

A computation with the events that it has emitted and its result.  A failure
keeps the events from before it.  `Meets` is what holds of every event and of
the error, and goes through sequences of steps.
-/

namespace BeeEngine

structure Reporting (Event Err α : Type) where
  events : List Event
  result : Except Err α

namespace Reporting

variable {Event Err α β : Type}

/-- `f` goes on after `x`, unless `x` has failed. -/
def andThen (x : Reporting Event Err α) (f : α → Reporting Event Err β) :
    Reporting Event Err β :=
  match x.result with
  | .ok a => ⟨x.events ++ (f a).events, (f a).result⟩
  | .error e => ⟨x.events, .error e⟩

instance : Monad (Reporting Event Err) where
  pure a := ⟨[], .ok a⟩
  bind := andThen

def emit (event : Event) : Reporting Event Err Unit := ⟨[event], .ok ()⟩

/-- A step without events. -/
def ofExcept (x : Except Err α) : Reporting Event Err α := ⟨[], x⟩

instance : MonadLift (Except Err) (Reporting Event Err) where
  monadLift := ofExcept

/-- The events of a computation, and its error changed by `f`. -/
def mapError (f : Err → Err) (x : Reporting Event Err α) : Reporting Event Err α :=
  ⟨x.events, x.result.mapError f⟩

/-! ## Sequences of steps -/

theorem bind_of_ok {x : Reporting Event Err α} {a : α} (h : x.result = .ok a)
    (f : α → Reporting Event Err β) :
    x >>= f = ⟨x.events ++ (f a).events, (f a).result⟩ := by
  change andThen x f = _
  rw [andThen, h]

theorem bind_of_error {x : Reporting Event Err α} {e : Err} (h : x.result = .error e)
    (f : α → Reporting Event Err β) : x >>= f = ⟨x.events, .error e⟩ := by
  change andThen x f = _
  rw [andThen, h]

@[simp] theorem pure_events (a : α) : (pure a : Reporting Event Err α).events = [] := rfl

@[simp] theorem pure_result (a : α) : (pure a : Reporting Event Err α).result = .ok a := rfl

@[simp] theorem ofExcept_events (x : Except Err α) :
    (ofExcept x : Reporting Event Err α).events = [] := rfl

@[simp] theorem ofExcept_result (x : Except Err α) :
    (ofExcept x : Reporting Event Err α).result = x := rfl

@[simp] theorem emit_events (event : Event) :
    (emit event : Reporting Event Err Unit).events = [event] := rfl

@[simp] theorem emit_result (event : Event) :
    (emit event : Reporting Event Err Unit).result = .ok () := rfl

@[simp] theorem mapError_events (f : Err → Err) (x : Reporting Event Err α) :
    (mapError f x).events = x.events := rfl

theorem mapError_result_eq_ok_iff {f : Err → Err} {x : Reporting Event Err α} {a : α} :
    (mapError f x).result = .ok a ↔ x.result = .ok a := by
  rw [mapError, Outcome.mapError_eq_ok_iff]

theorem bind_result (x : Reporting Event Err α) (f : α → Reporting Event Err β) :
    (x >>= f).result = x.result >>= fun a ↦ (f a).result := by
  cases h : x.result with
  | ok a => rw [bind_of_ok h]; rfl
  | error e => rw [bind_of_error h]; rfl

@[simp] theorem liftM_events (x : Except Err α) :
    (liftM x : Reporting Event Err α).events = [] := rfl

@[simp] theorem liftM_result (x : Except Err α) :
    (liftM x : Reporting Event Err α).result = x := rfl

theorem bind_result_eq_ok_iff {x : Reporting Event Err α} {f : α → Reporting Event Err β} {b : β} :
    (x >>= f).result = .ok b ↔ ∃ a, x.result = .ok a ∧ (f a).result = .ok b := by
  rw [bind_result]
  cases x.result <;> simp [bind, Except.bind]

/-- What is done with the result emits nothing. -/
theorem bind_pure_events (x : Reporting Event Err α) (f : α → β) :
    (x >>= fun a ↦ pure (f a)).events = x.events := by
  cases h : x.result with
  | ok a => rw [bind_of_ok h, pure_events, List.append_nil]
  | error e => rw [bind_of_error h]

/-- What has been emitted stays. -/
theorem mem_events_bind {x : Reporting Event Err α} {event : Event} (h : event ∈ x.events)
    (f : α → Reporting Event Err β) : event ∈ (x >>= f).events := by
  cases hx : x.result with
  | ok a =>
      rw [bind_of_ok hx]
      exact List.mem_append_left _ h
  | error e =>
      rw [bind_of_error hx]
      exact h

/-- What is emitted after a step that succeeds is emitted. -/
theorem mem_events_bind_of_ok {x : Reporting Event Err α} {a : α} (hx : x.result = .ok a)
    {f : α → Reporting Event Err β} {event : Event} (h : event ∈ (f a).events) :
    event ∈ (x >>= f).events := by
  rw [bind_of_ok hx]
  exact List.mem_append_right _ h

/-- What a sequence emits comes from the first step, or from the rest after its success. -/
theorem mem_events_bind_iff {x : Reporting Event Err α} {f : α → Reporting Event Err β}
    {event : Event} :
    event ∈ (x >>= f).events ↔
      event ∈ x.events ∨ ∃ a, x.result = .ok a ∧ event ∈ (f a).events := by
  cases hx : x.result with
  | ok a =>
      rw [bind_of_ok hx, List.mem_append]
      simp
  | error e =>
      rw [bind_of_error hx]
      simp

/-! ## What holds of all events and of the error -/

structure Meets (p : Event → Prop) (q : Err → Prop) (x : Reporting Event Err α) : Prop where
  events : ∀ event ∈ x.events, p event
  error : ∀ e, x.result = .error e → q e

namespace Meets

variable {p : Event → Prop} {q : Err → Prop}

theorem pure (a : α) : Meets p q (pure a : Reporting Event Err α) :=
  ⟨by simp, nofun⟩

theorem emit {event : Event} (h : p event) :
    Meets p q (emit event : Reporting Event Err Unit) :=
  ⟨by simpa using h, nofun⟩

theorem ofExcept {x : Except Err α} (h : ∀ e, x = .error e → q e) :
    Meets p q (ofExcept x : Reporting Event Err α) :=
  ⟨by simp, h⟩

theorem bind {x : Reporting Event Err α} {f : α → Reporting Event Err β} (hx : Meets p q x)
    (hf : ∀ a, x.result = .ok a → Meets p q (f a)) : Meets p q (x >>= f) := by
  cases h : x.result with
  | ok a =>
      rw [bind_of_ok h]
      refine ⟨?_, (hf a h).error⟩
      intro event hevent
      rcases List.mem_append.mp hevent with hevent | hevent
      · exact hx.events event hevent
      · exact (hf a h).events event hevent
  | error e =>
      rw [bind_of_error h]
      refine ⟨hx.events, ?_⟩
      rintro _ ⟨⟩
      exact hx.error e h

end Meets

end Reporting

end BeeEngine
