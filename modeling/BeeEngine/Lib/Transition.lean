import Mathlib

/-!
# Runs of labelled transition systems

A run follows a list of labels.  An invariant is proved for one step and then
holds along every run; a condition on the steps restricts the system.
-/

namespace Transition

variable {State Label : Type*}

inductive Run (step : State → Label → State → Prop) : State → List Label → State → Prop
  | refl (s : State) : Run step s [] s
  | head {s t u : State} {l : Label} {ls : List Label} (hstep : step s l t)
      (hrun : Run step t ls u) : Run step s (l :: ls) u

/-- The steps that meet a condition. -/
def Guarded (cond : State → Label → Prop) (step : State → Label → State → Prop) :
    State → Label → State → Prop :=
  fun s l t ↦ cond s l ∧ step s l t

variable {step : State → Label → State → Prop}

theorem Run.invariant (inv : State → Prop) (hinv : ∀ s l t, inv s → step s l t → inv t)
    {s u : State} {ls : List Label} (hs : inv s) (h : Run step s ls u) : inv u := by
  induction h with
  | refl s => exact hs
  | head hstep _ ih => exact ih (hinv _ _ _ hs hstep)

theorem Run.mono {step' : State → Label → State → Prop} {s u : State} {ls : List Label}
    (h : Run step s ls u) (hstep : ∀ s l t, step s l t → step' s l t) : Run step' s ls u := by
  induction h with
  | refl s => exact .refl s
  | head h _ ih => exact .head (hstep _ _ _ h) ih

theorem Run.append {s t u : State} {ls ls' : List Label} (h : Run step s ls t)
    (h' : Run step t ls' u) : Run step s (ls ++ ls') u := by
  induction h with
  | refl s => exact h'
  | head hstep _ ih => exact .head hstep (ih h')

theorem run_nil_iff {s u : State} : Run step s [] u ↔ s = u := by
  constructor
  · rintro ⟨⟩
    rfl
  · rintro rfl
    exact .refl s

theorem run_cons_iff {s u : State} {l : Label} {ls : List Label} :
    Run step s (l :: ls) u ↔ ∃ t, step s l t ∧ Run step t ls u := by
  constructor
  · rintro (_ | ⟨hstep, hrun⟩)
    exact ⟨_, hstep, hrun⟩
  · rintro ⟨t, hstep, hrun⟩
    exact .head hstep hrun

theorem run_append_iff {s u : State} {ls ls' : List Label} :
    Run step s (ls ++ ls') u ↔ ∃ t, Run step s ls t ∧ Run step t ls' u := by
  constructor
  · intro h
    induction ls generalizing s with
    | nil => exact ⟨s, .refl s, h⟩
    | cons l ls ih =>
        obtain ⟨t, hstep, hrun⟩ := run_cons_iff.mp h
        obtain ⟨t', hrun', hrest⟩ := ih hrun
        exact ⟨t', .head hstep hrun', hrest⟩
  · rintro ⟨t, h, h'⟩
    exact h.append h'

/-! ## Partial functions as steps -/

/-- The state after a list of labels, if every step is defined. -/
def run? (f : State → Label → Option State) : State → List Label → Option State
  | s, [] => some s
  | s, l :: ls => (f s l).bind fun t ↦ run? f t ls

theorem run?_eq_some_iff {f : State → Label → Option State} {s u : State} {ls : List Label} :
    run? f s ls = some u ↔ Run (fun s l t ↦ f s l = some t) s ls u := by
  induction ls generalizing s with
  | nil =>
      rw [run?, run_nil_iff, Option.some.injEq]
  | cons l ls ih =>
      rw [run?, run_cons_iff, Option.bind_eq_some_iff]
      simp only [ih]

/-- A partial function, defined only where a condition holds. -/
def guard? (cond : State → Label → Prop) [∀ s l, Decidable (cond s l)]
    (f : State → Label → Option State) : State → Label → Option State :=
  fun s l ↦ if cond s l then f s l else none

theorem run_guarded_of_run? {cond : State → Label → Prop} [∀ s l, Decidable (cond s l)]
    {f : State → Label → Option State} {s u : State} {ls : List Label}
    (h : run? (guard? cond f) s ls = some u) :
    Run (Guarded cond fun s l t ↦ f s l = some t) s ls u := by
  have hrun := run?_eq_some_iff.mp h
  induction hrun with
  | refl s => exact .refl s
  | head hstep hrun ih =>
      obtain ⟨hcond, hf⟩ := Option.ite_none_right_eq_some.mp hstep
      exact .head ⟨hcond, hf⟩ (ih (run?_eq_some_iff.mpr hrun))

end Transition
