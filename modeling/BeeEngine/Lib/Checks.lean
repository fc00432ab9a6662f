import Mathlib

/-!
# Named checks in sequence

A computation that makes checks one after another and stops at the first one
that fails, whose name its error bears.
-/

namespace Checks

variable {ν μ α : Type} {cs ds : List (ν × Bool)} {x y : Except (ν × μ) Unit}

/-- The computation ends with the error of the first check that fails, and
without an error if none does. -/
def Reports (cs : List (ν × Bool)) (x : Except (ν × μ) Unit) : Prop :=
  match cs.find? fun c ↦ !c.2 with
  | none => x = .ok ()
  | some c => ∃ e, x = .error (c.1, e)

theorem reports_nil : Reports [] (.ok () : Except (ν × μ) Unit) := rfl

/-- One check, by what it computes. -/
theorem reports_mapError (name : ν) (x : Except μ α) :
    Reports [(name, x.isOk)] (x.mapError (fun e ↦ (name, e)) >>= fun _ ↦ .ok ()) := by
  cases x with
  | error e => exact ⟨e, rfl⟩
  | ok a => rfl

theorem reports_ite (name : ν) (e : μ) (p : Prop) [Decidable p] :
    Reports [(name, decide p)] (if p then .ok () else .error (name, e)) := by
  by_cases h : p
  · simp [Reports, h]
  · simp [Reports, h]

/-- Checks that follow others are made if all of these succeed. -/
theorem Reports.bind (hx : Reports cs x) (hy : Reports ds y) :
    Reports (cs ++ ds) (x >>= fun _ ↦ y) := by
  rw [Reports, List.find?_append]
  rw [Reports] at hx
  cases hfind : cs.find? fun c ↦ !c.2 with
  | none =>
      rw [hfind] at hx
      obtain rfl := hx
      exact hy
  | some c =>
      rw [hfind] at hx
      obtain ⟨e, rfl⟩ := hx
      exact ⟨e, rfl⟩

end Checks
