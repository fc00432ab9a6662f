import Mathlib

/-!
# Loops of attempts

A loop makes one attempt after another.  An attempt ends the loop with a result,
or is followed by a pause and the next attempt.
-/

namespace Attempts

/-- How an attempt ends. -/
inductive Turn (Result Pause : Type) where
  | done (result : Result)
  | again (pause : Pause)

/-- A loop that has ended: its result, the attempts that it made, and the pauses
between them. -/
structure Ended (Result Pause : Type) where
  result : Result
  calls : ℕ
  pauses : List Pause

variable {Result Pause : Type}

/-- The attempts from the `i`th on, no more than there is fuel. -/
def loop (turn : ℕ → Turn Result Pause) : ℕ → ℕ → Option (Ended Result Pause)
  | 0, _ => none
  | fuel + 1, i =>
      match turn i with
      | .done result => some ⟨result, 1, []⟩
      | .again pause =>
          (loop turn fuel (i + 1)).map fun ended ↦
            ⟨ended.result, ended.calls + 1, pause :: ended.pauses⟩

/-- The last attempt gives the result, and a pause follows each one before it. -/
structure Ends (turn : ℕ → Turn Result Pause) (first : ℕ) (ended : Ended Result Pause) : Prop where
  last : ∃ n, ended.calls = n + 1 ∧ turn (first + n) = .done ended.result
  earlier : ∀ n, n + 1 < ended.calls →
    ∃ pause, ended.pauses[n]? = some pause ∧ turn (first + n) = .again pause

variable {turn : ℕ → Turn Result Pause} {first : ℕ} {ended : Ended Result Pause}

theorem Ends.done {result : Result} (h : turn first = .done result) :
    Ends turn first ⟨result, 1, []⟩ where
  last := ⟨0, rfl, h⟩
  earlier n hn := absurd (Nat.lt_of_succ_lt_succ hn) (Nat.not_lt_zero n)

/-- An attempt before the others. -/
theorem Ends.again {pause : Pause} (h : turn first = .again pause)
    (hended : Ends turn (first + 1) ended) :
    Ends turn first ⟨ended.result, ended.calls + 1, pause :: ended.pauses⟩ := by
  obtain ⟨n, hcalls, hlast⟩ := hended.last
  constructor
  · refine ⟨n + 1, congrArg (· + 1) hcalls, ?_⟩
    rwa [show first + (n + 1) = first + 1 + n by omega]
  · intro m hm
    cases m with
    | zero => exact ⟨pause, rfl, h⟩
    | succ m =>
        obtain ⟨pause', hpause', hturn⟩ := hended.earlier m (Nat.lt_of_succ_lt_succ hm)
        refine ⟨pause', hpause', ?_⟩
        rwa [show first + (m + 1) = first + 1 + m by omega]

theorem ends_of_loop {fuel : ℕ} (h : loop turn fuel first = some ended) :
    Ends turn first ended ∧ ended.calls ≤ fuel := by
  induction fuel generalizing first ended with
  | zero => cases h
  | succ fuel ih =>
      rw [loop] at h
      split at h
      · rename_i result hturn
        obtain rfl := Option.some.inj h
        exact ⟨.done hturn, Nat.succ_pos fuel⟩
      · rename_i pause hturn
        obtain ⟨rest, hrest, rfl⟩ := Option.map_eq_some_iff.mp h
        obtain ⟨hends, hle⟩ := ih hrest
        exact ⟨hends.again hturn, Nat.succ_le_succ hle⟩

/-- A loop with enough fuel to come to an attempt that ends it has ended. -/
theorem exists_loop {fuel n : ℕ} (hn : n < fuel) {result : Result}
    (h : turn (first + n) = .done result) : ∃ ended, loop turn fuel first = some ended := by
  induction fuel generalizing first n with
  | zero => cases hn
  | succ fuel ih =>
      rw [loop]
      cases hturn : turn first with
      | done result => exact ⟨_, rfl⟩
      | again pause =>
          cases n with
          | zero => cases hturn.symm.trans h
          | succ n =>
              rw [show first + (n + 1) = first + 1 + n by omega] at h
              obtain ⟨ended, hended⟩ := ih (Nat.lt_of_succ_lt_succ hn) h
              exact ⟨_, by rw [hended]; rfl⟩

end Attempts
