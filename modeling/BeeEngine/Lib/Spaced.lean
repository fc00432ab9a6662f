import Mathlib

/-!
# Spaced times

Times with a gap between each two of them: as many as `n` of them fit into a
window of `n` gaps.
-/

namespace BeeEngine

/-- Each time is at least a gap after all times before it. -/
def Spaced (gap : ℕ) (times : List ℕ) : Prop := times.Pairwise (· + gap ≤ ·)

namespace Spaced

variable {gap : ℕ} {times : List ℕ}

theorem length_le (h : Spaced gap times) {t n : ℕ} (hfrom : ∀ x ∈ times, t ≤ x)
    (hto : ∀ x ∈ times, x < t + gap * n) : times.length ≤ n := by
  induction times generalizing t n with
  | nil => exact Nat.zero_le n
  | cons x times ih =>
      obtain ⟨hgap, htail⟩ := List.pairwise_cons.mp h
      have hx := hfrom x List.mem_cons_self
      have hxto := hto x List.mem_cons_self
      cases n with
      | zero => omega
      | succ n =>
          rw [Nat.mul_succ] at hto
          have hlength : times.length ≤ n := by
            apply ih htail (t := t + gap)
            · intro y hy
              exact (Nat.add_le_add_right hx gap).trans (hgap y hy)
            · intro y hy
              have hyto := hto y (List.mem_cons_of_mem x hy)
              omega
          exact Nat.succ_le_succ hlength

/-- At most `n` times are in a window of `n` gaps. -/
theorem length_filter_le (h : Spaced gap times) (t n : ℕ) :
    (times.filter fun x ↦ t ≤ x ∧ x < t + gap * n).length ≤ n := by
  apply length_le (t := t) (h.sublist List.filter_sublist)
  · intro x hx
    exact (of_decide_eq_true (List.mem_filter.mp hx).2).1
  · intro x hx
    exact (of_decide_eq_true (List.mem_filter.mp hx).2).2

theorem concat (h : Spaced gap times) {x : ℕ} (hx : ∀ y ∈ times, y + gap ≤ x) :
    Spaced gap (times ++ [x]) := by
  rw [Spaced, List.pairwise_append]
  refine ⟨h, List.pairwise_singleton _ _, ?_⟩
  intro y hy z hz
  rw [List.mem_singleton.mp hz]
  exact hx y hy

end Spaced

end BeeEngine
