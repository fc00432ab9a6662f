import Mathlib

/-!
# The latest entries of a log

In a log whose entries of one kind form a suffix, such as those after a time
mark, a bounded query still finds all of them.
-/

namespace Log

variable {α : Type*}

/-- The last `n` entries. -/
def recent (n : ℕ) (log : List α) : List α := log.drop (log.length - n)

/-- Once an entry has the property, all later entries have it. -/
def Upward (p : α → Bool) (log : List α) : Prop := log.Pairwise fun a b ↦ p a = true → p b = true

/-- A query of the last `n` entries finds all entries of the kind, if these are
at most `n`. -/
theorem filter_recent {p : α → Bool} {log : List α} {n : ℕ} (h : Upward p log)
    (hlength : (log.filter p).length ≤ n) : (recent n log).filter p = log.filter p := by
  by_cases hle : log.length ≤ n
  · rw [recent, Nat.sub_eq_zero_of_le hle, List.drop_zero]
  · have hsplit := List.take_append_drop (log.length - n) log
    have hdropped : (log.take (log.length - n)).filter p = [] := by
      rw [List.filter_eq_nil_iff]
      intro a ha hp
      -- Otherwise the entry and the `n` entries after the cut are too many.
      have hlater : (log.drop (log.length - n)).filter p = log.drop (log.length - n) := by
        rw [List.filter_eq_self]
        intro b hb
        rw [← hsplit, Upward, List.pairwise_append] at h
        exact h.2.2 a ha b hb hp
      have hfirst : 0 < ((log.take (log.length - n)).filter p).length :=
        List.length_pos_of_mem (List.mem_filter.mpr ⟨ha, hp⟩)
      rw [← hsplit, List.filter_append, hlater, List.length_append, List.length_drop] at hlength
      omega
    conv_rhs => rw [← hsplit, List.filter_append, hdropped, List.nil_append]
    rfl

end Log
