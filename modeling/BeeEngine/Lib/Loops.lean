import Mathlib

/-!
# Loops that may fail

A loop whose steps are those of another one, and a loop that sets the entries of
a list one after another.
-/

namespace Loops

variable {α ε σ τ : Type*}

/-- Every step succeeds and keeps the relation; what each step ensures holds
after the last one. -/
theorem exists_foldlM {f : σ → α → Except ε σ} {g : τ → α → τ} {rel : σ → τ → Prop}
    {good : σ → Prop} {xs : List α} {s : σ} {t : τ}
    (hstep : ∀ a ∈ xs, ∀ s t, rel s t → ∃ s', f s a = .ok s' ∧ rel s' (g t a) ∧ good s')
    (hxs : xs ≠ []) (h : rel s t) :
    ∃ s', xs.foldlM f s = .ok s' ∧ rel s' (xs.foldl g t) ∧ good s' := by
  induction xs generalizing s t with
  | nil => exact absurd rfl hxs
  | cons a xs ih =>
      obtain ⟨s', hs', hrel, hgood⟩ := hstep a List.mem_cons_self s t h
      rw [List.foldlM_cons, hs', List.foldl_cons]
      by_cases hnil : xs = []
      · rw [hnil]
        exact ⟨s', rfl, hrel, hgood⟩
      · exact ih (fun a ha ↦ hstep a (List.mem_cons_of_mem _ ha)) hnil hrel

theorem set_prefix {h : ℕ → α → α} {s : List α} {k : ℕ} (hk : k < s.length) :
    ((s.take k).mapIdx h ++ s.drop k).set k (h k s[k]) =
      (s.take (k + 1)).mapIdx h ++ s.drop (k + 1) := by
  have hlength : ((s.take k).mapIdx h).length = k := by
    rw [List.length_mapIdx, List.length_take, Nat.min_eq_left hk.le]
  rw [List.set_append_right _ _ hlength.le, hlength, Nat.sub_self, List.drop_eq_getElem_cons hk,
    List.set_cons_zero, List.take_succ_eq_append_getElem hk, List.mapIdx_append]
  simp [Nat.min_eq_left hk.le]

/-- Each entry is set from its old value. -/
theorem foldlM_set {f : List α → ℕ → Except ε (List α)} {h : ℕ → α → α} {s : List α}
    (hf : ∀ s' k (hk : k < s'.length), s'.length = s.length →
      f s' k = .ok (s'.set k (h k s'[k]))) :
    (List.range s.length).foldlM f s = .ok (s.mapIdx h) := by
  have hpart : ∀ k ≤ s.length,
      (List.range k).foldlM f s = .ok ((s.take k).mapIdx h ++ s.drop k) := by
    intro k
    induction k with
    | zero => exact fun _ ↦ rfl
    | succ k ih =>
        intro hk
        have hlength : ((s.take k).mapIdx h ++ s.drop k).length = s.length := by
          rw [List.length_append, List.length_mapIdx, List.length_take, List.length_drop]
          omega
        have hk' : k < ((s.take k).mapIdx h ++ s.drop k).length := by omega
        have hentry : ((s.take k).mapIdx h ++ s.drop k)[k] = s[k] := by
          rw [List.getElem_append_right (by simp)]
          simp [Nat.min_eq_left (Nat.le_of_succ_le hk)]
        rw [List.range_succ, List.foldlM_append, ih (Nat.le_of_succ_le hk)]
        have hset := hf _ k hk' hlength
        rw [hentry, set_prefix hk] at hset
        change List.foldlM f _ [k] = _
        rw [List.foldlM_cons, hset]
        rfl
  rw [hpart s.length (Nat.le_refl _), List.take_length, List.drop_length, List.append_nil]

end Loops
