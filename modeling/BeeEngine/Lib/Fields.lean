import Mathlib

/-!
# Lists with separators

What can be read off a list that was put together with separators: the part
before the first one, the part behind the last one, and all of its pieces.
-/

namespace Fields

variable {α : Type*} {sep : α} {a b s t xs : List α}

theorem eq_of_append_cons (ha : sep ∉ a) (hb : sep ∉ b) (h : a ++ sep :: s = b ++ sep :: t) :
    a = b ∧ s = t := by
  induction a generalizing b with
  | nil =>
      cases b with
      | nil => exact ⟨rfl, (List.cons.inj h).2⟩
      | cons y b => exact absurd (List.mem_cons.mpr (.inl (List.cons.inj h).1)) hb
  | cons x a ih =>
      cases b with
      | nil => exact absurd (List.mem_cons.mpr (.inl (List.cons.inj h).1.symm)) ha
      | cons y b =>
          obtain ⟨rfl, htail⟩ := List.cons.inj h
          obtain ⟨rfl, rfl⟩ := ih (List.not_mem_of_not_mem_cons ha)
            (List.not_mem_of_not_mem_cons hb) htail
          exact ⟨rfl, rfl⟩

/-- What is behind the last separator is read from the end. -/
theorem eq_of_cons_append (hs : sep ∉ s) (ht : sep ∉ t) (h : a ++ sep :: s = b ++ sep :: t) :
    a = b ∧ s = t := by
  have hreverse : s.reverse ++ sep :: a.reverse = t.reverse ++ sep :: b.reverse := by
    have h := congrArg List.reverse h
    simpa using h
  obtain ⟨hst, hab⟩ := eq_of_append_cons (by simpa using hs) (by simpa using ht) hreverse
  exact ⟨List.reverse_injective hab, List.reverse_injective hst⟩

theorem notMem_or_exists (sep : α) (xs : List α) :
    sep ∉ xs ∨ ∃ a s, sep ∉ a ∧ xs = a ++ sep :: s := by
  by_cases h : sep ∈ xs
  · obtain ⟨a, s, hxs, ha⟩ := List.eq_append_cons_of_mem h
    exact .inr ⟨a, s, ha, hxs⟩
  · exact .inl h

variable [DecidableEq α] {rest : List (List α)}

/-! ## All pieces -/

theorem splitOn_eq_singleton_iff : xs.splitOn sep = [a] ↔ xs = a ∧ sep ∉ a := by
  constructor
  · intro h
    rcases notMem_or_exists sep xs with hxs | ⟨b, s, hb, rfl⟩
    · rw [List.splitOn_eq_singleton hxs] at h
      obtain rfl := (List.cons.inj h).1
      exact ⟨rfl, hxs⟩
    · rw [List.splitOn_append_cons_self_of_not_mem hb] at h
      exact absurd (List.cons.inj h).2 (List.splitOn_ne_nil _ _)
  · rintro ⟨rfl, h⟩
    exact List.splitOn_eq_singleton h

theorem splitOn_eq_cons_cons_iff : xs.splitOn sep = a :: b :: rest ↔
    sep ∉ a ∧ ∃ s, xs = a ++ sep :: s ∧ s.splitOn sep = b :: rest := by
  constructor
  · intro h
    rcases notMem_or_exists sep xs with hxs | ⟨c, s, hc, rfl⟩
    · rw [List.splitOn_eq_singleton hxs] at h
      cases (List.cons.inj h).2
    · rw [List.splitOn_append_cons_self_of_not_mem hc] at h
      obtain ⟨rfl, hrest⟩ := List.cons.inj h
      exact ⟨hc, s, rfl, hrest⟩
  · rintro ⟨ha, s, rfl, hrest⟩
    rw [List.splitOn_append_cons_self_of_not_mem ha, hrest]

/-! ## A bounded number of pieces -/

/-- `splitn`: the last piece is the rest, with the separators in it. -/
def splitN (sep : α) : ℕ → List α → List (List α)
  | 0, _ => []
  | 1, xs => [xs]
  | n + 2, xs =>
      match xs.dropWhile (· ≠ sep) with
      | [] => [xs]
      | _ :: rest => xs.takeWhile (· ≠ sep) :: splitN sep (n + 1) rest

theorem ne_of_notMem (ha : sep ∉ a) : ∀ x ∈ a, decide (x ≠ sep) = true := by
  intro x hx
  exact decide_eq_true (ne_of_mem_of_not_mem hx ha)

theorem splitN_append_cons (n : ℕ) (ha : sep ∉ a) :
    splitN sep (n + 2) (a ++ sep :: s) = a :: splitN sep (n + 1) s := by
  rw [splitN, List.dropWhile_append_of_pos (ne_of_notMem ha),
    List.takeWhile_append_of_pos (ne_of_notMem ha)]
  simp

theorem splitN_of_notMem (n : ℕ) (ha : sep ∉ a) : splitN sep (n + 1) a = [a] := by
  cases n with
  | zero => rfl
  | succ n => rw [splitN, List.dropWhile_eq_nil_iff.mpr (ne_of_notMem ha)]

theorem splitN_eq_cons_cons_iff {n : ℕ} : splitN sep (n + 2) xs = a :: b :: rest ↔
    sep ∉ a ∧ ∃ s, xs = a ++ sep :: s ∧ splitN sep (n + 1) s = b :: rest := by
  constructor
  · intro h
    rcases notMem_or_exists sep xs with hxs | ⟨c, s, hc, rfl⟩
    · rw [splitN_of_notMem _ hxs] at h
      cases (List.cons.inj h).2
    · rw [splitN_append_cons _ hc] at h
      obtain ⟨rfl, hrest⟩ := List.cons.inj h
      exact ⟨hc, s, rfl, hrest⟩
  · rintro ⟨ha, s, rfl, hrest⟩
    rw [splitN_append_cons _ ha, hrest]

theorem splitN_eq_pair_iff : splitN sep 2 xs = [a, b] ↔ sep ∉ a ∧ xs = a ++ sep :: b := by
  rw [splitN_eq_cons_cons_iff]
  constructor
  · rintro ⟨ha, s, rfl, hs⟩
    exact ⟨ha, by rw [(List.cons.inj hs).1]⟩
  · rintro ⟨ha, rfl⟩
    exact ⟨ha, b, rfl, rfl⟩

theorem splitN_eq_triple_iff {c : List α} : splitN sep 3 xs = [a, b, c] ↔
    sep ∉ a ∧ sep ∉ b ∧ xs = a ++ sep :: (b ++ sep :: c) := by
  rw [splitN_eq_cons_cons_iff]
  constructor
  · rintro ⟨ha, s, rfl, hs⟩
    obtain ⟨hb, rfl⟩ := splitN_eq_pair_iff.mp hs
    exact ⟨ha, hb, rfl⟩
  · rintro ⟨ha, hb, rfl⟩
    exact ⟨ha, _, rfl, splitN_eq_pair_iff.mpr ⟨hb, rfl⟩⟩

/-! ## Texts -/

theorem map_ofList_eq_iff {pieces : List (List Char)} {texts : List String} :
    pieces.map String.ofList = texts ↔ pieces = texts.map String.toList := by
  have hinjective : Function.Injective (List.map String.ofList) :=
    List.map_injective_iff.mpr fun _ _ h ↦ String.ofList_injective h
  rw [← hinjective.eq_iff, List.map_map]
  simp [Function.comp_def]

end Fields
