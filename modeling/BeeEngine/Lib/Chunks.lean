import Mathlib

/-!
# Reading by chunks

A list is cut into chunks, and a turn reads chunks until it has enough.  Of
entries with the same key, only the first one is kept.
-/

namespace Chunks

variable {α κ : Type}

/-! ## Chunks -/

/-- The chunks of at most `n` entries, as far as the fuel goes. -/
def cut (n : ℕ) : ℕ → List α → List (List α)
  | 0, _ => []
  | fuel + 1, l => if l.isEmpty then [] else l.take n :: cut n fuel (l.drop n)

def chunks (n : ℕ) (l : List α) : List (List α) := cut n l.length l

theorem cut_of_length_le {n fuel : ℕ} (hn : 0 < n) {l : List α} (h : l.length ≤ fuel) :
    cut n fuel l = chunks n l := by
  induction fuel using Nat.strong_induction_on generalizing l with
  | _ fuel ih =>
      cases l with
      | nil => cases fuel <;> rfl
      | cons a l =>
          cases fuel with
          | zero => cases h
          | succ fuel =>
              rw [chunks, List.length_cons, cut, cut]
              have hlength : ((a :: l).drop n).length ≤ l.length := by
                rw [List.length_drop, List.length_cons]
                omega
              rw [List.length_cons] at h
              rw [ih fuel (Nat.lt_succ_self _) (by omega)]
              by_cases hlt : l.length < fuel + 1
              · rw [ih l.length hlt hlength]
              · omega

@[simp] theorem chunks_nil (n : ℕ) : chunks n ([] : List α) = [] := rfl

theorem chunks_of_ne_nil {n : ℕ} (hn : 0 < n) {l : List α} (h : l ≠ []) :
    chunks n l = l.take n :: chunks n (l.drop n) := by
  cases l with
  | nil => exact absurd rfl h
  | cons a l =>
      rw [chunks, List.length_cons, cut, if_neg (by simp), cut_of_length_le hn]
      rw [List.length_drop, List.length_cons]
      omega

theorem length_chunks_le (n : ℕ) (l : List α) : (chunks n l).length ≤ l.length := by
  have hcut : ∀ fuel (l : List α), (cut n fuel l).length ≤ fuel := by
    intro fuel
    induction fuel with
    | zero => exact fun l ↦ Nat.le_refl 0
    | succ fuel ih =>
        intro l
        rw [cut]
        split
        · exact Nat.zero_le _
        · exact Nat.succ_le_succ (ih _)
  exact hcut l.length l

theorem flatten_chunks {n : ℕ} (hn : 0 < n) (l : List α) : (chunks n l).flatten = l := by
  induction hlength : l.length using Nat.strong_induction_on generalizing l with
  | _ k ih =>
      by_cases hl : l = []
      · rw [hl]
        rfl
      · have hpos := List.length_pos_iff.mpr hl
        rw [chunks_of_ne_nil hn hl, List.flatten_cons,
          ih (l.drop n).length (by rw [List.length_drop]; omega) _ rfl, List.take_append_drop]

/-! ## Turns -/

section

variable (full : List α → Bool)

/-- The entries of one turn, and the chunks that are left. -/
def turn : List α → List (List α) → List α × List (List α)
  | got, [] => (got, [])
  | got, chunk :: rest =>
      if full (got ++ chunk) then (got ++ chunk, rest) else turn (got ++ chunk) rest

/-- The entries of each turn. -/
def turns : List α → List (List α) → List (List α)
  | got, [] => if got.isEmpty then [] else [got]
  | got, chunk :: rest =>
      if full (got ++ chunk) then (got ++ chunk) :: turns [] rest else turns (got ++ chunk) rest

variable {full}

variable (full) in
theorem turns_eq {got : List α} {rest : List (List α)} (h : got ++ rest.flatten ≠ []) :
    turns full got rest = (turn full got rest).1 :: turns full [] (turn full got rest).2 := by
  induction rest generalizing got with
  | nil =>
      have hgot : got.isEmpty = false := by simpa using h
      simp [turns, turn, hgot]
  | cons chunk rest ih =>
      rw [turns, turn]
      split
      · rfl
      · apply ih
        rwa [List.append_assoc]

theorem flatten_turns (got : List α) (rest : List (List α)) :
    (turns full got rest).flatten = got ++ rest.flatten := by
  induction rest generalizing got with
  | nil =>
      rw [turns]
      split
      · rename_i hgot
        rw [List.isEmpty_iff.mp hgot]
        rfl
      · simp
  | cons chunk rest ih =>
      rw [turns]
      split
      · rw [List.flatten_cons, ih, List.nil_append, List.flatten_cons, List.append_assoc]
      · rw [ih, List.flatten_cons, List.append_assoc]

/-- What has been got before does not count for the rest of the turn. -/
theorem turn_shift {full' : List α → Bool} {got : List α} (h : ∀ l, full (got ++ l) = full' l)
    (more : List α) (rest : List (List α)) :
    turn full (got ++ more) rest =
      (got ++ (turn full' more rest).1, (turn full' more rest).2) := by
  induction rest generalizing more with
  | nil => rfl
  | cons chunk rest ih =>
      rw [turn, turn, List.append_assoc, h]
      split
      · rfl
      · rw [ih]

/-- A turn that stops after its first chunk. -/
theorem turn_chunks_of_stop {n : ℕ} (hn : 0 < n) {l : List α}
    (h : full (l.take n) = true ∨ l.length ≤ n) :
    turn full [] (chunks n l) = (l.take n, chunks n (l.drop n)) := by
  by_cases hl : l = []
  · rw [hl, List.take_nil, List.drop_nil]
    rfl
  · rw [chunks_of_ne_nil hn hl, turn, List.nil_append]
    split
    · rfl
    · rename_i hfull
      obtain hstop | hlast := h
      · exact absurd hstop hfull
      · rw [List.drop_eq_nil_iff.mpr hlast]
        rfl

/-- A turn reads a chunk at least. -/
theorem length_turn_cons_le (got chunk : List α) (rest : List (List α)) :
    (turn full got (chunk :: rest)).2.length ≤ rest.length := by
  induction rest generalizing got chunk with
  | nil =>
      rw [turn]
      split <;> exact Nat.le_refl _
  | cons chunk' rest ih =>
      rw [turn]
      split
      · exact Nat.le_refl _
      · exact (ih _ _).trans (Nat.le_succ _)

end

/-! ## First entries of a key -/

section

variable [DecidableEq κ] (key : α → κ)

/-- The entries whose key has not been seen before. -/
def fresh : Finset κ → List α → List α
  | _, [] => []
  | seen, a :: l => if key a ∈ seen then fresh seen l else a :: fresh (insert (key a) seen) l

variable {key}

theorem fresh_append (seen : Finset κ) (l l' : List α) :
    fresh key seen (l ++ l') = fresh key seen l ++ fresh key (seen ∪ (l.map key).toFinset) l' := by
  induction l generalizing seen with
  | nil => simp [fresh]
  | cons a l ih =>
      rw [List.cons_append, fresh, fresh, List.map_cons, List.toFinset_cons]
      split
      · rename_i ha
        rw [ih, Finset.union_insert, Finset.insert_eq_of_mem (Finset.mem_union_left _ ha)]
      · rw [ih, List.cons_append, Finset.insert_union, Finset.union_insert]

/-- Entries with keys of their own that have not been seen. -/
theorem fresh_eq_self {seen : Finset κ} {l : List α} (hnodup : (l.map key).Nodup)
    (hseen : ∀ a ∈ l, key a ∉ seen) : fresh key seen l = l := by
  induction l generalizing seen with
  | nil => rfl
  | cons a l ih =>
      obtain ⟨ha, hl⟩ := List.nodup_cons.mp hnodup
      rw [fresh, if_neg (hseen a List.mem_cons_self), ih hl]
      intro b hb
      rw [Finset.mem_insert, not_or]
      refine ⟨?_, hseen b (List.mem_cons_of_mem a hb)⟩
      rintro hkey
      exact ha (hkey ▸ List.mem_map_of_mem hb)

theorem mem_map_fresh {seen : Finset κ} {l : List α} {k : κ} :
    k ∈ (fresh key seen l).map key ↔ k ∈ l.map key ∧ k ∉ seen := by
  induction l generalizing seen with
  | nil => simp [fresh]
  | cons a l ih =>
      rw [fresh]
      split
      · rename_i ha
        rw [ih, List.map_cons, List.mem_cons]
        constructor
        · rintro ⟨hk, hseen⟩
          exact ⟨.inr hk, hseen⟩
        · rintro ⟨rfl | hk, hseen⟩
          · exact absurd ha hseen
          · exact ⟨hk, hseen⟩
      · rename_i ha
        rw [List.map_cons, List.mem_cons, ih, List.map_cons, List.mem_cons, Finset.mem_insert]
        by_cases hk : k = key a
        · simp [hk, ha]
        · simp [hk]

theorem nodup_map_fresh (seen : Finset κ) (l : List α) : ((fresh key seen l).map key).Nodup := by
  induction l generalizing seen with
  | nil => exact .nil
  | cons a l ih =>
      rw [fresh]
      split
      · exact ih seen
      · refine List.nodup_cons.mpr ⟨fun ha ↦ ?_, ih _⟩
        exact (mem_map_fresh.mp ha).2 (Finset.mem_insert_self _ _)

theorem fresh_subset (seen : Finset κ) (l : List α) : fresh key seen l ⊆ l := by
  induction l generalizing seen with
  | nil => exact List.Subset.refl _
  | cons a l ih =>
      rw [fresh]
      split
      · exact List.subset_cons_of_subset _ (ih seen)
      · exact List.cons_subset_cons _ (ih _)

end

/-! ## The first entries of each list -/

/-- Every element of the lists stands once in the first `n` entries of each. -/
def EachOnce (n : ℕ) (lists : List (List κ)) : Prop :=
  (lists.flatMap (·.take n)).Nodup ∧ ∀ k, k ∈ lists.flatMap (·.take n) ↔ ∃ l ∈ lists, k ∈ l

variable {n : ℕ} {lists : List (List κ)}

theorem flatMap_take (h : ∀ l ∈ lists, l.length ≤ n) :
    lists.flatMap (·.take n) = lists.flatten := by
  rw [List.flatten_eq_flatMap]
  exact List.flatMap_congr fun l hl ↦ List.take_of_length_le (h l hl)

/-- Short lists without a common element. -/
theorem eachOnce_of_disjoint (hnodup : ∀ l ∈ lists, l.Nodup) (hshort : ∀ l ∈ lists, l.length ≤ n)
    (hdisjoint : lists.Pairwise List.Disjoint) : EachOnce n lists := by
  rw [EachOnce, flatMap_take hshort]
  exact ⟨List.nodup_flatten.mpr ⟨hnodup, hdisjoint⟩, fun k ↦ List.mem_flatten⟩

/-- Of the two conditions, each one implies the other. -/
theorem EachOnce.short_iff_disjoint (hnodup : ∀ l ∈ lists, l.Nodup) (h : EachOnce n lists) :
    (∀ l ∈ lists, l.length ≤ n) ↔ lists.Pairwise List.Disjoint := by
  constructor
  · intro hshort
    have hall := h.1
    rw [flatMap_take hshort] at hall
    exact (List.nodup_flatten.mp hall).2
  · intro hdisjoint l hl
    by_contra hlong
    rw [not_le] at hlong
    -- The element after the first ones has to stand in another list.
    obtain ⟨l', hl', hk⟩ := List.mem_flatMap.mp ((h.2 l[n]).mpr ⟨l, hl, List.getElem_mem hlong⟩)
    by_cases hsame : l' = l
    · subst hsame
      have hsplit := hnodup l' hl
      rw [← List.take_append_drop n l', List.drop_eq_getElem_cons hlong] at hsplit
      exact (List.nodup_append.mp hsplit).2.2 _ hk _ List.mem_cons_self rfl
    · have : Std.Symm (List.Disjoint : List κ → List κ → Prop) := ⟨fun _ _ h ↦ h.symm⟩
      have hapart := hdisjoint.forall hl' hl hsame
      exact hapart (List.mem_of_mem_take hk) (List.getElem_mem hlong)

end Chunks
