import BeeEngine.Lib.Paging

/-!
# Readers that start over

A reader that has come to its end starts over from its first cursor.  Two such
readers in step come to their ends together after a common multiple of their
numbers of pages.
-/

namespace Laps

variable {Cursor Item : Type}

/-- The items from a cursor to the end of the lap, after which the reader is at its
first cursor again.  A step says whether it is followed by more of the lap. -/
inductive Lap (step : Cursor → Option (Item × Cursor × Bool)) (start : Cursor) :
    Cursor → List Item → Prop
  | last {c : Cursor} {x : Item} (hstep : step c = some (x, start, false)) : Lap step start c [x]
  | more {c c' : Cursor} {x : Item} {xs : List Item} (hstep : step c = some (x, c', true))
      (hlap : Lap step start c' xs) : Lap step start c (x :: xs)

variable {step : Cursor → Option (Item × Cursor × Bool)} {start c : Cursor} {xs : List Item}

theorem Lap.length_pos (h : Lap step start c xs) : 0 < xs.length := by
  cases h with
  | last => exact Nat.one_pos
  | more => exact Nat.succ_pos _

/-- The cursors of one lap. -/
theorem Lap.exists_cursors (h : Lap step start c xs) :
    ∃ cursors : ℕ → Cursor, cursors 0 = c ∧ cursors xs.length = start ∧
      ∀ k (hk : k < xs.length),
        step (cursors k) = some (xs[k], cursors (k + 1), decide (k + 1 < xs.length)) := by
  induction h with
  | @last c x hstep =>
      refine ⟨fun k ↦ if k = 0 then c else start, rfl, rfl, fun k hk ↦ ?_⟩
      obtain rfl : k = 0 := Nat.lt_one_iff.mp hk
      simpa using hstep
  | @more c c' x xs hstep hlap ih =>
      obtain ⟨cursors, hfirst, hlast, hsteps⟩ := ih
      refine ⟨fun k ↦ Nat.casesOn k c cursors, rfl, hlast, fun k hk ↦ ?_⟩
      cases k with
      | zero => simpa [hfirst, hlap.length_pos] using hstep
      | succ k => simpa using hsteps k (Nat.lt_of_succ_lt_succ hk)

/-- The cursors of all laps. -/
theorem Lap.exists_laps (h : Lap step start start xs) :
    ∃ cursors : ℕ → Cursor, cursors 0 = start ∧
      ∀ k, step (cursors k) =
        some (xs.get ⟨k % xs.length, Nat.mod_lt k h.length_pos⟩, cursors (k + 1),
          decide ((k + 1) % xs.length ≠ 0)) := by
  obtain ⟨cursors, hfirst, hlast, hsteps⟩ := h.exists_cursors
  refine ⟨fun k ↦ cursors (k % xs.length), by simpa using hfirst, fun k ↦ ?_⟩
  have hlt := Nat.mod_lt k h.length_pos
  have hmod : (k + 1) % xs.length = (k % xs.length + 1) % xs.length := (Nat.mod_add_mod _ _ _).symm
  have hnext : cursors (k % xs.length + 1) = cursors ((k + 1) % xs.length) ∧
      decide (k % xs.length + 1 < xs.length) = decide ((k + 1) % xs.length ≠ 0) := by
    by_cases hmore : k % xs.length + 1 < xs.length
    · rw [hmod, Nat.mod_eq_of_lt hmore]
      simp [hmore]
    · have hend : k % xs.length + 1 = xs.length := by omega
      rw [hmod, hend, Nat.mod_self, hfirst, hlast]
      simp
  rw [hsteps _ hlt, hnext.1, hnext.2]
  rfl

/-- The items of some number of laps. -/
theorem map_range_mul (hpos : 0 < xs.length) (q : ℕ) :
    (List.range (q * xs.length)).map (fun k ↦ xs.get ⟨k % xs.length, Nat.mod_lt k hpos⟩) =
      (List.replicate q xs).flatten := by
  have hlap : (List.range xs.length).map (fun k ↦ xs.get ⟨k % xs.length, Nat.mod_lt k hpos⟩) =
      xs := by
    apply List.ext_getElem
    · simp
    · intro k hk hk'
      simp [Nat.mod_eq_of_lt hk']
  induction q with
  | zero => simp
  | succ q ih =>
      rw [Nat.succ_mul, List.range_add, List.map_append, ih, List.map_map, List.replicate_succ',
        List.flatten_append, List.flatten_singleton]
      congr 1
      conv_rhs => rw [← hlap]
      refine List.map_congr_left fun k _ ↦ ?_
      simp [Nat.mul_add_mod_self_right]

theorem flatMap_laps {β : Type} (f : Item → List β) (hpos : 0 < xs.length) (q : ℕ) :
    (List.range (q * xs.length)).flatMap
        (fun k ↦ f (xs.get ⟨k % xs.length, Nat.mod_lt k hpos⟩)) =
      (List.replicate q (xs.flatMap f)).flatten := by
  rw [← List.flatMap_map (fun k ↦ xs.get ⟨k % xs.length, Nat.mod_lt k hpos⟩), map_range_mul hpos,
    List.flatten_eq_flatMap, List.flatMap_assoc, List.flatMap_def, List.map_replicate]
  rfl

/-! ## Two readers in step -/

variable {Cursor' Item' Page : Type}
  {step' : Cursor' → Option (Item' × Cursor' × Bool)} {start' : Cursor'} {ys : List Item'}

/-- A caller of two readers, which goes on while one of them has more, comes to an
end after the least common multiple of their numbers of pages. -/
theorem exists_reads {call : ℕ → Cursor × Cursor' → Option Page}
    {next : Page → Option (Cursor × Cursor')} {shows : Page → Item → Item' → Prop}
    (h : Lap step start start xs) (h' : Lap step' start' start' ys)
    (hcall : ∀ n c c', ∀ x ∈ xs, ∀ y ∈ ys, ∀ d d' more more', step c = some (x, d, more) →
      step' c' = some (y, d', more') → ∃ page, call n (c, c') = some page ∧ shows page x y ∧
        next page = if more || more' then some (d, d') else none) :
    ∃ pages, Paging.Reads call next 0 (start, start') pages ∧
      pages.length = Nat.lcm xs.length ys.length ∧
        ∀ k (hk : k < pages.length),
          shows pages[k] (xs.get ⟨k % xs.length, Nat.mod_lt k h.length_pos⟩)
            (ys.get ⟨k % ys.length, Nat.mod_lt k h'.length_pos⟩) := by
  obtain ⟨cursors, hfirst, hsteps⟩ := h.exists_laps
  obtain ⟨cursors', hfirst', hsteps'⟩ := h'.exists_laps
  choose page hpage hshows hnext using
    fun k ↦ hcall k _ _ _ (List.get_mem _ _) _ (List.get_mem _ _) _ _ _ _ (hsteps k) (hsteps' k)
  have hpos : 0 < Nat.lcm xs.length ys.length := Nat.lcm_pos h.length_pos h'.length_pos
  obtain ⟨m, hm⟩ := Nat.exists_eq_succ_of_ne_zero hpos.ne'
  -- Both readers are at the end of a lap after a common multiple.
  have hend : ∀ k, (decide ((k + 1) % xs.length ≠ 0) || decide ((k + 1) % ys.length ≠ 0)) = true ↔
      ¬Nat.lcm xs.length ys.length ∣ k + 1 := by
    intro k
    rw [Nat.lcm_dvd_iff, Nat.dvd_iff_mod_eq_zero, Nat.dvd_iff_mod_eq_zero]
    simp [imp_iff_not_or]
  refine ⟨(List.range (m + 1)).map page, ?_, ?_, fun k hk ↦ ?_⟩
  · rw [← hfirst, ← hfirst']
    refine Paging.reads_map_range (fun k ↦ (cursors k, cursors' k)) page
      (fun k _ ↦ ?_) (fun k hk ↦ ?_) ?_
    · rw [Nat.zero_add]
      exact hpage k
    · rw [hnext, if_pos]
      rw [hend, hm]
      exact Nat.not_dvd_of_pos_of_lt (Nat.succ_pos k) (Nat.succ_lt_succ hk)
    · rw [hnext, if_neg]
      rw [hend, hm, not_not]
  · rw [List.length_map, List.length_range, hm]
  · rw [List.getElem_map, List.getElem_range]
    exact hshows k

/-- The pages of two readers show the items of each one as often as it makes a lap. -/
theorem perm_flatMap {β : Type} {pages : List Page} {data : Page → List β} {f : Item → List β}
    {g : Item' → List β} (hx : 0 < xs.length) (hy : 0 < ys.length) {q q' : ℕ}
    (hq : pages.length = q * xs.length) (hq' : pages.length = q' * ys.length)
    (hdata : ∀ k (hk : k < pages.length), (data pages[k]).Perm
      (f (xs.get ⟨k % xs.length, Nat.mod_lt k hx⟩) ++
        g (ys.get ⟨k % ys.length, Nat.mod_lt k hy⟩))) :
    (pages.flatMap data).Perm
      ((List.replicate q (xs.flatMap f)).flatten ++ (List.replicate q' (ys.flatMap g)).flatten) := by
  have heach : List.Forall₂ List.Perm (pages.map data) ((List.range pages.length).map fun k ↦
      f (xs.get ⟨k % xs.length, Nat.mod_lt k hx⟩) ++ g (ys.get ⟨k % ys.length, Nat.mod_lt k hy⟩)) := by
    refine List.forall₂_iff_get.mpr ⟨by simp, fun k hk _ ↦ ?_⟩
    rw [List.length_map] at hk
    simpa using hdata k hk
  have happend := List.flatMap_append_perm (List.range pages.length)
    (fun k ↦ f (xs.get ⟨k % xs.length, Nat.mod_lt k hx⟩))
    (fun k ↦ g (ys.get ⟨k % ys.length, Nat.mod_lt k hy⟩))
  rw [← flatMap_laps f hx, ← flatMap_laps g hy, ← hq, ← hq']
  exact (List.Perm.flatten_congr heach).trans happend.symm

end Laps
