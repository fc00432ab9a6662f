import BeeEngine.Lib.Chunks

/-!
# Logs with cursors

A log is read backwards, from its newest entry on, which is its head.  A cursor
stands for the entries that are older than the one that has it.
-/

namespace Cursors

variable {α κ : Type}

/-- A cursor that was read in the log, or none. -/
def IsCursor (cursor : α → κ) (log : List α) (before : Option κ) : Prop :=
  ∀ c, before = some c → ∃ entry ∈ log, c = cursor entry

theorem isCursor_none (cursor : α → κ) (log : List α) : IsCursor cursor log none := by
  rintro c ⟨⟩

theorem isCursor_of_mem {cursor : α → κ} {log : List α} {entry : α} (h : entry ∈ log) :
    IsCursor cursor log (some (cursor entry)) := by
  rintro c ⟨⟩
  exact ⟨entry, h, rfl⟩

/-- The entries older than a cursor. -/
def older [DecidableEq κ] (cursor : α → κ) (before : Option κ) (log : List α) : List α :=
  match before with
  | none => log
  | some c => (log.dropWhile (cursor · ≠ c)).tail

variable [DecidableEq κ] {cursor : α → κ} {log : List α} {before : Option κ}

@[simp] theorem older_none (log : List α) : older cursor none log = log := rfl

theorem older_append {seen rest : List α} {entry : α}
    (h : ((seen ++ entry :: rest).map cursor).Nodup) :
    older cursor (some (cursor entry)) (seen ++ entry :: rest) = rest := by
  rw [older, List.dropWhile_append_of_pos, List.dropWhile_cons_of_neg (by simp), List.tail_cons]
  intro other hother
  rw [List.map_append, List.map_cons] at h
  have hdisjoint := (List.nodup_append.mp h).2.2 (cursor other) (List.mem_map_of_mem hother)
    (cursor entry)
  exact decide_eq_true (hdisjoint List.mem_cons_self)

theorem older_sublist (before : Option κ) (log : List α) :
    (older cursor before log).Sublist log := by
  cases before with
  | none => exact List.Sublist.refl _
  | some c => exact (List.tail_sublist _).trans (List.dropWhile_sublist _)

/-- The entries that a cursor stands for, after those that are not older. -/
theorem exists_append_older (h : (log.map cursor).Nodup) (hcursor : IsCursor cursor log before) :
    ∃ seen, log = seen ++ older cursor before log ∧
      ∀ c, before = some c → ∃ entry ∈ seen, c = cursor entry := by
  cases before with
  | none =>
      refine ⟨[], rfl, ?_⟩
      rintro c ⟨⟩
  | some c =>
      obtain ⟨entry, hentry, rfl⟩ := hcursor c rfl
      obtain ⟨seen, rest, rfl⟩ := List.append_of_mem hentry
      refine ⟨seen ++ [entry], ?_, ?_⟩
      · rw [older_append h]
        simp
      · rintro c ⟨⟩
        exact ⟨entry, by simp, rfl⟩

/-- The cursor of the oldest entry of a page. -/
theorem older_getLast (h : (log.map cursor).Nodup) (hcursor : IsCursor cursor log before) {n : ℕ}
    {last : α} (hlast : ((older cursor before log).take n).getLast? = some last) :
    older cursor (some (cursor last)) log = (older cursor before log).drop n ∧
      IsCursor cursor log (some (cursor last)) ∧ before ≠ some (cursor last) := by
  obtain ⟨seen, hseen, hbefore⟩ := exists_append_older h hcursor
  obtain ⟨front, hfront⟩ := List.getLast?_eq_some_iff.mp hlast
  have hsplit : log = (seen ++ front) ++ last :: (older cursor before log).drop n := by
    conv_lhs => rw [hseen, ← List.take_append_drop n (older cursor before log), hfront]
    simp
  have hmem : last ∈ log := by
    rw [hsplit]
    simp
  refine ⟨?_, isCursor_of_mem hmem, ?_⟩
  · generalize (older cursor before log).drop n = rest at hsplit ⊢
    rw [hsplit] at h ⊢
    exact older_append h
  · intro heq
    obtain ⟨entry, hentry, hentryCursor⟩ := hbefore _ heq
    rw [hsplit, List.map_append, List.map_append, List.map_cons] at h
    have hdisjoint := (List.nodup_append.mp h).2.2 (cursor entry)
      (List.mem_append_left _ (List.mem_map_of_mem hentry)) (cursor last)
    exact hdisjoint List.mem_cons_self hentryCursor.symm

/-- The first chunk of what a cursor stands for, and the chunks after it. -/
theorem exists_chunks_older (h : (log.map cursor).Nodup) (hcursor : IsCursor cursor log before)
    {n : ℕ} (hn : 0 < n) (hne : older cursor before log ≠ []) :
    ∃ last, ((older cursor before log).take n).getLast? = some last ∧
      IsCursor cursor log (some (cursor last)) ∧ before ≠ some (cursor last) ∧
        older cursor (some (cursor last)) log = (older cursor before log).drop n ∧
          Chunks.chunks n (older cursor before log) =
            (older cursor before log).take n ::
              Chunks.chunks n (older cursor (some (cursor last)) log) := by
  have htake : (older cursor before log).take n ≠ [] := by
    rw [ne_eq, List.take_eq_nil_iff]
    rintro (hzero | hnil)
    · exact hn.ne' hzero
    · exact hne hnil
  obtain ⟨last, hlast⟩ := Option.ne_none_iff_exists'.mp (mt List.getLast?_eq_none_iff.mp htake)
  obtain ⟨holder, hnext, hstall⟩ := older_getLast h hcursor hlast
  exact ⟨last, hlast, hnext, hstall, holder, by rw [Chunks.chunks_of_ne_nil hn hne, holder]⟩

/-- After a turn, the cursor of the last entry that was got stands for the chunks
that are left. -/
theorem exists_turn_older (h : (log.map cursor).Nodup) (full : List α → Bool) (got : List α)
    (hcursor : IsCursor cursor log before) {n : ℕ} (hn : 0 < n)
    (hne : older cursor before log ≠ []) :
    ∃ last, (Chunks.turn full got (Chunks.chunks n (older cursor before log))).1.getLast? =
        some last ∧
      IsCursor cursor log (some (cursor last)) ∧
        (Chunks.turn full got (Chunks.chunks n (older cursor before log))).2 =
          Chunks.chunks n (older cursor (some (cursor last)) log) := by
  induction hlength : (older cursor before log).length using Nat.strong_induction_on
    generalizing got before with
  | _ k ih =>
      obtain ⟨last, hlast, hnext, -, holder, hchunks⟩ := exists_chunks_older h hcursor hn hne
      have hgot : (got ++ (older cursor before log).take n).getLast? = some last := by
        rw [List.getLast?_append, hlast]
        rfl
      rw [hchunks, Chunks.turn]
      split
      · exact ⟨last, hgot, hnext, rfl⟩
      · by_cases hrest : older cursor (some (cursor last)) log = []
        · rw [hrest]
          exact ⟨last, hgot, hnext, by rw [hrest]; rfl⟩
        · refine ih _ ?_ _ hnext hrest rfl
          have hpos := List.length_pos_iff.mpr hne
          rw [holder, List.length_drop]
          omega

end Cursors
