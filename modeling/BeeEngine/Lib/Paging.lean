import Mathlib

/-!
# Reading page by page

A reader calls with a cursor, and goes on with the cursor that a page gives.
A sorted list may be continued after the last entry of a page.
-/

namespace Paging

variable {Cursor Page Item : Type}

/-- The pages of a reader whose next call is its `n`th one. -/
inductive Reads (call : ℕ → Cursor → Option Page) (next : Page → Option Cursor) :
    ℕ → Cursor → List Page → Prop
  | last {n : ℕ} {c : Cursor} {page : Page} (hcall : call n c = some page)
      (hnext : next page = none) : Reads call next n c [page]
  | more {n : ℕ} {c c' : Cursor} {page : Page} {pages : List Page}
      (hcall : call n c = some page) (hnext : next page = some c')
      (hreads : Reads call next (n + 1) c' pages) : Reads call next n c (page :: pages)

variable {call : ℕ → Cursor → Option Page} {next : Page → Option Cursor}

/-- What is read is determined. -/
theorem Reads.unique {n : ℕ} {c : Cursor} {pages pages' : List Page}
    (h : Reads call next n c pages) (h' : Reads call next n c pages') : pages = pages' := by
  induction h generalizing pages' with
  | last hcall hnext =>
      cases h' with
      | last hcall' =>
          obtain rfl := Option.some.inj (hcall.symm.trans hcall')
          rfl
      | more hcall' hnext' =>
          obtain rfl := Option.some.inj (hcall.symm.trans hcall')
          cases hnext.symm.trans hnext'
  | more hcall hnext hreads ih =>
      cases h' with
      | last hcall' hnext' =>
          obtain rfl := Option.some.inj (hcall.symm.trans hcall')
          cases hnext.symm.trans hnext'
      | more hcall' hnext' hreads' =>
          obtain rfl := Option.some.inj (hcall.symm.trans hcall')
          obtain rfl := Option.some.inj (hnext.symm.trans hnext')
          rw [ih hreads']

/-- The calls at the cursors of a sequence. -/
theorem reads_map_range {n m : ℕ} (cursors : ℕ → Cursor) (page : ℕ → Page)
    (hcall : ∀ k ≤ m, call (n + k) (cursors k) = some (page k))
    (hmore : ∀ k < m, next (page k) = some (cursors (k + 1))) (hlast : next (page m) = none) :
    Reads call next n (cursors 0) ((List.range (m + 1)).map page) := by
  induction m generalizing n cursors page with
  | zero => exact .last (hcall 0 (Nat.le_refl 0)) hlast
  | succ m ih =>
      rw [List.range_succ_eq_map, List.map_cons, List.map_map]
      refine .more (hcall 0 (Nat.zero_le _)) (hmore 0 (Nat.succ_pos m)) ?_
      refine ih (fun k ↦ cursors (k + 1)) (fun k ↦ page (k + 1)) (fun k hk ↦ ?_) (fun k hk ↦ ?_)
        hlast
      · rw [show n + 1 + k = n + (k + 1) by omega]
        exact hcall (k + 1) (Nat.succ_le_succ hk)
      · exact hmore (k + 1) (Nat.succ_lt_succ hk)

/-- A page of what is left, which is all of it, or is followed by less. -/
inductive Advances (next : Page → Option Cursor) (items : Page → List Item)
    (rest : Cursor → List Item) (size : Cursor → ℕ) (good : Cursor → Prop) (c : Cursor)
    (page : Page) : Prop
  | last (hnext : next page = none) (hitems : items page = rest c)
  | more {c' : Cursor} (hnext : next page = some c') (hgood : good c')
      (hitems : items page ++ rest c' = rest c) (hsize : size c' < size c)

/-- If every call advances, the reader comes to a last page and has read all. -/
theorem exists_reads {items : Page → List Item} {rest : Cursor → List Item} {size : Cursor → ℕ}
    {good : Cursor → Prop} {p : Page → Prop}
    (hstep : ∀ n c, good c → ∃ page, call n c = some page ∧ p page ∧
      Advances next items rest size good c page) (n : ℕ) {c : Cursor} (hc : good c) :
    ∃ pages, Reads call next n c pages ∧ pages.flatMap items = rest c ∧ ∀ page ∈ pages, p page := by
  induction hsize : size c using Nat.strong_induction_on generalizing n c with
  | _ k ih =>
      obtain ⟨page, hcall, hpage, hadvances⟩ := hstep n c hc
      cases hadvances with
      | last hnext hitems =>
          refine ⟨[page], .last hcall hnext, ?_, ?_⟩
          · rw [List.flatMap_singleton, hitems]
          · exact List.forall_mem_singleton.mpr hpage
      | more hnext hgood hitems hless =>
          obtain ⟨pages, hreads, hall, hpages⟩ := ih _ (hsize ▸ hless) (n + 1) hgood rfl
          refine ⟨page :: pages, .more hcall hnext hreads, ?_, ?_⟩
          · rw [List.flatMap_cons, hall, hitems]
          · exact List.forall_mem_cons.mpr ⟨hpage, hpages⟩

/-- A page that shows a part of what may be left, and is the last one, or is
followed by less. -/
inductive Continues (next : Page → Option Cursor) (shows : Page → List Item → Prop)
    (rest : Cursor → List Item → Prop) (size : Cursor → ℕ) (good : Cursor → Prop) (c : Cursor)
    (page : Page) : Prop
  | last (seg : List Item) (hnext : next page = none) (hshows : shows page seg) (hrest : rest c seg)
  | more (c' : Cursor) (seg : List Item) (hnext : next page = some c') (hgood : good c')
      (hshows : shows page seg) (hrest : ∀ l, rest c' l → rest c (seg ++ l))
      (hsize : size c' < size c)

/-- A page that continues from one cursor continues from another one with the same
left. -/
theorem Continues.mono {shows : Page → List Item → Prop} {rest : Cursor → List Item → Prop}
    {size : Cursor → ℕ} {good : Cursor → Prop} {c c₂ : Cursor} {page : Page}
    (h : Continues next shows rest size good c page) (hrest : ∀ l, rest c l → rest c₂ l)
    (hsize : size c ≤ size c₂) : Continues next shows rest size good c₂ page := by
  cases h with
  | last seg hnext hshows hleft => exact .last seg hnext hshows (hrest _ hleft)
  | more c' seg hnext hgood hshows hleft hless =>
      exact .more c' seg hnext hgood hshows (fun l hl ↦ hrest _ (hleft l hl)) (hless.trans_le hsize)

/-- If every call continues, the reader comes to a last page, and its pages show one
after another all of what may be left. -/
theorem exists_reads_of_continues {shows : Page → List Item → Prop}
    {rest : Cursor → List Item → Prop} {size : Cursor → ℕ} {good : Cursor → Prop}
    (hstep : ∀ n c, good c → ∃ page, call n c = some page ∧
      Continues next shows rest size good c page) (n : ℕ) {c : Cursor} (hc : good c) :
    ∃ pages segs, Reads call next n c pages ∧ List.Forall₂ shows pages segs ∧
      rest c segs.flatten := by
  induction hsize : size c using Nat.strong_induction_on generalizing n c with
  | _ k ih =>
      obtain ⟨page, hcall, hcontinues⟩ := hstep n c hc
      cases hcontinues with
      | last seg hnext hshows hrest =>
          refine ⟨[page], [seg], .last hcall hnext, .cons hshows .nil, ?_⟩
          rwa [List.flatten_singleton]
      | more c' seg hnext hgood hshows hrest hless =>
          obtain ⟨pages, segs, hreads, hall, hleft⟩ := ih _ (hsize ▸ hless) (n + 1) hgood rfl
          refine ⟨page :: pages, seg :: segs, .more hcall hnext hreads, .cons hshows hall, ?_⟩
          rw [List.flatten_cons]
          exact hrest _ hleft

/-! ## Sorted lists -/

section

variable {α : Type} [LinearOrder α]

/-- In a sorted list, the entries after one are the larger ones. -/
theorem filter_lt_append {before after : List α} {x : α}
    (h : (before ++ x :: after).Pairwise (· < ·)) :
    (before ++ x :: after).filter (x < ·) = after := by
  obtain ⟨-, hafter, hbefore⟩ := List.pairwise_append.mp h
  obtain ⟨hx, -⟩ := List.pairwise_cons.mp hafter
  have hnone : before.filter (x < ·) = [] := by
    refine List.filter_eq_nil_iff.mpr fun y hy ↦ ?_
    simpa using (hbefore y hy x List.mem_cons_self).le
  have hall : after.filter (x < ·) = after :=
    List.filter_eq_self.mpr fun y hy ↦ by simpa using hx y hy
  rw [List.filter_append, hnone, List.nil_append, List.filter_cons_of_neg (by simp), hall]

/-- A page of the entries of a kind, and those of the kind after its last one. -/
theorem append_filter_lt {l page : List α} {kind : α → Bool} {x : α}
    (hl : l.Pairwise (· < ·)) (hpage : page <+: l.filter kind) (hx : page.getLast? = some x) :
    page ++ (l.filter (x < ·)).filter kind = l.filter kind := by
  obtain ⟨after, hafter⟩ := hpage
  obtain ⟨before, rfl⟩ := List.getLast?_eq_some_iff.mp hx
  rw [List.append_assoc, List.singleton_append] at hafter
  have hsorted : (before ++ x :: after).Pairwise (· < ·) := hafter ▸ hl.filter kind
  calc
    (before ++ [x]) ++ (l.filter (x < ·)).filter kind
        = (before ++ [x]) ++ (l.filter kind).filter (x < ·) := by rw [List.filter_comm]
    _ = (before ++ [x]) ++ after := by rw [← hafter, filter_lt_append hsorted]
    _ = l.filter kind := by rw [List.append_assoc, List.singleton_append, hafter]

/-- Going on from the first larger entry. -/
theorem drop_findIdx_lt {l : List α} (hl : l.Pairwise (· < ·)) (x : α) :
    l.drop (l.findIdx (x < ·)) = l.filter (x < ·) := by
  induction l with
  | nil => rfl
  | cons y l ih =>
      obtain ⟨hy, hl⟩ := List.pairwise_cons.mp hl
      rw [List.findIdx_cons]
      by_cases hxy : x < y
      · have hall : l.filter (x < ·) = l :=
          List.filter_eq_self.mpr fun z hz ↦ by simpa using hxy.trans (hy z hz)
        simp [hxy, hall]
      · simp [hxy, ih hl]

/-- Fewer entries are left after one of them. -/
theorem length_filter_lt {l : List α} {x : α} (hx : x ∈ l) :
    (l.filter (x < ·)).length < l.length :=
  List.length_filter_lt_length_iff_exists.mpr ⟨x, hx, by simp⟩

end

end Paging
