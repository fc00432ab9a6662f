import Mathlib

/-!
# Codes without separators

Lists whose items are written one after another, and decimal digits as a code
for numbers.
-/

namespace Codes

variable {α β : Type}

/-- Two lists with the same text part at items of which one is written as a
prefix of the other. -/
theorem exists_prefix_of_flatMap_eq {code : α → List β} (hne : ∀ a, code a ≠ []) {as bs : List α}
    (htext : as.flatMap code = bs.flatMap code) (hab : as ≠ bs) :
    ∃ before a b as' bs', as = before ++ a :: as' ∧ bs = before ++ b :: bs' ∧ a ≠ b ∧
      (code a <+: code b ∨ code b <+: code a) := by
  induction as generalizing bs with
  | nil =>
      cases bs with
      | nil => exact absurd rfl hab
      | cons b bs =>
          rw [List.flatMap_nil, List.flatMap_cons] at htext
          exact absurd (List.append_eq_nil_iff.mp htext.symm).1 (hne b)
  | cons a as ih =>
      cases bs with
      | nil =>
          rw [List.flatMap_nil, List.flatMap_cons] at htext
          exact absurd (List.append_eq_nil_iff.mp htext).1 (hne a)
      | cons b bs =>
          rw [List.flatMap_cons, List.flatMap_cons] at htext
          by_cases heq : a = b
          · subst heq
            have htail : as ≠ bs := fun h ↦ hab (congrArg (a :: ·) h)
            obtain ⟨before, x, y, as', bs', rfl, rfl, hxy, hprefix⟩ :=
              ih (List.append_cancel_left htext) htail
            exact ⟨a :: before, x, y, as', bs', rfl, rfl, hxy, hprefix⟩
          · refine ⟨[], a, b, as, bs, rfl, rfl, heq, ?_⟩
            apply List.prefix_or_prefix_of_prefix (List.prefix_append (code a) (as.flatMap code))
            rw [htext]
            exact List.prefix_append _ _

/-! ## Decimal digits -/

theorem head?_toDigits {n : ℕ} (hn : n ≠ 0) : (Nat.toDigits 10 n).head? ≠ some '0' := by
  induction n using Nat.strong_induction_on with
  | _ n ih =>
      rw [Nat.toDigits_eq_if (by decide)]
      split
      · simpa using hn
      · have hdiv := ih (n / 10) (by omega) (by omega)
        rwa [List.head?_append_of_ne_nil _ Nat.toDigits_ne_nil]

theorem digitChar_sub_of_isDigit {c : Char} (h : c.isDigit = true) :
    c.toNat - '0'.toNat < 10 ∧ (c.toNat - '0'.toNat).digitChar = c := by
  rw [Char.isDigit, Bool.and_eq_true, decide_eq_true_eq, decide_eq_true_eq] at h
  have hlow : 48 ≤ c.toNat := h.1
  have hhigh : c.toNat ≤ 57 := h.2
  change c.toNat - 48 < 10 ∧ (c.toNat - 48).digitChar = c
  generalize hn : c.toNat = n at hlow hhigh
  refine ⟨by omega, ?_⟩
  rw [← Char.ofNat_toNat c, hn]
  interval_cases n <;> rfl

/-- Digits without a leading zero are those of their number. -/
theorem toDigits_ofDigitChars {ds : List Char} (hne : ds ≠ []) (hhead : ds.head? ≠ some '0')
    (hdigits : ∀ c ∈ ds, c.isDigit = true) : Nat.toDigits 10 (Nat.ofDigitChars 10 ds 0) = ds := by
  induction ds using List.reverseRecOn with
  | nil => exact absurd rfl hne
  | append_singleton ds c ih =>
      obtain ⟨hlt, hchar⟩ := digitChar_sub_of_isDigit (hdigits c (by simp))
      rw [Nat.ofDigitChars_append, Nat.ofDigitChars_cons, Nat.ofDigitChars_nil]
      by_cases hempty : ds = []
      · subst hempty
        rw [Nat.ofDigitChars_nil, Nat.mul_zero, Nat.zero_add, Nat.toDigits_of_lt_base hlt, hchar]
        rfl
      · rw [List.head?_append_of_ne_nil _ hempty] at hhead
        have hprefix := ih hempty hhead fun d hd ↦ hdigits d (List.mem_append_left _ hd)
        have hpos : 0 < Nat.ofDigitChars 10 ds 0 := by
          apply Nat.pos_of_ne_zero
          intro hzero
          rw [hzero, Nat.toDigits_zero] at hprefix
          rw [← hprefix] at hhead
          exact hhead rfl
        rw [← Nat.toDigits_append_toDigits (by decide) hpos hlt, hprefix,
          Nat.toDigits_of_lt_base hlt, hchar]

end Codes
