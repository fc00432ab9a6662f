import BeeEngine.Lib.Text

/-!
# Unsigned integers, with the error

`str::parse`, which goes through the digits and stops at the first one that is
none, or that takes the number over its bound.
-/

namespace BeeEngine

namespace ParseInt

/-- `IntErrorKind` -/
inductive Kind where
  | empty
  | invalidDigit
  | posOverflow
  deriving DecidableEq, Repr

/-- The text of a `ParseIntError`. -/
def Kind.message : Kind → String
  | .empty => "cannot parse integer from empty string"
  | .invalidDigit => "invalid digit found in string"
  | .posOverflow => "number too large to fit in target type"

/-- The number, after the digits before. -/
def parseLoop (bound : ℕ) : ℕ → List Char → Except Kind ℕ
  | n, [] => .ok n
  | n, c :: cs =>
      if ¬c.isDigit then .error .invalidDigit
      else if bound ≤ 10 * n + (c.toNat - '0'.toNat) then .error .posOverflow
      else parseLoop bound (10 * n + (c.toNat - '0'.toNat)) cs

def parse (bound : ℕ) (s : String) : Except Kind ℕ :=
  match s.toList with
  | [] => .error .empty
  | ['+'] => .error .invalidDigit
  | '+' :: cs => parseLoop bound 0 cs
  | cs => parseLoop bound 0 cs

/-! ## The number -/

theorem le_ofDigitChars (cs : List Char) (n : ℕ) : n ≤ Nat.ofDigitChars 10 cs n := by
  induction cs generalizing n with
  | nil => rw [Nat.ofDigitChars_nil]
  | cons c cs ih =>
      rw [Nat.ofDigitChars_cons]
      have hle := ih (10 * n + (c.toNat - '0'.toNat))
      omega

theorem parseLoop_eq_ok_iff {bound n m : ℕ} {cs : List Char} (h : n < bound) :
    parseLoop bound n cs = .ok m ↔
      cs.all Char.isDigit = true ∧ Nat.ofDigitChars 10 cs n = m ∧ m < bound := by
  induction cs generalizing n with
  | nil =>
      rw [parseLoop, Nat.ofDigitChars_nil, Except.ok.injEq]
      constructor
      · rintro rfl
        exact ⟨rfl, rfl, h⟩
      · rintro ⟨-, hm, -⟩
        exact hm
  | cons c cs ih =>
      rw [parseLoop, Nat.ofDigitChars_cons, List.all_cons, Bool.and_eq_true]
      by_cases hdigit : c.isDigit = true
      · rw [if_neg (not_not.mpr hdigit)]
        split
        · -- The number only grows from here on.
          rename_i hover
          have hle := le_ofDigitChars cs (10 * n + (c.toNat - '0'.toNat))
          constructor
          · rintro ⟨⟩
          · rintro ⟨-, rfl, hlt⟩
            omega
        · rename_i hover
          rw [ih (Nat.lt_of_not_le hover)]
          simp only [hdigit, true_and]
      · rw [if_pos hdigit]
        constructor
        · rintro ⟨⟩
        · rintro ⟨⟨hall, -⟩, -⟩
          exact absurd hall hdigit

theorem parseDigits_filter_eq_some_iff {bound m : ℕ} {cs : List Char} (hne : cs ≠ []) :
    (Text.parseDigits cs).filter (· < bound) = some m ↔
      cs.all Char.isDigit = true ∧ Nat.ofDigitChars 10 cs 0 = m ∧ m < bound := by
  rw [Option.filter_eq_some_iff, Text.parseDigits, decide_eq_true_iff]
  by_cases hall : cs.all Char.isDigit = true
  · rw [if_neg (by simp [hne, hall]), Option.some.injEq]
    simp only [hall, true_and]
  · rw [if_pos (.inr hall)]
    simp [hall]

/-- The parser gives the number that the text is, if that is below the bound. -/
theorem parse_eq_ok_iff {bound n : ℕ} {s : String} (h : 0 < bound) :
    parse bound s = .ok n ↔ Text.parseUnsigned bound s = some n := by
  rw [parse, Text.parseUnsigned]
  split
  · rename_i hs
    simp [hs, Text.parseDigits]
  · rename_i hs
    simp [hs, Text.parseDigits]
  · rename_i cs hne hs
    rw [hs, parseLoop_eq_ok_iff h]
    exact (parseDigits_filter_eq_some_iff hne).symm
  · rename_i hempty _ hplus
    rw [parseLoop_eq_ok_iff h]
    split
    · rename_i cs hs
      exact absurd hs (hplus cs)
    · exact (parseDigits_filter_eq_some_iff hempty).symm

end ParseInt

end BeeEngine
