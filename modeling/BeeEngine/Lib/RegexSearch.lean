import Mathlib

/-!
# Search with regular expressions

An expression is searched anywhere in a text, or it is anchored at both ends.
-/

namespace RegexSearch

open RegularExpression

variable {α : Type}

/-- A class of characters. -/
def oneOf : List α → RegularExpression α
  | [] => 0
  | a :: as => char a + oneOf as

/-- `a-b` in a class. -/
def span (a b : Char) : List Char :=
  (List.range' a.toNat (b.toNat + 1 - a.toNat)).map Char.ofNat

/-- `p{n,}` -/
def atLeast (n : ℕ) (p : RegularExpression α) : RegularExpression α := p ^ n * p.star

/-- `p` -/
def isMatch [DecidableEq α] (p : RegularExpression α) (w : List α) : Bool :=
  w.tails.any fun v ↦ v.inits.any p.rmatch

/-- `^p$` -/
def isMatchWhole [DecidableEq α] (p : RegularExpression α) (w : List α) : Bool := p.rmatch w

theorem mem_span_iff {a b c : Char} (hb : b.toNat < 0xD800) :
    c ∈ span a b ↔ a.toNat ≤ c.toNat ∧ c.toNat ≤ b.toNat := by
  rw [span, List.mem_map]
  constructor
  · rintro ⟨n, hn, rfl⟩
    rw [List.mem_range'_1] at hn
    rw [Char.toNat_ofNat, if_pos (.inl (by omega))]
    omega
  · intro h
    refine ⟨c.toNat, ?_, Char.ofNat_toNat c⟩
    rw [List.mem_range'_1]
    omega

/-! ## Languages -/

theorem isMatch_iff [DecidableEq α] {p : RegularExpression α} {w : List α} :
    isMatch p w = true ↔ ∃ v ∈ p.matches', v <:+: w := by
  simp only [isMatch, List.any_eq_true, List.mem_tails, List.mem_inits, rmatch_iff_matches',
    List.infix_iff_prefix_suffix]
  constructor
  · rintro ⟨t, ht, v, hv, hp⟩
    exact ⟨v, hp, t, hv, ht⟩
  · rintro ⟨v, hp, t, hv, ht⟩
    exact ⟨t, ht, v, hv, hp⟩

theorem isMatchWhole_iff [DecidableEq α] {p : RegularExpression α} {w : List α} :
    isMatchWhole p w = true ↔ w ∈ p.matches' := rmatch_iff_matches' p w

/-- The words of one character out of a set. -/
def IsClass (p : RegularExpression α) (s : Set α) : Prop := ∀ w, w ∈ p.matches' ↔ ∃ a ∈ s, w = [a]

theorem isClass_char (a : α) : IsClass (char a) {a} := by
  intro w
  simp only [matches'_char, Set.mem_singleton_iff, exists_eq_left]
  exact Set.mem_singleton_iff

theorem isClass_oneOf (as : List α) : IsClass (oneOf as) {a | a ∈ as} := by
  induction as with
  | nil => exact fun w ↦ by simp [oneOf, Language.notMem_zero]
  | cons a as ih =>
      intro w
      rw [oneOf, matches'_add, Language.mem_add, isClass_char a w, ih w]
      simp

section

variable {p : RegularExpression α} {s : Set α} {w : List α} {n : ℕ}

theorem IsClass.mem_pow_iff (hp : IsClass p s) :
    w ∈ (p ^ n).matches' ↔ w.length = n ∧ ∀ a ∈ w, a ∈ s := by
  rw [matches'_pow]
  induction n generalizing w with
  | zero =>
      rw [pow_zero, Language.mem_one, List.length_eq_zero_iff]
      exact ⟨fun h ↦ ⟨h, by simp [h]⟩, And.left⟩
  | succ n ih =>
      rw [pow_succ', Language.mem_mul]
      constructor
      · rintro ⟨u, hu, v, hv, rfl⟩
        obtain ⟨a, ha, rfl⟩ := (hp u).mp hu
        obtain ⟨hlength, hall⟩ := ih.mp hv
        exact ⟨by simp [hlength], List.forall_mem_cons.mpr ⟨ha, hall⟩⟩
      · rintro ⟨hlength, hall⟩
        obtain ⟨a, v, rfl⟩ := List.exists_cons_of_length_eq_add_one hlength
        obtain ⟨ha, hv⟩ := List.forall_mem_cons.mp hall
        exact ⟨[a], (hp _).mpr ⟨a, ha, rfl⟩, v, ih.mpr ⟨by simpa using hlength, hv⟩, rfl⟩

theorem IsClass.mem_star_iff (hp : IsClass p s) : w ∈ p.star.matches' ↔ ∀ a ∈ w, a ∈ s := by
  have hpow : w ∈ p.star.matches' ↔ ∃ n, w ∈ (p ^ n).matches' := by
    simp only [matches'_star, matches'_pow, Language.kstar_eq_iSup_pow]
    exact Set.mem_iUnion
  rw [hpow]
  simp only [hp.mem_pow_iff]
  exact ⟨fun ⟨_, _, h⟩ ↦ h, fun h ↦ ⟨w.length, rfl, h⟩⟩

theorem IsClass.mem_atLeast_iff (hp : IsClass p s) :
    w ∈ (atLeast n p).matches' ↔ n ≤ w.length ∧ ∀ a ∈ w, a ∈ s := by
  rw [atLeast, matches'_mul, Language.mem_mul]
  constructor
  · rintro ⟨u, hu, v, hv, rfl⟩
    obtain ⟨hlength, hall⟩ := hp.mem_pow_iff.mp hu
    refine ⟨by simp [hlength], fun a ha ↦ ?_⟩
    rcases List.mem_append.mp ha with ha | ha
    · exact hall a ha
    · exact hp.mem_star_iff.mp hv a ha
  · rintro ⟨hlength, hall⟩
    refine ⟨w.take n, hp.mem_pow_iff.mpr ⟨by simp [hlength], ?_⟩, w.drop n,
      hp.mem_star_iff.mpr ?_, List.take_append_drop n w⟩
    · exact fun a ha ↦ hall a (List.mem_of_mem_take ha)
    · exact fun a ha ↦ hall a (List.mem_of_mem_drop ha)

end

/-- A character stands `n` times in a row. -/
theorem isMatch_atLeast_char [DecidableEq α] {a : α} {n : ℕ} {w : List α} :
    isMatch (atLeast n (char a)) w = true ↔ List.replicate n a <:+: w := by
  rw [isMatch_iff]
  simp only [(isClass_char a).mem_atLeast_iff, Set.mem_singleton_iff]
  constructor
  · rintro ⟨v, ⟨hlength, hall⟩, hv⟩
    rw [List.eq_replicate_of_mem hall] at hv
    refine List.IsInfix.trans ?_ hv
    rw [List.infix_replicate_iff]
    exact ⟨by simpa using hlength, by simp⟩
  · intro h
    exact ⟨_, ⟨by simp, fun b hb ↦ List.eq_of_mem_replicate hb⟩, h⟩

end RegexSearch
