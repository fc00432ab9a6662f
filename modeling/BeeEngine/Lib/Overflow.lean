import Mathlib

/-!
# Arithmetic of machine words

A result that does not fit its type wraps around in a release build, and stops
the program in a debug build.
-/

namespace Overflow

inductive Build where
  | debug
  | release
  deriving DecidableEq, Repr

variable {w : ℕ}

/-- `a * b`, or nothing where the program stops. -/
def mul (build : Build) (a b : BitVec w) : Option (BitVec w) :=
  if build = .debug ∧ 2 ^ w ≤ a.toNat * b.toNat then none else some (a * b)

/-- `a + b`, or nothing where the program stops. -/
def add (build : Build) (a b : BitVec w) : Option (BitVec w) :=
  if build = .debug ∧ 2 ^ w ≤ a.toNat + b.toNat then none else some (a + b)

theorem add_of_lt {a b : BitVec w} (build : Build) (h : a.toNat + b.toNat < 2 ^ w) :
    add build a b = some (a + b) ∧ (a + b).toNat = a.toNat + b.toNat := by
  refine ⟨if_neg fun hover ↦ absurd hover.2 (Nat.not_le.mpr h), ?_⟩
  rw [BitVec.toNat_add, Nat.mod_eq_of_lt h]

theorem mul_of_lt {a b : BitVec w} (build : Build) (h : a.toNat * b.toNat < 2 ^ w) :
    mul build a b = some (a * b) ∧ (a * b).toNat = a.toNat * b.toNat := by
  refine ⟨if_neg fun hover ↦ absurd hover.2 (Nat.not_le.mpr h), ?_⟩
  rw [BitVec.toNat_mul, Nat.mod_eq_of_lt h]

theorem toNat_of_add_eq_some {build : Build} {a b c : BitVec w} (h : add build a b = some c) :
    c.toNat = (a.toNat + b.toNat) % 2 ^ w := by
  rw [add] at h
  split at h
  · cases h
  · obtain rfl := Option.some.inj h
    exact BitVec.toNat_add a b

/-- A product that goes on is the exact one up to a multiple of the modulus. -/
theorem toNat_of_mul_eq_some {build : Build} {a b c : BitVec w} (h : mul build a b = some c) :
    c.toNat = a.toNat * b.toNat % 2 ^ w := by
  rw [mul] at h
  split at h
  · cases h
  · obtain rfl := Option.some.inj h
    exact BitVec.toNat_mul a b

/-- A wrapped product is too small, also after a division by a word. -/
theorem mod_div_lt {n d : ℕ} (hd : 0 < d) (hword : d ≤ 2 ^ w) (hn : 2 ^ w ≤ n) :
    n % 2 ^ w / d < n / d := by
  have hsplit : n % 2 ^ w + d ≤ n := by
    have hmul : 2 ^ w ≤ 2 ^ w * (n / 2 ^ w) :=
      Nat.le_mul_of_pos_right _ (Nat.div_pos hn (Nat.two_pow_pos w))
    have hn := Nat.mod_add_div n (2 ^ w)
    omega
  calc
    n % 2 ^ w / d < (n % 2 ^ w + d) / d := by
      rw [Nat.add_div_right _ hd]
      exact Nat.lt_succ_self _
    _ ≤ n / d := Nat.div_le_div_right hsplit

end Overflow
