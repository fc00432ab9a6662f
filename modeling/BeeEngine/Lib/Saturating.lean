import Mathlib

/-!
# Saturating arithmetic

Sums, differences and products of 64-bit numbers that stop at the bounds of the
type.
-/

namespace Saturating

def add (a b : UInt64) : UInt64 := .ofNat (min (a.toNat + b.toNat) (2 ^ 64 - 1))

def sub (a b : UInt64) : UInt64 := .ofNat (a.toNat - b.toNat)

def mul (a b : UInt64) : UInt64 := .ofNat (min (a.toNat * b.toNat) (2 ^ 64 - 1))

theorem toNat_ofNat_min (n : ℕ) :
    (UInt64.ofNat (min n (2 ^ 64 - 1))).toNat = min n (2 ^ 64 - 1) :=
  UInt64.toNat_ofNat_of_lt' (lt_of_le_of_lt (min_le_right _ _) (by decide))

@[simp] theorem toNat_add (a b : UInt64) :
    (add a b).toNat = min (a.toNat + b.toNat) (2 ^ 64 - 1) :=
  toNat_ofNat_min _

@[simp] theorem toNat_sub (a b : UInt64) : (sub a b).toNat = a.toNat - b.toNat :=
  UInt64.toNat_ofNat_of_lt' (lt_of_le_of_lt (Nat.sub_le _ _) a.toNat_lt)

@[simp] theorem toNat_mul (a b : UInt64) :
    (mul a b).toNat = min (a.toNat * b.toNat) (2 ^ 64 - 1) :=
  toNat_ofNat_min _

end Saturating
