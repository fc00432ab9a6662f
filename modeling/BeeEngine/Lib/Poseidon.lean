import Mathlib

/-!
# Poseidon

The hash of `n` elements of a ring: a permutation of `n + 1` elements, of which
the first one is zero before it and the hash after it.  Every round adds
constants, raises to the fifth power, and multiplies with a matrix.  In the
rounds in the middle only the first element is raised to a power.
-/

namespace Poseidon

variable {R : Type*} [CommRing R] {n : ℕ}

structure Params (n : ℕ) (R : Type*) where
  /-- Number of full rounds at the beginning, and at the end. -/
  half : ℕ
  /-- Number of the other rounds. -/
  middle : ℕ
  constant : ℕ → Fin (n + 1) → R
  mix : Matrix (Fin (n + 1)) (Fin (n + 1)) R

namespace Params

variable (P : Params n R)

def IsFull (r : ℕ) : Prop := r < P.half ∨ P.half + P.middle ≤ r

instance (r : ℕ) : Decidable (P.IsFull r) := inferInstanceAs (Decidable (_ ∨ _))

/-- The elements before they are mixed. -/
def sbox (r : ℕ) (s : Fin (n + 1) → R) (i : Fin (n + 1)) : R :=
  if P.IsFull r ∨ i = 0 then (s i + P.constant r i) ^ 5 else s i + P.constant r i

def round (s : Fin (n + 1) → R) (r : ℕ) : Fin (n + 1) → R := P.mix.mulVec (P.sbox r s)

def permute (s : Fin (n + 1) → R) : Fin (n + 1) → R :=
  (List.range (2 * P.half + P.middle)).foldl P.round s

def hash (inputs : Fin n → R) : R := P.permute (Fin.cons 0 inputs) 0

end Params

end Poseidon
