import BeeEngine.Lib.Blake3

/-!
# Leaves of a mining session

A leaf is a proof of work over its own fields.  The byte string that is hashed
for the work is big endian, whereas the commitment of a computed leaf hashes a
decimal rendering of all its fields together with the hexadecimal work hash.
The hash function is a parameter throughout.
-/

namespace BeeEngine

structure Leaf where
  index : BitVec 128
  nonce : UInt64
  seed : String
  x : UInt32
  y : UInt32
  timestamp : UInt64
  complexity : UInt32
  deriving DecidableEq, Repr

structure ComputedLeaf where
  index : BitVec 128
  nonce : UInt64
  seed : String
  x : UInt32
  y : UInt32
  timestamp : UInt64
  complexity : UInt32
  hash : Bytes
  deriving DecidableEq, Repr

def u128Max : ℕ := 2 ^ 128 - 1

/-- The work threshold `u128::MAX >> complexity`; the shift amount of a
release build is reduced modulo the width. -/
def threshold (complexity : UInt32) : ℕ := u128Max >>> (complexity.toNat % 128)

namespace Leaf

/-- The bytes fed to the hasher, in the order of the updates. -/
def preimage (leaf : Leaf) : Bytes :=
  Bytes.beBytes 4 leaf.x.toNat ++ Bytes.beBytes 4 leaf.y.toNat ++
    Bytes.beBytes 8 leaf.timestamp.toNat ++ Bytes.beBytes 4 leaf.complexity.toNat ++
    Bytes.utf8 leaf.seed ++ Bytes.beBytes 16 leaf.index.toNat ++
    Bytes.beBytes 8 leaf.nonce.toNat

def compute (blake3 : Bytes → Bytes32) (leaf : Leaf) : ComputedLeaf where
  index := leaf.index
  nonce := leaf.nonce
  seed := leaf.seed
  x := leaf.x
  y := leaf.y
  timestamp := leaf.timestamp
  complexity := leaf.complexity
  hash := (blake3 leaf.preimage).bytes

end Leaf

namespace ComputedLeaf

def toLeaf (value : ComputedLeaf) : Leaf where
  index := value.index
  nonce := value.nonce
  seed := value.seed
  x := value.x
  y := value.y
  timestamp := value.timestamp
  complexity := value.complexity

/-- The text whose hash is the Merkle leaf. -/
def merkleText (leaf : ComputedLeaf) : String :=
  "index:" ++ toString leaf.index.toNat ++ ",nonce:" ++ toString leaf.nonce.toNat ++
    ",seed:" ++ leaf.seed ++ ",x:" ++ toString leaf.x.toNat ++ ",y:" ++ toString leaf.y.toNat ++
    ",timestamp:" ++ toString leaf.timestamp.toNat ++
    ",complexity:" ++ toString leaf.complexity.toNat ++
    ",hash:" ++ Bytes.hexEncode leaf.hash

def merkleHash (blake3 : Bytes → Bytes32) (leaf : ComputedLeaf) : Bytes32 :=
  blake3 (Bytes.utf8 leaf.merkleText)

/-- A hash shorter than 16 bytes gets the sentinel above every threshold. -/
def hashNum (leaf : ComputedLeaf) : ℕ :=
  if leaf.hash.length < 16 then u128Max else Bytes.ofBeBytes (leaf.hash.take 16)

def verify (blake3 : Bytes → Bytes32) (leaf : ComputedLeaf) (seed : String)
    (complexity : UInt32) : Bool :=
  if leaf.seed ≠ seed ∨ leaf.complexity ≠ complexity then false
  else if 128 ≤ leaf.complexity.toNat then false
  else
    let hashValid := leaf.hash == (leaf.toLeaf.compute blake3).hash
    let numValid := decide (leaf.hashNum < threshold leaf.complexity)
    hashValid && numValid

theorem verify_eq_true_iff (blake3 : Bytes → Bytes32) (leaf : ComputedLeaf) (seed : String)
    (complexity : UInt32) :
    leaf.verify blake3 seed complexity = true ↔
      leaf.seed = seed ∧ leaf.complexity = complexity ∧ leaf.complexity.toNat < 128 ∧
        leaf = leaf.toLeaf.compute blake3 ∧ leaf.hashNum < threshold leaf.complexity := by
  have hself : leaf = leaf.toLeaf.compute blake3 ↔
      leaf.hash = (leaf.toLeaf.compute blake3).hash := by
    constructor
    · intro h
      exact congrArg ComputedLeaf.hash h
    · intro h
      cases leaf
      simp only [toLeaf, Leaf.compute] at h ⊢
      rw [← h]
  rw [hself, verify]
  by_cases hmeta : leaf.seed ≠ seed ∨ leaf.complexity ≠ complexity
  · rw [if_pos hmeta]
    simp only [Bool.false_eq_true, false_iff]
    rintro ⟨hseed, hcomplexity, -⟩
    rcases hmeta with h | h
    · exact h hseed
    · exact h hcomplexity
  · obtain ⟨hseed, hcomplexity⟩ := not_or.mp hmeta
    rw [if_neg hmeta]
    by_cases hwide : 128 ≤ leaf.complexity.toNat
    · simp [hwide, Nat.not_lt.mpr hwide]
    · simp [not_not.mp hseed, not_not.mp hcomplexity]

end ComputedLeaf

/-- A computed leaf below the threshold of its complexity is a valid proof of
work for its own seed. -/
theorem Leaf.verify_compute (blake3 : Bytes → Bytes32) (leaf : Leaf)
    (hcomplexity : leaf.complexity.toNat < 128)
    (hnum : (leaf.compute blake3).hashNum < threshold leaf.complexity) :
    (leaf.compute blake3).verify blake3 leaf.seed leaf.complexity = true := by
  rw [ComputedLeaf.verify_eq_true_iff]
  exact ⟨rfl, rfl, hcomplexity, rfl, hnum⟩

set_option maxRecDepth 8000 in
example : (Leaf.compute Blake3.hash
    ⟨10, 2249, "0x0000", 0, 0, 1765010819137, 10⟩).hash.map UInt8.toNat =
      [0x00, 0x11, 0xff, 0xde, 0x34, 0x45, 0x8b, 0xb9, 0x36, 0x9b, 0xd0, 0x33, 0x6a, 0x3f, 0x43,
        0x72, 0x63, 0xff, 0xe3, 0xed, 0xf4, 0xa0, 0xbd, 0xcb, 0x5e, 0x89, 0xae, 0x9a, 0x44, 0x73,
        0x62, 0x75] := by
  decide +kernel

end BeeEngine
