import BeeEngine.Lib.Blake3
import BeeEngine.Lib.Merkle

/-!
# The Merkle tree dependency

The tree and proof operations that the miner and the verifier call, as a
record of functions, and the laws that the code relies on.  The laws speak
about trees that are built by insertions and one commit, which is how the
miner builds them.  A reference implementation over the promoted-odd trees
satisfies all of them.
-/

namespace BeeEngine

/-- The operations in use, for 32-byte hashes. -/
structure RsMerkle where
  Tree : Type
  Proof : Type
  new : Tree
  insert : Tree → Bytes32 → Tree
  commit : Tree → Tree
  root : Tree → Option Bytes32
  leaves : Tree → Option (List Bytes32)
  proof : Tree → List ℕ → Proof
  proofHashes : Proof → List Bytes32
  toBytes : Proof → Bytes
  fromBytes : Bytes → Except String Proof
  verify : Proof → Bytes32 → List ℕ → List Bytes32 → ℕ → Bool

/-- The hash of an inner node. -/
def concatAndHash (blake3 : Bytes → Bytes32) (left right : Bytes32) : Bytes32 :=
  blake3 (left.bytes ++ right.bytes)

/-- The indices `start..end` as a list. -/
def indexRange (start stop : ℕ) : List ℕ := List.range' start (stop - start)

namespace RsMerkle

variable (M : RsMerkle)

def inserted (hashes : List Bytes32) : M.Tree := hashes.foldl M.insert M.new

def committed (hashes : List Bytes32) : M.Tree := M.commit (M.inserted hashes)

theorem inserted_append (hashes : List Bytes32) (h : Bytes32) :
    M.inserted (hashes ++ [h]) = M.insert (M.inserted hashes) h := by
  simp [inserted]

/-- Leaves are visible only once they are committed. -/
structure CommitLaws : Prop where
  leaves_inserted : ∀ hashes, (M.leaves (M.inserted hashes)).getD [] = []
  leaves_committed : ∀ hashes, (M.leaves (M.committed hashes)).getD [] = hashes

/-- Proofs made by a tree verify against its root, survive serialisation, and
are empty exactly when they cover all leaves. -/
structure ProofLaws : Prop where
  exists_root : ∀ hashes, hashes ≠ [] → ∃ r, M.root (M.committed hashes) = some r
  root_singleton : ∀ h, M.root (M.committed [h]) = some h
  fromBytes_toBytes : ∀ p, M.fromBytes (M.toBytes p) = .ok p
  toBytes_proof_eq_nil_iff : ∀ hashes s e, s < e → e ≤ hashes.length →
    (M.toBytes (M.proof (M.committed hashes) (indexRange s e)) = [] ↔
      s = 0 ∧ e = hashes.length)
  verify_proof : ∀ hashes s e r, s < e → e ≤ hashes.length →
    M.root (M.committed hashes) = some r →
      M.verify (M.proof (M.committed hashes) (indexRange s e)) r (indexRange s e)
        ((hashes.drop s).take (e - s)) hashes.length = true

/-- Verification accepts only if the given leaves, paired with their indices,
and the hashes of the proof recompute the root of a tree of the given size. -/
def VerifyLaw (blake3 : Bytes → Bytes32) : Prop :=
  ∀ p r indices hashes n, M.verify p r indices hashes n = true →
    Merkle.recompute (concatAndHash blake3) n (indices.zip hashes) (M.proofHashes p) = some r

/-! ## Reference implementation -/

/-- Cut a byte string into hashes. -/
def splitHashes : ℕ → Bytes → List Bytes32
  | 0, _ => []
  | k + 1, bs =>
      match Bytes32.ofSlice? (bs.take 32) with
      | none => []
      | some h => h :: splitHashes k (bs.drop 32)

/-- Trees are pairs of committed and pending leaves. -/
def reference (blake3 : Bytes → Bytes32) : RsMerkle where
  Tree := List Bytes32 × List Bytes32
  Proof := List Bytes32
  new := ([], [])
  insert tree h := (tree.1, tree.2 ++ [h])
  commit tree := (tree.1 ++ tree.2, [])
  root tree := Merkle.root (concatAndHash blake3) tree.1
  leaves tree := if tree.1 = [] then none else some tree.1
  proof tree indices :=
    Merkle.proof (concatAndHash blake3) tree.1.length
      ((List.range tree.1.length).map fun i ↦ decide (i ∈ indices)) tree.1
  proofHashes p := p
  toBytes p := p.flatMap Bytes32.bytes
  fromBytes bs :=
    if bs.length % 32 = 0 then .ok (splitHashes (bs.length / 32) bs)
    else .error ("Proof of size " ++ toString bs.length ++
      " bytes can not be divided into chunks of 32 bytes")
  verify p r indices hashes n :=
    decide (Merkle.recompute (concatAndHash blake3) n (indices.zip hashes) p = some r)

variable (blake3 : Bytes → Bytes32)

theorem splitHashes_flatMap (hashes : List Bytes32) :
    splitHashes hashes.length (hashes.flatMap Bytes32.bytes) = hashes := by
  induction hashes with
  | nil => rfl
  | cons h hashes ih =>
      rw [List.length_cons, List.flatMap_cons, splitHashes, List.take_left' h.length_eq,
        List.drop_left' h.length_eq, Bytes32.ofSlice?_bytes]
      simp only [ih]

theorem length_flatMap_bytes (hashes : List Bytes32) :
    (hashes.flatMap Bytes32.bytes).length = 32 * hashes.length := by
  induction hashes with
  | nil => rfl
  | cons h hashes ih =>
      rw [List.flatMap_cons, List.length_append, h.length_eq, ih, List.length_cons]
      omega

theorem reference_inserted (hashes : List Bytes32) :
    (reference blake3).inserted hashes = (([], hashes) : List Bytes32 × List Bytes32) := by
  induction hashes using List.reverseRecOn with
  | nil => rfl
  | append_singleton hashes h ih =>
      rw [inserted_append, ih]
      rfl

theorem reference_committed (hashes : List Bytes32) :
    (reference blake3).committed hashes = ((hashes, []) : List Bytes32 × List Bytes32) := by
  rw [committed, reference_inserted]
  rfl

theorem reference_proof (hashes : List Bytes32) (s e : ℕ) :
    (reference blake3).proof ((reference blake3).committed hashes) (indexRange s e) =
      Merkle.windowProof (concatAndHash blake3) hashes s e := by
  have hmask : ((List.range hashes.length).map fun i ↦ decide (i ∈ indexRange s e)) =
      Merkle.windowMask hashes.length s e := by
    apply List.map_congr_left
    intro i _
    rw [decide_eq_decide, indexRange, List.mem_range'_1]
    omega
  rw [reference_committed, Merkle.windowProof, ← hmask]
  rfl

theorem reference_fromBytes (hashes : List Bytes32) :
    (reference blake3).fromBytes (hashes.flatMap Bytes32.bytes) = .ok hashes := by
  have hlen := length_flatMap_bytes hashes
  change (if (hashes.flatMap Bytes32.bytes).length % 32 = 0 then
    Except.ok (splitHashes ((hashes.flatMap Bytes32.bytes).length / 32)
      (hashes.flatMap Bytes32.bytes)) else _) = _
  rw [hlen, if_pos (Nat.mul_mod_right 32 hashes.length), Nat.mul_div_cancel_left _ (by decide),
    splitHashes_flatMap]
  rfl

theorem reference_commitLaws : (reference blake3).CommitLaws where
  leaves_inserted hashes := by
    rw [reference_inserted]
    rfl
  leaves_committed hashes := by
    rw [reference_committed]
    change (if hashes = [] then none else some hashes).getD [] = hashes
    split
    · exact Eq.symm ‹hashes = []›
    · rfl

theorem reference_proofLaws : (reference blake3).ProofLaws where
  exists_root hashes hne := by
    rw [reference_committed]
    exact Merkle.exists_root (concatAndHash blake3) (List.length_pos_iff.mpr hne)
  root_singleton h := by
    rw [reference_committed]
    rfl
  fromBytes_toBytes p := reference_fromBytes blake3 p
  toBytes_proof_eq_nil_iff hashes s e hse hen := by
    rw [reference_proof, ← Merkle.windowProof_eq_nil_iff (concatAndHash blake3) hse hen]
    change List.flatMap Bytes32.bytes _ = [] ↔ _
    rw [← List.length_eq_zero_iff, length_flatMap_bytes, ← List.length_eq_zero_iff]
    omega
  verify_proof hashes s e r hse hen hroot := by
    rw [reference_proof]
    rw [reference_committed] at hroot
    exact decide_eq_true (Merkle.recompute_windowProof _ hse hen hroot)

theorem reference_verifyLaw : (reference blake3).VerifyLaw blake3 := by
  intro p r indices hashes n h
  exact of_decide_eq_true h

end RsMerkle

end BeeEngine
