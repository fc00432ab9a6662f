import BeeEngine.Verifier

/-!
# What an accepted request guarantees

Proof of work is checked on the leaf data and membership on the leaf hashes,
and nothing relates the two lists.  An empty proof is moreover accepted for
any interval and any number of leaves.  What acceptance does guarantee is
stated for the two lists separately.
-/

namespace BeeEngine

/-- The leaf data of the check are the leaves of the interval, and the hashes
are theirs. -/
structure Check.Committed (blake3 : Bytes → Bytes32) (c : Check) : Prop where
  start_lt_stop : c.start < c.stop
  stop_le : c.stop ≤ c.submit.leavesCount
  length_tree : c.proof.leavesTree.length = c.stop.toNat - c.start.toNat
  length_data : c.proof.leavesData.length = c.stop.toNat - c.start.toNat
  leaf : ∀ k < c.stop.toNat - c.start.toNat, ∃ leaf, c.proof.leavesData[k]? = some leaf ∧
    c.proof.leavesTree[k]? = some (leaf.merkleHash blake3).bytes ∧
    leaf.index.toNat = c.start.toNat + k ∧
    leaf.verify blake3 c.seed c.complexity = true

/-- Acceptance would bind the leaf data to the committed hashes. -/
def VerifierSound (M : RsMerkle) (blake3 : Bytes → Bytes32) : Prop :=
  ∀ req rest, VerifierGuest.verify M blake3 .wrapping req = .ok (1 :: 1 :: rest) →
    ∃ p, ParamsOfVerifySession.tryFrom req = .ok p ∧ ∀ c ∈ p.checks, c.Committed blake3

/-! ## A forged request -/

def forgedLeaf (nonce timestamp : UInt64) (complexity : UInt32) : ComputedLeaf :=
  Leaf.compute Blake3.hash
    { index := 0
      nonce := nonce
      seed := "0x" ++ Bytes.hexEncode (List.replicate 32 0)
      x := 0
      y := 0
      timestamp := timestamp
      complexity := complexity }

def forgedProof (leaf : ComputedLeaf) : SessionProof where
  proof := []
  leavesTree := [List.replicate 32 0]
  leavesData := [leaf]

theorem length_zeros : (List.replicate 32 (0 : UInt8)).length = 32 := List.length_replicate

/-- Leaves of work against roots that are not the hash of anything known, for an
interval that ends before it starts and an easy tree with no leaves. -/
def forgedRequest (first last : ComputedLeaf) : VerifyRequest where
  seed := ⟨List.replicate 32 0, length_zeros⟩
  easyComplexity := 10
  easyIntervalStart := 9
  easyIntervalEnd := 2
  hardComplexity := 11
  hardIntervalStart := 7
  hardIntervalEnd := 3
  rest :=
    { easySubmitParams := ⟨List.replicate 32 0, 0⟩
      hardSubmitParams := ⟨List.replicate 32 0, 1056⟩
      easyProofParams := forgedProof (forgedLeaf 29 1000000 10)
      hardFirstProofParams := forgedProof first
      hardRangeProofParams := forgedProof first
      hardLastProofParams := forgedProof last }

/-- Two leaves of hard work, 33000 seconds apart. -/
def earlyLeaf : ComputedLeaf := forgedLeaf 9720 1000000 11

def lateLeaf : ComputedLeaf := forgedLeaf 3720 34000000 11

theorem forgedRequest_encodes (first last : ComputedLeaf)
    (hfits : PartialVerifySession.codec.fits (forgedRequest first last).rest = true) :
    ∃ req, (forgedRequest first last).encode = some req :=
  ⟨_, (VerifyRequest.encode_eq_some_iff _ _).mpr
    ⟨(PartialVerifySession.fits_codec_iff _).mp hfits, rfl⟩⟩

/-- A single leaf that is the root passes with an empty proof, whatever its
interval and the number of leaves. -/
theorem Check.body_of_empty_proof (M : RsMerkle) (blake3 : Bytes → Bytes32) (c : Check)
    (hcollect : c.Collectable) (hproof : c.proof.proof = [])
    (htree : c.proof.leavesTree = [c.submit.root])
    (hleaves : validateLeaves blake3 c.paramsOfValidateLeaves = true) :
    c.body M blake3 = .ok true := by
  rw [Check.body_eq_true_iff, validateProof_eq_true_iff]
  exact ⟨hcollect, Or.inl ⟨hproof, htree⟩, hleaves⟩

/-- The leaf is work of the given complexity for the seed of the request. -/
def ForgedWork (leaf : ComputedLeaf) (complexity : UInt32) : Prop :=
  validateLeaves Blake3.hash
    ⟨"0x" ++ Bytes.hexEncode (List.replicate 32 0), complexity, [leaf]⟩ = true

theorem forgedWork_forgedLeaf (nonce timestamp : UInt64) (complexity : UInt32)
    (hcomplexity : complexity.toNat < 128)
    (hnum : (forgedLeaf nonce timestamp complexity).hashNum < threshold complexity) :
    ForgedWork (forgedLeaf nonce timestamp complexity) complexity := by
  rw [ForgedWork, validateLeaves_eq_true_iff]
  refine ⟨List.cons_ne_nil _ _, ?_⟩
  intro leaf hleaf
  obtain rfl := List.mem_singleton.mp hleaf
  exact Leaf.verify_compute Blake3.hash _ hcomplexity hnum

theorem forgedWork_earlyLeaf : ForgedWork earlyLeaf 11 :=
  forgedWork_forgedLeaf 9720 1000000 11 (by decide) (by decide +kernel)

theorem forgedWork_lateLeaf : ForgedWork lateLeaf 11 :=
  forgedWork_forgedLeaf 3720 34000000 11 (by decide) (by decide +kernel)

theorem forgedRequest_accepted {M : RsMerkle} {first last : ComputedLeaf} {req : Bytes}
    (hreq : (forgedRequest first last).encode = some req) (hfirst : ForgedWork first 11)
    (hlast : ForgedWork last 11) :
    VerifierGuest.verify M Blake3.hash .wrapping req =
      .ok (1 :: 1 :: Bytes.leBytes 4
        ((last.timestamp - first.timestamp) / 330).toUInt32.toNat) := by
  have heasy : ForgedWork (forgedLeaf 29 1000000 10) 10 :=
    forgedWork_forgedLeaf 29 1000000 10 (by decide) (by decide +kernel)
  rw [VerifierGuest.verify_eq_accept_iff]
  refine ⟨_, (tryFrom_eq_ok_iff _ _).mpr ⟨_, rfl, hreq⟩, ?_, _, ?_, rfl⟩
  · intro c hc
    simp only [ParamsOfVerifySession.checks, List.mem_cons, List.not_mem_nil, or_false] at hc
    rcases hc with rfl | rfl | rfl | rfl
    · exact Check.body_of_empty_proof _ _ _ (Nat.le_of_ble_eq_true rfl) rfl rfl heasy
    · exact Check.body_of_empty_proof _ _ _ (Nat.le_of_ble_eq_true rfl) rfl rfl hfirst
    · exact Check.body_of_empty_proof _ _ _ (Nat.le_of_ble_eq_true rfl) rfl rfl hfirst
    · have hcollect : 4 * ((1056 : UInt64).toNat % 2 ^ 32 - (1056 - 1 : UInt64).toNat % 2 ^ 32) ≤
          maxAllocation := by decide
      exact Check.body_of_empty_proof _ _ _ hcollect rfl rfl hlast
  · rw [VerifierGuest.hardComputationBlocks_wrapping_eq_ok_iff]
    exact ⟨first, last, rfl, rfl, rfl⟩

/-- The forged request is accepted, and each single guarantee fails for its
easy check. -/
theorem not_verifierSound :
    ¬VerifierSound (RsMerkle.reference Blake3.hash) Blake3.hash ∧
    ∃ req leaf, VerifierGuest.verify (RsMerkle.reference Blake3.hash) Blake3.hash .wrapping req =
        .ok [1, 1, 160, 134, 1, 0] ∧
      ParamsOfVerifySession.tryFrom req = .ok (forgedRequest earlyLeaf lateLeaf).params ∧
      (let c := (forgedRequest earlyLeaf lateLeaf).params.easyCheck;
        ¬c.start < c.stop ∧ ¬c.stop ≤ c.submit.leavesCount ∧
          c.proof.leavesTree.length ≠ c.stop.toNat - c.start.toNat ∧
          c.proof.leavesData.length ≠ c.stop.toNat - c.start.toNat ∧
          c.proof.leavesData[0]? = some leaf ∧
          c.proof.leavesTree[0]? ≠ some (leaf.merkleHash Blake3.hash).bytes ∧
          leaf.index.toNat ≠ c.start.toNat) := by
  obtain ⟨req, hreq⟩ := forgedRequest_encodes earlyLeaf lateLeaf (by decide +kernel)
  have haccept : VerifierGuest.verify (RsMerkle.reference Blake3.hash) Blake3.hash .wrapping req =
      .ok [1, 1, 160, 134, 1, 0] :=
    forgedRequest_accepted hreq forgedWork_earlyLeaf forgedWork_lateLeaf
  have hread := (tryFrom_eq_ok_iff req _).mpr ⟨_, rfl, hreq⟩
  constructor
  · intro hsound
    obtain ⟨p, hp, hcommitted⟩ := hsound req _ haccept
    obtain rfl := Except.ok.inj (hread.symm.trans hp)
    have hlt := (hcommitted _ (List.mem_cons_self ..)).start_lt_stop
    exact absurd hlt (by decide)
  · refine ⟨req, forgedLeaf 29 1000000 10, haccept, hread, by decide, by decide, by decide,
      by decide, rfl, by decide +kernel, by decide⟩

/-! ## What acceptance does guarantee -/

/-- Either the only hash is the root itself, or the hashes sit at the indices
of the interval in every tree that has the root and the number of leaves: the
indices and the number are taken modulo the word size, and surplus hashes or
indices are ignored. -/
def Check.TreeAccepted (M : RsMerkle) (blake3 : Bytes → Bytes32) (c : Check) : Prop :=
  (c.proof.proof = [] ∧ c.proof.leavesTree = [c.submit.root]) ∨
  (c.proof.proof ≠ [] ∧ ∃ (proof : M.Proof) (root : Bytes32) (hashes : List Bytes32),
    M.fromBytes c.proof.proof = .ok proof ∧ root.bytes = c.submit.root ∧
    hashes.map Bytes32.bytes = c.proof.leavesTree ∧
    let start := c.start.toNat % 2 ^ 32
    let count := c.submit.leavesCount.toNat % 2 ^ 32
    let width := min (c.stop.toNat % 2 ^ 32 - start) hashes.length
    let given := (indexRange start (c.stop.toNat % 2 ^ 32)).zip hashes
    0 < width ∧ start + width ≤ count ∧
    ∀ leaves : List Bytes32, leaves.length = count →
      Merkle.root (concatAndHash blake3) leaves = some root →
      Merkle.CollisionFree (concatAndHash blake3)
        (Merkle.recomputePairs (concatAndHash blake3) count given (M.proofHashes proof))
        (Merkle.treePairs (concatAndHash blake3) count leaves) →
      ∀ k < width, leaves[start + k]? = hashes[k]?)

/-- The given pairs of an interval are as many as both lists allow. -/
theorem length_given (start stop : ℕ) (hashes : List Bytes32) :
    ((indexRange start stop).zip hashes).length = min (stop - start) hashes.length := by
  simp [indexRange]

theorem lookup_given {start stop k : ℕ} {hashes : List Bytes32}
    (hk : k < min (stop - start) hashes.length) :
    ((indexRange start stop).zip hashes).lookup (start + k) = hashes[k]? := by
  rw [indexRange, Merkle.lookup_zip_range', if_pos (by omega), Nat.add_sub_cancel_left]

theorem Check.treeAccepted_of_validateProof {M : RsMerkle} {blake3 : Bytes → Bytes32}
    (hlaw : M.VerifyLaw blake3) {c : Check}
    (h : validateProof M c.paramsOfValidateProof = .ok true) : c.TreeAccepted M blake3 := by
  rcases (validateProof_eq_true_iff M _).mp h with hempty | ⟨hne, proof, root, hashes, hfrom,
    hroot, hhashes, hverify⟩
  · exact Or.inl hempty
  · right
    have hrecompute := hlaw _ _ _ _ _ hverify
    change Merkle.recompute _ (c.submit.leavesCount.toNat % 2 ^ 32)
      ((indexRange (c.start.toNat % 2 ^ 32) (c.stop.toNat % 2 ^ 32)).zip hashes) _ = _ at hrecompute
    refine ⟨hne, proof, root, hashes, hfrom, hroot, hhashes, ?_⟩
    generalize c.start.toNat % 2 ^ 32 = start at hrecompute ⊢
    generalize c.stop.toNat % 2 ^ 32 = stop at hrecompute ⊢
    generalize c.submit.leavesCount.toNat % 2 ^ 32 = count at hrecompute ⊢
    have hwidth : 0 < min (stop - start) hashes.length := by
      rw [← length_given]
      exact List.length_pos_iff.mpr (Merkle.given_ne_nil_of_recompute _ hrecompute)
    refine ⟨hwidth, ?_, ?_⟩
    · -- The last pair of the interval is below the number of leaves.
      have hlast : min (stop - start) hashes.length - 1 < min (stop - start) hashes.length := by
        omega
      have hlookup := lookup_given hlast
      rw [List.getElem?_eq_getElem (Nat.lt_of_lt_of_le hlast (Nat.min_le_right _ _))] at hlookup
      obtain ⟨l₁, l₂, hsplit, -⟩ := List.lookup_eq_some_iff.mp hlookup
      have hlt := (Merkle.lt_of_recompute _ hrecompute).1
      rw [hsplit] at hlt
      have hbound := hlt _ (List.mem_append_right _ List.mem_cons_self)
      simp only at hbound
      omega
    · intro leaves hcount hleaves hfree k hk
      have hlookup := lookup_given hk
      have hlength := Nat.lt_of_lt_of_le hk (Nat.min_le_right _ _)
      rw [List.getElem?_eq_getElem hlength] at hlookup ⊢
      exact Merkle.recompute_binds _ hrecompute hleaves hcount hfree hlookup

/-- An accepted request has work in all four lists of leaf data, hashes that
the two roots commit to up to the cases of `Check.TreeAccepted`, and a number
of blocks that is computed from the leaf data. -/
theorem verify_accept_sound {M : RsMerkle} {blake3 : Bytes → Bytes32}
    (hlaw : M.VerifyLaw blake3) {req rest : Bytes}
    (h : VerifierGuest.verify M blake3 .wrapping req = .ok (1 :: 1 :: rest)) :
    ∃ p first last, ParamsOfVerifySession.tryFrom req = .ok p ∧
      p.hardFirstProofParams.leavesData.head? = some first ∧
      p.hardLastProofParams.leavesData.getLast? = some last ∧
      rest = Bytes.leBytes 4 ((last.timestamp - first.timestamp) / 330).toUInt32.toNat ∧
      ∀ c ∈ p.checks, c.TreeAccepted M blake3 ∧ c.proof.leavesData ≠ [] ∧
        ∀ leaf ∈ c.proof.leavesData, leaf.verify blake3 c.seed c.complexity = true := by
  obtain ⟨p, hp, hchecks, blocks, hblocks, rfl⟩ :=
    (VerifierGuest.verify_eq_accept_iff M blake3 req rest).mp h
  obtain ⟨first, last, hfirst, hlast, rfl⟩ :=
    (VerifierGuest.hardComputationBlocks_wrapping_eq_ok_iff p blocks).mp hblocks
  refine ⟨p, first, last, hp, hfirst, hlast, rfl, ?_⟩
  intro c hc
  obtain ⟨-, hproof, hleaves⟩ := (Check.body_eq_true_iff M blake3 c).mp (hchecks c hc)
  exact ⟨Check.treeAccepted_of_validateProof hlaw hproof,
    (validateLeaves_eq_true_iff blake3 _).mp hleaves⟩

/-- The forged request meets the guarantees of an accepted request. -/
theorem verify_accept_sound_forged :
    ∃ req p first last, ParamsOfVerifySession.tryFrom req = .ok p ∧
      p.hardFirstProofParams.leavesData.head? = some first ∧
      p.hardLastProofParams.leavesData.getLast? = some last ∧
      [160, 134, 1, 0] =
        Bytes.leBytes 4 ((last.timestamp - first.timestamp) / 330).toUInt32.toNat ∧
      ∀ c ∈ p.checks, c.TreeAccepted (RsMerkle.reference Blake3.hash) Blake3.hash ∧
        c.proof.leavesData ≠ [] ∧
        ∀ leaf ∈ c.proof.leavesData, leaf.verify Blake3.hash c.seed c.complexity = true := by
  obtain ⟨req, hreq⟩ := forgedRequest_encodes earlyLeaf lateLeaf (by decide +kernel)
  exact ⟨req, verify_accept_sound (RsMerkle.reference_verifyLaw Blake3.hash)
    (forgedRequest_accepted hreq forgedWork_earlyLeaf forgedWork_lateLeaf)⟩

end BeeEngine
