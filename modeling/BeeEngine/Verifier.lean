import BeeEngine.Lib.Outcome
import BeeEngine.RsMerkle
import BeeEngine.SessionWire

/-!
# The session verifier

The verifier is a component for a 32-bit machine that is built for release:
64-bit integers become machine words by truncation and subtractions wrap.  The
arithmetic is a parameter of the program, so that the same program can also
run with arithmetic that stops at the first inexact result.
-/

namespace BeeEngine

inductive LibErrorCode where
  | deserializeRequest
  | checkRoot
  | deserializeProof
  | buildMerkleProof
  | checkLeaf
  | getFirstHardLeaf
  | getLastHardLeaf
  deriving DecidableEq, Repr

def LibErrorCode.toNat : LibErrorCode → ℕ
  | deserializeRequest => 100
  | checkRoot => 200
  | deserializeProof => 300
  | buildMerkleProof => 301
  | checkLeaf => 302
  | getFirstHardLeaf => 303
  | getLastHardLeaf => 304

structure LibError where
  code : LibErrorCode
  message : Option String
  deriving DecidableEq, Repr

def LibError.toBytes (value : LibError) : Bytes := [0, 0] ++ Bytes.leBytes 4 value.code.toNat

/-- Why a call produces no response at all. -/
inductive Trap where
  | capacityOverflow
  | inexact
  deriving DecidableEq, Repr

inductive Stop where
  | error (e : LibError)
  | trap (t : Trap)
  deriving DecidableEq, Repr

/-! ## Arithmetic -/

inductive Arith where
  | wrapping
  | exact
  deriving DecidableEq, Repr

namespace Arith

/-- A result under the given arithmetic; `fits` says whether it is exact. -/
def guard {α : Type} (arith : Arith) (fits : Prop) [Decidable fits] (value : α) :
    Except Stop α :=
  if arith = exact ∧ ¬fits then .error (.trap .inexact) else .ok value

def sub (arith : Arith) (a b : UInt64) : Except Stop UInt64 :=
  arith.guard (b.toNat ≤ a.toNat) (a - b)

def usize (arith : Arith) (x : UInt64) : Except Stop ℕ :=
  arith.guard (x.toNat < 2 ^ 32) (x.toNat % 2 ^ 32)

def u32 (arith : Arith) (x : UInt64) : Except Stop UInt32 :=
  arith.guard (x.toNat < 2 ^ 32) x.toUInt32

end Arith

/-- The largest size of an allocation, `isize::MAX` bytes. -/
def maxAllocation : ℕ := 2 ^ 31 - 1

/-- `(start..end).collect::<Vec<usize>>()` with words of four bytes. -/
def collectRange (start stop : ℕ) : Except Stop (List ℕ) :=
  if 4 * (stop - start) ≤ maxAllocation then .ok (indexRange start stop)
  else .error (.trap .capacityOverflow)

/-! ## Validation -/

structure ParamsOfValidateProof where
  root : Bytes
  proof : Bytes
  leavesCount : ℕ
  leavesChunk : List Bytes
  leavesIndices : List ℕ
  deriving DecidableEq, Repr

/-- The text of a failed conversion of a slice to an array. -/
def tryFromSliceError : String := "could not convert slice to array"

/-- The leaves from index `i` on as hashes, up to the first that is not one. -/
def leafHashes (i : ℕ) : List Bytes → Except LibError (List Bytes32)
  | [] => .ok []
  | leaf :: rest =>
      match Bytes32.ofSlice? leaf with
      | none => .error ⟨.checkLeaf,
          some ("Leaf `" ++ toString i ++ "` bytes to slice (" ++ tryFromSliceError ++ ")")⟩
      | some h => (leafHashes (i + 1) rest).map (h :: ·)

def validateProof (M : RsMerkle) (req : ParamsOfValidateProof) : Except LibError Bool :=
  if req.proof = [] then
    match req.leavesChunk with
    | [leaf] => .ok (leaf == req.root)
    | _ => .ok false
  else
    match M.fromBytes req.proof with
    | .error e => .error ⟨.buildMerkleProof, some ("Proof build failure (" ++ e ++ ")")⟩
    | .ok proof =>
        match Bytes32.ofSlice? req.root with
        | none => .error ⟨.checkRoot, some ("Root bytes to slice (" ++ tryFromSliceError ++ ")")⟩
        | some root => (leafHashes 0 req.leavesChunk).map fun leaves ↦
            M.verify proof root req.leavesIndices leaves req.leavesCount

structure ParamsOfValidateLeaves where
  seed : String
  complexity : UInt32
  leaves : List ComputedLeaf
  deriving DecidableEq, Repr

def validateLeaves (blake3 : Bytes → Bytes32) (params : ParamsOfValidateLeaves) : Bool :=
  !params.leaves.isEmpty && params.leaves.all fun computedLeaf ↦
    computedLeaf.verify blake3 params.seed params.complexity

namespace VerifierGuest

variable (M : RsMerkle) (blake3 : Bytes → Bytes32) (arith : Arith)

/-- An error of the library ends the program with that error. -/
def fail {α : Type} (result : Except LibError α) : Except Stop α := result.mapError Stop.error

def verifyProofAndLeaves (seed : String) (complexity : UInt32) (interval : UInt64 × UInt64)
    (submitParams : SessionSubmit) (proofParams : SessionProof) : Except Stop Bool := do
  let leavesCount ← arith.usize submitParams.leavesCount
  let start ← arith.usize interval.1
  let stop ← arith.usize interval.2
  let leavesIndices ← collectRange start stop
  let validProof ← fail <| validateProof M
    { root := submitParams.root
      proof := proofParams.proof
      leavesCount := leavesCount
      leavesChunk := proofParams.leavesTree
      leavesIndices := leavesIndices }
  let validLeaves := validateLeaves blake3
    { seed := seed
      complexity := complexity
      leaves := proofParams.leavesData }
  return validProof && validLeaves

/-- A leaf that must be there. -/
def require (code : LibErrorCode) : Option ComputedLeaf → Except Stop ComputedLeaf
  | none => .error (.error ⟨code, none⟩)
  | some leaf => .ok leaf

/-- The number of blocks between the first and the last hard leaf. -/
def hardComputationBlocks (params : ParamsOfVerifySession) : Except Stop UInt32 := do
  let firstLeaf ← require .getFirstHardLeaf params.hardFirstProofParams.leavesData.head?
  let lastLeaf ← require .getLastHardLeaf params.hardLastProofParams.leavesData.getLast?
  let elapsed ← arith.sub lastLeaf.timestamp firstLeaf.timestamp
  arith.u32 (elapsed / 330)

def boolByte (b : Bool) : UInt8 := if b then 1 else 0

def verifyParams (params : ParamsOfVerifySession) : Except Stop Bytes := do
  let easyValid ← verifyProofAndLeaves M blake3 arith params.seed params.easyComplexity
    (params.easyIntervalStart, params.easyIntervalEnd) params.easySubmitParams
    params.easyProofParams
  let hardFirstValid ← verifyProofAndLeaves M blake3 arith params.seed params.hardComplexity
    (0, 1) params.hardSubmitParams params.hardFirstProofParams
  let hardRangeValid ← verifyProofAndLeaves M blake3 arith params.seed params.hardComplexity
    (params.hardIntervalStart, params.hardIntervalEnd) params.hardSubmitParams
    params.hardRangeProofParams
  let lastIndex ← arith.sub params.hardSubmitParams.leavesCount 1
  let hardLastValid ← verifyProofAndLeaves M blake3 arith params.seed params.hardComplexity
    (lastIndex, params.hardSubmitParams.leavesCount) params.hardSubmitParams
    params.hardLastProofParams
  let blocks ← hardComputationBlocks arith params
  return 1 :: boolByte (easyValid && hardFirstValid && hardRangeValid && hardLastValid) ::
    Bytes.leBytes 4 blocks.toNat

/-- A response is produced unless the program traps. -/
def respond : Except Stop Bytes → Except Trap Bytes
  | .ok result => .ok result
  | .error (.error e) => .ok e.toBytes
  | .error (.trap t) => .error t

/-- The exported function, under either arithmetic; the component that is
built runs it with `Arith.wrapping`. -/
def verify (req : Bytes) : Except Trap Bytes :=
  respond <| match ParamsOfVerifySession.tryFrom req with
    | .error e => .error (.error ⟨.deserializeRequest, some e⟩)
    | .ok params => verifyParams M blake3 arith params

end VerifierGuest

/-! ## The parts of the checks -/

/-- The bytes are hashes throughout. -/
theorem leafHashes_eq_ok_iff (i : ℕ) (chunk : List Bytes) (hashes : List Bytes32) :
    leafHashes i chunk = .ok hashes ↔ hashes.map Bytes32.bytes = chunk := by
  induction chunk generalizing i hashes with
  | nil =>
      rw [leafHashes, Except.ok.injEq, List.map_eq_nil_iff]
      exact eq_comm
  | cons leaf rest ih =>
      rw [leafHashes]
      cases hleaf : Bytes32.ofSlice? leaf with
      | none =>
          rw [Bytes32.ofSlice?_eq_none_iff] at hleaf
          simp only [reduceCtorEq, false_iff]
          intro h
          cases hashes with
          | nil => cases h
          | cons h' hashes =>
              obtain ⟨rfl, -⟩ := List.cons.inj h
              exact hleaf h'.length_eq
      | some h =>
          obtain rfl := Bytes32.ofSlice?_eq_some_iff.mp hleaf
          cases hrest : leafHashes (i + 1) rest with
          | error e =>
              have hno := fun hs ↦ (ih (i + 1) hs).not.mp (by simp [hrest])
              simp only [Except.map, reduceCtorEq, false_iff]
              intro hmap
              cases hashes with
              | nil => cases hmap
              | cons h' hashes => exact hno hashes (List.cons.inj hmap).2
          | ok tail =>
              obtain rfl := (ih (i + 1) tail).mp hrest
              simp only [Except.map, Except.ok.injEq]
              constructor
              · rintro rfl
                rfl
              · intro hmap
                exact (List.map_injective_iff.mpr (fun _ _ ↦ Bytes32.bytes_injective) hmap).symm

/-- A proof that is accepted is the root itself, or it is read and verified. -/
theorem validateProof_eq_true_iff (M : RsMerkle) (req : ParamsOfValidateProof) :
    validateProof M req = .ok true ↔
      (req.proof = [] ∧ req.leavesChunk = [req.root]) ∨
      (req.proof ≠ [] ∧ ∃ (proof : M.Proof) (root : Bytes32) (leaves : List Bytes32),
        M.fromBytes req.proof = .ok proof ∧ root.bytes = req.root ∧
          leaves.map Bytes32.bytes = req.leavesChunk ∧
          M.verify proof root req.leavesIndices leaves req.leavesCount = true) := by
  rw [validateProof]
  by_cases hproof : req.proof = []
  · rw [if_pos hproof]
    simp only [hproof, true_and, ne_eq, not_true, false_and, or_false]
    match req.leavesChunk with
    | [] => simp
    | [leaf] => simp
    | _ :: _ :: _ => simp
  · rw [if_neg hproof]
    simp only [hproof, false_and, false_or, ne_eq, not_false_eq_true, true_and]
    constructor
    · intro h
      split at h
      · cases h
      · rename_i proof hfrom
        split at h
        · cases h
        · rename_i root hroot
          cases hleaves : leafHashes 0 req.leavesChunk with
          | error e => simp [hleaves, Except.map] at h
          | ok leaves =>
              simp only [hleaves, Except.map, Except.ok.injEq] at h
              exact ⟨proof, root, leaves, hfrom, Bytes32.ofSlice?_eq_some_iff.mp hroot,
                (leafHashes_eq_ok_iff 0 _ _).mp hleaves, h⟩
    · rintro ⟨proof, root, leaves, hfrom, hroot, hleaves, hverify⟩
      simp only [hfrom, Bytes32.ofSlice?_eq_some_iff.mpr hroot,
        (leafHashes_eq_ok_iff 0 _ _).mpr hleaves, Except.map, hverify]

theorem validateLeaves_eq_true_iff (blake3 : Bytes → Bytes32) (params : ParamsOfValidateLeaves) :
    validateLeaves blake3 params = true ↔
      params.leaves ≠ [] ∧
        ∀ leaf ∈ params.leaves, leaf.verify blake3 params.seed params.complexity = true := by
  simp [validateLeaves]

/-- The reading of a proof fails: it is not made of hashes, or the root or a
leaf is not a hash. -/
def ParamsOfValidateProof.Malformed (M : RsMerkle) (req : ParamsOfValidateProof) : Prop :=
  req.proof ≠ [] ∧ ((∃ e, M.fromBytes req.proof = .error e) ∨ req.root.length ≠ 32 ∨
    ∃ leaf ∈ req.leavesChunk, leaf.length ≠ 32)

theorem leafHashes_isOk_iff (i : ℕ) (chunk : List Bytes) :
    (∃ hashes, leafHashes i chunk = .ok hashes) ↔ ∀ leaf ∈ chunk, leaf.length = 32 := by
  simp only [leafHashes_eq_ok_iff]
  constructor
  · rintro ⟨hashes, rfl⟩ leaf hleaf
    obtain ⟨h, -, rfl⟩ := List.mem_map.mp hleaf
    exact h.length_eq
  · intro h
    induction chunk with
    | nil => exact ⟨[], rfl⟩
    | cons leaf rest ih =>
        obtain ⟨hleaf, hrest⟩ := List.forall_mem_cons.mp h
        obtain ⟨hashes, rfl⟩ := ih hrest
        exact ⟨⟨leaf, hleaf⟩ :: hashes, rfl⟩

theorem validateProof_isOk_iff (M : RsMerkle) (req : ParamsOfValidateProof) :
    (∃ v, validateProof M req = .ok v) ↔ ¬req.Malformed M := by
  rw [ParamsOfValidateProof.Malformed, validateProof]
  by_cases hproof : req.proof = []
  · simp only [hproof, if_true, ne_eq, not_true, false_and, not_false_eq_true, iff_true]
    split
    · exact ⟨_, rfl⟩
    · exact ⟨_, rfl⟩
  · rw [if_neg hproof]
    cases hfrom : M.fromBytes req.proof with
    | error e => simp [hproof]
    | ok proof =>
        cases hroot : Bytes32.ofSlice? req.root with
        | none => simp [hproof, Bytes32.ofSlice?_eq_none_iff.mp hroot]
        | some root =>
            have hlen : req.root.length = 32 := by
              rw [← Bytes32.ofSlice?_eq_some_iff.mp hroot]
              exact root.length_eq
            have hleaves := leafHashes_isOk_iff 0 req.leavesChunk
            cases hchunk : leafHashes 0 req.leavesChunk with
            | error e =>
                have hbad := hleaves.not.mp (by simp [hchunk])
                simpa [Except.map, hproof, hlen] using hbad
            | ok hashes =>
                have hgood := hleaves.mp ⟨hashes, hchunk⟩
                simpa [Except.map, hproof, hlen] using hgood

/-! ## The four checks of a request -/

/-- One call of `verifyProofAndLeaves`. -/
structure Check where
  seed : String
  complexity : UInt32
  start : UInt64
  stop : UInt64
  submit : SessionSubmit
  proof : SessionProof
  deriving DecidableEq, Repr

namespace Check

/-- What the proof of the check is validated against, on a 32-bit machine. -/
def paramsOfValidateProof (c : Check) : ParamsOfValidateProof where
  root := c.submit.root
  proof := c.proof.proof
  leavesCount := c.submit.leavesCount.toNat % 2 ^ 32
  leavesChunk := c.proof.leavesTree
  leavesIndices := indexRange (c.start.toNat % 2 ^ 32) (c.stop.toNat % 2 ^ 32)

def paramsOfValidateLeaves (c : Check) : ParamsOfValidateLeaves where
  seed := c.seed
  complexity := c.complexity
  leaves := c.proof.leavesData

/-- The indices of the interval can be collected. -/
def Collectable (c : Check) : Prop :=
  4 * (c.stop.toNat % 2 ^ 32 - c.start.toNat % 2 ^ 32) ≤ maxAllocation

/-- The count and the interval are machine words. -/
def Narrow (c : Check) : Prop :=
  c.submit.leavesCount.toNat < 2 ^ 32 ∧ c.start.toNat < 2 ^ 32 ∧ c.stop.toNat < 2 ^ 32

instance (c : Check) : Decidable c.Collectable := inferInstanceAs (Decidable (_ ≤ _))

instance (c : Check) : Decidable c.Narrow := inferInstanceAs (Decidable (_ ∧ _ ∧ _))

def run (M : RsMerkle) (blake3 : Bytes → Bytes32) (arith : Arith) (c : Check) :
    Except Stop Bool :=
  VerifierGuest.verifyProofAndLeaves M blake3 arith c.seed c.complexity (c.start, c.stop)
    c.submit c.proof

end Check

namespace ParamsOfVerifySession

variable (p : ParamsOfVerifySession)

def easyCheck : Check where
  seed := p.seed
  complexity := p.easyComplexity
  start := p.easyIntervalStart
  stop := p.easyIntervalEnd
  submit := p.easySubmitParams
  proof := p.easyProofParams

/-- A check of the hard tree. -/
def hardCheck (start stop : UInt64) (proof : SessionProof) : Check where
  seed := p.seed
  complexity := p.hardComplexity
  start := start
  stop := stop
  submit := p.hardSubmitParams
  proof := proof

def hardFirstCheck : Check := p.hardCheck 0 1 p.hardFirstProofParams

def hardRangeCheck : Check :=
  p.hardCheck p.hardIntervalStart p.hardIntervalEnd p.hardRangeProofParams

def hardLastCheck : Check :=
  p.hardCheck (p.hardSubmitParams.leavesCount - 1) p.hardSubmitParams.leavesCount
    p.hardLastProofParams

def checks : List Check := [p.easyCheck, p.hardFirstCheck, p.hardRangeCheck, p.hardLastCheck]

end ParamsOfVerifySession

/-! ## Runs of the program -/

open Outcome

namespace Arith

@[simp] theorem guard_wrapping {α : Type} (fits : Prop) [Decidable fits] (value : α) :
    wrapping.guard fits value = .ok value := if_neg fun h ↦ by cases h.1

@[simp] theorem guard_exact {α : Type} (fits : Prop) [Decidable fits] (value : α) :
    exact.guard fits value = if fits then .ok value else .error (.trap .inexact) := by
  simp [guard]

end Arith

namespace Check

variable (M : RsMerkle) (blake3 : Bytes → Bytes32)

/-- The part of a check that follows the arithmetic. -/
def body (c : Check) : Except Stop Bool :=
  if c.Collectable then
    (VerifierGuest.fail (validateProof M c.paramsOfValidateProof)).map fun validProof ↦
      validProof && validateLeaves blake3 c.paramsOfValidateLeaves
  else .error (.trap .capacityOverflow)

theorem run_wrapping (c : Check) : c.run M blake3 .wrapping = c.body M blake3 := by
  simp only [run, VerifierGuest.verifyProofAndLeaves, Arith.usize, Arith.guard_wrapping, ok_bind,
    collectRange, body]
  by_cases h : c.Collectable
  · have hsize := h
    rw [Collectable] at hsize
    rw [if_pos h, if_pos hsize, ok_bind]
    change VerifierGuest.fail (validateProof M c.paramsOfValidateProof) >>= _ = _
    cases validateProof M c.paramsOfValidateProof with
    | error e => rfl
    | ok v => rfl
  · have hsize := h
    rw [Collectable] at hsize
    rw [if_neg h, if_neg hsize, error_bind]

theorem run_exact (c : Check) :
    c.run M blake3 .exact =
      if c.Narrow then c.body M blake3 else .error (.trap .inexact) := by
  rw [← run_wrapping]
  simp only [run, VerifierGuest.verifyProofAndLeaves, Arith.usize, Arith.guard_exact,
    Arith.guard_wrapping, Narrow]
  by_cases hcount : c.submit.leavesCount.toNat < 2 ^ 32
  · by_cases hstart : c.start.toNat < 2 ^ 32
    · by_cases hstop : c.stop.toNat < 2 ^ 32
      · simp only [hcount, hstart, hstop, if_true, and_self]
      · simp only [hcount, hstart, hstop, if_true, if_false, and_false, ok_bind, error_bind]
    · simp only [hcount, hstart, if_true, if_false, and_false, false_and, ok_bind, error_bind]
  · simp only [hcount, if_false, false_and, error_bind]

theorem body_eq_true_iff (c : Check) :
    c.body M blake3 = .ok true ↔
      c.Collectable ∧ validateProof M c.paramsOfValidateProof = .ok true ∧
        validateLeaves blake3 c.paramsOfValidateLeaves = true := by
  rw [body]
  by_cases h : c.Collectable
  · rw [if_pos h]
    cases validateProof M c.paramsOfValidateProof with
    | error e => simp [VerifierGuest.fail, Except.mapError, Except.map]
    | ok v => simp [VerifierGuest.fail, Except.mapError, Except.map, h]
  · simp [h]

end Check

namespace VerifierGuest

variable (M : RsMerkle) (blake3 : Bytes → Bytes32)

/-- The program as a sequence of checks. -/
theorem verifyParams_eq (arith : Arith) (p : ParamsOfVerifySession) :
    verifyParams M blake3 arith p = (do
      let easyValid ← p.easyCheck.run M blake3 arith
      let hardFirstValid ← p.hardFirstCheck.run M blake3 arith
      let hardRangeValid ← p.hardRangeCheck.run M blake3 arith
      let lastIndex ← arith.sub p.hardSubmitParams.leavesCount 1
      let hardLastValid ← (p.hardCheck lastIndex p.hardSubmitParams.leavesCount
        p.hardLastProofParams).run M blake3 arith
      let blocks ← hardComputationBlocks arith p
      return 1 :: boolByte (easyValid && hardFirstValid && hardRangeValid && hardLastValid) ::
        Bytes.leBytes 4 blocks.toNat) := rfl

theorem boolByte_eq_one_iff (b : Bool) : boolByte b = 1 ↔ b = true := by
  cases b <;> decide

theorem hardComputationBlocks_wrapping_eq_ok_iff (p : ParamsOfVerifySession) (blocks : UInt32) :
    hardComputationBlocks .wrapping p = .ok blocks ↔
      ∃ first last, p.hardFirstProofParams.leavesData.head? = some first ∧
        p.hardLastProofParams.leavesData.getLast? = some last ∧
        ((last.timestamp - first.timestamp) / 330).toUInt32 = blocks := by
  rw [hardComputationBlocks]
  cases p.hardFirstProofParams.leavesData.head? with
  | none => simp [require]
  | some first =>
      cases p.hardLastProofParams.leavesData.getLast? with
      | none => simp [require]
      | some last => simp [require, Arith.sub, Arith.u32]

/-- Only a result starts with the success byte. -/
theorem respond_eq_success_iff (x : Except Stop Bytes) (rest : Bytes) :
    respond x = .ok (1 :: rest) ↔ x = .ok (1 :: rest) := by
  match x with
  | .ok result => simp [respond]
  | .error (.error e) => simp [respond, LibError.toBytes]
  | .error (.trap t) => simp [respond]

theorem verifyParams_eq_accept_iff (p : ParamsOfVerifySession) (rest : Bytes) :
    verifyParams M blake3 .wrapping p = .ok (1 :: 1 :: rest) ↔
      (∀ c ∈ p.checks, c.body M blake3 = .ok true) ∧
        ∃ blocks, hardComputationBlocks .wrapping p = .ok blocks ∧
          Bytes.leBytes 4 blocks.toNat = rest := by
  simp only [verifyParams_eq, Check.run_wrapping, bind_eq_ok_iff, Arith.sub,
    Arith.guard_wrapping, Except.ok.injEq, exists_eq_left', pure, Except.pure, List.cons.injEq,
    true_and, boolByte_eq_one_iff, Bool.and_eq_true, ParamsOfVerifySession.checks,
    List.forall_mem_cons, List.not_mem_nil, false_implies, implies_true, and_true]
  constructor
  · rintro ⟨easy, heasy, first, hfirst, range, hrange, last, hlast, blocks, hblocks,
      ⟨⟨⟨rfl, rfl⟩, rfl⟩, rfl⟩, hrest⟩
    exact ⟨⟨heasy, hfirst, hrange, hlast⟩, blocks, hblocks, hrest⟩
  · rintro ⟨⟨heasy, hfirst, hrange, hlast⟩, blocks, hblocks, hrest⟩
    exact ⟨true, heasy, true, hfirst, true, hrange, true, hlast, blocks, hblocks,
      ⟨⟨⟨rfl, rfl⟩, rfl⟩, rfl⟩, hrest⟩

/-- What acceptance comes down to. -/
theorem verify_eq_accept_iff (req rest : Bytes) :
    verify M blake3 .wrapping req = .ok (1 :: 1 :: rest) ↔
      ∃ p, ParamsOfVerifySession.tryFrom req = .ok p ∧
        (∀ c ∈ p.checks, c.body M blake3 = .ok true) ∧
        ∃ blocks, hardComputationBlocks .wrapping p = .ok blocks ∧
          Bytes.leBytes 4 blocks.toNat = rest := by
  rw [verify, respond_eq_success_iff]
  cases ParamsOfVerifySession.tryFrom req with
  | error e => simp
  | ok p => simp only [verifyParams_eq_accept_iff, Except.ok.injEq, exists_eq_left']

end VerifierGuest

end BeeEngine
