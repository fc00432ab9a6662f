import BeeEngine.MiningCore
import BeeEngine.Verifier

/-!
# Requests from mined sessions

A miner turns two committed cores and two windows into a request.  Each of the
four proofs in it is accepted, except that of a window over a whole tree of
several leaves: that proof has no hashes, and the verifier takes an empty proof
for a tree of one leaf.
-/

namespace BeeEngine

open MiningCore

/-! ## What the miner sends -/

/-- A core that ran `compute` and was committed with at least one leaf. -/
structure MiningCore.Mined {M : RsMerkle} (blake3 : Bytes → Bytes32) (seed : String)
    (targetBits : UInt32) (core : MiningCore M) : Prop where
  exists_run : ∃ (durationMs : UInt64) (calls : List ParamsOfCompute),
    Transition.Run (Step blake3) (new M seed durationMs targetBits)
      (calls.map Op.compute ++ [.getMerkle]) core
  completed_ne_nil : core.completed ≠ []

def MiningCore.sessionSubmit {M : RsMerkle} (core : MiningCore M) : SessionSubmit where
  root := core.getMerkle.2.root
  leavesCount := UInt64.ofNat core.getMerkle.2.leaves.length

def ResultOfGetProof.sessionProof (result : ResultOfGetProof) : SessionProof where
  proof := result.proof
  leavesTree := result.selectedLeaves
  leavesData := result.selectedLeavesData

/-- The proofs of the easy window, the first leaf, the hard window and the last
leaf. -/
structure SessionProofs where
  easy : ResultOfGetProof
  hardFirst : ResultOfGetProof
  hardRange : ResultOfGetProof
  hardLast : ResultOfGetProof

/-- The proofs that the two cores give for the windows. -/
structure SessionProofs.From {M : RsMerkle} (easy hard : MiningCore M)
    (easyStart easyStop hardStart hardStop : ℕ) (proofs : SessionProofs) : Prop where
  easy_eq : easy.getProof easyStart easyStop = some (.ok proofs.easy)
  hardFirst_eq : hard.getProof 0 1 = some (.ok proofs.hardFirst)
  hardRange_eq : hard.getProof hardStart hardStop = some (.ok proofs.hardRange)
  hardLast_eq : hard.getProof (hard.getMerkleLeaves.length - 1) hard.getMerkleLeaves.length =
    some (.ok proofs.hardLast)

def sessionRequest {M : RsMerkle} (seed : Bytes32) (easy hard : MiningCore M)
    (easyStart easyStop hardStart hardStop : ℕ) (proofs : SessionProofs) : VerifyRequest where
  seed := seed
  easyComplexity := easy.targetBits
  easyIntervalStart := UInt64.ofNat easyStart
  easyIntervalEnd := UInt64.ofNat easyStop
  hardComplexity := hard.targetBits
  hardIntervalStart := UInt64.ofNat hardStart
  hardIntervalEnd := UInt64.ofNat hardStop
  rest :=
    { easySubmitParams := easy.sessionSubmit
      hardSubmitParams := hard.sessionSubmit
      easyProofParams := proofs.easy.sessionProof
      hardFirstProofParams := proofs.hardFirst.sessionProof
      hardRangeProofParams := proofs.hardRange.sessionProof
      hardLastProofParams := proofs.hardLast.sessionProof }

/-- The text of a seed. -/
def seedText (seed : Bytes32) : String := "0x" ++ Bytes.hexEncode seed.bytes

/-! ## Mined cores -/

namespace MiningCore.Mined

variable {M : RsMerkle} {blake3 : Bytes → Bytes32} {seed : String} {targetBits : UInt32}
  {core : MiningCore M}

theorem inv (h : core.Mined blake3 seed targetBits) (hbits : targetBits.toNat < 128) :
    core.Inv blake3 ∧ core.seed = seed ∧ core.targetBits = targetBits := by
  obtain ⟨durationMs, calls, hrun⟩ := h.exists_run
  obtain ⟨hinv, hseed, hsame, -⟩ := inv_of_run hbits hrun
  exact ⟨hinv, hseed, hsame⟩

theorem committed (h : core.Mined blake3 seed targetBits) : core.committed = true := by
  obtain ⟨durationMs, calls, hrun⟩ := h.exists_run
  obtain ⟨mid, -, hlast⟩ := Transition.run_append_iff.mp hrun
  obtain ⟨last, hstep, hnil⟩ := Transition.run_cons_iff.mp hlast
  obtain rfl := Transition.run_nil_iff.mp hnil
  obtain rfl := Option.some.inj hstep
  exact mid.committed_getMerkle

theorem tree (h : core.Mined blake3 seed targetBits) (hbits : targetBits.toNat < 128) :
    core.tree = M.committed (core.hashes blake3) := by
  rw [(h.inv hbits).1.tree, if_pos h.committed]

theorem hashes_ne_nil (h : core.Mined blake3 seed targetBits) : core.hashes blake3 ≠ [] := by
  rw [hashes, ne_eq, List.map_eq_nil_iff]
  exact h.completed_ne_nil

theorem getMerkle_eq (h : core.Mined blake3 seed targetBits) :
    core.getMerkle.2 = ⟨core.getMerkleRoot, core.getMerkleLeaves⟩ := by
  rw [getMerkle, if_pos h.committed]

theorem getMerkleLeaves_eq (h : core.Mined blake3 seed targetBits) (hbits : targetBits.toNat < 128)
    (hlaws : M.CommitLaws) : core.getMerkleLeaves = (core.hashes blake3).map Bytes32.bytes := by
  rw [(h.inv hbits).1.getMerkleLeaves_eq hlaws, if_pos h.committed]

theorem length_getMerkleLeaves (h : core.Mined blake3 seed targetBits)
    (hbits : targetBits.toNat < 128) (hlaws : M.CommitLaws) :
    core.getMerkleLeaves.length = core.completed.length := by
  rw [h.getMerkleLeaves_eq hbits hlaws, List.length_map, hashes, List.length_map]

/-- The submit of a mined core names the root of its leaves. -/
theorem exists_sessionSubmit (h : core.Mined blake3 seed targetBits)
    (hbits : targetBits.toNat < 128) (hcommit : M.CommitLaws) (hproof : M.ProofLaws) :
    ∃ root, M.root (M.committed (core.hashes blake3)) = some root ∧
      core.sessionSubmit = ⟨root.bytes, UInt64.ofNat core.completed.length⟩ := by
  obtain ⟨root, hroot⟩ := hproof.exists_root _ h.hashes_ne_nil
  refine ⟨root, hroot, ?_⟩
  have hbytes : core.getMerkleRoot = root.bytes := by
    rw [getMerkleRoot, h.tree hbits, hroot]
  rw [sessionSubmit, h.getMerkle_eq, hbytes, h.length_getMerkleLeaves hbits hcommit]

/-- The proof of a window of a mined core. -/
theorem getProof_window (h : core.Mined blake3 seed targetBits) (hbits : targetBits.toNat < 128)
    (hlaws : M.CommitLaws) {start stop : ℕ} (hlt : start < stop)
    (hle : stop ≤ core.completed.length) :
    core.getProof start stop = some (.ok
      ⟨M.toBytes (M.proof (M.committed (core.hashes blake3)) (indexRange start stop)),
        (((core.hashes blake3).drop start).take (stop - start)).map Bytes32.bytes,
        (core.completed.drop start).take (stop - start)⟩) := by
  rw [(h.inv hbits).1.getProof_eq hlaws, if_pos ⟨h.committed, hlt, hle⟩, h.tree hbits]

end MiningCore.Mined

/-! ## One window -/

/-- The window is not a whole tree of several leaves. -/
def ProvableWindow (count start stop : ℕ) : Prop := count = 1 ∨ ¬(start = 0 ∧ stop = count)

theorem toNat_ofNat_word {n : ℕ} (h : n < 2 ^ 32) : (UInt64.ofNat n).toNat % 2 ^ 32 = n := by
  rw [UInt64.toNat_ofNat', Nat.mod_eq_of_lt (show n < 2 ^ 64 by omega), Nat.mod_eq_of_lt h]

theorem ofNat_sub_one {n : ℕ} (hpos : 0 < n) (hn : n < 2 ^ 32) :
    UInt64.ofNat n - 1 = UInt64.ofNat (n - 1) := by
  have htoNat : (UInt64.ofNat n).toNat = n := by
    rw [UInt64.toNat_ofNat', Nat.mod_eq_of_lt (Nat.lt_trans hn (by decide))]
  apply UInt64.toNat_inj.mp
  rw [UInt64.toNat_sub_of_le _ _ (UInt64.le_iff_toNat_le.mpr (htoNat.symm ▸ hpos)), htoNat,
    UInt64.toNat_ofNat', Nat.mod_eq_of_lt (by omega)]
  rfl

/-- The proof of a window of a tree is valid exactly if the window is provable. -/
theorem validateProof_window {M : RsMerkle} (hproof : M.ProofLaws) {hashes : List Bytes32}
    {root : Bytes32} (hroot : M.root (M.committed hashes) = some root) {start stop : ℕ}
    (hlt : start < stop) (hle : stop ≤ hashes.length) :
    validateProof M
      { root := root.bytes
        proof := M.toBytes (M.proof (M.committed hashes) (indexRange start stop))
        leavesCount := hashes.length
        leavesChunk := ((hashes.drop start).take (stop - start)).map Bytes32.bytes
        leavesIndices := indexRange start stop } = .ok true ↔
      ProvableWindow hashes.length start stop := by
  have hnil := hproof.toBytes_proof_eq_nil_iff hashes start stop hlt hle
  rw [validateProof_eq_true_iff, ProvableWindow]
  by_cases hwhole : start = 0 ∧ stop = hashes.length
  · -- The proof has no hashes, so the window has to be the root.
    rw [← hnil] at hwhole
    simp only [hwhole, ne_eq, not_true, false_and, or_false, true_and]
    obtain ⟨rfl, rfl⟩ := hnil.mp hwhole
    rw [List.drop_zero, Nat.sub_zero, List.take_length]
    simp only [and_self, not_true, or_false]
    constructor
    · intro hchunk
      simpa using congrArg List.length hchunk
    · intro hone
      obtain ⟨a, rfl⟩ := List.length_eq_one_iff.mp hone
      rw [hproof.root_singleton] at hroot
      rw [← Option.some.inj hroot]
      rfl
  · refine iff_of_true ?_ (Or.inr hwhole)
    exact Or.inr ⟨fun hempty ↦ hwhole (hnil.mp hempty), _, root, _,
      hproof.fromBytes_toBytes _, rfl, rfl, hproof.verify_proof hashes start stop root hlt hle
        hroot⟩

namespace MiningCore.Mined

variable {M : RsMerkle} {blake3 : Bytes → Bytes32} {seed : String} {targetBits : UInt32}
  {core : MiningCore M}

/-- The leaves of a window are work for the seed. -/
theorem validateLeaves_window (h : core.Mined blake3 seed targetBits)
    (hbits : targetBits.toNat < 128) {start stop : ℕ} (hlt : start < stop)
    (hle : stop ≤ core.completed.length) :
    validateLeaves blake3 ⟨seed, targetBits, (core.completed.drop start).take (stop - start)⟩ =
      true := by
  obtain ⟨hinv, hseed, hsame⟩ := h.inv hbits
  rw [validateLeaves_eq_true_iff]
  constructor
  · rw [← List.length_pos_iff, List.length_take, List.length_drop]
    omega
  · intro leaf hleaf
    have hverify := hinv.verified leaf (List.mem_of_mem_drop (List.mem_of_mem_take hleaf))
    rwa [hseed, hsame] at hverify

/-- The check of a window passes exactly if the window is provable. -/
theorem check_window (h : core.Mined blake3 seed targetBits) (hbits : targetBits.toNat < 128)
    (hcommit : M.CommitLaws) (hproof : M.ProofLaws) (hwords : core.completed.length < 2 ^ 32)
    {start stop : ℕ} (hlt : start < stop) (hle : stop ≤ core.completed.length)
    (hsize : 4 * (stop - start) ≤ maxAllocation) {result : ResultOfGetProof}
    (hresult : core.getProof start stop = some (.ok result)) :
    Check.body M blake3 ⟨seed, targetBits, UInt64.ofNat start, UInt64.ofNat stop,
      core.sessionSubmit, result.sessionProof⟩ = .ok true ↔
      ProvableWindow core.completed.length start stop := by
  obtain ⟨root, hroot, hsubmit⟩ := h.exists_sessionSubmit hbits hcommit hproof
  rw [h.getProof_window hbits hcommit hlt hle] at hresult
  obtain rfl := Except.ok.inj (Option.some.inj hresult)
  have hlen : (core.hashes blake3).length = core.completed.length := by simp [hashes]
  have hvalid := validateProof_window hproof hroot hlt (hlen.symm ▸ hle)
  have hstart := toNat_ofNat_word (Nat.lt_trans (Nat.lt_of_lt_of_le hlt hle) hwords)
  have hstop := toNat_ofNat_word (Nat.lt_of_le_of_lt hle hwords)
  have hcount := toNat_ofNat_word hwords
  have hleaves := h.validateLeaves_window hbits hlt hle
  rw [hlen] at hvalid
  rw [Check.body_eq_true_iff, ← hvalid, Check.Collectable]
  simp only [Check.paramsOfValidateLeaves, Check.paramsOfValidateProof,
    ResultOfGetProof.sessionProof, hleaves, hsubmit, hstart, hstop, hcount, hsize, true_and,
    and_true]

end MiningCore.Mined

/-! ## Sizes -/

theorem length_encode_vec_bytes (bss : List Bytes) :
    4 * bss.length ≤ ((Codec.vec Codec.bytes).encode bss).length := by
  have hmap : 4 * bss.length ≤ (bss.flatMap Codec.bytes.encode).length := by
    induction bss with
    | nil => exact Nat.le_refl 0
    | cons bs bss ih =>
        have hfour : 4 ≤ (Codec.bytes.encode bs).length := by
          simp [Codec.bytes, Codec.vec]
        rw [List.length_cons, List.flatMap_cons, List.length_append]
        omega
  rw [Codec.vec, List.length_append]
  omega

/-- A request has room for a word for each leaf hash. -/
theorem VerifyRequest.length_leavesTree_le {r : VerifyRequest} {bs : Bytes}
    (h : r.encode = some bs) {p : SessionProof} (hp : p ∈ r.proofs) :
    4 * p.leavesTree.length ≤ bs.length := by
  obtain ⟨-, rfl⟩ := (r.encode_eq_some_iff bs).mp h
  have hproof : 4 * p.leavesTree.length ≤ (SessionProof.codec.encode p).length := by
    have htree := length_encode_vec_bytes p.leavesTree
    simp only [SessionProof.codec, SessionProof.equivFields, Codec.map, Codec.prod,
      Equiv.coe_fn_symm_mk, List.length_append]
    omega
  have hrest : (SessionProof.codec.encode p).length ≤
      (PartialVerifySession.codec.encode r.rest).length := by
    simp only [PartialVerifySession.codec, PartialVerifySession.equivFields, Codec.map, Codec.prod,
      Equiv.coe_fn_symm_mk, List.length_append]
    simp only [VerifyRequest.proofs, List.mem_cons, List.not_mem_nil, or_false] at hp
    rcases hp with rfl | rfl | rfl | rfl <;> omega
  rw [List.length_append]
  omega

/-! ## The whole request -/

/-- The first leaf of a core is not newer than its last. -/
theorem MiningCore.Inv.first_le_last {M : RsMerkle} {blake3 : Bytes → Bytes32}
    {core : MiningCore M} (h : core.Inv blake3) {first last : ComputedLeaf}
    (hfirst : core.completed.head? = some first) (hlast : core.completed.getLast? = some last) :
    first.timestamp ≤ last.timestamp := by
  have hsorted := h.sorted
  obtain ⟨rest, hcompleted⟩ := List.head?_eq_some_iff.mp hfirst
  rw [hcompleted] at hsorted hlast
  rcases List.mem_cons.mp (List.mem_of_getLast? hlast) with rfl | hmem
  · exact UInt64.le_refl _
  · exact (List.pairwise_cons.mp hsorted).1 last hmem

theorem toNat_blocks {first last : UInt64} (h : first ≤ last) :
    ((last - first) / 330).toUInt32.toNat = (last.toNat - first.toNat) / 330 % 2 ^ 32 := by
  rw [UInt64.toNat_toUInt32, UInt64.toNat_div, UInt64.toNat_sub_of_le _ _ h]
  rfl

theorem VerifierGuest.verify_encode_eq_accept_iff {M : RsMerkle} {blake3 : Bytes → Bytes32}
    {r : VerifyRequest} {bs rest : Bytes} (h : r.encode = some bs) :
    verify M blake3 .wrapping bs = .ok (1 :: 1 :: rest) ↔
      (∀ c ∈ r.params.checks, c.body M blake3 = .ok true) ∧
        ∃ blocks, hardComputationBlocks .wrapping r.params = .ok blocks ∧
          Bytes.leBytes 4 blocks.toNat = rest := by
  have hread := (tryFrom_eq_ok_iff bs _).mpr ⟨r, rfl, h⟩
  rw [verify_eq_accept_iff]
  simp only [hread, Except.ok.injEq, exists_eq_left']

section

variable {M : RsMerkle} {blake3 : Bytes → Bytes32} {seed : Bytes32} {easyBits hardBits : UInt32}
  {easy hard : MiningCore M} {easyStart easyStop hardStart hardStop : ℕ}

/-- A mined core proves a window with as many hashes as leaves. -/
theorem MiningCore.Mined.exists_getProof {bits : UInt32} {core : MiningCore M} {start stop : ℕ}
    (h : core.Mined blake3 (seedText seed) bits) (hbits : bits.toNat < 128)
    (hcommit : M.CommitLaws) (hlt : start < stop) (hle : stop ≤ core.completed.length) :
    ∃ result, core.getProof start stop = some (.ok result) ∧
      result.selectedLeaves.length = stop - start ∧
      result.selectedLeavesData = (core.completed.drop start).take (stop - start) := by
  refine ⟨_, h.getProof_window hbits hcommit hlt hle, ?_, rfl⟩
  rw [List.length_map, List.length_take, List.length_drop, hashes, List.length_map]
  omega

/-- The four checks of the request of a mined session. -/
theorem checks_sessionRequest (hcommit : M.CommitLaws) (hproof : M.ProofLaws)
    (heasyBits : easyBits.toNat < 128) (hhardBits : hardBits.toNat < 128)
    (heasy : easy.Mined blake3 (seedText seed) easyBits)
    (hhard : hard.Mined blake3 (seedText seed) hardBits)
    (hwords : hard.completed.length < 2 ^ 32) (pe pf pr pl : ResultOfGetProof) :
    (sessionRequest seed easy hard easyStart easyStop hardStart hardStop
        ⟨pe, pf, pr, pl⟩).params.checks =
      [⟨seedText seed, easyBits, UInt64.ofNat easyStart, UInt64.ofNat easyStop,
          easy.sessionSubmit, pe.sessionProof⟩,
        ⟨seedText seed, hardBits, UInt64.ofNat 0, UInt64.ofNat 1, hard.sessionSubmit,
          pf.sessionProof⟩,
        ⟨seedText seed, hardBits, UInt64.ofNat hardStart, UInt64.ofNat hardStop,
          hard.sessionSubmit, pr.sessionProof⟩,
        ⟨seedText seed, hardBits, UInt64.ofNat (hard.completed.length - 1),
          UInt64.ofNat hard.completed.length, hard.sessionSubmit, pl.sessionProof⟩] := by
  have hpos := List.length_pos_iff.mpr hhard.completed_ne_nil
  obtain ⟨root, -, hsubmit⟩ := hhard.exists_sessionSubmit hhardBits hcommit hproof
  obtain ⟨-, -, heasyEq⟩ := heasy.inv heasyBits
  obtain ⟨-, -, hhardEq⟩ := hhard.inv hhardBits
  rw [← ofNat_sub_one hpos hwords]
  simp only [ParamsOfVerifySession.checks, ParamsOfVerifySession.easyCheck,
    ParamsOfVerifySession.hardFirstCheck, ParamsOfVerifySession.hardRangeCheck,
    ParamsOfVerifySession.hardLastCheck, ParamsOfVerifySession.hardCheck, VerifyRequest.params,
    sessionRequest, seedText, heasyEq, hhardEq, hsubmit]
  rfl

/-- The request of a mined session is accepted, with the number of blocks
between the first and the last hard leaf, exactly if neither window is a whole
tree of several leaves. -/
theorem verify_sessionRequest_iff (hcommit : M.CommitLaws) (hproof : M.ProofLaws)
    (heasyBits : easyBits.toNat < 128) (hhardBits : hardBits.toNat < 128)
    (heasy : easy.Mined blake3 (seedText seed) easyBits)
    (hhard : hard.Mined blake3 (seedText seed) hardBits)
    (heasyWords : easy.completed.length < 2 ^ 32) (hhardWords : hard.completed.length < 2 ^ 32)
    (heasyLt : easyStart < easyStop) (heasyLe : easyStop ≤ easy.completed.length)
    (hhardLt : hardStart < hardStop) (hhardLe : hardStop ≤ hard.completed.length) :
    ∃ proofs first last,
      SessionProofs.From easy hard easyStart easyStop hardStart hardStop proofs ∧
      hard.completed.head? = some first ∧ hard.completed.getLast? = some last ∧
      ∀ bs, (sessionRequest seed easy hard easyStart easyStop hardStart hardStop proofs).encode =
          some bs → bs.length ≤ maxAllocation →
        (VerifierGuest.verify M blake3 .wrapping bs = .ok (1 :: 1 :: Bytes.leBytes 4
            ((last.timestamp.toNat - first.timestamp.toNat) / 330 % 2 ^ 32)) ↔
          ProvableWindow easy.completed.length easyStart easyStop ∧
            ProvableWindow hard.completed.length hardStart hardStop) := by
  have hpos := List.length_pos_iff.mpr hhard.completed_ne_nil
  have hcount := hhard.length_getMerkleLeaves hhardBits hcommit
  obtain ⟨pe, hpe, hpeLen, -⟩ := heasy.exists_getProof heasyBits hcommit heasyLt heasyLe
  obtain ⟨pf, hpf, -, hpfData⟩ := hhard.exists_getProof hhardBits hcommit Nat.one_pos hpos
  obtain ⟨pr, hpr, hprLen, -⟩ := hhard.exists_getProof hhardBits hcommit hhardLt hhardLe
  obtain ⟨pl, hpl, -, hplData⟩ := hhard.exists_getProof hhardBits hcommit
    (Nat.sub_one_lt_of_lt hpos) (Nat.le_refl _)
  obtain ⟨first, hfirst⟩ : ∃ first, hard.completed.head? = some first :=
    Option.isSome_iff_exists.mp (by simpa using hhard.completed_ne_nil)
  obtain ⟨last, hlast⟩ : ∃ last, hard.completed.getLast? = some last :=
    Option.isSome_iff_exists.mp (by simpa using hhard.completed_ne_nil)
  refine ⟨⟨pe, pf, pr, pl⟩, first, last, ⟨hpe, hpf, hpr, by rw [hcount]; exact hpl⟩, hfirst,
    hlast, ?_⟩
  intro bs hencode hlength
  have hsize : ∀ p ∈ [pe, pf, pr, pl], 4 * p.selectedLeaves.length ≤ maxAllocation := by
    intro p hp
    have hmem := List.mem_map_of_mem (f := ResultOfGetProof.sessionProof) hp
    exact Nat.le_trans (VerifyRequest.length_leavesTree_le hencode hmem) hlength
  simp only [List.forall_mem_cons] at hsize
  obtain ⟨hpeSize, -, hprSize, -⟩ := hsize
  rw [hpeLen] at hpeSize
  rw [hprLen] at hprSize
  have heasyCheck := heasy.check_window heasyBits hcommit hproof heasyWords heasyLt heasyLe
    hpeSize hpe
  have hfirstCheck := hhard.check_window hhardBits hcommit hproof hhardWords Nat.one_pos hpos
    (by decide) hpf
  have hrangeCheck := hhard.check_window hhardBits hcommit hproof hhardWords hhardLt hhardLe
    hprSize hpr
  have hlastCheck := hhard.check_window hhardBits hcommit hproof hhardWords
    (Nat.sub_one_lt_of_lt hpos) (Nat.le_refl _) (by rw [maxAllocation]; omega) hpl
  -- The windows of one leaf are never a whole tree of several leaves.
  have hfirstWindow : ProvableWindow hard.completed.length 0 1 := by
    rw [ProvableWindow]
    omega
  have hlastWindow : ProvableWindow hard.completed.length (hard.completed.length - 1)
      hard.completed.length := by
    rw [ProvableWindow]
    omega
  rw [iff_true_right hfirstWindow] at hfirstCheck
  rw [iff_true_right hlastWindow] at hlastCheck
  rw [VerifierGuest.verify_encode_eq_accept_iff hencode,
    checks_sessionRequest hcommit hproof heasyBits hhardBits heasy hhard hhardWords]
  simp only [List.forall_mem_cons, List.not_mem_nil, false_implies, implies_true, and_true,
    heasyCheck, hfirstCheck, hrangeCheck, hlastCheck, true_and]
  refine and_iff_left ?_
  refine ⟨((last.timestamp - first.timestamp) / 330).toUInt32, ?_, ?_⟩
  · rw [VerifierGuest.hardComputationBlocks_wrapping_eq_ok_iff]
    refine ⟨first, last, ?_, ?_, rfl⟩
    · change pf.selectedLeavesData.head? = some first
      rw [hpfData, ← hfirst]
      simp [List.head?_take]
    · change pl.selectedLeavesData.getLast? = some last
      rw [hplData, List.take_of_length_le (Nat.le_of_eq List.length_drop), List.getLast?_drop,
        if_neg (by omega), hlast]
  · rw [toNat_blocks ((hhard.inv hhardBits).1.first_le_last hfirst hlast)]

end

/-! ## A session of two leaves -/

def zeroSeed : Bytes32 := ⟨List.replicate 32 0, rfl⟩

def twoLeafOps : List ParamsOfCompute := [⟨3, 4, 1000⟩, ⟨5, 6, 34000⟩]

def twoLeafRun : Option (MiningCore (RsMerkle.reference Blake3.hash)) :=
  Transition.run? (step? Blake3.hash) (new _ (seedText zeroSeed) 100000 0)
    (twoLeafOps.map Op.compute ++ [.getMerkle])

theorem isSome_twoLeafRun : twoLeafRun.isSome = true := by decide +kernel

def twoLeafCore : MiningCore (RsMerkle.reference Blake3.hash) := twoLeafRun.get isSome_twoLeafRun

theorem length_twoLeafCore : twoLeafCore.completed.length = 2 := by decide +kernel

theorem mined_twoLeafCore : twoLeafCore.Mined Blake3.hash (seedText zeroSeed) 0 := by
  constructor
  · exact ⟨100000, twoLeafOps, Transition.run?_eq_some_iff.mp (Option.some_get _).symm⟩
  · rw [← List.length_pos_iff, length_twoLeafCore]
    decide

/-- The proof of a window of the core; all windows below are provable. -/
@[irreducible] def twoLeafProof (start stop : ℕ) : ResultOfGetProof :=
  match twoLeafCore.getProof start stop with
  | some (.ok result) => result
  | _ => ⟨[], [], []⟩

theorem getProof_twoLeafCore (start stop : ℕ) (hlt : start < stop) (hle : stop ≤ 2) :
    twoLeafCore.getProof start stop = some (.ok (twoLeafProof start stop)) := by
  obtain ⟨result, hresult, -⟩ := mined_twoLeafCore.exists_getProof (by decide)
    (RsMerkle.reference_commitLaws Blake3.hash) hlt (length_twoLeafCore ▸ hle)
  rw [twoLeafProof, hresult]

/-- A request for the whole easy tree. -/
def wholeTreeRequest : VerifyRequest :=
  sessionRequest zeroSeed twoLeafCore twoLeafCore 0 2 0 1
    ⟨twoLeafProof 0 2, twoLeafProof 0 1, twoLeafProof 0 1, twoLeafProof 1 2⟩

/-- The request for a whole tree of two leaves is rejected. -/
theorem wholeTreeRequest_rejected :
    twoLeafCore.Mined Blake3.hash (seedText zeroSeed) 0 ∧
    SessionProofs.From twoLeafCore twoLeafCore 0 2 0 1
      ⟨twoLeafProof 0 2, twoLeafProof 0 1, twoLeafProof 0 1, twoLeafProof 1 2⟩ ∧
    ∃ bs, wholeTreeRequest.encode = some bs ∧
      VerifierGuest.verify (RsMerkle.reference Blake3.hash) Blake3.hash .wrapping bs =
        .ok [1, 0, 100, 0, 0, 0] := by
  have hcount : twoLeafCore.getMerkleLeaves.length = 2 := by
    rw [mined_twoLeafCore.length_getMerkleLeaves (by decide)
      (RsMerkle.reference_commitLaws Blake3.hash), length_twoLeafCore]
  have hwhole := getProof_twoLeafCore 0 2 (by decide) (by decide)
  have hfirst := getProof_twoLeafCore 0 1 (by decide) (by decide)
  have hlast := getProof_twoLeafCore 1 2 (by decide) (by decide)
  refine ⟨mined_twoLeafCore, ⟨hwhole, hfirst, hfirst, ?_⟩, ?_⟩
  · rw [hcount]
    exact hlast
  · have hrun : (wholeTreeRequest.encode.map fun bs ↦
        VerifierGuest.verify (RsMerkle.reference Blake3.hash) Blake3.hash .wrapping bs) =
          some (.ok [1, 0, 100, 0, 0, 0]) := by decide +kernel
    exact Option.map_eq_some_iff.mp hrun

/-- The session is accepted with the first and the last leaf as its windows. -/
theorem verify_sessionRequest_twoLeafCore :
    ∃ proofs first last,
      SessionProofs.From twoLeafCore twoLeafCore 0 1 1 2 proofs ∧
      twoLeafCore.completed.head? = some first ∧ twoLeafCore.completed.getLast? = some last ∧
      ∀ bs, (sessionRequest zeroSeed twoLeafCore twoLeafCore 0 1 1 2 proofs).encode = some bs →
        bs.length ≤ maxAllocation →
        (VerifierGuest.verify (RsMerkle.reference Blake3.hash) Blake3.hash .wrapping bs =
            .ok (1 :: 1 :: Bytes.leBytes 4
              ((last.timestamp.toNat - first.timestamp.toNat) / 330 % 2 ^ 32)) ↔
          ProvableWindow twoLeafCore.completed.length 0 1 ∧
            ProvableWindow twoLeafCore.completed.length 1 2) := by
  have hlength := length_twoLeafCore
  exact verify_sessionRequest_iff (RsMerkle.reference_commitLaws Blake3.hash)
    (RsMerkle.reference_proofLaws Blake3.hash) (by decide) (by decide) mined_twoLeafCore
    mined_twoLeafCore (by omega) (by omega) (by decide) (by omega) (by decide) (by omega)

end BeeEngine
