import BeeEngine.Lib.Transition
import BeeEngine.RsMerkle
import BeeEngine.Leaf

/-!
# The mining core

A core collects leaves until its deadline, keeps them next to the Merkle tree
of their hashes, and stops collecting once the tree is committed.  The search
for a nonce tries the nonces in order and wraps around, so it returns if and
only if some nonce is good; a call that does not return has no next state.
-/

namespace BeeEngine

structure ParamsOfCompute where
  x : UInt32
  y : UInt32
  nowMs : UInt64
  deriving DecidableEq, Repr

structure ResultOfGetMerkleSnapshot where
  root : Bytes
  leaves : List Bytes
  deriving DecidableEq, Repr

structure ResultOfGetProof where
  proof : Bytes
  selectedLeaves : List Bytes
  selectedLeavesData : List ComputedLeaf
  deriving DecidableEq, Repr

/-! ## Nonces -/

/-- Try `fuel` nonces from `leaf.nonce` on. -/
def findNonce (blake3 : Bytes → Bytes32) : ℕ → Leaf → Option ComputedLeaf
  | 0, _ => none
  | fuel + 1, leaf =>
      let computedLeaf := leaf.compute blake3
      if computedLeaf.hashNum < threshold leaf.complexity then some computedLeaf
      else findNonce blake3 fuel { leaf with nonce := leaf.nonce + 1 }

/-- The search from nonce 0; after `2 ^ 64` failures it repeats itself. -/
def calcHashBlake (blake3 : Bytes → Bytes32) (seed : String) (idx : BitVec 128) (x y : UInt32)
    (timestamp : UInt64) (complexity : UInt32) : Option ComputedLeaf :=
  findNonce blake3 (2 ^ 64)
    { index := idx
      nonce := 0
      seed := seed
      x := x
      y := y
      timestamp := timestamp
      complexity := complexity }

/-- A found leaf is work over the given fields. -/
structure FoundFor (blake3 : Bytes → Bytes32) (leaf : Leaf) (found : ComputedLeaf) : Prop where
  compute_eq : ∃ nonce, found = Leaf.compute blake3 { leaf with nonce := nonce }
  hashNum_lt : found.hashNum < threshold leaf.complexity

theorem foundFor_of_findNonce {blake3 : Bytes → Bytes32} {fuel : ℕ} {leaf : Leaf}
    {found : ComputedLeaf} (h : findNonce blake3 fuel leaf = some found) :
    FoundFor blake3 leaf found := by
  induction fuel generalizing leaf with
  | zero => cases h
  | succ fuel ih =>
      rw [findNonce] at h
      split at h
      · rename_i hlt
        obtain rfl := Option.some.inj h
        exact ⟨⟨leaf.nonce, rfl⟩, hlt⟩
      · obtain ⟨⟨nonce, heq⟩, hlt⟩ := ih h
        exact ⟨⟨nonce, heq⟩, hlt⟩

/-! ## The core -/

/-- `xs[start..end]`, which panics out of range. -/
def slice? {α : Type} (xs : List α) (start stop : ℕ) : Option (List α) :=
  if start ≤ stop ∧ stop ≤ xs.length then some ((xs.drop start).take (stop - start)) else none

structure MiningCore (M : RsMerkle) where
  tree : M.Tree
  targetBits : UInt32
  seed : String
  committed : Bool
  completed : List ComputedLeaf
  endsAtMs : Option UInt64
  durationMs : UInt64
  lastNowMs : Option UInt64

namespace MiningCore

variable {M : RsMerkle} (blake3 : Bytes → Bytes32)

def new (M : RsMerkle) (seed : String) (durationMs : UInt64) (targetBits : UInt32) :
    MiningCore M where
  tree := M.new
  targetBits := targetBits
  seed := seed
  committed := false
  completed := []
  endsAtMs := none
  durationMs := durationMs
  lastNowMs := none

def saturatingAdd (a b : UInt64) : UInt64 := UInt64.ofNat (min (a.toNat + b.toNat) (2 ^ 64 - 1))

/-- The deadline is fixed by the first call. -/
def withDeadline (core : MiningCore M) (nowMs : UInt64) : MiningCore M :=
  match core.endsAtMs with
  | some _ => core
  | none => { core with endsAtMs := some (saturatingAdd nowMs core.durationMs) }

def deadlineReachedMs (core : MiningCore M) (nowMs : UInt64) : Bool :=
  core.endsAtMs.any fun stop ↦ decide (stop ≤ nowMs)

/-- The part of `compute` after the deadline is set; `none` if the search for a
nonce does not end. -/
def computeLeaf (core : MiningCore M) (params : ParamsOfCompute) :
    Option (MiningCore M × Option ComputedLeaf) :=
  if core.deadlineReachedMs params.nowMs then some (core, none)
  else if core.committed then some (core, none)
  else if core.lastNowMs.any fun prev ↦ decide (params.nowMs < prev) then some (core, none)
  else
    match calcHashBlake blake3 core.seed (BitVec.ofNat 128 core.completed.length) params.x params.y
        params.nowMs core.targetBits with
    | none => none
    | some computedLeaf => some
        ({ core with
            lastNowMs := some params.nowMs
            tree := M.insert core.tree (computedLeaf.merkleHash blake3)
            completed := core.completed ++ [computedLeaf] }, some computedLeaf)

def compute (core : MiningCore M) (params : ParamsOfCompute) :
    Option (MiningCore M × Option ComputedLeaf) :=
  computeLeaf blake3 (core.withDeadline params.nowMs) params

def getMerkleRoot (core : MiningCore M) : Bytes :=
  match M.root core.tree with
  | some root => root.bytes
  | none => []

def getMerkleLeaves (core : MiningCore M) : List Bytes :=
  match M.leaves core.tree with
  | some leaves => leaves.map Bytes32.bytes
  | none => []

def getMerkle (core : MiningCore M) : MiningCore M × ResultOfGetMerkleSnapshot :=
  let core :=
    if core.committed then core else { core with tree := M.commit core.tree, committed := true }
  (core, ⟨core.getMerkleRoot, core.getMerkleLeaves⟩)

/-- The outer `none` is a panic. -/
def getProofInWindow (core : MiningCore M) (start stop : ℕ) :
    Option (Except String (Bytes × List Bytes)) :=
  if stop ≤ start ∨ core.getMerkleLeaves.length < stop then some (.error "invalid window range")
  else
    let proofBytes := M.toBytes (M.proof core.tree (indexRange start stop))
    match slice? core.getMerkleLeaves start stop with
    | none => none
    | some selected => some (.ok (proofBytes, selected))

def getProof (core : MiningCore M) (start stop : ℕ) :
    Option (Except String ResultOfGetProof) :=
  match core.getProofInWindow start stop with
  | none => none
  | some (.error e) => some (.error e)
  | some (.ok (proof, selectedLeaves)) =>
      match slice? core.completed start stop with
      | none => none
      | some data => some (.ok ⟨proof, selectedLeaves, data⟩)

def reset (core : MiningCore M) : MiningCore M :=
  { core with
    tree := M.new
    completed := []
    committed := false
    endsAtMs := none
    lastNowMs := none }

/-! ## Runs -/

inductive Op where
  | compute (params : ParamsOfCompute)
  | getMerkle
  | getProof (start stop : ℕ)
  | reset
  deriving DecidableEq, Repr

/-- The core after an operation that returns. -/
def step? (core : MiningCore M) : Op → Option (MiningCore M)
  | .compute params => (core.compute blake3 params).map Prod.fst
  | .getMerkle => some core.getMerkle.1
  | .getProof start stop => (core.getProof start stop).map fun _ ↦ core
  | .reset => some core.reset

def Step (core : MiningCore M) (op : Op) (core' : MiningCore M) : Prop :=
  core.step? blake3 op = some core'

def hashes (core : MiningCore M) : List Bytes32 :=
  core.completed.map (ComputedLeaf.merkleHash blake3)

/-- The invariant of a core: its three records of the leaves agree, and every
leaf is work of this session from before the deadline. -/
structure Inv (core : MiningCore M) : Prop where
  index : ∀ i leaf, core.completed[i]? = some leaf → leaf.index = BitVec.ofNat 128 i
  sorted : core.completed.Pairwise fun a b ↦ a.timestamp ≤ b.timestamp
  deadline : ∀ leaf ∈ core.completed, ∃ stop, core.endsAtMs = some stop ∧ leaf.timestamp < stop
  lastNow : ∀ leaf ∈ core.completed, ∃ now, core.lastNowMs = some now ∧ leaf.timestamp ≤ now
  verified : ∀ leaf ∈ core.completed, leaf.verify blake3 core.seed core.targetBits = true
  tree : core.tree =
    if core.committed then M.committed (core.hashes blake3) else M.inserted (core.hashes blake3)

theorem inv_new (seed : String) (durationMs : UInt64) (targetBits : UInt32) :
    (new M seed durationMs targetBits).Inv blake3 where
  index i leaf h := by simp [new] at h
  sorted := List.Pairwise.nil
  deadline leaf h := by simp [new] at h
  lastNow leaf h := by simp [new] at h
  verified leaf h := by simp [new] at h
  tree := rfl

theorem Inv.reset {core : MiningCore M} : core.reset.Inv blake3 where
  index i leaf h := by simp [MiningCore.reset] at h
  sorted := List.Pairwise.nil
  deadline leaf h := by simp [MiningCore.reset] at h
  lastNow leaf h := by simp [MiningCore.reset] at h
  verified leaf h := by simp [MiningCore.reset] at h
  tree := rfl

variable {blake3}

theorem Inv.getMerkle {core : MiningCore M} (h : core.Inv blake3) :
    core.getMerkle.1.Inv blake3 := by
  rw [MiningCore.getMerkle]
  by_cases hcommitted : core.committed
  · simpa [hcommitted] using h
  · simp only [hcommitted, Bool.false_eq_true, if_false]
    have htree := h.tree
    rw [if_neg hcommitted] at htree
    exact ⟨h.index, h.sorted, h.deadline, h.lastNow, h.verified, congrArg M.commit htree⟩

theorem withDeadline_cases (core : MiningCore M) (nowMs : UInt64) :
    core.withDeadline nowMs = core ∨ core.endsAtMs = none ∧ core.withDeadline nowMs =
      { core with endsAtMs := some (saturatingAdd nowMs core.durationMs) } := by
  rw [withDeadline]
  cases h : core.endsAtMs with
  | none => exact Or.inr ⟨rfl, rfl⟩
  | some stop => exact Or.inl rfl

theorem Inv.withDeadline {core : MiningCore M} (h : core.Inv blake3) (nowMs : UInt64) :
    (core.withDeadline nowMs).Inv blake3 := by
  rcases core.withDeadline_cases nowMs with heq | ⟨hnone, heq⟩
  · rwa [heq]
  · rw [heq]
    refine ⟨h.index, h.sorted, ?_, h.lastNow, h.verified, h.tree⟩
    intro leaf hleaf
    obtain ⟨stop, hstop, -⟩ := h.deadline leaf hleaf
    rw [hnone] at hstop
    cases hstop

/-- What a call of `compute` can do once the deadline is set: nothing, or add
one leaf at the current time. -/
theorem computeLeaf_cases {core core' : MiningCore M} {params : ParamsOfCompute}
    {result : Option ComputedLeaf} (h : core.computeLeaf blake3 params = some (core', result)) :
    (core' = core ∧ result = none) ∨
    ∃ leaf, result = some leaf ∧ core.committed = false ∧
      (∀ stop, core.endsAtMs = some stop → params.nowMs < stop) ∧
      (∀ prev, core.lastNowMs = some prev → prev ≤ params.nowMs) ∧
      FoundFor blake3 ⟨BitVec.ofNat 128 core.completed.length, 0, core.seed, params.x, params.y,
        params.nowMs, core.targetBits⟩ leaf ∧
      core' = { core with
        lastNowMs := some params.nowMs
        tree := M.insert core.tree (leaf.merkleHash blake3)
        completed := core.completed ++ [leaf] } := by
  rw [computeLeaf] at h
  split at h
  · obtain ⟨rfl, rfl⟩ := Prod.mk.inj (Option.some.inj h)
    exact Or.inl ⟨rfl, rfl⟩
  · rename_i hdeadline
    split at h
    · obtain ⟨rfl, rfl⟩ := Prod.mk.inj (Option.some.inj h)
      exact Or.inl ⟨rfl, rfl⟩
    · rename_i hcommitted
      split at h
      · obtain ⟨rfl, rfl⟩ := Prod.mk.inj (Option.some.inj h)
        exact Or.inl ⟨rfl, rfl⟩
      · rename_i hlast
        split at h
        · cases h
        · rename_i leaf hfound
          obtain ⟨rfl, rfl⟩ := Prod.mk.inj (Option.some.inj h)
          refine Or.inr ⟨leaf, rfl, by simpa using hcommitted, ?_, ?_,
            foundFor_of_findNonce hfound, rfl⟩
          · intro stop hstop
            simpa [deadlineReachedMs, hstop] using hdeadline
          · intro prev hprev
            simpa [hprev] using hlast

theorem Inv.computeLeaf {core core' : MiningCore M} {params : ParamsOfCompute}
    {result : Option ComputedLeaf} (hinv : core.Inv blake3)
    (hbits : core.targetBits.toNat < 128) (hends : ∃ stop, core.endsAtMs = some stop)
    (h : core.computeLeaf blake3 params = some (core', result)) : core'.Inv blake3 := by
  rcases computeLeaf_cases h with ⟨rfl, -⟩ | ⟨leaf, -, hcommitted, hstop, hprev, hfound, rfl⟩
  · exact hinv
  · obtain ⟨⟨nonce, hleaf⟩, hnum⟩ := hfound
    have hverify := Leaf.verify_compute blake3 _ hbits (hleaf ▸ hnum)
    rw [← hleaf] at hverify
    have htime : leaf.timestamp = params.nowMs := congrArg ComputedLeaf.timestamp hleaf
    have hindex : leaf.index = BitVec.ofNat 128 core.completed.length :=
      congrArg ComputedLeaf.index hleaf
    have htree := hinv.tree
    rw [hcommitted, if_neg Bool.false_ne_true] at htree
    have hearlier : ∀ a ∈ core.completed, a.timestamp ≤ params.nowMs := by
      intro a ha
      obtain ⟨now, hnow, hle⟩ := hinv.lastNow a ha
      exact UInt64.le_trans hle (hprev now hnow)
    refine ⟨?_, ?_, ?_, ?_, ?_, ?_⟩
    · intro i a ha
      rw [List.getElem?_append] at ha
      split at ha
      · exact hinv.index i a ha
      · rw [List.getElem?_singleton] at ha
        split at ha
        · have hi : i = core.completed.length := by omega
          obtain rfl := Option.some.inj ha
          rw [hindex, hi]
        · cases ha
    · rw [List.pairwise_append]
      refine ⟨hinv.sorted, List.pairwise_singleton _ _, ?_⟩
      intro a ha b hb
      obtain rfl := List.mem_singleton.mp hb
      rw [htime]
      exact hearlier a ha
    · intro a ha
      obtain ⟨stop, hends⟩ := hends
      rcases List.mem_append.mp ha with hold | hnew
      · exact hinv.deadline a hold
      · obtain rfl := List.mem_singleton.mp hnew
        exact ⟨stop, hends, htime ▸ hstop stop hends⟩
    · intro a ha
      refine ⟨params.nowMs, rfl, ?_⟩
      rcases List.mem_append.mp ha with hold | hnew
      · exact hearlier a hold
      · obtain rfl := List.mem_singleton.mp hnew
        rw [htime]
        exact UInt64.le_refl _
    · intro a ha
      rcases List.mem_append.mp ha with hold | hnew
      · exact hinv.verified a hold
      · obtain rfl := List.mem_singleton.mp hnew
        exact hverify
    · simp only [hcommitted, Bool.false_eq_true, if_false, hashes, List.map_append, List.map_cons,
        List.map_nil, M.inserted_append]
      exact congrArg (M.insert · _) htree

/-- The settings that no operation changes. -/
def SameSettings (core core' : MiningCore M) : Prop :=
  core'.seed = core.seed ∧ core'.targetBits = core.targetBits ∧
    core'.durationMs = core.durationMs

theorem withDeadline_sameSettings (core : MiningCore M) (nowMs : UInt64) :
    core.SameSettings (core.withDeadline nowMs) ∧
      ∃ stop, (core.withDeadline nowMs).endsAtMs = some stop := by
  rw [withDeadline]
  cases h : core.endsAtMs with
  | none => exact ⟨⟨rfl, rfl, rfl⟩, _, rfl⟩
  | some stop => exact ⟨⟨rfl, rfl, rfl⟩, stop, h⟩

theorem computeLeaf_sameSettings {core core' : MiningCore M} {params : ParamsOfCompute}
    {result : Option ComputedLeaf} (h : core.computeLeaf blake3 params = some (core', result)) :
    core.SameSettings core' := by
  rcases computeLeaf_cases h with ⟨rfl, -⟩ | ⟨leaf, -, -, -, -, -, rfl⟩
  · exact ⟨rfl, rfl, rfl⟩
  · exact ⟨rfl, rfl, rfl⟩

theorem Step.sameSettings {core core' : MiningCore M} {op : Op} (h : Step blake3 core op core') :
    core.SameSettings core' := by
  cases op with
  | compute params =>
      obtain ⟨⟨_, result⟩, hcompute, rfl⟩ := Option.map_eq_some_iff.mp h
      obtain ⟨hseed, hbits, hduration⟩ := computeLeaf_sameSettings hcompute
      obtain ⟨⟨hseed', hbits', hduration'⟩, -⟩ := core.withDeadline_sameSettings params.nowMs
      exact ⟨hseed.trans hseed', hbits.trans hbits', hduration.trans hduration'⟩
  | getMerkle =>
      obtain rfl := Option.some.inj h
      rw [MiningCore.getMerkle]
      split <;> exact ⟨rfl, rfl, rfl⟩
  | getProof start stop =>
      obtain ⟨_, -, rfl⟩ := Option.map_eq_some_iff.mp h
      exact ⟨rfl, rfl, rfl⟩
  | reset =>
      obtain rfl := Option.some.inj h
      exact ⟨rfl, rfl, rfl⟩

theorem Inv.step {core core' : MiningCore M} {op : Op} (hinv : core.Inv blake3)
    (hbits : core.targetBits.toNat < 128) (h : Step blake3 core op core') : core'.Inv blake3 := by
  cases op with
  | compute params =>
      obtain ⟨⟨_, result⟩, hcompute, rfl⟩ := Option.map_eq_some_iff.mp h
      obtain ⟨⟨-, hsame, -⟩, hends⟩ := core.withDeadline_sameSettings params.nowMs
      exact (hinv.withDeadline params.nowMs).computeLeaf (hsame ▸ hbits) hends hcompute
  | getMerkle =>
      obtain rfl := Option.some.inj h
      exact hinv.getMerkle
  | getProof start stop =>
      obtain ⟨_, -, rfl⟩ := Option.map_eq_some_iff.mp h
      exact hinv
  | reset =>
      obtain rfl := Option.some.inj h
      exact Inv.reset blake3

/-- The invariant and the settings of every core that a session can reach. -/
theorem inv_of_run {seed : String} {durationMs : UInt64} {targetBits : UInt32}
    (hbits : targetBits.toNat < 128) {ops : List Op} {core : MiningCore M}
    (h : Transition.Run (Step blake3) (new M seed durationMs targetBits) ops core) :
    core.Inv blake3 ∧ (new M seed durationMs targetBits).SameSettings core := by
  refine Transition.Run.invariant
    (fun c ↦ c.Inv blake3 ∧ (new M seed durationMs targetBits).SameSettings c) ?_
      ⟨inv_new blake3 seed durationMs targetBits, rfl, rfl, rfl⟩ h
  rintro s op t ⟨hinv, hseed, hsame, hduration⟩ hstep
  obtain ⟨hseed', hsame', hduration'⟩ := hstep.sameSettings
  exact ⟨hinv.step (hsame ▸ hbits) hstep, hseed'.trans hseed, hsame'.trans hsame,
    hduration'.trans hduration⟩

/-! ## The committed core -/

/-- The leaves that the tree shows are the committed ones. -/
theorem Inv.getMerkleLeaves_eq (hlaws : M.CommitLaws) {core : MiningCore M}
    (h : core.Inv blake3) :
    core.getMerkleLeaves =
      if core.committed then (core.hashes blake3).map Bytes32.bytes else [] := by
  have hleaves : core.getMerkleLeaves = ((M.leaves core.tree).getD []).map Bytes32.bytes := by
    rw [getMerkleLeaves]
    cases M.leaves core.tree with
    | none => rfl
    | some leaves => rfl
  rw [hleaves, h.tree]
  split
  · rw [hlaws.leaves_committed]
  · rw [hlaws.leaves_inserted, List.map_nil]

/-- A committed core adds no leaf, and shows what it showed before. -/
theorem Step.of_committed {core core' : MiningCore M} {op : Op} (h : Step blake3 core op core')
    (hcommitted : core.committed = true) (hop : op ≠ .reset) :
    core'.committed = true ∧ core'.tree = core.tree ∧ core'.completed = core.completed := by
  cases op with
  | compute params =>
      obtain ⟨⟨_, result⟩, hcompute, rfl⟩ := Option.map_eq_some_iff.mp h
      rcases core.withDeadline_cases params.nowMs with heq | ⟨-, heq⟩
      all_goals
        rw [compute, heq] at hcompute
        rcases computeLeaf_cases hcompute with ⟨rfl, -⟩ | ⟨leaf, -, hfresh, -⟩
        · exact ⟨hcommitted, rfl, rfl⟩
        · exact absurd (hcommitted.symm.trans hfresh) (by decide)
  | getMerkle =>
      obtain rfl := Option.some.inj h
      rw [MiningCore.getMerkle, if_pos hcommitted]
      exact ⟨hcommitted, rfl, rfl⟩
  | getProof start stop =>
      obtain ⟨_, -, rfl⟩ := Option.map_eq_some_iff.mp h
      exact ⟨hcommitted, rfl, rfl⟩
  | reset => exact absurd rfl hop

/-- A committed core along a run without a reset. -/
theorem run_of_committed {core core' : MiningCore M} {ops : List Op}
    (h : Transition.Run (Step blake3) core ops core') (hcommitted : core.committed = true)
    (hops : ∀ op ∈ ops, op ≠ .reset) :
    core'.committed = true ∧ core'.tree = core.tree ∧ core'.completed = core.completed := by
  induction h with
  | refl core => exact ⟨hcommitted, rfl, rfl⟩
  | head hstep hrun ih =>
      obtain ⟨hop, hops⟩ := List.forall_mem_cons.mp hops
      obtain ⟨hcommitted', htree, hcompleted⟩ := hstep.of_committed hcommitted hop
      obtain ⟨hlast, htree', hcompleted'⟩ := ih hcommitted' hops
      exact ⟨hlast, htree'.trans htree, hcompleted'.trans hcompleted⟩

theorem committed_getMerkle (core : MiningCore M) : core.getMerkle.1.committed = true := by
  rw [getMerkle]
  by_cases h : core.committed
  · simp [h]
  · simp [h]

/-- The snapshot depends on the tree only. -/
theorem getMerkle_snapshot_eq {core core' : MiningCore M} (hcommitted : core.committed = true)
    (hcommitted' : core'.committed = true) (htree : core'.tree = core.tree) :
    core'.getMerkle.2 = core.getMerkle.2 := by
  simp only [getMerkle, hcommitted, hcommitted', if_true, getMerkleRoot, getMerkleLeaves, htree]

theorem getMerkle_getMerkle (core : MiningCore M) :
    core.getMerkle.1.getMerkle.2 = core.getMerkle.2 := by
  have h := core.committed_getMerkle
  conv_lhs => rw [getMerkle, if_pos h]
  rfl

theorem completed_getMerkle (core : MiningCore M) :
    core.getMerkle.1.completed = core.completed := by
  rw [getMerkle]
  split <;> rfl

theorem compute_of_committed {core core' : MiningCore M} {params : ParamsOfCompute}
    {result : Option ComputedLeaf} (hcommitted : core.committed = true)
    (h : core.compute blake3 params = some (core', result)) :
    result = none ∧ core'.completed = core.completed := by
  rw [compute] at h
  rcases core.withDeadline_cases params.nowMs with heq | ⟨-, heq⟩
  all_goals
    rw [heq] at h
    rcases computeLeaf_cases h with ⟨rfl, hresult⟩ | ⟨leaf, -, hfresh, -⟩
    · exact ⟨hresult, rfl⟩
    · exact absurd (hcommitted.symm.trans hfresh) (by decide)

theorem slice?_of_le {α : Type} {xs : List α} {start stop : ℕ} (hle : start ≤ stop)
    (hlen : stop ≤ xs.length) :
    slice? xs start stop = some ((xs.drop start).take (stop - start)) := if_pos ⟨hle, hlen⟩

/-- A window is proved exactly when it is a window of the committed leaves. -/
theorem Inv.getProof_eq (hlaws : M.CommitLaws) {core : MiningCore M} (h : core.Inv blake3)
    (start stop : ℕ) :
    core.getProof start stop = some
      (if core.committed = true ∧ start < stop ∧ stop ≤ core.completed.length then
        .ok ⟨M.toBytes (M.proof core.tree (indexRange start stop)),
          (((core.hashes blake3).drop start).take (stop - start)).map Bytes32.bytes,
          (core.completed.drop start).take (stop - start)⟩
      else .error "invalid window range") := by
  have hleaves := h.getMerkleLeaves_eq hlaws
  by_cases hwindow : core.committed = true ∧ start < stop ∧ stop ≤ core.completed.length
  · obtain ⟨hcommitted, hlt, hle⟩ := hwindow
    rw [if_pos hcommitted] at hleaves
    have hlen : core.getMerkleLeaves.length = core.completed.length := by simp [hleaves, hashes]
    have hin : ¬(stop ≤ start ∨ core.getMerkleLeaves.length < stop) := by omega
    rw [if_pos ⟨hcommitted, hlt, hle⟩, getProof, getProofInWindow, if_neg hin,
      slice?_of_le (Nat.le_of_lt hlt) (hlen ▸ hle)]
    simp only [slice?_of_le (Nat.le_of_lt hlt) hle, hleaves, List.map_take, List.map_drop]
  · have hout : stop ≤ start ∨ core.getMerkleLeaves.length < stop := by
      rw [hleaves]
      by_cases hcommitted : core.committed = true
      · rw [if_pos hcommitted, List.length_map, hashes, List.length_map]
        by_contra hcontra
        exact hwindow ⟨hcommitted, by omega, by omega⟩
      · rw [if_neg hcommitted, List.length_nil]
        omega
    rw [if_neg hwindow, getProof, getProofInWindow, if_pos hout]

/-- Every core that a session reaches has its records in step, is frozen by the
first snapshot until the next reset, and proves exactly the windows of its
committed leaves. -/
theorem session_records (hlaws : M.CommitLaws) {seed : String} {durationMs : UInt64}
    {targetBits : UInt32} (hbits : targetBits.toNat < 128) {ops : List Op} {core : MiningCore M}
    (h : Transition.Run (Step blake3) (new M seed durationMs targetBits) ops core) :
    (∀ i leaf, core.completed[i]? = some leaf → leaf.index = BitVec.ofNat 128 i) ∧
    core.completed.Pairwise (fun a b ↦ a.timestamp ≤ b.timestamp) ∧
    (∀ leaf ∈ core.completed,
      (∃ stop, core.endsAtMs = some stop ∧ leaf.timestamp < stop) ∧
        leaf.verify blake3 seed targetBits = true) ∧
    core.tree = (if core.committed then M.committed (core.hashes blake3)
      else M.inserted (core.hashes blake3)) ∧
    (∀ after core', (∀ op ∈ after, op ≠ .reset) →
      Transition.Run (Step blake3) core.getMerkle.1 after core' →
        core'.completed = core.completed ∧ core'.getMerkle.2 = core.getMerkle.2 ∧
        ∀ params core'' result, core'.compute blake3 params = some (core'', result) →
          result = none ∧ core''.completed = core.completed) ∧
    ∀ start stop, ∃ result, core.getProof start stop = some result ∧
      ((∃ p, result = .ok p) ↔
        core.committed = true ∧ start < stop ∧ stop ≤ core.completed.length) ∧
      ∀ p, result = .ok p → p.selectedLeaves =
        p.selectedLeavesData.map fun leaf ↦ (leaf.merkleHash blake3).bytes := by
  obtain ⟨hinv, hseed, hsame, -⟩ := inv_of_run hbits h
  refine ⟨hinv.index, hinv.sorted, ?_, hinv.tree, ?_, ?_⟩
  · intro leaf hleaf
    have hverify := hinv.verified leaf hleaf
    rw [hseed, hsame] at hverify
    exact ⟨hinv.deadline leaf hleaf, hverify⟩
  · intro after core' hops hrun
    obtain ⟨hcommitted, htree, hcompleted⟩ :=
      run_of_committed hrun core.committed_getMerkle hops
    rw [completed_getMerkle] at hcompleted
    refine ⟨hcompleted, ?_, ?_⟩
    · rw [getMerkle_snapshot_eq core.committed_getMerkle hcommitted htree, getMerkle_getMerkle]
    · intro params core'' result hcompute
      obtain ⟨hnone, hsame⟩ := compute_of_committed hcommitted hcompute
      exact ⟨hnone, hsame.trans hcompleted⟩
  · intro start stop
    refine ⟨_, hinv.getProof_eq hlaws start stop, ?_, ?_⟩
    · by_cases hwindow : core.committed = true ∧ start < stop ∧ stop ≤ core.completed.length
      · rw [if_pos hwindow]
        exact iff_of_true ⟨_, rfl⟩ hwindow
      · rw [if_neg hwindow]
        exact iff_of_false (by rintro ⟨p, ⟨⟩⟩) hwindow
    · intro p hp
      split at hp
      · rw [← Except.ok.inj hp]
        simp [hashes, List.map_take, List.map_drop, Function.comp_def]
      · cases hp

/-- A tap, a snapshot and a proof of the one leaf. -/
theorem session_records_one_leaf :
    ∃ core : MiningCore (RsMerkle.reference Blake3.hash),
      Transition.Run (Step Blake3.hash) (new _ "0x00" 1000 1)
        [.compute ⟨3, 4, 50⟩, .getMerkle, .getProof 0 1] core ∧
      (∀ leaf ∈ core.completed,
        (∃ stop, core.endsAtMs = some stop ∧ leaf.timestamp < stop) ∧
          leaf.verify Blake3.hash "0x00" 1 = true) ∧
      ∃ result, core.getProof 0 1 = some result ∧ ∃ p, result = .ok p := by
  have hrun : ((Transition.run? (step? Blake3.hash)
      (new (RsMerkle.reference Blake3.hash) "0x00" 1000 1)
      [.compute ⟨3, 4, 50⟩, .getMerkle, .getProof 0 1]).map fun core ↦
        (core.committed, core.completed.length)) = some (true, 1) := by decide +kernel
  obtain ⟨core, hcore, hshape⟩ := Option.map_eq_some_iff.mp hrun
  obtain ⟨hcommitted, hlength⟩ := Prod.mk.inj hshape
  have h := Transition.run?_eq_some_iff.mp hcore
  obtain ⟨-, -, hleaves, -, -, hproof⟩ := session_records
    (RsMerkle.reference_commitLaws Blake3.hash) (by decide) h
  obtain ⟨result, hresult, hok, -⟩ := hproof 0 1
  exact ⟨core, h, hleaves, result, hresult,
    hok.mpr ⟨hcommitted, by decide, Nat.le_of_eq hlength.symm⟩⟩

/-- A reset opens the core again: a call of `compute` after the first snapshot
does add a leaf. -/
theorem compute_adds_leaf_after_reset :
    ∃ core core' : MiningCore (RsMerkle.reference Blake3.hash),
      Transition.Run (Step Blake3.hash) (new _ "0x00" 1000 0) [.getMerkle] core ∧
      Transition.Run (Step Blake3.hash) core [.reset, .compute ⟨3, 4, 50⟩] core' ∧
      core.completed.length = 0 ∧ core'.completed.length = 1 := by
  have hrun : ((Transition.run? (step? Blake3.hash)
      (new (RsMerkle.reference Blake3.hash) "0x00" 1000 0).getMerkle.1
      [.reset, .compute ⟨3, 4, 50⟩]).map fun core ↦ core.completed.length) = some 1 := by
    decide +kernel
  obtain ⟨core, hcore, hlength⟩ := Option.map_eq_some_iff.mp hrun
  exact ⟨_, core, .head rfl (.refl _), Transition.run?_eq_some_iff.mp hcore, rfl, hlength⟩

end MiningCore

end BeeEngine
