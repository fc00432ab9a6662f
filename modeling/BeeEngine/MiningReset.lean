import BeeEngine.MiningCore

/-!
# A core after a reset

What a core answers, call by call.  A reset forgets all that the calls before
it left behind, so the answers after it are those of a new core.
-/

namespace BeeEngine

namespace MiningCore

open Transition

variable {M : RsMerkle} {blake3 : Bytes → Bytes32}

/-- What a call answers. -/
inductive Output where
  | leaf (computedLeaf : Option ComputedLeaf)
  | snapshot (result : ResultOfGetMerkleSnapshot)
  | proof (result : Except String ResultOfGetProof)
  | done

/-- A call that returns, and its answer. -/
def call? (blake3 : Bytes → Bytes32) (core : MiningCore M) : Op → Option (MiningCore M × Output)
  | .compute params => (core.compute blake3 params).map fun r ↦ (r.1, .leaf r.2)
  | .getMerkle => some (core.getMerkle.1, .snapshot core.getMerkle.2)
  | .getProof start stop => (core.getProof start stop).map fun r ↦ (core, .proof r)
  | .reset => some (core.reset, .done)

/-- The answers to calls in a row; a call that does not return is the last one. -/
def outputs (blake3 : Bytes → Bytes32) : MiningCore M → List Op → List (Option Output)
  | _, [] => []
  | core, op :: ops =>
      match core.call? blake3 op with
      | none => [none]
      | some (core', output) => some output :: outputs blake3 core' ops

theorem map_call? (core : MiningCore M) (op : Op) :
    (core.call? blake3 op).map Prod.fst = core.step? blake3 op := by
  cases op with
  | compute params =>
      rw [call?, Option.map_map]
      rfl
  | getMerkle => rfl
  | getProof start stop =>
      rw [call?, Option.map_map]
      rfl
  | reset => rfl

/-- A call gives an answer exactly when it leads to a next core. -/
theorem step_iff_call? {core core' : MiningCore M} {op : Op} :
    Step blake3 core op core' ↔ ∃ output, core.call? blake3 op = some (core', output) := by
  rw [Step, ← map_call?, Option.map_eq_some_iff]
  constructor
  · rintro ⟨⟨_, output⟩, hcall, rfl⟩
    exact ⟨output, hcall⟩
  · rintro ⟨output, hcall⟩
    exact ⟨_, hcall, rfl⟩

theorem sameSettings_of_run {core core' : MiningCore M} {ops : List Op}
    (h : Run (Step blake3) core ops core') : core.SameSettings core' := by
  induction h with
  | refl core => exact ⟨rfl, rfl, rfl⟩
  | head hstep hrun ih =>
      obtain ⟨hseed, hbits, hduration⟩ := hstep.sameSettings
      obtain ⟨hseed', hbits', hduration'⟩ := ih
      exact ⟨hseed'.trans hseed, hbits'.trans hbits, hduration'.trans hduration⟩

/-- Only the settings outlive a reset. -/
theorem reset_eq_new (core : MiningCore M) :
    core.reset = new M core.seed core.durationMs core.targetBits := rfl

/-- After any calls and a reset, a core answers as a new one. -/
theorem outputs_reset {seed : String} {durationMs : UInt64} {targetBits : UInt32}
    {history : List Op} {core : MiningCore M}
    (h : Run (Step blake3) (new M seed durationMs targetBits) history core) (ops : List Op) :
    core.reset.outputs blake3 ops = (new M seed durationMs targetBits).outputs blake3 ops := by
  obtain ⟨hseed, hbits, hduration⟩ := sameSettings_of_run h
  rw [reset_eq_new, hseed, hbits, hduration]
  rfl

/-- A session with a committed leaf, a reset, and a second session. -/
theorem outputs_reset_second_session :
    ∃ core : MiningCore (RsMerkle.reference Blake3.hash),
      Run (Step Blake3.hash) (new _ "0x00" 1000 1) [.compute ⟨3, 4, 50⟩, .getMerkle] core ∧
      core.reset.outputs Blake3.hash [.compute ⟨5, 6, 10⟩, .getMerkle, .getProof 0 1] =
        (new (RsMerkle.reference Blake3.hash) "0x00" 1000 1).outputs Blake3.hash
          [.compute ⟨5, 6, 10⟩, .getMerkle, .getProof 0 1] ∧
      (core.reset.outputs Blake3.hash [.compute ⟨5, 6, 10⟩, .getMerkle, .getProof 0 1]).all
        (·.isSome) = true := by
  have hrun : ((run? (step? Blake3.hash) (new (RsMerkle.reference Blake3.hash) "0x00" 1000 1)
      [.compute ⟨3, 4, 50⟩, .getMerkle]).map fun core ↦
        (core.reset.outputs Blake3.hash [.compute ⟨5, 6, 10⟩, .getMerkle, .getProof 0 1]).all
          (·.isSome)) = some true := by decide +kernel
  obtain ⟨core, hcore, hanswers⟩ := Option.map_eq_some_iff.mp hrun
  have h := run?_eq_some_iff.mp hcore
  exact ⟨core, h, outputs_reset h _, hanswers⟩

end MiningCore

end BeeEngine
