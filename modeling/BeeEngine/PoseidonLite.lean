import BeeEngine.Lib.Loops
import BeeEngine.Lib.Poseidon
import BeeEngine.ProofCompression

/-!
# Poseidon-lite

`poseidon_lite_hash` of `client_login_complete`, and `poseidon_lite_hash_4` of
`client_login_prepare`, over tables of constants of the right shape.
-/

namespace BeeEngine

open Outcome

namespace ZkLogin

def bn254FieldModulus : ℕ :=
  21888242871839275222246405745257275088548364400416034343698204186575808495617

def nRoundsF : ℕ := 8

def nRoundsP : List ℕ := [56, 57, 56, 60, 60, 63, 64, 63, 60, 66, 60, 65, 70, 60, 64, 68]

/-! ## Tables of constants -/

structure PoseidonConstants where
  c : List ℕ
  m : List (List ℕ)

/-- One constant for every element in every round, and a square matrix. -/
structure PoseidonConstants.Shaped (constants : PoseidonConstants) (arity : ℕ) : Prop where
  length_c : constants.c.length = (nRoundsF + nRoundsP.getD (arity - 1) 0) * (arity + 1)
  length_m : constants.m.length = arity + 1
  length_row : ∀ row ∈ constants.m, row.length = arity + 1

/-- The tables of the four files of constants. -/
structure PoseidonTables where
  constants1 : PoseidonConstants
  constants2 : PoseidonConstants
  constants4 : PoseidonConstants
  constants5 : PoseidonConstants
  shaped1 : constants1.Shaped 1
  shaped2 : constants2.Shaped 2
  shaped4 : constants4.Shaped 4
  shaped5 : constants5.Shaped 5

def poseidonConstants (tables : PoseidonTables) (arity : ℕ) : Except Failure PoseidonConstants :=
  match arity with
  | 1 => .ok tables.constants1
  | 2 => .ok tables.constants2
  | 4 => .ok tables.constants4
  | 5 => .ok tables.constants5
  | _ => .error (.error ((AppError.new ("Unsupported poseidon-lite arity: " ++
      toString arity)).withKind "zk_login_complete"))

/-! ## The hash of `client_login_complete` -/

/-- An entry, or the panic of an index that is out of bounds. -/
def index {α : Type} (xs : List α) (i : ℕ) : Except Failure α :=
  match xs[i]? with
  | some x => .ok x
  | none => .error .panic

def modPow5 (v modulus : ℕ) : ℕ :=
  let v2 := v * v % modulus
  let v4 := v2 * v2 % modulus
  v * v4 % modulus

def mixPoseidonState (state : List ℕ) (matrix : List (List ℕ)) (modulus : ℕ) : List ℕ :=
  matrix.map fun row ↦
    (row.zip state).foldl (fun acc p ↦ (acc + p.1 * p.2 % modulus) % modulus) 0

def isFullRound (nRoundsP round : ℕ) : Bool :=
  round < nRoundsF / 2 ∨ round ≥ nRoundsF / 2 + nRoundsP

/-- The body of the inner loop. -/
def poseidonElement (constants : PoseidonConstants) (nRoundsP width round : ℕ) (state : List ℕ)
    (y : ℕ) : Except Failure (List ℕ) := do
  let x ← index state y
  let c ← index constants.c (round * width + y)
  let x := (x + c) % bn254FieldModulus
  let x := if isFullRound nRoundsP round ∨ y = 0 then modPow5 x bn254FieldModulus else x
  return state.set y x

/-- The body of the outer loop. -/
def poseidonRound (constants : PoseidonConstants) (nRoundsP width : ℕ) (state : List ℕ)
    (round : ℕ) : Except Failure (List ℕ) := do
  let state ← (List.range width).foldlM (poseidonElement constants nRoundsP width round) state
  return mixPoseidonState state constants.m bn254FieldModulus

def poseidonLiteHash (tables : PoseidonTables) (inputs : List ℕ) : Except Failure ℕ :=
  if inputs.isEmpty ∨ inputs.length > 16 then
    .error (.error ((AppError.new "poseidon-lite: invalid input length").withKind
      "zk_login_complete"))
  else do
    let constants ← poseidonConstants tables inputs.length
    let width := inputs.length + 1
    let nRoundsP ← index nRoundsP (inputs.length - 1)
    let state ← (List.range (nRoundsF + nRoundsP)).foldlM (poseidonRound constants nRoundsP width)
      (0 :: inputs)
    index state 0

/-! ## The hash of `client_login_prepare` -/

namespace Prepare

def poseidonLiteArity4Width : ℕ := 5
def poseidonLiteFullRounds : ℕ := 8
def poseidonLitePartialRoundsArity4 : ℕ := 60
def poseidonLiteRoundsArity4 : ℕ := poseidonLiteFullRounds + poseidonLitePartialRoundsArity4

def modAdd (left right modulus : ℕ) : ℕ := (left + right) % modulus

def modPow5 (value modulus : ℕ) : ℕ :=
  let v2 := value * value % modulus
  let v4 := v2 * v2 % modulus
  value * v4 % modulus

def poseidonLiteMix (state : List ℕ) (matrix : List (List ℕ)) (modulus : ℕ) : List ℕ :=
  matrix.map fun row ↦
    (row.zip state).foldl (fun acc p ↦
      let mul := p.1 * p.2 % modulus
      modAdd acc mul modulus) 0

/-- The body of the inner loop. -/
def poseidonLiteElement (constants : PoseidonConstants) (round : ℕ) (state : List ℕ) (y : ℕ) :
    Except Failure (List ℕ) := do
  let cIdx := round * poseidonLiteArity4Width + y
  let x ← index state y
  let c ← index constants.c cIdx
  let x := modAdd x c bn254FieldModulus
  let isFullRound : Bool := round < poseidonLiteFullRounds / 2 ∨
    round ≥ poseidonLiteFullRounds / 2 + poseidonLitePartialRoundsArity4
  let x := if isFullRound ∨ y = 0 then modPow5 x bn254FieldModulus else x
  return state.set y x

/-- The body of the outer loop. -/
def poseidonLiteRound (constants : PoseidonConstants) (state : List ℕ) (round : ℕ) :
    Except Failure (List ℕ) := do
  let state ← (List.range poseidonLiteArity4Width).foldlM (poseidonLiteElement constants round)
    state
  return poseidonLiteMix state constants.m bn254FieldModulus

def poseidonLiteHash4 (constants : PoseidonConstants) (inputs : Vector ℕ 4) :
    Except Failure ℕ := do
  let state ← (List.range poseidonLiteRoundsArity4).foldlM (poseidonLiteRound constants)
    (0 :: inputs.toList)
  match state.head? with
  | some x => return x
  | none =>
      .error (.error ((AppError.new "Poseidon-lite state is empty").withKind "zk_login_prepare"))

theorem poseidonLiteRound_eq (constants : PoseidonConstants) :
    poseidonLiteRound constants = poseidonRound constants 60 5 := rfl

end Prepare

/-! ## The hash over the field -/

instance : NeZero bn254FieldModulus := ⟨by decide⟩

abbrev Residue := ZMod bn254FieldModulus

/-- The residues of the first `n` entries. -/
def residues (n : ℕ) (xs : List ℕ) (i : Fin n) : Residue := (xs.getD i 0 : ℕ)

def PoseidonConstants.params (constants : PoseidonConstants) (arity : ℕ) :
    Poseidon.Params arity Residue where
  half := nRoundsF / 2
  middle := nRoundsP.getD (arity - 1) 0
  constant r i := (constants.c.getD (r * (arity + 1) + i) 0 : ℕ)
  mix := Matrix.of fun i j ↦ ((constants.m.getD i []).getD j 0 : ℕ)

theorem natCast_modPow5 (v : ℕ) : (modPow5 v bn254FieldModulus : Residue) = (v : Residue) ^ 5 := by
  simp only [modPow5, ZMod.natCast_mod, Nat.cast_mul]
  ring

theorem residues_cons (n : ℕ) (xs : List ℕ) :
    residues (n + 1) (0 :: xs) = Fin.cons 0 (residues n xs) := by
  funext i
  cases i using Fin.cases with
  | zero => simp [residues]
  | succ i => simp [residues]

theorem natCast_dot {n : ℕ} {row state : List ℕ} (hrow : row.length = n)
    (hstate : state.length = n) (acc : ℕ) :
    ((row.zip state).foldl (fun acc p ↦ (acc + p.1 * p.2 % bn254FieldModulus) %
      bn254FieldModulus) acc : ℕ) =
        (acc : Residue) + ∑ i : Fin n, residues n row i * residues n state i := by
  induction n generalizing row state acc with
  | zero =>
      obtain rfl := List.eq_nil_of_length_eq_zero hrow
      simp
  | succ n ih =>
      obtain ⟨x, row, rfl⟩ := List.exists_cons_of_length_eq_add_one hrow
      obtain ⟨y, state, rfl⟩ := List.exists_cons_of_length_eq_add_one hstate
      rw [List.zip_cons_cons, List.foldl_cons,
        ih (Nat.succ.inj hrow) (Nat.succ.inj hstate), Fin.sum_univ_succ, ← add_assoc]
      simp [residues]

variable {constants : PoseidonConstants} {arity : ℕ}

theorem residues_mix (h : constants.Shaped arity) {state : List ℕ}
    (hstate : state.length = arity + 1) :
    residues (arity + 1) (mixPoseidonState state constants.m bn254FieldModulus) =
      (constants.params arity).mix.mulVec (residues (arity + 1) state) := by
  funext i
  have hi : (i : ℕ) < constants.m.length := by
    rw [h.length_m]
    exact i.isLt
  have hrow : (constants.m.getD i []).length = arity + 1 := by
    rw [List.getD_eq_getElem _ _ hi]
    exact h.length_row _ (List.getElem_mem hi)
  have hentry : (mixPoseidonState state constants.m bn254FieldModulus).getD i 0 =
      ((constants.m.getD i []).zip state).foldl
        (fun acc p ↦ (acc + p.1 * p.2 % bn254FieldModulus) % bn254FieldModulus) 0 := by
    rw [mixPoseidonState, List.getD_eq_getElem _ _ (by simpa using hi), List.getElem_map,
      List.getD_eq_getElem _ _ hi]
  rw [residues, hentry, natCast_dot hrow hstate, Nat.cast_zero, zero_add]
  rfl

theorem length_mixPoseidonState (state : List ℕ) (matrix : List (List ℕ)) (modulus : ℕ) :
    (mixPoseidonState state matrix modulus).length = matrix.length := List.length_map _

/-- The value that the inner loop sets. -/
def sboxValue (constants : PoseidonConstants) (arity round y x : ℕ) : ℕ :=
  let x := (x + constants.c.getD (round * (arity + 1) + y) 0) % bn254FieldModulus
  if isFullRound (nRoundsP.getD (arity - 1) 0) round ∨ y = 0 then modPow5 x bn254FieldModulus
  else x

theorem index_of_lt {α : Type} {xs : List α} {i : ℕ} (d : α) (h : i < xs.length) :
    index xs i = .ok (xs.getD i d) := by
  rw [index, List.getElem?_eq_getElem h, List.getD_eq_getElem _ _ h]

theorem poseidonElement_eq (h : constants.Shaped arity) {state : List ℕ} {round y : ℕ}
    (hround : round < nRoundsF + nRoundsP.getD (arity - 1) 0) (hstate : state.length = arity + 1)
    (hy : y < state.length) :
    poseidonElement constants (nRoundsP.getD (arity - 1) 0) (arity + 1) round state y =
      .ok (state.set y (sboxValue constants arity round y state[y])) := by
  have hc : round * (arity + 1) + y < constants.c.length := by
    rw [h.length_c]
    calc
      round * (arity + 1) + y < round * (arity + 1) + (arity + 1) := by omega
      _ = (round + 1) * (arity + 1) := (Nat.succ_mul _ _).symm
      _ ≤ _ := Nat.mul_le_mul_right _ hround
  rw [poseidonElement, index_of_lt 0 hy, index_of_lt 0 hc, List.getD_eq_getElem _ _ hy]
  rfl

theorem residues_sboxValue {state : List ℕ} (round : ℕ) (hstate : state.length = arity + 1) :
    residues (arity + 1) (state.mapIdx (sboxValue constants arity round)) =
      (constants.params arity).sbox round (residues (arity + 1) state) := by
  funext i
  have hi : (i : ℕ) < state.length := by
    rw [hstate]
    exact i.isLt
  have hentry : (state.mapIdx (sboxValue constants arity round)).getD i 0 =
      sboxValue constants arity round i (state.getD i 0) := by
    rw [List.getD_eq_getElem _ _ (by simpa using hi), List.getElem_mapIdx,
      List.getD_eq_getElem _ _ hi]
  have hfull : (isFullRound (nRoundsP.getD (arity - 1) 0) round = true ∨ (i : ℕ) = 0) ↔
      (constants.params arity).IsFull round ∨ i = 0 := by
    rw [isFullRound, decide_eq_true_iff, Fin.ext_iff]
    rfl
  rw [residues, hentry, sboxValue, Poseidon.Params.sbox]
  simp only [hfull]
  split_ifs
  · rw [natCast_modPow5, ZMod.natCast_mod, Nat.cast_add]
    rfl
  · rw [ZMod.natCast_mod, Nat.cast_add]
    rfl

theorem foldl_lt {row : List (ℕ × ℕ)} {acc : ℕ} (h : acc < bn254FieldModulus) :
    row.foldl (fun acc p ↦ (acc + p.1 * p.2 % bn254FieldModulus) % bn254FieldModulus) acc <
      bn254FieldModulus := by
  induction row generalizing acc with
  | nil => exact h
  | cons p row ih => exact ih (Nat.mod_lt _ (by decide))

/-- The program's state stands for a state of the permutation. -/
def StandsFor (state : List ℕ) (s : Fin (arity + 1) → Residue) : Prop :=
  state.length = arity + 1 ∧ residues (arity + 1) state = s

/-- One round of the program is one of the permutation, and leaves values below
the modulus. -/
theorem exists_poseidonRound (h : constants.Shaped arity) {state : List ℕ} {round : ℕ}
    (hround : round < nRoundsF + nRoundsP.getD (arity - 1) 0) {s : Fin (arity + 1) → Residue}
    (hs : StandsFor state s) :
    ∃ state', poseidonRound constants (nRoundsP.getD (arity - 1) 0) (arity + 1) state round =
        .ok state' ∧
      StandsFor state' ((constants.params arity).round s round) ∧
      ∀ x ∈ state', x < bn254FieldModulus := by
  obtain ⟨hstate, rfl⟩ := hs
  have hset := Loops.foldlM_set (h := sboxValue constants arity round) (s := state)
    (f := poseidonElement constants (nRoundsP.getD (arity - 1) 0) (arity + 1) round)
    fun s' y hy hlength ↦ poseidonElement_eq h hround (hlength.trans hstate) hy
  rw [hstate] at hset
  have hlength : (state.mapIdx (sboxValue constants arity round)).length = arity + 1 := by
    rw [List.length_mapIdx, hstate]
  refine ⟨_, bind_eq_ok_iff.mpr ⟨_, hset, rfl⟩, ⟨?_, ?_⟩, ?_⟩
  · rw [length_mixPoseidonState, h.length_m]
  · rw [residues_mix h hlength, residues_sboxValue round hstate]
    rfl
  · intro x hx
    obtain ⟨row, -, rfl⟩ := List.mem_map.mp hx
    exact foldl_lt (by decide)

theorem exists_foldlM_poseidonRound (h : constants.Shaped arity) {state : List ℕ}
    {s : Fin (arity + 1) → Residue} (hs : StandsFor state s) :
    ∃ state', (List.range (nRoundsF + nRoundsP.getD (arity - 1) 0)).foldlM
        (poseidonRound constants (nRoundsP.getD (arity - 1) 0) (arity + 1)) state = .ok state' ∧
      StandsFor state' ((constants.params arity).permute s) ∧
      ∀ x ∈ state', x < bn254FieldModulus := by
  refine Loops.exists_foldlM (fun round hround _ _ hs ↦ ?_)
    (List.ne_nil_of_mem (List.mem_range.mpr (Nat.lt_add_right _ (by decide : 0 < nRoundsF)))) hs
  exact exists_poseidonRound h (List.mem_range.mp hround) hs

theorem standsFor_cons {inputs : List ℕ} (h : inputs.length = arity) :
    StandsFor (0 :: inputs) (Fin.cons 0 (residues arity inputs) : Fin (arity + 1) → Residue) := by
  refine ⟨?_, residues_cons arity inputs⟩
  rw [List.length_cons, h]

/-! ## The hashes -/

/-- The lengths for which there is a table. -/
def Supported (arity : ℕ) : Prop := arity = 1 ∨ arity = 2 ∨ arity = 4 ∨ arity = 5

theorem exists_poseidonConstants (tables : PoseidonTables) (h : Supported arity) :
    ∃ constants, poseidonConstants tables arity = .ok constants ∧ constants.Shaped arity := by
  rcases h with rfl | rfl | rfl | rfl
  · exact ⟨_, rfl, tables.shaped1⟩
  · exact ⟨_, rfl, tables.shaped2⟩
  · exact ⟨_, rfl, tables.shaped4⟩
  · exact ⟨_, rfl, tables.shaped5⟩

/-- The first element of the state, after all rounds, is the hash over the field. -/
theorem poseidonLiteHash_eq {tables : PoseidonTables} {inputs : List ℕ}
    (hsupported : Supported inputs.length)
    (hconstants : poseidonConstants tables inputs.length = .ok constants)
    (h : constants.Shaped inputs.length) :
    poseidonLiteHash tables inputs =
      .ok ((constants.params inputs.length).hash (residues inputs.length inputs)).val := by
  have hvalid : ¬(inputs.isEmpty ∨ inputs.length > 16) := by
    rw [List.isEmpty_iff_length_eq_zero]
    rcases hsupported with hlength | hlength | hlength | hlength <;> omega
  have hrounds : index nRoundsP (inputs.length - 1) = .ok (nRoundsP.getD (inputs.length - 1) 0) := by
    apply index_of_lt
    rcases hsupported with hlength | hlength | hlength | hlength <;> rw [hlength] <;> decide
  obtain ⟨state, hrun, ⟨hlength, hstate⟩, hlt⟩ :=
    exists_foldlM_poseidonRound h (standsFor_cons rfl)
  have hpos : 0 < state.length := by omega
  have hvalue : state.getD 0 0 =
      ((constants.params inputs.length).hash (residues inputs.length inputs)).val := by
    have hfirst := congrFun hstate 0
    have hsmall : state.getD 0 0 < bn254FieldModulus := by
      rw [List.getD_eq_getElem _ _ hpos]
      exact hlt _ (List.getElem_mem hpos)
    rw [Poseidon.Params.hash, ← hfirst]
    exact (ZMod.val_natCast_of_lt hsmall).symm
  rw [poseidonLiteHash, if_neg hvalid]
  simp only [hconstants, hrounds, ok_bind, hrun, index_of_lt 0 hpos, hvalue]

theorem exists_poseidonLiteHash (tables : PoseidonTables) {inputs : List ℕ}
    (h : Supported inputs.length) :
    ∃ value < bn254FieldModulus, poseidonLiteHash tables inputs = .ok value := by
  obtain ⟨constants, hconstants, hshaped⟩ := exists_poseidonConstants tables h
  exact ⟨_, ZMod.val_lt _, poseidonLiteHash_eq h hconstants hshaped⟩

/-- The hashes of the two modules are one. -/
theorem poseidonLiteHash4_eq (tables : PoseidonTables) (inputs : Vector ℕ 4) :
    Prepare.poseidonLiteHash4 tables.constants4 inputs = poseidonLiteHash tables inputs.toList := by
  have hlength : inputs.toList.length = 4 := inputs.length_toList
  obtain ⟨state, hrun, ⟨hstateLength, -⟩, -⟩ :=
    exists_foldlM_poseidonRound tables.shaped4 (standsFor_cons hlength)
  obtain ⟨x, rest, rfl⟩ := List.exists_cons_of_length_eq_add_one hstateLength
  have hvalid : ¬(inputs.toList.isEmpty ∨ inputs.toList.length > 16) := by
    rw [List.isEmpty_iff_length_eq_zero, hlength]
    decide
  rw [Prepare.poseidonLiteHash4, Prepare.poseidonLiteRound_eq, poseidonLiteHash, if_neg hvalid,
    hlength]
  have hrun' : (List.range Prepare.poseidonLiteRoundsArity4).foldlM
      (poseidonRound tables.constants4 60 5) (0 :: inputs.toList) = .ok (x :: rest) := hrun
  rw [hrun']
  change _ = (List.range (nRoundsF + nRoundsP.getD 3 0)).foldlM
    (poseidonRound tables.constants4 (nRoundsP.getD 3 0) (4 + 1)) (0 :: inputs.toList) >>= _
  rw [hrun]
  rfl

end ZkLogin

end BeeEngine
