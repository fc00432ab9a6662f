import BeeEngine.Infra
import BeeEngine.Lib.BigUint
import BeeEngine.Lib.Outcome

/-!
# Compressed proofs

`zk_login_complete_local_finalize`: the points of a proof, which a prover sends
as decimal text, are written as their x coordinates with the signs of the y
coordinates in free bits.
-/

namespace BeeEngine

open Outcome

namespace ZkLogin

/-! ## The points of a proof -/

structure ProofPoints where
  a : Fin 3 → String
  b : Fin 3 → Fin 2 → String
  c : Fin 3 → String

/-- How a computation ends without a result. -/
inductive Failure where
  | error (e : AppError)
  /-- A subtraction below zero, or an index out of bounds. -/
  | panic
  deriving DecidableEq, Repr

def zkpCurveP : ℕ :=
  21888242871839275222246405745257275088696311157297823662689037894645226208583

section

variable (reader : DecimalReader)

def parseBiguintDecimal (value : String) : Except Failure ℕ :=
  match reader.parseBytes value with
  | some n => .ok n
  | none => .error (.error
      ((AppError.new ("Invalid decimal bigint: " ++ value)).withKind "zk_login_complete"))

def toBigEndianFixedLen (value len : ℕ) : Bytes :=
  let bytes := BigUint.toBytesBe value
  if bytes.length > len then bytes.drop (bytes.length - len)
  else if bytes.length < len then List.replicate (len - bytes.length) 0 ++ bytes
  else bytes

/-- `zkp_curve_p() - y` -/
def negate (y : ℕ) : Except Failure ℕ :=
  if y ≤ zkpCurveP then .ok (zkpCurveP - y) else .error .panic

/-- The top bit of the first byte tells whether `y` is larger than its negative. -/
def setSign (larger : Bool) (bytes : Bytes) : Bytes :=
  if larger then bytes.modifyHead (· ||| 0x80) else bytes.modifyHead (· &&& 0x7f)

def prepareHexRepresentation (initX : String) (y : ℕ) : Except Failure String := do
  let x ← parseBiguintDecimal reader initX
  let bytes := toBigEndianFixedLen x 32
  let negY ← negate y
  let bytes := setSign (y > negY) bytes
  return Bytes.hexEncode bytes.reverse

def prepareCompressedProof (points : ProofPoints) : Except Failure String := do
  let aY ← parseBiguintDecimal reader (points.a 1)
  let b1Y ← parseBiguintDecimal reader (points.b 1 1)
  let cY ← parseBiguintDecimal reader (points.c 1)
  let hexAx ← prepareHexRepresentation reader (points.a 0) aY
  let hexB0x ← prepareHexRepresentation reader (points.b 0 0) 0
  let hexB1x ← prepareHexRepresentation reader (points.b 0 1) b1Y
  let hexCx ← prepareHexRepresentation reader (points.c 0) cY
  return hexAx ++ hexB0x ++ hexB1x ++ hexCx

structure ZkLoginCompleteLocalFinalizeResult where
  zkProofCompressed : String
  deriving DecidableEq, Repr

def zkLoginCompleteLocalFinalize (points : ProofPoints) :
    Except Failure ZkLoginCompleteLocalFinalizeResult := do
  let zkProofCompressed ← prepareCompressedProof reader points
  return ⟨zkProofCompressed⟩

/-! ## What is claimed of arbitrary text -/

/-- A decimal number below the modulus of the base field. -/
def IsCoordinate (s : String) : Prop := ∃ n, Text.parseDigits s.toList = some n ∧ n < zkpCurveP

def usedCoordinates (points : ProofPoints) : List String :=
  [points.a 0, points.a 1, points.b 0 0, points.b 0 1, points.b 1 1, points.c 0, points.c 1]

structure FinalizesSafely (points : ProofPoints) : Prop where
  total : zkLoginCompleteLocalFinalize reader points ≠ .error .panic
  format : ∀ result, zkLoginCompleteLocalFinalize reader points = .ok result →
    result.zkProofCompressed.length = 256 ∧
      ∀ c ∈ result.zkProofCompressed.toList, Bytes.isLowerHex c = true
  rejects : (∃ s ∈ usedCoordinates points, ¬IsCoordinate s) →
    ∃ e, zkLoginCompleteLocalFinalize reader points = .error (.error e)

def Unread (s : String) : Prop := reader.parseBytes s = none

/-- The text is read as a number above the modulus. -/
def Above (s : String) : Prop := ∃ n, reader.parseBytes s = some n ∧ zkpCurveP < n

/-- Some used coordinate is not read, and no y coordinate that is negated before
it is above the modulus. -/
def Rejected (points : ProofPoints) : Prop :=
  Unread reader (points.a 1) ∨ Unread reader (points.b 1 1) ∨ Unread reader (points.c 1) ∨
    Unread reader (points.a 0) ∨
    ¬Above reader (points.a 1) ∧
      (Unread reader (points.b 0 0) ∨ Unread reader (points.b 0 1) ∨
        ¬Above reader (points.b 1 1) ∧ Unread reader (points.c 0))

/-! ## What is claimed of coordinates in the field -/

structure Coordinates where
  ax : ℕ
  ay : ℕ
  bx : ℕ × ℕ
  by' : ℕ × ℕ
  cx : ℕ
  cy : ℕ
  deriving DecidableEq, Repr

/-- The used coordinates are read as these numbers. -/
structure ReadsUsed (points : ProofPoints) (q : Coordinates) : Prop where
  ax : reader.parseBytes (points.a 0) = some q.ax
  ay : reader.parseBytes (points.a 1) = some q.ay
  bx₀ : reader.parseBytes (points.b 0 0) = some q.bx.1
  bx₁ : reader.parseBytes (points.b 0 1) = some q.bx.2
  by₁ : reader.parseBytes (points.b 1 1) = some q.by'.2
  cx : reader.parseBytes (points.c 0) = some q.cx
  cy : reader.parseBytes (points.c 1) = some q.cy

structure Reads (points : ProofPoints) (q : Coordinates) : Prop extends
    ReadsUsed reader points q where
  by₀ : reader.parseBytes (points.b 1 0) = some q.by'.1

/-- All coordinates are below the modulus. -/
structure Coordinates.InField (q : Coordinates) : Prop where
  ax : q.ax < zkpCurveP
  ay : q.ay < zkpCurveP
  bx : q.bx.1 < zkpCurveP ∧ q.bx.2 < zkpCurveP
  by' : q.by'.1 < zkpCurveP ∧ q.by'.2 < zkpCurveP
  cx : q.cx < zkpCurveP
  cy : q.cy < zkpCurveP

/-- The negative in the base field. -/
def neg (y : ℕ) : ℕ := (zkpCurveP - y) % zkpCurveP

/-- The negative in the quadratic extension. -/
def neg₂ (y : ℕ × ℕ) : ℕ × ℕ := (neg y.1, neg y.2)

/-- A compressed proof determines the x coordinates, and each y coordinate up to
all but its negative. -/
def Lossless (points : ProofPoints) (q : Coordinates) : Prop :=
  ∀ points' q', Reads reader points' q' → q'.InField →
    zkLoginCompleteLocalFinalize reader points' = zkLoginCompleteLocalFinalize reader points →
    q'.ax = q.ax ∧ q'.bx = q.bx ∧ q'.cx = q.cx ∧
      (q'.ay = neg q.ay → q'.ay = q.ay) ∧ (q'.by' = neg₂ q.by' → q'.by' = q.by') ∧
      (q'.cy = neg q.cy → q'.cy = q.cy)

end

/-! ## One coordinate -/

theorem toBigEndianFixedLen_eq (value len : ℕ) :
    toBigEndianFixedLen value len = Bytes.beBytes len value := by
  have hvalue := Bytes.lt_pow_length_toBytesBe value
  rw [toBigEndianFixedLen]
  have hbytes : BigUint.toBytesBe value =
      Bytes.beBytes (BigUint.toBytesBe value).length value := by
    rw [BigUint.toBytesBe, Bytes.length_beBytes]
  generalize (BigUint.toBytesBe value).length = width at hvalue hbytes ⊢
  rw [hbytes]
  split
  · rename_i hlong
    obtain ⟨extra, rfl⟩ := Nat.exists_eq_add_of_le hlong.le
    rw [Nat.add_comm len extra, Bytes.beBytes_add, Nat.add_sub_cancel]
    exact List.drop_left' (Bytes.length_beBytes _ _)
  · split
    · rename_i hshort
      obtain ⟨extra, rfl⟩ := Nat.exists_eq_add_of_le hshort.le
      rw [Nat.add_comm width extra, Bytes.beBytes_add, Nat.add_sub_cancel,
        Nat.div_eq_of_lt hvalue, Bytes.beBytes_zero]
    · congr 1
      omega

/-- The text of a coordinate with the sign of another. -/
def hexBlock (x y : ℕ) : String :=
  Bytes.hexEncode (setSign (y > zkpCurveP - y) (Bytes.beBytes 32 x)).reverse

@[simp] theorem length_setSign (larger : Bool) (bytes : Bytes) :
    (setSign larger bytes).length = bytes.length := by
  rw [setSign]
  split <;> exact List.length_modifyHead

@[simp] theorem length_hexBlock (x y : ℕ) : (hexBlock x y).length = 64 := by
  rw [hexBlock, Bytes.length_hexEncode, List.length_reverse, length_setSign, Bytes.length_beBytes]

/-- The first byte of a number that leaves the top bit free. -/
theorem toNat_setSign_head : ∀ h < 128, (UInt8.ofNat h ||| 0x80).toNat = h + 128 ∧
    (UInt8.ofNat h &&& 0x7f).toNat = h := by
  decide

theorem setSign_beBytes {x : ℕ} (hx : x < 2 ^ 255) (larger : Bool) :
    ∃ head : UInt8, head.toNat = x / 256 ^ 31 + (if larger then 128 else 0) ∧
      setSign larger (Bytes.beBytes 32 x) = head :: Bytes.beBytes 31 x := by
  have hsplit : Bytes.beBytes 32 x = UInt8.ofNat (x / 256 ^ 31) :: Bytes.beBytes 31 x :=
    Bytes.beBytes_add 1 31 x
  have hhead : x / 256 ^ 31 < 128 := by
    apply Nat.div_lt_of_lt_mul
    exact hx
  obtain ⟨hset, hclear⟩ := toNat_setSign_head _ hhead
  rw [hsplit, setSign]
  cases larger with
  | true => exact ⟨_, hset, rfl⟩
  | false => exact ⟨_, hclear, rfl⟩

/-- The text gives back the coordinate and the sign. -/
theorem hexBlock_injective {x x' y y' : ℕ} (hx : x < 2 ^ 255) (hx' : x' < 2 ^ 255)
    (h : hexBlock x y = hexBlock x' y') :
    x = x' ∧ (zkpCurveP - y < y ↔ zkpCurveP - y' < y') := by
  obtain ⟨head, hhead, hset⟩ := setSign_beBytes hx (y > zkpCurveP - y)
  obtain ⟨head', hhead', hset'⟩ := setSign_beBytes hx' (y' > zkpCurveP - y')
  have hbytes := List.reverse_injective (Bytes.hexEncode_injective h)
  rw [hset, hset'] at hbytes
  obtain ⟨rfl, htail⟩ := List.cons.inj hbytes
  have hfirst : x / 256 ^ 31 < 128 := Nat.div_lt_of_lt_mul hx
  have hfirst' : x' / 256 ^ 31 < 128 := Nat.div_lt_of_lt_mul hx'
  have hsum := hhead.symm.trans hhead'
  have hsame : x / 256 ^ 31 = x' / 256 ^ 31 ∧ (zkpCurveP - y < y ↔ zkpCurveP - y' < y') := by
    by_cases hy : y > zkpCurveP - y <;> by_cases hy' : y' > zkpCurveP - y' <;>
      simp only [hy, hy', decide_true, decide_false, if_true, Bool.false_eq_true, if_false] at hsum
    · exact ⟨by omega, iff_of_true hy hy'⟩
    · omega
    · omega
    · exact ⟨hsum, iff_of_false hy hy'⟩
  refine ⟨?_, hsame.2⟩
  have hbe : Bytes.beBytes 32 x = Bytes.beBytes 32 x' := by
    rw [show 32 = 1 + 31 from rfl, Bytes.beBytes_add 1 31 x, Bytes.beBytes_add 1 31 x', hsame.1,
      htail]
  have hlt : (2 : ℕ) ^ 255 ≤ 256 ^ 32 := by norm_num
  rw [← Bytes.ofBeBytes_beBytes_of_lt (hx.trans_le hlt), hbe,
    Bytes.ofBeBytes_beBytes_of_lt (hx'.trans_le hlt)]

/-! ## The steps of the program -/

section

variable {reader : DecimalReader}

theorem parseBiguintDecimal_eq_ok_iff {value : String} {n : ℕ} :
    parseBiguintDecimal reader value = .ok n ↔ reader.parseBytes value = some n := by
  rw [parseBiguintDecimal]
  cases reader.parseBytes value <;> simp

theorem negate_eq_ok_iff {y n : ℕ} :
    negate y = .ok n ↔ y ≤ zkpCurveP ∧ n = zkpCurveP - y := by
  rw [negate]
  split <;> simp_all [eq_comm]

theorem prepareHexRepresentation_eq_ok_iff {initX : String} {y : ℕ} {hex : String} :
    prepareHexRepresentation reader initX y = .ok hex ↔
      ∃ x, reader.parseBytes initX = some x ∧ y ≤ zkpCurveP ∧ hex = hexBlock x y := by
  simp only [prepareHexRepresentation, bind_eq_ok_iff, parseBiguintDecimal_eq_ok_iff,
    negate_eq_ok_iff, toBigEndianFixedLen_eq, pure, Except.pure, Except.ok.injEq]
  constructor
  · rintro ⟨x, hx, negY, ⟨hy, rfl⟩, rfl⟩
    exact ⟨x, hx, hy, rfl⟩
  · rintro ⟨x, hx, hy, rfl⟩
    exact ⟨x, hx, _, ⟨hy, rfl⟩, rfl⟩

/-- The compressed text of coordinates. -/
def Coordinates.text (q : Coordinates) : String :=
  hexBlock q.ax q.ay ++ hexBlock q.bx.1 0 ++ hexBlock q.bx.2 q.by'.2 ++ hexBlock q.cx q.cy

/-- No y coordinate that is negated is above the modulus. -/
structure Coordinates.Negatable (q : Coordinates) : Prop where
  ay : q.ay ≤ zkpCurveP
  by₁ : q.by'.2 ≤ zkpCurveP
  cy : q.cy ≤ zkpCurveP

theorem zkLoginCompleteLocalFinalize_eq_ok_iff {points : ProofPoints}
    {result : ZkLoginCompleteLocalFinalizeResult} :
    zkLoginCompleteLocalFinalize reader points = .ok result ↔
      ∃ q, ReadsUsed reader points q ∧ q.Negatable ∧ result = ⟨q.text⟩ := by
  simp only [zkLoginCompleteLocalFinalize, prepareCompressedProof, bind_eq_ok_iff,
    parseBiguintDecimal_eq_ok_iff, prepareHexRepresentation_eq_ok_iff, pure, Except.pure,
    Except.ok.injEq]
  constructor
  · rintro ⟨_, ⟨ay, hay, by₁, hby₁, cy, hcy, _, ⟨ax, hax, hay', rfl⟩, _, ⟨bx₀, hbx₀, -, rfl⟩, _,
      ⟨bx₁, hbx₁, hby₁', rfl⟩, _, ⟨cx, hcx, hcy', rfl⟩, rfl⟩, rfl⟩
    exact ⟨⟨ax, ay, (bx₀, bx₁), (0, by₁), cx, cy⟩, ⟨hax, hay, hbx₀, hbx₁, hby₁, hcx, hcy⟩,
      ⟨hay', hby₁', hcy'⟩, rfl⟩
  · rintro ⟨q, hreads, hneg, rfl⟩
    exact ⟨_, ⟨_, hreads.ay, _, hreads.by₁, _, hreads.cy, _, ⟨_, hreads.ax, hneg.ay, rfl⟩, _,
      ⟨_, hreads.bx₀, Nat.zero_le _, rfl⟩, _, ⟨_, hreads.bx₁, hneg.by₁, rfl⟩, _,
      ⟨_, hreads.cx, hneg.cy, rfl⟩, rfl⟩, rfl⟩

/-! ## Errors of the steps -/

/-- The computation ends with an error, and not in a panic. -/
def Errs {α : Type} (x : Except Failure α) : Prop := ∃ e, x = .error (.error e)

theorem errs_bind_iff {α β : Type} {x : Except Failure α} {f : α → Except Failure β} :
    Errs (x >>= f) ↔ Errs x ∨ ∃ a, x = .ok a ∧ Errs (f a) := by
  cases x <;> simp [Errs]

theorem errs_parseBiguintDecimal_iff {value : String} :
    Errs (parseBiguintDecimal reader value) ↔ Unread reader value := by
  rw [parseBiguintDecimal, Unread]
  cases reader.parseBytes value <;> simp [Errs]

theorem errs_prepareHexRepresentation_iff {initX : String} {y : ℕ} :
    Errs (prepareHexRepresentation reader initX y) ↔ Unread reader initX := by
  rw [prepareHexRepresentation, errs_bind_iff, errs_parseBiguintDecimal_iff]
  refine or_iff_left ?_
  rintro ⟨x, -, herrs⟩
  obtain ⟨e, he⟩ := herrs
  dsimp only at he
  rw [negate] at he
  split at he <;> cases he

/-- The call ends with an error exactly if the proof is rejected. -/
theorem errs_zkLoginCompleteLocalFinalize_iff {points : ProofPoints} :
    Errs (zkLoginCompleteLocalFinalize reader points) ↔ Rejected reader points := by
  have hpure : ∀ {α : Type} (a : α), ¬Errs (pure a : Except Failure α) := by
    rintro α a ⟨e, ⟨⟩⟩
  have habove : ∀ {s : String} {n : ℕ}, reader.parseBytes s = some n →
      (¬Above reader s ↔ n ≤ zkpCurveP) := by
    intro s n hn
    simp [Above, hn]
  simp only [zkLoginCompleteLocalFinalize, prepareCompressedProof, errs_bind_iff, hpure,
    and_false, exists_false, or_false, errs_parseBiguintDecimal_iff,
    errs_prepareHexRepresentation_iff, parseBiguintDecimal_eq_ok_iff,
    prepareHexRepresentation_eq_ok_iff, Rejected]
  cases hay : reader.parseBytes (points.a 1) with
  | none => simp [Unread, hay]
  | some ay =>
      cases hby₁ : reader.parseBytes (points.b 1 1) with
      | none => simp [Unread, hay, hby₁]
      | some by₁ =>
          rw [habove hay, habove hby₁]
          cases hcy : reader.parseBytes (points.c 1) with
          | none => simp [Unread, hay, hby₁, hcy]
          | some cy =>
              cases hax : reader.parseBytes (points.a 0) with
              | none => simp [Unread, hay, hby₁, hcy, hax]
              | some ax =>
                  cases hbx₀ : reader.parseBytes (points.b 0 0) with
                  | none => simp [Unread, hay, hby₁, hcy, hax, hbx₀]
                  | some bx₀ =>
                      cases hbx₁ : reader.parseBytes (points.b 0 1) with
                      | none => simp [Unread, hay, hby₁, hcy, hax, hbx₀, hbx₁]
                      | some bx₁ => simp [Unread, hay, hby₁, hcy, hax, hbx₀, hbx₁]

/-! ## Arbitrary text -/

theorem isLowerHex_text {q : Coordinates} :
    q.text.length = 256 ∧ ∀ c ∈ q.text.toList, Bytes.isLowerHex c = true := by
  refine ⟨by simp [Coordinates.text], ?_⟩
  intro c hc
  simp only [Coordinates.text, String.toList_append, List.mem_append] at hc
  rcases hc with ((hc | hc) | hc) | hc <;> exact Bytes.isLowerHex_of_mem_hexEncode hc

/-- Coordinates in the field are compressed. -/
theorem exists_readsUsed (reader : DecimalReader) {points : ProofPoints}
    (h : ∀ s ∈ usedCoordinates points, IsCoordinate s) :
    ∃ q, ReadsUsed reader points q ∧ q.Negatable := by
  simp only [usedCoordinates, List.forall_mem_cons] at h
  obtain ⟨⟨ax, hax, -⟩, ⟨ay, hay, hay'⟩, ⟨bx₀, hbx₀, -⟩, ⟨bx₁, hbx₁, -⟩, ⟨by₁, hby₁, hby₁'⟩,
    ⟨cx, hcx, -⟩, ⟨cy, hcy, hcy'⟩, -⟩ := h
  refine ⟨⟨ax, ay, (bx₀, bx₁), (0, by₁), cx, cy⟩, ?_, hay'.le, hby₁'.le, hcy'.le⟩
  exact ⟨reader.parse_digits hax, reader.parse_digits hay, reader.parse_digits hbx₀,
    reader.parse_digits hbx₁, reader.parse_digits hby₁, reader.parse_digits hcx,
    reader.parse_digits hcy⟩

/-- The call is safe exactly on the proofs that it rejects and on those with
coordinates in the field. -/
theorem finalizesSafely_iff (reader : DecimalReader) (points : ProofPoints) :
    FinalizesSafely reader points ↔
      Rejected reader points ∨ ∀ s ∈ usedCoordinates points, IsCoordinate s := by
  constructor
  · intro hsafe
    by_cases hrejected : Rejected reader points
    · exact .inl hrejected
    · refine .inr fun s hs ↦ ?_
      by_contra hbad
      exact hrejected (errs_zkLoginCompleteLocalFinalize_iff.mp (hsafe.rejects ⟨s, hs, hbad⟩))
  · rintro (hrejected | hall)
    · obtain ⟨e, he⟩ := errs_zkLoginCompleteLocalFinalize_iff.mpr hrejected
      constructor
      · rw [he]
        simp
      · intro result hresult
        rw [he] at hresult
        cases hresult
      · exact fun _ ↦ ⟨e, he⟩
    · obtain ⟨q, hreads, hneg⟩ := exists_readsUsed reader hall
      have hok := zkLoginCompleteLocalFinalize_eq_ok_iff.mpr ⟨q, hreads, hneg, rfl⟩
      constructor
      · rw [hok]
        simp
      · intro result hresult
        rw [hok] at hresult
        obtain rfl := Except.ok.inj hresult
        exact isLowerHex_text
      · rintro ⟨s, hs, hbad⟩
        exact absurd (hall s hs) hbad

end

/-- Reads digits, and nothing else. -/
def exampleReader : DecimalReader where
  parseBytes s := Text.parseDigits s.toList
  parse_empty := by decide
  parse_digits h := h

/-- The known proof, with a y coordinate that is one above the modulus. -/
def aboveModulus : ProofPoints where
  a := !["123", "21888242871839275222246405745257275088696311157297823662689037894645226208584",
    "1"]
  b := ![!["789", "321"], !["654", "987"], !["1", "1"]]
  c := !["111", "222", "1"]

/-- The program panics. -/
theorem not_finalizesSafely : ¬FinalizesSafely exampleReader aboveModulus := by
  intro hsafe
  apply hsafe.total
  decide +kernel

/-! ## Coordinates in the field -/

theorem zkpCurveP_odd : zkpCurveP % 2 = 1 := by decide

theorem zkpCurveP_lt : zkpCurveP < 2 ^ 255 := by decide

theorem neg_of_pos {y : ℕ} (hpos : 0 < y) (hy : y < zkpCurveP) : neg y = zkpCurveP - y :=
  Nat.mod_eq_of_lt (Nat.sub_lt (hpos.trans hy) hpos)

theorem neg_zero : neg 0 = 0 := Nat.mod_self zkpCurveP

theorem neg_ne_self {y : ℕ} (hpos : 0 < y) (hy : y < zkpCurveP) : neg y ≠ y := by
  have hodd := zkpCurveP_odd
  rw [neg_of_pos hpos hy]
  omega

/-- The sign separates a coordinate from its negative. -/
theorem eq_of_sign {y y' : ℕ} (hy : y < zkpCurveP)
    (hsign : zkpCurveP - y' < y' ↔ zkpCurveP - y < y) (hneg : y' = neg y) : y' = y := by
  rcases Nat.eq_zero_or_pos y with rfl | hpos
  · exact hneg.trans neg_zero
  · have hodd := zkpCurveP_odd
    rw [neg_of_pos hpos hy] at hneg
    omega

theorem Coordinates.InField.negatable {q : Coordinates} (h : q.InField) : q.Negatable :=
  ⟨h.ay.le, h.by'.2.le, h.cy.le⟩

theorem blocks_of_text {q q' : Coordinates} (h : q'.text = q.text) :
    hexBlock q'.ax q'.ay = hexBlock q.ax q.ay ∧ hexBlock q'.bx.1 0 = hexBlock q.bx.1 0 ∧
      hexBlock q'.bx.2 q'.by'.2 = hexBlock q.bx.2 q.by'.2 ∧
      hexBlock q'.cx q'.cy = hexBlock q.cx q.cy := by
  have hlength : ∀ x y, (hexBlock x y).toList.length = 64 := fun x y ↦ by
    rw [String.length_toList, length_hexBlock]
  have hlist := congrArg String.toList h
  simp only [Coordinates.text, String.toList_append, List.append_assoc] at hlist
  obtain ⟨ha, hlist⟩ := List.append_inj hlist ((hlength _ _).trans (hlength _ _).symm)
  obtain ⟨hb₀, hlist⟩ := List.append_inj hlist ((hlength _ _).trans (hlength _ _).symm)
  obtain ⟨hb₁, hc⟩ := List.append_inj hlist ((hlength _ _).trans (hlength _ _).symm)
  exact ⟨String.toList_inj.mp ha, String.toList_inj.mp hb₀, String.toList_inj.mp hb₁,
    String.toList_inj.mp hc⟩

section

variable {reader : DecimalReader} {points : ProofPoints} {q : Coordinates}

theorem eq_text_of_reads (h : Reads reader points q) (hq : q.InField) :
    zkLoginCompleteLocalFinalize reader points = .ok ⟨q.text⟩ :=
  zkLoginCompleteLocalFinalize_eq_ok_iff.mpr ⟨q, h.toReadsUsed, hq.negatable, rfl⟩

/-- The proof with another text for the unused coordinate. -/
def withUnused (points : ProofPoints) (s : String) : ProofPoints :=
  { points with b := fun i j ↦ if i = 1 ∧ j = 0 then s else points.b i j }

theorem Reads.withUnused (h : Reads reader points q) (n : ℕ) :
    Reads reader (withUnused points (.ofList (Nat.toDigits 10 n)))
      { q with by' := (n, q.by'.2) } where
  ax := h.ax
  ay := h.ay
  bx₀ := h.bx₀
  bx₁ := h.bx₁
  by₁ := h.by₁
  cx := h.cx
  cy := h.cy
  by₀ := by
    apply reader.parse_digits
    change Text.parseDigits (String.ofList (Nat.toDigits 10 n)).toList = some n
    rw [String.toList_ofList, Text.parseDigits_toDigits]

/-- Compression is lossless exactly if the sign of the point in the extension is
carried by the component that is written, or there is no sign. -/
theorem lossless_iff (h : Reads reader points q) (hq : q.InField) :
    Lossless reader points q ↔ q.by'.2 ≠ 0 ∨ q.by'.1 = 0 := by
  constructor
  · intro hlossless
    by_contra hnot
    obtain ⟨hby₁, hby₀⟩ := not_or.mp hnot
    rw [not_not] at hby₁
    have hpos : 0 < q.by'.1 := Nat.pos_of_ne_zero hby₀
    have hq' : Coordinates.InField { q with by' := (neg q.by'.1, q.by'.2) } :=
      ⟨hq.ax, hq.ay, hq.bx, ⟨Nat.mod_lt _ (hpos.trans hq.by'.1), hq.by'.2⟩, hq.cx, hq.cy⟩
    have hsame : zkLoginCompleteLocalFinalize reader
        (ZkLogin.withUnused points (.ofList (Nat.toDigits 10 (neg q.by'.1)))) =
          zkLoginCompleteLocalFinalize reader points := by
      rw [eq_text_of_reads (h.withUnused _) hq', eq_text_of_reads h hq]
      rfl
    obtain ⟨-, -, -, -, hb, -⟩ := hlossless _ _ (h.withUnused _) hq' hsame
    have hneg : (neg q.by'.1, q.by'.2) = neg₂ q.by' := by rw [neg₂, hby₁, neg_zero]
    exact neg_ne_self hpos hq.by'.1 (congrArg Prod.fst (hb hneg))
  · rintro hcarried points' q' h' hq' hsame
    rw [eq_text_of_reads h' hq', eq_text_of_reads h hq] at hsame
    obtain ⟨ha, hb₀, hb₁, hc⟩ := blocks_of_text
      (congrArg ZkLoginCompleteLocalFinalizeResult.zkProofCompressed (Except.ok.inj hsame))
    have hlt : ∀ {x}, x < zkpCurveP → x < 2 ^ 255 := fun hx ↦ hx.trans zkpCurveP_lt
    obtain ⟨hax, hay⟩ := hexBlock_injective (hlt hq'.ax) (hlt hq.ax) ha
    obtain ⟨hbx₀, -⟩ := hexBlock_injective (hlt hq'.bx.1) (hlt hq.bx.1) hb₀
    obtain ⟨hbx₁, hby₁⟩ := hexBlock_injective (hlt hq'.bx.2) (hlt hq.bx.2) hb₁
    obtain ⟨hcx, hcy⟩ := hexBlock_injective (hlt hq'.cx) (hlt hq.cx) hc
    refine ⟨hax, Prod.ext hbx₀ hbx₁, hcx, eq_of_sign hq.ay hay, ?_, eq_of_sign hq.cy hcy⟩
    intro hneg
    have hneg₁ : q'.by'.2 = neg q.by'.2 := congrArg Prod.snd hneg
    have hsame₁ : q'.by'.2 = q.by'.2 := eq_of_sign hq.by'.2 hby₁ hneg₁
    rcases hcarried with hnonzero | hzero
    · have hpos : 0 < q.by'.2 := Nat.pos_of_ne_zero hnonzero
      exact absurd (hneg₁.symm.trans hsame₁) (neg_ne_self hpos hq.by'.2)
    · have hneg₀ : q'.by'.1 = neg q.by'.1 := congrArg Prod.fst hneg
      rw [hzero, neg_zero] at hneg₀
      exact Prod.ext (hneg₀.trans hzero.symm) hsame₁

end

def knownProof : ProofPoints where
  a := !["123", "456", "1"]
  b := ![!["789", "321"], !["654", "987"], !["1", "1"]]
  c := !["111", "222", "1"]

def knownCoordinates : Coordinates := ⟨123, 456, (789, 321), (654, 987), 111, 222⟩

theorem lossless_knownProof : Lossless exampleReader knownProof knownCoordinates := by
  refine (lossless_iff ⟨⟨?_, ?_, ?_, ?_, ?_, ?_, ?_⟩, ?_⟩ ⟨?_, ?_, ?_, ?_, ?_, ?_⟩).mpr
    (.inl (by decide)) <;> decide +kernel

/-- The known proof, with a y coordinate in the base field. -/
def baseFieldProof (by₀ : String) : ProofPoints where
  a := !["123", "456", "1"]
  b := ![!["789", "321"], ![by₀, "0"], !["1", "1"]]
  c := !["111", "222", "1"]

def baseFieldCoordinates (by₀ : ℕ) : Coordinates := ⟨123, 456, (789, 321), (by₀, 0), 111, 222⟩

/-- A point and its negative are compressed to the same text. -/
theorem not_lossless :
    ¬Lossless exampleReader (baseFieldProof "654") (baseFieldCoordinates 654) := by
  intro hlossless
  obtain ⟨-, -, -, -, hb, -⟩ := hlossless
    (baseFieldProof "21888242871839275222246405745257275088696311157297823662689037894645226207929")
    (baseFieldCoordinates (zkpCurveP - 654))
    ⟨⟨by decide +kernel, by decide +kernel, by decide +kernel, by decide +kernel,
      by decide +kernel, by decide +kernel, by decide +kernel⟩, by decide +kernel⟩
    ⟨by decide, by decide, by decide, by decide, by decide, by decide⟩ (by decide +kernel)
  have hsame := hb (by decide)
  revert hsame
  decide

end ZkLogin

end BeeEngine
