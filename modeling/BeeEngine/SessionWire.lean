import BeeEngine.Lib.Codec
import BeeEngine.Leaf

/-!
# The verify-session request

A request is a header of 72 bytes, with big-endian integers at fixed offsets,
followed by the serialised submits and proofs.  The miner writes the tail in
two pieces with `combineBytes`; the verifier reads it as one record.
-/

namespace BeeEngine

structure SessionSubmit where
  root : Bytes
  leavesCount : UInt64
  deriving DecidableEq, Repr

structure SessionProof where
  proof : Bytes
  leavesTree : List Bytes
  leavesData : List ComputedLeaf
  deriving DecidableEq, Repr

structure PartialVerifySession where
  easySubmitParams : SessionSubmit
  hardSubmitParams : SessionSubmit
  easyProofParams : SessionProof
  hardFirstProofParams : SessionProof
  hardRangeProofParams : SessionProof
  hardLastProofParams : SessionProof
  deriving DecidableEq, Repr

structure ParamsOfVerifySession where
  seed : String
  easyComplexity : UInt32
  easyIntervalStart : UInt64
  easyIntervalEnd : UInt64
  hardComplexity : UInt32
  hardIntervalStart : UInt64
  hardIntervalEnd : UInt64
  easySubmitParams : SessionSubmit
  hardSubmitParams : SessionSubmit
  easyProofParams : SessionProof
  hardFirstProofParams : SessionProof
  hardRangeProofParams : SessionProof
  hardLastProofParams : SessionProof
  deriving DecidableEq, Repr

/-! ## Serialisation of the records -/

namespace ComputedLeaf

def equivFields :
    BitVec 128 × UInt64 × String × UInt32 × UInt32 × UInt64 × UInt32 × Bytes ≃
      ComputedLeaf where
  toFun | (index, nonce, seed, x, y, timestamp, complexity, hash) =>
          ⟨index, nonce, seed, x, y, timestamp, complexity, hash⟩
  invFun l := (l.index, l.nonce, l.seed, l.x, l.y, l.timestamp, l.complexity, l.hash)
  left_inv _ := rfl
  right_inv _ := rfl

def codec : Codec ComputedLeaf :=
  (Codec.u128.prod <| Codec.u64.prod <| Codec.string.prod <| Codec.u32.prod <|
    Codec.u32.prod <| Codec.u64.prod <| Codec.u32.prod Codec.bytes).map equivFields

end ComputedLeaf

namespace SessionSubmit

def equivFields : Bytes × UInt64 ≃ SessionSubmit where
  toFun | (root, leavesCount) => ⟨root, leavesCount⟩
  invFun s := (s.root, s.leavesCount)
  left_inv _ := rfl
  right_inv _ := rfl

def codec : Codec SessionSubmit := (Codec.bytes.prod Codec.u64).map equivFields

end SessionSubmit

namespace SessionProof

def equivFields : Bytes × List Bytes × List ComputedLeaf ≃ SessionProof where
  toFun | (proof, leavesTree, leavesData) => ⟨proof, leavesTree, leavesData⟩
  invFun p := (p.proof, p.leavesTree, p.leavesData)
  left_inv _ := rfl
  right_inv _ := rfl

def codec : Codec SessionProof :=
  (Codec.bytes.prod <| (Codec.vec Codec.bytes).prod <| Codec.vec ComputedLeaf.codec).map
    equivFields

end SessionProof

namespace PartialVerifySession

def equivFields :
    SessionSubmit × SessionSubmit × SessionProof × SessionProof × SessionProof × SessionProof ≃
      PartialVerifySession where
  toFun | (easySubmit, hardSubmit, easy, hardFirst, hardRange, hardLast) =>
          ⟨easySubmit, hardSubmit, easy, hardFirst, hardRange, hardLast⟩
  invFun p := (p.easySubmitParams, p.hardSubmitParams, p.easyProofParams,
    p.hardFirstProofParams, p.hardRangeProofParams, p.hardLastProofParams)
  left_inv _ := rfl
  right_inv _ := rfl

def codec : Codec PartialVerifySession :=
  (SessionSubmit.codec.prod <| SessionSubmit.codec.prod <| SessionProof.codec.prod <|
    SessionProof.codec.prod <| SessionProof.codec.prod SessionProof.codec).map equivFields

end PartialVerifySession

/-- Concatenated serialisations of arguments of one type; the error is the
argument that cannot be serialised. -/
def combineBytes {α : Type*} (codec : Codec α) : List α → Except α Bytes
  | [] => .ok []
  | arg :: args =>
      if codec.fits arg then
        match combineBytes codec args with
        | .error e => .error e
        | .ok combined => .ok (codec.encode arg ++ combined)
      else .error arg

theorem combineBytes_eq_ok_iff {α : Type*} (codec : Codec α) (args : List α) (bs : Bytes) :
    combineBytes codec args = .ok bs ↔
      (∀ a ∈ args, codec.fits a) ∧ args.flatMap codec.encode = bs := by
  induction args generalizing bs with
  | nil => simp [combineBytes]
  | cons a args ih =>
      rw [combineBytes]
      by_cases ha : codec.fits a
      · rw [if_pos ha]
        cases hargs : combineBytes codec args with
        | error e =>
            have hnone := fun bs ↦ (ih bs).not.mp (by simp [hargs])
            simp only [reduceCtorEq, false_iff]
            rintro ⟨hfits, -⟩
            exact hnone _ ⟨fun b hb ↦ hfits b (List.mem_cons_of_mem a hb), rfl⟩
        | ok combined =>
            obtain ⟨hfits, rfl⟩ := (ih combined).mp hargs
            simp only [Except.ok.injEq, List.flatMap_cons]
            constructor
            · rintro rfl
              exact ⟨List.forall_mem_cons.mpr ⟨ha, hfits⟩, rfl⟩
            · exact fun h ↦ h.2
      · rw [if_neg ha]
        simp only [reduceCtorEq, false_iff]
        rintro ⟨hfits, -⟩
        exact ha (hfits a List.mem_cons_self)

/-! ## Reading a request -/

/-- The bytes `bytes[start..end]`. -/
def slice (bytes : Bytes) (start stop : ℕ) : Bytes := (bytes.drop start).take (stop - start)

def headerLen : ℕ := 72

def DecodeError.message : DecodeError → String
  | unexpectedLength => "Unexpected length of input"
  | invalidUtf8 => "invalid utf-8 sequence"
  | notAllBytesRead => "Not all bytes read"

def u32FromBeBytes (bs : Bytes) : UInt32 := UInt32.ofNat (Bytes.ofBeBytes bs)

def u64FromBeBytes (bs : Bytes) : UInt64 := UInt64.ofNat (Bytes.ofBeBytes bs)

namespace ParamsOfVerifySession

/-- Every slice of the header has the length its integer needs, so the
conversions to sized arrays cannot fail. -/
def tryFrom (bytes : Bytes) : Except String ParamsOfVerifySession :=
  if bytes.length < headerLen then
    .error ("Input too short: expected at least " ++ toString headerLen ++ " bytes, got " ++
      toString bytes.length)
  else
    match PartialVerifySession.codec.fromSlice (bytes.drop headerLen) with
    | .error e => .error ("Decode rest bytes (" ++ e.message ++ ")")
    | .ok rest => .ok
        { seed := "0x" ++ Bytes.hexEncode (slice bytes 0 32)
          easyComplexity := u32FromBeBytes (slice bytes 32 36)
          easyIntervalStart := u64FromBeBytes (slice bytes 36 44)
          easyIntervalEnd := u64FromBeBytes (slice bytes 44 52)
          hardComplexity := u32FromBeBytes (slice bytes 52 56)
          hardIntervalStart := u64FromBeBytes (slice bytes 56 64)
          hardIntervalEnd := u64FromBeBytes (slice bytes 64 72)
          easySubmitParams := rest.easySubmitParams
          hardSubmitParams := rest.hardSubmitParams
          easyProofParams := rest.easyProofParams
          hardFirstProofParams := rest.hardFirstProofParams
          hardRangeProofParams := rest.hardRangeProofParams
          hardLastProofParams := rest.hardLastProofParams }

end ParamsOfVerifySession

/-! ## Writing a request -/

/-- What a writer of requests starts from: the parameters, with the seed as
bytes. -/
structure VerifyRequest where
  seed : Bytes32
  easyComplexity : UInt32
  easyIntervalStart : UInt64
  easyIntervalEnd : UInt64
  hardComplexity : UInt32
  hardIntervalStart : UInt64
  hardIntervalEnd : UInt64
  rest : PartialVerifySession
  deriving DecidableEq, Repr

namespace VerifyRequest

def header (r : VerifyRequest) : Bytes :=
  r.seed.bytes ++ Bytes.beBytes 4 r.easyComplexity.toNat ++
    Bytes.beBytes 8 r.easyIntervalStart.toNat ++ Bytes.beBytes 8 r.easyIntervalEnd.toNat ++
    Bytes.beBytes 4 r.hardComplexity.toNat ++
    Bytes.beBytes 8 r.hardIntervalStart.toNat ++ Bytes.beBytes 8 r.hardIntervalEnd.toNat

def submits (r : VerifyRequest) : List SessionSubmit :=
  [r.rest.easySubmitParams, r.rest.hardSubmitParams]

def proofs (r : VerifyRequest) : List SessionProof :=
  [r.rest.easyProofParams, r.rest.hardFirstProofParams, r.rest.hardRangeProofParams,
    r.rest.hardLastProofParams]

/-- The request as a byte string, when both combined pieces serialise. -/
def encode (r : VerifyRequest) : Option Bytes :=
  match combineBytes SessionSubmit.codec r.submits, combineBytes SessionProof.codec r.proofs with
  | .ok submitBytes, .ok proofBytes => some (r.header ++ submitBytes ++ proofBytes)
  | _, _ => none

/-- What a reader should make of the request. -/
def params (r : VerifyRequest) : ParamsOfVerifySession where
  seed := "0x" ++ Bytes.hexEncode r.seed.bytes
  easyComplexity := r.easyComplexity
  easyIntervalStart := r.easyIntervalStart
  easyIntervalEnd := r.easyIntervalEnd
  hardComplexity := r.hardComplexity
  hardIntervalStart := r.hardIntervalStart
  hardIntervalEnd := r.hardIntervalEnd
  easySubmitParams := r.rest.easySubmitParams
  hardSubmitParams := r.rest.hardSubmitParams
  easyProofParams := r.rest.easyProofParams
  hardFirstProofParams := r.rest.hardFirstProofParams
  hardRangeProofParams := r.rest.hardRangeProofParams
  hardLastProofParams := r.rest.hardLastProofParams

end VerifyRequest

/-! ## Which requests can be written -/

def ComputedLeaf.Short (leaf : ComputedLeaf) : Prop :=
  (Bytes.utf8 leaf.seed).length < 2 ^ 32 ∧ leaf.hash.length < 2 ^ 32

def SessionSubmit.Short (submit : SessionSubmit) : Prop := submit.root.length < 2 ^ 32

def SessionProof.Short (p : SessionProof) : Prop :=
  p.proof.length < 2 ^ 32 ∧
    (p.leavesTree.length < 2 ^ 32 ∧ ∀ leaf ∈ p.leavesTree, leaf.length < 2 ^ 32) ∧
    p.leavesData.length < 2 ^ 32 ∧ ∀ leaf ∈ p.leavesData, leaf.Short

/-- Every vector and string of the request is shorter than `2 ^ 32`. -/
def PartialVerifySession.Short (p : PartialVerifySession) : Prop :=
  p.easySubmitParams.Short ∧ p.hardSubmitParams.Short ∧ p.easyProofParams.Short ∧
    p.hardFirstProofParams.Short ∧ p.hardRangeProofParams.Short ∧ p.hardLastProofParams.Short

theorem ComputedLeaf.fits_codec_iff (leaf : ComputedLeaf) :
    ComputedLeaf.codec.fits leaf ↔ leaf.Short := by
  simp [codec, equivFields, Codec.map, Codec.prod, Codec.string, Codec.u128, Codec.u64,
    Codec.u32, Codec.fixed, Short]

theorem SessionSubmit.fits_codec_iff (submit : SessionSubmit) :
    SessionSubmit.codec.fits submit ↔ submit.Short := by
  simp [codec, equivFields, Codec.map, Codec.prod, Codec.u64, Codec.fixed, Short]

theorem SessionProof.fits_codec_iff (p : SessionProof) :
    SessionProof.codec.fits p ↔ p.Short := by
  simp [codec, equivFields, Codec.map, Codec.prod, Codec.vec, Short,
    ComputedLeaf.fits_codec_iff]

theorem PartialVerifySession.fits_codec_iff (p : PartialVerifySession) :
    PartialVerifySession.codec.fits p ↔ p.Short := by
  simp [codec, equivFields, Codec.map, Codec.prod, Short, SessionSubmit.fits_codec_iff,
    SessionProof.fits_codec_iff]

namespace VerifyRequest

/-- The two combined pieces are the record that the reader expects. -/
theorem encode_eq_some_iff (r : VerifyRequest) (bs : Bytes) :
    r.encode = some bs ↔
      r.rest.Short ∧ r.header ++ PartialVerifySession.codec.encode r.rest = bs := by
  have hsubmits := combineBytes_eq_ok_iff SessionSubmit.codec r.submits
  have hproofs := combineBytes_eq_ok_iff SessionProof.codec r.proofs
  have hshort : r.rest.Short ↔
      (∀ a ∈ r.submits, SessionSubmit.codec.fits a) ∧ ∀ a ∈ r.proofs, SessionProof.codec.fits a := by
    simp [PartialVerifySession.Short, submits, proofs, SessionSubmit.fits_codec_iff,
      SessionProof.fits_codec_iff, and_assoc]
  have htail : r.submits.flatMap SessionSubmit.codec.encode ++
      r.proofs.flatMap SessionProof.codec.encode = PartialVerifySession.codec.encode r.rest := by
    simp [submits, proofs, PartialVerifySession.codec, PartialVerifySession.equivFields,
      Codec.map, Codec.prod]
  rw [hshort, ← htail, ← List.append_assoc, encode]
  cases hs : combineBytes SessionSubmit.codec r.submits with
  | error e =>
      have hno := (hsubmits (r.submits.flatMap SessionSubmit.codec.encode)).not.mp (by simp [hs])
      simp only [reduceCtorEq, false_iff]
      exact fun h ↦ hno ⟨h.1.1, rfl⟩
  | ok submitBytes =>
      cases hp : combineBytes SessionProof.codec r.proofs with
      | error e =>
          have hno := (hproofs (r.proofs.flatMap SessionProof.codec.encode)).not.mp (by simp [hp])
          simp only [reduceCtorEq, false_iff]
          exact fun h ↦ hno ⟨h.1.2, rfl⟩
      | ok proofBytes =>
          obtain ⟨hfits, rfl⟩ := (hsubmits submitBytes).mp hs
          obtain ⟨hfits', rfl⟩ := (hproofs proofBytes).mp hp
          simp only [Option.some.injEq]
          exact ⟨fun h ↦ ⟨⟨hfits, hfits'⟩, h⟩, fun h ↦ h.2⟩

end VerifyRequest

/-! ## Header fields -/

theorem u32FromBeBytes_beBytes (x : UInt32) : u32FromBeBytes (Bytes.beBytes 4 x.toNat) = x := by
  rw [u32FromBeBytes, Bytes.ofBeBytes_beBytes_of_lt x.toNat_lt]
  simp

theorem u64FromBeBytes_beBytes (x : UInt64) : u64FromBeBytes (Bytes.beBytes 8 x.toNat) = x := by
  rw [u64FromBeBytes, Bytes.ofBeBytes_beBytes_of_lt x.toNat_lt]
  simp

theorem beBytes_u32FromBeBytes {bs : Bytes} (h : bs.length = 4) :
    Bytes.beBytes 4 (u32FromBeBytes bs).toNat = bs := by
  have hlt := Bytes.ofBeBytes_lt bs
  have hback := Bytes.beBytes_ofBeBytes bs
  rw [h] at hlt hback
  have hval : (u32FromBeBytes bs).toNat = Bytes.ofBeBytes bs := Nat.mod_eq_of_lt hlt
  rw [hval, hback]

theorem beBytes_u64FromBeBytes {bs : Bytes} (h : bs.length = 8) :
    Bytes.beBytes 8 (u64FromBeBytes bs).toNat = bs := by
  have hlt := Bytes.ofBeBytes_lt bs
  have hback := Bytes.beBytes_ofBeBytes bs
  rw [h] at hlt hback
  have hval : (u64FromBeBytes bs).toNat = Bytes.ofBeBytes bs := Nat.mod_eq_of_lt hlt
  rw [hval, hback]

theorem length_slice {bs : Bytes} {a b : ℕ} (hb : b ≤ bs.length) :
    (slice bs a b).length = b - a := by
  rw [slice, List.length_take, List.length_drop]
  omega

theorem slice_append_slice (bs : Bytes) {a b c : ℕ} (hab : a ≤ b) (hbc : b ≤ c) :
    slice bs a b ++ slice bs b c = slice bs a c := by
  have hac : c - a = (b - a) + (c - b) := by omega
  have hdrop : bs.drop b = (bs.drop a).drop (b - a) := by
    rw [List.drop_drop, Nat.add_sub_cancel' hab]
  rw [slice, slice, slice, hdrop, hac, List.take_add]

theorem slice_append_right {front tail : Bytes} {a b : ℕ} (h : front.length ≤ a) :
    slice (front ++ tail) a b = slice tail (a - front.length) (b - front.length) := by
  have hwidth : b - front.length - (a - front.length) = b - a := by omega
  rw [slice, slice, List.drop_append, List.drop_eq_nil_of_le h, List.nil_append, hwidth]

theorem slice_append_left {front tail : Bytes} {b : ℕ} (h : front.length = b) :
    slice (front ++ tail) 0 b = front := by
  rw [slice, List.drop_zero, Nat.sub_zero, ← h, List.take_left]

namespace VerifyRequest

/-- The request that a byte string with a complete header stands for. -/
def ofBytes (bs : Bytes) (h : headerLen ≤ bs.length) (rest : PartialVerifySession) :
    VerifyRequest where
  seed := ⟨slice bs 0 32, length_slice (Nat.le_trans (by decide) h)⟩
  easyComplexity := u32FromBeBytes (slice bs 32 36)
  easyIntervalStart := u64FromBeBytes (slice bs 36 44)
  easyIntervalEnd := u64FromBeBytes (slice bs 44 52)
  hardComplexity := u32FromBeBytes (slice bs 52 56)
  hardIntervalStart := u64FromBeBytes (slice bs 56 64)
  hardIntervalEnd := u64FromBeBytes (slice bs 64 72)
  rest := rest

theorem header_ofBytes (bs : Bytes) (h : headerLen ≤ bs.length) (rest : PartialVerifySession) :
    (ofBytes bs h rest).header = bs.take headerLen := by
  have hlen : ∀ b ≤ headerLen, b ≤ bs.length := fun b hb ↦ Nat.le_trans hb h
  have h₁ := beBytes_u32FromBeBytes (length_slice (a := 32) (hlen 36 (by decide)))
  have h₂ := beBytes_u64FromBeBytes (length_slice (a := 36) (hlen 44 (by decide)))
  have h₃ := beBytes_u64FromBeBytes (length_slice (a := 44) (hlen 52 (by decide)))
  have h₄ := beBytes_u32FromBeBytes (length_slice (a := 52) (hlen 56 (by decide)))
  have h₅ := beBytes_u64FromBeBytes (length_slice (a := 56) (hlen 64 (by decide)))
  have h₆ := beBytes_u64FromBeBytes (length_slice (a := 64) (hlen 72 (by decide)))
  simp only [header, ofBytes, h₁, h₂, h₃, h₄, h₅, h₆]
  rw [slice_append_slice bs (by decide) (by decide), slice_append_slice bs (by decide) (by decide),
    slice_append_slice bs (by decide) (by decide), slice_append_slice bs (by decide) (by decide),
    slice_append_slice bs (by decide) (by decide), slice_append_slice bs (by decide) (by decide)]
  rfl

@[simp] theorem length_header (r : VerifyRequest) : r.header.length = headerLen := by
  simp [header, headerLen, r.seed.length_eq]

theorem le_length_header_append (r : VerifyRequest) (tail : Bytes) :
    headerLen ≤ (r.header ++ tail).length := by
  rw [List.length_append, length_header]
  exact Nat.le_add_right _ _

theorem ofBytes_header (r : VerifyRequest) (tail : Bytes) :
    ofBytes (r.header ++ tail) (r.le_length_header_append tail) r.rest = r := by
  have hseed := r.seed.length_eq
  cases r
  simp only [ofBytes, VerifyRequest.mk.injEq, header, List.append_assoc]
  refine ⟨Bytes32.bytes_injective ?_, ?_, ?_, ?_, ?_, ?_, ?_, trivial⟩
  · exact slice_append_left hseed
  all_goals
    simp only [slice_append_right, slice_append_left, hseed, Bytes.length_beBytes, Nat.reduceLeDiff,
      Nat.reduceSub, Nat.sub_self, Nat.le_refl, u32FromBeBytes_beBytes, u64FromBeBytes_beBytes]

end VerifyRequest

/-! ## The format is a bijection on its image -/

/-- Reading accepts exactly the byte strings that can be written. -/
theorem tryFrom_eq_ok_iff (bs : Bytes) (p : ParamsOfVerifySession) :
    ParamsOfVerifySession.tryFrom bs = .ok p ↔
      ∃ r : VerifyRequest, r.params = p ∧ r.encode = some bs := by
  constructor
  · intro h
    rw [ParamsOfVerifySession.tryFrom] at h
    split at h
    · cases h
    · rename_i hlong
      split at h
      · cases h
      · rename_i rest hrest
        have hlen : headerLen ≤ bs.length := Nat.le_of_not_lt hlong
        obtain ⟨hfits, htail⟩ := (PartialVerifySession.codec.fromSlice_eq_ok_iff _ _).mp hrest
        refine ⟨VerifyRequest.ofBytes bs hlen rest, Except.ok.inj h, ?_⟩
        rw [VerifyRequest.encode_eq_some_iff, VerifyRequest.header_ofBytes]
        refine ⟨(PartialVerifySession.fits_codec_iff rest).mp hfits, ?_⟩
        rw [show (VerifyRequest.ofBytes bs hlen rest).rest = rest from rfl, htail,
          List.take_append_drop]
  · rintro ⟨r, rfl, hencode⟩
    obtain ⟨hshort, rfl⟩ := (r.encode_eq_some_iff bs).mp hencode
    have hlong := r.le_length_header_append (PartialVerifySession.codec.encode r.rest)
    have hrest : PartialVerifySession.codec.fromSlice
        (PartialVerifySession.codec.encode r.rest) = .ok r.rest :=
      (PartialVerifySession.codec.fromSlice_eq_ok_iff _ _).mpr
        ⟨(PartialVerifySession.fits_codec_iff r.rest).mpr hshort, rfl⟩
    have hparams := congrArg VerifyRequest.params
      (r.ofBytes_header (PartialVerifySession.codec.encode r.rest))
    rw [ParamsOfVerifySession.tryFrom, if_neg (Nat.not_lt.mpr hlong),
      List.drop_left' r.length_header, hrest, ← hparams]
    rfl

theorem VerifyRequest.params_injective {r r' : VerifyRequest} (h : r.params = r'.params) :
    r = r' := by
  have hseed : r.seed = r'.seed := by
    apply Bytes32.bytes_injective
    apply Bytes.hexEncode_injective
    exact String.append_right_inj "0x" |>.mp (congrArg ParamsOfVerifySession.seed h)
  obtain ⟨seed, ec, es, ee, hc, hs, he, rest⟩ := r
  obtain ⟨seed', ec', es', ee', hc', hs', he', rest'⟩ := r'
  obtain ⟨p, q, a, b, c, d⟩ := rest
  obtain ⟨p', q', a', b', c', d'⟩ := rest'
  simp only [params, ParamsOfVerifySession.mk.injEq] at h
  obtain ⟨-, rfl, rfl, rfl, rfl, rfl, rfl, rfl, rfl, rfl, rfl, rfl, rfl⟩ := h
  obtain rfl : seed = seed' := hseed
  rfl

/-- The verify-session format is a bijection: every request whose vectors are
shorter than `2 ^ 32` is written and read back, every byte string that is read
is the one encoding of what was read, and no two byte strings are read as the
same parameters. -/
theorem verifySession_wire_bijection :
    (∀ r : VerifyRequest, r.rest.Short →
      ∃ bs, r.encode = some bs ∧ ParamsOfVerifySession.tryFrom bs = .ok r.params) ∧
    (∀ bs p, ParamsOfVerifySession.tryFrom bs = .ok p →
      ∃ r : VerifyRequest, r.params = p ∧ r.rest.Short ∧ r.encode = some bs) ∧
    (∀ bs bs' p, ParamsOfVerifySession.tryFrom bs = .ok p →
      ParamsOfVerifySession.tryFrom bs' = .ok p → bs = bs') := by
  refine ⟨?_, ?_, ?_⟩
  · intro r hshort
    have hencode := (r.encode_eq_some_iff _).mpr ⟨hshort, rfl⟩
    exact ⟨_, hencode, (tryFrom_eq_ok_iff _ _).mpr ⟨r, rfl, hencode⟩⟩
  · intro bs p h
    obtain ⟨r, hparams, hencode⟩ := (tryFrom_eq_ok_iff bs p).mp h
    exact ⟨r, hparams, ((r.encode_eq_some_iff bs).mp hencode).1, hencode⟩
  · intro bs bs' p h h'
    obtain ⟨r, rfl, hencode⟩ := (tryFrom_eq_ok_iff bs p).mp h
    obtain ⟨r', hparams, hencode'⟩ := (tryFrom_eq_ok_iff bs' r.params).mp h'
    obtain rfl := VerifyRequest.params_injective hparams
    rw [hencode] at hencode'
    exact Option.some.inj hencode'

end BeeEngine
