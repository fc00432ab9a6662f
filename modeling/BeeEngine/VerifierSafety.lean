import BeeEngine.VerifierSoundness

/-!
# Exact arithmetic in the verifier

The numbers of a request are used in subtractions and conversions before the
results of the checks are combined.  The requests for which all of this is
exact are characterised by the order in which the program reads them: a proof
that cannot be read ends the program early.
-/

namespace BeeEngine

open Outcome

/-- The program stops without a response. -/
def Stop.IsTrap : Stop → Prop
  | .trap _ => True
  | .error _ => False

@[simp] theorem Stop.isTrap_trap (t : Trap) : (Stop.trap t).IsTrap := trivial

@[simp] theorem Stop.not_isTrap_error (e : LibError) : ¬(Stop.error e).IsTrap := id

/-! ## One check -/

namespace Check

variable (M : RsMerkle) (blake3 : Bytes → Bytes32) (c : Check)

/-- The numbers of the check are machine words and its interval can be
collected. -/
def InRange : Prop := c.Narrow ∧ c.Collectable

def Malformed : Prop := c.paramsOfValidateProof.Malformed M

theorem avoids_body_iff : Avoids Stop.IsTrap (c.body M blake3) ↔ c.Collectable := by
  rw [body]
  by_cases h : c.Collectable
  · rw [if_pos h]
    refine iff_of_true ?_ h
    cases validateProof M c.paramsOfValidateProof with
    | error e => exact avoids_error_iff.mpr (Stop.not_isTrap_error e)
    | ok v => exact avoids_ok _
  · rw [if_neg h, avoids_error_iff]
    exact iff_of_false (not_not_intro (Stop.isTrap_trap _)) h

theorem body_isOk_iff :
    (∃ v, c.body M blake3 = .ok v) ↔ c.Collectable ∧ ¬c.Malformed M := by
  rw [Malformed, ← validateProof_isOk_iff, body]
  by_cases h : c.Collectable
  · rw [if_pos h]
    cases validateProof M c.paramsOfValidateProof with
    | error e => simp [VerifierGuest.fail, Except.mapError, Except.map]
    | ok v => simp [VerifierGuest.fail, Except.mapError, Except.map, h]
  · simp [h]

theorem follows_run :
    Follows Stop.IsTrap (c.run M blake3 .exact) (c.run M blake3 .wrapping) := by
  rw [run_wrapping, run_exact]
  by_cases h : c.Narrow
  · rw [if_pos h]
    exact follows_refl _
  · rw [if_neg h]
    intro hsafe
    exact absurd (Stop.isTrap_trap _) (avoids_error_iff.mp hsafe)

/-- A check, followed by a program that is safe under a condition that does not
depend on the result of the check. -/
theorem avoids_run_bind_iff {β : Type} {f : Bool → Except Stop β} {safe : Prop}
    (hf : ∀ v, Avoids Stop.IsTrap (f v) ↔ safe) :
    Avoids Stop.IsTrap (c.run M blake3 .exact >>= f) ↔
      c.InRange ∧ (c.Malformed M ∨ safe) := by
  rw [avoids_bind_iff, run_exact, InRange]
  by_cases hnarrow : c.Narrow
  · simp only [hnarrow, if_true, avoids_body_iff, true_and, hf]
    have hok := body_isOk_iff M blake3 c
    constructor
    · rintro ⟨hcollect, hsafe⟩
      refine ⟨hcollect, ?_⟩
      by_cases hbad : c.Malformed M
      · exact Or.inl hbad
      · obtain ⟨v, hv⟩ := hok.mpr ⟨hcollect, hbad⟩
        exact Or.inr (hsafe v hv)
    · rintro ⟨hcollect, hbad | hsafe⟩
      · exact ⟨hcollect, fun v hv ↦ absurd hbad (hok.mp ⟨v, hv⟩).2⟩
      · exact ⟨hcollect, fun _ _ ↦ hsafe⟩
  · simp [hnarrow, avoids_error_iff]

end Check

/-! ## The whole program -/

theorem VerifierGuest.require_eq_ok_iff {code : LibErrorCode} {value : Option ComputedLeaf}
    {leaf : ComputedLeaf} : require code value = .ok leaf ↔ value = some leaf := by
  cases value with
  | none => simp [require]
  | some leaf' => simp [require]

theorem avoids_guard_bind_iff {α β : Type} {fits : Prop} [Decidable fits] {value : α}
    {f : α → Except Stop β} :
    Avoids Stop.IsTrap (Arith.exact.guard fits value >>= f) ↔
      fits ∧ Avoids Stop.IsTrap (f value) := by
  rw [Arith.guard_exact]
  by_cases h : fits
  · simp [h]
  · simp [h, avoids_error_iff]

theorem follows_guard {α : Type} (fits : Prop) [Decidable fits] (value : α) :
    Follows Stop.IsTrap (Arith.exact.guard fits value) (Arith.wrapping.guard fits value) := by
  rw [Arith.guard_exact, Arith.guard_wrapping]
  by_cases h : fits
  · rw [if_pos h]
    exact follows_refl _
  · rw [if_neg h]
    intro hsafe
    exact absurd (Stop.isTrap_trap _) (avoids_error_iff.mp hsafe)

namespace ParamsOfVerifySession

variable (M : RsMerkle) (p : ParamsOfVerifySession)

/-- The time between the first and the last hard leaf, if both exist, is not
negative and at most `2 ^ 32 - 1` blocks. -/
def BlocksInRange : Prop :=
  ∀ first last, p.hardFirstProofParams.leavesData.head? = some first →
    p.hardLastProofParams.leavesData.getLast? = some last →
    first.timestamp.toNat ≤ last.timestamp.toNat ∧
      (last.timestamp.toNat - first.timestamp.toNat) / 330 < 2 ^ 32

/-- The numbers of the request are in range as far as the program reads them. -/
def InRange : Prop :=
  p.easyCheck.InRange ∧ (p.easyCheck.Malformed M ∨
    p.hardFirstCheck.InRange ∧ (p.hardFirstCheck.Malformed M ∨
      p.hardRangeCheck.InRange ∧ (p.hardRangeCheck.Malformed M ∨
        1 ≤ p.hardSubmitParams.leavesCount.toNat ∧
          p.hardLastCheck.InRange ∧ (p.hardLastCheck.Malformed M ∨ p.BlocksInRange))))

/-- The time between two leaves in blocks, when it is exact. -/
theorem toNat_elapsed {first last : UInt64} (h : first.toNat ≤ last.toNat) :
    ((last - first) / 330).toNat = (last.toNat - first.toNat) / 330 := by
  rw [UInt64.toNat_div, UInt64.toNat_sub_of_le _ _ (UInt64.le_iff_toNat_le.mpr h)]
  rfl

theorem avoids_hardComputationBlocks_iff :
    Avoids Stop.IsTrap (VerifierGuest.hardComputationBlocks .exact p) ↔ p.BlocksInRange := by
  rw [VerifierGuest.hardComputationBlocks, BlocksInRange]
  cases p.hardFirstProofParams.leavesData.head? with
  | none => simp [VerifierGuest.require, avoids_error_iff]
  | some first =>
      cases p.hardLastProofParams.leavesData.getLast? with
      | none => simp [VerifierGuest.require, avoids_error_iff]
      | some last =>
          rw [VerifierGuest.require, VerifierGuest.require, ok_bind, ok_bind, Arith.sub,
            avoids_guard_bind_iff, Arith.u32, Arith.guard_exact]
          have hblocks : first.timestamp.toNat ≤ last.timestamp.toNat ∧
              Avoids Stop.IsTrap (if ((last.timestamp - first.timestamp) / 330).toNat < 2 ^ 32
                then Except.ok ((last.timestamp - first.timestamp) / 330).toUInt32
                else .error (.trap .inexact)) ↔
              first.timestamp.toNat ≤ last.timestamp.toNat ∧
                (last.timestamp.toNat - first.timestamp.toNat) / 330 < 2 ^ 32 := by
            refine and_congr_right fun hle ↦ ?_
            rw [toNat_elapsed hle]
            by_cases hfits : (last.timestamp.toNat - first.timestamp.toNat) / 330 < 2 ^ 32
            · rw [if_pos hfits]
              exact iff_of_true (avoids_ok _) hfits
            · rw [if_neg hfits, avoids_error_iff]
              exact iff_of_false (not_not_intro (Stop.isTrap_trap _)) hfits
          rw [hblocks]
          constructor
          · rintro h _ _ ⟨⟩ ⟨⟩
            exact h
          · intro h
            exact h first last rfl rfl

/-- A number of blocks that is computed exactly. -/
theorem hardComputationBlocks_exact_eq_ok {blocks : UInt32}
    (h : VerifierGuest.hardComputationBlocks .exact p = .ok blocks) :
    ∃ first last, p.hardFirstProofParams.leavesData.head? = some first ∧
      p.hardLastProofParams.leavesData.getLast? = some last ∧
      first.timestamp.toNat ≤ last.timestamp.toNat ∧
      blocks.toNat = (last.timestamp.toNat - first.timestamp.toNat) / 330 := by
  have hrange := p.avoids_hardComputationBlocks_iff.mp (by rw [h]; exact avoids_ok _)
  rw [VerifierGuest.hardComputationBlocks] at h
  obtain ⟨first, hfirst, h⟩ := bind_eq_ok_iff.mp h
  obtain ⟨last, hlast, h⟩ := bind_eq_ok_iff.mp h
  replace hfirst := VerifierGuest.require_eq_ok_iff.mp hfirst
  replace hlast := VerifierGuest.require_eq_ok_iff.mp hlast
  obtain ⟨hle, hfits⟩ := hrange first last hfirst hlast
  rw [Arith.sub, Arith.guard_exact, if_pos hle, ok_bind, Arith.u32, Arith.guard_exact,
    toNat_elapsed hle, if_pos hfits] at h
  refine ⟨first, last, hfirst, hlast, hle, ?_⟩
  rw [← Except.ok.inj h, UInt64.toNat_toUInt32, toNat_elapsed hle, Nat.mod_eq_of_lt hfits]

end ParamsOfVerifySession

namespace VerifierGuest

variable (M : RsMerkle) (blake3 : Bytes → Bytes32)

/-- The program is safe exactly when the numbers are in range. -/
theorem avoids_verifyParams_iff (p : ParamsOfVerifySession) :
    Avoids Stop.IsTrap (verifyParams M blake3 .exact p) ↔ p.InRange M := by
  have hblocks : ∀ valid : Bool, Avoids Stop.IsTrap (do
      let blocks ← hardComputationBlocks .exact p
      return 1 :: boolByte valid :: Bytes.leBytes 4 blocks.toNat) ↔ p.BlocksInRange := by
    intro valid
    rw [avoids_bind_iff, p.avoids_hardComputationBlocks_iff]
    exact and_iff_left fun a _ ↦ avoids_ok _
  rw [verifyParams_eq, ParamsOfVerifySession.InRange]
  refine Check.avoids_run_bind_iff M blake3 _ fun easyValid ↦ ?_
  refine Check.avoids_run_bind_iff M blake3 _ fun hardFirstValid ↦ ?_
  refine Check.avoids_run_bind_iff M blake3 _ fun hardRangeValid ↦ ?_
  rw [Arith.sub, avoids_guard_bind_iff]
  refine and_congr_right fun _ ↦ ?_
  refine Check.avoids_run_bind_iff M blake3 _ fun hardLastValid ↦ ?_
  exact hblocks _

theorem follows_verifyParams (p : ParamsOfVerifySession) :
    Follows Stop.IsTrap (verifyParams M blake3 .exact p) (verifyParams M blake3 .wrapping p) := by
  have hblocks : Follows Stop.IsTrap (hardComputationBlocks .exact p)
      (hardComputationBlocks .wrapping p) := by
    rw [hardComputationBlocks, hardComputationBlocks]
    refine follows_bind (follows_refl _) fun first ↦ ?_
    refine follows_bind (follows_refl _) fun last ↦ ?_
    refine follows_bind (follows_guard _ _) fun elapsed ↦ ?_
    exact follows_guard _ _
  rw [verifyParams_eq, verifyParams_eq]
  refine follows_bind (Check.follows_run M blake3 _) fun easyValid ↦ ?_
  refine follows_bind (Check.follows_run M blake3 _) fun hardFirstValid ↦ ?_
  refine follows_bind (Check.follows_run M blake3 _) fun hardRangeValid ↦ ?_
  refine follows_bind (follows_guard _ _) fun lastIndex ↦ ?_
  refine follows_bind (Check.follows_run M blake3 _) fun hardLastValid ↦ ?_
  exact follows_bind hblocks fun blocks ↦ follows_refl _

/-- A result that is computed exactly. -/
theorem verifyParams_exact_eq_ok {p : ParamsOfVerifySession} {response : Bytes}
    (h : verifyParams M blake3 .exact p = .ok response) :
    ∃ valid blocks, hardComputationBlocks .exact p = .ok blocks ∧
      response = 1 :: boolByte valid :: Bytes.leBytes 4 blocks.toNat := by
  rw [verifyParams_eq] at h
  obtain ⟨easyValid, -, h⟩ := bind_eq_ok_iff.mp h
  obtain ⟨hardFirstValid, -, h⟩ := bind_eq_ok_iff.mp h
  obtain ⟨hardRangeValid, -, h⟩ := bind_eq_ok_iff.mp h
  obtain ⟨lastIndex, -, h⟩ := bind_eq_ok_iff.mp h
  obtain ⟨hardLastValid, -, h⟩ := bind_eq_ok_iff.mp h
  obtain ⟨blocks, hblocks, h⟩ := bind_eq_ok_iff.mp h
  exact ⟨_, blocks, hblocks, (Except.ok.inj h).symm⟩

theorem respond_isOk_iff (x : Except Stop Bytes) :
    (∃ response, respond x = .ok response) ↔ Avoids Stop.IsTrap x := by
  match x with
  | .ok result => exact iff_of_true ⟨result, rfl⟩ (avoids_ok _)
  | .error (.error e) =>
      exact iff_of_true ⟨_, rfl⟩ (avoids_error_iff.mpr (Stop.not_isTrap_error e))
  | .error (.trap t) =>
      refine iff_of_false ?_ fun h ↦ avoids_error_iff.mp h (Stop.isTrap_trap t)
      rintro ⟨_, ⟨⟩⟩

end VerifierGuest

/-! ## Safe verification -/

/-- Every operation on the request is exact, a response is produced, and it is
an error response or carries the exact number of blocks. -/
def VerifiesSafely (M : RsMerkle) (blake3 : Bytes → Bytes32) (req : Bytes) : Prop :=
  ∃ response, VerifierGuest.verify M blake3 .exact req = .ok response ∧
    VerifierGuest.verify M blake3 .wrapping req = .ok response ∧
    (response.head? = some 0 ∨
      ∃ p first last valid, ParamsOfVerifySession.tryFrom req = .ok p ∧
        p.hardFirstProofParams.leavesData.head? = some first ∧
        p.hardLastProofParams.leavesData.getLast? = some last ∧
        first.timestamp.toNat ≤ last.timestamp.toNat ∧
        (last.timestamp.toNat - first.timestamp.toNat) / 330 < 2 ^ 32 ∧
        response = 1 :: VerifierGuest.boolByte valid ::
          Bytes.leBytes 4 ((last.timestamp.toNat - first.timestamp.toNat) / 330))

theorem verify_exact_isOk_iff (M : RsMerkle) (blake3 : Bytes → Bytes32) (req : Bytes) :
    (∃ response, VerifierGuest.verify M blake3 .exact req = .ok response) ↔
      ∀ p, ParamsOfVerifySession.tryFrom req = .ok p → p.InRange M := by
  rw [VerifierGuest.verify]
  cases ParamsOfVerifySession.tryFrom req with
  | error e =>
      refine iff_of_true ⟨_, rfl⟩ ?_
      rintro p ⟨⟩
  | ok p =>
      rw [VerifierGuest.respond_isOk_iff, VerifierGuest.avoids_verifyParams_iff]
      simp only [Except.ok.injEq, forall_eq']

/-- A request whose last hard leaf is older than its first: the work of 100000
blocks is answered with a number of blocks that wrapped around. -/
theorem not_verifiesSafely :
    ∃ req, (forgedRequest lateLeaf earlyLeaf).encode = some req ∧
      VerifierGuest.verify (RsMerkle.reference Blake3.hash) Blake3.hash .wrapping req =
        .ok [1, 1, 248, 63, 127, 105] ∧
      ¬VerifiesSafely (RsMerkle.reference Blake3.hash) Blake3.hash req := by
  obtain ⟨req, hreq⟩ := forgedRequest_encodes lateLeaf earlyLeaf (by decide +kernel)
  refine ⟨req, hreq, forgedRequest_accepted hreq forgedWork_lateLeaf forgedWork_earlyLeaf, ?_⟩
  rintro ⟨response, hexact, -⟩
  have hread := (tryFrom_eq_ok_iff req _).mpr ⟨_, rfl, hreq⟩
  have hrange := (verify_exact_isOk_iff _ _ req).mp ⟨response, hexact⟩ _ hread
  -- No proof of the request is malformed, so all numbers are read.
  have hempty : ∀ c ∈ (forgedRequest lateLeaf earlyLeaf).params.checks,
      ¬c.Malformed (RsMerkle.reference Blake3.hash) := by
    intro c hc hbad
    simp only [ParamsOfVerifySession.checks, List.mem_cons, List.not_mem_nil, or_false] at hc
    rcases hc with rfl | rfl | rfl | rfl <;> exact hbad.1 rfl
  simp only [ParamsOfVerifySession.checks, List.forall_mem_cons] at hempty
  obtain ⟨heasy, hfirst, hrange', hlast, -⟩ := hempty
  have hblocks := (((hrange.2.resolve_left heasy).2.resolve_left hfirst).2.resolve_left
    hrange').2.2.resolve_left hlast
  exact absurd (hblocks lateLeaf earlyLeaf rfl rfl).1 (by decide)

/-- Verification is safe exactly for the requests whose numbers are in range
as far as the program reads them. -/
theorem verifiesSafely_iff (M : RsMerkle) (blake3 : Bytes → Bytes32) (req : Bytes) :
    VerifiesSafely M blake3 req ↔
      ∀ p, ParamsOfVerifySession.tryFrom req = .ok p → p.InRange M := by
  rw [← verify_exact_isOk_iff M blake3]
  constructor
  · rintro ⟨response, hexact, -⟩
    exact ⟨response, hexact⟩
  · rintro ⟨response, hexact⟩
    refine ⟨response, hexact, ?_⟩
    rw [VerifierGuest.verify] at hexact ⊢
    cases hread : ParamsOfVerifySession.tryFrom req with
    | error e =>
        rw [hread] at hexact
        rw [← Except.ok.inj hexact]
        exact ⟨rfl, Or.inl rfl⟩
    | ok p =>
        simp only [hread] at hexact
        have hsafe := (VerifierGuest.respond_isOk_iff _).mp ⟨response, hexact⟩
        have hsame := VerifierGuest.follows_verifyParams M blake3 p hsafe
        simp only [hsame]
        refine ⟨hexact, ?_⟩
        cases hrun : VerifierGuest.verifyParams M blake3 .exact p with
        | error stop =>
            rw [hrun] at hexact
            cases stop with
            | error e =>
                rw [← Except.ok.inj hexact]
                exact Or.inl rfl
            | trap t => cases hexact
        | ok result =>
            rw [hrun] at hexact
            obtain ⟨valid, blocks, hblocks, rfl⟩ :=
              VerifierGuest.verifyParams_exact_eq_ok M blake3 hrun
            obtain ⟨first, last, hfirst, hlast, hle, htoNat⟩ :=
              p.hardComputationBlocks_exact_eq_ok hblocks
            refine Or.inr ⟨p, first, last, valid, rfl, hfirst, hlast, hle, ?_, ?_⟩
            · rw [← htoNat]
              exact blocks.toNat_lt
            · rw [← Except.ok.inj hexact, htoNat]

end BeeEngine
