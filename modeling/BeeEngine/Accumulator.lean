import BeeEngine.Lib.Overflow
import BeeEngine.SellShells

/-!
# Amounts of the accumulator

`buy_shells` and `get_nackl_redeem_rate`, whose amounts are products of machine
words.
-/

namespace BeeEngine

open Overflow

/-! ## Buying -/

/-- What the contract kit knows of USDC. -/
structure UsdcKit extends AccumulatorKit where
  usdcEccId : UInt32
  usdcDecimalsFactor : BitVec 128
  factor : usdcDecimalsFactor.toNat = 10 ^ 6

section

variable (build : Build) (kit : UsdcKit) (buyer : Seller)

def buyParams (usdcMicro : UInt64) : ParamsOfSubmitTransaction where
  dest := kit.defaultAddress
  epkExpireAt := buyer.epkExpireAt
  value := 1000000000
  cc := [(kit.usdcEccId, usdcMicro)]
  bounce := buyer.bounce.getD true
  allBalance := false

def submitUsdc (usdcMicro : UInt64) : TokensResult ResultOfSendMessage := do
  let result ←
    requestInContext ("Submit multifactor `" ++ buyer.multifactor ++ "` buy_shells transaction")
      (.submitTransaction buyer.multifactor (buyParams kit buyer usdcMicro))
  ExceptT.mk (.done (ensureTxSuccess result "submit_transaction (buy_shells)"))

/-- `buy_shells`, or nothing where the program stops. -/
def buyShells (usdcWhole : UInt64) : Option (TokensResult ResultOfSendMessage) :=
  if usdcWhole = 0 then some (throw (.new "buy_shells: usdc_amount must be > 0"))
  else
    (mul build usdcWhole.toBitVec (kit.usdcDecimalsFactor.setWidth 64)).map fun usdcMicro ↦
      submitUsdc kit buyer (.ofBitVec usdcMicro)

end

/-! ## The rate -/

structure AccumulatorDetails where
  usdcBalance : BitVec 128
  owedTotal : BitVec 128
  deriving DecidableEq, Repr

structure NacklInfo where
  supply : BitVec 128
  burned : BitVec 128
  deriving DecidableEq, Repr

structure NacklRedeemRateResult where
  redeemableUsdc : BitVec 128
  currentNacklSupply : BitVec 128
  usdcPerNackl : BitVec 128
  deriving DecidableEq, Repr

/-- `a.saturating_sub(b)` -/
def saturatingSub (a b : BitVec 128) : BitVec 128 := .ofNat 128 (a.toNat - b.toNat)

def rateScale : BitVec 128 := 1000000000000000000

/-- The rate, from what the accumulator answers. -/
def redeemRate (build : Build) (details : AccumulatorDetails) (nacklInfo : NacklInfo) :
    Option NacklRedeemRateResult :=
  let redeemableUsdc := saturatingSub details.usdcBalance details.owedTotal
  let currentNacklSupply := saturatingSub nacklInfo.supply nacklInfo.burned
  if currentNacklSupply = 0 ∨ redeemableUsdc = 0 then
    some ⟨redeemableUsdc, currentNacklSupply, 0⟩
  else
    (mul build redeemableUsdc rateScale).map fun scaled ↦
      ⟨redeemableUsdc, currentNacklSupply, scaled / currentNacklSupply⟩

/-- `get_nackl_redeem_rate`, or nothing where the program stops. -/
def getNacklRedeemRate (build : Build) (details : Except AppError AccumulatorDetails)
    (nacklInfo : Except AppError NacklInfo) : Option (Except AppError NacklRedeemRateResult) :=
  match inContext "get_nackl_redeem_rate: getDetails" details with
  | .error e => some (.error e)
  | .ok details =>
      match inContext "get_nackl_redeem_rate: getNacklInfo" nacklInfo with
      | .error e => some (.error e)
      | .ok nacklInfo => (redeemRate build details nacklInfo).map .ok

/-! ## What is claimed -/

/-- The call sends nothing and fails, or its one message carries the exact amount. -/
def BuysExactly (build : Build) (kit : UsdcKit) (buyer : Seller) (usdcWhole : UInt64) : Prop :=
  ∃ program, buyShells build kit buyer usdcWhole = some program ∧
    ((∃ e, program.run = .done (.error e)) ∨
      ∃ params rest, Program.Asks program (.submitTransaction buyer.multifactor params) rest ∧
        (∀ reply, ∃ result, rest reply = .done result) ∧
        params.cc.map (fun entry ↦ (entry.1, entry.2.toNat)) =
          [(kit.usdcEccId, usdcWhole.toNat * 10 ^ 6)])

/-- The call fails, or answers the exact quotient.  Differences stop at 0, and a
quotient by 0 is 0. -/
def RateExact (build : Build) (details : Except AppError AccumulatorDetails)
    (nacklInfo : Except AppError NacklInfo) : Prop :=
  ∃ result, getNacklRedeemRate build details nacklInfo = some result ∧
    ∀ details', details = .ok details' → ∀ nacklInfo', nacklInfo = .ok nacklInfo' →
      ∃ rate, result = .ok rate ∧ rate.usdcPerNackl.toNat =
        (details'.usdcBalance.toNat - details'.owedTotal.toNat) * 10 ^ 18 /
          (nacklInfo'.supply.toNat - nacklInfo'.burned.toNat)

/-- Nothing is in circulation, or the scaled amount fits 128 bits. -/
def RateFits (details : AccumulatorDetails) (nacklInfo : NacklInfo) : Prop :=
  nacklInfo.supply.toNat ≤ nacklInfo.burned.toNat ∨
    (details.usdcBalance.toNat - details.owedTotal.toNat) * 10 ^ 18 < 2 ^ 128

/-! ## Buying, exactly -/

theorem asks_submitUsdc (kit : UsdcKit) (buyer : Seller) (usdcMicro : UInt64) :
    Program.Asks (submitUsdc kit buyer usdcMicro)
      (.submitTransaction buyer.multifactor (buyParams kit buyer usdcMicro)) fun result ↦
        .done (ensureTxSuccess result "submit_transaction (buy_shells)") := by
  apply Program.asks_requestOr_bind

theorem toNat_factor (kit : UsdcKit) : (kit.usdcDecimalsFactor.setWidth 64).toNat = 10 ^ 6 := by
  rw [BitVec.toNat_setWidth, kit.factor]
  decide

theorem buysExactly_iff (build : Build) (kit : UsdcKit) (buyer : Seller) (usdcWhole : UInt64) :
    BuysExactly build kit buyer usdcWhole ↔ usdcWhole.toNat * 10 ^ 6 < 2 ^ 64 := by
  by_cases hzero : usdcWhole = 0
  · subst hzero
    refine iff_of_true ⟨_, if_pos rfl, .inl ⟨_, rfl⟩⟩ (by decide)
  rw [BuysExactly, buyShells, if_neg hzero]
  constructor
  · rintro ⟨program, hprogram, hexact⟩
    obtain ⟨usdcMicro, hmul, rfl⟩ := Option.map_eq_some_iff.mp hprogram
    have hasks := asks_submitUsdc kit buyer (.ofBitVec usdcMicro)
    rcases hexact with ⟨e, hrun⟩ | ⟨params, rest, hasks', -, hcc⟩
    · exact absurd hrun (hasks.run_ne_done _)
    · obtain ⟨next, hrun, -, -⟩ := hasks
      obtain ⟨-, rfl⟩ := TokensRequest.submitTransaction.inj (hasks'.request_eq hrun)
      have hamount : usdcMicro.toNat = usdcWhole.toNat * 10 ^ 6 := by
        simpa [buyParams] using hcc
      rw [← hamount]
      exact usdcMicro.isLt
  · intro hlt
    have hlt' : usdcWhole.toBitVec.toNat * (kit.usdcDecimalsFactor.setWidth 64).toNat < 2 ^ 64 := by
      rw [toNat_factor]
      exact hlt
    obtain ⟨hmul, hamount⟩ := mul_of_lt build hlt'
    rw [toNat_factor] at hamount
    refine ⟨_, by rw [hmul, Option.map_some], .inr ⟨_, _, asks_submitUsdc kit buyer _, ?_, ?_⟩⟩
    · exact fun reply ↦ ⟨_, rfl⟩
    · rw [buyParams, List.map_singleton]
      exact congrArg (fun amount ↦ [(kit.usdcEccId, amount)]) hamount

/-! ## The rate, exactly -/

@[simp] theorem toNat_saturatingSub (a b : BitVec 128) :
    (saturatingSub a b).toNat = a.toNat - b.toNat := by
  rw [saturatingSub, BitVec.toNat_ofNat]
  exact Nat.mod_eq_of_lt (lt_of_le_of_lt (Nat.sub_le _ _) a.isLt)

theorem toNat_rateScale : rateScale.toNat = 10 ^ 18 := by decide

theorem eq_zero_iff_toNat {a : BitVec 128} : a = 0 ↔ a.toNat = 0 :=
  BitVec.toNat_eq.trans (by rfl)

theorem redeemRate_exact_iff (build : Build) (details : AccumulatorDetails)
    (nacklInfo : NacklInfo) :
    (∃ rate, redeemRate build details nacklInfo = some rate ∧ rate.usdcPerNackl.toNat =
      (details.usdcBalance.toNat - details.owedTotal.toNat) * 10 ^ 18 /
        (nacklInfo.supply.toNat - nacklInfo.burned.toNat)) ↔ RateFits details nacklInfo := by
  rw [redeemRate, RateFits]
  generalize hredeemable : saturatingSub details.usdcBalance details.owedTotal = redeemable
  generalize hsupply : saturatingSub nacklInfo.supply nacklInfo.burned = supply
  have hredeemable' := congrArg BitVec.toNat hredeemable
  have hsupply' := congrArg BitVec.toNat hsupply
  rw [toNat_saturatingSub] at hredeemable' hsupply'
  rw [← Nat.sub_eq_zero_iff_le, hredeemable', hsupply']
  by_cases hzero : supply = 0 ∨ redeemable = 0
  · rw [if_pos hzero]
    rw [eq_zero_iff_toNat, eq_zero_iff_toNat] at hzero
    refine iff_of_true ⟨_, rfl, ?_⟩ ?_
    · rcases hzero with hzero | hzero <;> simp [hzero]
    · refine hzero.imp_right fun hzero ↦ ?_
      rw [hzero, Nat.zero_mul]
      exact Nat.two_pow_pos 128
  · rw [if_neg hzero]
    rw [eq_zero_iff_toNat, eq_zero_iff_toNat, not_or] at hzero
    have hpos : 0 < supply.toNat := Nat.pos_of_ne_zero hzero.1
    constructor
    · rintro ⟨rate, hrate, hexact⟩
      obtain ⟨scaled, hmul, rfl⟩ := Option.map_eq_some_iff.mp hrate
      refine .inr ?_
      by_contra hover
      have hscaled := toNat_of_mul_eq_some hmul
      rw [toNat_rateScale] at hscaled
      have hless := mod_div_lt hpos supply.isLt.le (Nat.le_of_not_lt hover)
      rw [BitVec.toNat_udiv, hscaled] at hexact
      exact absurd hexact hless.ne
    · rintro (hnone | hlt)
      · exact absurd hnone hzero.1
      · rw [← toNat_rateScale] at hlt ⊢
        obtain ⟨hmul, hscaled⟩ := mul_of_lt build hlt
        refine ⟨_, by rw [hmul, Option.map_some], ?_⟩
        rw [BitVec.toNat_udiv, hscaled]

theorem rateExact_iff (build : Build) (details : Except AppError AccumulatorDetails)
    (nacklInfo : Except AppError NacklInfo) :
    RateExact build details nacklInfo ↔
      ∀ details', details = .ok details' → ∀ nacklInfo', nacklInfo = .ok nacklInfo' →
        RateFits details' nacklInfo' := by
  rw [RateExact, getNacklRedeemRate]
  cases details with
  | error e =>
      refine iff_of_true ⟨_, rfl, ?_⟩ ?_
      · rintro details ⟨⟩
      · rintro details ⟨⟩
  | ok details =>
      cases nacklInfo with
      | error e =>
          refine iff_of_true ⟨_, rfl, ?_⟩ ?_
          · rintro details - nacklInfo ⟨⟩
          · rintro details - nacklInfo ⟨⟩
      | ok nacklInfo =>
          simp only [inContext, Except.mapError, Except.ok.injEq, forall_eq']
          rw [← redeemRate_exact_iff build]
          constructor
          · rintro ⟨result, hresult, rate, rfl, hexact⟩
            obtain ⟨rate', hrate, heq⟩ := Option.map_eq_some_iff.mp hresult
            obtain rfl := Except.ok.inj heq
            exact ⟨rate', hrate, hexact⟩
          · rintro ⟨rate, hrate, hexact⟩
            exact ⟨.ok rate, by rw [hrate, Option.map_some], rate, rfl, hexact⟩

/-- The amounts are exact as long as the products fit their types. -/
theorem amounts_exact_iff (build : Build) :
    (∀ kit buyer usdcWhole,
      BuysExactly build kit buyer usdcWhole ↔ usdcWhole.toNat * 10 ^ 6 < 2 ^ 64) ∧
    ∀ details nacklInfo, RateExact build details nacklInfo ↔
      ∀ details', details = .ok details' → ∀ nacklInfo', nacklInfo = .ok nacklInfo' →
        RateFits details' nacklInfo' :=
  ⟨buysExactly_iff build, rateExact_iff build⟩

/-! ## Amounts that do not fit -/

def exampleUsdcKit : UsdcKit where
  toAccumulatorKit := SellShells.exampleKit
  usdcEccId := 3
  usdcDecimalsFactor := 1000000
  factor := by decide

/-- The least amount of USDC whose product wraps around, and the largest balance
with one nanoNACKL in circulation. -/
theorem not_amounts_exact :
    ¬BuysExactly .release exampleUsdcKit SellShells.exampleSeller 18446744073710 ∧
      ¬RateExact .release (.ok ⟨.ofNat 128 (2 ^ 128 - 1), 0⟩) (.ok ⟨1, 0⟩) := by
  constructor
  · rw [buysExactly_iff]
    decide
  · rw [rateExact_iff]
    intro hfits
    have hlarge : ¬RateFits ⟨.ofNat 128 (2 ^ 128 - 1), 0⟩ ⟨1, 0⟩ := by
      unfold RateFits
      decide
    exact hlarge (hfits _ rfl _ rfl)

end BeeEngine
