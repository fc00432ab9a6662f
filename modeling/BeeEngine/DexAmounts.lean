import BeeEngine.Lib.Checks
import BeeEngine.Lib.Outcome
import BeeEngine.Lib.ParseInt

/-!
# Amounts of DEX requests

The validators of the amounts in `deploy_pmp` and `set_stake` requests, which
are decimal text, with the field that an error names.
-/

namespace BeeEngine

namespace Dex

open Checks

/-- The fields of a request that are validated. -/
structure DeployPmpParams where
  oracleFee : List String
  initialStakes : List String
  outcomeCount : Option UInt32
  gasToFund : Option String

structure SetStakeParams where
  amount : String
  gasToFund : Option String

def u128Bound : ℕ := 2 ^ 128

def parseU128Decimal (s : String) : Except String ℕ :=
  (ParseInt.parse u128Bound s).mapError fun e ↦
    "invalid u128 decimal '" ++ s ++ "': " ++ e.message

/-- The field of an entry of a list. -/
def entry (field : String) (i : ℕ) : String := field ++ "[" ++ toString i ++ "]"

/-- The amounts of a list, from its `i`th entry on. -/
def validateEntries (field : String) : ℕ → List String → Except (String × String) Unit
  | _, [] => .ok ()
  | i, s :: rest => do
      let _ ← (parseU128Decimal s).mapError fun e ↦ (entry field i, e)
      validateEntries field (i + 1) rest

def validateGas (gasToFund : Option String) : Except (String × String) Unit :=
  match gasToFund with
  | none => .ok ()
  | some gas => do
      let _ ← (parseU128Decimal gas).mapError fun e ↦ ("gas_to_fund", e)
      .ok ()

def validateOutcomeCount (stakes : ℕ) (outcomeCount : Option UInt32) :
    Except (String × String) Unit :=
  match outcomeCount with
  | none => .ok ()
  | some oc =>
      if stakes ≠ oc.toNat then
        .error ("outcome_count", "initial_stakes.len()=" ++ toString stakes ++
          " != outcome_count=" ++ toString oc.toNat)
      else .ok ()

def validateDeployPmpParams (p : DeployPmpParams) : Except (String × String) Unit := do
  validateEntries "oracle_fee" 0 p.oracleFee
  validateEntries "initial_stakes" 0 p.initialStakes
  validateGas p.gasToFund
  validateOutcomeCount p.initialStakes.length p.outcomeCount

def validateSetStakeParams (p : SetStakeParams) : Except (String × String) Unit := do
  let _ ← (parseU128Decimal p.amount).mapError fun e ↦ ("amount", e)
  validateGas p.gasToFund

/-! ## What is claimed -/

/-- One digit at least, and a number below `2 ^ 128`. -/
def IsU128 (digits : List Char) : Prop :=
  digits ≠ [] ∧ digits.all Char.isDigit = true ∧ Nat.ofDigitChars 10 digits 0 < u128Bound

instance (digits : List Char) : Decidable (IsU128 digits) := instDecidableAnd

/-- A strict decimal, which is digits only. -/
def isStrict (s : String) : Bool := decide (IsU128 s.toList)

/-- Digits, behind at most one plus sign. -/
def isDecimal (s : String) : Bool :=
  match s.toList with
  | '+' :: digits => decide (IsU128 digits)
  | digits => decide (IsU128 digits)

section

variable (accepts : String → Bool)

/-- The check of each entry from the `i`th on. -/
def entryChecks (field : String) : ℕ → List String → List (String × Bool)
  | _, [] => []
  | i, s :: rest => (entry field i, accepts s) :: entryChecks field (i + 1) rest

def gasChecks : Option String → List (String × Bool)
  | none => []
  | some gas => [("gas_to_fund", accepts gas)]

def outcomeChecks (stakes : ℕ) : Option UInt32 → List (String × Bool)
  | none => []
  | some oc => [("outcome_count", decide (stakes = oc.toNat))]

/-- The checks in the order in which the fields are declared. -/
def DeployPmpParams.declared (p : DeployPmpParams) : List (String × Bool) :=
  entryChecks accepts "oracle_fee" 0 p.oracleFee ++
    entryChecks accepts "initial_stakes" 0 p.initialStakes ++
    outcomeChecks p.initialStakes.length p.outcomeCount ++ gasChecks accepts p.gasToFund

/-- The checks as they are made: all amounts, and then the count. -/
def DeployPmpParams.made (p : DeployPmpParams) : List (String × Bool) :=
  entryChecks accepts "oracle_fee" 0 p.oracleFee ++
    entryChecks accepts "initial_stakes" 0 p.initialStakes ++
    gasChecks accepts p.gasToFund ++ outcomeChecks p.initialStakes.length p.outcomeCount

def SetStakeParams.checks (p : SetStakeParams) : List (String × Bool) :=
  ("amount", accepts p.amount) :: gasChecks accepts p.gasToFund

end

/-! ## The grammar -/

theorem isOk_parseU128Decimal (s : String) : (parseU128Decimal s).isOk = isDecimal s := by
  have hunsigned : ∀ cs : List Char,
      ((Text.parseDigits cs).filter (· < u128Bound)).isSome = decide (IsU128 cs) := by
    intro cs
    cases cs with
    | nil => rfl
    | cons c cs =>
        rw [Bool.eq_iff_iff, Option.isSome_iff_exists, decide_eq_true_iff]
        simp only [ParseInt.parseDigits_filter_eq_some_iff (List.cons_ne_nil c cs)]
        constructor
        · rintro ⟨m, hall, rfl, hlt⟩
          exact ⟨List.cons_ne_nil c cs, hall, hlt⟩
        · rintro ⟨-, hall, hlt⟩
          exact ⟨_, hall, rfl, hlt⟩
  have hparse : (parseU128Decimal s).isOk = (Text.parseUnsigned u128Bound s).isSome := by
    rw [parseU128Decimal, Bool.eq_iff_iff, Option.isSome_iff_exists]
    simp only [← ParseInt.parse_eq_ok_iff (show 0 < u128Bound by decide)]
    cases ParseInt.parse u128Bound s with
    | error e => simp [Except.mapError, Except.isOk, Except.toBool]
    | ok n => simp [Except.mapError, Except.isOk, Except.toBool]
  have hdecimal : isDecimal s = decide (IsU128 (match s.toList with
      | '+' :: cs => cs
      | cs => cs)) := by
    rw [isDecimal]
    split <;> rfl
  rw [hparse, hdecimal]
  exact hunsigned _

/-- Behind the first character there are digits only, and that is a digit or a
plus sign. -/
theorem isDigit_of_isDecimal {s : String} (h : isDecimal s = true) :
    (∀ c ∈ s.toList.tail, c.isDigit = true) ∧
      (s.toList.head? = some '+' ∨ ∀ c ∈ s.toList, c.isDigit = true) := by
  rw [isDecimal] at h
  split at h
  · rename_i digits hs
    obtain ⟨-, hall, -⟩ := of_decide_eq_true h
    rw [hs]
    exact ⟨List.all_eq_true.mp hall, .inl rfl⟩
  · obtain ⟨-, hall, -⟩ := of_decide_eq_true h
    have hall := List.all_eq_true.mp hall
    exact ⟨fun c hc ↦ hall c (List.mem_of_mem_tail hc), .inr hall⟩

/-! ## The order -/

theorem reports_entries (field : String) (i : ℕ) (xs : List String) :
    Reports (entryChecks isDecimal field i xs) (validateEntries field i xs) := by
  induction xs generalizing i with
  | nil => exact reports_nil
  | cons s rest ih =>
      have hfirst := reports_mapError (entry field i) (parseU128Decimal s)
      rw [isOk_parseU128Decimal] at hfirst
      have hboth := hfirst.bind (ih (i + 1))
      rw [bind_assoc] at hboth
      exact hboth

theorem reports_gas (gasToFund : Option String) :
    Reports (gasChecks isDecimal gasToFund) (validateGas gasToFund) := by
  cases gasToFund with
  | none => exact reports_nil
  | some gas =>
      have h := reports_mapError "gas_to_fund" (parseU128Decimal gas)
      rw [isOk_parseU128Decimal] at h
      exact h

theorem reports_outcomeCount (stakes : ℕ) (outcomeCount : Option UInt32) :
    Reports (outcomeChecks stakes outcomeCount) (validateOutcomeCount stakes outcomeCount) := by
  cases outcomeCount with
  | none => exact reports_nil
  | some oc =>
      rw [validateOutcomeCount, outcomeChecks, ite_not]
      apply reports_ite

/-- The validators accept amounts that are decimals, behind at most one plus
sign, and otherwise name the first field that is not in order: amounts before
the number of stakes. -/
theorem amounts_reported :
    (∀ p, Reports (DeployPmpParams.made isDecimal p) (validateDeployPmpParams p)) ∧
    (∀ p, Reports (SetStakeParams.checks isDecimal p) (validateSetStakeParams p)) ∧
    ∀ s, isDecimal s = true → (∀ c ∈ s.toList.tail, c.isDigit = true) ∧
      (s.toList.head? = some '+' ∨ ∀ c ∈ s.toList, c.isDigit = true) := by
  refine ⟨?_, ?_, fun s ↦ isDigit_of_isDecimal⟩
  · intro p
    have h := (reports_entries "oracle_fee" 0 p.oracleFee).bind
      ((reports_entries "initial_stakes" 0 p.initialStakes).bind
        ((reports_gas p.gasToFund).bind
          (reports_outcomeCount p.initialStakes.length p.outcomeCount)))
    simp only [← List.append_assoc] at h
    exact h
  · intro p
    have hfirst := reports_mapError "amount" (parseU128Decimal p.amount)
    rw [isOk_parseU128Decimal] at hfirst
    have h := hfirst.bind (reports_gas p.gasToFund)
    rw [bind_assoc] at h
    exact h

/-- A signed amount is accepted; and of a missing stake and gas that is no
number, the gas is named, which is declared last. -/
theorem not_amounts_strict :
    (validateSetStakeParams ⟨"+5", none⟩ = .ok () ∧
      ¬Reports (SetStakeParams.checks isStrict ⟨"+5", none⟩)
        (validateSetStakeParams ⟨"+5", none⟩)) ∧
    ¬Reports (DeployPmpParams.declared isStrict ⟨[], [], some 1, some "0x5"⟩)
      (validateDeployPmpParams ⟨[], [], some 1, some "0x5"⟩) := by
  refine ⟨⟨by decide, ?_⟩, ?_⟩
  · rintro ⟨e, h⟩
    have hok : validateSetStakeParams ⟨"+5", none⟩ = .ok () := by decide
    rw [hok] at h
    cases h
  · rintro ⟨e, h⟩
    have herror : validateDeployPmpParams ⟨[], [], some 1, some "0x5"⟩ =
        .error ("gas_to_fund", "invalid u128 decimal '0x5': invalid digit found in string") := by
      decide
    rw [herror] at h
    exact absurd (Prod.mk.inj (Except.error.inj h)).1 (by decide)

end Dex

end BeeEngine
