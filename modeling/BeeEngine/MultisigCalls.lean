import BeeEngine.Lib.Outcome
import BeeEngine.Lib.Transition
import BeeEngine.MultisigDeploy

/-!
# Calling again

Any number of calls of `deploy_multisig_via_giver` with the same keys.  A call
may fail at every step, and the next one finds what it has left.
-/

namespace BeeEngine

namespace Multisig

open Transition

/-! ## Acceptable amounts -/

def IsAmount (bound : ℕ) (value : String) : Prop := ∃ n, Text.parseUnsigned bound value = some n

def MultisigBalanceConfig.IsValid (config : MultisigBalanceConfig) : Prop :=
  ∃ minBalance targetBalance, Text.parseUnsigned (2 ^ 128) config.minBalance = some minBalance ∧
    Text.parseUnsigned (2 ^ 128) config.targetBalance = some targetBalance ∧
    minBalance ≤ targetBalance

def giverEccEntries (params : ParamsOfDeployMultisigViaGiver) : List (UInt32 × String) :=
  params.giverEcc.getD []

structure Acceptable (encoder : Encoder) (params : ParamsOfDeployMultisigViaGiver) : Prop where
  giverValue : ∀ v, params.giverValue = some v → IsAmount (2 ^ 64) v
  giverEcc : ∀ entry ∈ giverEccEntries params, IsAmount (2 ^ 64) entry.2
  constructorValue : encoder.IsUint64 (params.constructorValue.getD "0")
  balanceConfig : ∀ config, params.balanceConfig = some config → config.IsValid

/-- The amounts are those of the entries. -/
def Requests (entries : List (UInt32 × String)) (amounts : List (UInt32 × UInt64)) : Prop :=
  List.Forall₂ (fun entry amount ↦ entry.1 = amount.1 ∧
    Text.parseUnsigned (2 ^ 64) entry.2 = some amount.2.toNat) entries amounts

/-! ## Calls on one account -/

/-- A call, whose parameters differ from those of other calls only in the keys. -/
structure Call where
  keys : Option KeyPair
  steps : Steps

def Call.params (call : Call) (params : ParamsOfDeployMultisigViaGiver) :
    ParamsOfDeployMultisigViaGiver :=
  { params with keys := call.keys }

/-- The account, and what the giver has sent to it to be held. -/
structure Chain where
  active : Bool
  delivered : List (UInt32 × UInt64)

/-- The currencies that are held. -/
def Message.held : Message → List (UInt32 × UInt64)
  | .sendCurrencyWithFlag _ _ ecc flag => if flag = heldFlag then ecc else []
  | .deploy _ => []

def held (events : List Message) : List (UInt32 × UInt64) := events.flatMap Message.held

section

variable (encoder : Encoder) (params : ParamsOfDeployMultisigViaGiver)

def Call.run (call : Call) : Reporting Message AppError ResultOfDeployMultisigViaGiver :=
  deployMultisigViaGiver encoder call.steps (call.params params)

/-- A call on the account of the keys.  An active account stays active.  A step
that is not reached counts as one that fails. -/
structure CallStep (keys : KeyPair) (s : Chain) (call : Call) (t : Chain) : Prop where
  owner : ∀ own, ownerKeys call.steps (call.params params) = .ok own → own = keys
  stays : s.active = true → ∀ status, call.steps.fetch = .ok status → status = .active
  active : s.active = true ∨ call.steps.fetch = .ok .active ∨
    call.steps.fetchAgain = .ok .active ∨ call.steps.waitActive = .ok () → t.active = true
  delivered : t.delivered = s.delivered ++
    if call.steps.topUp.sent then held (call.run encoder params).events else []

/-! ## How a call goes -/

/-- The account is found with a status. -/
def Finds (call : Call) (status : AccountStatus) : Prop :=
  (∃ found, resolve encoder call.steps (call.params params) = .ok found) ∧
    call.steps.fetch = .ok status

def DeploySucceeds (steps : Steps) (waitForActive : Bool) : Prop :=
  ∃ status, steps.fetchAgain = .ok status ∧ (status ≠ .active →
    steps.prepare = .ok () ∧ (∃ tx, steps.deploy = .ok tx) ∧
      (waitForActive = true → steps.waitActive = .ok ()))

/-- Every step from the first transfer on succeeds. -/
structure Succeeds (steps : Steps) : Prop where
  create : steps.create.answer = .ok ()
  waitUninit : steps.waitUninit = .ok ()
  deploy : DeploySucceeds steps (params.waitForActive.getD true)
  giverEcc : ∀ entry ∈ giverEccEntries params, IsAmount (2 ^ 64) entry.2
  topUp : giverEccEntries params ≠ [] → steps.topUp.answer = .ok ()

/-! ## What is claimed -/

/-- The giver has sent something to the account. -/
def ValueSent (call : Call) : Prop :=
  call.steps.create.sent = true ∧ ∃ address value ecc flag,
    .sendCurrencyWithFlag address value ecc flag ∈ (call.run encoder params).events

structure DeploysSafely (call : Call) (t : Chain) : Prop where
  /-- Amounts are checked before anything is sent. -/
  validated : ¬Acceptable encoder params →
    (∃ e, (call.run encoder params).result = .error e) ∧ (call.run encoder params).events = []
  /-- Generated keys are handed back once value is sent. -/
  keys : call.keys = none → ValueSent encoder params call →
    ∃ keys r, call.steps.generateKeys = .ok keys ∧ (call.run encoder params).result = .ok r ∧
      r.publicKey = keys.publicKey ∧ r.secretKey = keys.secretKey
  /-- A call whose steps succeed does. -/
  ends : Acceptable encoder params → (∃ status, Finds encoder params call status) →
    Succeeds params call.steps → ∃ r, (call.run encoder params).result = .ok r
  /-- Whatever has failed before, each amount is delivered once. -/
  delivered : ∀ r, (call.run encoder params).result = .ok r →
    t.active = true ∧ Requests (giverEccEntries params) t.delivered

/-! ## When it holds -/

/-- The account is found, not active, and the amount for it is acceptable. -/
def Funds (call : Call) : Prop :=
  ∃ status, Finds encoder params call status ∧ status ≠ .active ∧
    ∀ v, params.giverValue = some v → IsAmount (2 ^ 64) v

/-- The amounts of the giver are acceptable, or that of the first transfer is refused. -/
def GiverCareful (status : AccountStatus) : Prop :=
  ((∀ v, params.giverValue = some v → IsAmount (2 ^ 64) v) ∧
      ∀ entry ∈ giverEccEntries params, IsAmount (2 ^ 64) entry.2) ∨
    status ≠ .active ∧ ∃ v, params.giverValue = some v ∧ ¬IsAmount (2 ^ 64) v

structure Careful (s : Chain) (call : Call) : Prop where
  /-- The other amounts are checked before the account is read. -/
  amounts : ∀ status, Finds encoder params call status → GiverCareful params status
  keys : call.keys = none → Funds encoder params call → call.steps.create.sent = true →
    Succeeds params call.steps
  /-- An account that is found active has been sent its amounts. -/
  topUp : Finds encoder params call .active → Requests (giverEccEntries params) s.delivered

end

/-! ## Amounts, as they are parsed -/

theorem parseAmountBelow_eq_ok_iff {bound n : ℕ} {field value : String} (h : 0 < bound) :
    parseAmountBelow bound field value = .ok n ↔ Text.parseUnsigned bound value = some n := by
  rw [← ParseInt.parse_eq_ok_iff h, parseAmountBelow, Outcome.mapError_eq_ok_iff]

theorem lt_of_parseUnsigned {bound n : ℕ} {value : String}
    (h : Text.parseUnsigned bound value = some n) : n < bound := by
  rw [Text.parseUnsigned] at h
  exact of_decide_eq_true (Option.filter_eq_some_iff.mp h).2

theorem parseAmount_eq_ok_iff {field value : String} {n : UInt64} :
    parseAmount field value = .ok n ↔ Text.parseUnsigned (2 ^ 64) value = some n.toNat := by
  rw [← @parseAmountBelow_eq_ok_iff _ _ field _ (by decide), parseAmount]
  cases hparse : parseAmountBelow (2 ^ 64) field value with
  | error e => simp [Except.map]
  | ok m =>
      have hlt := lt_of_parseUnsigned ((parseAmountBelow_eq_ok_iff (by decide)).mp hparse)
      simp only [Except.map, Except.ok.injEq]
      constructor
      · rintro rfl
        exact (UInt64.toNat_ofNat_of_lt' hlt).symm
      · rintro rfl
        exact UInt64.ofNat_toNat

theorem isAmount_of_requests {entries : List (UInt32 × String)} {amounts : List (UInt32 × UInt64)}
    (h : Requests entries amounts) : ∀ entry ∈ entries, IsAmount (2 ^ 64) entry.2 := by
  intro entry hentry
  induction h with
  | nil => cases hentry
  | cons hfirst _ ih =>
      obtain rfl | hentry := List.mem_cons.mp hentry
      · exact ⟨_, hfirst.2⟩
      · exact ih hentry

theorem parseGiverEcc_eq_ok_iff {entries : List (UInt32 × String)}
    {amounts : List (UInt32 × UInt64)} :
    parseGiverEcc entries = .ok amounts ↔ Requests entries amounts := by
  induction entries generalizing amounts with
  | nil =>
      rw [parseGiverEcc, Except.ok.injEq, Requests, List.forall₂_nil_left_iff]
      exact eq_comm
  | cons entry entries ih =>
      rw [parseGiverEcc, Requests, List.forall₂_cons_left_iff]
      simp only [Outcome.bind_eq_ok_iff, parseAmount_eq_ok_iff, ih]
      constructor
      · rintro ⟨n, hn, rest, hrest, ⟨⟩⟩
        exact ⟨(entry.1, n), rest, ⟨rfl, hn⟩, hrest, rfl⟩
      · rintro ⟨⟨currency, n⟩, rest, ⟨rfl, hn⟩, hrest, rfl⟩
        exact ⟨n, hn, rest, hrest, rfl⟩

theorem exists_requests {entries : List (UInt32 × String)}
    (h : ∀ entry ∈ entries, IsAmount (2 ^ 64) entry.2) : ∃ amounts, Requests entries amounts := by
  induction entries with
  | nil => exact ⟨[], .nil⟩
  | cons entry entries ih =>
      obtain ⟨n, hn⟩ := h entry List.mem_cons_self
      obtain ⟨amounts, hamounts⟩ := ih fun other hother ↦ h other (List.mem_cons_of_mem _ hother)
      refine ⟨(entry.1, .ofNat n) :: amounts, .cons ⟨rfl, ?_⟩ hamounts⟩
      rw [hn, UInt64.toNat_ofNat_of_lt' (lt_of_parseUnsigned hn)]

theorem isValid_of_validate {config : MultisigBalanceConfig} (h : config.validate = .ok ()) :
    config.IsValid := by
  rw [MultisigBalanceConfig.validate] at h
  simp only [Outcome.bind_eq_ok_iff] at h
  obtain ⟨minBalance, hmin, targetBalance, htarget, hle⟩ := h
  rw [parseAmountBelow_eq_ok_iff (by decide)] at hmin htarget
  split at hle
  · cases hle
  · rename_i hge
    exact ⟨minBalance, targetBalance, hmin, htarget, Nat.le_of_not_lt hge⟩

/-! ## Steps of a call -/

section

variable {encoder : Encoder} {steps : Steps} {params : ParamsOfDeployMultisigViaGiver}
  {keys : KeyPair} {address : String}

/-- An address is computed only from a constructor input that is acceptable. -/
theorem of_computeMultisigAddress {spec : MultisigDeploySpec}
    (h : computeMultisigAddress encoder spec = .ok address) :
    encoder.IsUint64 spec.constructorValue ∧
      ∀ config, spec.balanceConfig = some config → config.IsValid := by
  simp only [computeMultisigAddress, MultisigDeploySpec.encodeParams,
    MultisigDeploySpec.constructorInput, Outcome.bind_eq_ok_iff] at h
  obtain ⟨_, ⟨_, ⟨_, hvalidate, ⟨⟩⟩, ⟨⟩⟩, hencode⟩ := h
  refine ⟨encoder.isUint64_of_ok _ _ hencode, fun config hconfig ↦ ?_⟩
  rw [MultisigDeploySpec.validate, hconfig] at hvalidate
  exact isValid_of_validate hvalidate

theorem of_resolve (h : resolve encoder steps params = .ok (keys, address)) :
    ownerKeys steps params = .ok keys ∧
      computeMultisigAddress encoder (deploySpec params keys) = .ok address := by
  simp only [resolve, Outcome.bind_eq_ok_iff] at h
  obtain ⟨_, -, keys', hkeys, address', haddress, ⟨⟩⟩ := h
  exact ⟨hkeys, haddress⟩

/-- The ways in which a call can begin. -/
inductive Begins (encoder : Encoder) (steps : Steps) (params : ParamsOfDeployMultisigViaGiver) :
    Reporting Message AppError ResultOfDeployMultisigViaGiver → Prop where
  | unread (e : AppError) (hunread : ∀ found status,
      resolve encoder steps params = .ok found → steps.fetch ≠ .ok status) :
      Begins encoder steps params ⟨[], .error e⟩
  | active {keys : KeyPair} {address : String}
      (hresolve : resolve encoder steps params = .ok (keys, address))
      (hfetch : steps.fetch = .ok .active) :
      Begins encoder steps params
        ⟨[], .ok ⟨canonicalAddress address, keys.publicKey, keys.secretKey, true, none⟩⟩
  | other {keys : KeyPair} {address : String} {status : AccountStatus}
      (hresolve : resolve encoder steps params = .ok (keys, address))
      (hfetch : steps.fetch = .ok status) (hstatus : status ≠ .active) :
      Begins encoder steps params (fundAndDeploy encoder steps params keys address)

theorem begins (encoder : Encoder) (steps : Steps) (params : ParamsOfDeployMultisigViaGiver) :
    Begins encoder steps params (deployMultisigViaGiver encoder steps params) := by
  rw [deployMultisigViaGiver]
  cases hresolve : resolve encoder steps params with
  | error e => exact .unread e fun found status h ↦ by rw [hresolve] at h; cases h
  | ok found =>
      obtain ⟨keys, address⟩ := found
      cases hfetch : steps.fetch with
      | error e => exact .unread e fun found status _ h ↦ by rw [hfetch] at h; cases h
      | ok status =>
          by_cases hstatus : status = .active
          · subst hstatus
            exact .active hresolve hfetch
          · have hother := Begins.other hresolve hfetch hstatus
            change Begins encoder steps params (if status = .active then _ else _)
            rw [if_neg hstatus]
            exact hother

/-! ## Funding -/

theorem giverValue_eq_ok_iff : (∃ n, giverValue params = .ok n) ↔
    ∀ v, params.giverValue = some v → IsAmount (2 ^ 64) v := by
  rw [giverValue]
  cases hvalue : params.giverValue with
  | none => simp
  | some v =>
      simp only [Option.some.injEq, forall_eq', parseAmount_eq_ok_iff]
      constructor
      · rintro ⟨n, hn⟩
        exact ⟨_, hn⟩
      · rintro ⟨n, hn⟩
        exact ⟨.ofNat n, by rw [hn, UInt64.toNat_ofNat_of_lt' (lt_of_parseUnsigned hn)]⟩

theorem fund_of_refused {e : AppError} (h : giverValue params = .error e) :
    fund steps params address = ⟨[], .error e⟩ := by
  rw [fund, h]
  rfl

theorem fund_of_accepted {value : UInt64} (h : giverValue params = .ok value) :
    fund steps params address =
      ⟨[.sendCurrencyWithFlag address 0 [(shellCurrencyId, value)] giverFlag],
        inContext "giver account-creation failed (giver is available on shellnet only)"
          steps.create.answer >>= fun _ ↦ steps.waitUninit⟩ := by
  rw [fund, h]
  cases hanswer : steps.create.answer with
  | error e => rfl
  | ok _ => rfl

theorem fund_result_eq_ok_iff : (fund steps params address).result = .ok () ↔
    (∃ value, giverValue params = .ok value) ∧ steps.create.answer = .ok () ∧
      steps.waitUninit = .ok () := by
  cases hvalue : giverValue params with
  | error e => rw [fund_of_refused hvalue]; simp
  | ok value =>
      rw [fund_of_accepted hvalue]
      simp only [Outcome.bind_eq_ok_iff, inContext_eq_ok_iff]
      constructor
      · rintro ⟨⟨⟩, hanswer, hwait⟩
        exact ⟨⟨value, rfl⟩, hanswer, hwait⟩
      · rintro ⟨-, hanswer, hwait⟩
        exact ⟨(), hanswer, hwait⟩

/-! ## The deploy, and the transfer that is held -/

theorem deployMultisig_result_eq_ok_iff {spec : MultisigDeploySpec} {waitForActive : Bool}
    (haddress : computeMultisigAddress encoder spec = .ok address) :
    (∃ outcome, (deployMultisig encoder steps spec waitForActive).result = .ok outcome) ↔
      DeploySucceeds steps waitForActive := by
  rw [deployMultisig, haddress, DeploySucceeds]
  simp only [Reporting.bind_result_eq_ok_iff, Reporting.liftM_result]
  constructor
  · rintro ⟨outcome, _, ⟨⟩, status, hstatus, hrest⟩
    refine ⟨status, hstatus, fun hne ↦ ?_⟩
    rw [if_neg hne] at hrest
    simp only [Reporting.bind_result_eq_ok_iff, Reporting.liftM_result] at hrest
    obtain ⟨_, hprepare, _, -, tx, htx, hwait⟩ := hrest
    refine ⟨hprepare, ⟨tx, htx⟩, fun htrue ↦ ?_⟩
    rw [if_pos htrue, Reporting.bind_result_eq_ok_iff] at hwait
    obtain ⟨_, hwait, -⟩ := hwait
    exact hwait
  · rintro ⟨status, hstatus, hrest⟩
    by_cases hactive : status = .active
    · refine ⟨⟨canonicalAddress address, true, none⟩, address, rfl, status, hstatus, ?_⟩
      rw [if_pos hactive]
      rfl
    · obtain ⟨hprepare, ⟨tx, htx⟩, hwait⟩ := hrest hactive
      refine ⟨⟨canonicalAddress address, false, tx⟩, address, rfl, status, hstatus, ?_⟩
      rw [if_neg hactive]
      simp only [Reporting.bind_result_eq_ok_iff, Reporting.liftM_result]
      refine ⟨(), hprepare, (), rfl, tx, htx, ?_⟩
      cases waitForActive with
      | true => rw [if_pos rfl, Reporting.bind_of_ok (hwait rfl)]; rfl
      | false => rfl

theorem held_append (events events' : List Message) :
    held (events ++ events') = held events ++ held events' :=
  List.flatMap_append

theorem held_eq_nil {α : Type} {x : Reporting Message AppError α}
    (h : x.Meets (·.held = []) fun _ ↦ True) : held x.events = [] :=
  List.flatMap_eq_nil_iff.mpr h.events

theorem meets_ofExcept {α : Type} (x : Except AppError α) :
    (Reporting.ofExcept x : Reporting Message AppError α).Meets (·.held = []) fun _ ↦ True :=
  .ofExcept fun _ _ ↦ trivial

theorem meets_emit {message : Message} (h : message.held = []) :
    (Reporting.emit message : Reporting Message AppError Unit).Meets (·.held = []) fun _ ↦ True :=
  .emit h

theorem held_fund : held (fund steps params address).events = [] := by
  apply held_eq_nil
  apply Reporting.Meets.bind (meets_ofExcept _)
  intro value _
  apply Reporting.Meets.bind (meets_emit rfl)
  intro _ _
  apply Reporting.Meets.bind (meets_ofExcept _)
  intro _ _
  exact meets_ofExcept _

theorem held_deployMultisig (encoder : Encoder) (steps : Steps) (spec : MultisigDeploySpec)
    (waitForActive : Bool) :
    held (deployMultisig encoder steps spec waitForActive).events = [] := by
  apply held_eq_nil
  apply Reporting.Meets.bind (meets_ofExcept _)
  intro address _
  apply Reporting.Meets.bind (meets_ofExcept _)
  intro status _
  split
  · exact .pure _
  · apply Reporting.Meets.bind (meets_ofExcept _)
    intro _ _
    apply Reporting.Meets.bind (meets_emit rfl)
    intro _ _
    apply Reporting.Meets.bind (meets_ofExcept _)
    intro tx _
    split
    · exact Reporting.Meets.bind (meets_ofExcept _) fun _ _ ↦ .pure _
    · exact .pure _

theorem topUp_of_refused {e : AppError} (h : parseGiverEcc (giverEccEntries params) = .error e) :
    topUp steps params address = ⟨[], .error e⟩ := by
  rw [topUp, ← giverEccEntries, h]
  rfl

theorem topUp_nil (h : parseGiverEcc (giverEccEntries params) = .ok []) :
    topUp steps params address = ⟨[], .ok ()⟩ := by
  rw [topUp, ← giverEccEntries, h]
  rfl

theorem topUp_cons {amount : UInt32 × UInt64} {amounts : List (UInt32 × UInt64)}
    (h : parseGiverEcc (giverEccEntries params) = .ok (amount :: amounts)) :
    topUp steps params address =
      ⟨[.sendCurrencyWithFlag address eccTopupGas (amount :: amounts) heldFlag],
        inContext "giver ECC top-up failed (giver is available on shellnet only)"
          steps.topUp.answer⟩ := by
  rw [topUp, ← giverEccEntries, h]
  rfl

/-- The transfer that is held carries the amounts that are asked for. -/
theorem requests_held_topUp {amounts : List (UInt32 × UInt64)}
    (h : Requests (giverEccEntries params) amounts) :
    held (topUp steps params address).events = amounts := by
  rw [← parseGiverEcc_eq_ok_iff] at h
  cases amounts with
  | nil => rw [topUp_nil h]; rfl
  | cons amount amounts =>
      rw [topUp_cons h]
      exact List.append_nil _

theorem topUp_result_eq_ok_iff : (topUp steps params address).result = .ok () ↔
    (∃ amounts, Requests (giverEccEntries params) amounts) ∧
      (giverEccEntries params ≠ [] → steps.topUp.answer = .ok ()) := by
  cases hparse : parseGiverEcc (giverEccEntries params) with
  | error e =>
      rw [topUp_of_refused hparse]
      constructor
      · rintro ⟨⟩
      · rintro ⟨⟨amounts, hamounts⟩, -⟩
        rw [parseGiverEcc_eq_ok_iff.mpr hamounts] at hparse
        cases hparse
  | ok amounts =>
      have hrequests := parseGiverEcc_eq_ok_iff.mp hparse
      cases amounts with
      | nil =>
          have hentries : giverEccEntries params = [] := List.forall₂_nil_right_iff.mp hrequests
          rw [topUp_nil hparse]
          exact ⟨fun _ ↦ ⟨⟨[], hrequests⟩, fun hne ↦ absurd hentries hne⟩, fun _ ↦ rfl⟩
      | cons amount amounts =>
          have hne : giverEccEntries params ≠ [] := by
            intro hentries
            rw [hentries] at hrequests
            cases hrequests
          rw [topUp_cons hparse, inContext_eq_ok_iff]
          exact ⟨fun hanswer ↦ ⟨⟨_, hrequests⟩, fun _ ↦ hanswer⟩, fun h ↦ h.2 hne⟩

/-! ## The part after the account is read -/

theorem fundAndDeploy_of_refused {e : AppError} (h : giverValue params = .error e) :
    fundAndDeploy encoder steps params keys address = ⟨[], .error e⟩ := by
  rw [fundAndDeploy, fund_of_refused h]
  rfl

/-- A funded call succeeds exactly if every step does. -/
theorem exists_fundAndDeploy_ok_iff
    (haddress : computeMultisigAddress encoder (deploySpec params keys) = .ok address)
    (hvalue : ∃ value, giverValue params = .ok value) :
    (∃ r, (fundAndDeploy encoder steps params keys address).result = .ok r) ↔
      Succeeds params steps := by
  have hdeploy := @deployMultisig_result_eq_ok_iff encoder steps _ _
    (params.waitForActive.getD true) haddress
  rw [fundAndDeploy]
  simp only [Reporting.bind_result_eq_ok_iff, Reporting.mapError_result_eq_ok_iff]
  constructor
  · rintro ⟨r, _, hfund, outcome, houtcome, _, htopUp, -⟩
    obtain ⟨-, hcreate, hwait⟩ := fund_result_eq_ok_iff.mp hfund
    obtain ⟨⟨amounts, hamounts⟩, hanswer⟩ := topUp_result_eq_ok_iff.mp htopUp
    exact ⟨hcreate, hwait, hdeploy.mp ⟨outcome, houtcome⟩, isAmount_of_requests hamounts, hanswer⟩
  · rintro ⟨hcreate, hwait, hsucceeds, hamounts, hanswer⟩
    obtain ⟨outcome, houtcome⟩ := hdeploy.mpr hsucceeds
    exact ⟨_, (), fund_result_eq_ok_iff.mpr ⟨hvalue, hcreate, hwait⟩, outcome, houtcome, (),
      topUp_result_eq_ok_iff.mpr ⟨exists_requests hamounts, hanswer⟩, rfl⟩

theorem keys_of_fundAndDeploy {r : ResultOfDeployMultisigViaGiver}
    (h : (fundAndDeploy encoder steps params keys address).result = .ok r) :
    r.publicKey = keys.publicKey ∧ r.secretKey = keys.secretKey := by
  rw [fundAndDeploy] at h
  simp only [Reporting.bind_result_eq_ok_iff] at h
  obtain ⟨-, -, outcome, -, -, -, ⟨⟩⟩ := h
  exact ⟨rfl, rfl⟩

/-- Nothing is held, or the deploy has succeeded and what is asked for is held. -/
theorem held_fundAndDeploy
    (haddress : computeMultisigAddress encoder (deploySpec params keys) = .ok address) :
    held (fundAndDeploy encoder steps params keys address).events = [] ∨
      DeploySucceeds steps (params.waitForActive.getD true) ∧
        Requests (giverEccEntries params)
          (held (fundAndDeploy encoder steps params keys address).events) := by
  have hdeploy := @deployMultisig_result_eq_ok_iff encoder steps _ _
    (params.waitForActive.getD true) haddress
  rw [fundAndDeploy]
  cases hfund : (fund steps params address).result with
  | error e =>
      rw [Reporting.bind_of_error hfund]
      exact .inl held_fund
  | ok _ =>
      rw [Reporting.bind_of_ok hfund, held_append, held_fund, List.nil_append]
      cases hresult : (Reporting.mapError (·.withContext "multisig deploy failed")
          (deployMultisig encoder steps (deploySpec params keys)
            (params.waitForActive.getD true))).result with
      | error e =>
          rw [Reporting.bind_of_error hresult, Reporting.mapError_events, held_deployMultisig]
          exact .inl rfl
      | ok outcome =>
          rw [Reporting.bind_of_ok hresult, Reporting.mapError_events, held_append,
            held_deployMultisig, List.nil_append, Reporting.bind_pure_events]
          cases hparse : parseGiverEcc (giverEccEntries params) with
          | error e =>
              rw [topUp_of_refused hparse]
              exact .inl rfl
          | ok amounts =>
              rw [parseGiverEcc_eq_ok_iff] at hparse
              rw [requests_held_topUp hparse]
              exact .inr ⟨hdeploy.mp ⟨outcome, Reporting.mapError_result_eq_ok_iff.mp hresult⟩,
                hparse⟩

/-- A call that succeeds has had its amounts sent. -/
theorem requests_held_of_ok {r : ResultOfDeployMultisigViaGiver}
    (h : (fundAndDeploy encoder steps params keys address).result = .ok r) :
    Requests (giverEccEntries params)
      (held (fundAndDeploy encoder steps params keys address).events) := by
  rw [fundAndDeploy] at h ⊢
  simp only [Reporting.bind_result_eq_ok_iff] at h
  obtain ⟨_, hfund, outcome, houtcome, _, htopUp, -⟩ := h
  obtain ⟨⟨amounts, hamounts⟩, -⟩ := topUp_result_eq_ok_iff.mp htopUp
  rw [Reporting.bind_of_ok hfund, Reporting.bind_of_ok houtcome, Reporting.mapError_events,
    held_append, held_fund, held_append, held_deployMultisig, Reporting.bind_pure_events,
    requests_held_topUp hamounts]
  exact hamounts

theorem mem_events_fundAndDeploy {value : UInt64} (h : giverValue params = .ok value) :
    .sendCurrencyWithFlag address 0 [(shellCurrencyId, value)] giverFlag ∈
      (fundAndDeploy encoder steps params keys address).events := by
  rw [fundAndDeploy]
  apply Reporting.mem_events_bind
  rw [fund_of_accepted h]
  exact List.mem_singleton_self _

theorem events_fundAndDeploy_ne_nil {value : UInt64} (h : giverValue params = .ok value) :
    (fundAndDeploy encoder steps params keys address).events ≠ [] :=
  List.ne_nil_of_mem (mem_events_fundAndDeploy h)

theorem exists_giverValue_error (h : ¬∃ value, giverValue params = .ok value) :
    ∃ e, giverValue params = .error e := by
  cases hvalue : giverValue params with
  | error e => exact ⟨e, rfl⟩
  | ok value => exact absurd ⟨value, hvalue⟩ h

end

/-! ## The three parts -/

section

variable {encoder : Encoder} {params : ParamsOfDeployMultisigViaGiver} {keys : KeyPair}
  {s t : Chain} {call : Call}

theorem not_finds_of_unread {status : AccountStatus}
    (hunread : ∀ found status, resolve encoder call.steps (call.params params) = .ok found →
      call.steps.fetch ≠ .ok status) : ¬Finds encoder params call status := by
  rintro ⟨⟨found, hfound⟩, hfetch⟩
  exact hunread found status hfound hfetch

theorem Finds.unique {status status' : AccountStatus} (h : Finds encoder params call status)
    (h' : call.steps.fetch = .ok status') : status = status' :=
  Except.ok.inj (h.2.symm.trans h')

theorem succeeds_params {steps : Steps} :
    Succeeds (call.params params) steps ↔ Succeeds params steps :=
  ⟨fun h ↦ ⟨h.create, h.waitUninit, h.deploy, h.giverEcc, h.topUp⟩,
    fun h ↦ ⟨h.create, h.waitUninit, h.deploy, h.giverEcc, h.topUp⟩⟩

/-- The amounts that the constructor gets are acceptable once there is an address. -/
theorem acceptable_iff_of_resolve {keys : KeyPair} {address : String}
    (h : resolve encoder call.steps (call.params params) = .ok (keys, address)) :
    Acceptable encoder params ↔
      (∀ v, params.giverValue = some v → IsAmount (2 ^ 64) v) ∧
        ∀ entry ∈ giverEccEntries params, IsAmount (2 ^ 64) entry.2 := by
  obtain ⟨hvalue, hconfig⟩ := of_computeMultisigAddress (of_resolve h).2
  exact ⟨fun haccept ↦ ⟨haccept.giverValue, haccept.giverEcc⟩,
    fun hgiver ↦ ⟨hgiver.1, hgiver.2, hvalue, hconfig⟩⟩

theorem validated_iff : (¬Acceptable encoder params →
      (∃ e, (call.run encoder params).result = .error e) ∧
        (call.run encoder params).events = []) ↔
    ∀ status, Finds encoder params call status → GiverCareful params status := by
  have hbegins := begins encoder call.steps (call.params params)
  rw [Call.run]
  generalize deployMultisigViaGiver encoder call.steps (call.params params) = run at hbegins ⊢
  cases hbegins with
  | unread e hunread =>
      constructor
      · exact fun _ status hfinds ↦ absurd hfinds (not_finds_of_unread hunread)
      · exact fun _ _ ↦ ⟨⟨e, rfl⟩, rfl⟩
  | active hresolve hfetch =>
      rw [acceptable_iff_of_resolve hresolve]
      constructor
      · intro hvalidated status _
        by_contra hcond
        obtain ⟨⟨e, ⟨⟩⟩, -⟩ := hvalidated fun haccept ↦ hcond (.inl haccept)
      · intro hcond haccept
        obtain h | ⟨hne, -⟩ := hcond .active ⟨⟨_, hresolve⟩, hfetch⟩
        · exact absurd h haccept
        · exact absurd rfl hne
  | other hresolve hfetch hstatus =>
      rw [acceptable_iff_of_resolve hresolve]
      by_cases hvalue : ∃ value, giverValue (call.params params) = .ok value
      · constructor
        · intro hvalidated status _
          by_contra hcond
          obtain ⟨-, hevents⟩ := hvalidated fun haccept ↦ hcond (.inl haccept)
          obtain ⟨value, hvalue⟩ := hvalue
          exact events_fundAndDeploy_ne_nil hvalue hevents
        · intro hcond haccept
          obtain h | ⟨-, v, hv, hrefused⟩ := hcond _ ⟨⟨_, hresolve⟩, hfetch⟩
          · exact absurd h haccept
          · exact absurd (giverValue_eq_ok_iff.mp hvalue v hv) hrefused
      · obtain ⟨e, he⟩ := exists_giverValue_error hvalue
        rw [fundAndDeploy_of_refused he]
        constructor
        · intro _ status hfinds
          rw [giverValue_eq_ok_iff] at hvalue
          push Not at hvalue
          exact .inr ⟨(hfinds.unique hfetch).trans_ne hstatus, hvalue⟩
        · exact fun _ _ ↦ ⟨⟨e, rfl⟩, rfl⟩

theorem generateKeys_of_ownerKeys {own : KeyPair} (hkeys : call.keys = none)
    (h : ownerKeys call.steps (call.params params) = .ok own) :
    call.steps.generateKeys = .ok own := by
  have hnone : (call.params params).keys = none := hkeys
  rw [ownerKeys, hnone] at h
  exact h

theorem keys_iff : (call.keys = none → ValueSent encoder params call →
      ∃ keys r, call.steps.generateKeys = .ok keys ∧
        (call.run encoder params).result = .ok r ∧ r.publicKey = keys.publicKey ∧
          r.secretKey = keys.secretKey) ↔
    (call.keys = none → Funds encoder params call → call.steps.create.sent = true →
      Succeeds params call.steps) := by
  have hbegins := begins encoder call.steps (call.params params)
  rw [ValueSent, Call.run]
  generalize deployMultisigViaGiver encoder call.steps (call.params params) = run at hbegins ⊢
  cases hbegins with
  | unread e hunread =>
      constructor
      · rintro _ _ ⟨status, hfinds, -⟩
        exact absurd hfinds (not_finds_of_unread hunread)
      · rintro _ _ ⟨-, address, value, ecc, flag, hmem⟩
        cases hmem
  | active hresolve hfetch =>
      constructor
      · rintro _ _ ⟨status, hfinds, hstatus, -⟩
        exact absurd (hfinds.unique hfetch) hstatus
      · rintro _ _ ⟨-, address, value, ecc, flag, hmem⟩
        cases hmem
  | other hresolve hfetch hstatus =>
      obtain ⟨hown, haddress⟩ := of_resolve hresolve
      constructor
      · rintro hsafe hkeys ⟨status, hfinds, -, hamount⟩ hsent
        have hvalue := giverValue_eq_ok_iff.mpr hamount
        obtain ⟨value, hvalue'⟩ := hvalue
        obtain ⟨own, r, -, hr, -⟩ :=
          hsafe hkeys ⟨hsent, _, _, _, _, mem_events_fundAndDeploy hvalue'⟩
        exact succeeds_params.mp ((exists_fundAndDeploy_ok_iff haddress ⟨value, hvalue'⟩).mp
          ⟨r, hr⟩)
      · rintro hcond hkeys ⟨hsent, address', value, ecc, flag, hmem⟩
        have hvalue : ∃ value, giverValue (call.params params) = .ok value := by
          by_contra hrefused
          obtain ⟨e, he⟩ := exists_giverValue_error hrefused
          rw [fundAndDeploy_of_refused he] at hmem
          cases hmem
        have hfunds : Funds encoder params call :=
          ⟨_, ⟨⟨_, hresolve⟩, hfetch⟩, hstatus, giverValue_eq_ok_iff.mp hvalue⟩
        obtain ⟨r, hr⟩ := (exists_fundAndDeploy_ok_iff haddress hvalue).mpr
          (succeeds_params.mpr (hcond hkeys hfunds hsent))
        exact ⟨_, r, generateKeys_of_ownerKeys hkeys hown, hr, keys_of_fundAndDeploy hr⟩

theorem result_of_succeeds (haccept : Acceptable encoder params) {status : AccountStatus}
    (hfinds : Finds encoder params call status) (h : Succeeds params call.steps) :
    ∃ r, (call.run encoder params).result = .ok r := by
  have hbegins := begins encoder call.steps (call.params params)
  rw [Call.run]
  generalize deployMultisigViaGiver encoder call.steps (call.params params) = run at hbegins ⊢
  cases hbegins with
  | unread e hunread => exact absurd hfinds (not_finds_of_unread hunread)
  | active hresolve hfetch => exact ⟨_, rfl⟩
  | other hresolve hfetch hstatus =>
      have hvalue : ∃ value, giverValue (call.params params) = .ok value :=
        giverValue_eq_ok_iff.mpr haccept.giverValue
      exact (exists_fundAndDeploy_ok_iff (of_resolve hresolve).2 hvalue).mpr
        (succeeds_params.mpr h)

theorem active_of_deploySucceeds (hstep : CallStep encoder params keys s call t)
    (h : DeploySucceeds call.steps true) : t.active = true := by
  obtain ⟨status, hstatus, hrest⟩ := h
  by_cases hactive : status = .active
  · exact hstep.active (.inr (.inr (.inl (hactive ▸ hstatus))))
  · exact hstep.active (.inr (.inr (.inr ((hrest hactive).2.2 rfl))))

theorem waitForActive_getD (hwait : params.waitForActive ≠ some false) :
    params.waitForActive.getD true = true := by
  cases h : params.waitForActive with
  | none => rfl
  | some wait =>
      cases wait with
      | true => rfl
      | false => exact absurd h hwait

variable (params) in
/-- Nothing has been delivered, or what is asked for, to an active account. -/
def Inv (s : Chain) : Prop :=
  s.delivered = [] ∨ s.active = true ∧ Requests (giverEccEntries params) s.delivered

/-- An account that is found, and not active, has been delivered nothing. -/
theorem Inv.delivered_eq_nil (h : Inv params s) (hstep : CallStep encoder params keys s call t)
    {status : AccountStatus} (hfetch : call.steps.fetch = .ok status) (hstatus : status ≠ .active) :
    s.delivered = [] := by
  obtain h | ⟨hactive, -⟩ := h
  · exact h
  · exact absurd (hstep.stays hactive status hfetch) hstatus

theorem Inv.step (h : Inv params s) (hwait : params.waitForActive ≠ some false)
    (hstep : CallStep encoder params keys s call t) : Inv params t := by
  have hdelivered := hstep.delivered
  by_cases hheld : (if call.steps.topUp.sent = true then
      held (call.run encoder params).events else []) = []
  · rw [hheld, List.append_nil] at hdelivered
    obtain hnil | ⟨hactive, hrequests⟩ := h
    · exact .inl (hdelivered.trans hnil)
    · exact .inr ⟨hstep.active (.inl hactive), hdelivered ▸ hrequests⟩
  · have hsent : call.steps.topUp.sent = true := by
      by_contra hsent
      exact hheld (if_neg hsent)
    rw [if_pos hsent] at hheld hdelivered
    have hbegins := begins encoder call.steps (call.params params)
    rw [← Call.run] at hbegins
    generalize call.run encoder params = run at hbegins hheld hdelivered
    cases hbegins with
    | unread e hunread => exact absurd rfl hheld
    | active hresolve hfetch => exact absurd rfl hheld
    | other hresolve hfetch hstatus =>
        rw [h.delivered_eq_nil hstep hfetch hstatus, List.nil_append] at hdelivered
        obtain hnil | ⟨hdeploy, hrequests⟩ := held_fundAndDeploy (of_resolve hresolve).2
        · exact absurd hnil hheld
        · rw [← hdelivered] at hrequests
          change DeploySucceeds _ (params.waitForActive.getD true) at hdeploy
          rw [waitForActive_getD hwait] at hdeploy
          exact .inr ⟨active_of_deploySucceeds hstep hdeploy, hrequests⟩

theorem Inv.run {calls : List Call} (h : Inv params s) (hwait : params.waitForActive ≠ some false)
    (hrun : Run (CallStep encoder params keys) s calls t) : Inv params t :=
  hrun.invariant _ (fun _ _ _ hs hstep ↦ hs.step hwait hstep) h

theorem delivered_iff (h : Inv params s) (hwait : params.waitForActive ≠ some false)
    (hstep : CallStep encoder params keys s call t) :
    (∀ r, (call.run encoder params).result = .ok r →
      t.active = true ∧ Requests (giverEccEntries params) t.delivered) ↔
    (Finds encoder params call .active → Requests (giverEccEntries params) s.delivered) := by
  have hdelivered := hstep.delivered
  have hbegins := begins encoder call.steps (call.params params)
  rw [← Call.run] at hbegins
  generalize call.run encoder params = run at hbegins hdelivered ⊢
  cases hbegins with
  | unread e hunread =>
      constructor
      · exact fun _ hfinds ↦ absurd hfinds (not_finds_of_unread hunread)
      · rintro _ r ⟨⟩
  | active hresolve hfetch =>
      have hsame : t.delivered = s.delivered := by
        rw [hdelivered]
        split <;> exact List.append_nil _
      rw [hsame]
      constructor
      · exact fun hsafe _ ↦ (hsafe _ rfl).2
      · exact fun hcond r _ ↦ ⟨hstep.active (.inr (.inl hfetch)), hcond ⟨⟨_, hresolve⟩, hfetch⟩⟩
  | other hresolve hfetch hstatus =>
      obtain ⟨hown, haddress⟩ := of_resolve hresolve
      rw [h.delivered_eq_nil hstep hfetch hstatus, List.nil_append] at hdelivered
      constructor
      · exact fun _ hfinds ↦ absurd (hfinds.unique hfetch).symm hstatus
      · intro _ r hr
        have hvalue : ∃ value, giverValue (call.params params) = .ok value := by
          by_contra hrefused
          obtain ⟨e, he⟩ := exists_giverValue_error hrefused
          rw [fundAndDeploy_of_refused he] at hr
          cases hr
        have hsucceeds := (exists_fundAndDeploy_ok_iff haddress hvalue).mp ⟨r, hr⟩
        have hdeploy := hsucceeds.deploy
        change DeploySucceeds _ (params.waitForActive.getD true) at hdeploy
        rw [waitForActive_getD hwait] at hdeploy
        refine ⟨active_of_deploySucceeds hstep hdeploy, ?_⟩
        have hrequests := requests_held_of_ok hr
        change Requests (giverEccEntries params) _ at hrequests
        by_cases hentries : giverEccEntries params = []
        · rw [hentries] at hrequests ⊢
          rw [List.forall₂_nil_left_iff.mp hrequests, ite_self] at hdelivered
          rw [hdelivered]
          exact .nil
        · have hsent := call.steps.topUp.sent_of_ok (hsucceeds.topUp hentries)
          rw [hdelivered, if_pos hsent]
          exact hrequests

end

/-! ## Two calls, and an amount that is refused too late -/

def exampleEncoder : Encoder where
  encodeMessage params :=
    match Text.parseUnsigned (2 ^ 64) params.input.value with
    | some _ => .ok "0:account"
    | none => .error (.new "no uint64")
  IsUint64 value := ∃ n, Text.parseUnsigned (2 ^ 64) value = some n
  isUint64_of_ok params address h := by
    split at h
    · rename_i n hn
      exact ⟨n, hn⟩
    · cases h

def exampleKeys : KeyPair := ⟨"public", "secret"⟩

def exampleParams (giverEcc : List (UInt32 × String)) : ParamsOfDeployMultisigViaGiver where
  keys := none
  ownersPubkey := none
  reqConfirms := none
  reqConfirmsData := none
  constructorValue := none
  balanceConfig := none
  giverValue := none
  giverEcc := some giverEcc
  waitForActive := none

def exampleTransfer : Transfer := ⟨true, .ok (), fun _ ↦ rfl⟩

/-- A network on which everything succeeds. -/
def exampleSteps : Steps where
  createClient := .ok ()
  generateKeys := .ok exampleKeys
  fetch := .ok .nonExist
  create := exampleTransfer
  waitUninit := .ok ()
  fetchAgain := .ok .uninit
  prepare := .ok ()
  deploy := .ok (some "tx")
  waitActive := .ok ()
  topUp := exampleTransfer

def generating : Call := ⟨none, exampleSteps⟩

/-- The account does not appear in time. -/
def failing : Call := ⟨some exampleKeys,
  { exampleSteps with
    waitUninit := .error (.new "timeout")
    waitActive := .error (.new "timeout") }⟩

def retrying : Call := ⟨some exampleKeys, exampleSteps⟩

end Multisig

end BeeEngine
