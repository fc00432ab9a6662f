import BeeEngine.FactorEndings
import BeeEngine.Lib.Transition

/-!
# Factors that are counted

`add_zkp_factor` and `delete_zkp_factor_by_itself` wait for a number of factors.
Here they run beside other clients that add and remove factors of the same
multifactor.
-/

namespace BeeEngine

namespace FactorCount

open FactorProgress Transition

/-! ## Removing a factor -/

structure DeleteZkpFactorByItselfReq where
  multifactorAddress : String
  signerKeys : KeyPair
  deriving DecidableEq, Repr

/-- What is answered outside this code, for one call. -/
structure DeleteSteps where
  getEpkExpireAt : String → Except AppError UInt64
  account : Account
  deleteZkpFactorByItself : UInt64 → KeyPair → Except AppError ResultOfSendMessage
  factorAccount : ℕ → Account

/-- The function until the network has accepted the message, with the account
that it has read before. -/
def submitDelete (steps : DeleteSteps) (params : DeleteZkpFactorByItselfReq) :
    Except AppError (MultifactorData × ResultOfSendMessage) := do
  let epkExpireAt ← inContext "Get EPK expire at"
    (steps.getEpkExpireAt ("0x" ++ params.signerKeys.publicKey))
  let data ← getMultifactorDecodedData params.multifactorAddress steps.account
  let result ← inContext "delete_zkp_factor_by_itself"
    (steps.deleteZkpFactorByItself epkExpireAt params.signerKeys)
  let result ← ensureTxSuccess result "delete_zkp_factor_by_itself"
  return (data, result)

/-- A read of the account while the removal is awaited. -/
def fetchDeleted (steps : DeleteSteps) (address : String) (i : ℕ) :
    Except AppError MultifactorData :=
  inContext "Multifactor get details" (getMultifactorDecodedData address (steps.factorAccount i))

def hasOneLess (data : MultifactorData) (data' : MultifactorData) : Bool :=
  factorsLen data' = factorsLen data - 1

def deleteZkpFactorByItself (steps : DeleteSteps) (params : DeleteZkpFactorByItselfReq) :
    Except AppError ResultOfSendMessage := do
  let (data, result) ← submitDelete steps params
  let _ ← (pollUntil AppError.new (fetchDeleted steps params.multifactorAddress)
    (hasOneLess data) none).1
  return result

/-! ## The calls -/

inductive Operation where
  | addZkpFactor
  | deleteZkpFactorByItself
  deriving DecidableEq, Repr

/-- A call.  The first one is given the account that was read for it. -/
inductive Call where
  | addZkpFactor (steps : Steps) (address : String) (data : MultifactorData)
      (params : ParamsOfAddZKPFactor)
  | deleteZkpFactorByItself (steps : DeleteSteps) (params : DeleteZkpFactorByItselfReq)

namespace Call

def operation : Call → Operation
  | addZkpFactor _ _ _ _ => .addZkpFactor
  | deleteZkpFactorByItself _ _ => .deleteZkpFactorByItself

/-- The factor that the call is about. -/
def factor : Call → String
  | addZkpFactor _ _ _ params => "0x" ++ params.epk
  | deleteZkpFactorByItself _ params => "0x" ++ params.signerKeys.publicKey

def result : Call → Except AppError Unit
  | addZkpFactor steps address data params =>
      (cmdAddZkpFactor steps address data params).result.map fun _ ↦ ()
  | deleteZkpFactorByItself steps params =>
      (BeeEngine.FactorCount.deleteZkpFactorByItself steps params).map fun _ ↦ ()

/-- The account from before the message, if the message is accepted. -/
def submit : Call → Except AppError MultifactorData
  | addZkpFactor steps _ data params => (submitZkpFactor steps params).result.map fun _ ↦ data
  | deleteZkpFactorByItself steps params => (submitDelete steps params).map Prod.fst

def read : Call → ℕ → Except AppError MultifactorData
  | addZkpFactor steps address _ _ => fetchFactor steps address
  | deleteZkpFactorByItself steps params => fetchDeleted steps params.multifactorAddress

def awaited : Call → MultifactorData → MultifactorData → Bool
  | addZkpFactor _ _ _ _ => hasTargetLen
  | deleteZkpFactorByItself _ _ => hasOneLess

def maxAttempts : Call → UInt32
  | addZkpFactor _ _ _ _ => addFactorConfirmMaxAttempts
  | deleteZkpFactorByItself _ _ => 100

/-- The error with which the call gives up waiting. -/
def IsTimeout : Call → AppError → Prop
  | addZkpFactor _ _ _ _, e => e.kind = some addFactorTimeout
  | deleteZkpFactorByItself _ _, e => isConfirmationPendingError e = true

/-- The polls: what they give, and how many are made. -/
def polls (call : Call) (data : MultifactorData) : Except AppError MultifactorData × ℕ :=
  pollUntil AppError.new call.read (call.awaited data) (some call.maxAttempts)

end Call

/-! ## The multifactor -/

/-- The factors of a multifactor, the oldest first. -/
structure Factors where
  list : List String
  nodup : list.Nodup
  length_le : list.length ≤ 10

namespace Factors

/-- Adds a factor.  The oldest one makes room for it. -/
def add (factors : Factors) (factor : String) (h : factor ∉ factors.list) : Factors where
  list := (if factors.list.length < 10 then factors.list else factors.list.tail) ++ [factor]
  nodup := by
    split
    · exact List.Nodup.append factors.nodup (List.nodup_singleton _) (by simpa using h)
    · refine List.Nodup.append factors.nodup.tail (List.nodup_singleton _) ?_
      simpa using fun hmem ↦ h (List.mem_of_mem_tail hmem)
  length_le := by
    have hle := factors.length_le
    split <;> simp <;> omega

def remove (factors : Factors) (factor : String) : Factors where
  list := factors.list.erase factor
  nodup := factors.nodup.erase _
  length_le := List.length_erase_le.trans factors.length_le

end Factors

inductive Change where
  | add (factor : String)
  | remove (factor : String)
  deriving DecidableEq, Repr

/-- A factor is added if it is not there, and removed if it is. -/
inductive Change.Takes : Change → Factors → Factors → Prop
  | add {factors : Factors} {factor : String} (h : factor ∉ factors.list) :
      Takes (.add factor) factors (factors.add factor h)
  | remove {factors : Factors} {factor : String} (h : factor ∈ factors.list) :
      Takes (.remove factor) factors (factors.remove factor)

namespace Operation

def change : Operation → String → Change
  | addZkpFactor, factor => .add factor
  | deleteZkpFactorByItself, factor => .remove factor

/-- The factor has been added, or removed. -/
def Settled : Operation → String → Factors → Prop
  | addZkpFactor, factor, factors => factor ∈ factors.list
  | deleteZkpFactorByItself, factor, factors => factor ∉ factors.list

instance (op : Operation) (factor : String) (factors : Factors) :
    Decidable (op.Settled factor factors) :=
  match op with
  | addZkpFactor => inferInstanceAs (Decidable (factor ∈ factors.list))
  | deleteZkpFactorByItself => inferInstanceAs (Decidable (factor ∉ factors.list))

/-- How the number of factors changes. -/
def delta : Operation → ℤ
  | addZkpFactor => 1
  | deleteZkpFactorByItself => -1

end Operation

/-! ## One call beside other clients -/

/-- The multifactor since the first read of a call. -/
structure Chain where
  factors : Factors
  /-- The message of the call has not taken effect. -/
  pending : Bool
  /-- The factor has been added, or removed, at some time. -/
  hasSettled : Bool
  /-- By how much other clients have changed the number of factors. -/
  others : ℤ

inductive Label where
  /-- The message of the call takes effect. -/
  | own
  | other (change : Change)
  deriving DecidableEq, Repr

section

variable (op : Operation) (factor : String)

inductive Step : Chain → Label → Chain → Prop
  | own {chain : Chain} {factors : Factors} (hpending : chain.pending = true)
      (htakes : (op.change factor).Takes chain.factors factors) :
      Step chain .own
        ⟨factors, false, chain.hasSettled || decide (op.Settled factor factors), chain.others⟩
  | other {chain : Chain} {factors : Factors} (change : Change)
      (htakes : change.Takes chain.factors factors) :
      Step chain (.other change)
        ⟨factors, chain.pending, chain.hasSettled || decide (op.Settled factor factors),
          chain.others + (factors.list.length - chain.factors.list.length)⟩

def init (factors : Factors) : Chain := ⟨factors, true, decide (op.Settled factor factors), 0⟩

/-- The multifactor at the first read and at each of the polls. -/
structure Schedule where
  start : Factors
  chain : ℕ → Chain
  labels : ℕ → List Label
  chain_zero : chain 0 = init op factor start
  run : ∀ i, Run (Step op factor) (chain i) (labels i) (chain (i + 1))

end

/-- The multifactor of a call. -/
abbrev Call.Schedule (call : Call) : Type := FactorCount.Schedule call.operation call.factor

section

-- How the contract prints a number.
variable (render : ℕ → String) (call : Call) (schedule : call.Schedule)

/-- The reads show how many factors there are. -/
structure Shows : Prop where
  first : ∀ data, call.submit = .ok data →
    data.factorsLen = render schedule.start.list.length
  polls : ∀ i data, call.read i = .ok data →
    data.factorsLen = render (schedule.chain (i + 1)).factors.list.length

/-! ## What is claimed -/

structure Confirms : Prop where
  /-- Success is told only after the factor has been added, or removed. -/
  effect : call.result = .ok () → ∃ data, call.submit = .ok data ∧
    (schedule.chain (call.polls data).2).hasSettled = true
  /-- If that lasts until the polls end, the call does not give up. -/
  lasting : (∃ data, call.submit = .ok data) →
    (∃ k < call.maxAttempts.toNat, ∀ i, k ≤ i → i < call.maxAttempts.toNat →
      call.operation.Settled call.factor (schedule.chain (i + 1)).factors) →
    ∀ e, call.result = .error e → ¬call.IsTimeout e

/-- There is room for a factor that is added. -/
def Room (op : Operation) (factors : Factors) : Prop :=
  op = .addZkpFactor → factors.list.length < 10

/-- The factor of the call finds room, and is not added, or removed, by others. -/
def Undisturbed (op : Operation) (factor : String) (chain : Chain) : Label → Prop
  | .own => Room op chain.factors
  | .other change => ¬op.Settled factor chain.factors →
      ∀ factors, change.Takes chain.factors factors → ¬op.Settled factor factors

/-- The number of factors tells what has become of the message. -/
structure Quiet : Prop where
  readable : ∀ n ≤ 10, Text.parseSigned (2 ^ 31) (render n) = some (n : ℤ)
  /-- No read fails with an error that is taken for a timeout. -/
  reads : ∀ i < call.maxAttempts.toNat, ∀ e, call.read i = .error e →
    isConfirmationPendingError e = false
  unsettled : ¬call.operation.Settled call.factor schedule.start
  room : Room call.operation schedule.start
  run : ∀ i < call.maxAttempts.toNat,
    Run (Guarded (Undisturbed call.operation call.factor) (Step call.operation call.factor))
      (schedule.chain i) (schedule.labels i) (schedule.chain (i + 1))
  /-- Whenever the factors are counted, the changes of others cancel out. -/
  balanced : ∀ i < call.maxAttempts.toNat, (schedule.chain (i + 1)).others = 0

end

/-! ## Changes -/

section

variable {op : Operation} {factor : String} {factors factors' : Factors}

theorem settled_of_takes (h : (op.change factor).Takes factors factors') :
    op.Settled factor factors' := by
  cases op with
  | addZkpFactor =>
      obtain ⟨hnew⟩ | _ := h
      exact List.mem_append_right _ (List.mem_singleton_self _)
  | deleteZkpFactorByItself =>
      obtain _ | ⟨hmem⟩ := h
      exact factors.nodup.not_mem_erase

theorem length_of_takes (h : (op.change factor).Takes factors factors') (hroom : Room op factors) :
    (factors'.list.length : ℤ) = factors.list.length + op.delta := by
  cases op with
  | addZkpFactor =>
      obtain ⟨hnew⟩ | _ := h
      change (((if factors.list.length < 10 then factors.list else factors.list.tail) ++
        [factor]).length : ℤ) = factors.list.length + 1
      rw [if_pos (hroom rfl), List.length_append]
      rfl
  | deleteZkpFactorByItself =>
      obtain _ | ⟨hmem⟩ := h
      have hpos := List.length_pos_of_mem hmem
      change (((factors.list.erase factor).length : ℕ) : ℤ) = factors.list.length + -1
      rw [List.length_erase_of_mem hmem]
      omega

/-! ## The state of the message -/

/-- Beside the changes of others, only the message of the call has changed the
number of factors. -/
structure Inv (op : Operation) (factor : String) (start : ℕ) (chain : Chain) : Prop where
  pending : chain.pending = true → ¬op.Settled factor chain.factors ∧
    (chain.factors.list.length : ℤ) = start + chain.others
  effected : chain.pending = false → chain.hasSettled = true ∧
    (chain.factors.list.length : ℤ) = start + op.delta + chain.others

theorem inv_init (h : ¬op.Settled factor factors) :
    Inv op factor factors.list.length (init op factor factors) where
  pending _ := ⟨h, (add_zero _).symm⟩
  effected hpending := by cases hpending

theorem Inv.step {start : ℕ} {chain chain' : Chain} {label : Label} (h : Inv op factor start chain)
    (hundisturbed : Undisturbed op factor chain label) (hstep : Step op factor chain label chain') :
    Inv op factor start chain' := by
  cases hstep with
  | own hpending htakes =>
      refine ⟨by rintro ⟨⟩, fun _ ↦ ⟨?_, ?_⟩⟩
      · rw [decide_eq_true (settled_of_takes htakes), Bool.or_true]
      · rw [length_of_takes htakes hundisturbed, (h.pending hpending).2]
        ring
  | other change htakes =>
      constructor
      · intro hpending
        obtain ⟨hunsettled, hlength⟩ := h.pending hpending
        refine ⟨hundisturbed hunsettled _ htakes, ?_⟩
        dsimp only
        omega
      · intro hpending
        obtain ⟨hsettled, hlength⟩ := h.effected hpending
        refine ⟨Bool.or_eq_true_iff.mpr (.inl hsettled), ?_⟩
        dsimp only
        omega

end

section

variable {render : ℕ → String} {call : Call} {schedule : call.Schedule}

theorem Quiet.inv (h : Quiet render call schedule) {i : ℕ} (hi : i ≤ call.maxAttempts.toNat) :
    Inv call.operation call.factor schedule.start.list.length (schedule.chain i) := by
  induction i with
  | zero =>
      rw [schedule.chain_zero]
      exact inv_init h.unsettled
  | succ i ih =>
      apply (h.run i hi).invariant _ _ (ih (Nat.le_of_lt hi))
      rintro s l t hs ⟨hundisturbed, hstep⟩
      exact hs.step hundisturbed hstep

/-! ## The numbers -/

theorem ofInt_eq_target_iff : ∀ n < (10 : ℕ), ∀ m < (11 : ℕ),
    (Int32.ofInt m = min (Int32.ofInt n + 1) maxNumOfFactors ↔ m = n + 1) := by
  decide +kernel

theorem ofInt_eq_less_iff : ∀ n < (11 : ℕ), ∀ m < (11 : ℕ),
    (Int32.ofInt m = Int32.ofInt n - 1 ↔ m + 1 = n) := by
  decide +kernel

theorem Quiet.factorsLen_eq (h : Quiet render call schedule) {data : MultifactorData}
    {factors : Factors} (hdata : data.factorsLen = render factors.list.length) :
    factorsLen data = Int32.ofInt factors.list.length := by
  rw [factorsLen, hdata, h.readable _ factors.length_le]
  rfl

/-- The number is awaited that the effect of the message gives. -/
theorem Quiet.awaited_iff (h : Quiet render call schedule) {data data' : MultifactorData}
    {factors : Factors} (hdata : data.factorsLen = render schedule.start.list.length)
    (hdata' : data'.factorsLen = render factors.list.length) :
    call.awaited data data' = true ↔
      (factors.list.length : ℤ) = schedule.start.list.length + call.operation.delta := by
  have hlen := h.factorsLen_eq hdata
  have hlen' := h.factorsLen_eq hdata'
  have hroom := h.room
  have hle := Nat.lt_succ_of_le schedule.start.length_le
  have hle' := Nat.lt_succ_of_le factors.length_le
  cases call with
  | addZkpFactor steps address first params =>
      have hnum := ofInt_eq_target_iff _ (hroom rfl) _ hle'
      change decide (factorsLen data' = min (factorsLen data + 1) maxNumOfFactors) = true ↔
        (factors.list.length : ℤ) = schedule.start.list.length + 1
      rw [decide_eq_true_iff, hlen, hlen', hnum]
      omega
  | deleteZkpFactorByItself steps params =>
      have hnum := ofInt_eq_less_iff _ hle _ hle'
      change decide (factorsLen data' = factorsLen data - 1) = true ↔
        (factors.list.length : ℤ) = schedule.start.list.length + -1
      rw [decide_eq_true_iff, hlen, hlen', hnum]
      omega

theorem Operation.delta_ne_zero (op : Operation) : op.delta ≠ 0 := by
  cases op <;> decide

/-- A poll sees the number that it waits for exactly if the message has taken effect. -/
theorem Quiet.awaited_iff_effected (h : Quiet render call schedule)
    (hshows : Shows render call schedule) {data data' : MultifactorData} {i : ℕ}
    (hi : i < call.maxAttempts.toNat) (hdata : call.submit = .ok data)
    (hdata' : call.read i = .ok data') :
    call.awaited data data' = true ↔ (schedule.chain (i + 1)).pending = false := by
  rw [h.awaited_iff (hshows.first data hdata) (hshows.polls i data' hdata')]
  have hinv : Inv call.operation call.factor schedule.start.list.length
      (schedule.chain (i + 1)) := h.inv hi
  have hbalanced := h.balanced i hi
  have hdelta := call.operation.delta_ne_zero
  cases hpending : (schedule.chain (i + 1)).pending with
  | true =>
      have hlength := (hinv.pending hpending).2
      simp only [Bool.true_eq_false, iff_false]
      omega
  | false =>
      have hlength := (hinv.effected hpending).2
      simp only [iff_true]
      omega

/-! ## Results -/

theorem cmdAddZkpFactor_eq_ok_iff {steps : Steps} {address : String} {data : MultifactorData}
    {params : ParamsOfAddZKPFactor} :
    (∃ id, (cmdAddZkpFactor steps address data params).result = .ok id) ↔
      (∃ result, (submitZkpFactor steps params).result = .ok result) ∧
      ∃ data', (polledFactor steps ⟨address, data, []⟩).1 = .ok data' := by
  cases hsubmit : (submitZkpFactor steps params).result with
  | error e =>
      rw [cmdAddZkpFactor, Reporting.bind_of_error hsubmit]
      simp
  | ok result =>
      rw [cmdAddZkpFactor_of_submitted ⟨address, data, []⟩ hsubmit]
      cases hpolled : (polledFactor steps ⟨address, data, []⟩).1 with
      | ok data' =>
          rw [confirm_of_ok hpolled]
          simp [Except.map]
      | error e =>
          cases hpending : isConfirmationPendingError e with
          | true =>
              rw [confirm_of_pending hpolled hpending]
              simp [Except.map]
          | false =>
              rw [confirm_of_error hpolled hpending]
              simp [Except.map]

/-- A call succeeds if its message is accepted and a poll sees the awaited number. -/
theorem Call.result_eq_ok_iff (call : Call) : call.result = .ok () ↔
    ∃ data, call.submit = .ok data ∧ ∃ data', (call.polls data).1 = .ok data' := by
  cases call with
  | addZkpFactor steps address data params =>
      have hiff := @cmdAddZkpFactor_eq_ok_iff steps address data params
      simp only [Call.result, Call.submit, Outcome.map_eq_ok_iff, and_true]
      rw [hiff]
      constructor
      · rintro ⟨⟨result, hresult⟩, data', hdata'⟩
        exact ⟨data, ⟨result, hresult, rfl⟩, data', hdata'⟩
      · rintro ⟨_, ⟨result, hresult, rfl⟩, data', hdata'⟩
        exact ⟨⟨result, hresult⟩, data', hdata'⟩
  | deleteZkpFactorByItself steps params =>
      simp only [Call.result, Call.submit, Outcome.map_eq_ok_iff, and_true]
      rw [FactorCount.deleteZkpFactorByItself]
      simp only [Outcome.bind_eq_ok_iff]
      constructor
      · rintro ⟨result, ⟨data, _⟩, hsubmit, data', hdata', -⟩
        exact ⟨data, ⟨_, hsubmit, rfl⟩, data', hdata'⟩
      · rintro ⟨_, ⟨⟨data, result⟩, hsubmit, rfl⟩, data', hdata'⟩
        exact ⟨result, ⟨data, result⟩, hsubmit, data', hdata', rfl⟩

theorem Call.polls_addZkpFactor (steps : Steps) (address : String)
    (first data : MultifactorData) (params : ParamsOfAddZKPFactor) :
    (Call.addZkpFactor steps address first params).polls data =
      polledFactor steps ⟨address, data, []⟩ := by
  rw [Call.polls, polledFactor]
  rfl

theorem Call.polls_deleteZkpFactorByItself (steps : DeleteSteps)
    (params : DeleteZkpFactorByItselfReq) (data : MultifactorData) :
    (Call.deleteZkpFactorByItself steps params).polls data =
      pollUntil AppError.new (fetchDeleted steps params.multifactorAddress) (hasOneLess data)
        none := by
  rw [Call.polls]
  rfl

/-- A read that fails ends the call with its error. -/
theorem Call.result_of_error (call : Call) {data : MultifactorData} {e : AppError}
    (hsubmit : call.submit = .ok data) (hpolls : (call.polls data).1 = .error e)
    (hpending : isConfirmationPendingError e = false) : call.result = .error e := by
  cases call with
  | addZkpFactor steps address first params =>
      obtain ⟨result, hresult, rfl⟩ := Outcome.map_eq_ok_iff.mp hsubmit
      rw [Call.polls_addZkpFactor] at hpolls
      rw [Call.result, cmdAddZkpFactor_of_submitted ⟨address, first, []⟩ hresult,
        confirm_of_error hpolls hpending]
      rfl
  | deleteZkpFactorByItself steps params =>
      obtain ⟨⟨_, result⟩, hresult, rfl⟩ := Outcome.map_eq_ok_iff.mp hsubmit
      rw [Call.polls_deleteZkpFactorByItself] at hpolls
      rw [Call.result, FactorCount.deleteZkpFactorByItself, hresult, Outcome.ok_bind]
      dsimp only at hpolls ⊢
      rw [hpolls]
      rfl

theorem Call.not_isTimeout_of_read (call : Call) {i : ℕ} {e : AppError}
    (hread : call.read i = .error e) (hpending : isConfirmationPendingError e = false) :
    ¬call.IsTimeout e := by
  cases call with
  | addZkpFactor steps address first params =>
      exact avoids_inContext _ (avoids_getMultifactorDecodedData _ _) e hread
  | deleteZkpFactorByItself steps params =>
      rw [Call.IsTimeout, hpending]
      exact Bool.false_ne_true

theorem Call.polled (call : Call) (data : MultifactorData) :
    Polled call.read (call.awaited data) (AppError.new (maxAttemptsText call.maxAttempts)) 0
      call.maxAttempts.toNat (call.polls data) := by
  have hpolled := @polled_pollLoop _ _ call.read (call.awaited data)
    (AppError.new (maxAttemptsText call.maxAttempts)) call.maxAttempts.toNat 0
  rw [Nat.zero_add] at hpolled
  exact hpolled

theorem Quiet.hasSettled_of_result (h : Quiet render call schedule)
    (hshows : Shows render call schedule) (hresult : call.result = .ok ()) :
    ∃ data, call.submit = .ok data ∧ (schedule.chain (call.polls data).2).hasSettled = true := by
  obtain ⟨data, hsubmit, data', hdata'⟩ := call.result_eq_ok_iff.mp hresult
  refine ⟨data, hsubmit, ?_⟩
  have hpolled := call.polled data
  generalize call.polls data = polled at hpolled hdata'
  cases hpolled with
  | found hfirst hn hbefore hread hawaited =>
      rw [h.awaited_iff_effected hshows hn hsubmit hread] at hawaited
      exact ((h.inv hn).effected hawaited).1
  | failed hfirst hn hbefore hread => cases hdata'
  | exhausted hall => cases hdata'

/-- The polls do not run out after an effect that lasts. -/
theorem Quiet.polls_of_lasting (h : Quiet render call schedule)
    (hshows : Shows render call schedule) {data : MultifactorData}
    (hsubmit : call.submit = .ok data) {k : ℕ} (hk : k < call.maxAttempts.toNat)
    (hlasting : ∀ i, k ≤ i → i < call.maxAttempts.toNat →
      call.operation.Settled call.factor (schedule.chain (i + 1)).factors) :
    (∃ data', (call.polls data).1 = .ok data') ∨
      ∃ i < call.maxAttempts.toNat, ∃ e, call.read i = .error e ∧
        (call.polls data).1 = .error e := by
  have hpolled := call.polled data
  generalize call.polls data = polled at hpolled ⊢
  cases hpolled with
  | found hfirst hn hbefore hread hawaited => exact .inl ⟨_, rfl⟩
  | failed hfirst hn hbefore hread => exact .inr ⟨_, hn, _, hread, rfl⟩
  | exhausted hall =>
      -- The poll at which the effect is there would have missed it.
      obtain ⟨data', hread, hawaited⟩ := hall k (Nat.zero_le k) hk
      have heffected := h.awaited_iff_effected hshows hk hsubmit hread
      rw [hawaited] at heffected
      have hpending : (schedule.chain (k + 1)).pending = true := by
        rw [← Bool.not_eq_false]
        exact fun hfalse ↦ Bool.false_ne_true (heffected.mpr hfalse)
      exact absurd (hlasting k (Nat.le_refl k) hk) ((h.inv hk).pending hpending).1

theorem Quiet.not_isTimeout (h : Quiet render call schedule)
    (hshows : Shows render call schedule) {data : MultifactorData}
    (hsubmit : call.submit = .ok data) {k : ℕ} (hk : k < call.maxAttempts.toNat)
    (hlasting : ∀ i, k ≤ i → i < call.maxAttempts.toNat →
      call.operation.Settled call.factor (schedule.chain (i + 1)).factors)
    {e : AppError} (hresult : call.result = .error e) : ¬call.IsTimeout e := by
  obtain ⟨data', hdata'⟩ | ⟨i, hi, e', hread, he'⟩ :=
    h.polls_of_lasting hshows hsubmit hk hlasting
  · rw [call.result_eq_ok_iff.mpr ⟨data, hsubmit, data', hdata'⟩] at hresult
    cases hresult
  · have hpending := h.reads i hi e' hread
    rw [call.result_of_error hsubmit he' hpending] at hresult
    obtain rfl := Except.error.inj hresult
    exact call.not_isTimeout_of_read hread hpending

/-- A call is confirmed by its own effect while the number of factors tells it. -/
theorem confirms_of_quiet (render : ℕ → String) (call : Call) (schedule : call.Schedule)
    (hshows : Shows render call schedule) (h : Quiet render call schedule) :
    Confirms call schedule where
  effect hresult := h.hasSettled_of_result hshows hresult
  lasting := by
    rintro ⟨data, hsubmit⟩ ⟨k, hk, hlasting⟩ e hresult
    exact h.not_isTimeout hshows hsubmit hk hlasting hresult

end

/-! ## A full multifactor, and one with room -/

def exampleData (factorsLen : String) : MultifactorData :=
  ⟨"zkid", factorsLen, "0xowner", "0xjwk", "", "", []⟩

def showing (factorsLen : String) : Account := ⟨true, some (.ok (exampleData factorsLen))⟩

def exampleSend : ResultOfSendMessage := ⟨some "hash", none, none⟩

/-- A chain that accepts the message, and then always shows one number of factors. -/
def exampleSteps (factorsLen : String) : Steps where
  getIndexer _ := .ok "0:indexer"
  getDetails _ := .ok "0:multifactor"
  account := showing factorsLen
  getBocHash _ := .ok "kid"
  nowSecs := 0
  fetchTls _ _ := .ok ⟨"", ""⟩
  resolveJwkUpdateSigner _ _ _ := .ok ⟨"", ""⟩
  addJwkModulus _ _ := .ok exampleSend
  jwkAccount _ := showing factorsLen
  addZkpFactor _ _ := .ok exampleSend
  factorAccount _ := showing factorsLen
  hashPassword _ := .ok "hash"

def exampleParams : ParamsOfAddZKPFactor :=
  ⟨"wallet", "proof", "mine", "secret", "header", 0, 0, "kid", "sub", "password", "zkid"⟩

/-- Adds a factor to a multifactor that has `before` factors, and is shown `after`. -/
def exampleCall (before after : String) : Call :=
  .addZkpFactor (exampleSteps after) "0:multifactor" (exampleData before) exampleParams

def fullFactors : Factors where
  list := ["0", "1", "2", "3", "4", "5", "6", "7", "8", "9"]
  nodup := by decide
  length_le := by decide

/-- The message never takes effect. -/
def stillSchedule : (exampleCall "10" "10").Schedule where
  start := fullFactors
  chain _ := init .addZkpFactor "0xmine" fullFactors
  labels _ := []
  chain_zero := rfl
  run _ := .refl _

theorem toString_ten : "10" = toString 10 := by decide +kernel

theorem toString_two : "2" = toString 2 := by decide +kernel

/-- The number of a full multifactor is the awaited one before the factor is added. -/
theorem not_confirms : ¬∀ (call : Call) (schedule : call.Schedule),
    Shows (fun n ↦ toString n) call schedule → Confirms call schedule := by
  intro hall
  have hconfirms := hall _ stillSchedule
    ⟨by rintro _ ⟨⟩; exact toString_ten, by rintro i _ ⟨⟩; exact toString_ten⟩
  obtain ⟨data, -, hsettled⟩ := hconfirms.effect (by decide +kernel)
  cases hsettled

def oneFactor : Factors := ⟨["0xowner"], by decide, by decide⟩

theorem mine_notMem_oneFactor : "0xmine" ∉ oneFactor.list := by decide +kernel

/-- The message takes effect before the first poll. -/
def ownSchedule : (exampleCall "1" "2").Schedule where
  start := oneFactor
  chain
    | 0 => init .addZkpFactor "0xmine" oneFactor
    | _ + 1 => ⟨oneFactor.add "0xmine" mine_notMem_oneFactor, false, true, 0⟩
  labels
    | 0 => [.own]
    | _ + 1 => []
  chain_zero := rfl
  run
    | 0 => .head (.own rfl (.add _)) (.refl _)
    | _ + 1 => .refl _

theorem confirms_ownSchedule : Confirms (exampleCall "1" "2") ownSchedule := by
  apply confirms_of_quiet fun n ↦ toString n
  · constructor
    · rintro _ ⟨⟩
      decide +kernel
    · rintro i _ ⟨⟩
      exact toString_two
  · constructor
    · decide +kernel
    · rintro i - e ⟨⟩
    · decide +kernel
    · intro _
      decide
    · rintro (_ | i) -
      · exact .head ⟨fun _ ↦ by decide, .own rfl (.add _)⟩ (.refl _)
      · exact .refl _
    · rintro i -
      rfl

end FactorCount

end BeeEngine
