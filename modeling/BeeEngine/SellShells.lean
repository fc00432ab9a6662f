import BeeEngine.Infra
import BeeEngine.Lib.Program
import BeeEngine.Lib.Transition

/-!
# Selling shells

`sell_shells` as a program that asks the accumulator and the wallet, and any
number of its calls beside one accumulator.
-/

namespace BeeEngine

open Transition

/-! ## The requests of a call -/

/-- The fields of `getQueueState` that a call reads. -/
structure QueueState where
  nextId : ℕ
  soldPrefix : ℕ
  deriving DecidableEq, Repr

structure ParamsOfSubmitTransaction where
  dest : String
  epkExpireAt : UInt64
  value : ℕ
  cc : List (UInt32 × UInt64)
  bounce : Bool
  allBalance : Bool
  deriving DecidableEq, Repr

inductive TokensRequest where
  | getQueueState (denom : UInt16)
  | submitTransaction (multifactor : String) (params : ParamsOfSubmitTransaction)
  | getSellOrderAddress (denom : UInt16) (orderId : ℕ)
  deriving DecidableEq, Repr

namespace TokensRequest

abbrev Reply : TokensRequest → Type
  | getQueueState _ => QueueState
  | submitTransaction _ _ => ResultOfSendMessage
  | getSellOrderAddress _ _ => String

/-- A request is answered, or fails. -/
abbrev Answer (request : TokensRequest) : Type := Except AppError request.Reply

end TokensRequest

abbrev TokensProgram (α : Type) : Type := Program TokensRequest TokensRequest.Answer α

abbrev TokensResult (α : Type) : Type :=
  Program.Failing TokensRequest TokensRequest.Reply AppError α

/-- A request, whose error is put in its context. -/
def requestInContext (context : String) (request : TokensRequest) : TokensResult request.Reply :=
  Program.requestOr (·.withContext context) request

/-! ## The function -/

/-- What the contract kit knows of the accumulator. -/
structure AccumulatorKit where
  defaultAddress : String
  shellEccId : UInt32
  shellAmountForDenom : UInt16 → Option ℕ
  sellOrderAddress : UInt16 → ℕ → String

structure SellShellsResult where
  messageHash : Option String
  orderId : ℕ
  denom : UInt16
  sellOrderAddress : String
  sold : Bool
  positionInQueue : ℕ
  deriving DecidableEq, Repr

/-- The arguments of a call, apart from the denomination. -/
structure Seller where
  multifactor : String
  epkExpireAt : UInt64
  bounce : Option Bool
  deriving DecidableEq, Repr

/-- The attempts that are left of `poll_until`, in a program. -/
def pollRequests {T : Type} (fetchData : TokensResult T) (predicate : T → Bool)
    (maxAttemptsErr : AppError) : ℕ → TokensResult T
  | 0 => throw maxAttemptsErr
  | left + 1 => do
      let data ← fetchData
      if predicate data then pure data
      else pollRequests fetchData predicate maxAttemptsErr left

section

variable (kit : AccumulatorKit) (denom : UInt16)

/-- The result, from the id that was read before the deposit. -/
def sellShellsResult (orderId : ℕ) (messageHash : Option String) (queueAfter : QueueState)
    (sellOrderAddress : String) : SellShellsResult :=
  let sold := decide (orderId ≤ queueAfter.soldPrefix)
  { messageHash := messageHash
    orderId := orderId
    denom := denom
    sellOrderAddress := sellOrderAddress
    sold := sold
    positionInQueue := if sold then 0 else orderId - queueAfter.soldPrefix }

def describeOrder (orderId : ℕ) (messageHash : Option String) (queueAfter : QueueState) :
    TokensResult SellShellsResult := do
  let sellOrderAddress ←
    requestInContext "sell_shells: getSellOrderAddress" (.getSellOrderAddress denom orderId)
  pure (sellShellsResult denom orderId messageHash queueAfter sellOrderAddress)

/-- Waits until the accumulator's next id has grown, for the attempts left. -/
def confirmOrder (orderId : ℕ) (messageHash : Option String) (left : ℕ) :
    TokensResult SellShellsResult := do
  let queueAfter ←
    Program.mapError (·.withContext "sell_shells: timed out waiting for order confirmation")
      (pollRequests
        (requestInContext "sell_shells: poll getQueueState" (.getQueueState denom))
        (fun state : QueueState ↦ decide (state.nextId > orderId))
        (.new (maxAttemptsText 30)) left)
  describeOrder denom orderId messageHash queueAfter

def orderParams (seller : Seller) (shellAmount : ℕ) : ParamsOfSubmitTransaction where
  dest := kit.defaultAddress
  epkExpireAt := seller.epkExpireAt
  value := 1000000000
  cc := [(kit.shellEccId, .ofNat shellAmount)]
  bounce := seller.bounce.getD true
  allBalance := false

def placeOrder (seller : Seller) (shellAmount orderId : ℕ) : TokensResult SellShellsResult := do
  let result ←
    requestInContext
      ("Submit multifactor `" ++ seller.multifactor ++ "` sell_shells transaction")
      (.submitTransaction seller.multifactor (orderParams kit seller shellAmount))
  let result : ResultOfSendMessage ←
    ExceptT.mk (.done (ensureTxSuccess result "submit_transaction (sell_shells)"))
  confirmOrder denom orderId result.messageHash 30

def invalidDenom : AppError :=
  .new ("sell_shells: invalid denom `" ++ toString denom.toNat ++
    "`. Expected one of: 1, 10, 100, 1000")

def sellShells (seller : Seller) : TokensResult SellShellsResult :=
  match kit.shellAmountForDenom denom with
  | none => throw (invalidDenom denom)
  | some shellAmount => do
      let queueBefore : QueueState ←
        requestInContext "sell_shells: getQueueState before send" (.getQueueState denom)
      placeOrder kit denom seller shellAmount queueBefore.nextId

end

/-! ## Sellers and an accumulator -/

namespace SellShells

/-- What has become of the deposit of a call. -/
inductive Deposit where
  | unsent
  | inFlight
  | accepted (id : ℕ)
  deriving DecidableEq, Repr

/-- What is left of a call, and its deposit. -/
structure Call where
  program : TokensProgram (Except AppError SellShellsResult)
  deposit : Deposit

/-- A deposit may be accepted from the moment at which the wallet is asked. -/
def Call.resume (call : Call)
    (program : TokensProgram (Except AppError SellShellsResult)) : Call where
  program := program
  deposit := match program with
    | .ask (.submitTransaction _ _) _ => .inFlight
    | _ => call.deposit

structure State where
  queue : QueueState
  calls : ℕ → Option Call

def init (queue : QueueState) : State := ⟨queue, fun _ ↦ none⟩

def State.set (s : State) (i : ℕ) (call : Call) : State :=
  { s with calls := Function.update s.calls i (some call) }

inductive Label where
  | call (i : ℕ)
  | answer (i : ℕ)
  /-- The accumulator accepts the deposit of a call. -/
  | accept (i : ℕ)
  /-- Buyers are served. -/
  | serve
  deriving DecidableEq, Repr

/-- The answers that a request can get.  The wallet may give any. -/
def Answers (kit : AccumulatorKit) (queue : QueueState) :
    (request : TokensRequest) → request.Answer → Prop
  | .getQueueState _, .ok reply => reply = queue
  | .getSellOrderAddress denom orderId, .ok reply => reply = kit.sellOrderAddress denom orderId
  | _, _ => True

inductive Step (kit : AccumulatorKit) (denom : UInt16) : State → Label → State → Prop
  | call {s : State} {i : ℕ} (hfree : s.calls i = none) (seller : Seller) :
      Step kit denom s (.call i) (s.set i ⟨(sellShells kit denom seller).run, .unsent⟩)
  | answer {s : State} {i : ℕ} {call : Call} {request : TokensRequest}
      {next : request.Answer → TokensProgram (Except AppError SellShellsResult)}
      (hcall : s.calls i = some call) (hprogram : call.program = .ask request next)
      (answer : request.Answer) (hanswer : Answers kit s.queue request answer) :
      Step kit denom s (.answer i) (s.set i (call.resume (next answer)))
  | accept {s : State} {i : ℕ} {call : Call} (hcall : s.calls i = some call)
      (hdeposit : call.deposit = .inFlight) :
      Step kit denom s (.accept i)
        ({ s with queue := { s.queue with nextId := s.queue.nextId + 1 } }.set i
          { call with deposit := .accepted s.queue.nextId })
  | serve {s : State} (soldPrefix : ℕ) (hle : s.queue.soldPrefix ≤ soldPrefix) :
      Step kit denom s .serve { s with queue := { s.queue with soldPrefix := soldPrefix } }

/-- The call has read the next id and has not returned, and its own deposit is
not accepted yet. -/
def Call.Waiting (call : Call) : Prop :=
  call.deposit = .inFlight ∧ ∃ request next, call.program = .ask request next

/-- No deposit is accepted while another call waits. -/
def Alone (s : State) : Label → Prop
  | .accept i => ∀ j call, j ≠ i → s.calls j = some call → ¬call.Waiting
  | _ => True

/-! ## What is claimed -/

/-- A call has returned a result. -/
def State.Returned (s : State) (i : ℕ) (result : SellShellsResult) : Prop :=
  ∃ call, s.calls i = some call ∧ call.program = .done (.ok result)

/-- The result of a call is computed from the id that its own deposit got. -/
def OwnOrder (kit : AccumulatorKit) (denom : UInt16) (s : State) (i : ℕ)
    (result : SellShellsResult) : Prop :=
  ∃ call id messageHash queueAfter, s.calls i = some call ∧ call.deposit = .accepted id ∧
    queueAfter.soldPrefix ≤ s.queue.soldPrefix ∧
    result = sellShellsResult denom id messageHash queueAfter (kit.sellOrderAddress denom id)

/-- Every call returns its own order, and no two return the same id. -/
def Owns (kit : AccumulatorKit) (denom : UInt16) (s : State) : Prop :=
  (∀ i result, s.Returned i result → OwnOrder kit denom s i result) ∧
  ∀ i j result result', s.Returned i result → s.Returned j result' →
    result.orderId = result'.orderId → i = j

/-! ## The requests of the function, one at a time -/

section

variable (kit : AccumulatorKit) (denom : UInt16)

theorem run_sellShells_of_none {seller : Seller} (h : kit.shellAmountForDenom denom = none) :
    (sellShells kit denom seller).run = .done (.error (invalidDenom denom)) := by
  rw [sellShells, h]
  rfl

theorem asks_sellShells {seller : Seller} {shellAmount : ℕ}
    (h : kit.shellAmountForDenom denom = some shellAmount) :
    Program.Asks (sellShells kit denom seller) (.getQueueState denom) fun queueBefore : QueueState ↦
      (placeOrder kit denom seller shellAmount queueBefore.nextId).run := by
  rw [sellShells, h]
  apply Program.asks_requestOr_bind

theorem asks_placeOrder (seller : Seller) (shellAmount orderId : ℕ) :
    Program.Asks (placeOrder kit denom seller shellAmount orderId)
      (.submitTransaction seller.multifactor (orderParams kit seller shellAmount))
      fun result ↦
        match ensureTxSuccess result "submit_transaction (sell_shells)" with
        | .error e => .done (.error e)
        | .ok result => (confirmOrder denom orderId result.messageHash 30).run := by
  obtain ⟨next, hrun, herror, hok⟩ := Program.asks_requestOr_bind
    (AppError.withContext ·
      ("Submit multifactor `" ++ seller.multifactor ++ "` sell_shells transaction"))
    (.submitTransaction seller.multifactor (orderParams kit seller shellAmount))
    fun result ↦ do
      let result : ResultOfSendMessage ←
        ExceptT.mk (.done (ensureTxSuccess result "submit_transaction (sell_shells)"))
      confirmOrder denom orderId result.messageHash 30
  refine ⟨next, hrun, herror, fun result ↦ ?_⟩
  rw [hok]
  dsimp only
  cases ensureTxSuccess result "submit_transaction (sell_shells)" with
  | error e => rfl
  | ok result => rfl

theorem asks_confirmOrder (orderId : ℕ) (messageHash : Option String) (left : ℕ) :
    Program.Asks (confirmOrder denom orderId messageHash (left + 1)) (.getQueueState denom)
      fun queue : QueueState ↦
        if queue.nextId > orderId then (describeOrder denom orderId messageHash queue).run
        else (confirmOrder denom orderId messageHash left).run := by
  refine ⟨_, rfl, fun e ↦ ⟨_, rfl⟩, fun queue ↦ ?_⟩
  dsimp only
  change (Program.mapError _
    (if decide (queue.nextId > orderId) then pure queue
      else pollRequests _ _ _ left) >>= describeOrder denom orderId messageHash).run = _
  by_cases hgrown : queue.nextId > orderId
  · rw [decide_eq_true hgrown, if_pos rfl, if_pos hgrown]
    rfl
  · rw [decide_eq_false hgrown, if_neg Bool.false_ne_true, if_neg hgrown]
    rfl

theorem run_confirmOrder_zero (orderId : ℕ) (messageHash : Option String) :
    ∃ e, (confirmOrder denom orderId messageHash 0).run = .done (.error e) :=
  ⟨_, rfl⟩

theorem asks_describeOrder (orderId : ℕ) (messageHash : Option String) (queueAfter : QueueState) :
    Program.Asks (describeOrder denom orderId messageHash queueAfter)
      (.getSellOrderAddress denom orderId)
      fun sellOrderAddress ↦
        .done (.ok (sellShellsResult denom orderId messageHash queueAfter sellOrderAddress)) :=
  Program.asks_requestOr_bind _ _ _

/-! ## What becomes of a deposit -/

@[simp] theorem resume_done (call : Call) (result : Except AppError SellShellsResult) :
    call.resume (.done result) = ⟨.done result, call.deposit⟩ := rfl

theorem resume_placeOrder (call : Call) (seller : Seller) (shellAmount orderId : ℕ) :
    call.resume (placeOrder kit denom seller shellAmount orderId).run =
      ⟨(placeOrder kit denom seller shellAmount orderId).run, .inFlight⟩ := by
  obtain ⟨next, hrun, -, -⟩ := asks_placeOrder kit denom seller shellAmount orderId
  rw [hrun, Call.resume]

theorem resume_confirmOrder (call : Call) (orderId : ℕ) (messageHash : Option String)
    (left : ℕ) :
    call.resume (confirmOrder denom orderId messageHash left).run =
      ⟨(confirmOrder denom orderId messageHash left).run, call.deposit⟩ := by
  cases left with
  | zero =>
      obtain ⟨e, hrun⟩ := run_confirmOrder_zero denom orderId messageHash
      rw [hrun, resume_done]
  | succ left =>
      obtain ⟨next, hrun, -, -⟩ := asks_confirmOrder denom orderId messageHash left
      rw [hrun]
      rfl

theorem resume_describeOrder (call : Call) (orderId : ℕ) (messageHash : Option String)
    (queueAfter : QueueState) :
    call.resume (describeOrder denom orderId messageHash queueAfter).run =
      ⟨(describeOrder denom orderId messageHash queueAfter).run, call.deposit⟩ := by
  obtain ⟨next, hrun, -, -⟩ := asks_describeOrder denom orderId messageHash queueAfter
  rw [hrun]
  rfl

/-! ## Where a call is -/

/-- The id that a call has read will be, or is, the one of its deposit. -/
def Owned (queue : QueueState) (orderId : ℕ) : Deposit → Prop
  | .unsent => False
  | .inFlight => orderId = queue.nextId
  | .accepted id => orderId = id

inductive Stage (queue : QueueState) : Call → Prop
  | started (seller : Seller) : Stage queue ⟨(sellShells kit denom seller).run, .unsent⟩
  | placing (seller : Seller) (shellAmount : ℕ) {orderId : ℕ} {deposit : Deposit}
      (howned : Owned queue orderId deposit) :
      Stage queue ⟨(placeOrder kit denom seller shellAmount orderId).run, deposit⟩
  | confirming (messageHash : Option String) (left : ℕ) {orderId : ℕ} {deposit : Deposit}
      (howned : Owned queue orderId deposit) :
      Stage queue ⟨(confirmOrder denom orderId messageHash left).run, deposit⟩
  | describing (messageHash : Option String) (orderId : ℕ) {queueAfter : QueueState}
      (hsold : queueAfter.soldPrefix ≤ queue.soldPrefix) :
      Stage queue ⟨(describeOrder denom orderId messageHash queueAfter).run, .accepted orderId⟩
  | failed (e : AppError) (deposit : Deposit) : Stage queue ⟨.done (.error e), deposit⟩
  | returned (messageHash : Option String) (orderId : ℕ) {queueAfter : QueueState}
      (hsold : queueAfter.soldPrefix ≤ queue.soldPrefix) :
      Stage queue
        ⟨.done (.ok (sellShellsResult denom orderId messageHash queueAfter
          (kit.sellOrderAddress denom orderId))), .accepted orderId⟩

variable {kit denom}

/-- One answer takes a call to its next stage. -/
theorem Stage.answer {queue : QueueState} {call : Call} (h : Stage kit denom queue call)
    {request : TokensRequest}
    {next : request.Answer → TokensProgram (Except AppError SellShellsResult)}
    (hprogram : call.program = .ask request next) {answer : request.Answer}
    (hanswer : Answers kit queue request answer) :
    Stage kit denom queue (call.resume (next answer)) := by
  cases h with
  | started seller =>
      cases hamount : kit.shellAmountForDenom denom with
      | none =>
          rw [run_sellShells_of_none kit denom hamount] at hprogram
          cases hprogram
      | some shellAmount =>
          obtain ⟨e, hnext⟩ | ⟨queueBefore, hqueue, hnext⟩ :=
            (asks_sellShells kit denom hamount).next hprogram hanswer
          · rw [hnext]
            exact .failed e _
          · rw [hnext, resume_placeOrder]
            exact .placing seller shellAmount (congrArg QueueState.nextId hqueue)
  | placing seller shellAmount howned =>
      obtain ⟨e, hnext⟩ | ⟨result, -, hnext⟩ :=
        (asks_placeOrder kit denom seller shellAmount _).next hprogram hanswer
      · rw [hnext]
        exact .failed e _
      · rw [hnext]
        cases ensureTxSuccess result "submit_transaction (sell_shells)" with
        | error e => exact .failed e _
        | ok result =>
            rw [resume_confirmOrder]
            exact .confirming result.messageHash 30 howned
  | confirming messageHash left howned =>
      cases left with
      | zero =>
          obtain ⟨e, hrun⟩ := run_confirmOrder_zero denom _ messageHash
          rw [hrun] at hprogram
          cases hprogram
      | succ left =>
          obtain ⟨e, hnext⟩ | ⟨queueAfter, hqueue, hnext⟩ :=
            (asks_confirmOrder denom _ messageHash left).next hprogram hanswer
          · rw [hnext]
            exact .failed e _
          · obtain rfl : queueAfter = queue := hqueue
            rw [hnext]
            split
            · rename_i orderId deposit hgrown
              rw [resume_describeOrder]
              cases deposit with
              | unsent => exact howned.elim
              | inFlight => exact absurd howned hgrown.ne
              | accepted id =>
                  obtain rfl : orderId = id := howned
                  exact .describing messageHash orderId (Nat.le_refl _)
            · rw [resume_confirmOrder]
              exact .confirming messageHash left howned
  | describing messageHash orderId hsold =>
      obtain ⟨e, hnext⟩ | ⟨sellOrderAddress, haddress, hnext⟩ :=
        (asks_describeOrder denom orderId messageHash _).next hprogram hanswer
      · rw [hnext]
        exact .failed e _
      · obtain rfl : sellOrderAddress = kit.sellOrderAddress denom orderId := haddress
        rw [hnext]
        exact .returned messageHash orderId hsold
  | failed e deposit => cases hprogram
  | returned messageHash orderId hsold => cases hprogram

/-- The deposit of a call is accepted. -/
theorem Stage.accept {queue : QueueState} {call : Call} (h : Stage kit denom queue call)
    (hdeposit : call.deposit = .inFlight) :
    Stage kit denom { queue with nextId := queue.nextId + 1 }
      { call with deposit := .accepted queue.nextId } := by
  cases h with
  | started seller => cases hdeposit
  | placing seller shellAmount howned =>
      obtain rfl := hdeposit
      exact .placing seller shellAmount howned
  | confirming messageHash left howned =>
      obtain rfl := hdeposit
      exact .confirming messageHash left howned
  | describing messageHash orderId hsold => cases hdeposit
  | failed e deposit => exact .failed e _
  | returned messageHash orderId hsold => cases hdeposit

theorem Owned.mono {queue queue' : QueueState} {orderId : ℕ} {deposit : Deposit}
    (h : Owned queue orderId deposit) (hnext : deposit = .inFlight → queue'.nextId = queue.nextId) :
    Owned queue' orderId deposit := by
  cases deposit with
  | unsent => exact h
  | inFlight => exact Eq.trans h (hnext rfl).symm
  | accepted id => exact h

/-- A call stays where it is if the next id does not change while it waits. -/
theorem Stage.mono {queue queue' : QueueState} {call : Call} (h : Stage kit denom queue call)
    (hsold : queue.soldPrefix ≤ queue'.soldPrefix)
    (hnext : call.Waiting → queue'.nextId = queue.nextId) : Stage kit denom queue' call := by
  cases h with
  | started seller => exact .started seller
  | placing seller shellAmount howned =>
      obtain ⟨next, hrun, -, -⟩ := asks_placeOrder kit denom seller shellAmount _
      exact .placing seller shellAmount (howned.mono fun hflight ↦ hnext ⟨hflight, _, next, hrun⟩)
  | confirming messageHash left howned =>
      cases left with
      | zero =>
          obtain ⟨e, hrun⟩ := run_confirmOrder_zero denom _ messageHash
          rw [hrun]
          exact .failed e _
      | succ left =>
          obtain ⟨next, hrun, -, -⟩ := asks_confirmOrder denom _ messageHash left
          exact .confirming messageHash (left + 1)
            (howned.mono fun hflight ↦ hnext ⟨hflight, _, next, hrun⟩)
  | describing messageHash orderId hsold' =>
      exact .describing messageHash orderId (hsold'.trans hsold)
  | failed e deposit => exact .failed e deposit
  | returned messageHash orderId hsold' => exact .returned messageHash orderId (hsold'.trans hsold)

/-- A result is made from the id that was given to the deposit. -/
theorem Stage.returned_of_done {queue : QueueState} {call : Call} (h : Stage kit denom queue call)
    {result : SellShellsResult} (hprogram : call.program = .done (.ok result)) :
    ∃ id messageHash queueAfter, call.deposit = .accepted id ∧
      queueAfter.soldPrefix ≤ queue.soldPrefix ∧
      result = sellShellsResult denom id messageHash queueAfter
        (kit.sellOrderAddress denom id) := by
  cases h with
  | started seller =>
      cases hamount : kit.shellAmountForDenom denom with
      | none =>
          rw [run_sellShells_of_none kit denom hamount] at hprogram
          cases hprogram
      | some shellAmount =>
          exact absurd hprogram ((asks_sellShells kit denom hamount).run_ne_done _)
  | placing seller shellAmount howned =>
      exact absurd hprogram ((asks_placeOrder kit denom seller shellAmount _).run_ne_done _)
  | confirming messageHash left howned =>
      cases left with
      | zero =>
          obtain ⟨e, hrun⟩ := run_confirmOrder_zero denom _ messageHash
          rw [hrun] at hprogram
          cases hprogram
      | succ left =>
          exact absurd hprogram ((asks_confirmOrder denom _ messageHash left).run_ne_done _)
  | describing messageHash orderId hsold =>
      exact absurd hprogram ((asks_describeOrder denom orderId messageHash _).run_ne_done _)
  | failed e deposit => cases hprogram
  | returned messageHash orderId hsold =>
      obtain rfl := Except.ok.inj (Program.done.inj hprogram)
      exact ⟨orderId, messageHash, _, rfl, hsold, rfl⟩

/-! ## What holds in every state -/

/-- The accumulator has given an id to the deposit of a call. -/
def State.Accepted (s : State) (i id : ℕ) : Prop :=
  ∃ call, s.calls i = some call ∧ call.deposit = .accepted id

variable (kit denom) in
structure Inv (s : State) : Prop where
  stages : ∀ i call, s.calls i = some call → Stage kit denom s.queue call
  below : ∀ i id, s.Accepted i id → id < s.queue.nextId
  distinct : ∀ i j id, s.Accepted i id → s.Accepted j id → i = j

theorem inv_init (queue : QueueState) : Inv kit denom (init queue) := by
  constructor
  · rintro i call ⟨⟩
  · rintro i id ⟨call, ⟨⟩, -⟩
  · rintro i j id ⟨call, ⟨⟩, -⟩

theorem State.calls_set_of_ne {s : State} {i j : ℕ} (h : j ≠ i) (call : Call) :
    (s.set i call).calls j = s.calls j :=
  Function.update_of_ne h _ _

@[simp] theorem State.calls_set_self (s : State) (i : ℕ) (call : Call) :
    (s.set i call).calls i = some call :=
  Function.update_self _ _ _

theorem State.accepted_set_self {s : State} {i id : ℕ} {call : Call} :
    (s.set i call).Accepted i id ↔ call.deposit = .accepted id := by
  simp [State.Accepted]

theorem State.accepted_set_of_ne {s : State} {i j id : ℕ} (h : j ≠ i) {call : Call} :
    (s.set i call).Accepted j id ↔ s.Accepted j id := by
  rw [State.Accepted, State.calls_set_of_ne h, State.Accepted]

theorem accepted_of_resume {call : Call} {id : ℕ}
    {program : TokensProgram (Except AppError SellShellsResult)}
    (h : (call.resume program).deposit = .accepted id) : call.deposit = .accepted id := by
  unfold Call.resume at h
  split at h
  · cases h
  · exact h

/-- A call goes on, and its deposit is not accepted by that. -/
theorem Inv.set {s : State} (h : Inv kit denom s) {i : ℕ} {call : Call}
    (hstage : Stage kit denom s.queue call)
    (hdeposit : ∀ id, call.deposit = .accepted id → s.Accepted i id) :
    Inv kit denom (s.set i call) := by
  have haccepted : ∀ j id, (s.set i call).Accepted j id → s.Accepted j id := by
    intro j id hj
    by_cases hji : j = i
    · subst hji
      exact hdeposit id (State.accepted_set_self.mp hj)
    · exact (State.accepted_set_of_ne hji).mp hj
  constructor
  · intro j other hj
    by_cases hji : j = i
    · subst hji
      rw [State.calls_set_self] at hj
      obtain rfl := Option.some.inj hj
      exact hstage
    · rw [State.calls_set_of_ne hji] at hj
      exact h.stages j other hj
  · exact fun j id hj ↦ h.below j id (haccepted j id hj)
  · exact fun j k id hj hk ↦ h.distinct j k id (haccepted j id hj) (haccepted k id hk)

/-- The queue changes, and the calls that are there do not notice. -/
theorem Inv.queue {s : State} (h : Inv kit denom s) {soldPrefix : ℕ}
    (hsold : s.queue.soldPrefix ≤ soldPrefix) :
    Inv kit denom { s with queue := { s.queue with soldPrefix := soldPrefix } } where
  stages i call hcall := (h.stages i call hcall).mono hsold fun _ ↦ rfl
  below := h.below
  distinct := h.distinct

theorem Inv.accept {s : State} (h : Inv kit denom s) {i : ℕ} {call : Call}
    (hcall : s.calls i = some call) (hdeposit : call.deposit = .inFlight)
    (halone : Alone s (.accept i)) :
    Inv kit denom ({ s with queue := { s.queue with nextId := s.queue.nextId + 1 } }.set i
      { call with deposit := .accepted s.queue.nextId }) := by
  have hbelow : ∀ j id, s.Accepted j id → id ≠ s.queue.nextId :=
    fun j id hj ↦ (h.below j id hj).ne
  constructor
  · intro j other hj
    by_cases hji : j = i
    · subst hji
      rw [State.calls_set_self] at hj
      obtain rfl := Option.some.inj hj
      exact (h.stages j call hcall).accept hdeposit
    · rw [State.calls_set_of_ne hji] at hj
      refine Stage.mono (h.stages j other hj) ?_ ?_
      · exact Nat.le_refl s.queue.soldPrefix
      · exact fun hwaiting ↦ absurd hwaiting (halone j other hji hj)
  · intro j id hj
    by_cases hji : j = i
    · subst hji
      obtain rfl := Deposit.accepted.inj (State.accepted_set_self.mp hj)
      exact Nat.lt_succ_self _
    · exact Nat.lt_succ_of_lt (h.below j id ((State.accepted_set_of_ne hji).mp hj))
  · intro j k id hj hk
    by_cases hji : j = i <;> by_cases hki : k = i
    · rw [hji, hki]
    · subst hji
      obtain rfl := Deposit.accepted.inj (State.accepted_set_self.mp hj)
      exact absurd rfl (hbelow k _ ((State.accepted_set_of_ne hki).mp hk))
    · subst hki
      obtain rfl := Deposit.accepted.inj (State.accepted_set_self.mp hk)
      exact absurd rfl (hbelow j _ ((State.accepted_set_of_ne hji).mp hj))
    · exact h.distinct j k id ((State.accepted_set_of_ne hji).mp hj)
        ((State.accepted_set_of_ne hki).mp hk)

theorem Inv.step {s t : State} {l : Label} (h : Inv kit denom s) (halone : Alone s l)
    (hstep : Step kit denom s l t) : Inv kit denom t := by
  cases hstep with
  | call hfree seller => exact h.set (.started seller) nofun
  | answer hcall hprogram answer hanswer =>
      apply h.set ((h.stages _ _ hcall).answer hprogram hanswer)
      exact fun id hid ↦ ⟨_, hcall, accepted_of_resume hid⟩
  | accept hcall hdeposit => exact h.accept hcall hdeposit halone
  | serve soldPrefix hle => exact h.queue hle

theorem Inv.ownOrder {s : State} (h : Inv kit denom s) {i : ℕ} {result : SellShellsResult}
    (hresult : s.Returned i result) : OwnOrder kit denom s i result := by
  obtain ⟨call, hcall, hprogram⟩ := hresult
  obtain ⟨id, messageHash, queueAfter, hdeposit, hsold, hown⟩ :=
    (h.stages i call hcall).returned_of_done hprogram
  exact ⟨call, id, messageHash, queueAfter, hcall, hdeposit, hsold, hown⟩

/-- A seller gets its own order while no deposit is accepted between the read and
the deposit of another. -/
theorem owns_of_run {queue : QueueState} {ls : List Label} {s : State}
    (h : Run (Guarded Alone (Step kit denom)) (init queue) ls s) : Owns kit denom s := by
  have hinv : Inv kit denom s := by
    apply h.invariant _ _ (inv_init queue)
    rintro s l t hs ⟨halone, hstep⟩
    exact hs.step halone hstep
  constructor
  · exact fun i result hresult ↦ hinv.ownOrder hresult
  · intro i j result result' hi hj heq
    obtain ⟨call, id, messageHash, queueAfter, hcall, hdeposit, -, rfl⟩ := hinv.ownOrder hi
    obtain ⟨call', id', messageHash', queueAfter', hcall', hdeposit', -, rfl⟩ := hinv.ownOrder hj
    obtain rfl : id = id' := heq
    exact hinv.distinct i j id ⟨call, hcall, hdeposit⟩ ⟨call', hcall', hdeposit'⟩

end

/-! ## Two sellers -/

def exampleKit : AccumulatorKit where
  defaultAddress := "0:accumulator"
  shellEccId := 2
  shellAmountForDenom denom := if denom = 10 then some 1000 else none
  sellOrderAddress denom orderId := "0:" ++ toString denom.toNat ++ ":" ++ toString orderId

def exampleSeller : Seller := ⟨"0:wallet", 0, none⟩

def exampleSend : ResultOfSendMessage := ⟨some "hash", none, none⟩

/-- Two sellers, the second after the deposit of the first is accepted. -/
theorem owns_in_turn :
    ∃ ls s result, Run (Guarded Alone (Step exampleKit 10)) (init ⟨1, 0⟩) ls s ∧
      s.Returned 0 result ∧ s.Accepted 1 2 ∧ Owns exampleKit 10 s := by
  have hrun : ∃ ls s result, Run (Guarded Alone (Step exampleKit 10)) (init ⟨1, 0⟩) ls s ∧
      s.Returned 0 result ∧ s.Accepted 1 2 := by
    refine ⟨[.call 0, .answer 0, .accept 0, .answer 0, .answer 0, .answer 0, .call 1, .answer 1,
        .accept 1], _, _,
      .head ⟨trivial, .call rfl exampleSeller⟩ <|
      .head ⟨trivial, @Step.answer _ _ _ _ _ (.getQueueState 10) _ rfl rfl (.ok ⟨1, 0⟩) rfl⟩ <|
      .head ⟨?_, .accept rfl rfl⟩ <|
      .head ⟨trivial,
        @Step.answer _ _ _ _ _ (.submitTransaction _ _) _ rfl rfl (.ok exampleSend) trivial⟩ <|
      .head ⟨trivial, @Step.answer _ _ _ _ _ (.getQueueState 10) _ rfl rfl (.ok ⟨2, 0⟩) rfl⟩ <|
      .head ⟨trivial, @Step.answer _ _ _ _ _ (.getSellOrderAddress 10 1) _ rfl rfl (.ok _) rfl⟩ <|
      .head ⟨trivial, .call rfl exampleSeller⟩ <|
      .head ⟨trivial, @Step.answer _ _ _ _ _ (.getQueueState 10) _ rfl rfl (.ok ⟨2, 0⟩) rfl⟩ <|
      .head ⟨?_, .accept rfl rfl⟩ <|
      .refl _, ⟨_, rfl, rfl⟩, ⟨_, rfl, rfl⟩⟩
    · intro j call hj hcall
      rw [State.calls_set_of_ne hj, State.calls_set_of_ne hj] at hcall
      cases hcall
    · intro j call hj hcall
      by_cases hzero : j = 0
      · subst hzero
        obtain rfl := Option.some.inj hcall
        rintro ⟨⟨⟩, -⟩
      · simp [State.set, Function.update, init, hj, hzero] at hcall
  obtain ⟨ls, s, result, hrun, hzero, hone⟩ := hrun
  exact ⟨ls, s, result, hrun, hzero, hone, owns_of_run hrun⟩

/-- Two sellers read the same next id, and the first one is told the order of
the second. -/
theorem not_owns :
    ∃ ls s, Run (Step exampleKit 10) (init ⟨1, 0⟩) ls s ∧ ¬Owns exampleKit 10 s := by
  refine ⟨[.call 0, .call 1, .answer 0, .answer 1, .answer 0, .accept 1, .answer 0, .answer 0], _,
    .head (.call rfl exampleSeller) <|
    .head (.call rfl exampleSeller) <|
    .head (@Step.answer _ _ _ _ _ (.getQueueState 10) _ rfl rfl (.ok ⟨1, 0⟩) rfl) <|
    .head (@Step.answer _ _ _ _ _ (.getQueueState 10) _ rfl rfl (.ok ⟨1, 0⟩) rfl) <|
    .head (@Step.answer _ _ _ _ _ (.submitTransaction _ _) _ rfl rfl (.ok exampleSend) trivial) <|
    .head (.accept rfl rfl) <|
    .head (@Step.answer _ _ _ _ _ (.getQueueState 10) _ rfl rfl (.ok ⟨2, 0⟩) rfl) <|
    .head (@Step.answer _ _ _ _ _ (.getSellOrderAddress 10 1) _ rfl rfl (.ok _) rfl) <|
    .refl _, ?_⟩
  intro howns
  obtain ⟨call, id, messageHash, queueAfter, hcall, hdeposit, -, -⟩ :=
    howns.1 0 _ ⟨_, rfl, rfl⟩
  obtain rfl := Option.some.inj hcall
  cases hdeposit

end SellShells

end BeeEngine
