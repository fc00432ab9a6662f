import BeeEngine.Infra
import BeeEngine.Lib.Json
import BeeEngine.Lib.Overflow

/-!
# The sell orders of a seller

`get_my_sell_orders`: the candidates come from the events of the accumulator,
on the hot endpoint and on the archive, and a page of them is filtered by the
owners of their lots.  Queries with their retries are arguments.
-/

namespace BeeEngine

open Json (Value)

/-- `(denom, order_id)`, in the order of pairs. -/
structure OrderPair where
  denom : UInt16
  orderId : UInt64
  deriving Repr

namespace OrderPair

def toLex (pair : OrderPair) : ℕ ×ₗ ℕ := (pair.denom.toNat, pair.orderId.toNat)

theorem toLex_injective : Function.Injective toLex := by
  rintro ⟨d, o⟩ ⟨d', o'⟩ h
  obtain ⟨hd, ho⟩ := Prod.mk.inj h
  obtain rfl := UInt16.toNat_inj.mp hd
  obtain rfl := UInt64.toNat_inj.mp ho
  rfl

instance : LinearOrder OrderPair := LinearOrder.lift' toLex toLex_injective

end OrderPair

/-! ## Events -/

structure KitEvent where
  id : String
  dst : String
  createdAt : UInt64
  body : String
  deriving DecidableEq, Repr

/-- The data of a `SellOrderCreated` or of a `UsdcClaimed`. -/
structure SellerOrder where
  seller : String
  pair : OrderPair

inductive DecodedAccumulatorRootEvent where
  | sellOrderCreated (data : SellerOrder)
  | usdcClaimed (data : SellerOrder)
  | other

/-- What the contract kit knows of the accumulator and of its events. -/
structure AccumulatorEvents where
  address : String
  dappId : String
  sellOrderCreatedDst : String
  usdcClaimedDst : String
  fromEvent : KitEvent → Option DecodedAccumulatorRootEvent

/-- The variables of the query. -/
structure EventsQuery where
  accountId : String
  dappId : String
  dst : String
  last : ℕ
  before : Option String
  deriving DecidableEq, Repr

/-- The outcome of a query after its retries. -/
abbrev Endpoint (F : Type) : Type := EventsQuery → Except AppError (Value F)

namespace SellOrders

variable {F : Type}

def validDenoms : List UInt16 := [1, 10, 100, 1000]

def eventPageSize : ℕ := 100

def maxEventPages : ℕ := 50

def addressesEqual (a b : String) : Bool :=
  Text.toAsciiLowercase (Text.trim a) = Text.toAsciiLowercase (Text.trim b)

/-- What follows the first colon, or all of it, after a colon. -/
def internalToExternalAddress (addr : String) : String :=
  match addr.toList.dropWhile (· ≠ ':') with
  | _ :: rest => ":" ++ String.ofList rest
  | [] => ":" ++ addr

/-- What follows the last colon, or all of it. -/
def accountId (address : String) : String :=
  String.ofList (address.toList.reverse.takeWhile (· ≠ ':')).reverse

def eventsQuery (events : AccumulatorEvents) (dst : String) (before : Option String) :
    EventsQuery where
  accountId := accountId events.address
  dappId := events.dappId
  dst := dst
  last := eventPageSize
  before := before

/-- The field `data.blockchain.account.events` of an answer. -/
def eventsField (resultValue : Value F) : Option (Value F) := do
  let data ← resultValue.get? "data"
  let blockchain ← data.get? "blockchain"
  let account ← blockchain.get? "account"
  account.get? "events"

def edgeCursor (edge : Value F) : Option String := (edge.get? "cursor").bind (·.asStr?)

def strField (node : Value F) (name : String) : String :=
  ((node.get? name).bind (·.asStr?)).getD ""

/-- The event of an edge, whose missing fields are empty. -/
def edgeEvent (edge : Value F) : Option KitEvent :=
  (edge.get? "node").map fun node ↦
    { id := strField node "msg_id"
      dst := strField node "dst"
      createdAt := ((node.get? "created_at").bind (·.asU64?)).getD 0
      body := strField node "body" }

def hasPreviousPage (eventsField : Value F) : Bool :=
  (((eventsField.get? "pageInfo").bind (·.get? "hasPreviousPage")).bind (·.asBool?)).getD false

section

variable (events : AccumulatorEvents)

/-- The pages that are left of the loop, from a cursor on. -/
def fetchPages (endpoint : Endpoint F) (dst : String) :
    ℕ → Option String → Except AppError (List KitEvent)
  | 0, _ => .ok []
  | left + 1, before => do
      let resultValue ←
        inContext "events GraphQL query" (endpoint (eventsQuery events dst before))
      match eventsField resultValue with
      | none => return []
      | some field =>
          -- Without edges, as in a null field, there is no cursor to go on with.
          let edges := ((field.get? "edges").bind (·.asArray?)).getD []
          let page := edges.filterMap edgeEvent
          match hasPreviousPage field, edges.findSome? edgeCursor with
          | true, some nextBefore =>
              let rest ← fetchPages endpoint dst left (some nextBefore)
              return page ++ rest
          | _, _ => return page

def fetchEventsOneEndpoint (endpoint : Endpoint F) (dst : String) :
    Except AppError (List KitEvent) :=
  fetchPages events endpoint dst maxEventPages none

/-- A picker takes the pair of an event of the seller. -/
abbrev Picker : Type := DecodedAccumulatorRootEvent → String → Option OrderPair

def pickCreated : Picker
  | .sellOrderCreated data, who => if addressesEqual data.seller who then some data.pair else none
  | _, _ => none

def pickClaimed : Picker
  | .usdcClaimed data, who => if addressesEqual data.seller who then some data.pair else none
  | _, _ => none

def decodeAndFilter (log : List KitEvent) (seller : String) (picker : Picker) : Finset OrderPair :=
  (log.filterMap fun event ↦ (events.fromEvent event).bind (picker · seller)).toFinset

/-- The pairs at the destination of the seller, if it is not the legacy one. -/
def fetchPrimaryPairs (endpoint : Endpoint F) (seller primaryDst legacyDst : String)
    (picker : Picker) : Except AppError (Finset OrderPair) :=
  if primaryDst ≠ legacyDst then do
    let primary ← fetchEventsOneEndpoint events endpoint primaryDst
    return decodeAndFilter events primary seller picker
  else .ok ∅

def fetchSellerPairsOnEndpoint (endpoint : Endpoint F) (seller primaryDst legacyDst : String)
    (picker : Picker) : Except AppError (Finset OrderPair) := do
  let pairs ← fetchPrimaryPairs events endpoint seller primaryDst legacyDst picker
  if pairs ≠ ∅ then return pairs
  else
    let legacy ← fetchEventsOneEndpoint events endpoint legacyDst
    return decodeAndFilter events legacy seller picker

def fetchSellerPairsWithArchiveFallback (hot : Endpoint F) (archive : Option (Endpoint F))
    (seller primaryDst legacyDst : String) (picker : Picker) :
    Except AppError (Finset OrderPair) := do
  let hotPairs ← fetchSellerPairsOnEndpoint events hot seller primaryDst legacyDst picker
  if hotPairs ≠ ∅ then return hotPairs
  else
    match archive with
    | some archive => fetchSellerPairsOnEndpoint events archive seller primaryDst legacyDst picker
    | none => return hotPairs

end

/-! ## Candidates -/

structure QueueRange where
  nextId : UInt64
  soldPrefix : UInt64
  deriving DecidableEq, Repr

structure LotDetails where
  owner : String
  claimed : Bool
  deriving DecidableEq, Repr

/-- What a call asks, each request with its retries. -/
structure Network (F : Type) where
  hot : Endpoint F
  archive : Option (Endpoint F)
  getQueueState : UInt16 → Except AppError QueueRange
  getSellOrderAddress : OrderPair → Except AppError String
  getDetails : String → Except AppError LotDetails

abbrev QueueStates : Type := List (UInt16 × QueueRange)

def fetchQueueStates (getQueueState : UInt16 → Except AppError QueueRange) :
    Except AppError QueueStates :=
  validDenoms.mapM fun d ↦ do
    let qs ← inContext ("get_my_sell_orders: get_queue_state(d=" ++ toString d.toNat ++ ")")
      (getQueueState d)
    return (d, qs)

/-- The order is in the live range of its queue. -/
def inQueue (queueStates : QueueStates) (pair : OrderPair) : Bool :=
  match queueStates.lookup pair.denom with
  | none => false
  | some qs => ¬(pair.orderId = 0 ∨ pair.orderId ≥ qs.nextId)

def candidates (createdPairs claimedPairs : Finset OrderPair) (queueStates : QueueStates) :
    List OrderPair :=
  ((createdPairs.sort (· ≤ ·)).filter fun pair ↦
    pair ∉ claimedPairs ∧ inQueue queueStates pair).mergeSort (· ≤ ·)

/-- The candidates, and the states of the queues. -/
def fetchCandidates (events : AccumulatorEvents) (network : Network F) (seller : String) :
    Except AppError (List OrderPair × QueueStates) := do
  let createdPairs ← fetchSellerPairsWithArchiveFallback events network.hot network.archive seller
    (internalToExternalAddress seller) events.sellOrderCreatedDst pickCreated
  let claimedPairs ← fetchSellerPairsWithArchiveFallback events network.hot network.archive seller
    events.usdcClaimedDst events.usdcClaimedDst pickClaimed
  let queueStates ← fetchQueueStates network.getQueueState
  return (candidates createdPairs claimedPairs queueStates, queueStates)

/-! ## Pages -/

def encodeCursor (pair : OrderPair) : String :=
  toString pair.denom.toNat ++ ":" ++ toString pair.orderId.toNat

/-- The parts before and after the first colon. -/
def parseCursor (s : String) : Option OrderPair :=
  match s.toList.dropWhile (· ≠ ':') with
  | [] => none
  | _ :: rest => do
      let d ← Text.parseUnsigned (2 ^ 16) (String.ofList (s.toList.takeWhile (· ≠ ':')))
      let o ← Text.parseUnsigned (2 ^ 64) (String.ofList rest)
      return ⟨.ofNat d, .ofNat o⟩

structure SellOrderInfo where
  pair : OrderPair
  sellOrderAddress : String
  claimed : Bool
  sold : Bool
  positionInQueue : UInt64

structure GetMySellOrdersResult where
  orders : List SellOrderInfo
  nextCursor : Option String
  hasNextPage : Bool

/-- The targets of the crate. -/
inductive Target where
  | wasm32
  | native64
  deriving DecidableEq, Repr

def Target.usizeBits : Target → ℕ
  | .wasm32 => 32
  | .native64 => 64

/-- The index of the first candidate after the cursor. -/
def startOf (candidates : List OrderPair) : Option String → Except AppError ℕ
  | none => .ok 0
  | some c =>
      match parseCursor c with
      | none => .error (.new ("get_my_sell_orders: invalid cursor `" ++ c ++ "`"))
      | some pair => .ok (candidates.findIdx (pair < ·))

def pairText (pair : OrderPair) : String :=
  "d=" ++ toString pair.denom.toNat ++ ", order_id=" ++ toString pair.orderId.toNat

def sellOrderInfo (qs : QueueRange) (pair : OrderPair) (lotAddr : String) (details : LotDetails) :
    SellOrderInfo :=
  let sold := decide (pair.orderId ≤ qs.soldPrefix)
  { pair := pair
    sellOrderAddress := lotAddr
    claimed := details.claimed
    sold := sold
    -- The difference saturates at 0.
    positionInQueue :=
      if sold then 0 else .ofNat (pair.orderId.toNat - qs.soldPrefix.toNat) }

/-- The task of a pair, which gives nothing if someone else owns the lot. -/
def fetchOrder (network : Network F) (seller : String) (qs : QueueRange) (pair : OrderPair) :
    Except AppError (Option SellOrderInfo) := do
  let lotAddr ←
    inContext ("get_my_sell_orders: get_sell_order_address(" ++ pairText pair ++ ")")
      (network.getSellOrderAddress pair)
  let details ←
    inContext ("get_my_sell_orders: lot.get_details(addr=" ++ lotAddr ++ ", " ++ pairText pair ++
        ")")
      (network.getDetails lotAddr)
  if ¬addressesEqual details.owner seller then return none
  else return some (sellOrderInfo qs pair lotAddr details)

abbrev TaskResult : Type := Except AppError (Option SellOrderInfo)

/-- An order in which the tasks of a call complete. -/
structure Completion where
  order : List TaskResult → List TaskResult
  perm : ∀ tasks, (order tasks).Perm tasks

/-- The orders of the tasks, which have completed in this order. -/
def collectOrders (completed : List TaskResult) : Except AppError (List SellOrderInfo) := do
  let results ← completed.mapM id
  return results.reduceOption.mergeSort fun a b ↦ decide (a.pair ≤ b.pair)

def makePage (limit : ℕ) (pagePairs : List OrderPair) (results : List SellOrderInfo) :
    GetMySellOrdersResult :=
  let hasNextPage := decide (pagePairs.length > limit)
  let orders := if hasNextPage ∧ results.length > limit then results.take limit else results
  { orders := orders
    nextCursor :=
      if hasNextPage then orders.getLast?.map fun order ↦ encodeCursor order.pair else none
    hasNextPage := hasNextPage }

/-- `page_size.max(1)` -/
def limitOf (pageSize : UInt32) : ℕ := max pageSize.toNat 1

section

variable (target : Target) (build : Overflow.Build) (events : AccumulatorEvents)

/-- The pairs of a page: one more than the limit, as far as there are any. -/
def pagePairs (pageSize : UInt32) (candidates : List OrderPair) (start : ℕ) :
    Option (List OrderPair) := do
  let bound ← Overflow.add build (BitVec.ofNat target.usizeBits (limitOf pageSize)) 1
  return (candidates.drop start).take (min (candidates.length - start) bound.toNat)

/-- A call, or nothing where the program stops. -/
def getMySellOrders (network : Network F) (completion : Completion) (seller : String)
    (pageSize : UInt32) (cursor : Option String) :
    Option (Except AppError GetMySellOrdersResult) :=
  match fetchCandidates events network seller with
  | .error e => some (.error e)
  | .ok (candidates, queueStates) =>
      match startOf candidates cursor with
      | .error e => some (.error e)
      | .ok start => do
          let pagePairs ← pagePairs target build pageSize candidates start
          let tasks ← pagePairs.mapM fun pair ↦
            (queueStates.lookup pair.denom).map (fetchOrder network seller · pair)
          return do
            let results ← collectOrders (completion.order tasks)
            return makePage (limitOf pageSize) pagePairs results

end

end SellOrders

end BeeEngine
