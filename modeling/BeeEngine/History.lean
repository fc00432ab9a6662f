import BeeEngine.Lib.Chunks
import BeeEngine.Lib.ParseInt
import BeeEngine.SellOrders

/-!
# The history of a wallet

`get_ecc_txs`: a page of the messages of a wallet and a page of its mining
rewards.  Each of the two streams goes on from the hot endpoint to the archive,
and its cursor tells where it is.
-/

namespace BeeEngine

open Json (Value)

namespace History

variable {F : Type}

def gameRootAddress : String :=
  "0:0505050505050505050505050505050505050505050505050505050505050505"

def nacklCurrencyId : UInt32 := 1

def knownAddresses : List (String × String) := [
  ("0:1111111111111111111111111111111111111111111111111111111111111111", "Giver"),
  ("0:1010101010101010101010101010101010101010101010101010101010101010", "DEX"),
  ("0:1515151515151515151515151515151515151515151515151515151515151515", "DEX Oracle"),
  ("0:1a1a1a1a1a1a1a1a1a1a1a1a1a1a1a1a1a1a1a1a1a1a1a1a1a1a1a1a1a1a1a1a", "Exchange"),
  ("0:3535353535353535353535353535353535353535353535353535353535353535", "Accumulator")]

def knownName (address : String) : Option String := knownAddresses.lookup address

/-! ## Cursors -/

def archiveCursorPrefix : String := "a:"

inductive CursorSource where
  | hot (cursor : Option String)
  | archive (cursor : Option String)
  deriving DecidableEq, Repr

def decodeCursor : Option String → CursorSource
  | none => .hot none
  | some c =>
      match Text.stripPrefix archiveCursorPrefix c with
      | some inner => .archive (if inner.isEmpty then none else some inner)
      | none => .hot (some c)

def encodeArchiveCursor (cursor : Option String) : Option String :=
  some (archiveCursorPrefix ++ cursor.getD "")

def maxAutoFetchPages : ℕ := 10

/-- In milliseconds. -/
def archiveFetchTimeout : ℕ∞ := 5000

def archiveProbeTimeout : ℕ∞ := 2000

def archiveProbePageSize : UInt32 := 1

structure ParamsOfGetHistory where
  multifactorAddress : String
  tokenId : String
  pageSize : UInt32
  cursor : Option String
  miningCursor : Option String

inductive TxType where
  | mining
  | incoming
  | outgoing
  deriving DecidableEq, Repr

structure TxData where
  id : String
  txType : TxType
  createdAt : UInt64
  value : ℕ
  srcName : Option String
  deriving DecidableEq, Repr

structure ResultOfGetHistory where
  data : List TxData
  nextCursor : Option String
  nextMiningCursor : Option String
  hasNextPage : Bool
  deriving DecidableEq, Repr

inductive TokenKind where
  | ecc (currencyId : UInt32)
  | tip3 (tokenRoot : String)

def parseTokenId (tokenId : String) : TokenKind :=
  match Text.parseUnsigned (2 ^ 32) tokenId with
  | some currencyId => .ecc (.ofNat currencyId)
  | none => .tip3 tokenId

/-! ## Answers -/

structure ValueOther where
  currency : UInt32
  value : String
  deriving DecidableEq, Repr

structure EccMsg where
  id : String
  src : String
  dst : String
  createdAt : UInt64
  valueOther : List ValueOther
  deriving DecidableEq, Repr

structure GqlPageInfo where
  startCursor : Option String
  hasPreviousPage : Bool

/-- A number as `f64`, and that one as `u32`, which saturates. -/
def deU32FromF64 (asU32 : F → UInt32) (v : Value F) : Option UInt32 :=
  match v.tree with
  | .posInt n => some (.ofNat (min n.toNat (2 ^ 32 - 1)))
  | .negInt _ => some 0
  | .float x => some (asU32 x)
  | _ => none

def readVec {α : Type} (read : Value F → Option α) (v : Value F) : Option (List α) :=
  v.asArray?.bind (·.mapM read)

/-- The single field of a structure. -/
def readField {α : Type} (name : String) (read : Value F → Option α) (v : Value F) : Option α := do
  let field ← v.members? [name]
  Json.required (field name) read

def ValueOther.read (asU32 : F → UInt32) (v : Value F) : Option ValueOther := do
  let field ← v.members? ["currency", "value"]
  let currency ← Json.required (field "currency") (deU32FromF64 asU32)
  let value ← Json.required (field "value") (·.asStr?)
  return ⟨currency, value⟩

def EccMsg.read (asU32 : F → UInt32) (v : Value F) : Option EccMsg := do
  let field ← v.members? ["id", "src", "dst", "created_at", "value_other"]
  let id ← Json.required (field "id") (·.asStr?)
  let src ← Json.required (field "src") (·.asStr?)
  let dst ← Json.required (field "dst") (·.asStr?)
  let createdAt ← Json.required (field "created_at") (·.asU64?)
  let valueOther ← match field "value_other" with
    | none => some []
    | some v => readVec (ValueOther.read asU32) v
  return ⟨id, src, dst, createdAt, valueOther⟩

/-- `GqlEventNode` -/
def readEventNode (v : Value F) : Option KitEvent := do
  let field ← v.members? ["msg_id", "created_at", "dst", "body"]
  let id ← Json.required (field "msg_id") (·.asStr?)
  let createdAt ← Json.required (field "created_at") (·.asU64?)
  let dst ← Json.required (field "dst") (·.asStr?)
  let body ← Json.required (field "body") (·.asStr?)
  return ⟨id, dst, createdAt, body⟩

def GqlPageInfo.read (v : Value F) : Option GqlPageInfo := do
  let field ← v.members? ["startCursor", "hasPreviousPage"]
  let startCursor ← Json.optional (field "startCursor") (·.asStr?)
  let hasPreviousPage ← Json.required (field "hasPreviousPage") (·.asBool?)
  return ⟨startCursor, hasPreviousPage⟩

/-- Edges, each with its node, and what is said of their page. -/
def readConnection {α : Type} (read : Value F → Option α) (v : Value F) :
    Option (List α × GqlPageInfo) := do
  let field ← v.members? ["edges", "pageInfo"]
  let nodes ← Json.required (field "edges") (readVec (readField "node" read))
  let pageInfo ← Json.required (field "pageInfo") GqlPageInfo.read
  return (nodes, pageInfo)

/-- `GqlResponse` and `GqlEventsResponse`, with the name of the connection. -/
def readResponse {α : Type} (name : String) (read : Value F → Option α) :
    Value F → Option (List α × GqlPageInfo) :=
  readField "data" <| readField "blockchain" <| readField "account" <|
    readField name <| readConnection read

/-! ## Queries -/

/-- A value, and the milliseconds after which it is there. -/
structure Timed (α : Type) where
  value : α
  millis : ℕ∞

/-- The variables of `GQL_ECC_QUERY`. -/
structure MessagesQuery where
  accountId : String
  dappId : String
  last : ℕ
  before : Option String
  deriving DecidableEq, Repr

structure Client (F : Type) where
  messages : MessagesQuery → Timed (Except AppError (Value F))
  events : EventsQuery → Timed (Except AppError (Value F))

/-- What is used of the contract kit and of the libraries: the dApp of the mobile
verifiers, the cast of a float, the text of a reader's error, and the reward of a
`RewardedPopitGame` event. -/
structure Kit (F : Type) where
  dappId : String
  asU32 : F → UInt32
  jsonError : Value F → String
  reward : KitEvent → Option ℕ

/-- The answer to a query, read as a page. -/
def readReply {α : Type} (kit : Kit F) (queryContext parseContext : String)
    (read : Value F → Option (List α × GqlPageInfo)) (reply : Timed (Except AppError (Value F))) :
    Timed (Except AppError (List α × GqlPageInfo)) where
  millis := reply.millis
  value := do
    let result ← inContext queryContext reply.value
    match read result with
    | some page => return page
    | none => throw (((AppError.new (kit.jsonError result)).withKind "json").withContext parseContext)

def executeGqlQuery (kit : Kit F) (client : Client F) (address : String) (pageSize : UInt32)
    (cursor : Option String) : Timed (Except AppError (List EccMsg × GqlPageInfo)) :=
  readReply kit "GraphQL query failed" "Parse GQL response"
    (readResponse "messages" (EccMsg.read kit.asU32))
    (client.messages
      { accountId := SellOrders.accountId address
        dappId := kit.dappId
        last := pageSize.toNat
        before := cursor })

/-- The first `0:` becomes a colon. -/
def replaceWorkchain : List Char → List Char
  | [] => []
  | '0' :: ':' :: cs => ':' :: cs
  | c :: cs => c :: replaceWorkchain cs

/-- The message of a reward, if the event is one. -/
def rewardMsg (kit : Kit F) (popitgameAddress : String) (currencyId : UInt32) (node : KitEvent) :
    Option EccMsg :=
  (kit.reward node).map fun reward ↦
    { id := node.id
      src := gameRootAddress
      dst := popitgameAddress
      createdAt := node.createdAt
      valueOther := [⟨currencyId, toString reward⟩] }

def executeMiningEventsQuery (kit : Kit F) (client : Client F) (popitgameAddress : String)
    (currencyId pageSize : UInt32) (cursor : Option String) :
    Timed (Except AppError (List EccMsg × GqlPageInfo)) :=
  let reply :=
    readReply kit "Mining events GraphQL query failed" "Parse mining events GQL response"
      (readResponse "events" readEventNode)
      (client.events
        { accountId := SellOrders.accountId gameRootAddress
          dappId := kit.dappId
          dst := String.ofList (replaceWorkchain popitgameAddress.toList)
          last := pageSize.toNat
          before := cursor })
  { millis := reply.millis
    value := reply.value.map fun page ↦
      (page.1.filterMap (rewardMsg kit popitgameAddress currencyId), page.2) }

/-! ## Pages of a stream -/

structure Fetched where
  msgs : List EccMsg
  nextCursor : Option String
  hasMore : Bool
  deriving DecidableEq, Repr

/-- Nothing, and nothing to go on with. -/
def Fetched.empty : Fetched := ⟨[], none, false⟩

def carries (currencyId : UInt32) (msg : EccMsg) : Bool :=
  msg.valueOther.any (·.currency = currencyId)

/-- The pages that are left of the loop, with its variables. -/
def fetchEccLoop (kit : Kit F) (client : Client F) (address : String)
    (currencyId pageSize : UInt32) :
    ℕ → List EccMsg → Option String → Option String → Bool → Timed (Except AppError Fetched)
  | 0, allMsgs, _, nextCursor, hasMore => ⟨.ok ⟨allMsgs, nextCursor, hasMore⟩, 0⟩
  | left + 1, allMsgs, currentCursor, _, _ =>
      let reply := executeGqlQuery kit client address pageSize currentCursor
      match reply.value with
      | .error e => ⟨.error e, reply.millis⟩
      | .ok (msgs, pageInfo) =>
          let allMsgs := allMsgs ++ msgs.filter (carries currencyId)
          if ¬allMsgs.isEmpty ∨ ¬pageInfo.hasPreviousPage then
            ⟨.ok ⟨allMsgs, pageInfo.startCursor, pageInfo.hasPreviousPage⟩, reply.millis⟩
          else
            let rest := fetchEccLoop kit client address currencyId pageSize left allMsgs
              pageInfo.startCursor pageInfo.startCursor pageInfo.hasPreviousPage
            ⟨rest.value, reply.millis + rest.millis⟩

def fetchEccWithAutoPagination (kit : Kit F) (address : String) (currencyId : UInt32)
    (client : Client F) (pageSize : UInt32) (initialCursor : Option String) :
    Timed (Except AppError Fetched) :=
  fetchEccLoop kit client address currencyId pageSize maxAutoFetchPages [] initialCursor none false

def fetchMiningWithAutoPagination (kit : Kit F) (popitgameAddress : String) (currencyId : UInt32)
    (client : Client F) (pageSize : UInt32) (initialCursor : Option String) :
    Timed (Except AppError Fetched) :=
  let reply :=
    executeMiningEventsQuery kit client popitgameAddress currencyId pageSize initialCursor
  { millis := reply.millis
    value := reply.value.map fun page ↦
      ⟨page.1, page.2.startCursor, page.2.hasPreviousPage⟩ }

/-! ## The archive -/

def archiveCallOrEmpty (timeout : ℕ∞) (fut : Timed (Except AppError Fetched)) : Fetched :=
  if fut.millis ≤ timeout then
    match fut.value with
    | .ok r => r
    | .error _ => .empty
  else .empty

/-- How a stream is fetched from a client, with a page size and a cursor. -/
abbrev Fetch (F : Type) : Type :=
  Client F → UInt32 → Option String → Timed (Except AppError Fetched)

/-- `archive_ecc_has_data` and `archive_mining_has_data` -/
def archiveHasData (fetch : Fetch F) (arcClient : Client F) : Bool :=
  ¬(archiveCallOrEmpty archiveProbeTimeout (fetch arcClient archiveProbePageSize none)).msgs.isEmpty

/-- A page of the archive, whose cursor is marked. -/
def fetchArchive (fetch : Fetch F) (arcClient : Client F) (pageSize : UInt32)
    (cursor : Option String) : Fetched :=
  let r := archiveCallOrEmpty archiveFetchTimeout (fetch arcClient pageSize cursor)
  ⟨r.msgs, encodeArchiveCursor r.nextCursor, r.hasMore⟩

/-- The page of a stream at its source. -/
def fetchStream (fetch : Fetch F) (client : Client F) (archive : Option (Client F))
    (pageSize : UInt32) : CursorSource → Except AppError Fetched
  | .hot cursor => do
      let page ← (fetch client pageSize cursor).value
      if ¬page.hasMore ∧ page.msgs.isEmpty then
        match archive with
        | some arcClient => return fetchArchive fetch arcClient pageSize none
        | none => return page
      else if ¬page.hasMore then
        match archive with
        | some arcClient =>
            if archiveHasData fetch arcClient then
              return ⟨page.msgs, encodeArchiveCursor none, true⟩
            else return ⟨page.msgs, none, false⟩
        | none => return ⟨page.msgs, none, false⟩
      else return page
  | .archive cursor =>
      match archive with
      | some arcClient => return fetchArchive fetch arcClient pageSize cursor
      | none => return .empty

/-! ## Transactions -/

/-- What a call asks beside the two clients: the popitgame of a multifactor, and
the name in the data of one. -/
structure Network (F : Type) where
  tvmClient : Client F
  archiveTvmClient : Option (Client F)
  getPopitgame : String → Except AppError String
  getMultifactorName : String → Except AppError String

/-- The address of the miner, which only matters for NACKL. -/
def popitgameOf (network : Network F) (multifactorAddress : String) (currencyId : UInt32) :
    Option String :=
  if currencyId = nacklCurrencyId then (network.getPopitgame multifactorAddress).toOption else none

def counterparty (multifactorAddress : String) (e : EccMsg) : Option String :=
  if e.src = multifactorAddress then some e.dst
  else if e.dst = multifactorAddress then some e.src
  else none

def counterparties (multifactorAddress : String) (mfMsgs : List EccMsg) : List String :=
  Chunks.fresh id ∅ ((mfMsgs.filterMap (counterparty multifactorAddress)).filter fun a ↦
    a ≠ multifactorAddress ∧ knownName a = none)

/-- The names of those counterparties that can be decoded. -/
def decodedMap (network : Network F) (addresses : List String) : List (String × String) :=
  addresses.filterMap fun addr ↦ (network.getMultifactorName addr).toOption.map fun name ↦
    (addr, name)

/-- The amount of a message in the currency; the two streams differ in their words. -/
def valueOf (currencyId : UInt32) (noun abbreviation : String) (evt : EccMsg) :
    Except AppError ℕ :=
  match evt.valueOther.find? (·.currency = currencyId) with
  | none =>
      .error (.new ("No value_other for currency " ++ toString currencyId.toNat ++ " in " ++ noun ++
        " " ++ evt.id))
  | some vo =>
      (ParseInt.parse (2 ^ 128) vo.value).mapError fun e ↦
        ((AppError.new e.message).withKind "parse").withContext
          ("Failed to parse value '" ++ vo.value ++ "' in " ++ abbreviation ++ " " ++ evt.id)

def txTypeOf (multifactorAddress : String) (evt : EccMsg) : Except AppError TxType :=
  if evt.src = multifactorAddress then .ok .outgoing
  else if evt.dst = multifactorAddress then .ok .incoming
  else
    .error (.new ("Event " ++ evt.id ++ " is unrelated: src=" ++ evt.src ++ ", dst=" ++ evt.dst ++
      ", expected addr=" ++ multifactorAddress))

/-- The other side of a transfer. -/
def counterpartyAddr (evt : EccMsg) : TxType → Option String
  | .outgoing => some evt.dst
  | .incoming => some evt.src
  | .mining => none

def mfTxData (multifactorAddress : String) (currencyId : UInt32) (names : List (String × String))
    (evt : EccMsg) : Except AppError TxData := do
  let value ← valueOf currencyId "message" "msg" evt
  let txType ← txTypeOf multifactorAddress evt
  return {
    id := evt.id
    txType := txType
    createdAt := evt.createdAt
    value := value
    srcName := (counterpartyAddr evt txType).bind fun addr ↦
      (knownName addr).or (names.lookup addr) }

def miningTxData (currencyId : UInt32) (evt : EccMsg) : Except AppError TxData := do
  let value ← valueOf currencyId "mining message" "mining msg" evt
  return {
    id := evt.id
    txType := .mining
    createdAt := evt.createdAt
    value := value
    srcName := none }

/-- The latest transactions first. -/
def sortByCreatedAt (data : List TxData) : List TxData :=
  data.mergeSort fun a b ↦ b.createdAt ≤ a.createdAt

/-! ## Calls -/

/-- The page of the messages of the multifactor. -/
def fetchMf (kit : Kit F) (network : Network F) (params : ParamsOfGetHistory)
    (currencyId : UInt32) : Except AppError Fetched :=
  fetchStream (fetchEccWithAutoPagination kit params.multifactorAddress currencyId)
    network.tvmClient network.archiveTvmClient params.pageSize (decodeCursor params.cursor)

/-- The page of the mining rewards, if there is a miner. -/
def fetchPg (kit : Kit F) (network : Network F) (params : ParamsOfGetHistory)
    (currencyId : UInt32) : Except AppError Fetched :=
  match popitgameOf network params.multifactorAddress currencyId with
  | some addr =>
      fetchStream (fetchMiningWithAutoPagination kit addr currencyId) network.tvmClient
        network.archiveTvmClient params.pageSize (decodeCursor params.miningCursor)
  | none => .ok .empty

theorem fetchPg_eq_empty {kit : Kit F} {network : Network F} {params : ParamsOfGetHistory}
    {currencyId : UInt32}
    (h : popitgameOf network params.multifactorAddress currencyId = none) :
    fetchPg kit network params currencyId = .ok .empty := by
  rw [fetchPg, h]

theorem fetchPg_eq_fetchStream {kit : Kit F} {network : Network F} {params : ParamsOfGetHistory}
    {currencyId : UInt32} {addr : String}
    (h : popitgameOf network params.multifactorAddress currencyId = some addr) :
    fetchPg kit network params currencyId =
      fetchStream (fetchMiningWithAutoPagination kit addr currencyId) network.tvmClient
        network.archiveTvmClient params.pageSize (decodeCursor params.miningCursor) := by
  rw [fetchPg, h]

/-- The transactions of the messages of the two streams. -/
def txsOf (network : Network F) (multifactorAddress : String) (currencyId : UInt32)
    (mfMsgs pgMsgs : List EccMsg) : Except AppError (List TxData) := do
  -- Of messages with one id, the first one is kept.
  let mfMsgs := Chunks.fresh EccMsg.id ∅ mfMsgs
  let pgMsgs := Chunks.fresh EccMsg.id (mfMsgs.map EccMsg.id).toFinset pgMsgs
  let names := decodedMap network (counterparties multifactorAddress mfMsgs)
  let data ← mfMsgs.mapM (mfTxData multifactorAddress currencyId names)
  let miningData ← pgMsgs.mapM (miningTxData currencyId)
  return sortByCreatedAt (data ++ miningData)

def getEccTxs (kit : Kit F) (network : Network F) (params : ParamsOfGetHistory) :
    Except AppError ResultOfGetHistory :=
  match parseTokenId params.tokenId with
  | .tip3 _ => .error (.new ("ECC history requires numeric token_id, got: " ++ params.tokenId))
  | .ecc currencyId => do
      let mf ← fetchMf kit network params currencyId
      let pg ← fetchPg kit network params currencyId
      let data ← txsOf network params.multifactorAddress currencyId mf.msgs pg.msgs
      return {
        data := data
        nextCursor := mf.nextCursor
        nextMiningCursor := pg.nextCursor
        hasNextPage := mf.hasMore || pg.hasMore }

theorem getEccTxs_eq_ok {kit : Kit F} {network : Network F} {params : ParamsOfGetHistory}
    {currencyId : UInt32} {mf pg : Fetched} {data : List TxData}
    (htoken : parseTokenId params.tokenId = .ecc currencyId)
    (hmf : fetchMf kit network params currencyId = .ok mf)
    (hpg : fetchPg kit network params currencyId = .ok pg)
    (hdata : txsOf network params.multifactorAddress currencyId mf.msgs pg.msgs = .ok data) :
    getEccTxs kit network params =
      .ok ⟨data, mf.nextCursor, pg.nextCursor, mf.hasMore || pg.hasMore⟩ := by
  rw [getEccTxs, htoken]
  dsimp only
  rw [hmf, Outcome.ok_bind, hpg, Outcome.ok_bind, hdata]
  rfl

/-- The history of other tokens is not there yet. -/
def getTokenTxs : Except AppError ResultOfGetHistory := .ok ⟨[], none, none, false⟩

def getHistory (kit : Kit F) (network : Network F) (params : ParamsOfGetHistory) :
    Except AppError ResultOfGetHistory :=
  match parseTokenId params.tokenId with
  | .ecc _ => getEccTxs kit network params
  | .tip3 _ => getTokenTxs

end History

end BeeEngine
