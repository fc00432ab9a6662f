import BeeEngine.History
import BeeEngine.SellOrderSources

/-!
# What a stream shows

An endpoint keeps a log and answers with the entries before a cursor.  A stream
reads it in turns: each one goes on until there is something to show.
-/

namespace BeeEngine

namespace History

open Chunks Cursors
open Json (Value)

variable {F α β : Type}

/-! ## Answers as they are sent -/

def ValueOther.value_ (vo : ValueOther) : Value F :=
  .object (.ofList [("currency", .u64 vo.currency.toUInt64), ("value", .str vo.value)])

def msgValue (msg : EccMsg) : Value F :=
  .object (.ofList [("id", .str msg.id), ("src", .str msg.src), ("dst", .str msg.dst),
    ("created_at", .u64 msg.createdAt),
    ("value_other", .array (msg.valueOther.map ValueOther.value_))])

def eventValue (event : KitEvent) : Value F :=
  .object (.ofList [("msg_id", .str event.id), ("created_at", .u64 event.createdAt),
    ("dst", .str event.dst), ("body", .str event.body)])

def single (name : String) (v : Value F) : Value F := .object (.ofList [(name, v)])

def pageInfoValue (startCursor : Option String) (hasPrevious : Bool) : Value F :=
  .object (.ofList [("startCursor", startCursor.elim .null .str),
    ("hasPreviousPage", .bool hasPrevious)])

def connectionReply (name : String) (nodes : List (Value F)) (startCursor : Option String)
    (hasPrevious : Bool) : Value F :=
  single "data" <| single "blockchain" <| single "account" <| single name <|
    .object (.ofList [("edges", .array (nodes.map (single "node"))),
      ("pageInfo", pageInfoValue startCursor hasPrevious)])

@[simp] theorem readField_single (name : String) (read : Value F → Option α) (v : Value F) :
    readField name read (single name v) = read v := by
  simp [readField, single, Json.Map.ofList, Json.required]

theorem mapM_map_eq_some {γ : Type} {f : β → Option γ} {g : α → β} {k : α → γ}
    (h : ∀ a, f (g a) = some (k a)) (l : List α) : (l.map g).mapM f = some (l.map k) := by
  induction l with
  | nil => rfl
  | cons a l ih => simp [List.mapM_cons, h, ih]

theorem deU32FromF64_u64 (asU32 : F → UInt32) (n : UInt32) :
    deU32FromF64 asU32 (.u64 n.toUInt64) = some n := by
  change some (UInt32.ofNat (min n.toUInt64.toNat (2 ^ 32 - 1))) = some n
  have hn := n.toNat_lt
  rw [UInt32.toNat_toUInt64, Nat.min_eq_left (by omega), UInt32.ofNat_toNat]

theorem read_value_ (asU32 : F → UInt32) (vo : ValueOther) :
    ValueOther.read asU32 vo.value_ = some vo := by
  simp [ValueOther.read, ValueOther.value_, Json.Map.ofList, Json.required, deU32FromF64_u64]

theorem read_msgValue (asU32 : F → UInt32) (msg : EccMsg) :
    EccMsg.read asU32 (msgValue msg) = some msg := by
  have hothers := mapM_map_eq_some (read_value_ asU32) msg.valueOther
  simp [EccMsg.read, msgValue, Json.Map.ofList, Json.required, readVec, hothers]

theorem readEventNode_eventValue (event : KitEvent) :
    readEventNode (eventValue event : Value F) = some event := by
  simp [readEventNode, eventValue, Json.Map.ofList, Json.required]

theorem read_pageInfoValue (startCursor : Option String) (hasPrevious : Bool) :
    GqlPageInfo.read (pageInfoValue startCursor hasPrevious : Value F) =
      some ⟨startCursor, hasPrevious⟩ := by
  cases startCursor with
  | none =>
      simp [GqlPageInfo.read, pageInfoValue, Json.Map.ofList, Json.required, Json.optional,
        Json.Value.isNull, Json.Value.null]
  | some c =>
      simp [GqlPageInfo.read, pageInfoValue, Json.Map.ofList, Json.required, Json.optional]

theorem readResponse_connectionReply {read : Value F → Option β} {render : β → Value F}
    (h : ∀ b, read (render b) = some b) (name : String) (entries : List β)
    (startCursor : Option String) (hasPrevious : Bool) :
    readResponse name read (connectionReply name (entries.map render) startCursor hasPrevious) =
      some (entries, ⟨startCursor, hasPrevious⟩) := by
  have hnodes : readVec (readField "node" read)
      (.array ((entries.map render).map (single "node"))) = some entries := by
    have hread := fun b ↦ (readField_single "node" read (render b)).trans (h b)
    rw [readVec, Json.Value.asArray?_array, List.map_map, Option.bind_some,
      mapM_map_eq_some (g := single "node" ∘ render) hread, List.map_id']
  rw [readResponse, connectionReply, readField_single, readField_single, readField_single,
    readField_single]
  simp [readConnection, Json.Map.ofList, Json.required, read_pageInfoValue, -List.map_map, hnodes]

/-! ## Endpoints that keep a log -/

/-- What is asked of an endpoint: a number of entries before a cursor. -/
abbrev Ask (F : Type) : Type := ℕ → Option String → Except AppError (Value F)

/-- Whatever is answered is the page of the log before the cursor, from its oldest
entry on. -/
structure Keeps (ask : Ask F) (name : String) (render : β → Value F) (node : α → β)
    (cursor : α → String) (log : List α) : Prop where
  nodup : (log.map cursor).Nodup
  answers : ∀ size before reply, 0 < size → IsCursor cursor log before →
    ask size before = .ok reply →
      reply = connectionReply name
        ((((older cursor before log).take size).reverse.map node).map render)
        (((older cursor before log).take size).getLast?.map cursor)
        (size < (older cursor before log).length)

/-- There is an answer at every cursor. -/
def Responds (ask : Ask F) (cursor : α → String) (log : List α) : Prop :=
  ∀ size before, 0 < size → IsCursor cursor log before → ∃ reply, ask size before = .ok reply

structure LoggedMsg where
  cursor : String
  msg : EccMsg
  deriving DecidableEq, Repr

/-- The messages of an account. -/
def askMessages (kit : Kit F) (client : Client F) (address : String) : Ask F := fun size before ↦
  (client.messages
    { accountId := SellOrders.accountId address
      dappId := kit.dappId
      last := size
      before := before }).value

/-- The events that are sent to a miner. -/
def askEvents (kit : Kit F) (client : Client F) (popitgameAddress : String) : Ask F :=
  fun size before ↦
    (client.events
      { accountId := SellOrders.accountId gameRootAddress
        dappId := kit.dappId
        dst := String.ofList (replaceWorkchain popitgameAddress.toList)
        last := size
        before := before }).value

abbrev KeepsMessages (kit : Kit F) (client : Client F) (address : String) (log : List LoggedMsg) :
    Prop :=
  Keeps (askMessages kit client address) "messages" msgValue LoggedMsg.msg LoggedMsg.cursor log

abbrev KeepsEvents (kit : Kit F) (client : Client F) (popitgameAddress : String)
    (log : List SellOrders.LoggedEvent) : Prop :=
  Keeps (askEvents kit client popitgameAddress) "events" eventValue SellOrders.LoggedEvent.event
    SellOrders.LoggedEvent.cursor log

/-! ## Turns of a stream -/

/-- What is shown of a message. -/
def shownMsg (currencyId : UInt32) (entry : LoggedMsg) : Option EccMsg :=
  if carries currencyId entry.msg then some entry.msg else none

/-- What is shown of an event. -/
def shownEvent (kit : Kit F) (popitgameAddress : String) (currencyId : UInt32)
    (entry : SellOrders.LoggedEvent) : Option EccMsg :=
  rewardMsg kit popitgameAddress currencyId entry.event

/-- A turn over messages has enough as soon as there is something to show, or after
some number of pages. -/
def isFull (shown : α → Option EccMsg) (limit : ℕ) (got : List α) : Bool :=
  got.any (shown · |>.isSome) || limit ≤ got.length

/-- The page that a turn makes. -/
def fetchedOf (shown : α → Option EccMsg) (cursor : α → String)
    (turn : List α × List (List α)) : Fetched where
  msgs := (turn.1.filterMap shown).reverse
  nextCursor := turn.1.getLast?.map cursor
  hasMore := !turn.2.isEmpty

theorem filterMap_shownMsg (currencyId : UInt32) (entries : List LoggedMsg) :
    entries.filterMap (shownMsg currencyId) =
      (entries.map LoggedMsg.msg).filter (carries currencyId) := by
  induction entries with
  | nil => rfl
  | cons entry entries ih =>
      rw [List.map_cons, List.filter_cons, ← ih]
      by_cases hcarries : carries currencyId entry.msg = true
      · simp [shownMsg, hcarries]
      · simp [shownMsg, hcarries]

theorem filterMap_eq_nil_iff_any {shown : α → Option EccMsg} {l : List α} :
    l.filterMap shown = [] ↔ l.any (shown · |>.isSome) = false := by
  simp [List.filterMap_eq_nil_iff]

/-- Whether a page is the last one of a log. -/
theorem isEmpty_chunks {size : ℕ} (hsize : 0 < size) (l : List α) :
    (!(chunks size (l.drop size)).isEmpty) = decide (size < l.length) := by
  by_cases hnil : l.drop size = []
  · rw [hnil]
    have hle := List.drop_eq_nil_iff.mp hnil
    simp [Nat.not_lt.mpr hle]
  · rw [chunks_of_ne_nil hsize hnil]
    have hlt := Nat.lt_of_not_le (mt List.drop_eq_nil_iff.mpr hnil)
    simp [hlt]

section

variable {kit : Kit F} {client : Client F}

/-- A reply that is the page of a log is read as such. -/
theorem readReply_eq_ok {queryContext parseContext name : String}
    {read : Value F → Option β} {render : β → Value F} (h : ∀ b, read (render b) = some b)
    {reply : Timed (Except AppError (Value F))} {page : List β × GqlPageInfo}
    (hpage : (readReply kit queryContext parseContext (readResponse name read) reply).value =
      .ok page) {entries : List β} {startCursor : Option String} {hasPrevious : Bool}
    (hreply : ∀ v, reply.value = .ok v →
      v = connectionReply name (entries.map render) startCursor hasPrevious) :
    page = (entries, ⟨startCursor, hasPrevious⟩) := by
  obtain ⟨v, hv, hread⟩ := Outcome.bind_eq_ok_iff.mp hpage
  rw [inContext_eq_ok_iff] at hv
  rw [hreply v hv, readResponse_connectionReply h] at hread
  cases hread
  rfl

variable (kit) in
theorem exists_readReply (queryContext parseContext : String) {name : String}
    {read : Value F → Option β} {render : β → Value F} (h : ∀ b, read (render b) = some b)
    {reply : Timed (Except AppError (Value F))} {v : Value F} (hv : reply.value = .ok v)
    {entries : List β} {startCursor : Option String} {hasPrevious : Bool}
    (hreply : v = connectionReply name (entries.map render) startCursor hasPrevious) :
    ∃ page, (readReply kit queryContext parseContext (readResponse name read) reply).value =
      .ok page := by
  refine ⟨(entries, ⟨startCursor, hasPrevious⟩), ?_⟩
  rw [readReply, hv, hreply]
  simp only [inContext, Except.mapError, Outcome.ok_bind, readResponse_connectionReply h]
  rfl

section

variable {address : String} {currencyId pageSize : UInt32} {log : List LoggedMsg}
  {before : Option String}

theorem executeGqlQuery_eq_ok (h : KeepsMessages kit client address log)
    (hsize : 0 < pageSize.toNat) (hcursor : IsCursor LoggedMsg.cursor log before)
    {page : List EccMsg × GqlPageInfo}
    (hpage : (executeGqlQuery kit client address pageSize before).value = .ok page) :
    page = (((older LoggedMsg.cursor before log).take pageSize.toNat).reverse.map LoggedMsg.msg,
      ⟨((older LoggedMsg.cursor before log).take pageSize.toNat).getLast?.map LoggedMsg.cursor,
        pageSize.toNat < (older LoggedMsg.cursor before log).length⟩) := by
  refine readReply_eq_ok (read_msgValue kit.asU32) hpage fun v hv ↦ ?_
  exact h.answers _ _ _ hsize hcursor hv

theorem isFull_of_any {shown : α → Option EccMsg} {got : List α} (limit : ℕ)
    (h : got.any (shown · |>.isSome) = true) : isFull shown limit got = true := by
  rw [isFull, h, Bool.true_or]

/-- The pages of a turn that shows nothing yet do not count. -/
theorem isFull_append {shown : α → Option EccMsg} {got : List α} (limit : ℕ)
    (h : got.any (shown · |>.isSome) = false) (l : List α) :
    isFull shown (limit + got.length) (got ++ l) = isFull shown limit l := by
  rw [isFull, isFull, List.any_append, h, Bool.false_or, List.length_append]
  congr 1
  rw [decide_eq_decide]
  omega

theorem fetchedOf_append {shown : α → Option EccMsg} {cursor : α → String}
    {got more : List α} (h : got.any (shown · |>.isSome) = false) (hmore : more ≠ [])
    (rest : List (List α)) :
    fetchedOf shown cursor (got ++ more, rest) = fetchedOf shown cursor (more, rest) := by
  rw [fetchedOf, fetchedOf, List.filterMap_append, filterMap_eq_nil_iff_any.mpr h,
    List.nil_append, List.getLast?_append_of_ne_nil _ hmore]

/-- A turn that goes on after its first page. -/
theorem turn_of_more {shown : α → Option EccMsg} {size : ℕ} (hsize : 0 < size)
    {limit : ℕ} (hlimit : 0 < limit) {l : List α}
    (h : (l.take size).any (shown · |>.isSome) = false) (hmore : size < l.length) :
    turn (isFull shown (limit + size)) [] (chunks size l) =
      (l.take size ++ (turn (isFull shown limit) [] (chunks size (l.drop size))).1,
        (turn (isFull shown limit) [] (chunks size (l.drop size))).2) := by
  have hne : l ≠ [] := by
    rintro rfl
    cases hmore
  have hlength : (l.take size).length = size := by
    rw [List.length_take, Nat.min_eq_left hmore.le]
  have hshift := isFull_append limit h
  rw [hlength] at hshift
  rw [chunks_of_ne_nil hsize hne, turn, List.nil_append, if_neg]
  · have hturn := turn_shift hshift [] (chunks size (l.drop size))
    rwa [List.append_nil] at hturn
  · have hfull := hshift []
    rw [List.append_nil] at hfull
    rw [hfull, isFull, List.any_nil, Bool.false_or, List.length_nil, decide_eq_true_iff]
    omega

/-- The first page of the loop is the last one, or the loop goes on behind it. -/
theorem fetchEccLoop_step (h : KeepsMessages kit client address log)
    (hsize : 0 < pageSize.toNat) {left : ℕ} (hcursor : IsCursor LoggedMsg.cursor log before)
    {next : Option String} {more : Bool} {r : Fetched}
    (hr : (fetchEccLoop kit client address currencyId pageSize (left + 1) [] before next more).value
      = .ok r) {page : List LoggedMsg}
    (hpage : (older LoggedMsg.cursor before log).take pageSize.toNat = page) :
    ((page.any (shownMsg currencyId · |>.isSome) = true ∨
        (older LoggedMsg.cursor before log).length ≤ pageSize.toNat) ∧
      r = ⟨(page.filterMap (shownMsg currencyId)).reverse, page.getLast?.map LoggedMsg.cursor,
        pageSize.toNat < (older LoggedMsg.cursor before log).length⟩) ∨
    (page.any (shownMsg currencyId · |>.isSome) = false ∧
      pageSize.toNat < (older LoggedMsg.cursor before log).length ∧
        (fetchEccLoop kit client address currencyId pageSize left [] (page.getLast?.map
          LoggedMsg.cursor) (page.getLast?.map LoggedMsg.cursor) true).value = .ok r) := by
  simp only [fetchEccLoop] at hr
  split at hr
  · cases hr
  · rename_i msgs pageInfo hreply
    obtain ⟨rfl, rfl⟩ := Prod.mk.inj (executeGqlQuery_eq_ok h hsize hcursor hreply)
    rw [hpage, List.nil_append, List.map_reverse, List.filter_reverse, ← filterMap_shownMsg] at hr
    split at hr
    · rename_i hstop
      refine .inl ⟨?_, (Except.ok.inj hr).symm⟩
      obtain hsome | hlast := hstop
      · refine .inl (Bool.of_not_eq_false fun hnone ↦ hsome ?_)
        rw [filterMap_eq_nil_iff_any.mpr hnone]
        rfl
      · exact .inr (by simpa using hlast)
    · rename_i hgo
      obtain ⟨hnone, hmore⟩ := not_or.mp hgo
      rw [not_not, List.isEmpty_iff, List.reverse_eq_nil_iff] at hnone
      rw [not_not, decide_eq_true_iff] at hmore
      refine .inr ⟨filterMap_eq_nil_iff_any.mp hnone, hmore, ?_⟩
      rwa [hnone, List.reverse_nil, decide_eq_true hmore] at hr

/-- The loop makes one turn. -/
theorem fetchEccLoop_eq_ok (h : KeepsMessages kit client address log)
    (hsize : 0 < pageSize.toNat) (left : ℕ) (hcursor : IsCursor LoggedMsg.cursor log before)
    {next : Option String} {more : Bool} {r : Fetched}
    (hr : (fetchEccLoop kit client address currencyId pageSize (left + 1) [] before next more).value
      = .ok r) :
    r = fetchedOf (shownMsg currencyId) LoggedMsg.cursor
      (turn (isFull (shownMsg currencyId) ((left + 1) * pageSize.toNat)) []
        (chunks pageSize.toNat (older LoggedMsg.cursor before log))) := by
  induction left generalizing before next more r with
  | zero =>
      obtain ⟨hstop, rfl⟩ | ⟨hnone, hmore, hrest⟩ := fetchEccLoop_step h hsize hcursor hr rfl
      · rw [turn_chunks_of_stop hsize (hstop.imp_left (isFull_of_any _)), fetchedOf, isEmpty_chunks hsize]
      · -- Ten pages have been read, and nothing is shown.
        have hfull : isFull (shownMsg currencyId) ((0 + 1) * pageSize.toNat)
            ((older LoggedMsg.cursor before log).take pageSize.toNat) = true := by
          rw [isFull, List.length_take, Nat.min_eq_left hmore.le]
          simp
        rw [turn_chunks_of_stop hsize (.inl hfull), fetchedOf, isEmpty_chunks hsize,
          filterMap_eq_nil_iff_any.mpr hnone, decide_eq_true hmore]
        exact (Except.ok.inj hrest).symm
  | succ left ih =>
      obtain ⟨hstop, rfl⟩ | ⟨hnone, hmore, hrest⟩ := fetchEccLoop_step h hsize hcursor hr rfl
      · rw [turn_chunks_of_stop hsize (hstop.imp_left (isFull_of_any _)), fetchedOf, isEmpty_chunks hsize]
      · have hne : older LoggedMsg.cursor before log ≠ [] := by
          intro hnil
          rw [hnil] at hmore
          cases hmore
        obtain ⟨last, hlast, hnext, -, holder, -⟩ := exists_chunks_older h.nodup hcursor hsize hne
        have hleft : older LoggedMsg.cursor (some last.cursor) log ≠ [] := by
          rw [holder, ne_eq, List.drop_eq_nil_iff, not_le]
          exact hmore
        obtain ⟨last', hlast', -, -⟩ := exists_turn_older h.nodup
          (isFull (shownMsg currencyId) ((left + 1) * pageSize.toNat)) [] hnext hsize hleft
        rw [hlast] at hrest
        have hlimit : 0 < (left + 1) * pageSize.toNat := Nat.mul_pos (Nat.succ_pos left) hsize
        have hturn := turn_of_more hsize hlimit hnone hmore
        rw [← holder, ← Nat.succ_mul] at hturn
        rw [ih hnext hrest, hturn, fetchedOf_append hnone]
        rintro hnil
        rw [hnil] at hlast'
        cases hlast'

theorem exists_executeGqlQuery (h : KeepsMessages kit client address log)
    (hresponds : Responds (askMessages kit client address) LoggedMsg.cursor log)
    (hsize : 0 < pageSize.toNat) (hcursor : IsCursor LoggedMsg.cursor log before) :
    ∃ page, (executeGqlQuery kit client address pageSize before).value = .ok page := by
  obtain ⟨reply, hreply⟩ := hresponds _ _ hsize hcursor
  exact exists_readReply kit _ _ (read_msgValue kit.asU32) hreply (h.answers _ _ _ hsize hcursor hreply)

/-- The loop goes on from cursors of the log. -/
theorem exists_fetchEccLoop (h : KeepsMessages kit client address log)
    (hresponds : Responds (askMessages kit client address) LoggedMsg.cursor log)
    (hsize : 0 < pageSize.toNat) (left : ℕ) (hcursor : IsCursor LoggedMsg.cursor log before)
    (next : Option String) (more : Bool) :
    ∃ r, (fetchEccLoop kit client address currencyId pageSize left [] before next more).value =
      .ok r := by
  induction left generalizing before next more with
  | zero => exact ⟨_, rfl⟩
  | succ left ih =>
      obtain ⟨page, hpage⟩ := exists_executeGqlQuery h hresponds hsize hcursor
      have hread := executeGqlQuery_eq_ok h hsize hcursor hpage
      simp only [fetchEccLoop, hpage]
      split
      · exact ⟨_, rfl⟩
      · rename_i hgo
        obtain ⟨hnone, hmore⟩ := not_or.mp hgo
        rw [hread, not_not, decide_eq_true_iff] at hmore
        have hne : older LoggedMsg.cursor before log ≠ [] := by
          intro hnil
          rw [hnil] at hmore
          cases hmore
        obtain ⟨last, hlast, hnext, -, -, -⟩ := exists_chunks_older h.nodup hcursor hsize hne
        rw [not_not, List.isEmpty_iff] at hnone
        rw [hnone, hread, hlast]
        exact ih hnext _ _

end

section

variable {popitgameAddress : String} {currencyId pageSize : UInt32}
  {log : List SellOrders.LoggedEvent} {before : Option String}

theorem executeMiningEventsQuery_eq_ok (h : KeepsEvents kit client popitgameAddress log)
    (hsize : 0 < pageSize.toNat) (hcursor : IsCursor SellOrders.LoggedEvent.cursor log before)
    {page : List EccMsg × GqlPageInfo}
    (hpage : (executeMiningEventsQuery kit client popitgameAddress currencyId pageSize before).value
      = .ok page) :
    page = ((((older SellOrders.LoggedEvent.cursor before log).take pageSize.toNat).filterMap
        (shownEvent kit popitgameAddress currencyId)).reverse,
      ⟨((older SellOrders.LoggedEvent.cursor before log).take pageSize.toNat).getLast?.map
          SellOrders.LoggedEvent.cursor,
        pageSize.toNat < (older SellOrders.LoggedEvent.cursor before log).length⟩) := by
  obtain ⟨read, hread, rfl⟩ := Outcome.map_eq_ok_iff.mp hpage
  obtain rfl := readReply_eq_ok readEventNode_eventValue hread fun v hv ↦
    h.answers _ _ _ hsize hcursor hv
  rw [List.filterMap_map, List.filterMap_reverse]
  rfl

variable (currencyId) in
theorem exists_executeMiningEventsQuery (h : KeepsEvents kit client popitgameAddress log)
    (hresponds : Responds (askEvents kit client popitgameAddress) SellOrders.LoggedEvent.cursor log)
    (hsize : 0 < pageSize.toNat) (hcursor : IsCursor SellOrders.LoggedEvent.cursor log before) :
    ∃ page, (executeMiningEventsQuery kit client popitgameAddress currencyId pageSize before).value
      = .ok page := by
  obtain ⟨reply, hreply⟩ := hresponds _ _ hsize hcursor
  obtain ⟨page, hpage⟩ := exists_readReply kit "Mining events GraphQL query failed"
    "Parse mining events GQL response" readEventNode_eventValue hreply
    (h.answers _ _ _ hsize hcursor hreply)
  exact ⟨_, Outcome.map_eq_ok_iff.mpr ⟨page, hpage, rfl⟩⟩

end

end

/-! ## Fetches -/

/-- Whatever a fetch gives is a turn over the log from the cursor on. -/
structure Fetches (fetch : UInt32 → Option String → Timed (Except AppError Fetched))
    (shown : α → Option EccMsg) (cursor : α → String) (full : ℕ → List α → Bool) (log : List α) :
    Prop where
  nodup : (log.map cursor).Nodup
  turn : ∀ pageSize before r, 0 < pageSize.toNat → IsCursor cursor log before →
    (fetch pageSize before).value = .ok r →
      r = fetchedOf shown cursor
        (turn (full pageSize.toNat) [] (chunks pageSize.toNat (older cursor before log)))

/-- There is a page at every cursor. -/
def Succeeds (fetch : UInt32 → Option String → Timed (Except AppError Fetched))
    (cursor : α → String) (log : List α) : Prop :=
  ∀ pageSize before, 0 < pageSize.toNat → IsCursor cursor log before →
    ∃ r, (fetch pageSize before).value = .ok r

/-- A turn over messages reads ten pages at most. -/
def fullOfMsgs (currencyId : UInt32) (size : ℕ) : List LoggedMsg → Bool :=
  isFull (shownMsg currencyId) (maxAutoFetchPages * size)

/-- A turn over events reads one page. -/
def fullOfEvents (_ : ℕ) (_ : List SellOrders.LoggedEvent) : Bool := true

section

variable {kit : Kit F} {client : Client F} {address : String} {currencyId : UInt32}

theorem fetches_ecc {log : List LoggedMsg} (h : KeepsMessages kit client address log) :
    Fetches (fetchEccWithAutoPagination kit address currencyId client) (shownMsg currencyId)
      LoggedMsg.cursor (fullOfMsgs currencyId) log where
  nodup := h.nodup
  turn _ _ _ hsize hcursor hr := fetchEccLoop_eq_ok h hsize 9 hcursor hr

theorem succeeds_ecc {log : List LoggedMsg} (h : KeepsMessages kit client address log)
    (hresponds : Responds (askMessages kit client address) LoggedMsg.cursor log) :
    Succeeds (fetchEccWithAutoPagination kit address currencyId client) LoggedMsg.cursor log :=
  fun _ _ hsize hcursor ↦ exists_fetchEccLoop h hresponds hsize maxAutoFetchPages hcursor none false

theorem fetches_mining {log : List SellOrders.LoggedEvent} (h : KeepsEvents kit client address log) :
    Fetches (fetchMiningWithAutoPagination kit address currencyId client)
      (shownEvent kit address currencyId) SellOrders.LoggedEvent.cursor fullOfEvents log where
  nodup := h.nodup
  turn pageSize before r hsize hcursor hr := by
    obtain ⟨page, hpage, rfl⟩ := Outcome.map_eq_ok_iff.mp hr
    obtain rfl := executeMiningEventsQuery_eq_ok h hsize hcursor hpage
    rw [turn_chunks_of_stop hsize (.inl rfl), fetchedOf, isEmpty_chunks hsize]

theorem succeeds_mining {log : List SellOrders.LoggedEvent}
    (h : KeepsEvents kit client address log)
    (hresponds : Responds (askEvents kit client address) SellOrders.LoggedEvent.cursor log) :
    Succeeds (fetchMiningWithAutoPagination kit address currencyId client)
      SellOrders.LoggedEvent.cursor log := by
  intro pageSize before hsize hcursor
  obtain ⟨page, hpage⟩ := exists_executeMiningEventsQuery currencyId h hresponds hsize hcursor
  exact ⟨_, Outcome.map_eq_ok_iff.mpr ⟨page, hpage, rfl⟩⟩

end

/-! ## An endpoint that answers at once -/

/-- The page of a log before a cursor. -/
def pageReply (name : String) (render : β → Value F) (node : α → β) (cursor : α → String)
    (log : List α) (size : ℕ) (before : Option String) : Value F :=
  connectionReply name ((((older cursor before log).take size).reverse.map node).map render)
    (((older cursor before log).take size).getLast?.map cursor)
    (size < (older cursor before log).length)

/-- A client that keeps two logs. -/
def keeping (msgs : List LoggedMsg) (events : List SellOrders.LoggedEvent) : Client F where
  messages q := ⟨.ok (pageReply "messages" msgValue LoggedMsg.msg LoggedMsg.cursor msgs q.last
    q.before), 0⟩
  events q := ⟨.ok (pageReply "events" eventValue SellOrders.LoggedEvent.event
    SellOrders.LoggedEvent.cursor events q.last q.before), 0⟩

section

variable {kit : Kit F} {msgs : List LoggedMsg} {events : List SellOrders.LoggedEvent}
  {address : String} {currencyId : UInt32}

theorem keepsMessages_keeping (h : (msgs.map LoggedMsg.cursor).Nodup) :
    KeepsMessages kit (keeping msgs events) address msgs where
  nodup := h
  answers _ _ _ _ _ hreply := (Except.ok.inj hreply).symm

theorem keepsEvents_keeping (h : (events.map SellOrders.LoggedEvent.cursor).Nodup) :
    KeepsEvents kit (keeping msgs events) address events where
  nodup := h
  answers _ _ _ _ _ hreply := (Except.ok.inj hreply).symm

theorem responds_keeping :
    Responds (askMessages kit (keeping msgs events) address) LoggedMsg.cursor msgs :=
  fun _ _ _ _ ↦ ⟨_, rfl⟩

theorem respondsEvents_keeping :
    Responds (askEvents kit (keeping msgs events) address) SellOrders.LoggedEvent.cursor events :=
  fun _ _ _ _ ↦ ⟨_, rfl⟩

theorem millis_fetchEccLoop_keeping (pageSize : UInt32) (left : ℕ) (all : List EccMsg)
    (before next : Option String) (more : Bool) :
    (fetchEccLoop kit (keeping msgs events) address currencyId pageSize left all before next
      more).millis = 0 := by
  induction left generalizing all before next more with
  | zero => rfl
  | succ left ih =>
      have hreply : (executeGqlQuery kit (keeping msgs events) address pageSize before).millis = 0 :=
        rfl
      simp only [fetchEccLoop]
      split
      · exact hreply
      · split
        · exact hreply
        · rw [hreply, ih, add_zero]

end

end History

end BeeEngine
