import BeeEngine.Lib.Cursors
import BeeEngine.SellOrders

/-!
# Where the candidates come from

An endpoint that keeps a log of events for each destination answers with the
last ones before a cursor.  From the hot endpoint and the archive, the
candidates are those of the first source that has any for the seller.
-/

namespace BeeEngine

namespace SellOrders

open Cursors
open Json (Value)

variable {F : Type}

/-! ## Endpoints -/

structure LoggedEvent where
  cursor : String
  event : KitEvent
  deriving DecidableEq, Repr

/-- The events that are kept for each destination, the newest one first. -/
abbrev EventLog : Type := String → List LoggedEvent

def edgeOf (entry : LoggedEvent) : Value F :=
  .object (.ofList [("cursor", .str entry.cursor),
    ("node", .object (.ofList [("msg_id", .str entry.event.id),
      ("created_at", .u64 entry.event.createdAt), ("dst", .str entry.event.dst),
      ("body", .str entry.event.body)]))])

/-- The field `events` of an answer. -/
def eventsValue (entries : List LoggedEvent) (hasPrevious : Bool) : Value F :=
  .object (.ofList [("edges", .array (entries.map edgeOf)),
    ("pageInfo", .object (.ofList [("hasPreviousPage", .bool hasPrevious)]))])

def eventsReply (field : Value F) : Value F :=
  .object (.ofList [("data",
    .object (.ofList [("blockchain",
      .object (.ofList [("account", .object (.ofList [("events", field)]))]))]))])

/-- The answer to a query, whose events come in the order of time, and may be null
if there are none. -/
inductive Answers (available : List LoggedEvent) : Value F → Prop
  | page : Answers available (eventsReply (eventsValue (available.take eventPageSize).reverse
      (eventPageSize < available.length)))
  | null (h : available = []) : Answers available (eventsReply .null)

structure Keeps (events : AccumulatorEvents) (endpoint : Endpoint F) (log : EventLog) : Prop where
  nodup : ∀ dst, ((log dst).map LoggedEvent.cursor).Nodup
  answers : ∀ dst before, IsCursor LoggedEvent.cursor (log dst) before → ∃ reply,
    endpoint (eventsQuery events dst before) = .ok reply ∧
      Answers (older LoggedEvent.cursor before (log dst)) reply

/-! ## Reading a destination -/

@[simp] theorem eventsField_eventsReply (field : Value F) :
    eventsField (eventsReply field) = some field := by
  simp [eventsField, eventsReply, Json.Map.ofList]

@[simp] theorem edgeCursor_edgeOf (entry : LoggedEvent) :
    edgeCursor (edgeOf entry : Value F) = some entry.cursor := by
  simp [edgeCursor, edgeOf, Json.Map.ofList]

@[simp] theorem edgeEvent_edgeOf (entry : LoggedEvent) :
    edgeEvent (edgeOf entry : Value F) = some entry.event := by
  simp [edgeEvent, edgeOf, strField, Json.Map.ofList]

@[simp] theorem hasPreviousPage_eventsValue (entries : List LoggedEvent) (hasPrevious : Bool) :
    hasPreviousPage (eventsValue entries hasPrevious : Value F) = hasPrevious := by
  simp [hasPreviousPage, eventsValue, Json.Map.ofList]

@[simp] theorem edges_eventsValue (entries : List LoggedEvent) (hasPrevious : Bool) :
    ((eventsValue entries hasPrevious : Value F).get? "edges").bind (·.asArray?) =
      some (entries.map edgeOf) := by
  simp [eventsValue, Json.Map.ofList]

theorem filterMap_edgeEvent (entries : List LoggedEvent) :
    (entries.map (edgeOf : LoggedEvent → Value F)).filterMap edgeEvent =
      entries.map LoggedEvent.event := by
  rw [List.filterMap_map, ← List.filterMap_eq_map]
  congr 1
  funext entry
  exact edgeEvent_edgeOf entry

section

variable {events : AccumulatorEvents} {endpoint : Endpoint F} {log : EventLog}

/-- The pages that are left find the latest events before the cursor. -/
theorem exists_fetchPages (h : Keeps events endpoint log) (dst : String) (left : ℕ)
    {before : Option String} (hcursor : IsCursor LoggedEvent.cursor (log dst) before) :
    ∃ found, fetchPages events endpoint dst left before = .ok found ∧
      ∀ event, event ∈ found ↔
        event ∈ ((older LoggedEvent.cursor before (log dst)).take (left * eventPageSize)).map
          LoggedEvent.event := by
  induction left generalizing before with
  | zero =>
      refine ⟨[], rfl, fun event ↦ ?_⟩
      simp
  | succ left ih =>
      obtain ⟨reply, hreply, hanswers⟩ := h.answers dst before hcursor
      rw [fetchPages, hreply]
      cases hanswers with
      | null hempty =>
          refine ⟨[], ?_, ?_⟩
          · simp [inContext, Except.mapError, bind, Except.bind, pure, Except.pure,
              Json.Value.get?, Json.Value.null]
          · simp [hempty]
      | page =>
          simp only [inContext, Except.mapError, bind, Except.bind, eventsField_eventsReply,
            edges_eventsValue, hasPreviousPage_eventsValue, Option.getD_some, filterMap_edgeEvent,
            pure, Except.pure]
          by_cases hmore : eventPageSize < (older LoggedEvent.cursor before (log dst)).length
          · have hne : older LoggedEvent.cursor before (log dst) ≠ [] := by
              intro hnil
              rw [hnil] at hmore
              exact absurd hmore (Nat.not_lt_zero _)
            obtain ⟨last, hlast, hnext, -, holder, -⟩ :=
              exists_chunks_older (h.nodup dst) hcursor (by decide : 0 < eventPageSize) hne
            obtain ⟨found, hfound, hmem⟩ := ih hnext
            rw [holder] at hmem
            generalize older LoggedEvent.cursor before (log dst) = available at *
            have hfirst : ((available.take eventPageSize).reverse.map
                (edgeOf : LoggedEvent → Value F)).findSome? edgeCursor = some last.cursor := by
              obtain ⟨front, hfront⟩ := List.getLast?_eq_some_iff.mp hlast
              rw [hfront, List.reverse_append]
              simp
            refine ⟨(available.take eventPageSize).reverse.map LoggedEvent.event ++ found, ?_,
              fun event ↦ ?_⟩
            · rw [decide_eq_true hmore, hfirst]
              simp only [hfound]
            · rw [List.mem_append, hmem, Nat.succ_mul, Nat.add_comm, List.take_add, List.map_append,
                List.mem_append, List.map_reverse, List.mem_reverse]
          · rw [not_lt] at hmore
            have hpage : (older LoggedEvent.cursor before (log dst)).take eventPageSize =
                older LoggedEvent.cursor before (log dst) := List.take_of_length_le hmore
            refine ⟨(older LoggedEvent.cursor before (log dst)).reverse.map LoggedEvent.event, ?_,
              fun event ↦ ?_⟩
            · rw [hpage]
              simp [Nat.not_lt.mpr hmore]
            · rw [List.take_of_length_le, List.map_reverse, List.mem_reverse]
              rw [Nat.succ_mul]
              omega

end

/-! ## Sources -/

section

variable (events : AccumulatorEvents)

/-- The seller's pairs among the latest events of a destination. -/
@[irreducible] def seenPairs (log : EventLog) (seller : String) (picker : Picker) (dst : String) :
    Finset OrderPair :=
  decodeAndFilter events
    (((log dst).take (maxEventPages * eventPageSize)).map LoggedEvent.event) seller picker

/-- The first source that has any pairs. -/
def firstFound (sources : List (Finset OrderPair)) : Finset OrderPair :=
  (sources.find? (· ≠ ∅)).getD ∅

/-- The destinations of the created orders: that of the seller, and the legacy
one. -/
def createdDsts (seller : String) : List String :=
  [internalToExternalAddress seller, events.sellOrderCreatedDst]

def createdSources (hotLog archiveLog : EventLog) (seller : String) : List (Finset OrderPair) :=
  (createdDsts events seller).map (seenPairs events hotLog seller pickCreated) ++
    (createdDsts events seller).map (seenPairs events archiveLog seller pickCreated)

def claimedSources (hotLog archiveLog : EventLog) (seller : String) : List (Finset OrderPair) :=
  [seenPairs events hotLog seller pickClaimed events.usdcClaimedDst,
    seenPairs events archiveLog seller pickClaimed events.usdcClaimedDst]

/-- The seller has the pair at a destination of the whole history. -/
def Has (history : EventLog) (seller : String) (picker : Picker) (dst : String)
    (pair : OrderPair) : Prop :=
  ∃ entry ∈ history dst, (events.fromEvent entry.event).bind (picker · seller) = some pair

def Created (history : EventLog) (seller : String) (pair : OrderPair) : Prop :=
  ∃ dst ∈ createdDsts events seller, Has events history seller pickCreated dst pair

def Claimed (history : EventLog) (seller : String) (pair : OrderPair) : Prop :=
  Has events history seller pickClaimed events.usdcClaimedDst pair

end

/-- The order is in the range of its queue. -/
def InRange (state : UInt16 → QueueRange) (pair : OrderPair) : Prop :=
  pair.denom ∈ validDenoms ∧ 0 < pair.orderId ∧ pair.orderId < (state pair.denom).nextId

instance (state : UInt16 → QueueRange) (pair : OrderPair) : Decidable (InRange state pair) :=
  inferInstanceAs (Decidable (_ ∧ _ ∧ _))

/-- The hot endpoint keeps a most recent part of the history, and the archive
has what is missing there. -/
structure Split (history hotLog archiveLog : EventLog) : Prop where
  hot : ∀ dst, hotLog dst <+: history dst
  archive : ∀ dst, archiveLog dst <:+ history dst
  covers : ∀ dst, ∀ entry ∈ history dst, entry ∈ hotLog dst ∨ entry ∈ archiveLog dst

/-- What a call reads, and the two endpoints that answer it. -/
structure Reading (events : AccumulatorEvents) (network : Network F)
    (history hotLog archiveLog : EventLog) (state : UInt16 → QueueRange) : Prop where
  split : Split history hotLog archiveLog
  hot : Keeps events network.hot hotLog
  archive : ∃ endpoint, network.archive = some endpoint ∧ Keeps events endpoint archiveLog
  states : ∀ d ∈ validDenoms, network.getQueueState d = .ok (state d)

/-- The candidates of a call are the pairs with a property. -/
def CandidatesAre (events : AccumulatorEvents) (network : Network F) (seller : String)
    (p : OrderPair → Prop) : Prop :=
  ∃ candidates queueStates,
    fetchCandidates events network seller = .ok (candidates, queueStates) ∧
      ∀ pair, pair ∈ candidates ↔ p pair

/-- The candidates are the orders that were created and not claimed, in the
range of their queues. -/
def NoneLost (events : AccumulatorEvents) (network : Network F) (seller : String)
    (history : EventLog) (state : UInt16 → QueueRange) : Prop :=
  CandidatesAre events network seller fun pair ↦
    Created events history seller pair ∧ ¬Claimed events history seller pair ∧ InRange state pair

/-! ## The pairs that are fetched -/

section

variable {events : AccumulatorEvents} {log hotLog archiveLog history : EventLog}

theorem firstFound_cons (source : Finset OrderPair) (sources : List (Finset OrderPair)) :
    firstFound (source :: sources) = if source ≠ ∅ then source else firstFound sources := by
  rw [firstFound, List.find?_cons]
  by_cases h : source = ∅ <;> simp [h, firstFound]

@[simp] theorem firstFound_nil : firstFound [] = ∅ := rfl

theorem firstFound_pair (a b : Finset OrderPair) :
    firstFound [a, b] = if a ≠ ∅ then a else b := by
  rw [firstFound_cons, firstFound_cons, firstFound_nil]
  congr 1
  by_cases h : b = ∅ <;> simp [h]

theorem firstFound_append (sources others : List (Finset OrderPair)) :
    firstFound (sources ++ others) =
      if firstFound sources ≠ ∅ then firstFound sources else firstFound others := by
  induction sources with
  | nil => simp
  | cons source sources ih =>
      rw [List.cons_append, firstFound_cons, firstFound_cons, ih]
      by_cases h : source = ∅ <;> simp [h]

theorem mem_of_mem_firstFound {sources : List (Finset OrderPair)} {pair : OrderPair}
    (h : pair ∈ firstFound sources) : ∃ source ∈ sources, pair ∈ source := by
  induction sources with
  | nil => simp at h
  | cons source sources ih =>
      rw [firstFound_cons] at h
      split at h
      · exact ⟨source, List.mem_cons_self, h⟩
      · obtain ⟨source', hsource', hpair⟩ := ih h
        exact ⟨source', List.mem_cons_of_mem _ hsource', hpair⟩

theorem mem_decodeAndFilter {found : List KitEvent} {seller : String} {picker : Picker}
    {pair : OrderPair} :
    pair ∈ decodeAndFilter events found seller picker ↔
      ∃ event ∈ found, (events.fromEvent event).bind (picker · seller) = some pair := by
  rw [decodeAndFilter, List.mem_toFinset, List.mem_filterMap]

theorem fetchPairs_of_keeps {endpoint : Endpoint F} (h : Keeps events endpoint log) (dst : String) :
    ∃ found, fetchEventsOneEndpoint events endpoint dst = .ok found ∧
      ∀ seller picker, decodeAndFilter events found seller picker =
        seenPairs events log seller picker dst := by
  obtain ⟨found, hfound, hmem⟩ := exists_fetchPages h dst maxEventPages (isCursor_none _ _)
  refine ⟨found, hfound, fun seller picker ↦ ?_⟩
  ext pair
  simp only [seenPairs, mem_decodeAndFilter, hmem, older_none]

/-- The pairs on an endpoint, without the events that were read for them. -/
theorem fetchSellerPairsOnEndpoint_of_keeps {endpoint : Endpoint F}
    (h : Keeps events endpoint log) (seller primaryDst legacyDst : String) (picker : Picker) :
    fetchSellerPairsOnEndpoint events endpoint seller primaryDst legacyDst picker =
      .ok (firstFound ([primaryDst, legacyDst].map (seenPairs events log seller picker))) := by
  obtain ⟨legacy, hlegacy, hseen⟩ := fetchPairs_of_keeps h legacyDst
  obtain ⟨primary, hprimary, hseen'⟩ := fetchPairs_of_keeps h primaryDst
  rw [List.map_cons, List.map_cons, List.map_nil, firstFound_pair]
  by_cases hdst : primaryDst = legacyDst
  · simp [fetchSellerPairsOnEndpoint, fetchPrimaryPairs, bind, Except.bind, pure, Except.pure,
      hlegacy, hseen, hdst]
  · simp only [fetchSellerPairsOnEndpoint, fetchPrimaryPairs, hdst, not_false_eq_true, ↓reduceIte,
      bind, Except.bind, pure, Except.pure, hprimary, hseen', hlegacy, hseen, ne_eq]
    split <;> rfl

theorem fetchSellerPairsWithArchiveFallback_of_keeps {hot endpoint : Endpoint F}
    (hhot : Keeps events hot hotLog) (harchive : Keeps events endpoint archiveLog)
    (seller primaryDst legacyDst : String) (picker : Picker) :
    fetchSellerPairsWithArchiveFallback events hot (some endpoint) seller primaryDst legacyDst
        picker =
      .ok (firstFound ([primaryDst, legacyDst].map (seenPairs events hotLog seller picker) ++
        [primaryDst, legacyDst].map (seenPairs events archiveLog seller picker))) := by
  have hhot' := fetchSellerPairsOnEndpoint_of_keeps hhot seller primaryDst legacyDst picker
  have harchive' :=
    fetchSellerPairsOnEndpoint_of_keeps harchive seller primaryDst legacyDst picker
  rw [firstFound_append]
  generalize firstFound (List.map (seenPairs events hotLog seller picker) _) = hotPairs at hhot' ⊢
  generalize firstFound (List.map (seenPairs events archiveLog seller picker) _) = archivePairs
    at harchive' ⊢
  simp only [fetchSellerPairsWithArchiveFallback, hhot', harchive', bind, Except.bind, pure,
    Except.pure]
  split <;> rfl

/-- The claims are read at one destination. -/
theorem firstFound_claimed (seller : String) :
    firstFound ([events.usdcClaimedDst, events.usdcClaimedDst].map
        (seenPairs events hotLog seller pickClaimed) ++
      [events.usdcClaimedDst, events.usdcClaimedDst].map
        (seenPairs events archiveLog seller pickClaimed)) =
      firstFound (claimedSources events hotLog archiveLog seller) := by
  rw [firstFound_append, claimedSources, firstFound_pair]
  simp only [List.map_cons, List.map_nil, firstFound_pair, ite_self]

theorem mapM_states {getQueueState : UInt16 → Except AppError QueueRange}
    {state : UInt16 → QueueRange} {ds : List UInt16} {context : UInt16 → String}
    (h : ∀ d ∈ ds, getQueueState d = .ok (state d)) :
    (ds.mapM fun d ↦ do
      let qs ← inContext (context d) (getQueueState d)
      return (d, qs)) = Except.ok (ds.map fun d ↦ (d, state d)) := by
  induction ds with
  | nil => rfl
  | cons d ds ih =>
      obtain ⟨hd, hds⟩ := List.forall_mem_cons.mp h
      rw [List.mapM_cons, ih hds, hd]
      rfl

theorem lookup_states (state : UInt16 → QueueRange) (ds : List UInt16) (denom : UInt16) :
    (ds.map fun d ↦ (d, state d)).lookup denom =
      if denom ∈ ds then some (state denom) else none := by
  induction ds with
  | nil => rfl
  | cons d ds ih =>
      rw [List.map_cons, List.lookup_cons, ih]
      by_cases h : denom = d
      · simp [h]
      · simp [h, beq_false_of_ne h]

theorem inQueue_iff {state : UInt16 → QueueRange} {pair : OrderPair} :
    inQueue (validDenoms.map fun d ↦ (d, state d)) pair = true ↔ InRange state pair := by
  rw [inQueue, lookup_states, InRange]
  by_cases hdenom : pair.denom ∈ validDenoms
  · simp [hdenom, UInt64.pos_iff_ne_zero]
  · simp [hdenom]

theorem mem_candidates {createdPairs claimedPairs : Finset OrderPair}
    {state : UInt16 → QueueRange} {pair : OrderPair} :
    pair ∈ candidates createdPairs claimedPairs (validDenoms.map fun d ↦ (d, state d)) ↔
      pair ∈ createdPairs ∧ pair ∉ claimedPairs ∧ InRange state pair := by
  rw [candidates, List.mem_mergeSort, List.mem_filter, Finset.mem_sort, decide_eq_true_iff,
    inQueue_iff]

/-- A pair that an endpoint shows is in the history. -/
theorem has_of_mem_seenPairs {seller dst : String} {picker : Picker} {pair : OrderPair}
    (hlog : log dst ⊆ history dst) (h : pair ∈ seenPairs events log seller picker dst) :
    Has events history seller picker dst pair := by
  rw [seenPairs] at h
  obtain ⟨event, hevent, hpick⟩ := mem_decodeAndFilter.mp h
  obtain ⟨entry, hentry, rfl⟩ := List.mem_map.mp hevent
  exact ⟨entry, hlog (List.mem_of_mem_take hentry), hpick⟩

variable {network : Network F} {state : UInt16 → QueueRange}

/-- The candidates of a call, in terms of the sources. -/
theorem Reading.fetchCandidates_eq (h : Reading events network history hotLog archiveLog state)
    (seller : String) :
    fetchCandidates events network seller =
      .ok (candidates (firstFound (createdSources events hotLog archiveLog seller))
        (firstFound (claimedSources events hotLog archiveLog seller))
        (validDenoms.map fun d ↦ (d, state d)), validDenoms.map fun d ↦ (d, state d)) := by
  obtain ⟨endpoint, harchive, hkeeps⟩ := h.archive
  have hcreated := fetchSellerPairsWithArchiveFallback_of_keeps h.hot hkeeps seller
    (internalToExternalAddress seller) events.sellOrderCreatedDst pickCreated
  have hclaimed := fetchSellerPairsWithArchiveFallback_of_keeps h.hot hkeeps seller
    events.usdcClaimedDst events.usdcClaimedDst pickClaimed
  rw [firstFound_claimed] at hclaimed
  rw [fetchCandidates, harchive, hcreated, hclaimed, fetchQueueStates, mapM_states h.states]
  rfl

theorem Reading.created_of_mem (h : Reading events network history hotLog archiveLog state)
    {seller : String} {pair : OrderPair}
    (hpair : pair ∈ firstFound (createdSources events hotLog archiveLog seller)) :
    Created events history seller pair := by
  obtain ⟨source, hsource, hmem⟩ := mem_of_mem_firstFound hpair
  rcases List.mem_append.mp hsource with hsource | hsource
  · obtain ⟨dst, hdst, rfl⟩ := List.mem_map.mp hsource
    exact ⟨dst, hdst, has_of_mem_seenPairs (h.split.hot dst).subset hmem⟩
  · obtain ⟨dst, hdst, rfl⟩ := List.mem_map.mp hsource
    exact ⟨dst, hdst, has_of_mem_seenPairs (h.split.archive dst).subset hmem⟩

theorem Reading.claimed_of_mem (h : Reading events network history hotLog archiveLog state)
    {seller : String} {pair : OrderPair}
    (hpair : pair ∈ firstFound (claimedSources events hotLog archiveLog seller)) :
    Claimed events history seller pair := by
  obtain ⟨source, hsource, hmem⟩ := mem_of_mem_firstFound hpair
  rcases List.mem_cons.mp hsource with rfl | hsource
  · exact has_of_mem_seenPairs (h.split.hot _).subset hmem
  · obtain rfl := List.mem_singleton.mp hsource
    exact has_of_mem_seenPairs (h.split.archive _).subset hmem

end

/-! ## An order that only the archive has -/

/-- An endpoint that answers from a log. -/
def serve (log : EventLog) : Endpoint F := fun query ↦
  let available := older LoggedEvent.cursor query.before (log query.dst)
  .ok (eventsReply (eventsValue (available.take eventPageSize).reverse
    (eventPageSize < available.length)))

theorem keeps_serve (events : AccumulatorEvents) {log : EventLog}
    (h : ∀ dst, ((log dst).map LoggedEvent.cursor).Nodup) :
    Keeps events (serve log : Endpoint F) log where
  nodup := h
  answers _ _ _ := ⟨_, rfl, .page⟩

def exampleSeller : String := "0:aa"

def exampleEntry (orderId : UInt64) (cursor : String) : LoggedEvent where
  cursor := cursor
  event :=
    { id := cursor
      dst := internalToExternalAddress exampleSeller
      createdAt := orderId
      body := "created" }

/-- Events whose order has the number of the time at which they were created. -/
def exampleEvents : AccumulatorEvents where
  address := "0:01"
  dappId := "mobile"
  sellOrderCreatedDst := ":created"
  usdcClaimedDst := ":claimed"
  fromEvent event :=
    if event.body = "created" then some (.sellOrderCreated ⟨exampleSeller, 1, event.createdAt⟩)
    else none

def exampleLog (entries : List LoggedEvent) : EventLog := fun dst ↦
  if dst = ":aa" then entries else []

def exampleHistory : EventLog := exampleLog [exampleEntry 2 "b", exampleEntry 1 "a"]

def exampleHotLog : EventLog := exampleLog [exampleEntry 2 "b"]

def exampleNetwork : Network Empty where
  hot := serve exampleHotLog
  archive := some (serve exampleHistory)
  getQueueState _ := .ok ⟨3, 0⟩
  getSellOrderAddress _ := .ok "0:1"
  getDetails _ := .ok ⟨exampleSeller, false⟩

/-- A log of one destination. -/
theorem nodup_exampleLog {entries : List LoggedEvent}
    (h : (entries.map LoggedEvent.cursor).Nodup) (dst : String) :
    ((exampleLog entries dst).map LoggedEvent.cursor).Nodup := by
  rw [exampleLog]
  split
  · exact h
  · exact .nil

theorem reading_example : Reading exampleEvents exampleNetwork exampleHistory exampleHotLog
    exampleHistory fun _ ↦ ⟨3, 0⟩ where
  split :=
    { hot := fun dst ↦ by
        rw [exampleHotLog, exampleHistory, exampleLog, exampleLog]
        split
        · exact List.prefix_append [_] [_]
        · exact List.prefix_refl _
      archive := fun dst ↦ List.suffix_refl _
      covers := fun dst entry hentry ↦ .inr hentry }
  hot := keeps_serve _ (nodup_exampleLog (by decide))
  archive := ⟨_, rfl, keeps_serve _ (nodup_exampleLog (by decide))⟩
  states _ _ := rfl

end SellOrders

end BeeEngine
