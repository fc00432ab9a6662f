import BeeEngine.Lib.BigUint
import BeeEngine.Lib.Paging
import BeeEngine.SellOrderSources

/-!
# The pages of the sell orders

A page is cut from the candidates and then filtered by owner.  Its cursor is
that of the last order that is left.
-/

namespace BeeEngine

namespace SellOrders

variable {F : Type}

/-- The lot of the order is owned by the seller. -/
def ownsLot (network : Network F) (seller : String) (pair : OrderPair) : Bool :=
  match network.getSellOrderAddress pair with
  | .error _ => false
  | .ok lotAddr =>
      match network.getDetails lotAddr with
      | .error _ => false
      | .ok details => addressesEqual details.owner seller

/-- What a call about these candidates asks is answered. -/
structure Answered (events : AccumulatorEvents) (network : Network F) (seller : String)
    (candidates : List OrderPair) : Prop where
  fetched : ∃ queueStates, fetchCandidates events network seller = .ok (candidates, queueStates)
  lots : ∀ pair ∈ candidates, ∃ lotAddr details,
    network.getSellOrderAddress pair = .ok lotAddr ∧ network.getDetails lotAddr = .ok details

/-- The candidates after a cursor. -/
def after (candidates : List OrderPair) (cursor : Option String) : List OrderPair :=
  match cursor with
  | none => candidates
  | some c =>
      match parseCursor c with
      | none => []
      | some pair => candidates.filter (pair < ·)

def GetMySellOrdersResult.pairs (result : GetMySellOrdersResult) : List OrderPair :=
  result.orders.map SellOrderInfo.pair

/-- With what a reader goes on after a page. -/
def GetMySellOrdersResult.next (result : GetMySellOrdersResult) : Option (Option String) :=
  if result.hasNextPage then some result.nextCursor else none

/-- What holds of a page, whatever the cursor of the call. -/
structure PageOk (bound : ℕ) (candidates : List OrderPair) (owned : OrderPair → Bool)
    (cursor : Option String) (result : GetMySellOrdersResult) : Prop where
  length : result.orders.length ≤ bound
  sorted : result.pairs.Pairwise (· < ·)
  owned : result.pairs.Sublist ((after candidates cursor).filter owned)
  /-- The cursor is that of an order, which is greater than the one passed in. -/
  cursor : ∀ c, result.nextCursor = some c → ∃ pair, c = encodeCursor pair ∧
    ∀ passed, cursor.bind parseCursor = some passed → passed < pair

section

variable (target : Target) (build : Overflow.Build) (events : AccumulatorEvents)
  (network : Network F) (seller : String) (pageSize : UInt32) (candidates : List OrderPair)

def CallsOk (bound : ℕ) : Prop :=
  ∀ completion cursor result,
    getMySellOrders target build events network completion seller pageSize cursor =
        some (.ok result) →
      PageOk bound candidates (ownsLot network seller) cursor result

/-- The calls of a reader, whose tasks may complete in a different order each
time. -/
def calls (completions : ℕ → Completion) (n : ℕ) (cursor : Option String) :
    Option GetMySellOrdersResult :=
  (getMySellOrders target build events network (completions n) seller pageSize cursor).bind
    Except.toOption

/-- A reader comes to the last page, and has read each order of the seller once. -/
def ReadsAll : Prop :=
  ∀ completions, ∃ pages,
    Paging.Reads (calls target build events network seller pageSize completions)
        GetMySellOrdersResult.next 0 none pages ∧
      pages.flatMap GetMySellOrdersResult.pairs = candidates.filter (ownsLot network seller) ∧
        (pages.flatMap GetMySellOrdersResult.pairs).Pairwise (· < ·) ∧
          ∀ page ∈ pages, page.hasNextPage = true → page.nextCursor.isSome = true

end

/-! ## Candidates -/

theorem pairwise_candidates (createdPairs claimedPairs : Finset OrderPair)
    (queueStates : QueueStates) :
    (candidates createdPairs claimedPairs queueStates).Pairwise (· < ·) := by
  have hnodup : (candidates createdPairs claimedPairs queueStates).Nodup :=
    (List.mergeSort_perm _ _).nodup_iff.mpr ((Finset.sort_nodup _ _).filter _)
  have hsorted : (candidates createdPairs claimedPairs queueStates).Pairwise (· ≤ ·) :=
    List.pairwise_mergeSort' _ _
  exact (hsorted.and hnodup).imp fun h ↦ lt_of_le_of_ne h.1 h.2

/-! ## Cursors -/

theorem parseCursor_encodeCursor (pair : OrderPair) :
    parseCursor (encodeCursor pair) = some pair := by
  have hcolon : ∀ (n : ℕ), ∀ c ∈ (toString n).toList, (decide (c ≠ ':')) = true := by
    intro n c hc
    rw [Nat.toString_eq_repr, Nat.toList_repr] at hc
    have hdigit := Nat.isDigit_of_mem_toDigits (by decide) (by decide) hc
    refine decide_eq_true ?_
    rintro rfl
    cases hdigit
  have hlist : (encodeCursor pair).toList =
      (toString pair.denom.toNat).toList ++ ':' :: (toString pair.orderId.toNat).toList := by
    simp [encodeCursor]
  rw [parseCursor, hlist, List.dropWhile_append_of_pos (hcolon _),
    List.takeWhile_append_of_pos (hcolon _), List.dropWhile_cons_of_neg (by decide),
    List.takeWhile_cons_of_neg (by decide), List.append_nil, String.ofList_toList]
  dsimp only
  rw [String.ofList_toList, Text.parseUnsigned_toString pair.denom.toNat_lt,
    Text.parseUnsigned_toString pair.orderId.toNat_lt]
  simp

section

variable {events : AccumulatorEvents} {network : Network F} {seller : String}
  {candidates : List OrderPair} {queueStates : QueueStates}

theorem of_fetchCandidates_eq_ok
    (h : fetchCandidates events network seller = .ok (candidates, queueStates)) :
    candidates.Pairwise (· < ·) ∧ ∀ pair ∈ candidates, ∃ qs,
      queueStates.lookup pair.denom = some qs := by
  rw [fetchCandidates] at h
  cases hcreated : fetchSellerPairsWithArchiveFallback events network.hot network.archive seller
      (internalToExternalAddress seller) events.sellOrderCreatedDst pickCreated with
  | error e => rw [hcreated] at h; cases h
  | ok createdPairs =>
      cases hclaimed : fetchSellerPairsWithArchiveFallback events network.hot network.archive seller
          events.usdcClaimedDst events.usdcClaimedDst pickClaimed with
      | error e => rw [hcreated, hclaimed] at h; cases h
      | ok claimedPairs =>
          cases hstates : fetchQueueStates network.getQueueState with
          | error e => rw [hcreated, hclaimed, hstates] at h; cases h
          | ok states =>
              rw [hcreated, hclaimed, hstates] at h
              obtain ⟨rfl, rfl⟩ := Prod.mk.inj (Except.ok.inj h)
              refine ⟨pairwise_candidates _ _ _, fun pair hpair ↦ ?_⟩
              rw [SellOrders.candidates, List.mem_mergeSort, List.mem_filter,
                decide_eq_true_iff] at hpair
              have hqueue := hpair.2.2
              rw [inQueue] at hqueue
              split at hqueue
              · cases hqueue
              · rename_i qs hqs
                exact ⟨qs, hqs⟩

/-! ## The orders of a page -/

/-- The order of a task that has succeeded. -/
def orderOf : TaskResult → Option SellOrderInfo
  | .ok order => order
  | .error _ => none

theorem mapM_id_of_ok {completed : List TaskResult}
    (h : ∀ task ∈ completed, ∃ order, task = .ok order) :
    ∃ orders, completed.mapM id = .ok orders ∧
      orders.reduceOption = completed.filterMap orderOf := by
  induction completed with
  | nil => exact ⟨[], rfl, rfl⟩
  | cons task completed ih =>
      obtain ⟨⟨order, rfl⟩, hrest⟩ := List.forall_mem_cons.mp h
      obtain ⟨orders, horders, hreduce⟩ := ih hrest
      refine ⟨order :: orders, ?_, ?_⟩
      · rw [List.mapM_cons, horders]
        rfl
      · rw [List.filterMap_cons, ← hreduce]
        cases order <;> rfl

/-- The task of a pair whose lot can be read. -/
theorem exists_fetchOrder {pair : OrderPair} (qs : QueueRange)
    (h : ∃ lotAddr details,
      network.getSellOrderAddress pair = .ok lotAddr ∧ network.getDetails lotAddr = .ok details) :
    ∃ order, fetchOrder network seller qs pair = .ok order ∧
      order.map SellOrderInfo.pair = if ownsLot network seller pair then some pair else none := by
  obtain ⟨lotAddr, details, haddr, hdetails⟩ := h
  simp only [fetchOrder, ownsLot, haddr, hdetails, inContext, Except.mapError, bind, Except.bind]
  by_cases howner : addressesEqual details.owner seller = true
  · simp [howner, pure, Except.pure, sellOrderInfo]
  · simp [howner, pure, Except.pure]

/-- The orders that the tasks of a page give, in the order of the page. -/
theorem map_filterMap_orderOf {page : List OrderPair} {task : OrderPair → TaskResult}
    (htask : ∀ pair ∈ page, ∃ order, task pair = .ok order ∧
      order.map SellOrderInfo.pair = if ownsLot network seller pair then some pair else none) :
    ((page.map task).filterMap orderOf).map SellOrderInfo.pair =
      page.filter (ownsLot network seller) := by
  induction page with
  | nil => rfl
  | cons pair page ih =>
      obtain ⟨⟨order, horder, hpair⟩, hrest⟩ := List.forall_mem_cons.mp htask
      rw [List.map_cons, List.filterMap_cons, horder, List.filter_cons]
      cases order with
      | none =>
          rw [Option.map_none] at hpair
          split at hpair
          · cases hpair
          · rename_i howns
            rw [if_neg howns]
            exact ih hrest
      | some order =>
          rw [Option.map_some] at hpair
          split at hpair
          · rename_i howns
            rw [if_pos howns, ← ih hrest]
            exact congrArg (· :: _) (Option.some.inj hpair)
          · cases hpair

variable (network seller) in
/-- The orders that are collected, in whatever order the tasks complete. -/
theorem exists_collectOrders (completion : Completion) {page : List OrderPair}
    {task : OrderPair → TaskResult} (hpage : page.Pairwise (· < ·))
    (htask : ∀ pair ∈ page, ∃ order, task pair = .ok order ∧
      order.map SellOrderInfo.pair = if ownsLot network seller pair then some pair else none) :
    ∃ orders, collectOrders (completion.order (page.map task)) = .ok orders ∧
      orders.map SellOrderInfo.pair = page.filter (ownsLot network seller) := by
  have hperm := completion.perm (page.map task)
  obtain ⟨orders, horders, hreduce⟩ := mapM_id_of_ok fun result hresult ↦ by
    obtain ⟨pair, hpair, rfl⟩ := List.mem_map.mp (hperm.mem_iff.mp hresult)
    obtain ⟨order, horder, -⟩ := htask pair hpair
    exact ⟨order, horder⟩
  refine ⟨_, by rw [collectOrders, horders]; rfl, ?_⟩
  rw [hreduce]
  have hsort := List.mergeSort_perm ((completion.order (page.map task)).filterMap orderOf)
    fun a b ↦ decide (a.pair ≤ b.pair)
  have hpairs := (hsort.trans (hperm.filterMap orderOf)).map SellOrderInfo.pair
  rw [map_filterMap_orderOf htask] at hpairs
  refine List.Perm.eq_of_pairwise' ?_ ((hpage.filter _).imp le_of_lt) hpairs
  rw [List.pairwise_map]
  refine (List.pairwise_mergeSort ?_ ?_ _).imp of_decide_eq_true
  · intro a b c hab hbc
    exact decide_eq_true ((of_decide_eq_true hab).trans (of_decide_eq_true hbc))
  · intro a b
    simpa using le_total a.pair b.pair

/-! ## A call -/

theorem pairs_makePage (limit : ℕ) (page : List OrderPair) (orders : List SellOrderInfo) :
    (makePage limit page orders).pairs =
      if limit < page.length then (orders.map SellOrderInfo.pair).take limit
      else orders.map SellOrderInfo.pair := by
  by_cases hnext : limit < page.length
  · by_cases hlength : limit < orders.length
    · simp [makePage, GetMySellOrdersResult.pairs, hnext, hlength, List.map_take]
    · have hall : (orders.map SellOrderInfo.pair).take limit = orders.map SellOrderInfo.pair :=
        List.take_of_length_le (by rw [List.length_map]; omega)
      simp [makePage, GetMySellOrdersResult.pairs, hnext, hlength, hall]
  · simp [makePage, GetMySellOrdersResult.pairs, hnext]

theorem nextCursor_makePage (limit : ℕ) (page : List OrderPair) (orders : List SellOrderInfo) :
    (makePage limit page orders).nextCursor =
      if limit < page.length then (makePage limit page orders).pairs.getLast?.map encodeCursor
      else none := by
  by_cases hnext : limit < page.length
  · simp [makePage, GetMySellOrdersResult.pairs, hnext, Function.comp_def]
  · simp [makePage, hnext]

variable {target : Target} {build : Overflow.Build} {pageSize : UInt32}

theorem toNat_one (target : Target) : (1 : BitVec target.usizeBits).toNat = 1 := by
  cases target <;> rfl

/-- A page is at most the limit and one more. -/
theorem exists_take_of_pagePairs {start : ℕ} {page : List OrderPair}
    (h : pagePairs target build pageSize candidates start = some page) :
    ∃ n, n ≤ limitOf pageSize + 1 ∧ page = (candidates.drop start).take n := by
  rw [pagePairs] at h
  obtain ⟨bound, hbound, hpage⟩ := Option.bind_eq_some_iff.mp h
  obtain rfl := Option.some.inj hpage
  refine ⟨min (candidates.length - start) bound.toNat, ?_, rfl⟩
  rw [Overflow.toNat_of_add_eq_some hbound, BitVec.toNat_ofNat, toNat_one]
  calc
    min (candidates.length - start)
          ((limitOf pageSize % 2 ^ target.usizeBits + 1) % 2 ^ target.usizeBits)
        ≤ limitOf pageSize % 2 ^ target.usizeBits + 1 := (min_le_right _ _).trans (Nat.mod_le _ _)
    _ ≤ limitOf pageSize + 1 := Nat.succ_le_succ (Nat.mod_le _ _)

variable (candidates build) in
theorem pagePairs_of_lt (h : limitOf pageSize + 1 < 2 ^ target.usizeBits) (start : ℕ) :
    pagePairs target build pageSize candidates start =
      some ((candidates.drop start).take (limitOf pageSize + 1)) := by
  have hlimit : (BitVec.ofNat target.usizeBits (limitOf pageSize)).toNat = limitOf pageSize := by
    rw [BitVec.toNat_ofNat, Nat.mod_eq_of_lt (by omega)]
  obtain ⟨hadd, hsum⟩ := Overflow.add_of_lt (a := BitVec.ofNat target.usizeBits (limitOf pageSize))
    (b := 1) build (by rwa [hlimit, toNat_one])
  rw [pagePairs, hadd]
  change some _ = some _
  rw [hsum, hlimit, toNat_one, ← List.length_drop, min_comm, ← List.take_eq_take_min]

variable (network seller) in
/-- The tasks of a page, whose queues are known. -/
theorem mapM_lookup (page : List OrderPair)
    (h : ∀ pair ∈ page, ∃ qs, queueStates.lookup pair.denom = some qs) :
    ∃ task : OrderPair → TaskResult,
      (∀ pair ∈ page, ∃ qs, task pair = fetchOrder network seller qs pair) ∧
        (page.mapM fun pair ↦
          (queueStates.lookup pair.denom).map (fetchOrder network seller · pair)) =
            some (page.map task) := by
  refine ⟨fun pair ↦ fetchOrder network seller ((queueStates.lookup pair.denom).getD ⟨0, 0⟩) pair,
    fun pair _ ↦ ⟨_, rfl⟩, ?_⟩
  induction page with
  | nil => rfl
  | cons pair page ih =>
      obtain ⟨⟨qs, hqs⟩, hrest⟩ := List.forall_mem_cons.mp h
      rw [List.mapM_cons, ih hrest, List.map_cons, hqs]
      rfl

/-- What a call gives, for the page that is cut from the candidates. -/
theorem exists_getMySellOrders (h : Answered events network seller candidates)
    (completion : Completion) {cursor : Option String} {start : ℕ} {page : List OrderPair}
    (hstart : startOf candidates cursor = .ok start)
    (hpage : pagePairs target build pageSize candidates start = some page) :
    ∃ orders, getMySellOrders target build events network completion seller pageSize cursor =
        some (.ok (makePage (limitOf pageSize) page orders)) ∧
      orders.map SellOrderInfo.pair = page.filter (ownsLot network seller) := by
  obtain ⟨queueStates, hfetch⟩ := h.fetched
  obtain ⟨hsorted, hlookup⟩ := of_fetchCandidates_eq_ok hfetch
  obtain ⟨n, -, hcut⟩ := exists_take_of_pagePairs hpage
  have hsub : page.Sublist candidates := by
    rw [hcut]
    exact (List.take_sublist _ _).trans (List.drop_sublist _ _)
  obtain ⟨task, htask, htasks⟩ := mapM_lookup network seller page
    fun pair hpair ↦ hlookup pair (hsub.subset hpair)
  have hresults : ∀ pair ∈ page, ∃ order, task pair = .ok order ∧
      order.map SellOrderInfo.pair = if ownsLot network seller pair then some pair else none := by
    intro pair hpair
    obtain ⟨qs, hqs⟩ := htask pair hpair
    rw [hqs]
    exact exists_fetchOrder qs (h.lots pair (hsub.subset hpair))
  obtain ⟨orders, horders, hpairs⟩ :=
    exists_collectOrders network seller completion (hsorted.sublist hsub) hresults
  refine ⟨orders, ?_, hpairs⟩
  rw [getMySellOrders, hfetch]
  dsimp only
  rw [hstart]
  dsimp only
  rw [hpage]
  change (Option.bind (page.mapM _) _) = _
  rw [htasks]
  change some (do
    let results ← collectOrders (completion.order (page.map task))
    return makePage (limitOf pageSize) page results) = _
  rw [horders]
  rfl

/-! ## Cursors of a reader -/

theorem drop_start (hsorted : candidates.Pairwise (· < ·)) {cursor : Option String} {start : ℕ}
    (h : startOf candidates cursor = .ok start) :
    candidates.drop start = after candidates cursor := by
  cases cursor with
  | none =>
      obtain rfl := Except.ok.inj h
      rfl
  | some c =>
      rw [startOf] at h
      rw [after]
      cases hpair : parseCursor c with
      | none => rw [hpair] at h; cases h
      | some pair =>
          rw [hpair] at h
          obtain rfl := Except.ok.inj h
          exact Paging.drop_findIdx_lt hsorted pair

theorem after_encodeCursor (pair : OrderPair) :
    after candidates (some (encodeCursor pair)) = candidates.filter (pair < ·) := by
  rw [after, parseCursor_encodeCursor]

theorem passed_lt_of_mem_after {cursor : Option String} {pair passed : OrderPair}
    (hpassed : cursor.bind parseCursor = some passed) (h : pair ∈ after candidates cursor) :
    passed < pair := by
  obtain ⟨c, rfl, hc⟩ := Option.bind_eq_some_iff.mp hpassed
  rw [after, hc] at h
  exact of_decide_eq_true (List.mem_filter.mp h).2

theorem after_sublist (cursor : Option String) : (after candidates cursor).Sublist candidates := by
  cases cursor with
  | none => exact List.Sublist.refl _
  | some c =>
      rw [after]
      split
      · exact List.nil_sublist _
      · exact List.filter_sublist

/-- The candidates after an order of the page are those left of its rest. -/
theorem after_of_mem {cursor : Option String} {pair : OrderPair}
    (h : pair ∈ after candidates cursor) :
    after candidates (some (encodeCursor pair)) = (after candidates cursor).filter (pair < ·) := by
  rw [after_encodeCursor]
  cases cursor with
  | none => rfl
  | some c =>
      rw [after] at h ⊢
      cases hc : parseCursor c with
      | none => simp [hc] at h
      | some passed =>
          have hlt : passed < pair := by
            rw [hc] at h
            exact of_decide_eq_true (List.mem_filter.mp h).2
          dsimp only
          rw [List.filter_filter]
          refine List.filter_congr fun other _ ↦ ?_
          by_cases hother : pair < other
          · simp [hother, hlt.trans hother]
          · simp [hother]

/-! ## Pages -/

/-- The pages of all calls. -/
theorem callsOk (h : Answered events network seller candidates) :
    CallsOk target build events network seller pageSize candidates (limitOf pageSize) := by
  intro completion cursor result hresult
  obtain ⟨queueStates, hfetch⟩ := h.fetched
  obtain ⟨hsorted, -⟩ := of_fetchCandidates_eq_ok hfetch
  cases hstart : startOf candidates cursor with
  | error e =>
      rw [getMySellOrders, hfetch] at hresult
      dsimp only at hresult
      rw [hstart] at hresult
      cases hresult
  | ok start =>
      cases hpage : pagePairs target build pageSize candidates start with
      | none =>
          rw [getMySellOrders, hfetch] at hresult
          dsimp only at hresult
          rw [hstart] at hresult
          dsimp only at hresult
          rw [hpage] at hresult
          cases hresult
      | some page =>
          obtain ⟨orders, horders, hpairs⟩ := exists_getMySellOrders h completion hstart hpage
          obtain rfl := Except.ok.inj (Option.some.inj (horders.symm.trans hresult))
          obtain ⟨n, hn, hcut⟩ := exists_take_of_pagePairs hpage
          rw [drop_start hsorted hstart] at hcut
          have hsub : ((makePage (limitOf pageSize) page orders).pairs).Sublist
              ((after candidates cursor).filter (ownsLot network seller)) := by
            have hfilter : (page.filter (ownsLot network seller)).Sublist
                ((after candidates cursor).filter (ownsLot network seller)) := by
              rw [hcut]
              exact (List.take_sublist _ _).filter _
            rw [pairs_makePage, hpairs]
            split
            · exact (List.take_sublist _ _).trans hfilter
            · exact hfilter
          constructor
          · have hlength : ((makePage (limitOf pageSize) page orders).pairs).length ≤
                limitOf pageSize := by
              rw [pairs_makePage, hpairs]
              split
              · exact List.length_take_le _ _
              · rename_i hle
                exact (List.length_filter_le _ _).trans (Nat.not_lt.mp hle)
            rwa [GetMySellOrdersResult.pairs, List.length_map] at hlength
          · exact hsorted.sublist (hsub.trans (List.filter_sublist.trans (after_sublist cursor)))
          · exact hsub
          · intro c hc
            rw [nextCursor_makePage] at hc
            split at hc
            · obtain ⟨pair, hpair, rfl⟩ := Option.map_eq_some_iff.mp hc
              refine ⟨pair, rfl, fun passed hpassed ↦ ?_⟩
              have hmem := hsub.subset (List.mem_of_getLast? hpair)
              exact passed_lt_of_mem_after hpassed (List.mem_filter.mp hmem).1
            · cases hc

/-- A cursor that a reader can have. -/
def IsCursor (cursor : Option String) : Prop :=
  ∀ c, cursor = some c → ∃ pair, c = encodeCursor pair

variable (candidates) in
theorem exists_startOf {cursor : Option String} (h : IsCursor cursor) :
    ∃ start, startOf candidates cursor = .ok start := by
  cases cursor with
  | none => exact ⟨0, rfl⟩
  | some c =>
      obtain ⟨pair, rfl⟩ := h c rfl
      exact ⟨_, by rw [startOf, parseCursor_encodeCursor]⟩

/-- Of any candidates that fill a page and one more, one is of the seller. -/
def NoForeignPage (limit : ℕ) (candidates : List OrderPair) (owned : OrderPair → Bool) : Prop :=
  ∀ page, page <:+: candidates → page.length = limit + 1 → ∃ pair ∈ page, owned pair = true

theorem after_isInfix (hsorted : candidates.Pairwise (· < ·)) {cursor : Option String}
    (h : IsCursor cursor) : after candidates cursor <:+ candidates := by
  obtain ⟨start, hstart⟩ := exists_startOf candidates h
  rw [← drop_start hsorted hstart]
  exact List.drop_suffix _ _

/-- A full page has a last order. -/
theorem exists_getLast {limit : ℕ} {rest : List OrderPair} {owned : OrderPair → Bool}
    (hlimit : 0 < limit) (hforeign : NoForeignPage limit candidates owned)
    (hpart : rest <:+: candidates) (hfull : limit < rest.length) :
    ∃ last, (((rest.take (limit + 1)).filter owned).take limit).getLast? = some last := by
  have hlength : (rest.take (limit + 1)).length = limit + 1 := by
    rw [List.length_take]
    omega
  obtain ⟨pair, hpair, howned⟩ :=
    hforeign _ ((List.take_prefix _ _).isInfix.trans hpart) hlength
  refine Option.ne_none_iff_exists'.mp (mt List.getLast?_eq_none_iff.mp ?_)
  rw [List.take_eq_nil_iff]
  rintro (hzero | hnil)
  · exact absurd hzero hlimit.ne'
  · exact List.ne_nil_of_mem (List.mem_filter.mpr ⟨hpair, howned⟩) hnil

variable (build) in
/-- A call with a cursor of the reader brings it on. -/
theorem advances_of_call (h : Answered events network seller candidates)
    (hfits : limitOf pageSize + 1 < 2 ^ target.usizeBits)
    (hforeign : NoForeignPage (limitOf pageSize) candidates (ownsLot network seller))
    (completion : Completion) {cursor : Option String} (hcursor : IsCursor cursor) :
    ∃ result, getMySellOrders target build events network completion seller pageSize cursor =
        some (.ok result) ∧
      (result.hasNextPage = true → result.nextCursor.isSome = true) ∧
        Paging.Advances GetMySellOrdersResult.next GetMySellOrdersResult.pairs
          (fun cursor ↦ (after candidates cursor).filter (ownsLot network seller))
          (fun cursor ↦ (after candidates cursor).length) IsCursor cursor result := by
  obtain ⟨queueStates, hfetch⟩ := h.fetched
  obtain ⟨hsorted, -⟩ := of_fetchCandidates_eq_ok hfetch
  obtain ⟨start, hstart⟩ := exists_startOf candidates hcursor
  have hpage := pagePairs_of_lt candidates build hfits start
  obtain ⟨orders, horders, hpairs⟩ := exists_getMySellOrders h completion hstart hpage
  rw [drop_start hsorted hstart] at horders hpairs
  have hpart := after_isInfix hsorted hcursor
  refine ⟨_, horders, ?_⟩
  generalize hrest : after candidates cursor = rest at *
  by_cases hnext : limitOf pageSize < rest.length
  · have hmore : limitOf pageSize < (rest.take (limitOf pageSize + 1)).length := by
      rw [List.length_take]
      omega
    obtain ⟨last, hlast⟩ :=
      exists_getLast (by rw [limitOf]; omega) hforeign hpart.isInfix hnext
    have htaken : ((rest.take (limitOf pageSize + 1)).filter (ownsLot network seller)).take
        (limitOf pageSize) <+: rest.filter (ownsLot network seller) :=
      (List.take_prefix _ _).trans ((List.take_prefix _ _).filter _)
    have hmem : last ∈ rest :=
      (List.mem_filter.mp (htaken.subset (List.mem_of_getLast? hlast))).1
    have hafter : after candidates (some (encodeCursor last)) = rest.filter (last < ·) := by
      rw [← hrest] at hmem ⊢
      exact after_of_mem hmem
    have hresult : (makePage (limitOf pageSize) (rest.take (limitOf pageSize + 1)) orders).pairs =
        ((rest.take (limitOf pageSize + 1)).filter (ownsLot network seller)).take
          (limitOf pageSize) := by
      rw [pairs_makePage, if_pos hmore, hpairs]
    have hcursor' : (makePage (limitOf pageSize) (rest.take (limitOf pageSize + 1))
        orders).nextCursor = some (encodeCursor last) := by
      rw [nextCursor_makePage, if_pos hmore, hresult, hlast]
      rfl
    have hgoes : (makePage (limitOf pageSize) (rest.take (limitOf pageSize + 1)) orders).next =
        some (some (encodeCursor last)) := by
      rw [GetMySellOrdersResult.next, hcursor']
      exact if_pos (decide_eq_true hmore)
    refine ⟨fun _ ↦ by rw [hcursor']; rfl, .more hgoes ?_ ?_ ?_⟩
    · rintro c ⟨⟩
      exact ⟨last, rfl⟩
    · rw [hafter, hrest, hresult]
      exact Paging.append_filter_lt (hrest ▸ hsorted.sublist (after_sublist cursor)) htaken hlast
    · rw [hafter, hrest]
      exact Paging.length_filter_lt hmem
  · have htake : rest.take (limitOf pageSize + 1) = rest := List.take_of_length_le (by omega)
    rw [htake] at hpairs ⊢
    refine ⟨fun hpage ↦ absurd (of_decide_eq_true hpage) hnext, .last ?_ ?_⟩
    · rw [GetMySellOrdersResult.next]
      exact if_neg fun hpage ↦ hnext (of_decide_eq_true hpage)
    · rw [pairs_makePage, if_neg hnext, hpairs, hrest]

/-- Each page is in order, of orders of the seller, and at most as long as the
page size, which is taken to be one at least.  A reader comes to the last page
and has read each order of the seller once, if the lots of a page and one more
are never all foreign, and their number is one of the target. -/
theorem pages_of_answered (target : Target) (build : Overflow.Build)
    (h : Answered events network seller candidates) (pageSize : UInt32) :
    CallsOk target build events network seller pageSize candidates (limitOf pageSize) ∧
      (limitOf pageSize + 1 < 2 ^ target.usizeBits →
        NoForeignPage (limitOf pageSize) candidates (ownsLot network seller) →
          ReadsAll target build events network seller pageSize candidates) := by
  refine ⟨callsOk h, ?_⟩
  intro hfits hforeign completions
  have hstep : ∀ n cursor, IsCursor cursor → ∃ page,
      calls target build events network seller pageSize completions n cursor = some page ∧
        (page.hasNextPage = true → page.nextCursor.isSome = true) ∧
          Paging.Advances GetMySellOrdersResult.next GetMySellOrdersResult.pairs
            (fun cursor ↦ (after candidates cursor).filter (ownsLot network seller))
            (fun cursor ↦ (after candidates cursor).length) IsCursor cursor page := by
    intro n cursor hcursor
    obtain ⟨page, hpage, hgoes⟩ :=
      advances_of_call build h hfits hforeign (completions n) hcursor
    exact ⟨page, by rw [calls, hpage]; rfl, hgoes⟩
  have hfirst : IsCursor none := by rintro c ⟨⟩
  obtain ⟨pages, hreads, hall, hpages⟩ := Paging.exists_reads hstep 0 hfirst
  obtain ⟨queueStates, hfetch⟩ := h.fetched
  refine ⟨pages, hreads, hall, ?_, hpages⟩
  rw [hall]
  exact (of_fetchCandidates_eq_ok hfetch).1.filter _

end

/-! ## A page size of zero -/

def pagedLog : EventLog :=
  exampleLog [exampleEntry 3 "c", exampleEntry 2 "b", exampleEntry 1 "a"]

/-- The second of three lots has another owner. -/
def pagedNetwork : Network Empty where
  hot := serve pagedLog
  archive := some (serve pagedLog)
  getQueueState _ := .ok ⟨4, 0⟩
  getSellOrderAddress pair := .ok (toString pair.orderId.toNat)
  getDetails addr := .ok ⟨if addr = "2" then "0:bb" else exampleSeller, false⟩

theorem answered_paged :
    Answered exampleEvents pagedNetwork exampleSeller [⟨1, 1⟩, ⟨1, 2⟩, ⟨1, 3⟩] where
  fetched := by
    have hkeeps : Keeps exampleEvents (serve pagedLog : Endpoint Empty) pagedLog :=
      keeps_serve _ (nodup_exampleLog (by decide))
    have hreading : Reading exampleEvents pagedNetwork pagedLog pagedLog pagedLog
        fun _ ↦ ⟨4, 0⟩ :=
      { split := ⟨fun dst ↦ List.prefix_refl _, fun dst ↦ List.suffix_refl _,
          fun dst entry hentry ↦ .inl hentry⟩
        hot := hkeeps
        archive := ⟨_, rfl, hkeeps⟩
        states := fun _ _ ↦ rfl }
    have hcreated : firstFound (createdSources exampleEvents pagedLog pagedLog exampleSeller) =
        {⟨1, 1⟩, ⟨1, 2⟩, ⟨1, 3⟩} := by decide +kernel
    have hclaimed : firstFound (claimedSources exampleEvents pagedLog pagedLog exampleSeller) =
        ∅ := by decide +kernel
    refine ⟨validDenoms.map fun d ↦ (d, ⟨4, 0⟩), ?_⟩
    rw [hreading.fetchCandidates_eq, hcreated, hclaimed]
    congr 2
    refine List.Pairwise.eq_of_mem_iff (pairwise_candidates _ _ _) (by decide) fun pair ↦ ?_
    rw [mem_candidates]
    constructor
    · rintro ⟨hpair, -⟩
      simpa using hpair
    · intro hpair
      refine ⟨by simpa using hpair, Finset.notMem_empty _, ?_⟩
      revert pair
      decide
  lots := by
    intro pair hpair
    exact ⟨_, _, rfl, rfl⟩

/-- A page of size zero has an order. -/
theorem not_callsOk :
    Answered exampleEvents pagedNetwork exampleSeller [⟨1, 1⟩, ⟨1, 2⟩, ⟨1, 3⟩] ∧
      ¬CallsOk .native64 .debug exampleEvents pagedNetwork exampleSeller 0
        [⟨1, 1⟩, ⟨1, 2⟩, ⟨1, 3⟩] (0 : UInt32).toNat := by
  refine ⟨answered_paged, fun hcalls ↦ ?_⟩
  have hstart : startOf [⟨1, 1⟩, ⟨1, 2⟩, ⟨1, 3⟩] none = .ok 0 := rfl
  have hpage : pagePairs .native64 .debug 0 [⟨1, 1⟩, ⟨1, 2⟩, ⟨1, 3⟩] 0 =
      some [⟨1, 1⟩, ⟨1, 2⟩] := pagePairs_of_lt _ _ (by decide) 0
  obtain ⟨orders, hresult, hpairs⟩ :=
    exists_getMySellOrders answered_paged ⟨id, fun _ ↦ List.Perm.refl _⟩ hstart hpage
  have hempty := List.length_eq_zero_iff.mp (Nat.le_zero.mp (hcalls _ _ _ hresult).length)
  have hnone := pairs_makePage (limitOf 0) [⟨1, 1⟩, ⟨1, 2⟩] orders
  rw [GetMySellOrdersResult.pairs, hempty, hpairs] at hnone
  revert hnone
  decide +kernel

theorem pages_of_answered_paged :
    CallsOk .wasm32 .debug exampleEvents pagedNetwork exampleSeller 1
        [⟨1, 1⟩, ⟨1, 2⟩, ⟨1, 3⟩] 1 ∧
      ReadsAll .wasm32 .debug exampleEvents pagedNetwork exampleSeller 1
        [⟨1, 1⟩, ⟨1, 2⟩, ⟨1, 3⟩] := by
  obtain ⟨hcalls, hreads⟩ := pages_of_answered .wasm32 .debug answered_paged 1
  refine ⟨hcalls, hreads (by decide) fun page hpart hlength ↦ ?_⟩
  obtain ⟨first, second, rfl⟩ := List.length_eq_two.mp hlength
  have hsorted : [first, second].Pairwise (· < ·) :=
    (by decide : [(⟨1, 1⟩ : OrderPair), ⟨1, 2⟩, ⟨1, 3⟩].Pairwise (· < ·)).sublist hpart.sublist
  have howned : ∀ a ∈ [(⟨1, 1⟩ : OrderPair), ⟨1, 2⟩, ⟨1, 3⟩],
      ∀ b ∈ [(⟨1, 1⟩ : OrderPair), ⟨1, 2⟩, ⟨1, 3⟩], a < b →
        ownsLot pagedNetwork exampleSeller a = true ∨
          ownsLot pagedNetwork exampleSeller b = true := by decide +kernel
  have hfirst := hpart.subset (List.mem_cons_self)
  have hsecond := hpart.subset (List.mem_cons_of_mem first List.mem_cons_self)
  rcases howned _ hfirst _ hsecond (List.rel_of_pairwise_cons hsorted List.mem_cons_self)
    with h | h
  · exact ⟨first, List.mem_cons_self, h⟩
  · exact ⟨second, List.mem_cons_of_mem _ List.mem_cons_self, h⟩

end SellOrders

end BeeEngine
