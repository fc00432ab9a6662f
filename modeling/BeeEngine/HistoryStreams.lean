import BeeEngine.HistoryRuns
import BeeEngine.Lib.BigUint
import BeeEngine.Lib.Laps

/-!
# The history of a wallet with a miner

Two streams are read in step, and one that has come to its end starts over while
the other one goes on.
-/

namespace BeeEngine

namespace History

open Chunks Cursors

variable {F α : Type}

/-! ## Laps of a stream -/

/-- A page of a stream without an archive: its messages, with the newest one first, the
next cursor, and whether there is more. -/
def streamStep (fetch : Fetch F) (client : Client F) (pageSize : UInt32)
    (cursor : Option String) : Option (List EccMsg × Option String × Bool) :=
  (fetchStream fetch client none pageSize (decodeCursor cursor)).toOption.map fun page ↦
    (page.msgs.reverse, page.nextCursor, page.hasMore)

/-- The pages of one lap over a log. -/
def lapOf (shown : α → Option EccMsg) (full : List α → Bool) (size : ℕ) (log : List α) :
    List (List EccMsg) :=
  if log.isEmpty then [[]]
  else (turns full [] (chunks size log)).map (·.filterMap shown)

/-- How many pages a log has, of which there is one at least. -/
def pageCount (full : List α → Bool) (size : ℕ) (log : List α) : ℕ :=
  max 1 (turns full [] (chunks size log)).length

/-- The last page of the log shows something, if there is anything in the log. -/
def EndsShown (shown : α → Option EccMsg) (full : List α → Bool) (size : ℕ) (log : List α) :
    Prop :=
  ∀ turn ∈ (turns full [] (chunks size log)).getLast?, turn.filterMap shown ≠ []

instance (shown : α → Option EccMsg) (full : List α → Bool) (size : ℕ) (log : List α) :
    Decidable (EndsShown shown full size log) :=
  inferInstanceAs (Decidable (∀ turn ∈ (_ : Option (List α)), _))

section

variable {shown : α → Option EccMsg} {cursor : α → String} {full : ℕ → List α → Bool}
  {size : ℕ} {log : List α}

theorem flatten_lapOf (full : List α → Bool) (hsize : 0 < size) :
    (lapOf shown full size log).flatten = log.filterMap shown := by
  rw [lapOf]
  split
  · rename_i hlog
    rw [List.isEmpty_iff.mp hlog]
    rfl
  · rw [← List.filterMap_flatten, flatten_turns, List.nil_append, flatten_chunks hsize]

variable (shown log) in
theorem length_lapOf (full : List α → Bool) (hsize : 0 < size) :
    (lapOf shown full size log).length = pageCount full size log := by
  rw [lapOf, pageCount]
  split
  · rename_i hlog
    rw [List.isEmpty_iff.mp hlog]
    rfl
  · rename_i hlog
    have hne : [] ++ (chunks size log).flatten ≠ [] := by
      rw [List.nil_append, flatten_chunks hsize]
      simpa using hlog
    rw [List.length_map, turns_eq full hne, List.length_cons]
    exact (Nat.max_eq_right (Nat.succ_le_succ (Nat.zero_le _))).symm

/-- The pages of a part of the log. -/
theorem sublist_of_mem_lapOf (full : List α → Bool) (hsize : 0 < size) {seg : List EccMsg}
    (h : seg ∈ lapOf shown full size log) : seg.Sublist (log.filterMap shown) := by
  rw [← flatten_lapOf full hsize]
  exact List.sublist_flatten_of_mem h

variable {fetch : Fetch F} {client : Client F} {pageSize : UInt32}

/-- The page of a stream without an archive. -/
theorem fetchStream_none {before : Option String} {page : Fetched}
    (hpage : (fetch client pageSize before).value = .ok page)
    (hend : page.hasMore = false → page.msgs = [] → page.nextCursor = none) :
    fetchStream fetch client none pageSize (.hot before) =
      .ok ⟨page.msgs, if page.hasMore then page.nextCursor else none, page.hasMore⟩ := by
  obtain ⟨msgs, next, more⟩ := page
  rw [fetchStream, hpage, Outcome.ok_bind]
  cases more with
  | true =>
      rw [if_neg (by simp), if_neg (by simp)]
      rfl
  | false =>
      by_cases hempty : msgs = []
      · rw [if_pos ⟨by simp, by rw [hempty]; rfl⟩]
        exact congrArg (fun c ↦ Except.ok (Fetched.mk msgs c false)) (hend rfl hempty)
      · rw [if_neg (by simp [hempty]), if_pos (by simp)]
        rfl

theorem streamStep_eq {before : Option String} {page : Fetched}
    (hhot : decodeCursor before = .hot before)
    (hpage : (fetch client pageSize before).value = .ok page)
    (hend : page.hasMore = false → page.msgs = [] → page.nextCursor = none) :
    streamStep fetch client pageSize before =
      some (page.msgs.reverse, if page.hasMore then page.nextCursor else none, page.hasMore) := by
  rw [streamStep, hhot, fetchStream_none hpage hend]
  rfl

theorem fetchStream_of_streamStep {c d : Option String} {seg : List EccMsg} {more : Bool}
    (h : streamStep fetch client pageSize c = some (seg, d, more)) :
    fetchStream fetch client none pageSize (decodeCursor c) = .ok ⟨seg.reverse, d, more⟩ := by
  obtain ⟨page, hpage, heq⟩ := Option.map_eq_some_iff.mp h
  cases hstream : fetchStream fetch client none pageSize (decodeCursor c) with
  | error e =>
      rw [hstream] at hpage
      cases hpage
  | ok page' =>
      rw [hstream] at hpage
      obtain rfl := Option.some.inj hpage
      cases heq
      rw [List.reverse_reverse]

/-- The lap from a cursor on. -/
theorem lap_turns (h : Fetches (fetch client) shown cursor full log)
    (hsucceeds : Succeeds (fetch client) cursor log)
    (hhot : ∀ entry ∈ log, Text.stripPrefix archiveCursorPrefix (cursor entry) = none)
    (hsize : 0 < pageSize.toNat) {before : Option String} (hcursor : IsCursor cursor log before)
    (hne : older cursor before log ≠ [])
    (hend : EndsShown shown (full pageSize.toNat) pageSize.toNat (older cursor before log)) :
    Laps.Lap (streamStep fetch client pageSize) none before
      ((turns (full pageSize.toNat) [] (chunks pageSize.toNat (older cursor before log))).map
        (·.filterMap shown)) := by
  induction hlength : (older cursor before log).length using Nat.strong_induction_on
    generalizing before with
  | _ k ih =>
      obtain ⟨page, hpage⟩ := hsucceeds _ _ hsize hcursor
      have hturn := h.turn _ _ _ hsize hcursor hpage
      have hsource : decodeCursor before = .hot before := by
        refine decodeCursor_hot fun c hc ↦ ?_
        obtain ⟨entry, hentry, rfl⟩ := hcursor c hc
        exact hhot entry hentry
      obtain ⟨last, hlast, hnext, hrest⟩ :=
        exists_turn_older h.nodup (full pageSize.toNat) [] hcursor hsize hne
      have hflat : [] ++ (chunks pageSize.toNat (older cursor before log)).flatten ≠ [] := by
        rwa [List.nil_append, flatten_chunks hsize]
      have hturns := turns_eq (full pageSize.toNat) hflat
      have hall := congrArg List.flatten hturns
      rw [flatten_turns, List.nil_append, flatten_chunks hsize, List.flatten_cons, flatten_turns,
        List.nil_append, hrest, flatten_chunks hsize] at hall
      rw [hrest] at hturns
      rw [EndsShown, hturns] at hend
      rw [hturns, List.map_cons]
      generalize turn (full pageSize.toNat) []
        (chunks pageSize.toNat (older cursor before log)) = t at hturn hlast hrest hall hend ⊢
      by_cases hleft : older cursor (some (cursor last)) log = []
      · rw [hleft] at hrest hend ⊢
        have hshown : t.1.filterMap shown ≠ [] := hend t.1 rfl
        have hmore : page.hasMore = false := by
          rw [hturn, fetchedOf, hrest]
          rfl
        have hstep := streamStep_eq hsource hpage fun _ hempty ↦ by
          rw [hturn, fetchedOf, List.reverse_eq_nil_iff] at hempty
          exact absurd hempty hshown
        refine .last ?_
        rw [hstep, hmore, hturn, fetchedOf, List.reverse_reverse]
        rfl
      · have hmore : page.hasMore = true := by
          rw [hturn, fetchedOf, hrest, chunks_of_ne_nil hsize hleft]
          rfl
        have hstep := streamStep_eq hsource hpage fun hno ↦ absurd hno (by rw [hmore]; decide)
        have hpos : 0 < t.1.length := by
          refine List.length_pos_iff.mpr fun hempty ↦ ?_
          rw [hempty] at hlast
          cases hlast
        have hless : (older cursor (some (cursor last)) log).length < k := by
          rw [← hlength, hall, List.length_append]
          omega
        refine .more ?_ (ih _ hless hnext hleft ?_ rfl)
        · rw [hstep, hmore, hturn, fetchedOf, List.reverse_reverse, hlast]
          rfl
        · intro turn hturn
          refine hend turn ?_
          rwa [List.getLast?_cons_of_ne_nil]
          intro hnil
          rw [hnil] at hturn
          cases hturn

/-- The lap over a log. -/
theorem lap_lapOf (h : Fetches (fetch client) shown cursor full log)
    (hsucceeds : Succeeds (fetch client) cursor log)
    (hhot : ∀ entry ∈ log, Text.stripPrefix archiveCursorPrefix (cursor entry) = none)
    (hsize : 0 < pageSize.toNat)
    (hend : EndsShown shown (full pageSize.toNat) pageSize.toNat log) :
    Laps.Lap (streamStep fetch client pageSize) none none
      (lapOf shown (full pageSize.toNat) pageSize.toNat log) := by
  rw [lapOf]
  split
  · rename_i hlog
    obtain rfl := List.isEmpty_iff.mp hlog
    obtain ⟨page, hpage⟩ := hsucceeds _ _ hsize (isCursor_none cursor [])
    obtain rfl := h.turn _ _ _ hsize (isCursor_none cursor []) hpage
    exact .last (streamStep_eq rfl hpage fun _ _ ↦ rfl)
  · rename_i hlog
    exact lap_turns h hsucceeds hhot hsize (isCursor_none cursor log) (by simpa using hlog) hend

end

/-! ## Rewards -/

section

variable {kit : Kit F} {network : Network F} {params : ParamsOfGetHistory}
  {popitgameAddress : String} {hotLog : List LoggedMsg} {eventLog : List SellOrders.LoggedEvent}

/-- A wallet whose miner has been found. -/
structure Miner (kit : Kit F) (network : Network F) (params : ParamsOfGetHistory)
    (popitgameAddress : String) (hotLog : List LoggedMsg)
    (eventLog : List SellOrders.LoggedEvent) : Prop where
  wallet : Wallet kit network params nacklCurrencyId hotLog []
  popitgame : network.getPopitgame params.multifactorAddress = .ok popitgameAddress
  events : KeepsEvents kit network.tvmClient popitgameAddress eventLog
  responds : Responds (askEvents kit network.tvmClient popitgameAddress)
    SellOrders.LoggedEvent.cursor eventLog
  eventCursors : ∀ entry ∈ eventLog, Text.stripPrefix archiveCursorPrefix entry.cursor = none
  ids : ((hotLog.map fun entry ↦ entry.msg.id) ++ eventLog.map fun entry ↦ entry.event.id).Nodup
  bounded : ∀ entry ∈ eventLog, ∀ reward ∈ kit.reward entry.event, reward < 2 ^ 128

/-- The messages of the rewards in a log. -/
def rewardMsgs (kit : Kit F) (popitgameAddress : String)
    (eventLog : List SellOrders.LoggedEvent) : List EccMsg :=
  eventLog.filterMap (shownEvent kit popitgameAddress nacklCurrencyId)

theorem exists_miningTxData {entry : SellOrders.LoggedEvent} {evt : EccMsg}
    (hevt : shownEvent kit popitgameAddress nacklCurrencyId entry = some evt)
    (hbounded : ∀ reward ∈ kit.reward entry.event, reward < 2 ^ 128) :
    ∃ tx, miningTxData nacklCurrencyId evt = .ok tx := by
  obtain ⟨reward, hreward, rfl⟩ := Option.map_eq_some_iff.mp hevt
  have hparse : ParseInt.parse (2 ^ 128) (toString reward) = .ok reward :=
    (ParseInt.parse_eq_ok_iff (by decide)).mpr (Text.parseUnsigned_toString (hbounded _ hreward))
  have hvalue : ∀ noun abbreviation, valueOf nacklCurrencyId noun abbreviation
      ⟨entry.event.id, gameRootAddress, popitgameAddress, entry.event.createdAt,
        [⟨nacklCurrencyId, toString reward⟩]⟩ = .ok reward := by
    intro noun abbreviation
    rw [valueOf, List.find?_cons_of_pos (by simp)]
    dsimp only
    rw [hparse]
    rfl
  rw [miningTxData, hvalue]
  exact ⟨_, rfl⟩

theorem map_id_rewardMsgs_sublist :
    ((rewardMsgs kit popitgameAddress eventLog).map EccMsg.id).Sublist
      (eventLog.map fun entry ↦ entry.event.id) := by
  induction eventLog with
  | nil => exact .slnil
  | cons entry eventLog ih =>
      rw [rewardMsgs] at ih ⊢
      rw [List.filterMap_cons, List.map_cons]
      split
      · exact ih.cons _
      · rename_i evt hevt
        obtain ⟨reward, -, rfl⟩ := Option.map_eq_some_iff.mp hevt
        exact ih.cons_cons _

/-- The ids of two pages, one of each stream. -/
theorem Miner.nodup_ids (h : Miner kit network params popitgameAddress hotLog eventLog)
    {seg rewards : List EccMsg} (hseg : seg.Sublist (shownMsgs nacklCurrencyId hotLog))
    (hrewards : rewards.Sublist (rewardMsgs kit popitgameAddress eventLog)) :
    ((seg ++ rewards).map EccMsg.id).Nodup := by
  rw [List.map_append]
  refine h.ids.sublist (List.Sublist.append ?_ ?_)
  · have hall := (hseg.trans List.filter_sublist).map EccMsg.id
    rwa [List.map_map] at hall
  · exact (hrewards.map EccMsg.id).trans map_id_rewardMsgs_sublist

theorem Miner.exists_walletTx (h : Miner kit network params popitgameAddress hotLog eventLog)
    {evt : EccMsg} (hevt : evt ∈ shownMsgs nacklCurrencyId hotLog) :
    ∃ tx, walletTx network params.multifactorAddress nacklCurrencyId evt = .ok tx := by
  obtain ⟨hmem, hcarries⟩ := List.mem_filter.mp hevt
  obtain ⟨entry, hentry, rfl⟩ := List.mem_map.mp hmem
  exact h.wallet.sound entry (List.mem_append_left _ hentry) hcarries

theorem Miner.exists_reward (h : Miner kit network params popitgameAddress hotLog eventLog)
    {evt : EccMsg} (hevt : evt ∈ rewardMsgs kit popitgameAddress eventLog) :
    ∃ tx, miningTxData nacklCurrencyId evt = .ok tx := by
  obtain ⟨entry, hentry, hshown⟩ := List.mem_filterMap.mp hevt
  exact exists_miningTxData hshown (h.bounded entry hentry)

/-! ## Calls with two streams -/

/-- The page shows some messages and some rewards. -/
structure ResultOfGetHistory.ShowsBoth (network : Network F) (multifactorAddress : String)
    (page : ResultOfGetHistory) (seg rewards : List EccMsg) : Prop where
  data : ∃ txs mining, AreTxs network multifactorAddress nacklCurrencyId seg txs ∧
    AreRewards nacklCurrencyId rewards mining ∧ page.data.Perm (txs ++ mining)
  newest : Newest page.data

/-- A call of a wallet with a miner, for a page of each stream. -/
theorem Miner.exists_call (h : Miner kit network params popitgameAddress hotLog eventLog)
    (n : ℕ) {c c' d d' : Option String} {seg rewards : List EccMsg} {more more' : Bool}
    (hseg : seg.Sublist (shownMsgs nacklCurrencyId hotLog))
    (hrewards : rewards.Sublist (rewardMsgs kit popitgameAddress eventLog))
    (hmf : streamStep (fetchEccWithAutoPagination kit params.multifactorAddress nacklCurrencyId)
      network.tvmClient params.pageSize c = some (seg, d, more))
    (hpg : streamStep (fetchMiningWithAutoPagination kit popitgameAddress nacklCurrencyId)
      network.tvmClient params.pageSize c' = some (rewards, d', more')) :
    ∃ page, calls kit network (fun _ ↦ none) params n (c, c') = some page ∧
      page.ShowsBoth network params.multifactorAddress seg rewards ∧
        page.next = if more || more' then some (d, d') else none := by
  obtain ⟨txs, mining, data, htxs, hmining, hdata, hnewest, hperm⟩ :=
    exists_txsOf (h.nodup_ids hseg hrewards) (fun evt hevt ↦ h.exists_walletTx (hseg.subset hevt))
      fun evt hevt ↦ h.exists_reward (hrewards.subset hevt)
  refine ⟨⟨data, d, d', more || more'⟩, ?_, ⟨⟨txs, mining, htxs, hmining, hperm⟩, hnewest⟩, rfl⟩
  have hminer : popitgameOf { network with archiveTvmClient := none } params.multifactorAddress
      nacklCurrencyId = some popitgameAddress := by
    rw [popitgameOf, if_pos rfl, h.popitgame]
    rfl
  have hfetchMf : fetchMf kit { network with archiveTvmClient := none }
      { params with cursor := c, miningCursor := c' } nacklCurrencyId =
        .ok ⟨seg.reverse, d, more⟩ := fetchStream_of_streamStep hmf
  have hfetchPg : fetchPg kit { network with archiveTvmClient := none }
      { params with cursor := c, miningCursor := c' } nacklCurrencyId =
        .ok ⟨rewards.reverse, d', more'⟩ := by
    refine (fetchPg_eq_fetchStream ?_).trans (fetchStream_of_streamStep hpg)
    exact hminer
  have hcall : getEccTxs kit { network with archiveTvmClient := none }
      { params with cursor := c, miningCursor := c' } = .ok ⟨data, d, d', more || more'⟩ := by
    apply getEccTxs_eq_ok _ hfetchMf hfetchPg hdata
    exact h.wallet.token_eq
  rw [calls, hcall]
  rfl

/-- What the messages of a page become. -/
def walletTxs (network : Network F) (multifactorAddress : String) (msgs : List EccMsg) :
    List TxData :=
  msgs.filterMap fun evt ↦ (walletTx network multifactorAddress nacklCurrencyId evt).toOption

def rewardTxs (rewards : List EccMsg) : List TxData :=
  rewards.filterMap fun evt ↦ (miningTxData nacklCurrencyId evt).toOption

theorem eq_filterMap_of_forall₂ {f : EccMsg → Except AppError TxData} {seg : List EccMsg}
    {txs : List TxData} (h : List.Forall₂ (fun evt tx ↦ f evt = .ok tx) seg txs) :
    txs = seg.filterMap fun evt ↦ (f evt).toOption := by
  induction h with
  | nil => rfl
  | cons htx _ ih =>
      rw [List.filterMap_cons, htx, ← ih]
      rfl

theorem walletTxs_flatMap (network : Network F) (multifactorAddress : String)
    (segs : List (List EccMsg)) : segs.flatMap (walletTxs network multifactorAddress) =
      walletTxs network multifactorAddress segs.flatten :=
  List.filterMap_flatten.symm

theorem rewardTxs_flatMap (segs : List (List EccMsg)) :
    segs.flatMap rewardTxs = rewardTxs segs.flatten :=
  List.filterMap_flatten.symm

/-- A reward, whose event has the name as its cursor. -/
def exampleReward (name : String) (createdAt : UInt64) : SellOrders.LoggedEvent where
  cursor := name
  event := ⟨name, ":miner", createdAt, "body"⟩

def minerMsgs : List LoggedMsg := [exampleEntry "m2" 20 1, exampleEntry "m1" 10 1]

def minerEvents : List SellOrders.LoggedEvent :=
  [exampleReward "r3" 30, exampleReward "r2" 25, exampleReward "r1" 15]

def minerKit : Kit Empty := { exampleKit with reward := fun _ ↦ some 7 }

def minerNetwork : Network Empty :=
  { exampleNetwork with
    tvmClient := keeping minerMsgs minerEvents
    getPopitgame := fun _ ↦ .ok "0:miner" }

def minerParams : ParamsOfGetHistory := ⟨"0:wallet", "1", 1, none, none⟩

theorem walletTx_minerMsg (name : String) (createdAt : UInt64) :
    walletTx minerNetwork "0:wallet" nacklCurrencyId (exampleEntry name createdAt 1).msg =
      .ok ⟨name, .incoming, createdAt, 5, none⟩ := by
  have hvalue : valueOf nacklCurrencyId "message" "msg" (exampleEntry name createdAt 1).msg =
      .ok 5 := rfl
  have htype : txTypeOf "0:wallet" (exampleEntry name createdAt 1).msg = .ok .incoming := by
    simp [txTypeOf, exampleEntry]
  rw [walletTx, hvalue, htype]
  rfl

theorem miner_example : Miner minerKit minerNetwork minerParams "0:miner" minerMsgs minerEvents where
  wallet := {
    token := by decide
    pageSize := by decide
    hot := keepsMessages_keeping (by decide)
    responds := responds_keeping
    hotCursors := by decide
    archiveCursors := by decide
    hotIds := by decide
    archiveIds := by decide
    sound := by
      intro entry hentry _
      simp only [minerMsgs, List.append_nil, List.mem_cons, List.not_mem_nil, or_false] at hentry
      obtain rfl | rfl := hentry
      all_goals exact ⟨_, walletTx_minerMsg _ _⟩ }
  popitgame := rfl
  events := keepsEvents_keeping (by decide)
  responds := respondsEvents_keeping
  eventCursors := by decide
  ids := by decide
  bounded := by
    rintro entry - reward hreward
    obtain rfl := Option.some.inj hreward
    decide

end

end History

end BeeEngine
