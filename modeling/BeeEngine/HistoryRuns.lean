import BeeEngine.HistoryFetch
import BeeEngine.Lib.Paging

/-!
# Reading the whole history

A caller goes on with the cursor of a page for as long as there are more.  It is
shown all that the hot endpoint keeps, whatever becomes of the archive, and then
what the archive keeps.
-/

namespace BeeEngine

namespace History

open Chunks Cursors

variable {F α : Type}

/-! ## Pages of a log -/

section

variable (shown : α → Option EccMsg) (cursor : α → String) (full : List α → Bool) (size : ℕ)
  (log : List α)

/-- What a log shows before a cursor. -/
def shownAt (before : Option String) : List EccMsg :=
  (older cursor before log).filterMap shown

/-- The entries of the last turn from a cursor on. -/
def lastTurn (before : Option String) : List α :=
  (turns full [] (chunks size (older cursor before log))).getLastD []

/-- A page of a log: the last one, or one with a cursor for the rest. -/
inductive PageAt (before : Option String) (page : Fetched) : Prop
  | last (hmore : page.hasMore = false)
      (hmsgs : page.msgs = (shownAt shown cursor log before).reverse)
      (hlast : page.msgs = ((lastTurn cursor full size log before).filterMap shown).reverse)
  | more {c : String} {seg : List EccMsg} (hmore : page.hasMore = true)
      (hnext : page.nextCursor = some c) (hcursor : IsCursor cursor log (some c))
      (hmsgs : page.msgs = seg.reverse)
      (hseg : seg ++ shownAt shown cursor log (some c) = shownAt shown cursor log before)
      (hlast : lastTurn cursor full size log (some c) = lastTurn cursor full size log before)
      (hless : (older cursor (some c) log).length < (older cursor before log).length)

variable {shown cursor full size log} {before : Option String}

theorem shownAt_sublist : (shownAt shown cursor log before).Sublist (log.filterMap shown) :=
  (older_sublist before log).filterMap shown

theorem sublist_of_append_shownAt {seg : List EccMsg} {c : Option String}
    (h : seg ++ shownAt shown cursor log c = shownAt shown cursor log before) :
    seg.Sublist (log.filterMap shown) :=
  (List.sublist_append_left seg _).trans (h ▸ shownAt_sublist)

/-- A turn makes a page. -/
theorem pageAt_fetchedOf (hsize : 0 < size) (hnodup : (log.map cursor).Nodup)
    (hcursor : IsCursor cursor log before) :
    PageAt shown cursor full size log before
      (fetchedOf shown cursor (turn full [] (chunks size (older cursor before log)))) := by
  by_cases hnil : older cursor before log = []
  · refine .last ?_ ?_ ?_
    · rw [hnil]
      rfl
    · rw [shownAt, hnil]
      rfl
    · rw [lastTurn, hnil]
      rfl
  · obtain ⟨last, hlast, hnext, hrest⟩ := exists_turn_older hnodup full [] hcursor hsize hnil
    have hne : [] ++ (chunks size (older cursor before log)).flatten ≠ [] := by
      rwa [List.nil_append, flatten_chunks hsize]
    have hturns := turns_eq full hne
    have hall := congrArg List.flatten hturns
    rw [flatten_turns, List.nil_append, flatten_chunks hsize, List.flatten_cons, flatten_turns,
      List.nil_append, hrest, flatten_chunks hsize] at hall
    rw [hrest] at hturns
    generalize turn full [] (chunks size (older cursor before log)) = t at hlast hrest hturns hall ⊢
    by_cases hleft : older cursor (some (cursor last)) log = []
    · rw [hleft] at hrest hall hturns
      rw [List.append_nil] at hall
      refine .last ?_ ?_ ?_
      · rw [fetchedOf, hrest]
        rfl
      · rw [shownAt, hall]
        rfl
      · rw [lastTurn, hturns]
        rfl
    · have hmore : [] ++ (chunks size (older cursor (some (cursor last)) log)).flatten ≠ [] := by
        rwa [List.nil_append, flatten_chunks hsize]
      refine .more ?_ ?_ hnext rfl ?_ ?_ ?_
      · rw [fetchedOf, hrest, chunks_of_ne_nil hsize hleft]
        rfl
      · rw [fetchedOf, hlast]
        rfl
      · rw [shownAt, shownAt, ← List.filterMap_append, ← hall]
      · rw [lastTurn, lastTurn, hturns, turns_eq full hmore]
        rfl
      · have hpos : t.1 ≠ [] := by
          intro hempty
          rw [hempty] at hlast
          cases hlast
        have := List.length_pos_iff.mpr hpos
        rw [hall, List.length_append]
        omega

end

/-! ## Cursors -/

theorem decodeCursor_hot {before : Option String}
    (h : ∀ c, before = some c → Text.stripPrefix archiveCursorPrefix c = none) :
    decodeCursor before = .hot before := by
  cases before with
  | none => rfl
  | some c => rw [decodeCursor, h c rfl]

theorem decodeCursor_archive {before : Option String} (h : ∀ c, before = some c → c ≠ "") :
    decodeCursor (encodeArchiveCursor before) = .archive before := by
  rw [encodeArchiveCursor, decodeCursor, Text.stripPrefix_append]
  cases before with
  | none => rfl
  | some c =>
      have hne := h c rfl
      simp [hne]

/-! ## Two sources -/

/-- With what a stream goes on after a page. -/
def Fetched.next (page : Fetched) : Option CursorSource :=
  if page.hasMore then some (decodeCursor page.nextCursor) else none

/-- The page has these messages of one of two logs, the oldest one first. -/
structure Fetched.Shows (shown : α → Option EccMsg) (hotLog archiveLog : List α) (page : Fetched)
    (seg : List EccMsg) : Prop where
  msgs : page.msgs = seg.reverse
  ofOne : seg.Sublist (hotLog.filterMap shown) ∨ seg.Sublist (archiveLog.filterMap shown)

/-- A hot log that is answered, and a log of the archive, whose cursors are told apart. -/
structure Sources (fetch : Fetch F) (client : Client F) (shown : α → Option EccMsg)
    (cursor : α → String) (full : ℕ → List α → Bool) (hotLog archiveLog : List α) : Prop where
  hot : Fetches (fetch client) shown cursor full hotLog
  succeeds : Succeeds (fetch client) cursor hotLog
  hotCursors : ∀ entry ∈ hotLog, Text.stripPrefix archiveCursorPrefix (cursor entry) = none
  archiveCursors : ∀ entry ∈ archiveLog, cursor entry ≠ ""

/-- The archive answers, and before its timeouts. -/
structure Reliable (fetch : Fetch F) (arcClient : Client F) (cursor : α → String)
    (archiveLog : List α) (pageSize : UInt32) : Prop where
  succeeds : Succeeds (fetch arcClient) cursor archiveLog
  fetched : ∀ before, IsCursor cursor archiveLog before →
    (fetch arcClient pageSize before).millis ≤ archiveFetchTimeout
  probed : (fetch arcClient archiveProbePageSize none).millis ≤ archiveProbeTimeout

section

variable (shown : α → Option EccMsg) (cursor : α → String) (full : ℕ → List α → Bool)
  (hotLog archiveLog : List α) (size : ℕ) (reliable : Prop)

/-- The probe finds something in the archive. -/
def ProbeFinds : Prop := (turn (full 1) [] (chunks 1 archiveLog)).1.filterMap shown ≠ []

instance : Decidable (ProbeFinds shown full archiveLog) := inferInstanceAs (Decidable (_ ≠ _))

/-- After the hot log, the archive is read. -/
def GoesOn (before : Option String) : Prop :=
  (lastTurn cursor (full size) size hotLog before).filterMap shown = [] ∨
    ProbeFinds shown full archiveLog

instance (before : Option String) : Decidable (GoesOn shown cursor full hotLog archiveLog size before) :=
  inferInstanceAs (Decidable (_ ∨ _))

/-- A cursor of the log that it is for. -/
def Stands : CursorSource → Prop
  | .hot before => IsCursor cursor hotLog before
  | .archive before => IsCursor cursor archiveLog before

/-- What may be shown from a source on: all of the hot log, and a part of the archive. -/
def MayShow : CursorSource → List EccMsg → Prop
  | .hot before, l => ∃ got, l = shownAt shown cursor hotLog before ++ got ∧
      got <+: archiveLog.filterMap shown ∧
        (reliable → got = if GoesOn shown cursor full hotLog archiveLog size before then
          archiveLog.filterMap shown else [])
  | .archive before, l => l <+: shownAt shown cursor archiveLog before ∧
      (reliable → l = shownAt shown cursor archiveLog before)

/-- How many entries are left, or more. -/
def left : CursorSource → ℕ
  | .hot before => (older cursor before hotLog).length + archiveLog.length + 1
  | .archive before => (older cursor before archiveLog).length

end

section

variable {fetch : Fetch F} {client : Client F} {shown : α → Option EccMsg} {cursor : α → String}
  {full : ℕ → List α → Bool} {hotLog archiveLog : List α} {pageSize : UInt32} {reliable : Prop}

theorem Fetches.pageAt {log : List α} (h : Fetches (fetch client) shown cursor full log)
    (hsize : 0 < pageSize.toNat) {before : Option String} (hcursor : IsCursor cursor log before)
    {page : Fetched} (hpage : (fetch client pageSize before).value = .ok page) :
    PageAt shown cursor (full pageSize.toNat) pageSize.toNat log before page := by
  rw [h.turn _ _ _ hsize hcursor hpage]
  exact pageAt_fetchedOf hsize h.nodup hcursor

/-- A call of the archive comes back empty, or with a page. -/
theorem fetchArchive_cases {arcClient : Client F}
    (h : Fetches (fetch arcClient) shown cursor full archiveLog) (hsize : 0 < pageSize.toNat)
    {before : Option String} (hcursor : IsCursor cursor archiveLog before) :
    (¬Reliable fetch arcClient cursor archiveLog pageSize ∧
        fetchArchive fetch arcClient pageSize before = ⟨[], encodeArchiveCursor none, false⟩) ∨
      ∃ page, PageAt shown cursor (full pageSize.toNat) pageSize.toNat archiveLog before page ∧
        fetchArchive fetch arcClient pageSize before =
          ⟨page.msgs, encodeArchiveCursor page.nextCursor, page.hasMore⟩ := by
  rw [fetchArchive, archiveCallOrEmpty]
  by_cases htime : (fetch arcClient pageSize before).millis ≤ archiveFetchTimeout
  · cases hvalue : (fetch arcClient pageSize before).value with
    | error e =>
        refine .inl ⟨fun hreliable ↦ ?_, by rw [if_pos htime]; rfl⟩
        obtain ⟨page, hpage⟩ := hreliable.succeeds _ _ hsize hcursor
        cases hvalue.symm.trans hpage
    | ok page => exact .inr ⟨page, h.pageAt hsize hcursor hvalue, by rw [if_pos htime]⟩
  · exact .inl ⟨fun hreliable ↦ htime (hreliable.fetched _ hcursor), by rw [if_neg htime]; rfl⟩

/-- A page of the archive. -/
theorem continues_archive (h : Sources fetch client shown cursor full hotLog archiveLog)
    {arcClient : Client F} (harchive : Fetches (fetch arcClient) shown cursor full archiveLog)
    (hreliable : reliable → Reliable fetch arcClient cursor archiveLog pageSize)
    (hsize : 0 < pageSize.toNat) {before : Option String}
    (hcursor : IsCursor cursor archiveLog before) :
    Paging.Continues Fetched.next (Fetched.Shows shown hotLog archiveLog)
      (MayShow shown cursor full hotLog archiveLog pageSize.toNat reliable)
      (left cursor hotLog archiveLog) (Stands cursor hotLog archiveLog) (.archive before)
      (fetchArchive fetch arcClient pageSize before) := by
  obtain ⟨hnot, hpage⟩ | ⟨page, hat, hpage⟩ := fetchArchive_cases harchive hsize hcursor
  · rw [hpage]
    refine .last [] rfl ⟨rfl, .inl (List.nil_sublist _)⟩ ⟨List.nil_prefix, fun hyes ↦ ?_⟩
    exact absurd (hreliable hyes) hnot
  · rw [hpage]
    cases hat with
    | last hmore hmsgs hlast =>
        exact .last _ (if_neg (by simp [hmore])) ⟨hmsgs, .inr shownAt_sublist⟩
          ⟨List.prefix_refl _, fun _ ↦ rfl⟩
    | @more c seg hmore hnext hat hmsgs hseg hlast hless =>
        have hne : ∀ c', some c = some c' → c' ≠ "" := by
          intro c' hc'
          obtain ⟨entry, hentry, rfl⟩ := hat c' hc'
          exact h.archiveCursors entry hentry
        refine .more (.archive (some c)) seg ?_ hat ⟨hmsgs, .inr (sublist_of_append_shownAt hseg)⟩
          (fun l hl ↦ ⟨?_, fun hyes ↦ ?_⟩) hless
        · rw [Fetched.next, if_pos hmore, hnext]
          exact congrArg some (decodeCursor_archive hne)
        · rw [← hseg]
          exact List.prefix_append_right_inj seg |>.mpr hl.1
        · rw [← hseg, hl.2 hyes]

/-- The probe, when the archive is reliable. -/
theorem archiveHasData_iff {arcClient : Client F}
    (h : Fetches (fetch arcClient) shown cursor full archiveLog)
    (hreliable : Reliable fetch arcClient cursor archiveLog pageSize) :
    archiveHasData fetch arcClient = true ↔ ProbeFinds shown full archiveLog := by
  have hone : 0 < archiveProbePageSize.toNat := by decide
  obtain ⟨page, hpage⟩ := hreliable.succeeds _ none hone (isCursor_none cursor archiveLog)
  have hturn := h.turn _ _ _ hone (isCursor_none cursor archiveLog) hpage
  rw [archiveHasData, archiveCallOrEmpty, if_pos hreliable.probed, hpage, hturn, ProbeFinds]
  simp [fetchedOf, archiveProbePageSize]

/-- A page of the hot log. -/
theorem continues_hot (h : Sources fetch client shown cursor full hotLog archiveLog)
    {archive : Option (Client F)}
    (harchive : ∀ arcClient ∈ archive, Fetches (fetch arcClient) shown cursor full archiveLog)
    (hreliable : reliable → ∃ arcClient ∈ archive,
      Reliable fetch arcClient cursor archiveLog pageSize)
    (hsize : 0 < pageSize.toNat) {before : Option String}
    (hcursor : IsCursor cursor hotLog before) :
    ∃ page, fetchStream fetch client archive pageSize (.hot before) = .ok page ∧
      Paging.Continues Fetched.next (Fetched.Shows shown hotLog archiveLog)
        (MayShow shown cursor full hotLog archiveLog pageSize.toNat reliable)
        (left cursor hotLog archiveLog) (Stands cursor hotLog archiveLog) (.hot before) page := by
  obtain ⟨page, hpage⟩ := h.succeeds _ _ hsize hcursor
  have hat := h.hot.pageAt hsize hcursor hpage
  rw [fetchStream, hpage, Outcome.ok_bind]
  cases hat with
  | @more c seg hmore hnext hat hmsgs hseg hlast hless =>
      have hnone : ∀ c', some c = some c' → Text.stripPrefix archiveCursorPrefix c' = none := by
        intro c' hc'
        obtain ⟨entry, hentry, rfl⟩ := hat c' hc'
        exact h.hotCursors entry hentry
      have hgoes : GoesOn shown cursor full hotLog archiveLog pageSize.toNat (some c) =
          GoesOn shown cursor full hotLog archiveLog pageSize.toNat before := by
        rw [GoesOn, GoesOn, hlast]
      refine ⟨page, by simp [hmore]; rfl, .more (.hot (some c)) seg ?_ hat
        ⟨hmsgs, .inl (sublist_of_append_shownAt hseg)⟩ ?_ ?_⟩
      · rw [Fetched.next, if_pos hmore, hnext]
        exact congrArg some (decodeCursor_hot hnone)
      · rintro l ⟨got, rfl, hpart, hall⟩
        refine ⟨got, by rw [← List.append_assoc, hseg], hpart, fun hyes ↦ ?_⟩
        have hgot := hall hyes
        simp only [hgoes] at hgot
        exact hgot
      · rw [left, left]
        omega
  | last hmore hmsgs hlast =>
      by_cases hempty : page.msgs = []
      · -- Nothing is left of the hot log, and the same call goes to the archive.
        rw [hempty] at hmsgs hlast
        have hshown := List.reverse_eq_nil_iff.mp hmsgs.symm
        have hgoes : GoesOn shown cursor full hotLog archiveLog pageSize.toNat before :=
          .inl (List.reverse_eq_nil_iff.mp hlast.symm)
        cases archive with
        | none =>
            refine ⟨page, by simp [hmore, hempty]; rfl, .last [] (if_neg (by simp [hmore]))
              ⟨hempty, .inl (List.nil_sublist _)⟩ ?_⟩
            refine ⟨[], by rw [hshown, List.append_nil], List.nil_prefix, fun hyes ↦ ?_⟩
            obtain ⟨arcClient, hmem, -⟩ := hreliable hyes
            cases hmem
        | some arcClient =>
            have hfrom := continues_archive h (harchive arcClient rfl)
              (fun hyes : reliable ↦ by
                obtain ⟨arcClient', hmem, hreliable⟩ := hreliable hyes
                obtain rfl := Option.some.inj hmem
                exact hreliable) hsize (isCursor_none cursor archiveLog)
            refine ⟨_, by simp [hmore, hempty]; rfl, hfrom.mono ?_ ?_⟩
            · rintro l ⟨hpart, hall⟩
              refine ⟨l, by rw [hshown, List.nil_append], hpart, fun hyes ↦ ?_⟩
              rw [if_pos hgoes]
              exact hall hyes
            · rw [left, left, older_none]
              omega
      · cases archive with
        | none =>
            refine ⟨⟨page.msgs, none, false⟩, by simp [hmore, hempty]; rfl,
              .last _ rfl ⟨hmsgs, .inl shownAt_sublist⟩ ?_⟩
            refine ⟨[], (List.append_nil _).symm, List.nil_prefix, fun hyes ↦ ?_⟩
            obtain ⟨arcClient, hmem, -⟩ := hreliable hyes
            cases hmem
        | some arcClient =>
            have hprobe : reliable →
                (archiveHasData fetch arcClient = true ↔ ProbeFinds shown full archiveLog) := by
              intro hyes
              obtain ⟨arcClient', hmem, hreliable⟩ := hreliable hyes
              obtain rfl := Option.some.inj hmem
              exact archiveHasData_iff (harchive _ rfl) hreliable
            by_cases hdata : archiveHasData fetch arcClient = true
            · refine ⟨⟨page.msgs, encodeArchiveCursor none, true⟩, by simp [hmore, hempty, hdata]; rfl,
                .more (.archive none) _ rfl (isCursor_none cursor archiveLog)
                ⟨hmsgs, .inl shownAt_sublist⟩ ?_ ?_⟩
              · rintro l ⟨hpart, hall⟩
                refine ⟨l, rfl, hpart, fun hyes ↦ ?_⟩
                rw [if_pos (.inr ((hprobe hyes).mp hdata))]
                exact hall hyes
              · rw [left, left, older_none]
                omega
            · refine ⟨⟨page.msgs, none, false⟩, by simp [hmore, hempty, hdata]; rfl,
                .last _ rfl ⟨hmsgs, .inl shownAt_sublist⟩ ?_⟩
              refine ⟨[], (List.append_nil _).symm, List.nil_prefix, fun hyes ↦ ?_⟩
              rw [if_neg]
              rintro (hnone | hfinds)
              · rw [hnone] at hlast
                exact hempty hlast
              · exact hdata ((hprobe hyes).mpr hfinds)

/-- A page of a stream, wherever it stands. -/
theorem continues_stream (h : Sources fetch client shown cursor full hotLog archiveLog)
    {archive : Option (Client F)}
    (harchive : ∀ arcClient ∈ archive, Fetches (fetch arcClient) shown cursor full archiveLog)
    (hreliable : reliable → ∃ arcClient ∈ archive,
      Reliable fetch arcClient cursor archiveLog pageSize)
    (hsize : 0 < pageSize.toNat) {source : CursorSource}
    (hsource : Stands cursor hotLog archiveLog source) :
    ∃ page, fetchStream fetch client archive pageSize source = .ok page ∧
      Paging.Continues Fetched.next (Fetched.Shows shown hotLog archiveLog)
        (MayShow shown cursor full hotLog archiveLog pageSize.toNat reliable)
        (left cursor hotLog archiveLog) (Stands cursor hotLog archiveLog) source page := by
  cases source with
  | hot before => exact continues_hot h harchive hreliable hsize hsource
  | archive before =>
      cases archive with
      | none =>
          refine ⟨.empty, rfl, .last [] rfl ⟨rfl, .inl (List.nil_sublist _)⟩
            ⟨List.nil_prefix, fun hyes ↦ ?_⟩⟩
          obtain ⟨arcClient, hmem, -⟩ := hreliable hyes
          cases hmem
      | some arcClient =>
          refine ⟨_, rfl, continues_archive h (harchive arcClient rfl) (fun hyes ↦ ?_) hsize hsource⟩
          obtain ⟨arcClient', hmem, hreliable⟩ := hreliable hyes
          obtain rfl := Option.some.inj hmem
          exact hreliable

end

/-! ## Transactions of a page -/

section

variable (network : Network F) (multifactorAddress : String) (currencyId : UInt32)

/-- The name that is shown for an address. -/
def shownName (addr : String) : Option String :=
  (knownName addr).or
    (if addr = multifactorAddress then none else (network.getMultifactorName addr).toOption)

/-- The transaction of a message, whatever else is on its page. -/
def walletTx (evt : EccMsg) : Except AppError TxData := do
  let value ← valueOf currencyId "message" "msg" evt
  let txType ← txTypeOf multifactorAddress evt
  return {
    id := evt.id
    txType := txType
    createdAt := evt.createdAt
    value := value
    srcName := (counterpartyAddr evt txType).bind (shownName network multifactorAddress) }

variable {network multifactorAddress currencyId}

theorem lookup_decodedMap (addresses : List String) (addr : String) :
    (decodedMap network addresses).lookup addr =
      if addr ∈ addresses then (network.getMultifactorName addr).toOption else none := by
  induction addresses with
  | nil => rfl
  | cons a addresses ih =>
      rw [decodedMap] at ih ⊢
      rw [List.filterMap_cons]
      by_cases heq : addr = a
      · subst heq
        rw [if_pos List.mem_cons_self]
        cases hname : (network.getMultifactorName addr).toOption with
        | none => simp [ih, hname]
        | some name => simp
      · cases (network.getMultifactorName a).toOption with
        | none => simp [ih, heq]
        | some name =>
            have hbeq : (addr == a) = false := beq_eq_false_iff_ne.mpr heq
            simp [List.lookup_cons, ih, heq, hbeq]

theorem mem_counterparties {msgs : List EccMsg} {addr : String} :
    addr ∈ counterparties multifactorAddress msgs ↔
      (∃ evt ∈ msgs, counterparty multifactorAddress evt = some addr) ∧
        addr ≠ multifactorAddress ∧ knownName addr = none := by
  have hmem (l : List String) : addr ∈ fresh id ∅ l ↔ addr ∈ l := by
    have hmap := @mem_map_fresh String String _ id ∅ l addr
    simpa using hmap
  rw [counterparties, hmem]
  simp

theorem counterpartyAddr_eq {evt : EccMsg} {txType : TxType}
    (h : txTypeOf multifactorAddress evt = .ok txType) :
    counterpartyAddr evt txType = counterparty multifactorAddress evt := by
  rw [txTypeOf] at h
  rw [counterparty]
  split at h
  · rename_i hsrc
    obtain rfl := Except.ok.inj h
    rw [if_pos hsrc]
    rfl
  · rename_i hsrc
    split at h
    · rename_i hdst
      obtain rfl := Except.ok.inj h
      rw [if_neg hsrc, if_pos hdst]
      rfl
    · cases h

/-- A message of a page, with the names that the page has. -/
theorem mfTxData_eq {msgs : List EccMsg} {evt : EccMsg} (h : evt ∈ msgs) :
    mfTxData multifactorAddress currencyId
      (decodedMap network (counterparties multifactorAddress msgs)) evt =
        walletTx network multifactorAddress currencyId evt := by
  rw [mfTxData, walletTx]
  cases valueOf currencyId "message" "msg" evt with
  | error e => rfl
  | ok value =>
      cases htype : txTypeOf multifactorAddress evt with
      | error e => rfl
      | ok txType =>
          have hname : ∀ addr, counterpartyAddr evt txType = some addr →
              (knownName addr).or ((decodedMap network (counterparties multifactorAddress msgs)).lookup
                addr) = shownName network multifactorAddress addr := by
            intro addr haddr
            rw [counterpartyAddr_eq htype] at haddr
            rw [shownName, lookup_decodedMap]
            cases hknown : knownName addr with
            | some name => rfl
            | none =>
                by_cases hself : addr = multifactorAddress
                · have hnot : addr ∉ counterparties multifactorAddress msgs :=
                    fun hmem ↦ (mem_counterparties.mp hmem).2.1 hself
                  rw [if_neg hnot, if_pos hself]
                · have hmem := mem_counterparties.mpr ⟨⟨evt, h, haddr⟩, hself, hknown⟩
                  rw [if_pos hmem, if_neg hself]
          simp only [Outcome.ok_bind]
          cases haddr : counterpartyAddr evt txType with
          | none => rfl
          | some addr => rw [Option.bind_some, Option.bind_some, hname addr haddr]

theorem fields_of_walletTx {evt : EccMsg} {tx : TxData}
    (h : walletTx network multifactorAddress currencyId evt = .ok tx) :
    tx.id = evt.id ∧ tx.createdAt = evt.createdAt := by
  obtain ⟨value, -, h⟩ := Outcome.bind_eq_ok_iff.mp h
  obtain ⟨txType, -, h⟩ := Outcome.bind_eq_ok_iff.mp h
  obtain rfl := Except.ok.inj h
  exact ⟨rfl, rfl⟩

/-- The latest ones first. -/
abbrev Newest (data : List TxData) : Prop := data.Pairwise fun a b ↦ b.createdAt ≤ a.createdAt

theorem newest_sortByCreatedAt (data : List TxData) : Newest (sortByCreatedAt data) := by
  refine (List.pairwise_mergeSort ?_ ?_ _).imp of_decide_eq_true
  · intro a b c hab hbc
    exact decide_eq_true (UInt64.le_trans (of_decide_eq_true hbc) (of_decide_eq_true hab))
  · intro a b
    simpa using UInt64.le_total b.createdAt a.createdAt

/-- The transactions of the messages, in their order. -/
abbrev AreTxs (network : Network F) (multifactorAddress : String) (currencyId : UInt32) :
    List EccMsg → List TxData → Prop :=
  List.Forall₂ fun evt tx ↦ walletTx network multifactorAddress currencyId evt = .ok tx

/-- The rewards of the messages of a miner, in their order. -/
abbrev AreRewards (currencyId : UInt32) : List EccMsg → List TxData → Prop :=
  List.Forall₂ fun evt tx ↦ miningTxData currencyId evt = .ok tx

theorem exists_forall₂_ok {β : Type} {f : EccMsg → Except AppError β} {seg : List EccMsg}
    (h : ∀ evt ∈ seg, ∃ b, f evt = .ok b) : ∃ bs, List.Forall₂ (fun evt b ↦ f evt = .ok b) seg bs := by
  induction seg with
  | nil => exact ⟨[], .nil⟩
  | cons evt seg ih =>
      obtain ⟨b, hb⟩ := h evt List.mem_cons_self
      obtain ⟨bs, hbs⟩ := ih fun evt hevt ↦ h evt (List.mem_cons_of_mem _ hevt)
      exact ⟨b :: bs, .cons hb hbs⟩

/-- Two pages of messages with ids of their own. -/
theorem exists_txsOf {seg rewards : List EccMsg}
    (hnodup : ((seg ++ rewards).map EccMsg.id).Nodup)
    (hsound : ∀ evt ∈ seg, ∃ tx, walletTx network multifactorAddress currencyId evt = .ok tx)
    (hrewards : ∀ evt ∈ rewards, ∃ tx, miningTxData currencyId evt = .ok tx) :
    ∃ txs mining data, AreTxs network multifactorAddress currencyId seg txs ∧
      AreRewards currencyId rewards mining ∧
        txsOf network multifactorAddress currencyId seg.reverse rewards.reverse = .ok data ∧
          Newest data ∧ data.Perm (txs ++ mining) := by
  obtain ⟨txs, htxs⟩ := exists_forall₂_ok hsound
  obtain ⟨mining, hmining⟩ := exists_forall₂_ok hrewards
  refine ⟨txs, mining, sortByCreatedAt (txs.reverse ++ mining.reverse), htxs, hmining, ?_,
    newest_sortByCreatedAt _, ?_⟩
  · rw [List.map_append] at hnodup
    obtain ⟨hseg, hpg, hapart⟩ := List.nodup_append.mp hnodup
    have hfresh : fresh EccMsg.id ∅ seg.reverse = seg.reverse := by
      refine fresh_eq_self ?_ fun evt _ ↦ Finset.notMem_empty _
      rwa [List.map_reverse, List.nodup_reverse]
    have hfreshRewards : fresh EccMsg.id (seg.reverse.map EccMsg.id).toFinset rewards.reverse =
        rewards.reverse := by
      refine fresh_eq_self ?_ fun evt hevt hmem ↦ ?_
      · rwa [List.map_reverse, List.nodup_reverse]
      · rw [List.mem_toFinset, List.map_reverse, List.mem_reverse] at hmem
        exact hapart _ hmem _ (List.mem_map_of_mem (List.mem_reverse.mp hevt)) rfl
    have hmap : seg.reverse.mapM (mfTxData multifactorAddress currencyId
        (decodedMap network (counterparties multifactorAddress seg.reverse))) =
          .ok txs.reverse := by
      rw [Outcome.mapM_congr fun evt hevt ↦ mfTxData_eq hevt, Outcome.mapM_eq_ok_iff]
      exact List.forall₂_reverse_iff.mpr htxs
    have hmapRewards : rewards.reverse.mapM (miningTxData currencyId) = .ok mining.reverse :=
      Outcome.mapM_eq_ok_iff.mpr (List.forall₂_reverse_iff.mpr hmining)
    rw [txsOf, hfresh]
    simp only [hfreshRewards, hmap, hmapRewards, Outcome.ok_bind]
    rfl
  · exact (List.mergeSort_perm _ _).trans ((List.reverse_perm _).append (List.reverse_perm _))

/-- The pages show the messages. -/
structure ListsAll (network : Network F) (multifactorAddress : String) (currencyId : UInt32)
    (pages : List ResultOfGetHistory) (msgs : List EccMsg) : Prop where
  /-- Each message is a transaction of one page. -/
  once : ∃ txs, AreTxs network multifactorAddress currencyId msgs txs ∧
    (pages.flatMap ResultOfGetHistory.data).Perm txs
  sorted : ∀ page ∈ pages, Newest page.data
  /-- If the messages come in the order of time, so do the transactions of all pages. -/
  newest : (msgs.Pairwise fun a b ↦ b.createdAt ≤ a.createdAt) →
    Newest (pages.flatMap ResultOfGetHistory.data)

/-- The page shows the messages. -/
structure ResultOfGetHistory.Shows (network : Network F) (multifactorAddress : String)
    (currencyId : UInt32) (page : ResultOfGetHistory) (seg : List EccMsg) : Prop where
  once : ∃ txs, AreTxs network multifactorAddress currencyId seg txs ∧ page.data.Perm txs
  newest : Newest page.data

/-- What is shown stands for a message. -/
theorem exists_msg_of_areTxs {msgs : List EccMsg} {txs : List TxData}
    (h : AreTxs network multifactorAddress currencyId msgs txs) {tx : TxData} (htx : tx ∈ txs) :
    ∃ evt ∈ msgs, tx.createdAt = evt.createdAt := by
  induction h with
  | nil => cases htx
  | @cons evt tx' msgs txs hevt _ ih =>
      obtain rfl | hmem := List.mem_cons.mp htx
      · exact ⟨evt, List.mem_cons_self, (fields_of_walletTx hevt).2⟩
      · obtain ⟨evt', hevt', hsame⟩ := ih hmem
        exact ⟨evt', List.mem_cons_of_mem _ hevt', hsame⟩

theorem listsAll_of_forall₂ {pages : List ResultOfGetHistory} {segs : List (List EccMsg)}
    (h : List.Forall₂ (ResultOfGetHistory.Shows network multifactorAddress currencyId) pages segs) :
    ListsAll network multifactorAddress currencyId pages segs.flatten := by
  induction h with
  | nil => exact ⟨⟨[], .nil, .refl _⟩, by simp, fun _ ↦ .nil⟩
  | @cons page seg pages segs hpage _ ih =>
      obtain ⟨txs, htxs, hperm⟩ := hpage.once
      obtain ⟨rest, hrest, hpermRest⟩ := ih.once
      refine ⟨⟨txs ++ rest, List.rel_append htxs hrest, hperm.append hpermRest⟩, ?_, ?_⟩
      · exact List.forall_mem_cons.mpr ⟨hpage.newest, ih.sorted⟩
      · intro hmsgs
        obtain ⟨-, hlater, hbefore⟩ := List.pairwise_append.mp hmsgs
        refine List.pairwise_append.mpr ⟨hpage.newest, ih.newest hlater, fun a ha b hb ↦ ?_⟩
        obtain ⟨evt, hevt, ha⟩ := exists_msg_of_areTxs htxs (hperm.mem_iff.mp ha)
        obtain ⟨evt', hevt', hb⟩ := exists_msg_of_areTxs hrest (hpermRest.mem_iff.mp hb)
        rw [ha, hb]
        exact hbefore evt hevt evt' hevt'

end

/-! ## Calls -/

/-- With what a caller goes on after a page. -/
def ResultOfGetHistory.next (page : ResultOfGetHistory) : Option (Option String × Option String) :=
  if page.hasNextPage then some (page.nextCursor, page.nextMiningCursor) else none

/-- The calls of a caller, at each of which there may be another archive. -/
def calls (kit : Kit F) (network : Network F) (archives : ℕ → Option (Client F))
    (params : ParamsOfGetHistory) (n : ℕ) (cursors : Option String × Option String) :
    Option ResultOfGetHistory :=
  (getEccTxs kit { network with archiveTvmClient := archives n }
    { params with cursor := cursors.1, miningCursor := cursors.2 }).toOption

section

variable {kit : Kit F} {network : Network F} {params : ParamsOfGetHistory} {currencyId : UInt32}
  {hotLog archiveLog : List LoggedMsg}

/-- A wallet whose history is read: what its two endpoints keep, and how it is asked. -/
structure Wallet (kit : Kit F) (network : Network F) (params : ParamsOfGetHistory)
    (currencyId : UInt32) (hotLog archiveLog : List LoggedMsg) : Prop where
  token : Text.parseUnsigned (2 ^ 32) params.tokenId = some currencyId.toNat
  pageSize : 0 < params.pageSize.toNat
  hot : KeepsMessages kit network.tvmClient params.multifactorAddress hotLog
  responds : Responds (askMessages kit network.tvmClient params.multifactorAddress)
    LoggedMsg.cursor hotLog
  hotCursors : ∀ entry ∈ hotLog, Text.stripPrefix archiveCursorPrefix entry.cursor = none
  archiveCursors : ∀ entry ∈ archiveLog, entry.cursor ≠ ""
  hotIds : (hotLog.map fun entry ↦ entry.msg.id).Nodup
  archiveIds : (archiveLog.map fun entry ↦ entry.msg.id).Nodup
  sound : ∀ entry ∈ hotLog ++ archiveLog, carries currencyId entry.msg = true →
    ∃ tx, walletTx network params.multifactorAddress currencyId entry.msg = .ok tx

/-- The messages of a log that carry the currency. -/
def shownMsgs (currencyId : UInt32) (log : List LoggedMsg) : List EccMsg :=
  (log.map LoggedMsg.msg).filter (carries currencyId)

theorem Wallet.sources (h : Wallet kit network params currencyId hotLog archiveLog) :
    Sources (fetchEccWithAutoPagination kit params.multifactorAddress currencyId) network.tvmClient
      (shownMsg currencyId) LoggedMsg.cursor (fullOfMsgs currencyId) hotLog archiveLog where
  hot := fetches_ecc h.hot
  succeeds := succeeds_ecc h.hot h.responds
  hotCursors := h.hotCursors
  archiveCursors := h.archiveCursors

theorem Wallet.token_eq (h : Wallet kit network params currencyId hotLog archiveLog) :
    parseTokenId params.tokenId = .ecc currencyId := by
  rw [parseTokenId, h.token]
  exact congrArg TokenKind.ecc UInt32.ofNat_toNat

/-- The messages of a page, which are of one of the logs. -/
theorem Wallet.page_ok (h : Wallet kit network params currencyId hotLog archiveLog)
    {seg : List EccMsg}
    (hseg : seg.Sublist (shownMsgs currencyId hotLog) ∨
      seg.Sublist (shownMsgs currencyId archiveLog)) :
    (seg.map EccMsg.id).Nodup ∧
      ∀ evt ∈ seg, ∃ tx, walletTx network params.multifactorAddress currencyId evt = .ok tx := by
  have hone : ∃ log, (log.map fun entry : LoggedMsg ↦ entry.msg.id).Nodup ∧
      (∀ entry ∈ log, entry ∈ hotLog ++ archiveLog) ∧ seg.Sublist (shownMsgs currencyId log) := by
    obtain hseg | hseg := hseg
    · exact ⟨hotLog, h.hotIds, fun entry ↦ List.mem_append_left _, hseg⟩
    · exact ⟨archiveLog, h.archiveIds, fun entry ↦ List.mem_append_right _, hseg⟩
  obtain ⟨log, hids, hlog, hsub⟩ := hone
  constructor
  · refine List.Nodup.sublist ((hsub.trans List.filter_sublist).map EccMsg.id) ?_
    rwa [List.map_map]
  · intro evt hevt
    obtain ⟨hmem, hcarries⟩ := List.mem_filter.mp (hsub.subset hevt)
    obtain ⟨entry, hentry, rfl⟩ := List.mem_map.mp hmem
    exact h.sound entry (hlog entry hentry) hcarries

/-- A call of a wallet without a miner. -/
theorem Wallet.exists_call (h : Wallet kit network params currencyId hotLog archiveLog)
    (hmining : popitgameOf network params.multifactorAddress currencyId = none)
    (archives : ℕ → Option (Client F)) (n : ℕ) {cursors : Option String × Option String}
    {page : Fetched}
    (hpage : fetchStream (fetchEccWithAutoPagination kit params.multifactorAddress currencyId)
      network.tvmClient (archives n) params.pageSize (decodeCursor cursors.1) = .ok page)
    {seg : List EccMsg}
    (hshows : page.Shows (shownMsg currencyId) hotLog archiveLog seg) :
    ∃ data, calls kit network archives params n cursors =
        some ⟨data, page.nextCursor, none, page.hasMore⟩ ∧
      ResultOfGetHistory.Shows network params.multifactorAddress currencyId
        ⟨data, page.nextCursor, none, page.hasMore⟩ seg := by
  have hseg := hshows.ofOne
  rw [filterMap_shownMsg, filterMap_shownMsg] at hseg
  obtain ⟨hnodup, hsound⟩ := h.page_ok hseg
  rw [← List.append_nil seg] at hnodup
  obtain ⟨txs, mining, data, htxs, hrewards, hdata, hnewest, hperm⟩ :=
    exists_txsOf hnodup hsound (fun evt hevt ↦ absurd hevt List.not_mem_nil)
  obtain rfl := List.forall₂_nil_left_iff.mp hrewards
  rw [List.append_nil] at hperm
  refine ⟨data, ?_, ⟨txs, htxs, hperm⟩, hnewest⟩
  rw [← hshows.msgs] at hdata
  have hmf : fetchMf kit { network with archiveTvmClient := archives n }
      { params with cursor := cursors.1, miningCursor := cursors.2 } currencyId = .ok page := hpage
  have hpg : fetchPg kit { network with archiveTvmClient := archives n }
      { params with cursor := cursors.1, miningCursor := cursors.2 } currencyId = .ok .empty :=
    fetchPg_eq_empty hmining
  have hcall : getEccTxs kit { network with archiveTvmClient := archives n }
      { params with cursor := cursors.1, miningCursor := cursors.2 } =
        .ok ⟨data, page.nextCursor, none, page.hasMore || false⟩ := by
    apply getEccTxs_eq_ok _ hmf hpg hdata
    exact h.token_eq
  rw [calls, hcall, Bool.or_false]
  rfl

/-- A call goes on as its page does. -/
theorem Wallet.continues_call (h : Wallet kit network params currencyId hotLog archiveLog)
    (hmining : popitgameOf network params.multifactorAddress currencyId = none)
    {archives : ℕ → Option (Client F)}
    (harchive : ∀ n, ∀ arcClient ∈ archives n,
      KeepsMessages kit arcClient params.multifactorAddress archiveLog)
    {reliable : Prop}
    (hreliable : reliable → ∀ n, ∃ arcClient ∈ archives n,
      Reliable (fetchEccWithAutoPagination kit params.multifactorAddress currencyId) arcClient
        LoggedMsg.cursor archiveLog params.pageSize)
    (n : ℕ) {cursors : Option String × Option String}
    (hcursors : Stands LoggedMsg.cursor hotLog archiveLog (decodeCursor cursors.1)) :
    ∃ page, calls kit network archives params n cursors = some page ∧
      Paging.Continues ResultOfGetHistory.next
        (ResultOfGetHistory.Shows network params.multifactorAddress currencyId)
        (fun cursors ↦ MayShow (shownMsg currencyId) LoggedMsg.cursor (fullOfMsgs currencyId)
          hotLog archiveLog params.pageSize.toNat reliable (decodeCursor cursors.1))
        (fun cursors ↦ left LoggedMsg.cursor hotLog archiveLog (decodeCursor cursors.1))
        (fun cursors ↦ Stands LoggedMsg.cursor hotLog archiveLog (decodeCursor cursors.1))
        cursors page := by
  obtain ⟨page, hpage, hcontinues⟩ := continues_stream h.sources
    (fun arcClient harc ↦ fetches_ecc (harchive n arcClient harc)) (fun hyes ↦ hreliable hyes n)
    h.pageSize hcursors
  cases hcontinues with
  | last seg hnext hshows hrest =>
      obtain ⟨data, hcall, hdata⟩ := h.exists_call hmining archives n hpage hshows
      refine ⟨_, hcall, .last seg ?_ hdata hrest⟩
      rw [Fetched.next] at hnext
      rw [ResultOfGetHistory.next]
      split at hnext
      · cases hnext
      · rename_i hmore
        exact if_neg hmore
  | more source seg hnext hgood hshows hrest hless =>
      obtain ⟨data, hcall, hdata⟩ := h.exists_call hmining archives n hpage hshows
      rw [Fetched.next] at hnext
      split at hnext
      · rename_i hmore
        obtain rfl := Option.some.inj hnext
        refine ⟨_, hcall, .more (page.nextCursor, none) seg (if_pos hmore) hgood hdata hrest hless⟩
      · cases hnext

/-- The probe reads the ten latest messages of the archive. -/
theorem filterMap_turn_eq_nil_iff {α : Type} {shown : α → Option EccMsg} {limit : ℕ}
    (hlimit : 0 < limit) (l : List α) :
    (turn (isFull shown limit) [] (chunks 1 l)).1.filterMap shown = [] ↔
      (l.take limit).filterMap shown = [] := by
  induction l generalizing limit with
  | nil => simp [turn]
  | cons a l ih =>
      cases hshown : shown a with
      | some msg =>
          have hstop : isFull shown limit [a] = true := by simp [isFull, hshown]
          rw [turn_chunks_of_stop Nat.one_pos (.inl hstop)]
          obtain ⟨limit, rfl⟩ := Nat.exists_eq_succ_of_ne_zero hlimit.ne'
          simp [hshown]
      | none =>
          obtain ⟨limit, rfl⟩ := Nat.exists_eq_succ_of_ne_zero hlimit.ne'
          rw [List.take_succ_cons, List.filterMap_cons_none hshown]
          by_cases hone : limit = 0 ∨ l = []
          · have hstop : isFull shown limit.succ [a] = true ∨ (a :: l).length ≤ 1 := by
              refine hone.imp (fun hzero ↦ ?_) (fun hnil ↦ ?_)
              · simp [isFull, hzero]
              · simp [hnil]
            rw [turn_chunks_of_stop Nat.one_pos hstop]
            obtain rfl | rfl := hone <;> simp [hshown]
          · obtain ⟨hpos, hne⟩ := not_or.mp hone
            have hnone : ((a :: l).take 1).any (shown · |>.isSome) = false := by simp [hshown]
            have hlength : 1 < (a :: l).length := Nat.succ_lt_succ (List.length_pos_iff.mpr hne)
            rw [Nat.succ_eq_add_one,
              turn_of_more Nat.one_pos (Nat.pos_of_ne_zero hpos) hnone hlength, ← ih (Nat.pos_of_ne_zero hpos)]
            simp [hshown]

theorem probeFinds_iff {log : List LoggedMsg} :
    ProbeFinds (shownMsg currencyId) (fullOfMsgs currencyId) log ↔
      shownMsgs currencyId (log.take maxAutoFetchPages) ≠ [] := by
  rw [ProbeFinds, fullOfMsgs, Nat.mul_one, ne_eq, filterMap_turn_eq_nil_iff (by decide),
    filterMap_shownMsg]
  rfl

/-- The messages of the last page of the hot endpoint. -/
def lastHotPage (currencyId : UInt32) (size : ℕ) (hotLog : List LoggedMsg) : List EccMsg :=
  shownMsgs currencyId (lastTurn LoggedMsg.cursor (fullOfMsgs currencyId size) size hotLog none)

end

section

def exampleKit : Kit Empty where
  dappId := "dapp"
  asU32 := Empty.elim
  jsonError _ := "missing field"
  reward _ := none

/-- An incoming amount. -/
def exampleEntry (name : String) (createdAt : UInt64) (currency : UInt32) : LoggedMsg where
  cursor := name
  msg := ⟨name, "0:giver", "0:wallet", createdAt, [⟨currency, "5"⟩]⟩

def exampleHot : List LoggedMsg :=
  [exampleEntry "m5" 50 2, exampleEntry "m4" 40 1, exampleEntry "m3" 30 2]

def exampleArchive : List LoggedMsg := [exampleEntry "m2" 20 2, exampleEntry "m1" 10 2]

def exampleNetwork : Network Empty where
  tvmClient := keeping exampleHot []
  archiveTvmClient := none
  getPopitgame _ := .error (.new "no miner")
  getMultifactorName _ := .error (.new "not a multifactor")

def exampleParams : ParamsOfGetHistory := ⟨"0:wallet", "2", 1, none, none⟩

theorem walletTx_exampleEntry (name : String) (createdAt : UInt64) :
    walletTx exampleNetwork "0:wallet" 2 (exampleEntry name createdAt 2).msg =
      .ok ⟨name, .incoming, createdAt, 5, none⟩ := by
  have hvalue : valueOf 2 "message" "msg" (exampleEntry name createdAt 2).msg = .ok 5 := rfl
  have htype : txTypeOf "0:wallet" (exampleEntry name createdAt 2).msg = .ok .incoming := by
    simp [txTypeOf, exampleEntry]
  rw [walletTx, hvalue, htype]
  rfl

theorem wallet_example : Wallet exampleKit exampleNetwork exampleParams 2 exampleHot exampleArchive where
  token := by decide
  pageSize := by decide
  hot := keepsMessages_keeping (by decide)
  responds := responds_keeping
  hotCursors := by decide
  archiveCursors := by decide
  hotIds := by decide
  archiveIds := by decide
  sound := by
    intro entry hentry hcarries
    simp only [exampleHot, exampleArchive, List.cons_append, List.nil_append, List.mem_cons,
      List.not_mem_nil, or_false] at hentry
    obtain rfl | rfl | rfl | rfl | rfl := hentry
    · exact ⟨_, walletTx_exampleEntry _ _⟩
    · cases hcarries
    all_goals exact ⟨_, walletTx_exampleEntry _ _⟩

end

end History

end BeeEngine
