import BeeEngine.ActiveSessions
import BeeEngine.Lib.Cursors

/-!
# The pages of active sessions

A call reads chunks of the history until ten sessions are found, and its cursor
stands after the last chunk.  What is left of that chunk is never listed.
-/

namespace BeeEngine

namespace ActiveSessions

open Chunks Cursors

/-! ## The history -/

/-- An event with its cursor. -/
structure Entry where
  cursor : String
  record : ProfileDeployed
  deriving DecidableEq, Repr

/-- The kit lists the events of the history, as many as are asked for. -/
structure Lists (root : AuthServiceRoot) (params : Params) (history : List Entry) : Prop where
  nodup : (history.map Entry.cursor).Nodup
  answers : ∀ before, IsCursor Entry.cursor history before →
    root.queryProfilesByMultifactor
        { multifactor := params.multifactorAddress
          createdAtFrom := params.createdAtFrom
          limit := some activeSessionsChunkSize
          before := before } =
      .ok
        { records :=
            ((older Entry.cursor before history).take activeSessionsChunkSize).map Entry.record
          oldestCursor :=
            ((older Entry.cursor before history).take activeSessionsChunkSize).getLast?.map
              Entry.cursor }

/-- The chunks that are left at a cursor. -/
def chunksAt (history : List Entry) (before : Option String) : List (List Entry) :=
  chunks activeSessionsChunkSize (older Entry.cursor before history)

/-! ## What a scan finds -/

section

variable (isDeployed : String → Bool) (appIdFilter : Option String)

/-- A deployed connect profile that passes the filter. -/
def isActive (record : ProfileDeployed) : Bool :=
  isConnectDescription record.description && isDeployed record.profile &&
    matchesFilter appIdFilter record

/-- A session is known by its profile and its session id. -/
def sessionKey (record : ProfileDeployed) : String := activeSessionUniquenessKey (sessionOf record)

/-- The active records among the entries, one for each session. -/
def shown (entries : List Entry) : List ProfileDeployed :=
  fresh sessionKey ∅ ((entries.map Entry.record).filter (isActive isDeployed appIdFilter))

/-- The entries fill a page. -/
def isFull (entries : List Entry) : Bool :=
  activeSessionsChunkSize ≤ (shown isDeployed appIdFilter entries).length

/-- The entries that each call reads. -/
def readings (history : List Entry) : List (List Entry) :=
  turns (isFull isDeployed appIdFilter) [] (chunks activeSessionsChunkSize history)

/-- A scan has gone through these records, and has not been full. -/
structure Scanned (records : List ProfileDeployed) (scan : Scan) : Prop where
  sessions : scan.sessions =
    (fresh sessionKey ∅ (records.filter (isActive isDeployed appIdFilter))).map sessionOf
  seen : scan.seenSessionKeys =
    ((records.filter (isActive isDeployed appIdFilter)).map sessionKey).toFinset
  cache : ∀ profile cached, scan.deployedCache.lookup profile = some cached →
    cached = isDeployed profile
  deployed : scan.sessions ≠ [] → scan.hasDeployedConnectProfile = true

variable {isDeployed appIdFilter}

theorem Scanned.start :
    Scanned isDeployed appIdFilter [] ⟨[], ∅, [], false⟩ where
  sessions := rfl
  seen := rfl
  cache := by rintro profile cached ⟨⟩
  deployed h := absurd rfl h

/-- A record that is not active is passed over. -/
theorem Scanned.skip {records : List ProfileDeployed} {scan : Scan} {record : ProfileDeployed}
    (h : Scanned isDeployed appIdFilter records scan)
    (hactive : isActive isDeployed appIdFilter record = false) :
    Scanned isDeployed appIdFilter (records ++ [record]) scan where
  sessions := by rw [h.sessions, List.filter_append]; simp [hactive]
  seen := by rw [h.seen, List.filter_append]; simp [hactive]
  cache := h.cache
  deployed := h.deployed

theorem Scanned.push {records : List ProfileDeployed} {scan : Scan} {record : ProfileDeployed}
    (h : Scanned isDeployed appIdFilter records scan)
    (hactive : isActive isDeployed appIdFilter record = true)
    (hdeployed : scan.hasDeployedConnectProfile = true) :
    Scanned isDeployed appIdFilter (records ++ [record])
      (pushUniqueActiveSession (sessionOf record) scan) := by
  have hfilter : (records ++ [record]).filter (isActive isDeployed appIdFilter) =
      records.filter (isActive isDeployed appIdFilter) ++ [record] := by
    rw [List.filter_append]
    simp [hactive]
  rw [pushUniqueActiveSession]
  split
  · rename_i hseen
    rw [h.seen] at hseen
    change sessionKey record ∈ _ at hseen
    refine ⟨?_, ?_, h.cache, h.deployed⟩
    · rw [hfilter, fresh_append, fresh, if_pos (Finset.mem_union_right _ hseen), fresh,
        List.append_nil, h.sessions]
    · rw [hfilter, List.map_append, List.toFinset_append, h.seen]
      exact (Finset.union_eq_left.mpr (by simpa using hseen)).symm
  · rename_i hseen
    rw [h.seen] at hseen
    change sessionKey record ∉ _ at hseen
    refine ⟨?_, ?_, h.cache, fun _ ↦ hdeployed⟩
    · rw [hfilter, fresh_append, fresh, if_neg (by simpa using hseen), fresh, List.map_append,
        h.sessions]
      rfl
    · rw [hfilter, List.map_append, List.toFinset_append, h.seen, Finset.union_comm]
      rfl

theorem length_pushUniqueActiveSession_le (session : ActiveConnectSession) (scan : Scan) :
    (pushUniqueActiveSession session scan).sessions.length ≤ scan.sessions.length + 1 := by
  rw [pushUniqueActiveSession]
  split
  · exact Nat.le_succ _
  · rw [List.length_append, List.length_singleton]

/-- The cache answers as the profile does. -/
theorem isDeployedCached_eq {records : List ProfileDeployed} {scan : Scan}
    (h : Scanned isDeployed appIdFilter records scan) (profile : String) :
    (isDeployedCached isDeployed profile scan).1 = isDeployed profile ∧
      (isDeployedCached isDeployed profile scan).2.sessions = scan.sessions ∧
        Scanned isDeployed appIdFilter records (isDeployedCached isDeployed profile scan).2 := by
  rw [isDeployedCached]
  cases hlookup : scan.deployedCache.lookup profile with
  | some cached => exact ⟨h.cache profile cached hlookup, rfl, h⟩
  | none =>
      refine ⟨rfl, rfl, h.sessions, h.seen, fun other cached hother ↦ ?_, h.deployed⟩
      rw [List.lookup_cons] at hother
      split at hother
      · rename_i heq
        rw [beq_iff_eq] at heq
        rw [heq]
        exact (Option.some.inj hother).symm
      · exact h.cache other cached hother

/-- What one record does to the scan. -/
theorem Scanned.record {records : List ProfileDeployed} {scan : Scan}
    (h : Scanned isDeployed appIdFilter records scan) (record : ProfileDeployed) :
    ∃ scan' pushed, scanRecord isDeployed appIdFilter record scan = (scan', pushed) ∧
      Scanned isDeployed appIdFilter (records ++ [record]) scan' ∧
        scan'.sessions.length ≤ scan.sessions.length + 1 ∧
          (pushed = false → scan'.sessions = scan.sessions) := by
  rw [scanRecord]
  by_cases hconnect : isConnectDescription record.description = true
  · obtain ⟨hcached, hsessions, hscan⟩ := isDeployedCached_eq h record.profile
    rw [if_neg (not_not.mpr hconnect)]
    generalize isDeployedCached isDeployed record.profile scan = asked at hcached hsessions hscan
    obtain ⟨deployed, scan'⟩ := asked
    dsimp only at hcached hsessions hscan ⊢
    obtain rfl := hcached
    by_cases hdeployed : isDeployed record.profile = true
    · rw [if_neg (not_not.mpr hdeployed)]
      have hmarked : Scanned isDeployed appIdFilter records
          { scan' with hasDeployedConnectProfile := true } :=
        ⟨hscan.sessions, hscan.seen, hscan.cache, fun _ ↦ rfl⟩
      by_cases hfilter : matchesFilter appIdFilter record = true
      · have hactive : isActive isDeployed appIdFilter record = true := by
          simp [isActive, hconnect, hdeployed, hfilter]
        rw [if_neg (not_not.mpr hfilter)]
        refine ⟨_, _, rfl, hmarked.push hactive rfl, ?_, fun hpushed ↦ absurd hpushed (by decide)⟩
        rw [← hsessions]
        exact length_pushUniqueActiveSession_le _ _
      · have hactive : isActive isDeployed appIdFilter record = false := by
          simp [isActive, hfilter]
        rw [if_pos hfilter]
        exact ⟨_, _, rfl, hmarked.skip hactive, (congrArg List.length hsessions).trans_le
          (Nat.le_succ _), fun _ ↦ hsessions⟩
    · have hactive : isActive isDeployed appIdFilter record = false := by
        simp [isActive, hdeployed]
      rw [if_pos hdeployed]
      exact ⟨_, _, rfl, hscan.skip hactive, (congrArg List.length hsessions).trans_le
        (Nat.le_succ _), fun _ ↦ hsessions⟩
  · have hactive : isActive isDeployed appIdFilter record = false := by
      simp [isActive, hconnect]
    rw [if_pos hconnect]
    exact ⟨_, _, rfl, h.skip hactive, Nat.le_succ _, fun _ ↦ rfl⟩

/-- A chunk is scanned to its end, or up to the tenth session. -/
theorem scanRecords_spec {read : List ProfileDeployed} {scan : Scan}
    (h : Scanned isDeployed appIdFilter read scan)
    (hlength : scan.sessions.length < activeSessionsChunkSize) (records : List ProfileDeployed) :
    ∃ scan', scanRecords isDeployed appIdFilter records scan = scan' ∧
      scan'.sessions = ((fresh sessionKey ∅
        ((read ++ records).filter (isActive isDeployed appIdFilter))).take
          activeSessionsChunkSize).map sessionOf ∧
      (scan'.sessions ≠ [] → scan'.hasDeployedConnectProfile = true) ∧
        (scan'.sessions.length < activeSessionsChunkSize →
          Scanned isDeployed appIdFilter (read ++ records) scan') := by
  induction records generalizing read scan with
  | nil =>
      refine ⟨scan, rfl, ?_, h.deployed, fun _ ↦ by rwa [List.append_nil]⟩
      rw [h.sessions, List.length_map] at hlength
      rw [List.append_nil, List.take_of_length_le hlength.le, h.sessions]
  | cons record records ih =>
      obtain ⟨scan', pushed, hrecord, hscan', hle, hsame⟩ := h.record record
      rw [scanRecords, hrecord]
      dsimp only
      have hread : read ++ record :: records = (read ++ [record]) ++ records := by simp
      split
      · rename_i hfull
        refine ⟨scan', rfl, ?_, hscan'.deployed, fun hless ↦ absurd hfull.2 (by omega)⟩
        have hten : (fresh sessionKey ∅ ((read ++ [record]).filter
            (isActive isDeployed appIdFilter))).length = activeSessionsChunkSize := by
          have hsessions := congrArg List.length hscan'.sessions
          rw [List.length_map] at hsessions
          omega
        rw [hread, List.filter_append, fresh_append, ← hten, List.take_left, hscan'.sessions]
      · rename_i hfull
        rw [hread]
        apply ih hscan'
        cases hpushed : pushed with
        | true =>
            rw [not_and] at hfull
            exact Nat.lt_of_not_le (hfull hpushed)
        | false => rwa [hsame hpushed]

/-! ## A call -/

variable {root : AuthServiceRoot} {params : Params} {history : List Entry}

/-- The loop has read these entries of the history, and has not been full. -/
structure Reading (root : AuthServiceRoot) (appIdFilter : Option String) (history : List Entry)
    (got : List Entry) (l : Loop) : Prop where
  scanned : Scanned root.isDeployed appIdFilter (got.map Entry.record) l.scan
  length : l.scan.sessions.length < activeSessionsChunkSize
  cursor : IsCursor Entry.cursor history l.before
  stalled : l.cursorStalled = false

/-- How the loop has ended. -/
structure Ended (root : AuthServiceRoot) (appIdFilter : Option String) (history : List Entry)
    (got : List Entry) (rest : List (List Entry)) (l : Loop) : Prop where
  sessions : l.scan.sessions =
    ((shown root.isDeployed appIdFilter got).take activeSessionsChunkSize).map sessionOf
  deployed : l.scan.sessions ≠ [] → l.scan.hasDeployedConnectProfile = true
  stalled : l.cursorStalled = false
  /-- The loop ends early only with a full page. -/
  full : rest ≠ [] → l.scan.sessions ≠ []

/-- The cursor of an ended loop, which is that of the last entry that was read. -/
def Stands (history : List Entry) (rest : List (List Entry)) (l : Loop) : Prop :=
  ∃ last : Entry, l.nextBefore = some last.cursor ∧
    IsCursor Entry.cursor history (some last.cursor) ∧
    chunksAt history (some last.cursor) = rest

/-- What a round gives that has read a chunk and leaves the chunks of `rest`. -/
structure Round (root : AuthServiceRoot) (appIdFilter : Option String) (history : List Entry)
    (got chunk : List Entry) (rest : List (List Entry)) (l : Loop) : Prop where
  before : l.before = l.nextBefore
  stands : Stands history rest l
  ended : ∀ left, (left ≠ [] → l.scan.sessions ≠ []) →
    Ended root appIdFilter history (got ++ chunk) left l
  full : isFull root.isDeployed appIdFilter (got ++ chunk) = true →
    l.scan.sessions.length = activeSessionsChunkSize
  reading : isFull root.isDeployed appIdFilter (got ++ chunk) = false →
    Reading root appIdFilter history (got ++ chunk) l
  /-- A short chunk is the last one. -/
  short : chunk.length < activeSessionsChunkSize → rest = []

theorem exists_round (h : Lists root params history) {chunk : List Entry}
    {rest : List (List Entry)} {got : List Entry} {l : Loop}
    (hl : Reading root appIdFilter history got l)
    (hrest : chunksAt history l.before = chunk :: rest) :
    ∃ l', scanChunk root params appIdFilter l =
        .ok (l', decide (activeSessionsChunkSize ≤ chunk.length)) ∧
      Round root appIdFilter history got chunk rest l' := by
  have hne : older Entry.cursor l.before history ≠ [] := by
    intro hnil
    rw [chunksAt, hnil] at hrest
    cases hrest
  obtain ⟨last, hlast, hnext, hstall, holder, hcut⟩ :=
    exists_chunks_older h.nodup hl.cursor (by decide : 0 < activeSessionsChunkSize) hne
  rw [chunksAt, hcut, List.cons.injEq] at hrest
  obtain ⟨hchunk, hafter⟩ := hrest
  rw [hchunk] at hlast
  have hchunkNe : chunk ≠ [] := by
    rintro rfl
    cases hlast
  obtain ⟨scan', hscan, hsessions, hdeployed, hscanned⟩ :=
    scanRecords_spec hl.scanned hl.length (chunk.map Entry.record)
  rw [← List.map_append] at hsessions hscanned
  have hlength : scan'.sessions.length = min activeSessionsChunkSize
      (shown root.isDeployed appIdFilter (got ++ chunk)).length := by
    rw [hsessions, List.length_map, List.length_take]
    rfl
  refine ⟨{ l with scan := scan', nextBefore := some last.cursor, before := some last.cursor },
    ?_, rfl, ⟨last, rfl, hnext, hafter⟩, ?_, ?_, ?_, ?_⟩
  · rw [scanChunk, h.answers _ hl.cursor, hchunk, hlast]
    simp [inContext, Except.mapError, bind, Except.bind, pure, Except.pure, hchunkNe, hstall, hscan]
  · exact fun left hpage ↦ ⟨hsessions, hdeployed, hl.stalled, hpage⟩
  · intro hfull
    change scan'.sessions.length = _
    rw [hlength, min_eq_left (of_decide_eq_true hfull)]
  · intro hfull
    have hless : scan'.sessions.length < activeSessionsChunkSize := by
      rw [hlength]
      exact (min_le_right _ _).trans_lt (Nat.lt_of_not_le (of_decide_eq_false hfull))
    exact ⟨hscanned hless, hless, hnext, hl.stalled⟩
  · intro hshort
    have hle := congrArg List.length hchunk
    rw [List.length_take] at hle
    rw [← hafter, holder, List.drop_eq_nil_of_le (by omega)]
    rfl

/-- The loop reads up to the end of its turn. -/
theorem exists_scanLoop (h : Lists root params history) {rest : List (List Entry)}
    {got : List Entry} {l : Loop} (hl : Reading root appIdFilter history got l)
    (hrest : chunksAt history l.before = rest) {fuel : ℕ}
    (hfuel : rest.length < fuel) :
    ∃ l', scanLoop root params appIdFilter fuel l = some (.ok l') ∧
      Ended root appIdFilter history
        (turn (isFull root.isDeployed appIdFilter) got rest).1
        (turn (isFull root.isDeployed appIdFilter) got rest).2 l' ∧
      (rest = [] → l'.nextBefore = l.nextBefore) ∧
        (rest ≠ [] → Stands history (turn (isFull root.isDeployed appIdFilter) got rest).2 l') := by
  induction rest generalizing got l fuel with
  | nil =>
      cases fuel with
      | zero => cases hfuel
      | succ fuel =>
          have hnil : older Entry.cursor l.before history = [] := by
            rw [← flatten_chunks (by decide : 0 < activeSessionsChunkSize)
              (older Entry.cursor l.before history), ← chunksAt, hrest]
            rfl
          rw [scanLoop, if_pos hl.length, scanChunk, h.answers _ hl.cursor, hnil]
          refine ⟨l, rfl, ⟨?_, hl.scanned.deployed, hl.stalled, fun hne ↦ absurd rfl hne⟩,
            fun _ ↦ rfl, fun hne ↦ absurd rfl hne⟩
          have hlength := hl.length
          rw [hl.scanned.sessions, List.length_map] at hlength
          rw [turn, shown, List.take_of_length_le hlength.le, hl.scanned.sessions]
  | cons chunk rest ih =>
      cases fuel with
      | zero => cases hfuel
      | succ fuel =>
          obtain ⟨l₁, hscan, hround⟩ := exists_round h hl hrest
          have hafter : chunksAt history l₁.before = rest := by
            obtain ⟨last, hnext, -, hafter⟩ := hround.stands
            rwa [hround.before, hnext]
          rw [scanLoop, if_pos hl.length, hscan, turn]
          by_cases hfull : isFull root.isDeployed appIdFilter (got ++ chunk) = true
          · -- The page is full, and the next round does not begin.
            have hten := hround.full hfull
            rw [if_pos hfull]
            refine ⟨l₁, ?_, hround.ended rest fun _ hnil ↦ ?_, fun hnil ↦ ?_, fun _ ↦ hround.stands⟩
            · cases decide (activeSessionsChunkSize ≤ chunk.length) with
              | false => rfl
              | true =>
                  cases fuel with
                  | zero => simp at hfuel
                  | succ fuel => exact if_neg (by omega)
            · rw [hnil] at hten
              cases hten
            · cases hnil
          · rw [if_neg hfull]
            by_cases hsize : activeSessionsChunkSize ≤ chunk.length
            · obtain ⟨l', hloop, hend, hsame, hstands⟩ :=
                ih (hround.reading (Bool.eq_false_iff.mpr hfull)) hafter
                  (Nat.lt_of_succ_lt_succ hfuel)
              rw [decide_eq_true hsize]
              refine ⟨l', hloop, hend, fun hnil ↦ ?_, fun _ ↦ ?_⟩
              · cases hnil
              · by_cases hnil : rest = []
                · obtain ⟨last, hnext, hlast⟩ := hround.stands
                  rw [hnil] at hlast ⊢
                  exact ⟨last, (hsame hnil).trans hnext, hlast⟩
                · exact hstands hnil
            · have hnil := hround.short (Nat.lt_of_not_le hsize)
              have hstands := hround.stands
              rw [hnil] at hstands ⊢
              rw [decide_eq_false hsize]
              refine ⟨l₁, rfl, hround.ended [] fun hne ↦ absurd rfl hne, fun hcons ↦ ?_,
                fun _ ↦ hstands⟩
              cases hcons

/-! ## All calls -/

/-- With what a reader goes on after a page. -/
def ResultOfQueryActiveSessions.next (result : ResultOfQueryActiveSessions) :
    Option (Option String) :=
  if result.exhaustedActive ∨ result.nextBefore = none then none else some result.nextBefore

/-- The calls of a reader. -/
def calls (fuel : ℕ) (root : AuthServiceRoot) (params : Params) (_ : ℕ) (before : Option String) :
    Option ResultOfQueryActiveSessions :=
  (queryActiveSessionsByMultifactor fuel (.ok root) { params with before := before }).bind
    Except.toOption

variable (isDeployed appIdFilter) in
/-- The sessions of a page, from the entries that its call reads. -/
def pageOf (got : List Entry) : List ActiveConnectSession :=
  ((shown isDeployed appIdFilter got).take activeSessionsChunkSize).map sessionOf

/-- What a call brings, of what is left at its cursor. -/
theorem advances_of_call (h : Lists root params history)
    (hfilter : normalizeOptionalAppId params.appId = .ok appIdFilter) {fuel : ℕ}
    (hfuel : history.length < fuel) (n : ℕ) {before : Option String}
    (hcursor : IsCursor Entry.cursor history before) :
    ∃ page, calls fuel root params n before = some page ∧
      Paging.Advances ResultOfQueryActiveSessions.next ResultOfQueryActiveSessions.sessions
        (fun before ↦ (turns (isFull root.isDeployed appIdFilter) []
          (chunksAt history before)).flatMap
            (pageOf root.isDeployed appIdFilter))
        (fun before ↦ (chunksAt history before).length)
        (IsCursor Entry.cursor history) before page := by
  have hlists : Lists root { params with before := before } history := ⟨h.nodup, h.answers⟩
  have hstart : Reading root appIdFilter history []
      ⟨⟨[], ∅, [], false⟩, none, before, false⟩ :=
    ⟨.start, (by decide : 0 < activeSessionsChunkSize), hcursor, rfl⟩
  have hshort : (chunksAt history before).length < fuel :=
    ((length_chunks_le _ _).trans (older_sublist before history).length_le).trans_lt hfuel
  obtain ⟨l, hloop, hend, hsame, hstands⟩ := exists_scanLoop hlists hstart rfl hshort
  refine ⟨resultOf l, ?_, ?_⟩
  · rw [calls, queryActiveSessionsByMultifactor, hfilter]
    simp [hloop]
    rfl
  dsimp only at hend hsame hstands
  generalize hrest : chunksAt history before = rest at hend hsame hstands
  cases rest with
  | nil =>
      refine .last ?_ ?_
      · exact if_pos (.inr (hsame rfl))
      · change l.scan.sessions = _
        rw [hend.sessions, hrest]
        rfl
  | cons chunk rest =>
      obtain ⟨last, hnext, hlast, hafter⟩ := hstands (List.cons_ne_nil _ _)
      have hne : [] ++ (chunk :: rest).flatten ≠ [] := by
        intro hnil
        rw [List.nil_append, ← hrest, chunksAt, flatten_chunks (by decide)] at hnil
        rw [chunksAt, hnil] at hrest
        cases hrest
      have hturns := congrArg (List.flatMap (pageOf root.isDeployed appIdFilter))
        (turns_eq (isFull root.isDeployed appIdFilter) hne)
      rw [List.flatMap_cons] at hturns
      have hpage : l.scan.sessions = pageOf root.isDeployed appIdFilter
          (turn (isFull root.isDeployed appIdFilter) [] (chunk :: rest)).1 := hend.sessions
      by_cases hexhausted : (resultOf l).exhaustedActive = true
      · -- Nothing was found, so the entries have run out.
        have hnone : l.scan.sessions = [] := by
          by_contra hsome
          rw [resultOf, hend.stalled, hend.deployed hsome] at hexhausted
          cases hexhausted
        have hleft : (turn (isFull root.isDeployed appIdFilter) [] (chunk :: rest)).2 = [] := by
          by_contra hleft
          exact hend.full hleft hnone
        refine .last (if_pos (.inl hexhausted)) ?_
        change l.scan.sessions = _
        rw [hrest, hturns, hleft, hpage]
        exact (List.append_nil _).symm
      · have hgoes : (resultOf l).next = some (some last.cursor) := by
          rw [ResultOfQueryActiveSessions.next, if_neg, resultOf, hnext]
          rw [not_or]
          exact ⟨hexhausted, by rw [resultOf, hnext]; exact Option.some_ne_none _⟩
        refine .more hgoes hlast ?_ ?_
        · change l.scan.sessions ++ _ = _
          rw [hafter, hrest, hturns, hpage]
        · rw [hafter, hrest]
          exact Nat.lt_succ_of_le (length_turn_cons_le _ _ _)

/-- The sessions that are listed over all pages. -/
theorem exists_pages (h : Lists root params history)
    (hfilter : normalizeOptionalAppId params.appId = .ok appIdFilter) {fuel : ℕ}
    (hfuel : history.length < fuel) :
    ∃ pages, Paging.Reads (calls fuel root params) ResultOfQueryActiveSessions.next 0 none pages ∧
      pages.flatMap ResultOfQueryActiveSessions.sessions =
        (readings root.isDeployed appIdFilter history).flatMap
          (pageOf root.isDeployed appIdFilter) := by
  have hfirst : IsCursor Entry.cursor history none := by rintro c ⟨⟩
  obtain ⟨pages, hreads, hall, -⟩ := Paging.exists_reads (p := fun _ ↦ True)
    (fun n before hcursor ↦ by
      obtain ⟨page, hcall, hadvances⟩ := advances_of_call h hfilter hfuel n hcursor
      exact ⟨page, hcall, trivial, hadvances⟩) 0 hfirst
  exact ⟨pages, hreads, hall⟩

end

/-! ## Each session once -/

section

variable (root : AuthServiceRoot) (params : Params) (appIdFilter : Option String)
  (history : List Entry)

/-- The active sessions among the entries that each call reads. -/
def found : List (List String) :=
  (readings root.isDeployed appIdFilter history).map fun got ↦
    (shown root.isDeployed appIdFilter got).map sessionKey

/-- No call finds more sessions than a page has room for. -/
def NoneLeft : Prop :=
  ∀ keys ∈ found root appIdFilter history, keys.length ≤ activeSessionsChunkSize

instance : Decidable (NoneLeft root appIdFilter history) :=
  inferInstanceAs (Decidable (∀ keys ∈ _, _))

/-- No session is found by two calls. -/
def Apart : Prop := (found root appIdFilter history).Pairwise List.Disjoint

/-- A reader comes to an end, and each active session is listed once. -/
def ListsEach : Prop :=
  ∀ fuel, history.length < fuel → ∃ pages,
    Paging.Reads (calls fuel root params) ResultOfQueryActiveSessions.next 0 none pages ∧
      ((pages.flatMap ResultOfQueryActiveSessions.sessions).map
        activeSessionUniquenessKey).Nodup ∧
      ∀ key, key ∈ (pages.flatMap ResultOfQueryActiveSessions.sessions).map
          activeSessionUniquenessKey ↔
        ∃ entry ∈ history, isActive root.isDeployed appIdFilter entry.record = true ∧
          sessionKey entry.record = key

end

section

variable {root : AuthServiceRoot} {params : Params} {appIdFilter : Option String}
  {history : List Entry}

/-- The keys of the sessions over all pages. -/
theorem map_flatMap_pageOf (groups : List (List Entry)) :
    (groups.flatMap (pageOf root.isDeployed appIdFilter)).map activeSessionUniquenessKey =
      (groups.map fun got ↦ (shown root.isDeployed appIdFilter got).map sessionKey).flatMap
        (·.take activeSessionsChunkSize) := by
  rw [List.map_flatMap, List.flatMap_map]
  refine List.flatMap_congr fun got _ ↦ ?_
  rw [pageOf, List.map_map, ← List.map_take]
  rfl

theorem mem_found {key : String} :
    (∃ keys ∈ found root appIdFilter history, key ∈ keys) ↔
      ∃ entry ∈ history, isActive root.isDeployed appIdFilter entry.record = true ∧
        sessionKey entry.record = key := by
  have hall : (readings root.isDeployed appIdFilter history).flatten = history := by
    rw [readings, flatten_turns, List.nil_append, flatten_chunks (by decide)]
  constructor
  · rintro ⟨keys, hkeys, hkey⟩
    obtain ⟨got, hgot, rfl⟩ := List.mem_map.mp hkeys
    obtain ⟨record, hrecord, rfl⟩ := List.mem_map.mp (mem_map_fresh.mp hkey).1
    obtain ⟨hmem, hactive⟩ := List.mem_filter.mp hrecord
    obtain ⟨entry, hentry, rfl⟩ := List.mem_map.mp hmem
    refine ⟨entry, ?_, hactive, rfl⟩
    rw [← hall]
    exact List.mem_flatten_of_mem hgot hentry
  · rintro ⟨entry, hentry, hactive, rfl⟩
    rw [← hall] at hentry
    obtain ⟨got, hgot, hmem⟩ := List.mem_flatten.mp hentry
    refine ⟨_, List.mem_map_of_mem hgot, mem_map_fresh.mpr ⟨?_, Finset.notMem_empty _⟩⟩
    exact List.mem_map_of_mem (List.mem_filter.mpr ⟨List.mem_map_of_mem hmem, hactive⟩)

/-- The sessions are listed as the calls find them, up to ten for each. -/
theorem listsEach_iff (h : Lists root params history)
    (hfilter : normalizeOptionalAppId params.appId = .ok appIdFilter) :
    ListsEach root params appIdFilter history ↔
      EachOnce activeSessionsChunkSize (found root appIdFilter history) := by
  simp only [ListsEach, EachOnce, mem_found]
  constructor
  · intro hlists
    obtain ⟨pages, hreads, hnodup, hmem⟩ := hlists _ (Nat.lt_succ_self _)
    obtain ⟨pages', hreads', hall⟩ := exists_pages h hfilter (Nat.lt_succ_self _)
    obtain rfl := hreads.unique hreads'
    rw [hall, map_flatMap_pageOf] at hnodup hmem
    exact ⟨hnodup, hmem⟩
  · rintro ⟨hnodup, hmem⟩ fuel hfuel
    obtain ⟨pages, hreads, hall⟩ := exists_pages h hfilter hfuel
    refine ⟨pages, hreads, ?_⟩
    rw [hall, map_flatMap_pageOf]
    exact ⟨hnodup, hmem⟩

theorem nodup_of_mem_found {keys : List String} (h : keys ∈ found root appIdFilter history) :
    keys.Nodup := by
  obtain ⟨got, -, rfl⟩ := List.mem_map.mp h
  exact nodup_map_fresh _ _

/-- A reader always comes to an end.  Each active session is listed once if no
call leaves a session of its last chunk, and no session is found by two calls;
and where one of the two fails alone, this is not so. -/
theorem listsEach_of_noneLeft (h : Lists root params history)
    (hfilter : normalizeOptionalAppId params.appId = .ok appIdFilter) :
    (∀ fuel, history.length < fuel → ∃ pages,
      Paging.Reads (calls fuel root params) ResultOfQueryActiveSessions.next 0 none pages) ∧
      (NoneLeft root appIdFilter history → Apart root appIdFilter history →
        ListsEach root params appIdFilter history) ∧
      (ListsEach root params appIdFilter history →
        (NoneLeft root appIdFilter history ↔ Apart root appIdFilter history)) := by
  have hnodup : ∀ keys ∈ found root appIdFilter history, keys.Nodup := fun keys hkeys ↦
    nodup_of_mem_found hkeys
  refine ⟨fun fuel hfuel ↦ ?_, ?_, ?_⟩
  · obtain ⟨pages, hreads, -⟩ := exists_pages h hfilter hfuel
    exact ⟨pages, hreads⟩
  · intro hleft hapart
    exact (listsEach_iff h hfilter).mpr (eachOnce_of_disjoint hnodup hleft hapart)
  · intro hlists
    exact ((listsEach_iff h hfilter).mp hlists).short_iff_disjoint hnodup

end

/-! ## An eleventh session -/

/-- Profiles with numbers, of which the first is not deployed. -/
def exampleHistory (n : ℕ) : List Entry :=
  (List.range n).map fun k ↦
    { cursor := toString k
      record :=
        { profile := toString k
          description := "bee_connect:v1:0x1:" ++ toString k
          eventId := toString k
          createdAt := 0 } }

def exampleRoot (n : ℕ) : AuthServiceRoot where
  queryProfilesByMultifactor query :=
    let entries := (older Entry.cursor query.before (exampleHistory n)).take activeSessionsChunkSize
    .ok
      { records := entries.map Entry.record
        oldestCursor := entries.getLast?.map Entry.cursor }
  isDeployed profile := profile ≠ "0"

def exampleParams : Params := ⟨"0:1", none, none, none⟩

theorem lists_example {n : ℕ} (h : ((exampleHistory n).map Entry.cursor).Nodup) :
    Lists (exampleRoot n) exampleParams (exampleHistory n) where
  nodup := h
  answers _ _ := rfl

/-- The second chunk brings a tenth and an eleventh session, and the eleventh
one is left. -/
theorem not_listsEach :
    Lists (exampleRoot 12) exampleParams (exampleHistory 12) ∧
      ¬ListsEach (exampleRoot 12) exampleParams none (exampleHistory 12) := by
  have hlists := lists_example (n := 12) (by decide +kernel)
  refine ⟨hlists, fun heach ↦ ?_⟩
  have honce := ((listsEach_iff hlists rfl).mp heach).2 "11::11"
  rw [mem_found] at honce
  revert honce
  decide +kernel

/-- Ten sessions are all listed. -/
theorem listsEach_ten : ListsEach (exampleRoot 11) exampleParams none (exampleHistory 11) := by
  have hone : (found (exampleRoot 11) none (exampleHistory 11)).length = 1 := by decide +kernel
  obtain ⟨keys, hkeys⟩ := List.length_eq_one_iff.mp hone
  have hapart : Apart (exampleRoot 11) none (exampleHistory 11) := by
    rw [Apart, hkeys]
    exact List.pairwise_singleton _ _
  exact (listsEach_of_noneLeft (lists_example (by decide +kernel)) rfl).2.1 (by decide +kernel)
    hapart

end ActiveSessions

end BeeEngine
