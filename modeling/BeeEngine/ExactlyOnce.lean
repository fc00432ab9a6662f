import BeeEngine.EventPolling

/-!
# Events handled exactly once

The mark of the event task separates the handled events from the others as
long as no event shares its second with a handled one and the clock is read
between the two.
-/

namespace BeeEngine

open Transition

variable {M : RsMerkle} {blake3 : Bytes → Bytes32} {queryEvents : List Event → List Event}

/-! ## What is claimed and assumed -/

/-- Of the events that the last answer shows, exactly those after the details
were handled, once and in order; the miner has run on them. -/
def EventTask.ExactlyOnce (blake3 : Bytes → Bytes32) (p : EventTask M) (log : List Event) : Prop :=
  p.handled = (Event.readable ((log.take p.seen).drop p.snapshot)).map Prod.snd ∧
    ∃ ls, Run (Miner.Step blake3) (newMiner M p.details) ls p.miner ∧
      ls.filterMap Client.eventOf = p.handled

/-- The events of an answer that the task has not handled yet. -/
def EventTask.shown (p : EventTask M) : List Event :=
  match p.answer with
  | some (.ok events) => events
  | _ => []

namespace Client

def ExactlyOnce (blake3 : Bytes → Bytes32) (s : Client M) : Prop :=
  ∀ p, s.stage = .polling p → p.ExactlyOnce blake3 s.log

/-- The events after a mark. -/
def unread (s : Client M) (afterDt : UInt64) : List Event :=
  s.log.filter fun e ↦ afterDt < e.createdAt

/-- The history of events is in the order of time, and each poll has at most
100 unread events. -/
def Assumed (s : Client M) : Label → Prop
  | .emit e => ∀ e' ∈ s.log, e'.createdAt ≤ e.createdAt
  | .serveEvents =>
      match s.stage with
      | .polling p => (s.unread p.afterDt).length ≤ 100
      | _ => True
  | _ => True

/-- A mark lies between the first events and the others. -/
structure Separates (afterDt : UInt64) (log : List Event) (n : ℕ) : Prop where
  before : ∀ x ∈ Event.readable (log.take n), x.1 ≤ afterDt
  later : ∀ x ∈ Event.readable (log.drop n), afterDt < x.1

instance (afterDt : UInt64) (log : List Event) (n : ℕ) : Decidable (Separates afterDt log n) :=
  decidable_of_iff
    ((∀ x ∈ Event.readable (log.take n), x.1 ≤ afterDt) ∧
      ∀ x ∈ Event.readable (log.drop n), afterDt < x.1)
    ⟨fun h ↦ ⟨h.1, h.2⟩, fun h ↦ ⟨h.1, h.2⟩⟩

/-- The clock separates the events that the details reflect from the others;
no event has a second that was read already; and the unread events of a poll
can all be decoded or none of them can. -/
def Timely (s : Client M) : Label → Prop
  | .emit e =>
      match s.stage with
      | .cancelling _ _ afterDt => ∀ x ∈ Event.readable [e], afterDt < x.1
      | .polling p => ∀ x ∈ Event.readable [e], p.afterDt < x.1 ∧
          ∀ e' ∈ p.shown, e'.createdAt < x.1
      | _ => True
  | .readClock nowMs =>
      match s.stage with
      | .readingDetails _ snapshot => Separates (nowMs / 1000 - 1) s.log snapshot
      | _ => True
  | .serveEvents =>
      match s.stage with
      | .polling p => (∀ e ∈ s.unread p.afterDt, e.decoded.isOk = true) ∨
          ∀ e ∈ s.unread p.afterDt, e.decoded.isOk = false
      | _ => True
  | _ => True

instance (s : Client M) : (l : Label) → Decidable (s.Assumed l)
  | .emit e => inferInstanceAs (Decidable (∀ e' ∈ s.log, e'.createdAt ≤ e.createdAt))
  | .serveEvents => by
      rw [Assumed]
      cases s.stage <;> infer_instance
  | .serveDetails _ | .readClock _ | .cancelled _ | .failQuery _ | .handle | .miner _ =>
      isTrue trivial

instance (s : Client M) : (l : Label) → Decidable (s.Timely l)
  | .emit e => by
      unfold Timely
      cases s.stage <;> infer_instance
  | .readClock nowMs => by
      unfold Timely
      cases s.stage <;> infer_instance
  | .serveEvents => by
      unfold Timely
      cases s.stage <;> infer_instance
  | .serveDetails _ | .cancelled _ | .failQuery _ | .handle | .miner _ => isTrue trivial

end Client

/-! ## Batches -/

namespace Event

@[simp] theorem readable_nil : readable [] = [] := rfl

@[simp] theorem readable_append (a b : List Event) : readable (a ++ b) = readable a ++ readable b :=
  List.filterMap_append

theorem item_cases (e : Event) :
    (∃ m, e.decoded = .ok m ∧ e.item = .ok (e.createdAt, m)) ∨
      ∃ error, e.decoded = .error error ∧ e.item = .error error := by
  rw [item]
  cases e.decoded with
  | ok m => exact .inl ⟨m, rfl, rfl⟩
  | error error => exact .inr ⟨error, rfl, rfl⟩

theorem createdAt_of_mem_readable {x : UInt64 × MinerEvent} {events : List Event}
    (h : x ∈ readable events) : ∃ e ∈ events, e.createdAt = x.1 := by
  obtain ⟨e, he, hx⟩ := List.mem_filterMap.mp h
  refine ⟨e, he, ?_⟩
  rcases e.item_cases with ⟨m, -, hitem⟩ | ⟨error, -, hitem⟩
  · rw [hitem] at hx
    rw [← Option.some.inj hx]
  · rw [hitem] at hx
    cases hx

theorem readable_filter (afterDt : UInt64) (events : List Event) :
    readable (events.filter fun e ↦ afterDt < e.createdAt) =
      (readable events).filter fun x ↦ afterDt < x.1 := by
  induction events with
  | nil => rfl
  | cons e events ih =>
      have hcons : readable (e :: events) = readable [e] ++ readable events :=
        readable_append [e] events
      rw [hcons, List.filter_append, ← ih]
      rcases e.item_cases with ⟨m, -, hitem⟩ | ⟨error, -, hitem⟩
      · by_cases hlater : afterDt < e.createdAt
        · simp [readable, hitem, hlater, Except.toOption]
        · simp [readable, hitem, hlater, Except.toOption]
      · by_cases hlater : afterDt < e.createdAt
        · simp [readable, hitem, hlater, Except.toOption]
        · simp [readable, hitem, hlater, Except.toOption]

theorem mapM_item_of_decoded {events : List Event} (h : ∀ e ∈ events, e.decoded.isOk = true) :
    events.mapM item = .ok (readable events) := by
  induction events with
  | nil => rfl
  | cons e events ih =>
      obtain ⟨he, hevents⟩ := List.forall_mem_cons.mp h
      rw [List.mapM_cons, ih hevents]
      rcases e.item_cases with ⟨m, -, hitem⟩ | ⟨error, hdecoded, -⟩
      · simp [readable, hitem, Except.toOption]
      · rw [hdecoded] at he
        cases he

theorem readable_of_not_decoded {events : List Event}
    (h : ∀ e ∈ events, e.decoded.isOk = false) : readable events = [] := by
  rw [readable, List.filterMap_eq_nil_iff]
  intro e he
  rcases e.item_cases with ⟨m, hdecoded, -⟩ | ⟨error, -, hitem⟩
  · have hbad := h e he
    rw [hdecoded] at hbad
    cases hbad
  · rw [hitem]
    rfl

/-- A batch with no event that can be decoded is empty or fails. -/
theorem mapM_item_of_not_decoded {events : List Event}
    (h : ∀ e ∈ events, e.decoded.isOk = false) :
    events = [] ∨ ∃ error, events.mapM item = .error error := by
  cases events with
  | nil => exact .inl rfl
  | cons e events =>
      right
      rcases e.item_cases with ⟨m, hdecoded, -⟩ | ⟨error, -, hitem⟩
      · have hbad := h e List.mem_cons_self
        rw [hdecoded] at hbad
        cases hbad
      · refine ⟨error, ?_⟩
        rw [List.mapM_cons, hitem]
        rfl

end Event

/-- What a batch does: all its events are read, or there is nothing to read. -/
theorem getMinerEvents_cases {events : List Event} {afterDt : UInt64}
    (h : (∀ e ∈ events.filter fun e ↦ afterDt < e.createdAt, e.decoded.isOk = true) ∨
      ∀ e ∈ events.filter fun e ↦ afterDt < e.createdAt, e.decoded.isOk = false) :
    getMinerEvents (.ok events) afterDt =
        .ok (Event.readable (events.filter fun e ↦ afterDt < e.createdAt)) ∨
      (∃ error, getMinerEvents (.ok events) afterDt = .error error) ∧
        Event.readable (events.filter fun e ↦ afterDt < e.createdAt) = [] := by
  rcases h with h | h
  · left
    exact Event.mapM_item_of_decoded h
  · rcases Event.mapM_item_of_not_decoded h with hnil | herror
    · left
      rw [getMinerEvents, hnil]
      rfl
    · right
      exact ⟨herror, Event.readable_of_not_decoded h⟩

/-! ## The mark -/

instance lawfulOrderMax : Std.LawfulOrderMax UInt64 where
  max_le_iff a b c := by
    have hmax : max a b = if a ≤ b then b else a := rfl
    rw [hmax]
    by_cases hab : a ≤ b
    · rw [if_pos hab]
      exact ⟨fun h ↦ ⟨UInt64.le_trans hab h, h⟩, fun h ↦ h.2⟩
    · rw [if_neg hab]
      have hba : b ≤ a := (UInt64.le_total a b).resolve_left hab
      exact ⟨fun h ↦ ⟨h, UInt64.le_trans hba h⟩, fun h ↦ h.1⟩
  max_eq_or a b := by
    have hmax : max a b = if a ≤ b then b else a := rfl
    rw [hmax]
    by_cases hab : a ≤ b
    · exact .inr (if_pos hab)
    · exact .inl (if_neg hab)

/-- The mark stays, or it is the second of the newest event of the batch. -/
theorem EventTask.afterDt_process (p : EventTask M) (items : List (UInt64 × MinerEvent)) :
    (items = [] ∧ (p.process items).afterDt = p.afterDt) ∨
      ∃ x ∈ items, (p.process items).afterDt = x.1 ∧ ∀ y ∈ items, y.1 ≤ x.1 := by
  rw [process]
  cases hmax : (items.map Prod.fst).max? with
  | none => exact .inl ⟨List.map_eq_nil_iff.mp (List.max?_eq_none_iff.mp hmax), rfl⟩
  | some mark =>
      right
      obtain ⟨hmem, hle⟩ := List.max?_eq_some_iff.mp hmax
      obtain ⟨x, hx, rfl⟩ := List.mem_map.mp hmem
      exact ⟨x, hx, rfl, fun y hy ↦ hle y.1 (List.mem_map_of_mem hy)⟩

/-! ## The invariant -/

namespace Client

theorem Separates.emit {afterDt : UInt64} {log : List Event} {n : ℕ} (h : Separates afterDt log n)
    (hn : n ≤ log.length) {e : Event} (he : ∀ x ∈ Event.readable [e], afterDt < x.1) :
    Separates afterDt (log ++ [e]) n where
  before := by
    rw [List.take_append_of_le_length hn]
    exact h.before
  later := by
    rw [List.drop_append_of_le_length hn, Event.readable_append]
    intro x hx
    rcases List.mem_append.mp hx with hx | hx
    · exact h.later x hx
    · exact he x hx

/-- What can be read after the mark is what was not read. -/
theorem Separates.readable_after {afterDt : UInt64} {log : List Event} {n : ℕ}
    (h : Separates afterDt log n) :
    Event.readable (log.filter fun e ↦ afterDt < e.createdAt) = Event.readable (log.drop n) := by
  have hbefore : ((Event.readable (log.take n)).filter fun x ↦ afterDt < x.1) = [] := by
    rw [List.filter_eq_nil_iff]
    intro x hx hlt
    exact UInt64.not_lt.mpr (h.before x hx) (of_decide_eq_true hlt)
  have hlater : ((Event.readable (log.drop n)).filter fun x ↦ afterDt < x.1) =
      Event.readable (log.drop n) := by
    rw [List.filter_eq_self]
    intro x hx
    exact decide_eq_true (h.later x hx)
  rw [Event.readable_filter]
  conv_lhs => rw [← List.take_append_drop n log, Event.readable_append, List.filter_append,
    hbefore, hlater, List.nil_append]

end Client

namespace EventTask

open Client

/-- An answer shows the unread events, and later events are later in time. -/
structure Served (p : EventTask M) (log events : List Event) : Prop where
  shown : (events.filter fun e ↦ p.afterDt < e.createdAt) =
    (log.take p.answered).filter fun e ↦ p.afterDt < e.createdAt
  decoded : (∀ e ∈ events.filter fun e ↦ p.afterDt < e.createdAt, e.decoded.isOk = true) ∨
    ∀ e ∈ events.filter fun e ↦ p.afterDt < e.createdAt, e.decoded.isOk = false
  later : ∀ x ∈ Event.readable (log.drop p.answered), ∀ e ∈ events, e.createdAt < x.1

structure Inv (blake3 : Bytes → Bytes32) (p : EventTask M) (log : List Event) : Prop where
  snapshot_le : p.snapshot ≤ p.seen
  seen_le : p.seen ≤ p.answered
  answered_le : p.answered ≤ log.length
  separates : Separates p.afterDt log p.seen
  exactlyOnce : p.ExactlyOnce blake3 log
  idle : (∀ events, p.answer ≠ some (.ok events)) → p.answered = p.seen
  served : ∀ events, p.answer = some (.ok events) → p.Served log events

theorem inv_spawn {log : List Event} (details : MinerDetails) {snapshot : ℕ} {afterDt : UInt64}
    (hle : snapshot ≤ log.length) (h : Separates afterDt log snapshot) :
    (spawn M details snapshot afterDt).Inv blake3 log where
  snapshot_le := Nat.le_refl _
  seen_le := Nat.le_refl _
  answered_le := hle
  separates := h
  exactlyOnce := by
    refine ⟨?_, [], .refl _, rfl⟩
    simp [spawn]
  idle _ := rfl
  served events h := by cases h

theorem Inv.emit {p : EventTask M} {log : List Event} (h : p.Inv blake3 log) {e : Event}
    (he : ∀ x ∈ Event.readable [e], p.afterDt < x.1 ∧ ∀ e' ∈ p.shown, e'.createdAt < x.1) :
    p.Inv blake3 (log ++ [e]) where
  snapshot_le := h.snapshot_le
  seen_le := h.seen_le
  answered_le := by
    rw [List.length_append]
    exact Nat.le_add_right_of_le h.answered_le
  separates := h.separates.emit (Nat.le_trans h.seen_le h.answered_le) fun x hx ↦ (he x hx).1
  exactlyOnce := by
    rw [ExactlyOnce, List.take_append_of_le_length (Nat.le_trans h.seen_le h.answered_le)]
    exact h.exactlyOnce
  idle := h.idle
  served events hanswer := by
    obtain ⟨hshown, hdecoded, hlater⟩ := h.served events hanswer
    refine ⟨?_, hdecoded, ?_⟩
    · rw [List.take_append_of_le_length h.answered_le]
      exact hshown
    · rw [List.drop_append_of_le_length h.answered_le, Event.readable_append]
      intro x hx
      rcases List.mem_append.mp hx with hx | hx
      · exact hlater x hx
      · have hlate := (he x hx).2
        rw [EventTask.shown, hanswer] at hlate
        exact hlate

/-! ### A round of the task -/

theorem foldl_handleEvent (items : List (UInt64 × MinerEvent)) (s : Miner M) :
    Run (Miner.Step blake3) s (items.map fun x ↦ .event x.2)
      (items.foldl (fun s x ↦ s.handleEvent x.2) s) := by
  induction items generalizing s with
  | nil => exact .refl s
  | cons x items ih => exact .head rfl (ih (s.handleEvent x.2))

theorem eventOf_events (items : List (UInt64 × MinerEvent)) :
    (items.map fun x ↦ Miner.Label.event x.2).filterMap eventOf = items.map Prod.snd := by
  rw [List.filterMap_map]
  exact List.filterMap_eq_map_iff_forall_eq_some.mpr fun x _ ↦ rfl

/-- The part of the log that an answer adds to what was seen. -/
def fresh (p : EventTask M) (log : List Event) : List Event := (log.take p.answered).drop p.seen

theorem Inv.take_eq {p : EventTask M} {log : List Event} (h : p.Inv blake3 log) :
    log.take p.answered = log.take p.seen ++ p.fresh log := by
  conv_lhs => rw [← List.take_append_drop p.seen (log.take p.answered), List.take_take,
    Nat.min_eq_left h.seen_le]
  rfl

theorem Inv.drop_eq {p : EventTask M} {log : List Event} (h : p.Inv blake3 log) :
    log.drop p.seen = p.fresh log ++ log.drop p.answered := by
  rw [fresh, List.drop_take]
  conv_lhs => rw [← List.take_append_drop (p.answered - p.seen) (log.drop p.seen), List.drop_drop,
    Nat.add_sub_cancel' h.seen_le]

theorem Inv.since_snapshot {p : EventTask M} {log : List Event} (h : p.Inv blake3 log) :
    (log.take p.answered).drop p.snapshot = (log.take p.seen).drop p.snapshot ++ p.fresh log := by
  rw [h.take_eq]
  apply List.drop_append_of_le_length
  rw [List.length_take, Nat.min_eq_left (Nat.le_trans h.seen_le h.answered_le)]
  exact h.snapshot_le

/-- A round that handles nothing, when there is nothing to be read. -/
theorem Inv.handle_error {p : EventTask M} {log : List Event} (h : p.Inv blake3 log)
    {answer : Except String (List Event)} {error : String}
    (hbatch : getMinerEvents answer p.afterDt = .error error)
    (hnothing : Event.readable (p.fresh log) = []) : (p.handle answer).Inv blake3 log := by
  have hhandle : p.handle answer = { p with answer := none, seen := p.answered } := by
    rw [handle, hbatch]
  rw [hhandle]
  obtain ⟨hhandled, hhistory⟩ := h.exactlyOnce
  refine ⟨Nat.le_trans h.snapshot_le h.seen_le, Nat.le_refl _, h.answered_le, ⟨?_, ?_⟩,
    ⟨?_, hhistory⟩, fun _ ↦ rfl, ?_⟩
  · have hbefore := h.separates.before
    rw [h.take_eq, Event.readable_append, hnothing, List.append_nil]
    exact hbefore
  · have hlater := h.separates.later
    rw [h.drop_eq, Event.readable_append, hnothing, List.nil_append] at hlater
    exact hlater
  · rw [h.since_snapshot, Event.readable_append, hnothing, List.append_nil]
    exact hhandled
  · intro events hanswer
    cases hanswer

/-- A round that handles what the answer adds. -/
theorem Inv.handle_ok {p : EventTask M} {log events : List Event} (h : p.Inv blake3 log)
    (hserved : p.Served log events)
    (hbatch : getMinerEvents (.ok events) p.afterDt = .ok (Event.readable (p.fresh log)))
    (hshown : ∀ x ∈ Event.readable (p.fresh log), ∃ e ∈ events, e.createdAt = x.1) :
    (p.handle (.ok events)).Inv blake3 log := by
  obtain ⟨hhandled, ls, hrun, hls⟩ := h.exactlyOnce
  have hlater := h.separates.later
  rw [h.drop_eq, Event.readable_append] at hlater
  have hfresh : ∀ x ∈ Event.readable (p.fresh log), p.afterDt < x.1 := fun x hx ↦
    hlater x (List.mem_append_left _ hx)
  have hhandle : p.handle (.ok events) = p.process (Event.readable (p.fresh log)) := by
    rw [handle, hbatch]
  rw [hhandle]
  refine ⟨Nat.le_trans h.snapshot_le h.seen_le, Nat.le_refl _, h.answered_le, ?_,
    ⟨?_, ls ++ (Event.readable (p.fresh log)).map (fun x ↦ .event x.2),
      hrun.append (foldl_handleEvent _ _), ?_⟩, fun _ ↦ rfl, ?_⟩
  · rcases p.afterDt_process (Event.readable (p.fresh log)) with ⟨hnil, hmark⟩ |
      ⟨x, hx, hmark, hnewest⟩
    · rw [hmark]
      refine ⟨?_, fun y hy ↦ hlater y (List.mem_append_right _ hy)⟩
      have hbefore := h.separates.before
      rw [← List.append_nil (Event.readable _), ← hnil, ← Event.readable_append, ← h.take_eq]
        at hbefore
      exact hbefore
    · rw [hmark]
      constructor
      · intro y hy
        have hy : y ∈ Event.readable (log.take p.seen ++ p.fresh log) := h.take_eq ▸ hy
        rw [Event.readable_append] at hy
        rcases List.mem_append.mp hy with hy | hy
        · exact UInt64.le_of_lt (UInt64.lt_of_le_of_lt (h.separates.before y hy) (hfresh x hx))
        · exact hnewest y hy
      · obtain ⟨e, he, hcreated⟩ := hshown x hx
        intro y hy
        rw [← hcreated]
        exact hserved.later y hy e he
  · rw [process, h.since_snapshot, Event.readable_append, List.map_append, ← hhandled]
  · rw [List.filterMap_append, hls, eventOf_events]
    rfl
  · intro events hanswer
    cases hanswer

/-- A round of the task. -/
theorem Inv.handle {p : EventTask M} {log : List Event} (h : p.Inv blake3 log)
    {answer : Except String (List Event)} (hanswer : p.answer = some answer) :
    (p.handle answer).Inv blake3 log := by
  cases answer with
  | error error =>
      apply h.handle_error rfl
      have hseen : p.answered = p.seen := by
        apply h.idle
        intro events hevents
        rw [hanswer] at hevents
        cases hevents
      rw [fresh, hseen, List.drop_take, Nat.sub_self]
      rfl
  | ok events =>
      have hserved := h.served events hanswer
      have hfresh : Event.readable (events.filter fun e ↦ p.afterDt < e.createdAt) =
          Event.readable (p.fresh log) := by
        rw [hserved.shown, fresh]
        apply Separates.readable_after
        constructor
        · rw [List.take_take, Nat.min_eq_left h.seen_le]
          exact h.separates.before
        · intro x hx
          apply h.separates.later
          rw [h.drop_eq, Event.readable_append]
          exact List.mem_append_left _ hx
      rcases getMinerEvents_cases hserved.decoded with hbatch | ⟨⟨error, hbatch⟩, hnothing⟩
      · rw [hfresh] at hbatch
        apply h.handle_ok hserved hbatch
        intro x hx
        rw [← hfresh] at hx
        obtain ⟨e, he, hcreated⟩ := Event.createdAt_of_mem_readable hx
        exact ⟨e, List.mem_of_mem_filter he, hcreated⟩
      · rw [hfresh] at hnothing
        exact h.handle_error hbatch hnothing

end EventTask

namespace Client

/-- The invariant of a client, by how far it is. -/
def StageInv (blake3 : Bytes → Bytes32) (log : List Event) : Stage M → Prop
  | .starting => True
  | .readingDetails _ snapshot => snapshot ≤ log.length
  | .cancelling _ snapshot afterDt => snapshot ≤ log.length ∧ Separates afterDt log snapshot
  | .polling p => p.Inv blake3 log
  | .failed => True

structure Inv (blake3 : Bytes → Bytes32) (s : Client M) : Prop where
  sorted : s.log.Pairwise fun e e' ↦ e.createdAt ≤ e'.createdAt
  stage : StageInv blake3 s.log s.stage

theorem inv_init : (init M).Inv blake3 := ⟨.nil, trivial⟩

theorem Inv.emit {s : Client M} (h : s.Inv blake3) {e : Event} (hsorted : s.Assumed (.emit e))
    (htimely : s.Timely (.emit e)) :
    Client.Inv blake3 { s with log := s.log ++ [e] } := by
  constructor
  · rw [List.pairwise_append]
    refine ⟨h.sorted, List.pairwise_singleton _ _, ?_⟩
    intro e' he' e'' he''
    rw [List.mem_singleton.mp he'']
    exact hsorted e' he'
  · obtain ⟨log, stage⟩ := s
    have hstage := h.stage
    cases stage with
    | starting => exact trivial
    | failed => exact trivial
    | readingDetails details snapshot =>
        simp only [StageInv, List.length_append] at hstage ⊢
        omega
    | cancelling details snapshot afterDt =>
        obtain ⟨hle, hseparates⟩ := hstage
        refine ⟨?_, hseparates.emit hle htimely⟩
        rw [List.length_append]
        exact Nat.le_add_right_of_le hle
    | polling p => exact EventTask.Inv.emit hstage htimely

/-- An answer with at most 100 unread events shows all of them. -/
theorem Inv.serveEvents {log : List Event} {p : EventTask M}
    (hsorted : log.Pairwise fun e e' ↦ e.createdAt ≤ e'.createdAt) (h : p.Inv blake3 log)
    (hidle : p.answer = none) (hquery : queryEvents log = Log.recent 100 log)
    (hfew : (log.filter fun e ↦ p.afterDt < e.createdAt).length ≤ 100)
    (hdecoded : (∀ e ∈ log.filter fun e ↦ p.afterDt < e.createdAt, e.decoded.isOk = true) ∨
      ∀ e ∈ log.filter fun e ↦ p.afterDt < e.createdAt, e.decoded.isOk = false) :
    EventTask.Inv blake3
      { p with answer := some (.ok (queryEvents log)), answered := log.length } log := by
  have hupward : Log.Upward (fun e : Event ↦ decide (p.afterDt < e.createdAt)) log := by
    refine hsorted.imp ?_
    intro e e' hle hlt
    exact decide_eq_true (UInt64.lt_of_lt_of_le (of_decide_eq_true hlt) hle)
  have hshown := Log.filter_recent hupward hfew
  rw [← hquery] at hshown
  have hseen := h.idle (by rw [hidle]; exact nofun)
  refine ⟨h.snapshot_le, hseen ▸ h.answered_le, Nat.le_refl _, h.separates, h.exactlyOnce, ?_, ?_⟩
  · intro hnone
    exact absurd rfl (hnone _)
  · intro events hevents
    obtain rfl : queryEvents log = events := by simpa using hevents
    refine ⟨?_, ?_, ?_⟩
    · rw [List.take_length]
      exact hshown
    · rw [hshown]
      exact hdecoded
    · rw [List.drop_length]
      exact nofun

theorem Inv.step (hquery : ∀ log, queryEvents log = Log.recent 100 log) {s s' : Client M}
    (h : s.Inv blake3) {l : Label} (hassumed : s.Assumed l) (htimely : s.Timely l)
    (hstep : s.Step blake3 queryEvents l s') : s'.Inv blake3 := by
  obtain ⟨log, stage⟩ := s
  obtain ⟨hsorted, hstage⟩ := h
  cases l with
  | emit e =>
      obtain rfl := Option.some.inj hstep
      exact Inv.emit ⟨hsorted, hstage⟩ hassumed htimely
  | serveDetails details =>
      cases stage with
      | starting =>
          obtain rfl := Option.some.inj hstep
          exact ⟨hsorted, Nat.le_refl _⟩
      | _ => cases hstep
  | readClock nowMs =>
      cases stage with
      | readingDetails details snapshot =>
          have hseparates : Separates (nowMs / 1000 - 1) log snapshot := htimely
          simp only [Step, step?] at hstep
          split at hstep
          · obtain rfl := Option.some.inj hstep
            exact ⟨hsorted, hstage, hseparates⟩
          · obtain rfl := Option.some.inj hstep
            exact ⟨hsorted, EventTask.inv_spawn details hstage hseparates⟩
      | _ => cases hstep
  | cancelled ok =>
      cases stage with
      | cancelling details snapshot afterDt =>
          simp only [Step, step?] at hstep
          split at hstep
          · obtain rfl := Option.some.inj hstep
            exact ⟨hsorted, EventTask.inv_spawn details hstage.1 hstage.2⟩
          · obtain rfl := Option.some.inj hstep
            exact ⟨hsorted, trivial⟩
      | _ => cases hstep
  | serveEvents =>
      cases stage with
      | polling p =>
          simp only [Step, step?] at hstep
          split at hstep
          · rename_i hidle
            obtain rfl := Option.some.inj hstep
            exact ⟨hsorted, Inv.serveEvents hsorted hstage (Option.isNone_iff_eq_none.mp hidle)
              (hquery log) hassumed htimely⟩
          · cases hstep
      | _ => cases hstep
  | failQuery error =>
      cases stage with
      | polling p =>
          simp only [Step, step?] at hstep
          split at hstep
          · rename_i hidle
            obtain rfl := Option.some.inj hstep
            have hseen := EventTask.Inv.idle hstage
              (by rw [Option.isNone_iff_eq_none.mp hidle]; exact nofun)
            obtain ⟨hsnapshot, hle, hanswered, hseparates, hexactly, -, -⟩ := hstage
            refine ⟨hsorted, hsnapshot, hle, hanswered, hseparates, hexactly, fun _ ↦ hseen, ?_⟩
            intro events hevents
            cases hevents
          · cases hstep
      | _ => cases hstep
  | handle =>
      cases stage with
      | polling p =>
          obtain ⟨answer, hanswer, rfl⟩ := Option.map_eq_some_iff.mp hstep
          exact ⟨hsorted, EventTask.Inv.handle hstage hanswer⟩
      | _ => cases hstep
  | miner l =>
      cases stage with
      | polling p =>
          simp only [Step, step?] at hstep
          split at hstep
          · rename_i hcall
            obtain ⟨miner, hminer, rfl⟩ := Option.map_eq_some_iff.mp hstep
            obtain ⟨hsnapshot, hle, hanswered, hseparates, ⟨hhandled, ls, hrun, hls⟩, hidle,
              hserved⟩ := hstage
            refine ⟨hsorted, hsnapshot, hle, hanswered, hseparates, ⟨hhandled, ls ++ [l],
              hrun.append (.head hminer (.refl _)), ?_⟩, hidle, ?_⟩
            · rw [List.filterMap_append, hls]
              simp [Option.isNone_iff_eq_none.mp hcall]
            · intro events hevents
              obtain ⟨hshown, hdecoded, hlater⟩ := hserved events hevents
              exact ⟨hshown, hdecoded, hlater⟩
          · cases hstep
      | _ => cases hstep

/-- Events are handled exactly once, in every state that timely steps reach. -/
theorem exactlyOnce_of_run (hquery : ∀ log, queryEvents log = Log.recent 100 log) {ls : List Label}
    {s : Client M}
    (h : Run (Guarded (fun s l ↦ s.Assumed l ∧ s.Timely l) (Step blake3 queryEvents)) (init M)
      ls s) :
    s.ExactlyOnce blake3 := by
  have hinv : s.Inv blake3 := by
    refine Run.invariant (Inv blake3) ?_ inv_init h
    rintro s l s' hs ⟨⟨hassumed, htimely⟩, hstep⟩
    exact hs.step hquery hassumed htimely hstep
  intro p hp
  have hstage := hinv.stage
  rw [hp] at hstage
  exact EventTask.Inv.exactlyOnce hstage

/-! ## Runs -/

/-- What was handled, and what should have been. -/
def handledAndShown (s : Client M) : Option (List MinerEvent × List MinerEvent) :=
  match s.stage with
  | .polling p =>
      some (p.handled, (Event.readable ((s.log.take p.seen).drop p.snapshot)).map Prod.snd)
  | _ => none

theorem not_exactlyOnce_of_ne {s : Client M} {handled shown : List MinerEvent}
    (h : s.handledAndShown = some (handled, shown)) (hne : handled ≠ shown) :
    ¬s.ExactlyOnce blake3 := by
  intro honce
  rw [handledAndShown] at h
  split at h
  · rename_i p hp
    obtain ⟨rfl, rfl⟩ := Prod.mk.inj (Option.some.inj h)
    exact hne (honce p hp).1
  · cases h

def details : MinerDetails := ⟨"a", "b", 10, 10, none⟩

def seedEvent (createdAt : UInt64) (seed : String) : Event := ⟨createdAt, .ok (.seedUpdated seed)⟩

/-- A run with an event before the details, a failed query, a `start`, and an
event that arrives while an answer is on its way. -/
def timelyRun : List Label :=
  [.emit (seedEvent 5 "b"), .serveDetails details, .readClock 10000,
    .emit (seedEvent 10 "c"), .failQuery "timeout", .handle, .serveEvents,
    .miner (.start 1000 1), .emit (seedEvent 12 "d"), .handle, .serveEvents, .handle]

theorem exactlyOnce_timelyRun :
    ∃ s, Run (Guarded (fun s l ↦ s.Assumed l ∧ s.Timely l)
          (Step Blake3.hash (Log.recent 100))) (init (RsMerkle.reference Blake3.hash))
          timelyRun s ∧
      s.handledAndShown = some ([.seedUpdated "c", .seedUpdated "d"],
        [.seedUpdated "c", .seedUpdated "d"]) ∧
      s.ExactlyOnce Blake3.hash := by
  have hrun : ((run? (guard? (fun s l ↦ s.Assumed l ∧ s.Timely l)
      (step? Blake3.hash (Log.recent 100))) (init (RsMerkle.reference Blake3.hash))
      timelyRun).bind handledAndShown) = some ([.seedUpdated "c", .seedUpdated "d"],
        [.seedUpdated "c", .seedUpdated "d"]) := by decide +kernel
  obtain ⟨s, hs, hvalues⟩ := Option.bind_eq_some_iff.mp hrun
  have hrun := run_guarded_of_run? hs
  exact ⟨s, hrun, hvalues, exactlyOnce_of_run (fun _ ↦ rfl) hrun⟩

/-- A second event in a second that was read. -/
def sameSecond : List Label :=
  [.serveDetails details, .readClock 10000, .emit (seedEvent 10 "c"), .serveEvents, .handle,
    .emit (seedEvent 10 "d"), .serveEvents, .handle]

/-- An event that the details reflect, in the second of the clock. -/
def reflected : List Label :=
  [.emit (seedEvent 10 "b"), .serveDetails details, .readClock 10500, .serveEvents, .handle]

/-- An event that cannot be decoded before one that can. -/
def undecodable : List Label :=
  [.serveDetails details, .readClock 10000, .emit ⟨11, .error "unknown event"⟩,
    .emit (seedEvent 12 "c"), .serveEvents, .handle]

/-- An event is lost, repeated or held up. -/
theorem not_exactlyOnce :
    (∃ s, Run (Guarded Assumed (Step Blake3.hash (Log.recent 100)))
        (init (RsMerkle.reference Blake3.hash)) sameSecond s ∧ ¬s.ExactlyOnce Blake3.hash) ∧
      (∃ s, Run (Guarded Assumed (Step Blake3.hash (Log.recent 100)))
        (init (RsMerkle.reference Blake3.hash)) reflected s ∧ ¬s.ExactlyOnce Blake3.hash) ∧
      ∃ s, Run (Guarded Assumed (Step Blake3.hash (Log.recent 100)))
        (init (RsMerkle.reference Blake3.hash)) undecodable s ∧ ¬s.ExactlyOnce Blake3.hash := by
  have hfail : ∀ {ls : List Label} {handled shown : List MinerEvent}, handled ≠ shown →
      ((run? (guard? Assumed (step? Blake3.hash (Log.recent 100)))
        (init (RsMerkle.reference Blake3.hash)) ls).bind handledAndShown) =
          some (handled, shown) →
      ∃ s, Run (Guarded Assumed (Step Blake3.hash (Log.recent 100)))
        (init (RsMerkle.reference Blake3.hash)) ls s ∧ ¬s.ExactlyOnce Blake3.hash := by
    intro ls handled shown hne hrun
    obtain ⟨s, hs, hvalues⟩ := Option.bind_eq_some_iff.mp hrun
    exact ⟨s, run_guarded_of_run? hs, not_exactlyOnce_of_ne hvalues hne⟩
  have hlost : [MinerEvent.seedUpdated "c"] ≠ [.seedUpdated "c", .seedUpdated "d"] := by decide
  have hrepeated : [MinerEvent.seedUpdated "b"] ≠ [] := by decide
  have hheld : [] ≠ [MinerEvent.seedUpdated "c"] := by decide
  refine ⟨hfail hlost ?_, hfail hrepeated ?_, hfail hheld ?_⟩
  · decide +kernel
  · decide +kernel
  · decide +kernel

end Client

end BeeEngine
