import BeeEngine.Infra
import BeeEngine.Lib.JsonText
import BeeEngine.MessageFinders

/-!
# Stale events and the finders

Events that a finder should not see are put between the others.  Those that it
counts as failed candidates turn a search that found nothing into an error,
which ends the poll around it.
-/

namespace BeeEngine

open ConnectMessage WalletMessage Dh MessageChain SessionMessages MessageFinders
open Json (Value)

namespace StaleEvents

variable {F α : Type}

/-! ## What is claimed -/

/-- The second list is the first one with events put in. -/
inductive Interspersed (isStale : Record → Prop) : List Record → List Record → Prop where
  | nil : Interspersed isStale [] []
  | keep {record : Record} {records records' : List Record}
      (h : Interspersed isStale records records') :
      Interspersed isStale (record :: records) (record :: records')
  | insert {record : Record} {records records' : List Record} (hstale : isStale record)
      (h : Interspersed isStale records records') :
      Interspersed isStale records (record :: records')

def IsUnparsable (p : Primitives F) (record : Record) : Prop :=
  p.serde.fromStr ConnectMessageEnvelope.read record.text = none

/-- An envelope of another version, session, direction or type. -/
def IsForeign (p : Primitives F) (sessionId dir msgType : String) (record : Record) : Prop :=
  ∃ e, p.serde.fromStr ConnectMessageEnvelope.read record.text = some e ∧
    ¬isOfType sessionId dir msgType e

/-- A message that the state has passed. -/
def IsReplay (p : Primitives F) (sessionId dir msgType : String) (w : ConnectSessionState)
    (record : Record) : Prop :=
  ∃ e, p.serde.fromStr ConnectMessageEnvelope.read record.text = some e ∧
    isOfType sessionId dir msgType e ∧ e.seq ≤ w.lastSeenSeq

/-- An event that a finder should not see. -/
def IsStale (p : Primitives F) (sessionId dir msgType : String) (w : ConnectSessionState)
    (record : Record) : Prop :=
  IsUnparsable p record ∨ IsForeign p sessionId dir msgType record ∨
    IsReplay p sessionId dir msgType w record

/-! ## When the finders see them -/

/-- A replay that carries a key, which is tried and fails. -/
def IsKeyedReplay (p : Primitives F) (sessionId dir msgType : String) (w : ConnectSessionState)
    (record : Record) : Prop :=
  ∃ e, p.serde.fromStr ConnectMessageEnvelope.read record.text = some e ∧
    isOfType sessionId dir msgType e ∧ e.seq ≤ w.lastSeenSeq ∧ e.dhPublic.isSome

/-- The failures that `find_set_mining_keys_event` counts. -/
def miningCounts (f : Failure) : Bool := f = .rekey || f = .decrypt || f = .bodyParse

/-- The failures that `find_challenge_response_event` counts. -/
def responseCounts (f : Failure) : Bool :=
  f = .parse || f = .rekey || f = .decrypt || f = .bodyParse

/-- An event that a scan counts as a failed candidate. -/
def CountsIn (counts : Failure → Bool) (scan : Record → Except Failure (α × ConnectSessionState))
    (record : Record) : Prop :=
  ∃ f, scan record = .error f ∧ counts f = true

/-- The scan of the finder for mining keys. -/
def miningScan (p : Primitives F) (sessionId : String) (w : ConnectSessionState) :
    Record → Except Failure (SetMiningKeysMessageBody × ConnectSessionState) :=
  scan p sessionId "c2w" typeSetMiningKeys (some w) readMiningKeys

/-- The scan of the finder for a response. -/
def responseScan (p : Primitives F) (sessionId : String) (w : ConnectSessionState) :
    Record → Except Failure (ChallengeResponseBody × ConnectSessionState) :=
  scan p sessionId "w2c" typeChallengeResponse (some w) ChallengeResponseBody.read

/-! ## One event -/

variable {p : Primitives F} {sessionId dir msgType : String} {w : ConnectSessionState}
  {readBody : Value F → Option α} {record : Record} {records records' : List Record}

theorem scan_of_isUnparsable (h : IsUnparsable p record) :
    scan p sessionId dir msgType (some w) readBody record = .error .parse := by
  rw [scan, h]

theorem scan_of_isForeign (h : IsForeign p sessionId dir msgType record) :
    scan p sessionId dir msgType (some w) readBody record = .error .filtered := by
  obtain ⟨e, he, htype⟩ := h
  simp only [scan, he, if_neg htype]

/-- A replay is refused before it is opened. -/
theorem openEvent_of_le {e : ConnectMessageEnvelope F} (h : e.seq ≤ w.lastSeenSeq) (now : UInt64) :
    openEvent p sessionId (some w) readBody e now =
      .error (if e.dhPublic.isSome then .rekey else .noKey) := by
  cases hdh : e.dhPublic with
  | none => simp [openEvent, hdh]
  | some dh =>
      cases hrekey : rekeyInbound p.crypto w dh sessionId e.seq now with
      | error error => simp [openEvent, hdh, hrekey]
      | ok rekey =>
          obtain ⟨-, -, hlt, -⟩ := Ratchet.rekeyInbound_eq_ok hrekey
          exact absurd h (UInt64.not_le.mpr hlt)

variable (readBody) in
/-- A stale event fails, and never because its body does not decrypt. -/
theorem scan_of_isStale (h : IsStale p sessionId dir msgType w record) :
    ∃ f, scan p sessionId dir msgType (some w) readBody record = .error f ∧ f ≠ .decrypt ∧
      f ≠ .bodyParse ∧ (f = .parse ↔ IsUnparsable p record) ∧
      (f = .rekey ↔ IsKeyedReplay p sessionId dir msgType w record) := by
  obtain h | h | ⟨e, he, htype, hle⟩ := h
  · refine ⟨.parse, scan_of_isUnparsable h, by decide, by decide, iff_of_true rfl h,
      iff_of_false (by decide) ?_⟩
    rintro ⟨e, he, -⟩
    rw [IsUnparsable, he] at h
    cases h
  · refine ⟨.filtered, scan_of_isForeign h, by decide, by decide, iff_of_false (by decide) ?_,
      iff_of_false (by decide) ?_⟩
    · intro hparse
      obtain ⟨e, he, -⟩ := h
      rw [IsUnparsable, he] at hparse
      cases hparse
    · rintro ⟨e', he', htype', -⟩
      obtain ⟨e, he, htype⟩ := h
      obtain rfl := Option.some.inj (he.symm.trans he')
      exact htype htype'
  · have hscan : scan p sessionId dir msgType (some w) readBody record =
        .error (if e.dhPublic.isSome then .rekey else .noKey) := by
      simp only [scan, he, if_pos htype, openEvent_of_le hle]
    have hparse : ¬IsUnparsable p record := by
      rw [IsUnparsable, he]
      exact Option.some_ne_none e
    have hkeyed : IsKeyedReplay p sessionId dir msgType w record ↔ e.dhPublic.isSome := by
      constructor
      · rintro ⟨e', he', -, -, hdh⟩
        rwa [Option.some.inj (he.symm.trans he')]
      · intro hdh
        exact ⟨e, he, htype, hle, hdh⟩
    refine ⟨_, hscan, ?_⟩
    by_cases hdh : e.dhPublic.isSome = true
    · simp [hdh, hkeyed, hparse]
    · simp [hdh, hkeyed, hparse]

/-! ## The search -/

theorem Interspersed.length_le {isStale : Record → Prop}
    (h : Interspersed isStale records records') :
    records.length ≤ records'.length := by
  induction h with
  | nil => exact Nat.le_refl _
  | keep h ih => exact Nat.succ_le_succ ih
  | insert hstale h ih => exact Nat.le_succ_of_le ih

/-- Nothing was put in if the lists are as long. -/
theorem Interspersed.eq_of_length {isStale : Record → Prop}
    (h : Interspersed isStale records records') (hlength : records'.length = records.length) :
    records' = records := by
  induction h with
  | nil => rfl
  | keep h ih => rw [ih (Nat.succ_inj.mp hlength)]
  | insert hstale h ih =>
      have hle := h.length_le
      rw [List.length_cons] at hlength
      omega

theorem Interspersed.mem_iff {isStale : Record → Prop} (h : Interspersed isStale records records') :
    (∀ r ∈ records, r ∈ records') ∧ ∀ r ∈ records', r ∈ records ∨ isStale r := by
  induction h with
  | nil => exact ⟨fun r hr ↦ hr, fun r hr ↦ .inl hr⟩
  | keep h ih => grind
  | insert hstale h ih => grind

/-- What the events give before the first body. -/
def failuresOf (scan : Record → Except Failure (α × ConnectSessionState)) (records : List Record) :
    List Failure :=
  records.filterMap fun record ↦
    match scan record with
    | .ok _ => none
    | .error f => some f

variable {scan : Record → Except Failure (α × ConnectSessionState)}

theorem search_eq_failures (h : ∀ r ∈ records, ∃ f, scan r = .error f) (failures : List Failure) :
    search scan records failures = .error (failures ++ failuresOf scan records) := by
  induction records generalizing failures with
  | nil => simp [search, failuresOf]
  | cons record records ih =>
      obtain ⟨f, hf⟩ := h record List.mem_cons_self
      rw [search, hf]
      simp only
      rw [ih fun r hr ↦ h r (List.mem_cons_of_mem _ hr)]
      simp [failuresOf, hf]

theorem search_eq_ok_of_mem (h : ∃ r ∈ records, ∃ found, scan r = .ok found)
    (failures : List Failure) : ∃ result, search scan records failures = .ok result := by
  induction records generalizing failures with
  | nil => simp at h
  | cons record records ih =>
      rw [search]
      cases hscan : scan record with
      | ok found => exact ⟨_, rfl⟩
      | error f =>
          apply ih
          obtain ⟨r, hr, found, hfound⟩ := h
          obtain rfl | hr := List.mem_cons.mp hr
          · rw [hscan] at hfound
            cases hfound
          · exact ⟨r, hr, found, hfound⟩

/-- Events that fail do not change what is found. -/
theorem search_interspersed {isStale : Record → Prop}
    (hstale : ∀ r, isStale r → ∃ f, scan r = .error f)
    (h : Interspersed isStale records records') {failures : List Failure}
    {result : Record × α × ConnectSessionState} (hsearch : search scan records failures = .ok result)
    (failures' : List Failure) : search scan records' failures' = .ok result := by
  induction h generalizing failures failures' with
  | nil => cases hsearch
  | @keep record records records' h ih =>
      rw [search] at hsearch ⊢
      cases hscan : scan record with
      | ok found =>
          rw [hscan] at hsearch
          exact hsearch
      | error f =>
          rw [hscan] at hsearch
          exact ih hsearch _
  | insert hrecord h ih =>
      obtain ⟨f, hf⟩ := hstale _ hrecord
      rw [search, hf]
      exact ih hsearch _

theorem mem_failuresOf {f : Failure} :
    f ∈ failuresOf scan records ↔ ∃ r ∈ records, scan r = .error f := by
  rw [failuresOf, List.mem_filterMap]
  constructor
  · rintro ⟨r, hr, hf⟩
    refine ⟨r, hr, ?_⟩
    split at hf
    · cases hf
    · rename_i f' hscan
      rw [hscan, Option.some.inj hf]
  · rintro ⟨r, hr, hf⟩
    exact ⟨r, hr, by rw [hf]⟩

/-! ## The texts of the errors -/

def miningText (failures : List Failure) (total : ℕ) : String :=
  "set_mining_keys: found " ++
    toString (failures.count .rekey + failures.count .decrypt + failures.count .bodyParse) ++
    " matching event(s) but none succeeded (total_events=" ++ toString total ++
    ", rekey_fail=" ++ toString (failures.count .rekey) ++
    ", decrypt_fail=" ++ toString (failures.count .decrypt) ++
    ", body_parse_fail=" ++ toString (failures.count .bodyParse) ++ ")"

def responseText (failures : List Failure) (total : ℕ) : String :=
  (if failures.count .decrypt > 0 then "session_desync: " else "") ++
    "challenge_response: found candidates but none succeeded (total_events=" ++
    toString total ++ ", parse_fail=" ++ toString (failures.count .parse) ++
    ", filtered=" ++ toString (failures.count .filtered) ++
    ", rekey_fail=" ++ toString (failures.count .rekey) ++
    ", decrypt_fail=" ++ toString (failures.count .decrypt) ++
    ", body_parse_fail=" ++ toString (failures.count .bodyParse) ++ ")"

/-- A number before something that is no digit can be read off a text. -/
theorem toString_append_injective {a b : ℕ} {x y : String}
    (hx : Json.Compact.NoDigit x.toList) (hy : Json.Compact.NoDigit y.toList)
    (h : toString a ++ x = toString b ++ y) : a = b ∧ x = y := by
  have hprint (n : ℕ) : (toString n).toList = Json.Compact.printNat n := Nat.toList_repr
  have hlists := congrArg String.toList h
  rw [String.toList_append, String.toList_append, hprint, hprint] at hlists
  have hread := Json.Compact.parseNat_printNat a hx
  rw [hlists, Json.Compact.parseNat_printNat b hy] at hread
  obtain ⟨rfl, hrest⟩ := Prod.mk.inj (Option.some.inj hread)
  exact ⟨rfl, String.toList_inj.mp hrest.symm⟩

theorem noDigit_append {x y : String} {c : Char} (hx : x.toList.head? = some c)
    (hc : c.isDigit = false) : Json.Compact.NoDigit (x ++ y).toList := by
  intro c' hc'
  rw [String.toList_append, List.head?_append, hx] at hc'
  obtain rfl := Option.some.inj hc'
  exact hc

/-- The text of an error tells how many events there were. -/
theorem miningText_injective {failures failures' : List Failure} {total total' : ℕ}
    (h : miningText failures total = miningText failures' total') : total = total' := by
  have hmatching (y : String) : Json.Compact.NoDigit
      (" matching event(s) but none succeeded (total_events=" ++ y).toList :=
    noDigit_append (by decide +kernel : _ = some ' ') (by decide)
  have hrekey (y : String) : Json.Compact.NoDigit (", rekey_fail=" ++ y).toList :=
    noDigit_append (by decide +kernel : _ = some ',') (by decide)
  delta miningText at h
  simp only [String.append_assoc] at h
  obtain ⟨-, h⟩ := toString_append_injective (hmatching _) (hmatching _)
    ((String.append_right_inj _).mp h)
  rw [String.append_right_inj] at h
  exact (toString_append_injective (hrekey _) (hrekey _) h).1

theorem responseText_injective {failures failures' : List Failure} {total total' : ℕ}
    (hdecrypt : failures.count .decrypt = failures'.count .decrypt)
    (h : responseText failures total = responseText failures' total') : total = total' := by
  have hparse (y : String) : Json.Compact.NoDigit (", parse_fail=" ++ y).toList :=
    noDigit_append (by decide +kernel : _ = some ',') (by decide)
  rw [responseText, responseText, hdecrypt] at h
  simp only [String.append_assoc, String.append_right_inj] at h
  exact (toString_append_injective (hparse _) (hparse _) h).1

/-! ## The finders -/

theorem any_miningCounts {failures : List Failure} :
    failures.any miningCounts = true ↔
      failures.count .rekey + failures.count .decrypt + failures.count .bodyParse > 0 := by
  have hcount (f : Failure) : 0 < failures.count f ↔ f ∈ failures := List.count_pos_iff
  simp only [gt_iff_lt, Nat.add_pos_iff_pos_or_pos, hcount, List.any_eq_true, miningCounts,
    Bool.or_eq_true, decide_eq_true_eq]
  grind

theorem any_responseCounts {failures : List Failure} :
    failures.any responseCounts = true ↔
      failures.count .parse + failures.count .rekey + failures.count .decrypt +
        failures.count .bodyParse > 0 := by
  have hcount (f : Failure) : 0 < failures.count f ↔ f ∈ failures := List.count_pos_iff
  simp only [gt_iff_lt, Nat.add_pos_iff_pos_or_pos, hcount, List.any_eq_true, responseCounts,
    Bool.or_eq_true, decide_eq_true_eq]
  grind

/-- What a finder answers when no event gives a body. -/
theorem findSetMiningKeysEvent_of_failures {now : UInt64} (hfresh : w.isExpired now = false)
    {failures : List Failure} (h : search (miningScan p sessionId w) records [] = .error failures) :
    findSetMiningKeysEvent p sessionId (some w) now (.ok records) =
      if failures.any miningCounts then .error (miningText failures records.length) else .ok none := by
  rw [miningScan] at h
  simp only [findSetMiningKeysEvent, checkNotExpired, ConnectSessionState.ensureNotExpired, hfresh,
    Except.mapError, Outcome.ok_bind, Bool.false_eq_true, if_false, h]
  simp only [any_miningCounts]
  rfl

theorem findChallengeResponseEvent_of_failures {now : UInt64} (hfresh : w.isExpired now = false)
    (failures : List Failure)
    (h : search (responseScan p sessionId w) records [] = .error failures) :
    findChallengeResponseEvent p sessionId (some w) now (.ok records) =
      if failures.any responseCounts then .error (responseText failures records.length)
      else .ok none := by
  rw [responseScan] at h
  simp only [findChallengeResponseEvent, checkNotExpired, ConnectSessionState.ensureNotExpired,
    hfresh, Except.mapError, Outcome.ok_bind, Bool.false_eq_true, if_false, h]
  simp only [any_responseCounts]
  rfl

/-! ## What a finder sees -/

/-- A finder: what is found if a search finds something, else an error if a
failure counts. -/
structure Finds {β : Type} (find : List Record → Except String (Option β))
    (scan : Record → Except Failure (α × ConnectSessionState)) (counts : Failure → Bool)
    (text : List Failure → ℕ → String) : Prop where
  found : ∀ {result records records'}, search scan records [] = .ok result →
    search scan records' [] = .ok result → find records' = find records
  failed : ∀ {records failures}, search scan records [] = .error failures →
    find records =
      if failures.any counts then .error (text failures records.length) else .ok none
  text_injective : ∀ {failures failures' total total'},
    failures.count .decrypt = failures'.count .decrypt →
      text failures total = text failures' total' → total = total'

variable {counts : Failure → Bool} {isStale : Record → Prop}

theorem any_failuresOf :
    (failuresOf scan records).any counts = true ↔ ∃ r ∈ records, CountsIn counts scan r := by
  rw [List.any_eq_true]
  constructor
  · rintro ⟨f, hf, hcounts⟩
    obtain ⟨r, hr, hscan⟩ := mem_failuresOf.mp hf
    exact ⟨r, hr, f, hscan, hcounts⟩
  · rintro ⟨r, hr, f, hscan, hcounts⟩
    exact ⟨f, mem_failuresOf.mpr ⟨r, hr, hscan⟩, hcounts⟩

/-- No stale event fails to decrypt. -/
theorem count_decrypt_interspersed
    (hstale : ∀ r, isStale r → ∃ f, scan r = .error f ∧ f ≠ .decrypt)
    (h : Interspersed isStale records records') :
    (failuresOf scan records').count .decrypt = (failuresOf scan records).count .decrypt := by
  induction h with
  | nil => rfl
  | @keep record records records' h ih =>
      rw [failuresOf, failuresOf, List.filterMap_cons, List.filterMap_cons]
      cases scan record with
      | ok found => exact ih
      | error f =>
          simp only [List.count_cons]
          exact congrArg (· + _) ih
  | @insert record records records' hrecord h ih =>
      obtain ⟨f, hf, hne⟩ := hstale _ hrecord
      rw [failuresOf, List.filterMap_cons, hf]
      simp only [List.count_cons, beq_iff_eq, hne, if_false, Nat.add_zero]
      exact ih

/-- When a finder answers the same. -/
theorem Finds.eq_iff {β : Type} {find : List Record → Except String (Option β)}
    {text : List Failure → ℕ → String} (hfinds : Finds find scan counts text)
    (hstale : ∀ r, isStale r → ∃ f, scan r = .error f ∧ f ≠ .decrypt)
    (h : Interspersed isStale records records') :
    find records' = find records ↔
      (∃ r ∈ records, ∃ found, scan r = .ok found) ∨ records' = records ∨
        ∀ r ∈ records', ¬CountsIn counts scan r := by
  have hfails : ∀ r, isStale r → ∃ f, scan r = .error f := fun r hr ↦
    (hstale r hr).imp fun f hf ↦ hf.1
  obtain ⟨hsub, hmem⟩ := h.mem_iff
  by_cases hfound : ∃ r ∈ records, ∃ found, scan r = .ok found
  · obtain ⟨result, hresult⟩ := search_eq_ok_of_mem hfound []
    exact iff_of_true (hfinds.found hresult (search_interspersed hfails h hresult []))
      (.inl hfound)
  · have hall : ∀ r ∈ records, ∃ f, scan r = .error f := by
      intro r hr
      cases hscan : scan r with
      | ok found => exact absurd ⟨r, hr, found, hscan⟩ hfound
      | error f => exact ⟨f, rfl⟩
    have hall' : ∀ r ∈ records', ∃ f, scan r = .error f := fun r hr ↦
      (hmem r hr).elim (hall r) (hfails r)
    have hfind := hfinds.failed (search_eq_failures hall [])
    have hfind' := hfinds.failed (search_eq_failures hall' [])
    simp only [List.nil_append] at hfind hfind'
    constructor
    · intro hsame
      by_cases hcounts : ∃ r ∈ records', CountsIn counts scan r
      · refine .inr (.inl (h.eq_of_length ?_))
        rw [if_pos (any_failuresOf.mpr hcounts)] at hfind'
        rw [hfind', hfind] at hsame
        split at hsame
        · exact hfinds.text_injective (count_decrypt_interspersed hstale h) (Except.error.inj hsame)
        · cases hsame
      · exact .inr (.inr fun r hr hr' ↦ hcounts ⟨r, hr, hr'⟩)
    · rintro (hok | rfl | hnone)
      · exact absurd hok hfound
      · rfl
      · have hquiet' : ¬(failuresOf scan records').any counts = true := by
          rw [any_failuresOf]
          rintro ⟨r, hr, hr'⟩
          exact hnone r hr hr'
        have hquiet : ¬(failuresOf scan records).any counts = true := by
          rw [any_failuresOf]
          rintro ⟨r, hr, hr'⟩
          exact hnone r (hsub r hr) hr'
        rw [hfind', hfind, if_neg hquiet', if_neg hquiet]

theorem finds_miningKeys {now : UInt64} (hfresh : w.isExpired now = false) :
    Finds (fun records ↦ findSetMiningKeysEvent p sessionId (some w) now (.ok records))
      (miningScan p sessionId w) miningCounts miningText where
  found h h' := by
    rw [findSetMiningKeysEvent_of_search hfresh h, findSetMiningKeysEvent_of_search hfresh h']
  failed h := findSetMiningKeysEvent_of_failures hfresh h
  text_injective _ h := miningText_injective h

theorem finds_response {now : UInt64} (hfresh : w.isExpired now = false) :
    Finds (fun records ↦ findChallengeResponseEvent p sessionId (some w) now (.ok records))
      (responseScan p sessionId w) responseCounts responseText where
  found h h' := by
    rw [findChallengeResponseEvent_of_search hfresh h,
      findChallengeResponseEvent_of_search hfresh h']
  failed h := findChallengeResponseEvent_of_failures hfresh _ h
  text_injective h h' := responseText_injective h h'

/-- The session has expired, or the keys are found, or nothing was put in, or
nothing counts as a failed candidate: neither an event that was there before nor
a replay that carries a key. -/
def MiningUndisturbed (p : Primitives F) (sessionId : String) (w : ConnectSessionState)
    (now : UInt64) (records records' : List Record) : Prop :=
  w.isExpired now = true ∨ (∃ r ∈ records, ∃ found, miningScan p sessionId w r = .ok found) ∨
    records' = records ∨
    (∀ r ∈ records, ¬CountsIn miningCounts (miningScan p sessionId w) r) ∧
      ∀ r ∈ records', ¬IsKeyedReplay p sessionId "c2w" typeSetMiningKeys w r

/-- The same for a response, where a text that is no envelope counts too. -/
def ResponseUndisturbed (p : Primitives F) (sessionId : String) (w : ConnectSessionState)
    (now : UInt64) (records records' : List Record) : Prop :=
  w.isExpired now = true ∨ (∃ r ∈ records, ∃ found, responseScan p sessionId w r = .ok found) ∨
    records' = records ∨
    (∀ r ∈ records, ¬CountsIn responseCounts (responseScan p sessionId w) r) ∧
      ∀ r ∈ records', ¬IsUnparsable p r ∧
        ¬IsKeyedReplay p sessionId "w2c" typeChallengeResponse w r

theorem isStale_of_isKeyedReplay (h : IsKeyedReplay p sessionId dir msgType w record) :
    IsStale p sessionId dir msgType w record := by
  obtain ⟨e, he, htype, hle, -⟩ := h
  exact .inr (.inr ⟨e, he, htype, hle⟩)

theorem countsIn_mining_iff (h : IsStale p sessionId "c2w" typeSetMiningKeys w record) :
    CountsIn miningCounts (miningScan p sessionId w) record ↔
      IsKeyedReplay p sessionId "c2w" typeSetMiningKeys w record := by
  obtain ⟨f, hf, hdecrypt, hbody, -, hrekey⟩ := scan_of_isStale readMiningKeys h
  rw [← hrekey]
  constructor
  · rintro ⟨f', hf', hcounts⟩
    obtain rfl := Except.error.inj (hf.symm.trans hf')
    simpa [miningCounts, hdecrypt, hbody] using hcounts
  · rintro rfl
    exact ⟨_, hf, by decide⟩

theorem countsIn_response_iff (h : IsStale p sessionId "w2c" typeChallengeResponse w record) :
    CountsIn responseCounts (responseScan p sessionId w) record ↔
      IsUnparsable p record ∨ IsKeyedReplay p sessionId "w2c" typeChallengeResponse w record := by
  obtain ⟨f, hf, hdecrypt, hbody, hparse, hrekey⟩ :=
    scan_of_isStale ChallengeResponseBody.read h
  rw [← hrekey, ← hparse]
  constructor
  · rintro ⟨f', hf', hcounts⟩
    obtain rfl := Except.error.inj (hf.symm.trans hf')
    simpa [responseCounts, hdecrypt, hbody] using hcounts
  · rintro (rfl | rfl)
    all_goals exact ⟨_, hf, by decide⟩

/-- Nothing counts exactly if no old event and no stale one does. -/
theorem forall_not_countsIn_iff {isStale visible : Record → Prop}
    (hcounts : ∀ r, isStale r → (CountsIn counts scan r ↔ visible r))
    (hvisible : ∀ r, visible r → isStale r) (h : Interspersed isStale records records') :
    (∀ r ∈ records', ¬CountsIn counts scan r) ↔
      (∀ r ∈ records, ¬CountsIn counts scan r) ∧ ∀ r ∈ records', ¬visible r := by
  obtain ⟨hsub, hmem⟩ := h.mem_iff
  constructor
  · intro hnone
    exact ⟨fun r hr ↦ hnone r (hsub r hr), fun r hr hv ↦
      hnone r hr ((hcounts r (hvisible r hv)).mpr hv)⟩
  · rintro ⟨hold, hnew⟩ r hr hr'
    obtain hr'' | hstale := hmem r hr
    · exact hold r hr'' hr'
    · exact hnew r hr ((hcounts r hstale).mp hr')

theorem findSetMiningKeysEvent_eq_iff (now : UInt64)
    (h : Interspersed (IsStale p sessionId "c2w" typeSetMiningKeys w) records records') :
    findSetMiningKeysEvent p sessionId (some w) now (.ok records') =
        findSetMiningKeysEvent p sessionId (some w) now (.ok records) ↔
      MiningUndisturbed p sessionId w now records records' := by
  rw [MiningUndisturbed]
  cases hexpired : w.isExpired now with
  | true =>
      refine iff_of_true ?_ (.inl rfl)
      simp [findSetMiningKeysEvent, checkNotExpired, ConnectSessionState.ensureNotExpired, hexpired,
        Except.mapError, Outcome.error_bind]
  | false =>
      have hstale (r : Record) (hr : IsStale p sessionId "c2w" typeSetMiningKeys w r) :
          ∃ f, miningScan p sessionId w r = .error f ∧ f ≠ .decrypt :=
        (scan_of_isStale _ hr).imp fun f hf ↦ ⟨hf.1, hf.2.1⟩
      rw [(finds_miningKeys hexpired).eq_iff hstale h, forall_not_countsIn_iff
        (fun r hr ↦ countsIn_mining_iff hr) (fun r hr ↦ isStale_of_isKeyedReplay hr) h]
      simp

theorem findChallengeResponseEvent_eq_iff (now : UInt64)
    (h : Interspersed (IsStale p sessionId "w2c" typeChallengeResponse w) records records') :
    findChallengeResponseEvent p sessionId (some w) now (.ok records') =
        findChallengeResponseEvent p sessionId (some w) now (.ok records) ↔
      ResponseUndisturbed p sessionId w now records records' := by
  rw [ResponseUndisturbed]
  cases hexpired : w.isExpired now with
  | true =>
      refine iff_of_true ?_ (.inl rfl)
      simp [findChallengeResponseEvent, checkNotExpired, ConnectSessionState.ensureNotExpired,
        hexpired, Except.mapError, Outcome.error_bind]
  | false =>
      have hstale (r : Record) (hr : IsStale p sessionId "w2c" typeChallengeResponse w r) :
          ∃ f, responseScan p sessionId w r = .error f ∧ f ≠ .decrypt :=
        (scan_of_isStale _ hr).imp fun f hf ↦ ⟨hf.1, hf.2.1⟩
      rw [(finds_response hexpired).eq_iff hstale h, forall_not_countsIn_iff
        (fun r hr ↦ countsIn_response_iff hr)
        (fun r hr ↦ hr.elim .inl isStale_of_isKeyedReplay) h]
      simp [not_or]

/-- Stale events are invisible to the finders, and to the polls around them,
exactly as long as they do not disturb them. -/
theorem finders_ignore_stale_iff (p : Primitives F) (sessionId : String) (w : ConnectSessionState) :
    (∀ now records records',
      Interspersed (IsStale p sessionId "c2w" typeSetMiningKeys w) records records' →
      (findSetMiningKeysEvent p sessionId (some w) now (.ok records') =
          findSetMiningKeysEvent p sessionId (some w) now (.ok records) ↔
        MiningUndisturbed p sessionId w now records records')) ∧
    (∀ now records records',
      Interspersed (IsStale p sessionId "w2c" typeChallengeResponse w) records records' →
      (findChallengeResponseEvent p sessionId (some w) now (.ok records') =
          findChallengeResponseEvent p sessionId (some w) now (.ok records) ↔
        ResponseUndisturbed p sessionId w now records records')) ∧
    (∀ (now : ℕ → UInt64) (pages pages' : ℕ → List Record) (maxAttempts : Option UInt32),
      (∀ i, Interspersed (IsStale p sessionId "c2w" typeSetMiningKeys w) (pages i) (pages' i)) →
      (∀ i, MiningUndisturbed p sessionId w (now i) (pages i) (pages' i)) →
      pollUntil id (fun i ↦ findSetMiningKeysEvent p sessionId (some w) (now i) (.ok (pages' i)))
          Option.isSome maxAttempts =
        pollUntil id (fun i ↦ findSetMiningKeysEvent p sessionId (some w) (now i) (.ok (pages i)))
          Option.isSome maxAttempts) ∧
    (∀ (now : ℕ → UInt64) (pages pages' : ℕ → List Record) (maxAttempts : Option UInt32),
      (∀ i, Interspersed (IsStale p sessionId "w2c" typeChallengeResponse w) (pages i)
        (pages' i)) →
      (∀ i, ResponseUndisturbed p sessionId w (now i) (pages i) (pages' i)) →
      pollUntil id
          (fun i ↦ findChallengeResponseEvent p sessionId (some w) (now i) (.ok (pages' i)))
          Option.isSome maxAttempts =
        pollUntil id
          (fun i ↦ findChallengeResponseEvent p sessionId (some w) (now i) (.ok (pages i)))
          Option.isSome maxAttempts) := by
  refine ⟨fun now records records' h ↦ findSetMiningKeysEvent_eq_iff now h,
    fun now records records' h ↦ findChallengeResponseEvent_eq_iff now h, ?_, ?_⟩
  · intro now pages pages' maxAttempts h hundisturbed
    apply pollUntil_congr
    intro i
    exact (findSetMiningKeysEvent_eq_iff (now i) (h i)).mpr (hundisturbed i)
  · intro now pages pages' maxAttempts h hundisturbed
    apply pollUntil_congr
    intro i
    exact (findChallengeResponseEvent_eq_iff (now i) (h i)).mpr (hundisturbed i)

/-! ## Two stale events -/

def garbage : Record := ⟨"event", 0, "no envelope", 1700000003⟩

/-- A request for keys with the number 1 and a key. -/
def oldRequest : Record :=
  ⟨"event", 0, "\x7b\"v\":\"bee_connect.msg/1\",\"session_id\":\"session-1\",\"dir\":\"c2w\"," ++
    "\"seq\":1,\"type\":\"set_mining_keys\",\"dh_public\":\"00\",\"body\":null\x7d", 1700000003⟩

theorem isUnparsable_garbage : IsUnparsable examplePrimitives garbage := by
  have h : (Json.Compact.serde.fromStr ConnectMessageEnvelope.read garbage.text).isNone = true := by
    decide +kernel
  exact Option.isNone_iff_eq_none.mp h

theorem isKeyedReplay_oldRequest :
    IsKeyedReplay examplePrimitives "session-1" "c2w" typeSetMiningKeys exampleWallet oldRequest := by
  have h : ((Json.Compact.serde.fromStr ConnectMessageEnvelope.read oldRequest.text).map fun e ↦
      decide (isOfType "session-1" "c2w" typeSetMiningKeys e ∧ e.seq ≤ exampleWallet.lastSeenSeq ∧
        e.dhPublic.isSome)) = some true := by decide +kernel
  obtain ⟨e, he, hshape⟩ := Option.map_eq_some_iff.mp h
  exact ⟨e, he, of_decide_eq_true hshape⟩

/-- Garbage does not disturb the finder for mining keys. -/
theorem finders_ignore_stale_garbage :
    findSetMiningKeysEvent examplePrimitives "session-1" (some exampleWallet) 1700000003
        (.ok [garbage]) =
      findSetMiningKeysEvent examplePrimitives "session-1" (some exampleWallet) 1700000003
        (.ok []) := by
  obtain ⟨hmining, -⟩ := finders_ignore_stale_iff examplePrimitives "session-1" exampleWallet
  refine (hmining 1700000003 [] [garbage] (.insert (.inl isUnparsable_garbage) .nil)).mpr ?_
  refine .inr (.inr (.inr ⟨nofun, List.forall_mem_singleton.mpr ?_⟩))
  rintro ⟨e, he, -⟩
  rw [isUnparsable_garbage] at he
  cases he

/-- A first page, and then the page with a response. -/
def pagesFrom (first : List Record) : ℕ → List Record
  | 0 => first
  | _ + 1 => exampleRecords [exampleSent "w2c" typeChallengeResponse answerBody]

/-- An old request turns nothing into an error, and so does garbage where a
response is awaited: the poll ends although the response arrives. -/
theorem not_finders_ignore_stale :
    (∃ records', Interspersed
        (IsStale examplePrimitives "session-1" "c2w" typeSetMiningKeys exampleWallet) [] records' ∧
      findSetMiningKeysEvent examplePrimitives "session-1" (some exampleWallet) 1700000003
        (.ok records') ≠
      findSetMiningKeysEvent examplePrimitives "session-1" (some exampleWallet) 1700000003
        (.ok [])) ∧
    ∃ pages pages' : ℕ → List Record,
      (∀ i, Interspersed
        (IsStale examplePrimitives "session-1" "w2c" typeChallengeResponse exampleWallet)
        (pages i) (pages' i)) ∧
      (∃ found, (pollUntil id (fun i ↦ findChallengeResponseEvent examplePrimitives "session-1"
        (some exampleWallet) 1700000003 (.ok (pages i))) Option.isSome none).1 =
          .ok (some found)) ∧
      ∃ error, (pollUntil id (fun i ↦ findChallengeResponseEvent examplePrimitives "session-1"
        (some exampleWallet) 1700000003 (.ok (pages' i))) Option.isSome none).1 = .error error := by
  have hfresh : exampleWallet.isExpired 1700000003 = false := isExpired_exampleState (by decide)
  have hgarbage : IsStale examplePrimitives "session-1" "w2c" typeChallengeResponse exampleWallet
      garbage := .inl isUnparsable_garbage
  refine ⟨⟨[oldRequest], .insert (isStale_of_isKeyedReplay isKeyedReplay_oldRequest) .nil, ?_⟩, ?_⟩
  · rw [ne_eq, findSetMiningKeysEvent_eq_iff 1700000003
      (.insert (isStale_of_isKeyedReplay isKeyedReplay_oldRequest) .nil), MiningUndisturbed, hfresh]
    rintro (hexpired | ⟨r, hr, -⟩ | heq | ⟨-, hnone⟩)
    · cases hexpired
    · cases hr
    · cases heq
    · exact hnone oldRequest List.mem_cons_self isKeyedReplay_oldRequest
  · -- The response is there at the second attempt.
    have hanswer : ∃ b, ChallengeResponseBody.read answerBody = some b := ⟨_, rfl⟩
    have hpresented := presented_exampleSent "w2c" typeChallengeResponse answerBody hanswer
    obtain ⟨found, hfound, -⟩ := (findsResponse_iff hpresented).mpr (.inr ⟨_, [], rfl, rfl⟩) []
      (exampleSent "w2c" typeChallengeResponse answerBody) [] ⟨rfl, rfl, nofun⟩
    have hnone : findChallengeResponseEvent examplePrimitives "session-1" (some exampleWallet)
        1700000003 (.ok []) = .ok none :=
      findChallengeResponseEvent_of_failures hfresh [] rfl
    have herror : findChallengeResponseEvent examplePrimitives "session-1" (some exampleWallet)
        1700000003 (.ok [garbage]) = .error (responseText [.parse] 1) := by
      refine findChallengeResponseEvent_of_failures hfresh [.parse] ?_
      rw [search, responseScan, scan_of_isUnparsable isUnparsable_garbage]
      rfl
    refine ⟨pagesFrom [], pagesFrom [garbage], fun i ↦ ?_, ⟨found, ?_⟩, _,
      pollUntil_eq_error herror⟩
    · cases i with
      | zero => exact .insert hgarbage .nil
      | succ i => exact .keep .nil
    · exact pollUntil_eq_second hnone rfl hfound rfl

end StaleEvents

end BeeEngine
