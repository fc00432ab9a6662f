import BeeEngine.SessionReader

/-!
# Finding one type of message

`find_set_mining_keys_event` and `find_challenge_response_event` of
`bee_connect`.  Both look only at messages of their type, and re-key each of
them from the state that they were called with.
-/

namespace BeeEngine

open ConnectMessage WalletMessage Dh Ratchet MessageChain SessionMessages SessionReader
open Json (Value)

namespace MessageFinders

variable {F α : Type}

/-! ## The search -/

/-- Why an event is passed over. -/
inductive Failure where
  | parse
  | filtered
  | noKey
  | rekey
  | decrypt
  | bodyParse
  deriving DecidableEq, Repr

/-- Re-key with a matching envelope and read its body. -/
def openEvent (p : Primitives F) (sessionId : String) (state : Option ConnectSessionState)
    (readBody : Value F → Option α) (envelope : ConnectMessageEnvelope F) (now : UInt64) :
    Except Failure (α × ConnectSessionState) :=
  match state, envelope.dhPublic with
  | some state, some peerDhPub =>
      match rekeyInbound p.crypto state peerDhPub sessionId envelope.seq now with
      | .error _ => .error .rekey
      | .ok rekey =>
          match ConnectMessage.decodeConnectMessageBody p envelope
              (some rekey.messageEncryptionRoot) with
          | .ok (some body) =>
              match readBody body with
              | none => .error .bodyParse
              | some found => .ok (found, rekey.updatedState)
          | _ => .error .decrypt
  | _, _ => .error .noKey

def isOfType (sessionId dir msgType : String) (envelope : ConnectMessageEnvelope F) : Prop :=
  envelope.v = connectMessageVersion ∧ envelope.sessionId = sessionId ∧ envelope.dir = dir ∧
    envelope.msgType = msgType

instance (sessionId dir msgType : String) (envelope : ConnectMessageEnvelope F) :
    Decidable (isOfType sessionId dir msgType envelope) :=
  inferInstanceAs (Decidable (_ ∧ _ ∧ _ ∧ _))

def scan (p : Primitives F) (sessionId dir msgType : String) (state : Option ConnectSessionState)
    (readBody : Value F → Option α) (record : Record) : Except Failure (α × ConnectSessionState) :=
  match p.serde.fromStr ConnectMessageEnvelope.read record.text with
  | none => .error .parse
  | some envelope =>
      if isOfType sessionId dir msgType envelope then
        openEvent p sessionId state readBody envelope record.now
      else .error .filtered

/-- The first event that gives a body, or why there is none. -/
def search (scan : Record → Except Failure (α × ConnectSessionState)) :
    List Record → List Failure → Except (List Failure) (Record × α × ConnectSessionState)
  | [], failures => .error failures
  | record :: rest, failures =>
      match scan record with
      | .ok found => .ok (record, found)
      | .error failure => search scan rest (failures ++ [failure])

def checkNotExpired (context : String) (state : Option ConnectSessionState) (now : UInt64) :
    Except String Unit :=
  match state with
  | some state => (state.ensureNotExpired now).mapError fun e ↦ context ++ ": " ++ e
  | none => .ok ()

/-! ## The finders -/

structure SetMiningKeysFound where
  eventId : String
  eventCreatedAt : UInt64
  appId : String
  ownerPublic : String
  rawMessageJson : String
  updatedSessionState : Option ConnectSessionState
  deriving DecidableEq, Repr

structure ChallengeResponseFound where
  eventId : String
  eventCreatedAt : UInt64
  nonce : String
  signature : String
  walletAddress : String
  epkPublic : Option String
  rawMessageJson : String
  updatedSessionState : Option ConnectSessionState
  deriving DecidableEq, Repr

def readMiningKeys (body : Value F) : Option SetMiningKeysMessageBody :=
  (SetMiningKeysMessageBody.read body).bind normalizeMiningKeys

/-- The events are what the chain answers. -/
def findSetMiningKeysEvent (p : Primitives F) (sessionId : String)
    (sessionState : Option ConnectSessionState) (now : UInt64)
    (events : Except String (List Record)) : Except String (Option SetMiningKeysFound) := do
  checkNotExpired "find_set_mining_keys_event" sessionState now
  let records ← events
  match search (scan p sessionId "c2w" typeSetMiningKeys sessionState readMiningKeys) records [] with
  | .ok (record, body, state) =>
      return some ⟨record.eventId, record.createdAt, body.appId, body.ownerPublic, record.text,
        some state⟩
  | .error failures =>
      let failedCandidates :=
        failures.count .rekey + failures.count .decrypt + failures.count .bodyParse
      if failedCandidates > 0 then
        throw ("set_mining_keys: found " ++ toString failedCandidates ++
          " matching event(s) but none succeeded (total_events=" ++ toString records.length ++
          ", rekey_fail=" ++ toString (failures.count .rekey) ++
          ", decrypt_fail=" ++ toString (failures.count .decrypt) ++
          ", body_parse_fail=" ++ toString (failures.count .bodyParse) ++ ")")
      else return none

/-- A text that is no envelope counts as a candidate here. -/
def findChallengeResponseEvent (p : Primitives F) (sessionId : String)
    (sessionState : Option ConnectSessionState) (now : UInt64)
    (events : Except String (List Record)) : Except String (Option ChallengeResponseFound) := do
  checkNotExpired "find_challenge_response_event" sessionState now
  let records ← events
  match search (scan p sessionId "w2c" typeChallengeResponse sessionState ChallengeResponseBody.read)
      records [] with
  | .ok (record, body, state) =>
      return some ⟨record.eventId, record.createdAt, body.nonce, body.signature,
        body.walletAddress, body.epkPublic, record.text, some state⟩
  | .error failures =>
      if failures.count .parse + failures.count .rekey + failures.count .decrypt +
          failures.count .bodyParse > 0 then
        throw ((if failures.count .decrypt > 0 then "session_desync: " else "") ++
          "challenge_response: found candidates but none succeeded (total_events=" ++
          toString records.length ++ ", parse_fail=" ++ toString (failures.count .parse) ++
          ", filtered=" ++ toString (failures.count .filtered) ++
          ", rekey_fail=" ++ toString (failures.count .rekey) ++
          ", decrypt_fail=" ++ toString (failures.count .decrypt) ++
          ", body_parse_fail=" ++ toString (failures.count .bodyParse) ++ ")")
      else return none

/-! ## What is claimed -/

/-- A chain that is presented in order to a receiver that mirrors its sender and
whose session has not expired; the bodies of the wanted type can be read. -/
structure Presented (p : Primitives F) (sessionId dir msgType : String)
    (readBody : Value F → Option α) (a b w : ConnectSessionState) (ms : List (Sent F))
    (records : List Record) (now : UInt64) : Prop where
  chain : Chain p sessionId dir a ms b
  mirror : Mirror p.crypto a w
  ideal : IdealFor p sessionId w ms (ms.map Sent.text)
  texts : records.map Record.text = ms.map Sent.text
  fresh : w.isExpired now = false
  freshAt : ∀ record ∈ records, w.isExpired record.now = false
  bodies : ∀ m ∈ ms, m.header.msgType = msgType → ∃ found, readBody m.body = some found

/-- The first message of a type. -/
structure IsFirst (msgType : String) (ms before : List (Sent F)) (m : Sent F)
    (after : List (Sent F)) : Prop where
  eq : ms = before ++ m :: after
  ofType : m.header.msgType = msgType
  none_before : ∀ m' ∈ before, m'.header.msgType ≠ msgType

/-- The state mirrors that of the sender after `k` messages. -/
def IsStateAt (p : Primitives F) (sessionId dir : String) (a b : ConnectSessionState)
    (ms : List (Sent F)) (k : ℕ) (state : Option ConnectSessionState) : Prop :=
  ∃ s, state = some s ∧ ∃ d, SentUpTo p sessionId dir a ms k b d ∧ Mirror p.crypto d s

/-- The first response is found, with the state after it. -/
def FindsResponse (p : Primitives F) (sessionId : String) (a b w : ConnectSessionState)
    (ms : List (Sent F)) (records : List Record) (now : UInt64) : Prop :=
  ∀ before m after, IsFirst typeChallengeResponse ms before m after → ∃ found,
    findChallengeResponseEvent p sessionId (some w) now (.ok records) = .ok (some found) ∧
      ChallengeResponseBody.read m.body =
        some ⟨found.nonce, found.signature, found.walletAddress, found.epkPublic⟩ ∧
      IsStateAt p sessionId "w2c" a b ms (before.length + 1) found.updatedSessionState

/-- The wallet's query over these events gives the keys and the state. -/
def QueryAgrees (p : Primitives F) (sessionId : String) (w : ConnectSessionState)
    (records : List Record) (found : SetMiningKeysFound) : Prop :=
  ∀ description profileAddress cursor, Text.isBlank description = false → ∃ result msg,
    querySessionMessages p ⟨sessionId, description, some w⟩
      ⟨.ok profileAddress, true, .ok (records, cursor)⟩ = .ok result ∧ msg ∈ result.messages ∧
      msg.setMiningKeys = some ⟨found.appId, found.ownerPublic⟩ ∧
      msg.sessionStateAfter = found.updatedSessionState

/-- The first request for keys is found, with the state after it. -/
def FindsMiningKeys (p : Primitives F) (sessionId : String) (a b w : ConnectSessionState)
    (ms : List (Sent F)) (records : List Record) (now : UInt64) : Prop :=
  ∀ before m after, IsFirst typeSetMiningKeys ms before m after → ∃ found,
    findSetMiningKeysEvent p sessionId (some w) now (.ok records) = .ok (some found) ∧
      readMiningKeys m.body = some ⟨found.appId, found.ownerPublic⟩ ∧
      IsStateAt p sessionId "c2w" a b ms (before.length + 1) found.updatedSessionState ∧
      QueryAgrees p sessionId w records found

/-- No message is of the type, or the first one is. -/
def NoneBefore (msgType : String) (ms : List (Sent F)) : Prop :=
  (∀ m ∈ ms, m.header.msgType ≠ msgType) ∨ ∃ m rest, ms = m :: rest ∧ m.header.msgType = msgType

/-! ## One event -/

variable {p : Primitives F} {sessionId dir msgType : String} {secret root : Bytes32}
  {w : ConnectSessionState} {ls : List (Link F)} {readBody : Value F → Option α}

/-- What an envelope that gives a body went through. -/
theorem of_openEvent_eq_ok {e : ConnectMessageEnvelope F} {now : UInt64} {found : α}
    {s : ConnectSessionState}
    (h : openEvent p sessionId (some w) readBody e now = .ok (found, s)) :
    ∃ dh rekey body, e.dhPublic = some dh ∧
      rekeyInbound p.crypto w dh sessionId e.seq now = .ok rekey ∧
      openBody p e e.sessionId rekey.messageEncryptionRoot = .ok body ∧
      readBody body = some found ∧ s = rekey.updatedState := by
  cases hdh : e.dhPublic with
  | none =>
      simp only [openEvent, hdh] at h
      cases h
  | some dh =>
      simp only [openEvent, hdh] at h
      split at h
      · cases h
      · rename_i rekey hrekey
        split at h
        · rename_i body hbody
          split at h
          · cases h
          · rename_i found' hfound
            obtain ⟨rfl, rfl⟩ := Prod.mk.inj (Except.ok.inj h)
            obtain ⟨-, key, hkey, hopen⟩ := decodeConnectMessageBody_eq_ok_some_iff.mp hbody
            obtain ⟨k, hk⟩ := exists_hex_of_rekeyInbound hrekey
            rw [hk, trimSecret_of_decodeEncryptionSecret (decodeEncryptionSecret_hex k)] at hkey
            rw [← Option.some.inj hkey, ← hk] at hopen
            exact ⟨dh, rekey, body, rfl, hrekey, hopen, hfound, rfl⟩
        · cases h

/-- An envelope whose body opens with the re-keyed root gives it. -/
theorem openEvent_eq_ok {e : ConnectMessageEnvelope F} {now : UInt64} {dh : String}
    {rekey : RekeyResult} {body : Value F} {found : α} (hdh : e.dhPublic = some dh)
    (hrekey : rekeyInbound p.crypto w dh sessionId e.seq now = .ok rekey)
    (halg : algOf e = encXchacha20poly1305HkdfSha256)
    (hopen : openBody p e e.sessionId rekey.messageEncryptionRoot = .ok body)
    (hfound : readBody body = some found) :
    openEvent p sessionId (some w) readBody e now = .ok (found, rekey.updatedState) := by
  obtain ⟨k, hk⟩ := exists_hex_of_rekeyInbound hrekey
  have hbody : ConnectMessage.decodeConnectMessageBody p e (some rekey.messageEncryptionRoot) =
      .ok (some body) := by
    refine decodeConnectMessageBody_eq_ok_some_iff.mpr ⟨halg, _, ?_, hopen⟩
    rw [hk]
    exact trimSecret_of_decodeEncryptionSecret (decodeEncryptionSecret_hex k)
  simp only [openEvent, hdh, hrekey, hbody, hfound]

theorem of_scan_eq_ok {record : Record} {found : α} {s : ConnectSessionState}
    (h : scan p sessionId dir msgType (some w) readBody record = .ok (found, s)) :
    ∃ e, p.serde.fromStr ConnectMessageEnvelope.read record.text = some e ∧
      isOfType sessionId dir msgType e ∧
      openEvent p sessionId (some w) readBody e record.now = .ok (found, s) := by
  rw [scan] at h
  split at h
  · cases h
  · rename_i e he
    split at h
    · rename_i htype
      exact ⟨e, he, htype, h⟩
    · cases h

/-- The first message of a chain is found if it is of the type. -/
theorem scan_sent_head {l : Link F}
    (hlinked : Linked p sessionId dir secret root w.lastSeenSeq (l :: ls))
    (hsecret : w.myDhSecret = secret.hex) (hroot : w.encryptionRoot = root.hex)
    (htype : l.header.msgType = msgType) {found : α} (hfound : readBody l.body = some found)
    {record : Record} (htext : record.text = (l.sent p.serde).text)
    (hexpired : w.isExpired record.now = false) :
    scan p sessionId dir msgType (some w) readBody record = .ok (found, advance w l) := by
  have hlink := hlinked.1
  have hrekey : rekeyInbound p.crypto w l.dhPublic.hex sessionId l.header.seq record.now =
      .ok ⟨l.root.hex, none, advance w l, 0⟩ := by
    have h := hlinked.rekeyInbound hsecret hroot (i := 0) rfl hexpired
    rwa [stateAfter_zero] at h
  have hmatch : isOfType sessionId dir msgType
      (envelopeOf l.header l.sealedBody (some l.dhPublic.hex) : ConnectMessageEnvelope F) :=
    ⟨rfl, hlink.session, hlink.dir, htype⟩
  have hopen := hlink.openBody_sent
  rw [← hmatch.2.1] at hopen
  rw [scan, htext, fromStr_sent]
  simp only [if_pos hmatch]
  have hrekey' : rekeyInbound p.crypto w l.dhPublic.hex sessionId
      (envelopeOf l.header l.sealedBody (some l.dhPublic.hex) : ConnectMessageEnvelope F).seq
      record.now = .ok ⟨l.root.hex, none, advance w l, 0⟩ := hrekey
  exact openEvent_eq_ok rfl hrekey' rfl hopen hfound

/-- No message is found if the first one of the chain is of another type. -/
theorem scan_sent_of_ne (hlinked : Linked p sessionId dir secret root w.lastSeenSeq ls)
    (hsecret : w.myDhSecret = secret.hex) (hroot : w.encryptionRoot = root.hex)
    (hideal : Ideal p sessionId secret root (ls.map (Link.sent p.serde))
      ((ls.map (Link.sent p.serde)).map Sent.text))
    (hhead : ∀ l, ls.head? = some l → l.header.msgType ≠ msgType) {record : Record} {l : Link F}
    (hl : l ∈ ls) (htext : record.text = (l.sent p.serde).text) :
    ∃ failure, scan p sessionId dir msgType (some w) readBody record = .error failure := by
  cases hscan : scan p sessionId dir msgType (some w) readBody record with
  | error failure => exact ⟨failure, rfl⟩
  | ok result =>
      obtain ⟨e, he, htype, hopened⟩ := of_scan_eq_ok hscan
      obtain ⟨dh, rekey, body, hdh, hrekey, hopen, -, -⟩ := of_openEvent_eq_ok hopened
      rw [htype.2.1] at hopen
      rw [htext, fromStr_sent] at he
      obtain rfl := Option.some.inj he
      obtain rfl := Option.some.inj hdh
      rw [← stateAfter_zero w ls] at hrekey
      have hmem : (l.sent p.serde).text ∈ (ls.map (Link.sent p.serde)).map Sent.text :=
        List.mem_map_of_mem (List.mem_map_of_mem hl)
      obtain ⟨l', hl', -, hheader, -, -⟩ := hlinked.of_openBody hsecret hroot hideal (Nat.zero_le _)
        hmem (dhPublicOf_sent p.serde l) hrekey (fromStr_sent l) hopen
      obtain ⟨-, -, -, hsame, -⟩ := ConnectMessageEnvelope.header?_eq_some_iff.mp hheader
      rw [← List.head?_eq_getElem?] at hl'
      exact absurd (hsame.symm.trans htype.2.2.2) (hhead l' hl')

/-! ## All events -/

theorem search_eq_ok {scan : Record → Except Failure (α × ConnectSessionState)} {record : Record}
    {rest : List Record} {found : α × ConnectSessionState} (h : scan record = .ok found)
    (failures : List Failure) :
    search scan (record :: rest) failures = .ok (record, found) := by
  rw [search, h]

theorem search_append {scan : Record → Except Failure (α × ConnectSessionState)}
    {before : List Record} (h : ∀ record ∈ before, ∃ failure, scan record = .error failure)
    (records : List Record) (failures : List Failure) :
    ∃ failures', search scan (before ++ records) failures = search scan records failures' := by
  induction before generalizing failures with
  | nil => exact ⟨failures, rfl⟩
  | cons record before ih =>
      obtain ⟨failure, hfailure⟩ := h record List.mem_cons_self
      rw [List.cons_append, search, hfailure]
      exact ih (fun record hrecord ↦ h record (List.mem_cons_of_mem _ hrecord)) _

theorem search_eq_error {scan : Record → Except Failure (α × ConnectSessionState)}
    {records : List Record} (h : ∀ record ∈ records, ∃ failure, scan record = .error failure)
    (failures : List Failure) : ∃ failures', search scan records failures = .error failures' := by
  obtain ⟨failures', hsearch⟩ := search_append h [] failures
  rw [List.append_nil] at hsearch
  exact ⟨failures', hsearch⟩

theorem findSetMiningKeysEvent_of_search {now : UInt64} (hfresh : w.isExpired now = false)
    {records : List Record} {record : Record} {body : SetMiningKeysMessageBody}
    {s : ConnectSessionState}
    (h : search (scan p sessionId "c2w" typeSetMiningKeys (some w) readMiningKeys) records [] =
      .ok (record, body, s)) :
    findSetMiningKeysEvent p sessionId (some w) now (.ok records) =
      .ok (some ⟨record.eventId, record.createdAt, body.appId, body.ownerPublic, record.text,
        some s⟩) := by
  simp only [findSetMiningKeysEvent, checkNotExpired, ConnectSessionState.ensureNotExpired, hfresh,
    Except.mapError, Outcome.ok_bind, Bool.false_eq_true, if_false, h]
  rfl

theorem search_of_findSetMiningKeysEvent {now : UInt64} {records : List Record}
    {found : SetMiningKeysFound}
    (h : findSetMiningKeysEvent p sessionId (some w) now (.ok records) = .ok (some found)) :
    ∃ r, search (scan p sessionId "c2w" typeSetMiningKeys (some w) readMiningKeys) records [] =
      .ok r := by
  obtain ⟨⟨⟩, -, h⟩ := Outcome.bind_eq_ok_iff.mp h
  rw [Outcome.ok_bind] at h
  split at h
  · rename_i r hr
    exact ⟨_, hr⟩
  · dsimp only at h
    split at h <;> cases h

theorem findChallengeResponseEvent_of_search {now : UInt64} (hfresh : w.isExpired now = false)
    {records : List Record} {record : Record} {body : ChallengeResponseBody}
    {s : ConnectSessionState}
    (h : search (scan p sessionId "w2c" typeChallengeResponse (some w) ChallengeResponseBody.read)
      records [] = .ok (record, body, s)) :
    findChallengeResponseEvent p sessionId (some w) now (.ok records) =
      .ok (some ⟨record.eventId, record.createdAt, body.nonce, body.signature, body.walletAddress,
        body.epkPublic, record.text, some s⟩) := by
  simp only [findChallengeResponseEvent, checkNotExpired, ConnectSessionState.ensureNotExpired,
    hfresh, Except.mapError, Outcome.ok_bind, Bool.false_eq_true, if_false, h]
  rfl

theorem search_of_findChallengeResponseEvent {now : UInt64} {records : List Record}
    {found : ChallengeResponseFound}
    (h : findChallengeResponseEvent p sessionId (some w) now (.ok records) = .ok (some found)) :
    ∃ r, search (scan p sessionId "w2c" typeChallengeResponse (some w) ChallengeResponseBody.read)
      records [] = .ok r := by
  obtain ⟨⟨⟩, -, h⟩ := Outcome.bind_eq_ok_iff.mp h
  rw [Outcome.ok_bind] at h
  split at h
  · rename_i r hr
    exact ⟨_, hr⟩
  · split at h <;> cases h

/-! ## A chain -/

namespace Presented

variable {a b : ConnectSessionState} {ms : List (Sent F)} {records : List Record} {now : UInt64}

/-- The links of the chain. -/
theorem exists_links (h : Presented p sessionId dir msgType readBody a b w ms records now) :
    ∃ (secret root : Bytes32) (ls : List (Link F)), w.myDhSecret = secret.hex ∧
      w.encryptionRoot = root.hex ∧ ms = ls.map (Link.sent p.serde) ∧
      Linked p sessionId dir secret root w.lastSeenSeq ls ∧
      Ideal p sessionId secret root ms (ms.map Sent.text) ∧
      ∀ k ≤ ls.length, IsStateAt p sessionId dir a b ms k (some (stateAfter w ls k)) := by
  obtain ⟨secret, root, hsecret, hroot, hideal⟩ := h.ideal
  obtain ⟨ls, hms, hlinked, hprefix⟩ :=
    MessageChain.exists_links hideal.agrees h.chain h.mirror hsecret hroot
  exact ⟨secret, root, ls, hsecret, hroot, hms, hlinked, hideal, fun k hk ↦
    ⟨_, rfl, hprefix k hk⟩⟩

/-- The first message is found if it is of the type. -/
theorem search_head (h : Presented p sessionId dir msgType readBody a b w ms records now)
    {m : Sent F} {rest : List (Sent F)} (hms : ms = m :: rest) (htype : m.header.msgType = msgType) :
    ∃ record found s, search (scan p sessionId dir msgType (some w) readBody) records [] =
      .ok (record, found, s) ∧ readBody m.body = some found ∧
        IsStateAt p sessionId dir a b ms 1 (some s) ∧
        ∃ (secret root : Bytes32) (l : Link F) (ls : List (Link F)) (records' : List Record),
          w.myDhSecret = secret.hex ∧ w.encryptionRoot = root.hex ∧
          Linked p sessionId dir secret root w.lastSeenSeq (l :: ls) ∧ m = l.sent p.serde ∧
          records = record :: records' ∧ record.text = m.text ∧ s = advance w l := by
  obtain ⟨secret, root, ls, hsecret, hroot, hlinks, hlinked, -, hstates⟩ := h.exists_links
  rw [hlinks] at hms
  cases ls with
  | nil => cases hms
  | cons l ls =>
      obtain ⟨rfl, -⟩ := List.cons.inj hms
      have htexts := h.texts
      rw [hlinks] at htexts
      cases records with
      | nil => cases htexts
      | cons record records' =>
          obtain ⟨htext, -⟩ := List.cons.inj htexts
          have hmem : l.sent p.serde ∈ ms := by
            rw [hlinks]
            exact List.mem_cons_self
          obtain ⟨found, hfound⟩ := h.bodies _ hmem htype
          have hstate : stateAfter w (l :: ls) 1 = advance w l := by
            rw [stateAfter_succ (i := 0) rfl, stateAfter_zero]
          have hscan := scan_sent_head hlinked hsecret hroot htype hfound htext
            (h.freshAt record List.mem_cons_self)
          exact ⟨record, found, advance w l, search_eq_ok hscan [], hfound,
            hstate ▸ hstates 1 (Nat.succ_le_succ (Nat.zero_le _)), secret, root, l, ls, records',
              hsecret,
            hroot, hlinked, rfl, rfl, htext, rfl⟩

/-- Nothing is found if the first message is of another type. -/
theorem search_of_ne (h : Presented p sessionId dir msgType readBody a b w ms records now)
    (hhead : ∀ m, ms.head? = some m → m.header.msgType ≠ msgType) :
    ∃ failures, search (scan p sessionId dir msgType (some w) readBody) records [] =
      .error failures := by
  obtain ⟨secret, root, ls, hsecret, hroot, rfl, hlinked, hideal, -⟩ := h.exists_links
  refine search_eq_error ?_ []
  intro record hrecord
  have hmem : record.text ∈ (ls.map (Link.sent p.serde)).map Sent.text := by
    rw [← h.texts]
    exact List.mem_map_of_mem hrecord
  obtain ⟨m, hm, htext⟩ := List.mem_map.mp hmem
  obtain ⟨l, hl, rfl⟩ := List.mem_map.mp hm
  refine scan_sent_of_ne hlinked hsecret hroot hideal ?_ hl htext.symm
  intro l' hl'
  apply hhead (l'.sent p.serde)
  rw [List.head?_map, hl']
  rfl

end Presented

/-! ## The query over the same events -/

theorem querySessionMessages_of_records (p : Primitives F) (w : ConnectSessionState)
    (profileAddress : String) (records : List Record) (cursor : Option String)
    {description : String} (hsession : Text.isBlank sessionId = false)
    (hdescription : Text.isBlank description = false) :
    ∃ result, querySessionMessages p ⟨sessionId, description, some w⟩
      ⟨.ok profileAddress, true, .ok (records, cursor)⟩ = .ok result ∧
        result.messages =
          (records.foldl (processRecord p sessionId) ⟨some w, false, []⟩).messages := by
  rw [querySessionMessages, validateSessionMessageParams]
  simp only [hsession, hdescription, Outcome.ok_bind, Bool.false_eq_true, Bool.true_eq_false,
    if_false]
  exact ⟨_, rfl, rfl⟩

/-- The query accepts the first message with the keys of its body. -/
theorem queryAgrees_of_head {l : Link F}
    (hlinked : Linked p sessionId "c2w" secret root w.lastSeenSeq (l :: ls))
    (hsecret : w.myDhSecret = secret.hex) (hroot : w.encryptionRoot = root.hex)
    (hsession : IsTrimmed sessionId) (htype : l.header.msgType = typeSetMiningKeys)
    {record : Record} {records : List Record} (htext : record.text = (l.sent p.serde).text)
    (hexpired : w.isExpired record.now = false) {found : SetMiningKeysFound}
    (hkeys : readMiningKeys l.body = some ⟨found.appId, found.ownerPublic⟩)
    (hstate : found.updatedSessionState = some (advance w l)) :
    QueryAgrees p sessionId w (record :: records) found := by
  intro description profileAddress cursor hdescription
  have haccept := acceptWithRekey_sent hlinked hsecret hroot hsession (i := 0) rfl htext hexpired
  rw [stateAfter_zero, stateAfter_succ (i := 0) rfl, stateAfter_zero] at haccept
  obtain ⟨result, hresult, hmessages⟩ := querySessionMessages_of_records p w profileAddress
    (record :: records) cursor hsession.1 hdescription
  refine ⟨result, { messageOf p.serde (l.sent p.serde).text
    (envelopeOf l.header l.sealedBody (some l.dhPublic.hex)) (some l.body) record.eventId
    record.createdAt with sessionStateAfter := some (advance w l) }, hresult, ?_, ?_, hstate.symm⟩
  · rw [hmessages, List.foldl_cons]
    apply mem_foldl_of_mem
    rw [processRecord, Option.bind_some, haccept]
    exact List.mem_append_right _ List.mem_cons_self
  · exact (setMiningKeys_setTypedBody htype).trans hkeys

/-- The query reads no message of a session whose id has white space around it. -/
theorem isTrimmed_of_queryAgrees {records : List Record} {found : SetMiningKeysFound}
    (htexts : ∀ record ∈ records, ∃ l : Link F, l.header.sessionId = sessionId ∧
      record.text = (l.sent p.serde).text)
    (h : QueryAgrees p sessionId w records found) : IsTrimmed sessionId := by
  obtain ⟨result, msg, hresult, hmsg, -, -⟩ := h "description" "" none (by decide)
  obtain ⟨events, cursor, hpage, l, rfl, hmessages, -⟩ := querySessionMessages_eq_ok hresult rfl
  obtain ⟨rfl, -⟩ := Prod.mk.inj (Except.ok.inj hpage)
  rw [hmessages] at hmsg
  obtain hmsg | ⟨record, hrecord, key, e, m', hparsed⟩ := exists_parsed_of_foldl hmsg
  · cases hmsg
  · obtain ⟨link, hlink, htext⟩ := htexts record hrecord
    have henvelope := hparsed.envelope
    rw [htext, fromStr_sent] at henvelope
    obtain rfl := Option.some.inj henvelope
    exact ⟨hparsed.nonempty, hparsed.session.symm.trans hlink⟩

/-! ## When the finders keep the chain -/

theorem NoneBefore.eq_nil {ms before after : List (Sent F)} {m : Sent F} (h : NoneBefore msgType ms)
    (hfirst : IsFirst msgType ms before m after) : before = [] := by
  obtain hnone | ⟨m', rest, hms, htype⟩ := h
  · have hmem : m ∈ ms := by
      rw [hfirst.eq]
      exact List.mem_append_right _ List.mem_cons_self
    exact absurd hfirst.ofType (hnone m hmem)
  · cases before with
    | nil => rfl
    | cons m'' before =>
        have hsame := hfirst.eq
        rw [hms] at hsame
        obtain ⟨rfl, -⟩ := List.cons.inj hsame
        exact absurd htype (hfirst.none_before m' List.mem_cons_self)

theorem exists_isFirst {ms : List (Sent F)} (h : ∃ m ∈ ms, m.header.msgType = msgType) :
    ∃ before m after, IsFirst msgType ms before m after := by
  induction ms with
  | nil =>
      obtain ⟨m, hm, -⟩ := h
      cases hm
  | cons m ms ih =>
      by_cases htype : m.header.msgType = msgType
      · exact ⟨[], m, ms, rfl, htype, fun m' hm' ↦ nomatch hm'⟩
      · have hrest : ∃ m ∈ ms, m.header.msgType = msgType := by
          obtain ⟨m', hm', htype'⟩ := h
          obtain rfl | hm' := List.mem_cons.mp hm'
          · exact absurd htype' htype
          · exact ⟨m', hm', htype'⟩
        obtain ⟨before, m', after, hfirst⟩ := ih hrest
        refine ⟨m :: before, m', after, ?_, hfirst.ofType, ?_⟩
        · rw [hfirst.eq, List.cons_append]
        · exact List.forall_mem_cons.mpr ⟨htype, hfirst.none_before⟩

/-- A finder that finds something needs the first message to be of the type, if
any is. -/
theorem Presented.noneBefore {a b : ConnectSessionState} {ms : List (Sent F)}
    {records : List Record} {now : UInt64}
    (h : Presented p sessionId dir msgType readBody a b w ms records now)
    (hfinds : ∀ before m after, IsFirst msgType ms before m after → ∃ r,
      search (scan p sessionId dir msgType (some w) readBody) records [] = .ok r) :
    NoneBefore msgType ms := by
  by_cases hnone : ∃ m ∈ ms, m.header.msgType = msgType
  · obtain ⟨before, m, after, hfirst⟩ := exists_isFirst hnone
    obtain ⟨r, hr⟩ := hfinds before m after hfirst
    cases hms : ms with
    | nil =>
        rw [hms] at hnone
        obtain ⟨m', hm', -⟩ := hnone
        cases hm'
    | cons m' rest =>
        by_cases htype : m'.header.msgType = msgType
        · exact .inr ⟨m', rest, rfl, htype⟩
        · obtain ⟨failures, hfailures⟩ := h.search_of_ne fun m'' hm'' ↦ by
            rw [hms] at hm''
            rwa [← Option.some.inj hm'']
          rw [hfailures] at hr
          cases hr
  · exact .inl fun m hm htype ↦ hnone ⟨m, hm, htype⟩

theorem findsResponse_iff {a b : ConnectSessionState} {ms : List (Sent F)} {records : List Record}
    {now : UInt64}
    (h : Presented p sessionId "w2c" typeChallengeResponse ChallengeResponseBody.read a b w ms
      records now) :
    FindsResponse p sessionId a b w ms records now ↔ NoneBefore typeChallengeResponse ms := by
  constructor
  · intro hfinds
    apply h.noneBefore
    intro before m after hfirst
    obtain ⟨found, hfound, -⟩ := hfinds before m after hfirst
    exact search_of_findChallengeResponseEvent hfound
  · intro hnone before m after hfirst
    obtain rfl := hnone.eq_nil hfirst
    obtain ⟨record, found, s, hsearch, hbody, hstate, -⟩ := h.search_head hfirst.eq hfirst.ofType
    exact ⟨_, findChallengeResponseEvent_of_search h.fresh hsearch, hbody, hstate⟩

theorem findsMiningKeys_iff {a b : ConnectSessionState} {ms : List (Sent F)} {records : List Record}
    {now : UInt64}
    (h : Presented p sessionId "c2w" typeSetMiningKeys readMiningKeys a b w ms records now) :
    FindsMiningKeys p sessionId a b w ms records now ↔
      NoneBefore typeSetMiningKeys ms ∧
        (IsTrimmed sessionId ∨ ∀ m ∈ ms, m.header.msgType ≠ typeSetMiningKeys) := by
  constructor
  · intro hfinds
    have hnone : NoneBefore typeSetMiningKeys ms := by
      apply h.noneBefore
      intro before m after hfirst
      obtain ⟨found, hfound, -⟩ := hfinds before m after hfirst
      exact search_of_findSetMiningKeysEvent hfound
    refine ⟨hnone, ?_⟩
    obtain hother | ⟨m, rest, hms, htype⟩ := hnone
    · exact .inr hother
    · obtain ⟨found, -, -, -, hagrees⟩ := hfinds [] m rest ⟨hms, htype, fun m' hm' ↦ nomatch hm'⟩
      obtain ⟨secret, root, ls, -, -, hlinks, hlinked, -, -⟩ := h.exists_links
      apply Or.inl
      apply isTrimmed_of_queryAgrees _ hagrees
      intro record hrecord
      have hmem : record.text ∈ ms.map Sent.text := h.texts ▸ List.mem_map_of_mem hrecord
      rw [hlinks, List.map_map] at hmem
      obtain ⟨l, hl, htext⟩ := List.mem_map.mp hmem
      obtain ⟨i, -, hlink⟩ := hlinked.getElem? hl
      exact ⟨l, hlink.session, htext.symm⟩
  · rintro ⟨hnone, hsession⟩ before m after hfirst
    obtain rfl := hnone.eq_nil hfirst
    obtain ⟨record, found, s, hsearch, hbody, hstate, secret, root, l, ls, records', hsecret, hroot,
      hlinked, rfl, rfl, htext, rfl⟩ := h.search_head hfirst.eq hfirst.ofType
    have hmem : l.sent p.serde ∈ ms := by
      rw [hfirst.eq]
      exact List.mem_cons_self
    have htrimmed : IsTrimmed sessionId :=
      hsession.resolve_right fun hother ↦ hother _ hmem hfirst.ofType
    refine ⟨_, findSetMiningKeysEvent_of_search h.fresh hsearch, hbody, hstate, ?_⟩
    exact queryAgrees_of_head hlinked hsecret hroot htrimmed hfirst.ofType htext
      (h.freshAt record List.mem_cons_self) hbody rfl

/-- Both finders do as claimed when no message of another type stands before the
wanted one, and the query agrees if the session id has no white space around
it. -/
theorem finders_keep_chain_iff {sessionId' : String} {a b ms records now}
    {a' b' w' : ConnectSessionState} {ms' : List (Sent F)} {records' : List Record} {now' : UInt64}
    (hwallet : Presented p sessionId "c2w" typeSetMiningKeys readMiningKeys a b w ms records now)
    (hdapp : Presented p sessionId' "w2c" typeChallengeResponse ChallengeResponseBody.read a' b' w'
      ms' records' now') :
    (FindsMiningKeys p sessionId a b w ms records now ↔
        NoneBefore typeSetMiningKeys ms ∧
          (IsTrimmed sessionId ∨ ∀ m ∈ ms, m.header.msgType ≠ typeSetMiningKeys)) ∧
      (FindsResponse p sessionId' a' b' w' ms' records' now' ↔
        NoneBefore typeChallengeResponse ms') :=
  ⟨findsMiningKeys_iff hwallet, findsResponse_iff hdapp⟩

/-! ## Chains of one message and of two -/

def exampleSent (dir msgType : String) (body : Value Empty) : Sent Empty :=
  (exampleLink (exampleHeader "session-1" dir 1700000001000 msgType) body firstKey firstRoot).sent
    Json.Compact.serde

/-- A message that follows a first one. -/
def exampleNext (dir msgType : String) (body : Value Empty) : Sent Empty :=
  (exampleLink (exampleHeader "session-1" dir 1700000002000 msgType) body secondKey secondRoot).sent
    Json.Compact.serde

def exampleRecords (ms : List (Sent Empty)) : List Record :=
  ms.map fun m ↦ ⟨"event", m.header.ts, m.text, 1700000003⟩

theorem exampleRecords_text (ms : List (Sent Empty)) :
    (exampleRecords ms).map Record.text = ms.map Sent.text := by
  rw [exampleRecords, List.map_map]
  rfl

theorem isExpired_exampleRecords (ms : List (Sent Empty)) :
    ∀ record ∈ exampleRecords ms, exampleWallet.isExpired record.now = false := by
  have hnow : (1700000003 : UInt64) < 1700086400 := by decide
  intro record hrecord
  obtain ⟨m, -, rfl⟩ := List.mem_map.mp hrecord
  exact isExpired_exampleState hnow

theorem presented_exampleSent (dir msgType : String) (body : Value Empty)
    {readBody : Value Empty → Option α} (hbody : ∃ found, readBody body = some found) :
    Presented examplePrimitives "session-1" dir msgType readBody exampleDapp
      (exampleState (repeated 3) walletKey firstRoot 1700000000000 1700000001000) exampleWallet
      [exampleSent dir msgType body] (exampleRecords [exampleSent dir msgType body]) 1700000003 where
  chain := exampleStep_first.chain (by decide) dir msgType body (.nil _)
  mirror := mirror_example
  ideal := idealFor_exampleLink exampleStep_first isDerived_first dir msgType body
    (List.Subset.refl _)
  texts := exampleRecords_text _
  fresh := isExpired_exampleState (by decide)
  freshAt := isExpired_exampleRecords _
  bodies := List.forall_mem_singleton.mpr fun _ ↦ hbody

theorem finders_keep_chain_example :
    FindsMiningKeys examplePrimitives "session-1" exampleDapp
        (exampleState (repeated 3) walletKey firstRoot 1700000000000 1700000001000) exampleWallet
        [exampleSent "c2w" typeSetMiningKeys miningBody]
        (exampleRecords [exampleSent "c2w" typeSetMiningKeys miningBody]) 1700000003 ∧
      FindsResponse examplePrimitives "session-1" exampleDapp
        (exampleState (repeated 3) walletKey firstRoot 1700000000000 1700000001000) exampleWallet
        [exampleSent "w2c" typeChallengeResponse answerBody]
        (exampleRecords [exampleSent "w2c" typeChallengeResponse answerBody]) 1700000003 := by
  obtain ⟨hmining, hresponse⟩ := finders_keep_chain_iff
    (presented_exampleSent "c2w" typeSetMiningKeys miningBody ⟨_, rfl⟩)
    (presented_exampleSent "w2c" typeChallengeResponse answerBody ⟨_, rfl⟩)
  exact ⟨hmining.mpr ⟨.inr ⟨_, [], rfl, rfl⟩, .inl ⟨by decide, by decide⟩⟩,
    hresponse.mpr (.inr ⟨_, [], rfl, rfl⟩)⟩

theorem presented_exampleNext (dir : String) {msgType msgType' : String}
    (hne : msgType' ≠ msgType) (body body' : Value Empty) (readBody : Value Empty → Option α)
    (hbody : ∃ found, readBody body = some found) :
    Presented examplePrimitives "session-1" dir msgType readBody exampleDapp
      (exampleState (repeated 4) walletKey secondRoot 1700000000000 1700000002000) exampleWallet
      [exampleSent dir msgType' body', exampleNext dir msgType body]
      (exampleRecords [exampleSent dir msgType' body', exampleNext dir msgType body])
      1700000003 where
  chain := exampleStep_first.chain (by decide) dir msgType' body'
    (exampleStep_second.chain (by decide) dir msgType body (.nil _))
  mirror := mirror_example
  ideal := by
    have hlt : (1700000001000 : UInt64) < 1700000002000 := by decide
    have hlinked : Linked examplePrimitives "session-1" dir (repeated 2) startRoot
        exampleWallet.lastSeenSeq
        [exampleLink (exampleHeader "session-1" dir 1700000001000 msgType') body' firstKey
          firstRoot,
          exampleLink (exampleHeader "session-1" dir 1700000002000 msgType) body secondKey
            secondRoot] :=
      ⟨exampleStep_first.linkedTo publicKey_wallet (by decide) dir msgType' body',
        exampleStep_second.linkedTo publicKey_wallet hlt dir msgType body, trivial⟩
    apply idealFor_example hlinked (List.Subset.refl _) (List.Subset.refl _)
    · simp [exampleLink]
    · exact isDerived_example.1
  texts := exampleRecords_text _
  fresh := isExpired_exampleState (by decide)
  freshAt := isExpired_exampleRecords _
  bodies := by
    intro m hm htype
    obtain rfl | hm := List.mem_cons.mp hm
    · exact absurd htype hne
    · obtain rfl := List.mem_singleton.mp hm
      exact hbody

theorem not_noneBefore {msgType : String} {m m' : Sent F} (hne : m.header.msgType ≠ msgType)
    (h : m'.header.msgType = msgType) : ¬NoneBefore msgType [m, m'] := by
  rintro (hother | ⟨m'', rest, heq, htype⟩)
  · exact hother m' (List.mem_cons_of_mem _ List.mem_cons_self) h
  · obtain ⟨rfl, -⟩ := List.cons.inj heq
    exact hne htype

/-- A challenge before the request for keys, and a message of another type
before the response. -/
theorem not_finders_keep_chain :
    (∃ b ms records,
      Presented examplePrimitives "session-1" "c2w" typeSetMiningKeys readMiningKeys exampleDapp b
        exampleWallet ms records 1700000003 ∧
      ms.map (fun m ↦ m.header.msgType) = [typeSignChallenge, typeSetMiningKeys] ∧
      ¬FindsMiningKeys examplePrimitives "session-1" exampleDapp b exampleWallet ms records
        1700000003) ∧
    ∃ b ms records,
      Presented examplePrimitives "session-1" "w2c" typeChallengeResponse ChallengeResponseBody.read
        exampleDapp b exampleWallet ms records 1700000003 ∧
      ms.map (fun m ↦ m.header.msgType) = ["status", typeChallengeResponse] ∧
      ¬FindsResponse examplePrimitives "session-1" exampleDapp b exampleWallet ms records
        1700000003 := by
  have hmining := presented_exampleNext "c2w"
    (by decide : typeSignChallenge ≠ typeSetMiningKeys) miningBody (challengeBody "one")
    readMiningKeys ⟨_, rfl⟩
  have hresponse := presented_exampleNext "w2c"
    (by decide : "status" ≠ typeChallengeResponse) answerBody (challengeBody "one")
    ChallengeResponseBody.read ⟨_, rfl⟩
  refine ⟨⟨_, _, _, hmining, rfl, fun h ↦ ?_⟩, _, _, _, hresponse, rfl, fun h ↦ ?_⟩
  · exact not_noneBefore (by decide) rfl ((findsMiningKeys_iff hmining).mp h).1
  · exact not_noneBefore (by decide) rfl ((findsResponse_iff hresponse).mp h)

end MessageFinders

end BeeEngine
