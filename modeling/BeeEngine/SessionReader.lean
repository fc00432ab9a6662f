import BeeEngine.ChainReading
import BeeEngine.SessionMessages

/-!
# The wallet reads a chain

Calls of `query_session_messages` in a row, each with the state that the last
one gave.  Whatever pages they are answered with, they accept the messages of
the peer's chain one after another.
-/

namespace BeeEngine

open ConnectMessage WalletMessage Dh Ratchet MessageChain SessionMessages
open Json (Value)

namespace SessionReader

variable {F : Type}

/-! ## Calls in a row -/

/-- A call: the description that is asked for, and what the chain answers. -/
structure Poll where
  description : String
  answer : Answer

def Poll.records (poll : Poll) : List Record :=
  match poll.answer.page with
  | .ok (records, _) => records
  | .error _ => []

def textsOf (polls : List Poll) : List String :=
  polls.flatMap fun poll ↦ poll.records.map Record.text

/-- The state that is stored, and the accepted messages of all calls. -/
structure Reader where
  stored : Option ConnectSessionState
  accepted : List ConnectSessionMessage

def acceptedOf (messages : List ConnectSessionMessage) : List ConnectSessionMessage :=
  messages.filter (·.sessionStateAfter.isSome)

/-- A call that fails gives no state to store. -/
def call (p : Primitives F) (sessionId : String) (reader : Reader) (poll : Poll) : Reader :=
  match querySessionMessages p ⟨sessionId, poll.description, reader.stored⟩ poll.answer with
  | .error _ => reader
  | .ok result => ⟨result.updatedSessionState, reader.accepted ++ acceptedOf result.messages⟩

def run (p : Primitives F) (sessionId : String) (state : ConnectSessionState) (polls : List Poll) :
    Reader :=
  polls.foldl (call p sessionId) ⟨some state, []⟩

/-! ## What is claimed -/

/-- Number, type and body of a message. -/
def received (m : ConnectSessionMessage) : UInt64 × String × String := (m.seq, m.msgType, m.bodyJson)

def sent (serde : SerdeJson F) (m : Sent F) : UInt64 × String × String :=
  (m.header.seq, m.header.msgType, serde.toString m.body)

/-- The number of the last message, or else the number before. -/
def lastSeq (seq : UInt64) (ms : List (Sent F)) : UInt64 :=
  (ms.getLast?.map fun m ↦ m.header.seq).getD seq

/-- The first `k` messages of the chain are read. -/
structure ReadUpTo (p : Primitives F) (sessionId : String) (a : ConnectSessionState)
    (ms : List (Sent F)) (b w : ConnectSessionState) (k : ℕ) (reader : Reader) : Prop where
  le : k ≤ ms.length
  accepted : reader.accepted.map received = (ms.take k).map (sent p.serde)
  stored : ∃ s, reader.stored = some s ∧ s.lastSeenSeq = lastSeq w.lastSeenSeq (ms.take k) ∧
    ∃ d, SentUpTo p sessionId "c2w" a ms k b d ∧ Mirror p.crypto d s

/-- The session id is not empty, and no white space stands around it. -/
def IsTrimmed (sessionId : String) : Prop :=
  Text.isBlank sessionId = false ∧ Text.trim sessionId = sessionId

/-- There is a description, and the chain answers. -/
structure Poll.Succeeds (poll : Poll) : Prop where
  description : Text.isBlank poll.description = false
  profileAddress : ∃ address, poll.answer.profileAddress = .ok address
  page : ∃ page, poll.answer.page = .ok page

/-- The call succeeds, and its page has the whole chain in order. -/
structure ListsChain (ms : List (Sent F)) (poll : Poll) : Prop where
  succeeds : poll.Succeeds
  texts : (ms.map Sent.text).Sublist (poll.records.map Record.text)

/-! ## One event -/

variable {p : Primitives F} {sessionId dir : String} {secret root : Bytes32}
  {w : ConnectSessionState} {ls : List (Link F)} {texts : List String}

/-- The peer key, the number and the session that ask for a re-key are those of
the envelope. -/
theorem envelope_of_needsRekey {text dh : String} {seq : UInt64}
    (h : needsRekey p.serde sessionId text = some (dh, seq)) {e : ConnectMessageEnvelope F}
    (he : p.serde.fromStr ConnectMessageEnvelope.read text = some e) :
    dhPublicOf p.serde text = some dh ∧ e.seq = seq ∧ e.sessionId = sessionId := by
  simp only [needsRekey, Option.bind_eq_bind, Option.bind_eq_some_iff] at h
  obtain ⟨v, hv, dirText, ⟨dirField, hdirField, hdirText⟩, peer, ⟨peerField, hpeerField, hpeer⟩,
    session, ⟨sessionField, hsessionField, hsession⟩, h⟩ := h
  split at h
  · rename_i hmatch
    obtain ⟨rfl, rfl⟩ := Prod.mk.inj (Option.some.inj h)
    have hread := p.serde.fromStr_agrees ConnectMessageEnvelope.read hv he
    obtain ⟨m, rfl⟩ := Value.exists_object_of_get? hdirField
    rw [Value.get?_object] at hsessionField
    obtain ⟨hsession', hseq⟩ := ConnectMessageEnvelope.fields_of_read hread
    rw [hsessionField, Option.bind_some, hsession] at hsession'
    refine ⟨?_, ?_, ?_⟩
    · rw [dhPublicOf, hv, Option.bind_some, hpeerField]
      exact hpeer
    · rw [Value.get?_object, hseq]
      rfl
    · rw [← Option.some.inj hsession']
      exact hmatch.2
  · cases h

theorem needsRekey_sent {lastSeen : UInt64} {l : Link F}
    (h : LinkedTo p sessionId "c2w" secret root lastSeen l) :
    needsRekey p.serde sessionId (l.sent p.serde).text = some (l.dhPublic.hex, l.header.seq) := by
  rw [needsRekey, fromStr_some_sent]
  simp [envelopeFields, Json.Map.ofList, h.dir, h.session]

/-- What an event that is accepted went through. -/
theorem acceptWithRekey_eq_some {u s : ConnectSessionState} {record : Record}
    {msg : ConnectSessionMessage}
    (h : acceptWithRekey p sessionId u record = some (msg, s)) :
    ∃ dh e rekey body, dhPublicOf p.serde record.text = some dh ∧
      p.serde.fromStr ConnectMessageEnvelope.read record.text = some e ∧
      rekeyInbound p.crypto u dh sessionId e.seq record.now = .ok rekey ∧
      openBody p e sessionId rekey.messageEncryptionRoot = .ok body ∧
      s = rekey.updatedState ∧ msg.sessionStateAfter = some s ∧
      msg.rawMessageJson = record.text ∧
      received msg = (e.seq, e.msgType, p.serde.toString body) ∧ IsTrimmed sessionId := by
  rw [acceptWithRekey] at h
  split at h
  · cases h
  · rename_i dh seq hneeds
    split at h
    · cases h
    · rename_i r hr
      split at h
      · cases h
      · rename_i parsed hparsed
        split at h
        · rename_i hread
          obtain ⟨rfl, rfl⟩ := Prod.mk.inj (Option.some.inj h)
          obtain ⟨e, hmessage⟩ := parsed_of_eq_some hparsed
          obtain ⟨secretText, body, hsecretText, hopen, hjson⟩ := hmessage.openBody hread
          obtain ⟨hdh, rfl, hsession⟩ := envelope_of_needsRekey hneeds hmessage.envelope
          obtain ⟨k, hk⟩ := exists_hex_of_rekeyInbound hr
          rw [hk, trimSecret_of_decodeEncryptionSecret (decodeEncryptionSecret_hex k)] at hsecretText
          rw [hsession, ← Option.some.inj hsecretText, ← hk] at hopen
          obtain ⟨eventId, createdAt, rfl⟩ := hmessage.message
          obtain ⟨hmseq, hmtype, -⟩ := messageOf_common (p := p) record.text e
            (decodeConnectMessageBody p e (some r.messageEncryptionRoot)
              (Text.trim sessionId)).toOption eventId createdAt
          refine ⟨dh, e, r, body, hdh, hmessage.envelope, hr, hopen, rfl, rfl, ?_, ?_,
            hmessage.nonempty, hmessage.session.symm.trans hsession⟩
          · exact rawMessageJson_messageOf _ _ _ _ _ _
          · rw [received]
            simp only [hmseq, hmtype, hjson]
        · cases h

/-- An event that is accepted is the next message of the chain. -/
theorem of_acceptWithRekey (hlinked : Linked p sessionId dir secret root w.lastSeenSeq ls)
    (hsecret : w.myDhSecret = secret.hex) (hroot : w.encryptionRoot = root.hex)
    (hideal : Ideal p sessionId secret root (ls.map (Link.sent p.serde)) texts) {i : ℕ}
    (hi : i ≤ ls.length) {record : Record} (htext : record.text ∈ texts)
    {msg : ConnectSessionMessage} {s : ConnectSessionState}
    (h : acceptWithRekey p sessionId (stateAfter w ls i) record = some (msg, s)) :
    ∃ l, ls[i]? = some l ∧ s = stateAfter w ls (i + 1) ∧ msg.sessionStateAfter = some s ∧
      received msg = sent p.serde (l.sent p.serde) := by
  obtain ⟨dh, e, r, body, hdh, he, hr, hopen, rfl, hafter, -, hreceived, -⟩ :=
    acceptWithRekey_eq_some h
  obtain ⟨k, -, hr'⟩ := rekeyInbound_stateAfter hsecret hroot hr
  obtain ⟨l, hl, rfl, hheader, rfl, hlroot⟩ := hlinked.of_openBody hsecret hroot hideal hi htext hdh
    hr he hopen
  obtain ⟨-, -, hseq, htype, -⟩ := ConnectMessageEnvelope.header?_eq_some_iff.mp hheader
  refine ⟨l, hl, ?_, hafter, ?_⟩
  · rw [stateAfter_succ hl, hr', advance, hseq]
    rw [hr'] at hlroot
    rw [← hlroot]
  · rw [hreceived, hseq, htype]
    rfl

/-- A message of the chain is read with its root. -/
theorem parse_sent {lastSeen : UInt64} {l : Link F}
    (hlink : LinkedTo p sessionId "c2w" secret root lastSeen l) (hsession : IsTrimmed sessionId)
    (eventId : String) (createdAt : UInt64) :
    parseConnectSessionMessageWithSecret p (l.sent p.serde).text sessionId (some l.root.hex)
      eventId createdAt = some (messageOf p.serde (l.sent p.serde).text
        (envelopeOf l.header l.sealedBody (some l.dhPublic.hex)) (some l.body) eventId
        createdAt) := by
  obtain ⟨hblank, htrim⟩ := hsession
  have hdecode : WalletMessage.decodeConnectMessageBody p
      (envelopeOf l.header l.sealedBody (some l.dhPublic.hex)) (some l.root.hex)
      (Text.trim sessionId) = .ok l.body := by
    rw [htrim]
    exact decodeConnectMessageBody_eq_ok_iff.mpr ⟨rfl, l.root.hex,
      trimSecret_of_decodeEncryptionSecret (decodeEncryptionSecret_hex _), hlink.openBody_sent⟩
  have hdir : Text.isBlank l.header.dir = false := by
    rw [hlink.dir]
    decide
  rw [parse_eq_some (fromStr_sent l) hblank rfl (hlink.session.trans htrim.symm) hdir, hdecode]
  rfl

/-- The next message of the chain is accepted. -/
theorem acceptWithRekey_sent (hlinked : Linked p sessionId "c2w" secret root w.lastSeenSeq ls)
    (hsecret : w.myDhSecret = secret.hex) (hroot : w.encryptionRoot = root.hex)
    (hsession : IsTrimmed sessionId) {i : ℕ} {l : Link F} (hl : ls[i]? = some l) {record : Record}
    (htext : record.text = (l.sent p.serde).text) (hexpired : w.isExpired record.now = false) :
    acceptWithRekey p sessionId (stateAfter w ls i) record =
      some ({ messageOf p.serde (l.sent p.serde).text
          (envelopeOf l.header l.sealedBody (some l.dhPublic.hex)) (some l.body) record.eventId
          record.createdAt with sessionStateAfter := some (stateAfter w ls (i + 1)) },
        stateAfter w ls (i + 1)) := by
  have hlink := hlinked.linkedTo hl
  obtain ⟨-, -, -, hread, -⟩ := messageOf_common (p := p) (l.sent p.serde).text
    (envelopeOf l.header l.sealedBody (some l.dhPublic.hex)) (some l.body) record.eventId
    record.createdAt
  rw [acceptWithRekey, htext]
  simp only [needsRekey_sent hlink, hlinked.rekeyInbound hsecret hroot hl hexpired,
    parse_sent hlink hsession]
  rw [hread, stateAfter_succ hl]
  rfl

theorem exists_parsed_of_parseWithCurrent {state : Option ConnectSessionState} {record : Record}
    {m : ConnectSessionMessage} (h : parseWithCurrent p sessionId state record = some m) :
    ∃ key e, Parsed p record.text sessionId key e m := by
  cases state with
  | none =>
      simp only [parseWithCurrent, parseConnectSessionMessage] at h
      exact ⟨none, parsed_of_eq_some h⟩
  | some s =>
      simp only [parseWithCurrent] at h
      exact ⟨some s.encryptionRoot, parsed_of_eq_some h⟩

/-- An event that is not accepted gives no state. -/
theorem sessionStateAfter_of_parseWithCurrent {state : Option ConnectSessionState} {record : Record}
    {m : ConnectSessionMessage} (h : parseWithCurrent p sessionId state record = some m) :
    m.sessionStateAfter = none := by
  obtain ⟨key, e, hparsed⟩ := exists_parsed_of_parseWithCurrent h
  obtain ⟨eventId, createdAt, hm⟩ := hparsed.message
  obtain ⟨-, -, -, -, hnone⟩ := messageOf_common (p := p) record.text e
    (decodeConnectMessageBody p e key (Text.trim sessionId)).toOption eventId createdAt
  rwa [← hm] at hnone

theorem acceptedOf_parseWithCurrent (state : Option ConnectSessionState) (record : Record) :
    acceptedOf (parseWithCurrent p sessionId state record).toList = [] := by
  cases hparse : parseWithCurrent p sessionId state record with
  | none => rfl
  | some m => simp [acceptedOf, sessionStateAfter_of_parseWithCurrent hparse]

theorem acceptedOf_append (ms ms' : List ConnectSessionMessage) :
    acceptedOf (ms ++ ms') = acceptedOf ms ++ acceptedOf ms' :=
  List.filter_append _ _

/-- Every message is read of an envelope of the session. -/
theorem exists_parsed_of_processRecord {l : Loop} {record : Record} {m : ConnectSessionMessage}
    (h : m ∈ (processRecord p sessionId l record).messages) :
    m ∈ l.messages ∨ ∃ key e m', Parsed p record.text sessionId key e m' := by
  rw [processRecord] at h
  split at h
  · rename_i msg s haccept
    obtain h | h := List.mem_append.mp h
    · exact .inl h
    · obtain ⟨state, -, haccept⟩ := Option.bind_eq_some_iff.mp haccept
      rw [acceptWithRekey] at haccept
      split at haccept
      · cases haccept
      · split at haccept
        · cases haccept
        · split at haccept
          · cases haccept
          · rename_i m' hparsed
            exact .inr ⟨_, (parsed_of_eq_some hparsed).imp fun e he ↦ ⟨m', he⟩⟩
  · obtain h | h := List.mem_append.mp h
    · exact .inl h
    · obtain ⟨key, e, hparsed⟩ := exists_parsed_of_parseWithCurrent (Option.mem_toList.mp h)
      exact .inr ⟨key, e, m, hparsed⟩

theorem mem_foldl_of_mem {records : List Record} {l : Loop} {m : ConnectSessionMessage}
    (h : m ∈ l.messages) : m ∈ (records.foldl (processRecord p sessionId) l).messages := by
  induction records generalizing l with
  | nil => exact h
  | cons record records ih =>
      apply ih
      rw [processRecord]
      split
      · exact List.mem_append_left _ h
      · exact List.mem_append_left _ h

theorem exists_parsed_of_foldl {records : List Record} {l : Loop} {m : ConnectSessionMessage}
    (h : m ∈ (records.foldl (processRecord p sessionId) l).messages) :
    m ∈ l.messages ∨ ∃ record ∈ records, ∃ key e m', Parsed p record.text sessionId key e m' := by
  induction records generalizing l with
  | nil => exact .inl h
  | cons record records ih =>
      obtain h | ⟨record', hrecord', hparsed⟩ := ih h
      · obtain h | hparsed := exists_parsed_of_processRecord h
        · exact .inl h
        · exact .inr ⟨record, List.mem_cons_self, hparsed⟩
      · exact .inr ⟨record', List.mem_cons_of_mem _ hrecord', hparsed⟩

/-! ## One page -/

/-- The loop has accepted the messages of the chain from one place to another. -/
structure Between (p : Primitives F) (w : ConnectSessionState) (ls : List (Link F)) (i j : ℕ)
    (l : Loop) : Prop where
  le : i ≤ j
  le_length : j ≤ ls.length
  state : l.currentState = some (stateAfter w ls j)
  accepted : (acceptedOf l.messages).map received =
    ((ls.take j).drop i).map fun link ↦ sent p.serde (link.sent p.serde)
  states : ∀ n msg, (acceptedOf l.messages)[n]? = some msg →
    msg.sessionStateAfter = some (stateAfter w ls (i + n + 1))
  rekeyed : l.hadSuccessfulRekey = false → i = j

/-- An event moves the loop by at most one message. -/
theorem Between.processRecord (hlinked : Linked p sessionId dir secret root w.lastSeenSeq ls)
    (hsecret : w.myDhSecret = secret.hex) (hroot : w.encryptionRoot = root.hex)
    (hideal : Ideal p sessionId secret root (ls.map (Link.sent p.serde)) texts) {i j : ℕ} {l : Loop}
    (h : Between p w ls i j l) {record : Record} (htext : record.text ∈ texts) :
    Between p w ls i (j + 1) (processRecord p sessionId l record) ∨
      Between p w ls i j (processRecord p sessionId l record) ∧
        acceptWithRekey p sessionId (stateAfter w ls j) record = none := by
  rw [SessionMessages.processRecord, h.state, Option.bind_some]
  cases haccept : acceptWithRekey p sessionId (stateAfter w ls j) record with
  | none =>
      have hsame : acceptedOf (l.messages ++
          (parseWithCurrent p sessionId l.currentState record).toList) = acceptedOf l.messages := by
        rw [acceptedOf_append, acceptedOf_parseWithCurrent, List.append_nil]
      rw [h.state] at hsame
      refine .inr ⟨⟨h.le, h.le_length, rfl, ?_, ?_, h.rekeyed⟩, rfl⟩
      · rw [hsame]
        exact h.accepted
      · rw [hsame]
        exact h.states
  | some accepted =>
      obtain ⟨msg, s⟩ := accepted
      obtain ⟨link, hlink, rfl, hafter, hsame⟩ := of_acceptWithRekey hlinked hsecret hroot hideal
        h.le_length htext haccept
      have hlt := (List.getElem?_eq_some_iff.mp hlink).1
      have hmsg : acceptedOf [msg] = [msg] := by
        simp [acceptedOf, hafter]
      have htake : (ls.take (j + 1)).drop i = (ls.take j).drop i ++ [link] := by
        rw [List.take_add_one, hlink, Option.toList_some, List.drop_append_of_le_length]
        rw [List.length_take_of_le h.le_length]
        exact h.le
      have hlength : (acceptedOf l.messages).length = j - i := by
        rw [← List.length_map, h.accepted, List.length_map, List.length_drop,
          List.length_take_of_le h.le_length]
      refine .inl ⟨h.le.trans (Nat.le_succ j), hlt, rfl, ?_, ?_, fun hrekey ↦ nomatch hrekey⟩
      · rw [acceptedOf_append, hmsg, List.map_append, h.accepted, htake, List.map_append,
          List.map_singleton, List.map_singleton, hsame]
      · rw [acceptedOf_append, hmsg]
        intro n m hm
        have hn : n < (acceptedOf l.messages ++ [msg]).length :=
          (List.getElem?_eq_some_iff.mp hm).1
        rw [List.length_append, List.length_singleton] at hn
        obtain hn | rfl := (Nat.lt_succ_iff.mp hn).lt_or_eq
        · rw [List.getElem?_append_left hn] at hm
          exact h.states n m hm
        · rw [List.getElem?_concat_length] at hm
          rw [← Option.some.inj hm, hafter, hlength, Nat.add_sub_cancel' h.le]

/-- A page moves the loop along the chain. -/
theorem Between.foldl (hlinked : Linked p sessionId dir secret root w.lastSeenSeq ls)
    (hsecret : w.myDhSecret = secret.hex) (hroot : w.encryptionRoot = root.hex)
    (hideal : Ideal p sessionId secret root (ls.map (Link.sent p.serde)) texts)
    {records : List Record}
    (htexts : ∀ record ∈ records, record.text ∈ texts) {i j : ℕ} {l : Loop}
    (h : Between p w ls i j l) :
    ∃ k, Between p w ls i k (records.foldl (SessionMessages.processRecord p sessionId) l) := by
  induction records generalizing j l with
  | nil => exact ⟨j, h⟩
  | cons record records ih =>
      have hrest : ∀ record ∈ records, record.text ∈ texts := fun r hr ↦
        htexts r (List.mem_cons_of_mem _ hr)
      obtain hnext | ⟨hsame, -⟩ := h.processRecord hlinked hsecret hroot hideal
        (htexts record List.mem_cons_self)
      · exact ih hrest hnext
      · exact ih hrest hsame

/-- A page with the rest of the chain moves the loop to its end. -/
theorem Between.foldl_length (hlinked : Linked p sessionId "c2w" secret root w.lastSeenSeq ls)
    (hsecret : w.myDhSecret = secret.hex) (hroot : w.encryptionRoot = root.hex)
    (hideal : Ideal p sessionId secret root (ls.map (Link.sent p.serde)) texts)
    (hsession : IsTrimmed sessionId) {records : List Record}
    (htexts : ∀ record ∈ records, record.text ∈ texts)
    (hexpired : ∀ record ∈ records, w.isExpired record.now = false) {i j : ℕ} {l : Loop}
    (h : Between p w ls i j l)
    (hlists : ((ls.drop j).map fun link ↦ (link.sent p.serde).text).Sublist
      (records.map Record.text)) :
    Between p w ls i ls.length (records.foldl (SessionMessages.processRecord p sessionId) l) := by
  induction records generalizing j l with
  | nil =>
      have hdrop : ls.drop j = [] := by
        simpa using List.sublist_nil.mp hlists
      obtain rfl : j = ls.length := h.le_length.antisymm (List.drop_eq_nil_iff.mp hdrop)
      exact h
  | cons record records ih =>
      have hrest : ∀ record ∈ records, record.text ∈ texts := fun r hr ↦
        htexts r (List.mem_cons_of_mem _ hr)
      have hfresh : ∀ record ∈ records, w.isExpired record.now = false := fun r hr ↦
        hexpired r (List.mem_cons_of_mem _ hr)
      obtain hnext | ⟨hsame, hnone⟩ := h.processRecord hlinked hsecret hroot hideal
        (htexts record List.mem_cons_self)
      · -- Of the texts that are to come at most the first stands at this event.
        apply ih hrest hfresh hnext
        rw [← List.tail_drop, List.map_tail]
        exact hlists.tail
      · apply ih hrest hfresh hsame
        cases hdrop : ls.drop j with
        | nil => exact List.nil_sublist _
        | cons link rest =>
            rw [hdrop, List.map_cons, List.map_cons] at hlists
            obtain hlater | ⟨htext, -⟩ := List.cons_sublist_cons'.mp hlists
            · exact hlater
            · have hlink : ls[j]? = some link := by
                rw [← List.head?_drop, hdrop]
                rfl
              rw [acceptWithRekey_sent hlinked hsecret hroot hsession hlink htext.symm
                (hexpired record List.mem_cons_self)] at hnone
              cases hnone

/-! ## All calls -/

/-- The first messages of the chain are accepted, and the state after them is
stored. -/
structure Reached (p : Primitives F) (w : ConnectSessionState) (ls : List (Link F)) (k : ℕ)
    (reader : Reader) : Prop where
  le : k ≤ ls.length
  stored : reader.stored = some (stateAfter w ls k)
  accepted : reader.accepted.map received =
    (ls.take k).map fun link ↦ sent p.serde (link.sent p.serde)

/-- What the caller keeps after the loop. -/
def afterLoop (reader : Reader) (l : Loop) : Reader where
  stored := if l.hadSuccessfulRekey then l.currentState else reader.stored
  accepted := reader.accepted ++ acceptedOf l.messages

/-- What a call gives that succeeds. -/
theorem Poll.Succeeds.query {poll : Poll} (h : poll.Succeeds)
    (hsession : Text.isBlank sessionId = false) (hdeployed : poll.answer.isDeployed = true)
    (state : Option ConnectSessionState) {l : Loop}
    (hl : poll.records.foldl (processRecord p sessionId) ⟨state, false, []⟩ = l) :
    ∃ address cursor, querySessionMessages p ⟨sessionId, poll.description, state⟩ poll.answer =
      .ok ⟨address, l.messages, cursor, if l.hadSuccessfulRekey then l.currentState else state⟩ := by
  obtain ⟨hdescription, ⟨address, haddress⟩, ⟨records, cursor⟩, hpage⟩ := h
  have hrecords : poll.records = records := by
    rw [Poll.records, hpage]
  rw [hrecords] at hl
  refine ⟨address, cursor, ?_⟩
  rw [querySessionMessages, validateSessionMessageParams]
  simp only [hsession, hdescription, hdeployed, haddress, hpage, Outcome.ok_bind, hl,
    Bool.false_eq_true, Bool.true_eq_false, if_false]
  rfl

theorem call_of_succeeds (reader : Reader) {poll : Poll}
    (hsession : Text.isBlank sessionId = false) (hdeployed : poll.answer.isDeployed = true)
    (h : poll.Succeeds) :
    call p sessionId reader poll = afterLoop reader
      (poll.records.foldl (processRecord p sessionId) ⟨reader.stored, false, []⟩) := by
  obtain ⟨address, cursor, hquery⟩ := h.query hsession hdeployed reader.stored rfl
  rw [call, hquery]
  rfl

/-- A call that does not succeed changes nothing. -/
theorem call_of_not_succeeds (reader : Reader) {poll : Poll}
    (hdeployed : poll.answer.isDeployed = true) (h : ¬poll.Succeeds) :
    call p sessionId reader poll = reader := by
  rw [call]
  split
  · rfl
  · rename_i result hresult
    rw [querySessionMessages] at hresult
    obtain ⟨⟨⟩, hvalid, hresult⟩ := Outcome.bind_eq_ok_iff.mp hresult
    obtain ⟨address, haddress, hresult⟩ := Outcome.bind_eq_ok_iff.mp hresult
    rw [if_neg (by simp [hdeployed])] at hresult
    obtain ⟨page, hpage, -⟩ := Outcome.bind_eq_ok_iff.mp hresult
    refine absurd ⟨?_, ⟨address, haddress⟩, page, hpage⟩ h
    rw [validateSessionMessageParams] at hvalid
    split at hvalid
    · cases hvalid
    · split at hvalid
      · cases hvalid
      · rename_i hdescription
        exact Bool.eq_false_iff.mpr hdescription

theorem Reached.between {k : ℕ} {reader : Reader} (h : Reached p w ls k reader) :
    Between p w ls k k ⟨reader.stored, false, []⟩ where
  le := le_rfl
  le_length := h.le
  state := h.stored
  accepted := by
    rw [List.drop_eq_nil_of_le (List.length_take_le k ls)]
    rfl
  states := fun n msg hmsg ↦ nomatch hmsg
  rekeyed := fun _ ↦ rfl

/-- After a page the state is stored and the messages are kept. -/
theorem Reached.of_between {k j : ℕ} {reader : Reader} (h : Reached p w ls k reader) {l : Loop}
    (hl : Between p w ls k j l) :
    Reached p w ls j (afterLoop reader l) where
  le := hl.le_length
  stored := by
    rw [afterLoop]
    cases hrekeyed : l.hadSuccessfulRekey with
    | true => exact hl.state
    | false =>
        obtain rfl := hl.rekeyed hrekeyed
        exact h.stored
  accepted := by
    have htake : ls.take k ++ (ls.take j).drop k = ls.take j := by
      rw [← Nat.min_eq_left hl.le, ← List.take_take, Nat.min_eq_left hl.le, List.take_append_drop]
    rw [afterLoop, List.map_append, h.accepted, hl.accepted, ← List.map_append, htake]

/-- A call reads on, and to the end of the chain if its page has all of it. -/
theorem Reached.call (hlinked : Linked p sessionId "c2w" secret root w.lastSeenSeq ls)
    (hsecret : w.myDhSecret = secret.hex) (hroot : w.encryptionRoot = root.hex)
    (hideal : Ideal p sessionId secret root (ls.map (Link.sent p.serde)) texts)
    (hsession : IsTrimmed sessionId) {k : ℕ} {reader : Reader} (h : Reached p w ls k reader)
    {poll : Poll} (hdeployed : poll.answer.isDeployed = true)
    (htexts : ∀ record ∈ poll.records, record.text ∈ texts) :
    (∃ j, k ≤ j ∧ Reached p w ls j (call p sessionId reader poll)) ∧
      (ListsChain (ls.map (Link.sent p.serde)) poll →
        (∀ record ∈ poll.records, w.isExpired record.now = false) →
        Reached p w ls ls.length (SessionReader.call p sessionId reader poll)) := by
  by_cases hsucceeds : poll.Succeeds
  · rw [call_of_succeeds reader hsession.1 hdeployed hsucceeds]
    constructor
    · obtain ⟨j, hj⟩ := h.between.foldl hlinked hsecret hroot hideal htexts
      exact ⟨j, hj.le, h.of_between hj⟩
    · intro hlists hexpired
      apply h.of_between
      apply h.between.foldl_length hlinked hsecret hroot hideal hsession htexts hexpired
      have htexts' := hlists.texts
      rw [List.map_map] at htexts'
      exact ((List.drop_sublist k ls).map _).trans htexts'
  · rw [call_of_not_succeeds reader hdeployed hsucceeds]
    exact ⟨⟨k, le_rfl, h⟩, fun hlists _ ↦ absurd hlists.succeeds hsucceeds⟩

theorem mem_textsOf {polls : List Poll} {poll : Poll} (hpoll : poll ∈ polls) {record : Record}
    (hrecord : record ∈ poll.records) : record.text ∈ textsOf polls :=
  List.mem_flatMap.mpr ⟨poll, hpoll, List.mem_map_of_mem hrecord⟩

/-- Calls read on along the chain. -/
theorem Reached.run (hlinked : Linked p sessionId "c2w" secret root w.lastSeenSeq ls)
    (hsecret : w.myDhSecret = secret.hex) (hroot : w.encryptionRoot = root.hex)
    (hideal : Ideal p sessionId secret root (ls.map (Link.sent p.serde)) texts)
    (hsession : IsTrimmed sessionId) {polls : List Poll}
    (hdeployed : ∀ poll ∈ polls, poll.answer.isDeployed = true)
    (htexts : ∀ poll ∈ polls, ∀ record ∈ poll.records, record.text ∈ texts) {k : ℕ}
    {reader : Reader} (h : Reached p w ls k reader) :
    ∃ j, k ≤ j ∧ Reached p w ls j (polls.foldl (SessionReader.call p sessionId) reader) := by
  induction polls generalizing k reader with
  | nil => exact ⟨k, le_rfl, h⟩
  | cons poll polls ih =>
      obtain ⟨⟨j, hj, hreached⟩, -⟩ := h.call hlinked hsecret hroot hideal hsession
        (hdeployed poll List.mem_cons_self) (htexts poll List.mem_cons_self)
      obtain ⟨j', hj', hreached'⟩ := ih
        (fun poll hpoll ↦ hdeployed poll (List.mem_cons_of_mem _ hpoll))
        (fun poll hpoll ↦ htexts poll (List.mem_cons_of_mem _ hpoll)) hreached
      rw [List.foldl_cons]
      exact ⟨j', hj.trans hj', hreached'⟩

theorem Reached.start (w : ConnectSessionState) (ls : List (Link F)) :
    Reached p w ls 0 ⟨some w, []⟩ where
  le := Nat.zero_le _
  stored := by rw [stateAfter_zero]
  accepted := rfl

/-! ## What is read of a chain -/

theorem lastSeq_take (serde : SerdeJson F) (w : ConnectSessionState) {ls : List (Link F)} {k : ℕ}
    (hk : k ≤ ls.length) :
    lastSeq w.lastSeenSeq ((ls.map (Link.sent serde)).take k) =
      (stateAfter w ls k).lastSeenSeq := by
  cases k with
  | zero =>
      rw [stateAfter_zero]
      rfl
  | succ k =>
      obtain ⟨l, hl⟩ : ∃ l, ls[k]? = some l := ⟨ls[k], List.getElem?_eq_getElem hk⟩
      rw [stateAfter_succ hl, lastSeq, ← List.map_take, List.take_add_one, hl, List.map_append,
        List.getLast?_append]
      rfl

/-- A number of the chain is not before the numbers that come earlier. -/
theorem lastSeenSeq_le (hlinked : Linked p sessionId dir secret root w.lastSeenSeq ls) {i j : ℕ}
    (hij : i ≤ j) (hj : j ≤ ls.length) :
    (stateAfter w ls i).lastSeenSeq ≤ (stateAfter w ls j).lastSeenSeq := by
  induction j, hij using Nat.le_induction with
  | base => exact UInt64.le_refl _
  | succ j hij ih =>
      obtain ⟨l, hl⟩ : ∃ l, ls[j]? = some l := ⟨ls[j], List.getElem?_eq_getElem hj⟩
      apply UInt64.le_trans (ih (Nat.le_of_succ_le hj))
      rw [stateAfter_succ hl]
      exact UInt64.le_of_lt (hlinked.linkedTo hl).seq

/-- Whatever pages the calls are answered with, they accept the first messages of
the peer's chain, each once and in order; the numbers do not decrease; and a
page with the whole chain is read to its end.  The profile is deployed, and the
session id has no white space around it. -/
theorem reads_chain {a b : ConnectSessionState} {ms : List (Sent F)}
    (hchain : Chain p sessionId "c2w" a ms b) (hmirror : Mirror p.crypto a w)
    (hsession : IsTrimmed sessionId) {polls : List Poll}
    (hdeployed : ∀ poll ∈ polls, poll.answer.isDeployed = true)
    (hideal : IdealFor p sessionId w ms (textsOf polls)) :
    (∃ k, ReadUpTo p sessionId a ms b w k (run p sessionId w polls)) ∧
      (∀ earlier later, polls = earlier ++ later → ∃ s s',
        (run p sessionId w earlier).stored = some s ∧ (run p sessionId w polls).stored = some s' ∧
          s.lastSeenSeq ≤ s'.lastSeenSeq) ∧
      ∀ earlier poll later, polls = earlier ++ poll :: later → ListsChain ms poll →
        (∀ record ∈ poll.records, w.isExpired record.now = false) →
          ReadUpTo p sessionId a ms b w ms.length (run p sessionId w (earlier ++ [poll])) := by
  obtain ⟨secret, root, hsecret, hroot, hideal⟩ := hideal
  obtain ⟨ls, rfl, hlinked, hprefix⟩ := exists_links hideal.agrees hchain hmirror hsecret hroot
  have hread {k : ℕ} {reader : Reader} (h : Reached p w ls k reader) :
      ReadUpTo p sessionId a (ls.map (Link.sent p.serde)) b w k reader := by
    obtain ⟨d, hd, hmirror'⟩ := hprefix k h.le
    refine ⟨?_, ?_, _, h.stored, ?_, d, hd, hmirror'⟩
    · rw [List.length_map]
      exact h.le
    · rw [h.accepted, ← List.map_take, List.map_map]
      rfl
    · exact (lastSeq_take p.serde w h.le).symm
  have hrun {earlier : List Poll} (hearlier : ∀ poll ∈ earlier, poll ∈ polls) {k : ℕ}
      {reader : Reader} (h : Reached p w ls k reader) :=
    h.run hlinked hsecret hroot hideal hsession (fun poll hpoll ↦ hdeployed poll (hearlier poll hpoll))
      fun poll hpoll record hrecord ↦ mem_textsOf (hearlier poll hpoll) hrecord
  refine ⟨?_, ?_, ?_⟩
  · obtain ⟨k, -, hk⟩ := hrun (fun _ ↦ id) (Reached.start w ls)
    exact ⟨k, hread hk⟩
  · rintro earlier later rfl
    obtain ⟨i, -, hi⟩ := hrun (fun _ ↦ List.mem_append_left _) (Reached.start w ls)
    obtain ⟨j, hij, hj⟩ := hrun (fun _ ↦ List.mem_append_right _) hi
    rw [← List.foldl_append] at hj
    exact ⟨_, _, hi.stored, hj.stored, lastSeenSeq_le hlinked hij hj.le⟩
  · rintro earlier poll later rfl hlists hexpired
    obtain ⟨i, -, hi⟩ := hrun (fun _ ↦ List.mem_append_left _) (Reached.start w ls)
    have hpoll : poll ∈ earlier ++ poll :: later :=
      List.mem_append_right _ List.mem_cons_self
    obtain ⟨-, hall⟩ := hi.call hlinked hsecret hroot hideal hsession (hdeployed poll hpoll)
      fun record hrecord ↦ mem_textsOf hpoll hrecord
    rw [run, List.foldl_append, List.foldl_cons, List.foldl_nil, List.length_map]
    exact hread (hall hlists hexpired)

/-! ## Calls that accept nothing -/

/-- An expired session accepts nothing. -/
theorem acceptWithRekey_of_isExpired {record : Record} (h : w.isExpired record.now = true) :
    acceptWithRekey p sessionId w record = none := by
  cases haccept : acceptWithRekey p sessionId w record with
  | none => rfl
  | some accepted =>
      obtain ⟨dh, e, rekey, body, -, -, hrekey, -⟩ := acceptWithRekey_eq_some haccept
      rw [rekeyInbound] at hrekey
      obtain ⟨⟨⟩, hvalid, -⟩ := Outcome.bind_eq_ok_iff.mp hrekey
      rw [ConnectSessionState.ensureNotExpired, h] at hvalid
      cases hvalid

/-- A session with white space around its id accepts nothing. -/
theorem acceptWithRekey_of_not_isTrimmed (h : ¬IsTrimmed sessionId) (record : Record) :
    acceptWithRekey p sessionId w record = none := by
  cases haccept : acceptWithRekey p sessionId w record with
  | none => rfl
  | some accepted =>
      obtain ⟨-, -, -, -, -, -, -, -, -, -, -, -, htrimmed⟩ := acceptWithRekey_eq_some haccept
      exact absurd htrimmed h

theorem acceptedOf_foldl {records : List Record} {l : Loop} (hstate : l.currentState = some w)
    (hnone : ∀ record ∈ records, acceptWithRekey p sessionId w record = none) :
    acceptedOf (records.foldl (processRecord p sessionId) l).messages = acceptedOf l.messages := by
  induction records generalizing l with
  | nil => rfl
  | cons record records ih =>
      have hrecord := hnone record List.mem_cons_self
      have hsame : acceptedOf (processRecord p sessionId l record).messages =
          acceptedOf l.messages := by
        rw [processRecord, hstate, Option.bind_some, hrecord, acceptedOf_append,
          acceptedOf_parseWithCurrent, List.append_nil]
      have hstate' : (processRecord p sessionId l record).currentState = some w := by
        rw [processRecord, hstate, Option.bind_some, hrecord]
      rw [List.foldl_cons, ih hstate' fun r hr ↦ hnone r (List.mem_cons_of_mem _ hr), hsame]

/-- Nothing is read up to a message by a call that accepts no record. -/
theorem not_readUpTo {a b : ConnectSessionState} {ms : List (Sent F)} {poll : Poll}
    (hsession : Text.isBlank sessionId = false) (hdeployed : poll.answer.isDeployed = true)
    (hsucceeds : poll.Succeeds)
    (hnone : ∀ record ∈ poll.records, acceptWithRekey p sessionId w record = none) {k : ℕ}
    (hk : k ≠ 0) : ¬ReadUpTo p sessionId a ms b w k (run p sessionId w [poll]) := by
  intro h
  have haccepted := congrArg List.length h.accepted
  rw [run, List.foldl_cons, List.foldl_nil, call_of_succeeds _ hsession hdeployed hsucceeds,
    afterLoop, acceptedOf_foldl rfl hnone, List.length_map, List.length_map,
    List.length_take_of_le h.le] at haccepted
  exact hk haccepted.symm

/-! ## A chain of one message -/

def exampleChallenge (sessionId : String) (root : Bytes32) : Sent Empty :=
  (exampleLink (exampleHeader sessionId "c2w" 1700000001000 typeSignChallenge)
    (challengeBody "one") firstKey root).sent Json.Compact.serde

/-- The dApp after this message. -/
def exampleSender (root : Bytes32) : ConnectSessionState :=
  exampleState (repeated 3) walletKey root 1700000000000 1700000001000

def examplePoll (text : String) (now : UInt64) (isDeployed : Bool) : Poll :=
  ⟨"profile", .ok "0:1", isDeployed, .ok ([⟨"event-1", 1700000001, text, now⟩], none)⟩

/-- The calls are given pages with the chain of this message. -/
structure ListsExample (sessionId : String) (root : Bytes32) (poll : Poll) : Prop where
  chain : Chain examplePrimitives sessionId "c2w" exampleDapp [exampleChallenge sessionId root]
    (exampleSender root)
  mirror : Mirror examplePrimitives.crypto exampleDapp exampleWallet
  ideal : IdealFor examplePrimitives sessionId exampleWallet [exampleChallenge sessionId root]
    (textsOf [poll])
  lists : ListsChain [exampleChallenge sessionId root] poll

def ReadsExample (sessionId : String) (root : Bytes32) (poll : Poll) : Prop :=
  ReadUpTo examplePrimitives sessionId exampleDapp [exampleChallenge sessionId root]
    (exampleSender root) exampleWallet 1 (run examplePrimitives sessionId exampleWallet [poll])

theorem listsExample {sessionId : String} {root : Bytes32}
    (h : ExampleStep sessionId (repeated 3) firstKey walletKey startRoot root)
    (hderived : ∀ r ∈ [startRoot, root], IsDerived sessionId r firstKey) (now : UInt64)
    (isDeployed : Bool) :
    ListsExample sessionId root
      (examplePoll (exampleChallenge sessionId root).text now isDeployed) where
  chain := h.chain (by decide) "c2w" typeSignChallenge (challengeBody "one") (.nil _)
  mirror := mirror_example
  ideal := idealFor_exampleLink h hderived "c2w" typeSignChallenge (challengeBody "one")
    (List.Subset.refl _)
  lists := ⟨⟨Eq.refl (Text.isBlank "profile"), ⟨_, rfl⟩, ⟨_, rfl⟩⟩, List.Sublist.refl _⟩

theorem listsExample_first (now : UInt64) (isDeployed : Bool) :
    ListsExample "session-1" firstRoot
      (examplePoll (exampleChallenge "session-1" firstRoot).text now isDeployed) :=
  listsExample exampleStep_first isDerived_first now isDeployed

theorem listsExample_spaced (now : UInt64) (isDeployed : Bool) :
    ListsExample " session-1" spacedRoot
      (examplePoll (exampleChallenge " session-1" spacedRoot).text now isDeployed) :=
  listsExample exampleStep_spaced isDerived_example.2 now isDeployed

theorem isExpired_examplePoll {text : String} {now : UInt64} (h : now < 1700086400)
    (isDeployed : Bool) :
    ∀ record ∈ (examplePoll text now isDeployed).records,
      exampleWallet.isExpired record.now = false := by
  intro record hrecord
  rw [List.mem_singleton.mp hrecord]
  exact isExpired_exampleState h

theorem reads_chain_example : ReadsExample "session-1" firstRoot
    (examplePoll (exampleChallenge "session-1" firstRoot).text 1700000002 true) := by
  have h := listsExample_first 1700000002 true
  obtain ⟨-, -, hlists⟩ := reads_chain h.chain h.mirror ⟨by decide, by decide⟩
    (List.forall_mem_singleton.mpr rfl) h.ideal
  exact hlists [] _ [] rfl h.lists (isExpired_examplePoll (by decide) true)

/-- A session that has expired, a profile that is not deployed, and a session
whose identifier begins with a space. -/
theorem not_reads_chain :
    (∃ poll, ListsExample "session-1" firstRoot poll ∧ poll.answer.isDeployed = true ∧
      ¬ReadsExample "session-1" firstRoot poll) ∧
    (∃ poll, ListsExample "session-1" firstRoot poll ∧
      (∀ record ∈ poll.records, exampleWallet.isExpired record.now = false) ∧
      (run examplePrimitives "session-1" exampleWallet [poll]).stored = none) ∧
    ∃ poll, ListsExample " session-1" spacedRoot poll ∧ poll.answer.isDeployed = true ∧
      (∀ record ∈ poll.records, exampleWallet.isExpired record.now = false) ∧
      ¬ReadsExample " session-1" spacedRoot poll := by
  refine ⟨⟨_, listsExample_first 1700086400 true, rfl, ?_⟩,
    ⟨_, listsExample_first 1700000002 false, isExpired_examplePoll (by decide) false, rfl⟩,
    ⟨_, listsExample_spaced 1700000002 true, rfl, isExpired_examplePoll (by decide) true, ?_⟩⟩
  · apply not_readUpTo (by decide) rfl (listsExample_first _ _).lists.succeeds _ one_ne_zero
    intro record hrecord
    rw [List.mem_singleton.mp hrecord]
    exact acceptWithRekey_of_isExpired rfl
  · apply not_readUpTo (by decide) rfl (listsExample_spaced _ _).lists.succeeds _ one_ne_zero
    intro record _
    exact acceptWithRekey_of_not_isTrimmed (fun h ↦ absurd h.2 (by decide)) record

end SessionReader

end BeeEngine
