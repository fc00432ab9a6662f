import BeeEngine.SnapshotReply

/-!
# Challenges that are given up

The dApp sends `sign_challenge` from the state before it each time, since it
keeps that state when the wait times out.  The wallet may have read a challenge
by then, or have answered it.
-/

namespace BeeEngine

open ConnectMessage WalletMessage Dh Ratchet MessageChain SessionMessages SessionReader
  MessageFinders SnapshotReply
open Json (Value)

namespace AbandonedChallenge

variable {F : Type}

/-! ## Attempts -/

/-- A `sign_challenge` that is sent from a state, and the state after it. -/
structure Challenge (p : Primitives F) (sessionId : String) (a : ConnectSessionState) (m : Sent F)
    (d : ConnectSessionState) : Prop where
  sent : Chain p sessionId "c2w" a [m] d
  ofType : m.header.msgType = typeSignChallenge

/-- The wallet reads all events of the profile in order. -/
structure ReadsAll (p : Primitives F) (sessionId : String) (v : ConnectSessionState)
    (texts : List String) (poll : Poll) (result : ResultOfQuerySessionMessages) : Prop where
  deployed : poll.answer.isDeployed = true
  texts : poll.records.map Record.text = texts
  query : querySessionMessages p ⟨sessionId, poll.description, some v⟩ poll.answer = .ok result

/-- The states that stand with the messages of a result. -/
def statesOf (result : ResultOfQuerySessionMessages) : List ConnectSessionState :=
  result.messages.filterMap (·.sessionStateAfter)

/-- Challenges that the dApp has given up, while it kept the state `a`: the
state that the wallet has stored, the states it went through, the events of the
profile and the number of challenges. -/
inductive Abandoned (p : Primitives F) (sessionId : String) (a w : ConnectSessionState)
    (old : List String) :
    ConnectSessionState → List ConnectSessionState → List String → ℕ → Prop
  | start : Abandoned p sessionId a w old w [w] old 0
  /-- The wallet has not read the challenge. -/
  | unread {v : ConnectSessionState} {states : List ConnectSessionState} {texts : List String}
      {n : ℕ} {m : Sent F} {d : ConnectSessionState} :
      Abandoned p sessionId a w old v states texts n → Challenge p sessionId a m d →
      Abandoned p sessionId a w old v states (texts ++ [m.text]) (n + 1)
  /-- The wallet has read it and stored its state. -/
  | read {v v' : ConnectSessionState} {states : List ConnectSessionState} {texts : List String}
      {n : ℕ} {m : Sent F} {d : ConnectSessionState} {poll : Poll}
      {result : ResultOfQuerySessionMessages} :
      Abandoned p sessionId a w old v states texts n → Challenge p sessionId a m d →
      ReadsAll p sessionId v (texts ++ [m.text]) poll result →
      result.updatedSessionState = some v' →
      Abandoned p sessionId a w old v' (states ++ statesOf result) (texts ++ [m.text]) (n + 1)
  /-- The wallet has answered from the state of a message and stored the state
  after its response. -/
  | answered {v s : ConnectSessionState} {states : List ConnectSessionState} {texts : List String}
      {n : ℕ} {m : Sent F} {d : ConnectSessionState} {poll : Poll}
      {result : ResultOfQuerySessionMessages} {secret salt : Bytes32} {body : Value F}
      {r : RekeyResult} {response : String} :
      Abandoned p sessionId a w old v states texts n → Challenge p sessionId a m d →
      ReadsAll p sessionId v (texts ++ [m.text]) poll result → s ∈ statesOf result →
      IsReply p sessionId typeChallengeResponse s secret salt body r response →
      Abandoned p sessionId a w old r.updatedState (states ++ statesOf result ++ [r.updatedState])
        (texts ++ [m.text, response]) (n + 1)

/-! ## The next attempt -/

/-- The dApp finds every response that the wallet makes from a state, and then
the two states mirror each other. -/
def Answered (p : Primitives F) (sessionId : String) (d s : ConnectSessionState)
    (texts : List String) : Prop :=
  ∀ secret salt nonce signature walletAddress epkPublic r response,
    IsReply p sessionId typeChallengeResponse s secret salt
      (challengeResponseBody nonce signature walletAddress epkPublic) r response →
    ∀ now records, records.map Record.text = texts ++ [response] → d.isExpired now = false →
      (∀ record ∈ records, d.isExpired record.now = false) → ∃ found d',
        findChallengeResponseEvent p sessionId (some d) now (.ok records) = .ok (some found) ∧
        found.nonce = nonce ∧ found.signature = signature ∧ found.walletAddress = walletAddress ∧
        found.epkPublic = epkPublic ∧ found.updatedSessionState = some d' ∧
        Mirror p.crypto r.updatedState d'

/-- The wallet's query accepts the challenge, and its response is found. -/
def Recovers (p : Primitives F) (sessionId : String) (d : ConnectSessionState) (m : Sent F)
    (texts : List String) (result : ResultOfQuerySessionMessages) : Prop :=
  ∃ msg ∈ result.messages, msg.rawMessageJson = m.text ∧ ∃ s, msg.sessionStateAfter = some s ∧
    Answered p sessionId d s texts

/-! ## What is assumed -/

/-- What a state derives with these keys of its peer, for messages with these
salts. -/
def stateInputs (c : Crypto) (sessionId : String) (peers : List Bytes32) (salts : List Bytes)
    (s : ConnectSessionState) : List KdfInput :=
  match keyOf s.myDhSecret, keyOf s.encryptionRoot with
  | some secret, some root => peers.flatMap (inputsAt c sessionId secret salts root)
  | _, _ => []

/-- The derivation of keys is ideal on what the wallet derives in these states,
and the root it began with does not come back. -/
structure IdealRun (p : Primitives F) (sessionId : String) (w : ConnectSessionState)
    (states : List ConnectSessionState) (texts : List String) : Prop where
  injective : Set.InjOn (kdf p.crypto) {i | ∃ s ∈ states,
    i ∈ stateInputs p.crypto sessionId (peersOf p.serde texts) (saltsOf p.serde texts) s}
  fresh : ∀ s ∈ states, keyOf s.encryptionRoot = keyOf w.encryptionRoot → s = w

/-- Nobody who does not know the root of the state has made the ciphertext. -/
def Foreign (p : Primitives F) (sessionId : String) (s : ConnectSessionState) (text : String) :
    Prop :=
  ∀ x, sealedOf p.serde text = some x → ∀ secret root : Bytes32, s.myDhSecret = secret.hex →
    s.encryptionRoot = root.hex → ¬MadeUnder p sessionId secret [root] x

variable {p : Primitives F} {sessionId : String} {a d w v : ConnectSessionState}
  {old texts : List String} {n : ℕ} {m : Sent F} {states : List ConnectSessionState}

/-- A foreign text does not open. -/
theorem not_openBody_of_foreign {secret root : Bytes32} (hsecret : w.myDhSecret = secret.hex)
    (hroot : w.encryptionRoot = root.hex) {text : String} (hforeign : Foreign p sessionId w text)
    {e : ConnectMessageEnvelope F}
    (he : p.serde.fromStr ConnectMessageEnvelope.read text = some e) {dh : String}
    {seq now : UInt64} {rekey : RekeyResult}
    (hrekey : rekeyInbound p.crypto w dh sessionId seq now = .ok rekey) {session : String}
    {body : Value F} : openBody p e session rekey.messageEncryptionRoot ≠ .ok body := by
  intro hopen
  obtain ⟨secret', root', k, hsecret', hroot', -, rfl⟩ := rekeyInbound_eq_nextRoot hrekey
  rw [hsecret, keyOf_hex] at hsecret'
  rw [hroot, keyOf_hex] at hroot'
  obtain rfl := Option.some.inj hsecret'
  obtain rfl := Option.some.inj hroot'
  obtain ⟨x, ts, key, plaintext, hx, -, hkey, hdecrypt, -⟩ := openBody_eq_ok_iff.mp hopen
  rw [decodeEncryptionSecret_hex] at hkey
  obtain rfl := Except.ok.inj hkey
  have hsealed : sealedOf p.serde text = some x := by
    rw [sealedOf, he]
    exact hx
  exact hforeign x hsealed secret root hsecret hroot
    ⟨root, List.mem_cons_self, k, _, _, _, p.aead.encrypt_of_decrypt hdecrypt⟩

/-! ## States of the loop -/

/-- The loop has gone on from a state. -/
def Later (v u : ConnectSessionState) : Prop := u = v ∨ v.lastSeenSeq < u.lastSeenSeq

theorem Later.lt {x y z : ConnectSessionState} (h : x.lastSeenSeq < y.lastSeenSeq)
    (h' : Later y z) : x.lastSeenSeq < z.lastSeenSeq := by
  obtain rfl | hlt := h'
  · exact h
  · exact UInt64.lt_trans h hlt

theorem Later.trans {x y z : ConnectSessionState} (h : Later x y) (h' : Later y z) : Later x z := by
  obtain rfl | hlt := h
  · exact h'
  · exact .inr (Later.lt hlt h')

theorem Later.le {x y : ConnectSessionState} (h : Later x y) : x.lastSeenSeq ≤ y.lastSeenSeq := by
  obtain rfl | hlt := h
  · exact UInt64.le_refl _
  · exact UInt64.le_of_lt hlt

theorem lastSeenSeq_lt_of_accept {u s : ConnectSessionState} {record : Record}
    {msg : ConnectSessionMessage} (h : acceptWithRekey p sessionId u record = some (msg, s)) :
    u.lastSeenSeq < s.lastSeenSeq := by
  obtain ⟨dh, e, rekey, body, -, -, hrekey, -, rfl, -⟩ := acceptWithRekey_eq_some h
  obtain ⟨shared, root, hseq, -, -, rfl⟩ := rekeyInbound_eq_ok hrekey
  exact hseq

theorem processRecord_of_accept {l : Loop} {u s : ConnectSessionState} {record : Record}
    {msg : ConnectSessionMessage} (hu : l.currentState = some u)
    (h : acceptWithRekey p sessionId u record = some (msg, s)) :
    processRecord p sessionId l record = ⟨some s, true, l.messages ++ [msg]⟩ := by
  rw [processRecord, hu, Option.bind_some, h]

/-- The state after some events is that before them or stands with one of the
messages. -/
theorem exists_state_foldl (p : Primitives F) (sessionId : String) (records : List Record)
    {l : Loop} (hv : l.currentState = some v) :
    ∃ u, (records.foldl (processRecord p sessionId) l).currentState = some u ∧ Later v u ∧
      (u = v ∨ ∃ msg ∈ (records.foldl (processRecord p sessionId) l).messages,
        msg.sessionStateAfter = some u) := by
  induction records generalizing l v with
  | nil => exact ⟨v, hv, .inl rfl, .inl rfl⟩
  | cons record records ih =>
      rw [List.foldl_cons]
      cases haccept : acceptWithRekey p sessionId v record with
      | none =>
          have hstate : (processRecord p sessionId l record).currentState = some v := by
            rw [processRecord, hv, Option.bind_some, haccept]
          exact ih hstate
      | some accepted =>
          obtain ⟨msg, s⟩ := accepted
          have hlt := lastSeenSeq_lt_of_accept haccept
          obtain ⟨-, -, -, -, -, -, -, -, -, hafter, -⟩ := acceptWithRekey_eq_some haccept
          rw [processRecord_of_accept hv haccept]
          obtain ⟨u, hu, hlater, hmsg⟩ := ih (l := ⟨some s, true, l.messages ++ [msg]⟩) rfl
          refine ⟨u, hu, (Later.trans (.inr hlt) hlater), .inr ?_⟩
          obtain rfl | hmsg := hmsg
          · exact ⟨msg, mem_foldl_of_mem (List.mem_append_right _ List.mem_cons_self), hafter⟩
          · exact hmsg

theorem mem_processRecord {l : Loop} (hv : l.currentState = some v) {record : Record}
    {msg : ConnectSessionMessage} {s : ConnectSessionState}
    (h : msg ∈ (processRecord p sessionId l record).messages)
    (hs : msg.sessionStateAfter = some s) :
    msg ∈ l.messages ∨ acceptWithRekey p sessionId v record = some (msg, s) := by
  cases haccept : acceptWithRekey p sessionId v record with
  | none =>
      rw [processRecord, hv, Option.bind_some, haccept] at h
      obtain h | h := List.mem_append.mp h
      · exact .inl h
      · rw [sessionStateAfter_of_parseWithCurrent (Option.mem_toList.mp h)] at hs
        cases hs
  | some accepted =>
      obtain ⟨msg', s'⟩ := accepted
      rw [processRecord_of_accept hv haccept] at h
      obtain h | h := List.mem_append.mp h
      · exact .inl h
      · obtain rfl := List.mem_singleton.mp h
        obtain ⟨-, -, -, -, -, -, -, -, -, hafter, -⟩ := acceptWithRekey_eq_some haccept
        rw [hafter] at hs
        obtain rfl := Option.some.inj hs
        exact .inr rfl

/-- A message with a state was accepted at some event. -/
theorem exists_accept_of_mem {records : List Record} {l : Loop} (hv : l.currentState = some v)
    {msg : ConnectSessionMessage} {s : ConnectSessionState}
    (h : msg ∈ (records.foldl (processRecord p sessionId) l).messages)
    (hs : msg.sessionStateAfter = some s) :
    msg ∈ l.messages ∨ ∃ before record after u, records = before ++ record :: after ∧
      (before.foldl (processRecord p sessionId) l).currentState = some u ∧
      acceptWithRekey p sessionId u record = some (msg, s) := by
  induction records generalizing l v with
  | nil => exact .inl h
  | cons record records ih =>
      rw [List.foldl_cons] at h
      obtain ⟨u, hu, -, -⟩ := exists_state_foldl p sessionId [record] hv
      obtain hmem | ⟨before, record', after, u', rfl, hu', haccept⟩ := ih hu h
      · obtain hmem | haccept := mem_processRecord hv hmem hs
        · exact .inl hmem
        · exact .inr ⟨[], record, records, v, rfl, hv, haccept⟩
      · exact .inr ⟨record :: before, record', after, u', rfl, hu', haccept⟩

/-- What the wallet reads, and the states that it goes through. -/
theorem ReadsAll.exists_loop {poll : Poll} {result : ResultOfQuerySessionMessages}
    (h : ReadsAll p sessionId v texts poll result) :
    ∃ l, l = poll.records.foldl (processRecord p sessionId) ⟨some v, false, []⟩ ∧
      result.messages = l.messages ∧ ∀ v', result.updatedSessionState = some v' →
        v' = v ∨ l.currentState = some v' := by
  obtain ⟨events, cursor, hpage, l, hl, hmessages, hstate⟩ :=
    querySessionMessages_eq_ok h.query h.deployed
  refine ⟨l, ?_, hmessages, ?_⟩
  · rw [Poll.records, hpage]
    exact hl
  · intro v' hv'
    rw [hstate] at hv'
    split at hv'
    · exact .inr hv'
    · exact .inl (Option.some.inj hv').symm

theorem mem_statesOf {result : ResultOfQuerySessionMessages} {s : ConnectSessionState} :
    s ∈ statesOf result ↔ ∃ msg ∈ result.messages, msg.sessionStateAfter = some s :=
  List.mem_filterMap

/-- A state of a read comes after the state before it. -/
theorem ReadsAll.lt_of_mem_statesOf {poll : Poll} {result : ResultOfQuerySessionMessages}
    (h : ReadsAll p sessionId v texts poll result) {s : ConnectSessionState}
    (hs : s ∈ statesOf result) : v.lastSeenSeq < s.lastSeenSeq := by
  obtain ⟨l, rfl, hmessages, -⟩ := h.exists_loop
  obtain ⟨msg, hmsg, hafter⟩ := mem_statesOf.mp hs
  rw [hmessages] at hmsg
  obtain hnil | ⟨before, record, after, u, -, hu, haccept⟩ := exists_accept_of_mem rfl hmsg hafter
  · cases hnil
  · obtain ⟨u', hu', hlater, -⟩ := exists_state_foldl p sessionId before
            (l := ⟨some v, false, []⟩) rfl
    obtain rfl := Option.some.inj (hu.symm.trans hu')
    have hlt := lastSeenSeq_lt_of_accept haccept
    exact UInt64.lt_of_le_of_lt hlater.le hlt

/-- What a read stores is the state before it or one of its states. -/
theorem ReadsAll.stored {poll : Poll} {result : ResultOfQuerySessionMessages}
    (h : ReadsAll p sessionId v texts poll result) {v' : ConnectSessionState}
    (hv' : result.updatedSessionState = some v') : v' = v ∨ v' ∈ statesOf result := by
  obtain ⟨l, rfl, hmessages, hstored⟩ := h.exists_loop
  obtain rfl | hstate := hstored v' hv'
  · exact .inl rfl
  · obtain ⟨u, hu, -, hmsg⟩ := exists_state_foldl p sessionId poll.records
      (l := ⟨some v, false, []⟩) rfl
    obtain rfl := Option.some.inj (hstate.symm.trans hu)
    obtain rfl | hmsg := hmsg
    · exact .inl rfl
    · rw [← hmessages] at hmsg
      exact .inr (mem_statesOf.mpr hmsg)

/-! ## States of the wallet -/

/-- The wallet has stored the state that it began with or one that comes after
it, and the first challenge stands among the events. -/
structure Invariant (p : Primitives F) (sessionId : String) (a w v : ConnectSessionState)
    (states : List ConnectSessionState) (texts : List String) (n : ℕ) : Prop where
  mem : v ∈ states
  start_mem : w ∈ states
  later : Later w v
  challenge : 0 < n → ∃ m d, Challenge p sessionId a m d ∧ m.text ∈ texts

theorem Abandoned.invariant (h : Abandoned p sessionId a w old v states texts n) :
    Invariant p sessionId a w v states texts n := by
  induction h with
  | start =>
      exact ⟨List.mem_cons_self, List.mem_cons_self, .inl rfl, fun hn ↦ absurd hn (by decide)⟩
  | unread hrun hm ih =>
      refine ⟨ih.mem, ih.start_mem, ih.later, fun _ ↦ ⟨_, _, hm, ?_⟩⟩
      exact List.mem_append_right _ List.mem_cons_self
  | read hrun hm hread hstored ih =>
      obtain rfl | hmem := hread.stored hstored
      · refine ⟨List.mem_append_left _ ih.mem, List.mem_append_left _ ih.start_mem, ih.later,
          fun _ ↦ ⟨_, _, hm, ?_⟩⟩
        exact List.mem_append_right _ List.mem_cons_self
      · refine ⟨List.mem_append_right _ hmem, List.mem_append_left _ ih.start_mem,
          ih.later.trans (.inr (hread.lt_of_mem_statesOf hmem)), fun _ ↦ ⟨_, _, hm, ?_⟩⟩
        exact List.mem_append_right _ List.mem_cons_self
  | answered hrun hm hread hs hreply ih =>
      obtain ⟨seq, now, nonce, ts, hr, -⟩ := hreply
      obtain ⟨secret, shared, root, -, -, -, -, -, rfl⟩ := rekeyOutbound_eq_ok hr
      have hlt := hread.lt_of_mem_statesOf hs
      refine ⟨List.mem_append_right _ List.mem_cons_self,
        List.mem_append_left _ (List.mem_append_left _ ih.start_mem),
        ih.later.trans (.inr hlt), fun _ ↦ ⟨_, _, hm, ?_⟩⟩
      exact List.mem_append_right _ List.mem_cons_self

/-! ## A challenge from the first state -/

/-- A challenge as the link of a receiver that mirrors its sender. -/
theorem Challenge.exists_link (hc : p.crypto.Agrees) (h : Challenge p sessionId a m d)
    (hmirror : Mirror p.crypto a w) :
    ∃ (secret root : Bytes32) (l : Link F), w.myDhSecret = secret.hex ∧
      w.encryptionRoot = root.hex ∧ m = l.sent p.serde ∧
      Linked p sessionId "c2w" secret root w.lastSeenSeq [l] ∧ Mirror p.crypto d (advance w l) := by
  obtain ⟨root, -, hroot⟩ := hmirror.root
  obtain ⟨secret, hsecret, -⟩ := hmirror.key'
  obtain ⟨ls, hms, hlinked, hprefix⟩ := exists_links hc h.sent hmirror hsecret hroot
  match ls with
  | [] => cases hms
  | l :: l' :: ls => cases hms
  | [l] =>
      obtain ⟨d', ⟨-, hafter⟩, hmirror'⟩ := hprefix 1 le_rfl
      obtain rfl := Chain.eq_of_nil hafter
      rw [stateAfter_succ (i := 0) rfl, stateAfter_zero] at hmirror'
      exact ⟨secret, root, l, hsecret, hroot, List.head_eq_of_cons_eq hms, hlinked, hmirror'⟩

/-- Only a state with the first root accepts it. -/
theorem root_of_accept {l : Link F} {secret root : Bytes32} (hsecret : w.myDhSecret = secret.hex)
    (hroot : w.encryptionRoot = root.hex)
    (hlinked : Linked p sessionId "c2w" secret root w.lastSeenSeq [l])
    (hideal : IdealRun p sessionId w states texts) (htext : (l.sent p.serde).text ∈ texts)
    {u s : ConnectSessionState} (hw : w ∈ states) (hu : u ∈ states) {record : Record}
    (hrecord : record.text = (l.sent p.serde).text) {msg : ConnectSessionMessage}
    (haccept : acceptWithRekey p sessionId u record = some (msg, s)) : u = w := by
  obtain ⟨dh, e, rekey, body, hdh, he, hrekey, hopen, -⟩ := acceptWithRekey_eq_some haccept
  rw [hrecord, dhPublicOf_sent] at hdh
  obtain rfl := Option.some.inj hdh
  rw [hrecord, fromStr_sent] at he
  obtain rfl := Option.some.inj he
  obtain ⟨uSecret, uRoot, k, huSecret, huRoot, hk, rfl⟩ := rekeyInbound_eq_nextRoot hrekey
  rw [keyOf_hex] at hk
  obtain rfl := Option.some.inj hk
  have hbody := hlinked.1.body
  obtain ⟨-, -, root', hroot', hkey⟩ := hbody.of_openBody (hbody.sealedBody?_envelopeOf _) hopen
  rw [decodeEncryptionSecret_hex] at hroot'
  obtain rfl := Except.ok.inj hroot'
  rw [hlinked.1.root] at hkey
  have hpeer := mem_peersOf htext (dhPublicOf_sent p.serde l) (keyOf_hex l.dhPublic)
  have hsalt := mem_saltsOf htext (hlinked.sealedOf_sent List.mem_cons_self)
  -- Both states derive the key of the message, so their roots are the same.
  have hinputs {x : ConnectSessionState} {xSecret xRoot : Bytes32}
      (hxSecret : keyOf x.myDhSecret = some xSecret)
      (hxRoot : keyOf x.encryptionRoot = some xRoot) {i : KdfInput}
      (hi : i ∈ inputsAt p.crypto sessionId xSecret (saltsOf p.serde texts) xRoot l.dhPublic) :
      i ∈ stateInputs p.crypto sessionId (peersOf p.serde texts) (saltsOf p.serde texts) x := by
    rw [stateInputs, hxSecret, hxRoot]
    exact List.mem_flatMap.mpr ⟨l.dhPublic, hpeer, hi⟩
  have hwSecret : keyOf w.myDhSecret = some secret := by
    rw [hsecret]
    exact keyOf_hex secret
  have hwRoot : keyOf w.encryptionRoot = some root := by
    rw [hroot]
    exact keyOf_hex root
  have hnext := hideal.injective
    ⟨u, hu, hinputs huSecret huRoot (List.mem_cons_of_mem _ (List.mem_map_of_mem hsalt))⟩
    ⟨w, hw, hinputs hwSecret hwRoot (List.mem_cons_of_mem _ (List.mem_map_of_mem hsalt))⟩ hkey
  have hroots := Bytes32.bytes_injective (congrArg (fun i ↦ i.2.1) hnext)
  have hinput := hideal.injective ⟨u, hu, hinputs huSecret huRoot List.mem_cons_self⟩
    ⟨w, hw, hinputs hwSecret hwRoot List.mem_cons_self⟩ hroots
  obtain ⟨rfl, -⟩ := rekeyInput_injective hinput
  exact hideal.fresh u hu (huRoot.trans hwRoot.symm)

/-! ## After attempts that were given up -/

theorem eq_of_append_singleton {α : Type} {xs before after : List α} {y : α}
    (h : xs ++ [y] = before ++ y :: after) (hy : y ∉ xs) : xs = before := by
  obtain rfl | ⟨after', z, rfl⟩ := List.eq_nil_or_concat after
  · exact List.append_inj_left' h rfl
  · rw [List.concat_eq_append, ← List.cons_append, ← List.append_assoc] at h
    have hxs := List.append_inj_left' h rfl
    rw [hxs] at hy
    exact absurd (List.mem_append_right _ List.mem_cons_self) hy

/-- A wallet that reads a challenge from its first state goes on from it. -/
theorem ne_of_reads_challenge (hc : p.crypto.Agrees) (hsession : IsTrimmed sessionId)
    (hm : Challenge p sessionId a m d) (hmirror : Mirror p.crypto a w) {records : List Record}
    (hrecords : m.text ∈ records.map Record.text)
    (hfresh : ∀ record ∈ records, w.isExpired record.now = false) {l : Loop}
    (hl : l.currentState = some w) {u : ConnectSessionState}
    (hu : (records.foldl (processRecord p sessionId) l).currentState = some u) : u ≠ w := by
  obtain ⟨secret, root, link, hsecret, hroot, rfl, hlinked, -⟩ := hm.exists_link hc hmirror
  obtain ⟨record, hrecord, htext⟩ := List.mem_map.mp hrecords
  obtain ⟨before, after, rfl⟩ := List.mem_iff_append.mp hrecord
  rw [List.foldl_append, List.foldl_cons] at hu
  obtain ⟨u₁, hu₁, hlater, -⟩ := exists_state_foldl p sessionId before hl
  -- Whether the first state is still there when the challenge comes or not.
  have hnext : ∃ u₂, (processRecord p sessionId (before.foldl (processRecord p sessionId) l)
      record).currentState = some u₂ ∧ w.lastSeenSeq < u₂.lastSeenSeq := by
    obtain rfl | hlt := hlater
    · have haccept := acceptWithRekey_sent hlinked hsecret hroot hsession (i := 0) rfl htext
        (hfresh record hrecord)
      rw [stateAfter_zero] at haccept
      rw [processRecord_of_accept hu₁ haccept]
      exact ⟨_, rfl, lastSeenSeq_lt_of_accept haccept⟩
    · obtain ⟨u₂, hu₂, hlater', -⟩ := exists_state_foldl p sessionId [record] hu₁
      exact ⟨u₂, hu₂, Later.lt hlt hlater'⟩
  obtain ⟨u₂, hu₂, hlt⟩ := hnext
  obtain ⟨u', hu', hlater', -⟩ := exists_state_foldl p sessionId after hu₂
  obtain rfl := Option.some.inj (hu.symm.trans hu')
  rintro rfl
  exact absurd (Later.lt hlt hlater') (UInt64.lt_irrefl _)

/-- The wallet does not accept the next challenge once one was given up. -/
theorem not_accepted (hc : p.crypto.Agrees) (hsession : IsTrimmed sessionId)
    (hmirror : Mirror p.crypto a w) (hrun : Abandoned p sessionId a w old v states texts n)
    (hm : Challenge p sessionId a m d) {poll : Poll} {result : ResultOfQuerySessionMessages}
    (hread : ReadsAll p sessionId v (texts ++ [m.text]) poll result)
    (hfresh : ∀ record ∈ poll.records, w.isExpired record.now = false)
    (hideal : IdealRun p sessionId w (states ++ statesOf result) (texts ++ [m.text]))
    (hnew : m.text ∉ texts) (hn : 0 < n) {msg : ConnectSessionMessage}
    (hmsg : msg ∈ result.messages) (hraw : msg.rawMessageJson = m.text) :
    msg.sessionStateAfter = none := by
  cases hafter : msg.sessionStateAfter with
  | none => rfl
  | some s =>
      obtain ⟨secret, root, link, hsecret, hroot, rfl, hlinked, -⟩ := hm.exists_link hc hmirror
      obtain ⟨hv, hw, hlater, hchallenge⟩ := hrun.invariant
      obtain ⟨l, rfl, hmessages, -⟩ := hread.exists_loop
      rw [hmessages] at hmsg
      obtain hnil | ⟨before, record, after, u, hrecords, hu, haccept⟩ :=
        exists_accept_of_mem rfl hmsg hafter
      · cases hnil
      · obtain ⟨-, -, -, -, -, -, -, -, -, -, htext, -⟩ := acceptWithRekey_eq_some haccept
        rw [hraw] at htext
        have hbefore : before.map Record.text = texts := by
          have htexts := hread.texts
          rw [hrecords, List.map_append, List.map_cons, ← htext] at htexts
          exact (eq_of_append_singleton htexts.symm hnew).symm
        have hmem : u ∈ states ++ statesOf result := by
          obtain ⟨u', hu', -, hstate⟩ := exists_state_foldl p sessionId before
            (l := ⟨some v, false, []⟩) rfl
          obtain rfl := Option.some.inj (hu.symm.trans hu')
          obtain rfl | ⟨msg', hmsg', hafter'⟩ := hstate
          · exact List.mem_append_left _ hv
          · refine List.mem_append_right _ (mem_statesOf.mpr ⟨msg', ?_, hafter'⟩)
            rw [hmessages, hrecords, List.foldl_append]
            exact mem_foldl_of_mem hmsg'
        have hsame : u = w := root_of_accept hsecret hroot hlinked hideal
          (List.mem_append_right _ List.mem_cons_self) (List.mem_append_left _ hw) hmem htext.symm
          haccept
        obtain rfl | hlt := hlater
        · obtain ⟨m', d', hm', hmem'⟩ := hchallenge hn
          refine absurd hsame (ne_of_reads_challenge hc hsession hm' hmirror ?_ ?_ rfl hu)
          · rw [hbefore]
            exact hmem'
          · intro record' hrecord'
            apply hfresh
            rw [hrecords]
            exact List.mem_append_left _ hrecord'
        · obtain ⟨u', hu', hlater', -⟩ := exists_state_foldl p sessionId before
            (l := ⟨some v, false, []⟩) rfl
          obtain rfl := Option.some.inj (hu.symm.trans hu')
          obtain rfl := hsame
          exact absurd (Later.lt hlt hlater') (UInt64.lt_irrefl _)

/-! ## The first challenge -/

/-- A foreign text is not accepted. -/
theorem acceptWithRekey_of_foreign {secret root : Bytes32} (hsecret : w.myDhSecret = secret.hex)
    (hroot : w.encryptionRoot = root.hex) {record : Record}
    (hforeign : Foreign p sessionId w record.text) :
    acceptWithRekey p sessionId w record = none := by
  cases haccept : acceptWithRekey p sessionId w record with
  | none => rfl
  | some accepted =>
      obtain ⟨msg, s⟩ := accepted
      obtain ⟨dh, e, rekey, body, -, he, hrekey, hopen, -⟩ := acceptWithRekey_eq_some haccept
      exact absurd hopen (not_openBody_of_foreign hsecret hroot hforeign he hrekey)

theorem foldl_of_foreign {records : List Record}
    (h : ∀ record ∈ records, acceptWithRekey p sessionId w record = none) {l : Loop}
    (hl : l.currentState = some w) :
    (records.foldl (processRecord p sessionId) l).currentState = some w := by
  induction records generalizing l with
  | nil => exact hl
  | cons record records ih =>
      rw [List.foldl_cons]
      apply ih fun record hrecord ↦ h record (List.mem_cons_of_mem _ hrecord)
      rw [processRecord, hl, Option.bind_some, h record List.mem_cons_self]

/-- A foreign text is passed over. -/
theorem scan_of_foreign (hmirror : Mirror p.crypto d w) {dir msgType : String} {α : Type}
    {readBody : Value F → Option α} {record : Record} (hforeign : Foreign p sessionId d record.text) :
    ∃ failure, scan p sessionId dir msgType (some d) readBody record = .error failure := by
  obtain ⟨root, hroot, -⟩ := hmirror.root
  obtain ⟨secret, hsecret, -⟩ := hmirror.key
  cases hscan : scan p sessionId dir msgType (some d) readBody record with
  | error failure => exact ⟨failure, rfl⟩
  | ok result =>
      obtain ⟨e, he, -, hopened⟩ := of_scan_eq_ok hscan
      obtain ⟨dh, rekey, body, -, hrekey, hopen, -⟩ := of_openEvent_eq_ok hopened
      exact absurd hopen (not_openBody_of_foreign hsecret hroot hforeign he hrekey)

/-- The response to the challenge is the first event that the dApp finds. -/
theorem answered_of_mirror (hc : p.crypto.Agrees) {l : Link F} (hdir : l.header.dir = "c2w")
    (hmirror : Mirror p.crypto d w) (hforeign : ∀ text ∈ old, Foreign p sessionId d text) :
    Answered p sessionId d w (old ++ [(l.sent p.serde).text]) := by
  intro secret salt nonce signature walletAddress epkPublic r response hreply now records hrecords
    hfresh hfreshAt
  obtain ⟨e, d', he, htype, hopen, hmirror'⟩ := exists_openEvent_of_mirror hc hmirror hreply
  obtain ⟨before, after, rfl, hbefore, hafter⟩ := List.map_eq_append_iff.mp hrecords
  obtain ⟨record, rfl, hrecord⟩ := List.map_eq_singleton_iff.mp hafter
  have hpassed : ∀ record ∈ before, ∃ failure, scan p sessionId "w2c" typeChallengeResponse (some d)
      ChallengeResponseBody.read record = .error failure := by
    intro record hmem
    have htext : record.text ∈ old ++ [(l.sent p.serde).text] :=
      hbefore ▸ List.mem_map_of_mem hmem
    obtain hold | hchallenge := List.mem_append.mp htext
    · exact scan_of_foreign hmirror (hforeign _ hold)
    · refine ⟨.filtered, ?_⟩
      rw [scan, List.mem_singleton.mp hchallenge, fromStr_sent]
      apply if_neg
      rintro ⟨-, -, hdir', -⟩
      have hsame : "c2w" = "w2c" := hdir.symm.trans hdir'
      exact absurd hsame (by decide)
  have hscan : scan p sessionId "w2c" typeChallengeResponse (some d) ChallengeResponseBody.read
      record = .ok (⟨nonce, signature, walletAddress, epkPublic⟩, d') := by
    rw [scan, hrecord, he]
    simp only [if_pos htype]
    exact hopen record.now (hfreshAt record (List.mem_append_right _ List.mem_cons_self))
      (read_challengeResponseBody _ _ _ _)
  obtain ⟨failures, hsearch⟩ := search_append hpassed [record] []
  rw [search_eq_ok hscan] at hsearch
  exact ⟨_, d', findChallengeResponseEvent_of_search hfresh hsearch, rfl, rfl, rfl, rfl, rfl,
    hmirror'⟩

/-- The first challenge is accepted, and its response is found. -/
theorem recovers_first (hc : p.crypto.Agrees) (hsession : IsTrimmed sessionId)
    (hmirror : Mirror p.crypto a w) (hm : Challenge p sessionId a m d) {poll : Poll}
    {result : ResultOfQuerySessionMessages}
    (hread : ReadsAll p sessionId w (old ++ [m.text]) poll result)
    (hfresh : ∀ record ∈ poll.records, w.isExpired record.now = false)
    (hforeign : ∀ text ∈ old, Foreign p sessionId w text ∧ Foreign p sessionId d text) :
    Recovers p sessionId d m (old ++ [m.text]) result := by
  obtain ⟨secret, root, link, hsecret, hroot, rfl, hlinked, hmirror'⟩ := hm.exists_link hc hmirror
  obtain ⟨l, rfl, hmessages, -⟩ := hread.exists_loop
  obtain ⟨before, after, hrecords, hbefore, hafter⟩ := List.map_eq_append_iff.mp hread.texts
  obtain ⟨record, rfl, hrecord⟩ := List.map_eq_singleton_iff.mp hafter
  have hpassed : ∀ record ∈ before, acceptWithRekey p sessionId w record = none := by
    intro record hmem
    exact acceptWithRekey_of_foreign hsecret hroot
      (hforeign record.text (hbefore ▸ List.mem_map_of_mem hmem)).1
  have hstate : (before.foldl (processRecord p sessionId) ⟨some w, false, []⟩).currentState =
      some w := foldl_of_foreign hpassed rfl
  have hnow : w.isExpired record.now = false := by
    apply hfresh
    rw [hrecords]
    exact List.mem_append_right _ List.mem_cons_self
  have haccept := acceptWithRekey_sent hlinked hsecret hroot hsession (i := 0) rfl hrecord hnow
  rw [stateAfter_succ (i := 0) rfl, stateAfter_zero] at haccept
  obtain ⟨-, -, -, -, -, -, -, -, -, hafter', hraw, -⟩ := acceptWithRekey_eq_some haccept
  refine ⟨_, ?_, hraw.trans hrecord, advance w link, hafter',
    answered_of_mirror hc hlinked.1.dir hmirror' fun text htext ↦ (hforeign text htext).2⟩
  rw [hmessages, hrecords, List.foldl_append, List.foldl_cons, List.foldl_nil,
    processRecord_of_accept hstate haccept]
  exact List.mem_append_right _ List.mem_cons_self

/-- A session of which a message is accepted has an id without white space
around it. -/
theorem isTrimmed_of_recovers {poll : Poll} {result : ResultOfQuerySessionMessages}
    (hread : ReadsAll p sessionId v texts poll result) {events : List String}
    (h : Recovers p sessionId d m events result) : IsTrimmed sessionId := by
  obtain ⟨msg, hmsg, -, s, hafter, -⟩ := h
  obtain ⟨l, rfl, hmessages, -⟩ := hread.exists_loop
  rw [hmessages] at hmsg
  obtain hnil | ⟨before, record, after, u, -, -, haccept⟩ := exists_accept_of_mem rfl hmsg hafter
  · cases hnil
  · obtain ⟨-, -, -, -, -, -, -, -, -, -, -, -, hsession⟩ := acceptWithRekey_eq_some haccept
    exact hsession

/-- Whatever the wallet has reached, the session recovers just when no challenge
was given up before. -/
theorem recovers_iff (hc : p.crypto.Agrees) (hmirror : Mirror p.crypto a w)
    (hrun : Abandoned p sessionId a w old v states texts n) (hm : Challenge p sessionId a m d)
    (hnew : m.text ∉ texts) {poll : Poll} {result : ResultOfQuerySessionMessages}
    (hread : ReadsAll p sessionId v (texts ++ [m.text]) poll result)
    (hfresh : ∀ record ∈ poll.records, w.isExpired record.now = false)
    (hideal : IdealRun p sessionId w (states ++ statesOf result) (texts ++ [m.text]))
    (hforeign : ∀ text ∈ old, Foreign p sessionId w text ∧ Foreign p sessionId d text) :
    Recovers p sessionId d m (texts ++ [m.text]) result ↔ IsTrimmed sessionId ∧ n = 0 := by
  constructor
  · intro h
    have hsession := isTrimmed_of_recovers hread h
    refine ⟨hsession, Nat.eq_zero_of_not_pos fun hn ↦ ?_⟩
    obtain ⟨msg, hmsg, hraw, s, hafter, -⟩ := h
    rw [not_accepted hc hsession hmirror hrun hm hread hfresh hideal hnew hn hmsg hraw] at hafter
    cases hafter
  · rintro ⟨hsession, rfl⟩
    cases hrun with
    | start => exact recovers_first hc hsession hmirror hm hread hfresh hforeign

/-! ## A challenge after none, and after one -/

/-- A page that begins with the next message, of which nothing else is
accepted. -/
theorem exists_statesOf {secret root : Bytes32} {l : Link F}
    (hlinked : Linked p sessionId "c2w" secret root w.lastSeenSeq [l])
    (hsecret : w.myDhSecret = secret.hex) (hroot : w.encryptionRoot = root.hex)
    (hsession : IsTrimmed sessionId) {poll : Poll} (hsucceeds : poll.Succeeds)
    (hdeployed : poll.answer.isDeployed = true) {record : Record} {rest : List Record}
    (hrecords : poll.records = record :: rest) (htext : record.text = (l.sent p.serde).text)
    (hfresh : w.isExpired record.now = false)
    (hrest : ∀ record ∈ rest, acceptWithRekey p sessionId (advance w l) record = none) :
    ∃ result, ReadsAll p sessionId w (poll.records.map Record.text) poll result ∧
      ∀ s ∈ statesOf result, s = advance w l := by
  obtain ⟨address, cursor, hquery⟩ := hsucceeds.query hsession.1 hdeployed (some w) rfl
  refine ⟨_, ⟨hdeployed, rfl, hquery⟩, ?_⟩
  have haccept := acceptWithRekey_sent hlinked hsecret hroot hsession (i := 0) rfl htext hfresh
  rw [stateAfter_succ (i := 0) rfl, stateAfter_zero] at haccept
  obtain ⟨-, -, -, -, -, -, -, -, -, hafter, -⟩ := acceptWithRekey_eq_some haccept
  intro s hs
  obtain ⟨msg, hmsg, hmsgAfter⟩ := mem_statesOf.mp hs
  have hmem : msg ∈ acceptedOf
      (poll.records.foldl (processRecord p sessionId) ⟨some w, false, []⟩).messages :=
    List.mem_filter.mpr ⟨hmsg, Option.isSome_iff_exists.mpr ⟨s, hmsgAfter⟩⟩
  rw [hrecords, List.foldl_cons, processRecord_of_accept rfl haccept,
    acceptedOf_foldl rfl hrest] at hmem
  obtain rfl := List.mem_singleton.mp (List.mem_of_mem_filter hmem)
  exact Option.some.inj (hmsgAfter.symm.trans hafter)

theorem stateInputs_hex {c : Crypto} {secret root : Bytes32} (hsecret : w.myDhSecret = secret.hex)
    (hroot : w.encryptionRoot = root.hex) (peers : List Bytes32) (salts : List Bytes) :
    stateInputs c sessionId peers salts w =
      peers.flatMap (inputsAt c sessionId secret salts root) := by
  rw [stateInputs, hsecret, hroot, keyOf_hex, keyOf_hex]

/-- A challenge that is sent in place of the first one. -/
def exampleOther : Link Empty :=
  exampleLink (exampleHeader "session-1" "c2w" 1700000002000 typeSignChallenge)
    (challengeBody "two") secondKey otherRoot

theorem idealRun_of_table {states : List ConnectSessionState} {texts : List String}
    (hstates : ∀ s ∈ states, s = exampleWallet ∨ s = walletAfterFirst)
    (hpeers : peersOf Json.Compact.serde texts ⊆ [firstKey, secondKey])
    (hsalts : ∀ salt ∈ saltsOf Json.Compact.serde texts, salt = exampleSalt.bytes) :
    IdealRun examplePrimitives "session-1" exampleWallet states texts where
  injective := by
    have htable {s : ConnectSessionState} (hs : s ∈ states) {i : KdfInput}
        (hi : i ∈ stateInputs exampleCrypto "session-1" (peersOf Json.Compact.serde texts)
          (saltsOf Json.Compact.serde texts) s) : i ∈ exampleTable.map Prod.fst := by
      obtain ⟨root, hroot, hsecret, hderived⟩ : ∃ root : Bytes32, s.encryptionRoot = root.hex ∧
          s.myDhSecret = (repeated 2).hex ∧ root ∈ [startRoot, firstRoot, secondRoot] := by
        obtain rfl | rfl := hstates s hs
        · exact ⟨startRoot, rfl, rfl, List.mem_cons_self⟩
        · exact ⟨firstRoot, rfl, rfl, List.mem_cons_of_mem _ List.mem_cons_self⟩
      rw [stateInputs_hex hsecret hroot] at hi
      obtain ⟨k, hk, hi⟩ := List.mem_flatMap.mp hi
      obtain ⟨new, next, hstep, hkey⟩ := isDerived_example.1 root hderived k (hpeers hk)
      exact hstep.inputsAt_subset publicKey_wallet hkey hsalts hi
    rintro i ⟨s, hs, hi⟩ j ⟨s', hs', hj⟩ hsame
    exact eq_of_kdf_eq kdf_exampleTable (List.nodup_cons.mp nodup_exampleTable).2 (htable hs hi)
      (htable hs' hj) hsame
  fresh := by
    intro s hs hsame
    obtain rfl | rfl := hstates s hs
    · rfl
    · have hne : firstRoot ≠ startRoot := by decide +kernel
      have hfirst : keyOf walletAfterFirst.encryptionRoot = some firstRoot := keyOf_hex firstRoot
      have hstart : keyOf exampleWallet.encryptionRoot = some startRoot := keyOf_hex startRoot
      rw [hfirst, hstart] at hsame
      exact absurd (Option.some.inj hsame) hne

theorem challenge_exampleFirst :
    Challenge examplePrimitives "session-1" exampleDapp (exampleFirst.sent Json.Compact.serde)
      dappAfterFirst where
  sent := exampleStep_first.chain (by decide) "c2w" typeSignChallenge (challengeBody "one") (.nil _)
  ofType := rfl

theorem challenge_exampleOther :
    Challenge examplePrimitives "session-1" exampleDapp (exampleOther.sent Json.Compact.serde)
      (exampleState (repeated 4) walletKey otherRoot 1700000000000 1700000002000) where
  sent := exampleStep_other.chain (by decide) "c2w" typeSignChallenge (challengeBody "two") (.nil _)
  ofType := rfl

/-- The state after the first challenge does not read the other one. -/
theorem acceptWithRekey_exampleOther {record : Record}
    (htext : record.text = (exampleOther.sent examplePrimitives.serde).text) :
    acceptWithRekey examplePrimitives "session-1" walletAfterFirst record = none := by
  cases haccept : acceptWithRekey examplePrimitives "session-1" walletAfterFirst record with
  | none => rfl
  | some accepted =>
      obtain ⟨dh, e, rekey, body, hdh, he, hrekey, hopen, -⟩ := acceptWithRekey_eq_some haccept
      rw [htext, dhPublicOf_sent] at hdh
      rw [htext, fromStr_sent] at he
      obtain rfl := Option.some.inj hdh
      obtain rfl := Option.some.inj he
      obtain ⟨secret, root, k, hsecret, hroot, hk, rfl⟩ := rekeyInbound_eq_nextRoot hrekey
      obtain rfl := Option.some.inj ((keyOf_hex (repeated 2)).symm.trans hsecret)
      obtain rfl := Option.some.inj ((keyOf_hex firstRoot).symm.trans hroot)
      obtain rfl := Option.some.inj ((keyOf_hex secondKey).symm.trans hk)
      have hsealed : Sealed examplePrimitives exampleOther.header exampleOther.body
          otherRoot.bytes exampleOther.sealedBody :=
        sealed_exampleLink _ _ _ _
      obtain ⟨-, -, root', hroot', hkey⟩ :=
        hsealed.of_openBody (hsealed.sealedBody?_envelopeOf _) hopen
      rw [decodeEncryptionSecret_hex] at hroot'
      obtain rfl := Except.ok.inj hroot'
      have hnext : nextRoot examplePrimitives.crypto "session-1" (repeated 2) firstRoot secondKey =
          secondRoot := exampleStep_second.nextRoot_eq publicKey_wallet
      rw [hnext] at hkey
      have hinput := eq_of_kdf_eq kdf_exampleTable (List.nodup_cons.mp nodup_exampleTable).2
        (i := keyInput exampleSalt.bytes secondRoot) (j := keyInput exampleSalt.bytes otherRoot)
        (by simp [exampleTable]) (by simp [exampleTable]) hkey
      have hne : secondRoot ≠ otherRoot := by decide +kernel
      exact absurd (Bytes32.bytes_injective (congrArg (fun i ↦ i.2.1) hinput)) hne

theorem idealRun_example {ls : List (Link Empty)} {states : List ConnectSessionState}
    (hstates : ∀ s ∈ states, s = walletAfterFirst)
    (hls : ∀ l ∈ ls, l = exampleFirst ∨ l = exampleOther) :
    IdealRun examplePrimitives "session-1" exampleWallet ([exampleWallet] ++ states)
      ((ls.map (Link.sent Json.Compact.serde)).map Sent.text) := by
  have hsealed : ∀ l ∈ ls, ∃ key,
      Sealed examplePrimitives l.header l.body key l.sealedBody := by
    intro l hl
    obtain rfl | rfl := hls l hl
    · exact ⟨_, sealed_exampleLink _ _ _ _⟩
    · exact ⟨_, sealed_exampleLink _ _ _ _⟩
  apply idealRun_of_table
  · intro s hs
    obtain rfl | hs := List.mem_cons.mp hs
    · exact .inl rfl
    · exact .inr (hstates s hs)
  · rw [peersOf_sent]
    intro k hk
    obtain ⟨l, hl, rfl⟩ := List.mem_map.mp hk
    obtain rfl | rfl := hls l hl
    · exact List.mem_cons_self
    · exact List.mem_cons_of_mem _ List.mem_cons_self
  · have hsalts : saltsOf Json.Compact.serde ((ls.map (Link.sent Json.Compact.serde)).map Sent.text) =
        ls.map fun l ↦ l.sealedBody.salt :=
      saltsOf_sent hsealed
    intro salt hsalt
    rw [hsalts] at hsalt
    obtain ⟨l, hl, rfl⟩ := List.mem_map.mp hsalt
    obtain rfl | rfl := hls l hl
    · rfl
    · rfl

/-- The first challenge of a session. -/
theorem recovers_example : ∃ poll result,
    ReadsAll examplePrimitives "session-1" exampleWallet
      [(exampleFirst.sent Json.Compact.serde).text] poll result ∧
    Recovers examplePrimitives "session-1" dappAfterFirst (exampleFirst.sent Json.Compact.serde)
      [(exampleFirst.sent Json.Compact.serde).text] result := by
  obtain ⟨result, hread, hstates⟩ := exists_statesOf linked_exampleFirst rfl rfl
    ⟨by decide, by decide⟩ (listsChain_examplePage [exampleFirst]).succeeds rfl rfl rfl
    (isExpired_exampleState (by decide)) (fun record hrecord ↦ nomatch hrecord)
  have hideal : IdealRun examplePrimitives "session-1" exampleWallet
      ([exampleWallet] ++ statesOf result) [(exampleFirst.sent Json.Compact.serde).text] :=
    idealRun_example hstates (List.forall_mem_singleton.mpr (.inl rfl))
  have hiff := recovers_iff exampleCrypto_agrees mirror_example .start challenge_exampleFirst
    List.not_mem_nil hread (isExpired_exampleRecords _) hideal (fun text h ↦ nomatch h)
  exact ⟨_, result, hread, hiff.mpr ⟨⟨by decide, by decide⟩, rfl⟩⟩

/-- The first challenge is given up before the wallet reads it, and the wallet
reads both. -/
theorem not_recovers : ∃ states texts poll result,
    Abandoned examplePrimitives "session-1" exampleDapp exampleWallet [] exampleWallet states texts
      1 ∧
    Mirror examplePrimitives.crypto exampleDapp exampleWallet ∧
    Challenge examplePrimitives "session-1" exampleDapp (exampleOther.sent Json.Compact.serde)
      (exampleState (repeated 4) walletKey otherRoot 1700000000000 1700000002000) ∧
    ReadsAll examplePrimitives "session-1" exampleWallet
      (texts ++ [(exampleOther.sent Json.Compact.serde).text]) poll result ∧
    (∀ record ∈ poll.records, exampleWallet.isExpired record.now = false) ∧
    ¬Recovers examplePrimitives "session-1"
      (exampleState (repeated 4) walletKey otherRoot 1700000000000 1700000002000)
      (exampleOther.sent Json.Compact.serde)
      (texts ++ [(exampleOther.sent Json.Compact.serde).text]) result := by
  have hrun : Abandoned examplePrimitives "session-1" exampleDapp exampleWallet [] exampleWallet
      [exampleWallet] ([] ++ [(exampleFirst.sent Json.Compact.serde).text]) 1 :=
    .unread .start challenge_exampleFirst
  obtain ⟨result, hread, hstates⟩ := exists_statesOf linked_exampleFirst rfl rfl
    ⟨by decide, by decide⟩ (listsChain_examplePage [exampleFirst, exampleOther]).succeeds rfl rfl rfl
    (isExpired_exampleState (by decide))
    (List.forall_mem_singleton.mpr (acceptWithRekey_exampleOther rfl))
  have hideal : IdealRun examplePrimitives "session-1" exampleWallet
      ([exampleWallet] ++ statesOf result) ([] ++ [(exampleFirst.sent Json.Compact.serde).text] ++
        [(exampleOther.sent Json.Compact.serde).text]) := by
    have hls : ∀ l ∈ [exampleFirst, exampleOther], l = exampleFirst ∨ l = exampleOther := by
      simp
    exact idealRun_example hstates hls
  have hne : (exampleOther.sent Json.Compact.serde).text ∉
      [] ++ [(exampleFirst.sent Json.Compact.serde).text] := by
    have hkeys : secondKey ≠ firstKey := by decide +kernel
    intro hmem
    have hdh := congrArg (dhPublicOf Json.Compact.serde) (List.mem_singleton.mp hmem)
    rw [dhPublicOf_sent, dhPublicOf_sent] at hdh
    exact hkeys (Bytes32.hex_injective (Option.some.inj hdh))
  refine ⟨_, _, _, result, hrun, mirror_example, challenge_exampleOther, hread,
    isExpired_exampleRecords _, ?_⟩
  rintro ⟨msg, hmsg, hraw, s, hafter, -⟩
  rw [not_accepted exampleCrypto_agrees ⟨by decide, by decide⟩ mirror_example hrun
    challenge_exampleOther hread (isExpired_exampleRecords _) hideal hne Nat.one_pos hmsg hraw]
    at hafter
  cases hafter

end AbandonedChallenge

end BeeEngine
