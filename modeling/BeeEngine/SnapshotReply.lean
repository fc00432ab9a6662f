import BeeEngine.MessageFinders

/-!
# Replies from a snapshot

The wallet answers one of the messages that a query accepted, from the state
that stands with this message.  The dApp has gone on to the last one.
-/

namespace BeeEngine

open ConnectMessage WalletMessage Dh Ratchet MessageChain SessionMessages SessionReader
  MessageFinders
open Json (Value)

namespace SnapshotReply

variable {F : Type}

/-- A query of a wallet that mirrors the sender of a chain; it accepts the whole
chain. -/
structure Batch (p : Primitives F) (sessionId : String) (a b w : ConnectSessionState)
    (ms : List (Sent F)) (poll : Poll) (result : ResultOfQuerySessionMessages) : Prop where
  chain : Chain p sessionId "c2w" a ms b
  mirror : Mirror p.crypto a w
  ideal : IdealFor p sessionId w ms (textsOf [poll])
  deployed : poll.answer.isDeployed = true
  query : querySessionMessages p ⟨sessionId, poll.description, some w⟩ poll.answer = .ok result
  accepted : (acceptedOf result.messages).map received = ms.map (sent p.serde)

/-- A message of the wallet that is re-keyed from a state. -/
def IsReply (p : Primitives F) (sessionId msgType : String) (s : ConnectSessionState)
    (secret salt : Bytes32) (body : Value F) (r : RekeyResult) (text : String) : Prop :=
  ∃ seq now nonce ts, rekeyOutbound p.crypto s sessionId seq now (.ok secret) = .ok r ∧
    sealConnectMessage p ⟨nonce, .ok salt⟩ ⟨sessionId, "w2c", r.outboundSeq, msgType, ts⟩ body
      r.messageEncryptionRoot r.newDhPublic = .ok text

/-- The dApp reads the body, re-keying from its state. -/
def Decrypts (p : Primitives F) (sessionId : String) (b : ConnectSessionState) (now : UInt64)
    (text : String) (body : Value F) (b' : ConnectSessionState) : Prop :=
  ∃ e, p.serde.fromStr ConnectMessageEnvelope.read text = some e ∧
    openEvent p sessionId (some b) some e now = .ok (body, b')

/-- The dApp reads the reply, and one of the states that the wallet has then
mirrors it. -/
def Usable (p : Primitives F) (sessionId : String) (b : ConnectSessionState) (now : UInt64)
    (result : ResultOfQuerySessionMessages) (body : Value F) (r : RekeyResult) (text : String) :
    Prop :=
  ∃ b', Decrypts p sessionId b now text body b' ∧
    ∃ v, (v = r.updatedState ∨ result.updatedSessionState = some v) ∧ Mirror p.crypto v b'

/-! ## Keys of a reply -/

/-- The next root of a root and a shared secret, and the key of a message. -/
def messageInputs (c : Crypto) (sessionId : String) (salt : Bytes) (root shared : Bytes32) :
    List KdfInput :=
  [rootInput sessionId root shared, keyInput salt (kdf c (rootInput sessionId root shared))]

/-- What the wallet derives for a reply, and what the dApp derives to read it,
collides only where it is the same. -/
def IdealReply (c : Crypto) (sessionId : String) (s b : ConnectSessionState)
    (secret salt : Bytes32) : Prop :=
  ∀ sRoot peer bRoot bSecret : Bytes32, s.encryptionRoot = sRoot.hex → s.peerDhPublic = peer.hex →
    b.encryptionRoot = bRoot.hex → b.myDhSecret = bSecret.hex →
      Set.InjOn (kdf c) {i | i ∈
        messageInputs c sessionId salt.bytes sRoot (c.diffieHellman secret peer) ++
          messageInputs c sessionId salt.bytes bRoot
            (c.diffieHellman bSecret (c.publicKey secret))}

variable {p : Primitives F} {sessionId msgType : String} {a b w : ConnectSessionState}
    {ms : List (Sent F)}

/-- Equal keys are derived of equal roots. -/
theorem root_of_key {c : Crypto} {salt : Bytes} {root root' shared shared' : Bytes32}
    (hinj : Set.InjOn (kdf c) {i | i ∈ messageInputs c sessionId salt root shared ++
      messageInputs c sessionId salt root' shared'})
    (hkey : kdf c (keyInput salt (kdf c (rootInput sessionId root shared))) =
      kdf c (keyInput salt (kdf c (rootInput sessionId root' shared')))) : root = root' := by
  have hmem {i : KdfInput} (hi : i ∈ messageInputs c sessionId salt root shared) :
      i ∈ {i | i ∈ messageInputs c sessionId salt root shared ++
        messageInputs c sessionId salt root' shared'} := List.mem_append_left _ hi
  have hmem' {i : KdfInput} (hi : i ∈ messageInputs c sessionId salt root' shared') :
      i ∈ {i | i ∈ messageInputs c sessionId salt root shared ++
        messageInputs c sessionId salt root' shared'} := List.mem_append_right _ hi
  have hnext := hinj (hmem (List.mem_cons_of_mem _ List.mem_cons_self))
    (hmem' (List.mem_cons_of_mem _ List.mem_cons_self)) hkey
  have hroots : kdf c (rootInput sessionId root shared) = kdf c (rootInput sessionId root' shared') :=
    Bytes32.bytes_injective (congrArg (fun i ↦ i.2.1) hnext)
  have hinput := hinj (hmem List.mem_cons_self) (hmem' List.mem_cons_self) hroots
  obtain ⟨hbytes, -⟩ := List.append_inj (congrArg (fun i ↦ i.2.1) hinput)
    (root.length_eq.trans root'.length_eq.symm)
  exact Bytes32.bytes_injective hbytes

/-! ## The states of a batch -/

theorem Chain.eq_of_nil {d : ConnectSessionState} {dir : String}
    (h : Chain p sessionId dir d [] b) :
    d = b := by
  cases h
  rfl

/-- The state of a message stands at its place, and the dApp at the end. -/
theorem Batch.states {poll : Poll} {result : ResultOfQuerySessionMessages}
    (h : Batch p sessionId a b w ms poll result) {i : ℕ} {msg : ConnectSessionMessage}
    (hmsg : (acceptedOf result.messages)[i]? = some msg) {s : ConnectSessionState}
    (hs : msg.sessionStateAfter = some s) :
    ∃ (secret root : Bytes32) (ls : List (Link F)), w.myDhSecret = secret.hex ∧
      w.encryptionRoot = root.hex ∧ ms = ls.map (Link.sent p.serde) ∧
      Linked p sessionId "c2w" secret root w.lastSeenSeq ls ∧
      Ideal p sessionId secret root ms (textsOf [poll]) ∧ i < ls.length ∧
      s = stateAfter w ls (i + 1) ∧ Mirror p.crypto b (stateAfter w ls ls.length) := by
  obtain ⟨secret, root, hsecret, hroot, hideal⟩ := h.ideal
  obtain ⟨ls, rfl, hlinked, hprefix⟩ :=
    exists_links hideal.agrees h.chain h.mirror hsecret hroot
  obtain ⟨d, ⟨-, hafter⟩, hmirror⟩ := hprefix ls.length le_rfl
  rw [List.drop_eq_nil_of_le (by simp)] at hafter
  obtain rfl := Chain.eq_of_nil hafter
  obtain ⟨events, cursor, hpage, l, rfl, hmessages, -⟩ :=
    querySessionMessages_eq_ok h.query h.deployed
  have htexts : ∀ record ∈ events, record.text ∈ textsOf [poll] := by
    intro record hrecord
    apply mem_textsOf List.mem_cons_self
    rw [Poll.records, hpage]
    exact hrecord
  obtain ⟨j, hj⟩ := (Reached.start w ls).between.foldl hlinked hsecret hroot hideal htexts
  have hstate := hj.states i msg (by rwa [hmessages] at hmsg)
  rw [Nat.zero_add, hs] at hstate
  have hi : i < ls.length := by
    have hlength := (List.getElem?_eq_some_iff.mp hmsg).1
    rwa [← List.length_map, h.accepted, List.length_map, List.length_map] at hlength
  exact ⟨secret, root, ls, hsecret, hroot, rfl, hlinked, hideal, hi, Option.some.inj hstate,
    hmirror⟩

/-- A page with the whole chain gives a batch, and each message has its state. -/
theorem exists_batch {secret root : Bytes32} {ls : List (Link F)} {poll : Poll}
    (hchain : Chain p sessionId "c2w" a (ls.map (Link.sent p.serde)) b)
    (hmirror : Mirror p.crypto a w)
    (hlinked : Linked p sessionId "c2w" secret root w.lastSeenSeq ls)
    (hsecret : w.myDhSecret = secret.hex) (hroot : w.encryptionRoot = root.hex)
    (hideal : IdealFor p sessionId w (ls.map (Link.sent p.serde)) (textsOf [poll]))
    (hsession : IsTrimmed sessionId) (hdeployed : poll.answer.isDeployed = true)
    (hlists : ListsChain (ls.map (Link.sent p.serde)) poll)
    (hfresh : ∀ record ∈ poll.records, w.isExpired record.now = false) :
    ∃ result, Batch p sessionId a b w (ls.map (Link.sent p.serde)) poll result ∧
      ∀ i < ls.length, ∃ msg, (acceptedOf result.messages)[i]? = some msg ∧
        msg.sessionStateAfter = some (stateAfter w ls (i + 1)) := by
  obtain ⟨secret', root', hsecret', hroot', hread⟩ := id hideal
  obtain rfl := Bytes32.hex_injective (hsecret.symm.trans hsecret')
  obtain rfl := Bytes32.hex_injective (hroot.symm.trans hroot')
  have htexts := hlists.texts
  rw [List.map_map] at htexts
  have hl := (Reached.start w ls).between.foldl_length hlinked hsecret hroot hread hsession
    (fun record hrecord ↦ mem_textsOf List.mem_cons_self hrecord) hfresh htexts
  obtain ⟨address, cursor, hquery⟩ :=
    hlists.succeeds.query hsession.1 hdeployed (some w) (p := p) rfl
  generalize poll.records.foldl (processRecord p sessionId) ⟨some w, false, []⟩ = l at hl hquery
  have haccepted : (acceptedOf l.messages).map received =
      (ls.map (Link.sent p.serde)).map (sent p.serde) := by
    rw [hl.accepted, List.take_length, List.drop_zero, List.map_map]
    rfl
  refine ⟨_, ⟨hchain, hmirror, hideal, hdeployed, hquery, haccepted⟩, ?_⟩
  intro i hi
  have hlength : i < (acceptedOf l.messages).length := by
    rwa [← List.length_map, haccepted, List.length_map, List.length_map]
  refine ⟨_, List.getElem?_eq_getElem hlength, ?_⟩
  have hstate := hl.states i _ (List.getElem?_eq_getElem hlength)
  rwa [Nat.zero_add] at hstate

/-! ## When a reply is read -/

/-- A reply from the state that mirrors the dApp opens. -/
theorem exists_openEvent_of_mirror {s : ConnectSessionState} (hc : p.crypto.Agrees)
    (h : Mirror p.crypto b s) {secret salt : Bytes32} {body : Value F} {r : RekeyResult}
    {text : String} (hreply : IsReply p sessionId msgType s secret salt body r text) :
    ∃ e b', p.serde.fromStr ConnectMessageEnvelope.read text = some e ∧
      isOfType sessionId "w2c" msgType e ∧
      (∀ now, b.isExpired now = false → ∀ {α : Type} {readBody : Value F → Option α} {found : α},
        readBody body = some found →
          openEvent p sessionId (some b) readBody e now = .ok (found, b')) ∧
      Mirror p.crypto r.updatedState b' := by
  obtain ⟨seq, sentAt, nonce, ts, hr, hseal⟩ := hreply
  obtain ⟨b', haccepts, hmirror⟩ := Mirror.message hc h.symm hr
  obtain ⟨newSecret, shared, newRoot, -, -, -, -, -, rfl⟩ := rekeyOutbound_eq_ok hr
  obtain ⟨root, x, salt', hroot, -, -, hx, rfl⟩ := sealConnectMessage_eq_ok hseal
  refine ⟨_, b', fromStr_envelopeFields _ x _, ⟨rfl, rfl, rfl, rfl⟩, ?_, hmirror⟩
  intro now hfresh α readBody found hfound
  have hrekey : rekeyInbound p.crypto b (p.crypto.publicKey newSecret).hex sessionId
      (envelopeOf ⟨sessionId, "w2c", seq, msgType, ts⟩ x (some (p.crypto.publicKey newSecret).hex) :
        ConnectMessageEnvelope F).seq now = .ok ⟨newRoot, none, b', 0⟩ := haccepts now hfresh
  have hopen := hx.openBody_eq_ok
    (hx.sealedBody?_envelopeOf (some (p.crypto.publicKey newSecret).hex)) rfl hroot
  exact openEvent_eq_ok rfl hrekey rfl hopen hfound

theorem usable_of_mirror {s : ConnectSessionState} (hc : p.crypto.Agrees) (h : Mirror p.crypto b s)
    {secret salt : Bytes32} {body : Value F} {r : RekeyResult} {text : String}
    (hreply : IsReply p sessionId msgType s secret salt body r text) {now : UInt64}
    (hfresh : b.isExpired now = false) (result : ResultOfQuerySessionMessages) :
    Usable p sessionId b now result body r text := by
  obtain ⟨e, b', he, -, hopen, hmirror⟩ := exists_openEvent_of_mirror hc h hreply
  exact ⟨b', ⟨e, he, hopen now hfresh rfl⟩, _, .inl rfl, hmirror⟩

/-- A reply that is read was made from the root of the dApp. -/
theorem root_of_decrypts {s b' : ConnectSessionState} {secret salt : Bytes32} {body : Value F}
    {r : RekeyResult} {text : String} (hreply : IsReply p sessionId msgType s secret salt body r text)
    {sRoot peer bRoot bSecret : Bytes32} (hsRoot : s.encryptionRoot = sRoot.hex)
    (hpeer : s.peerDhPublic = peer.hex) (hbRoot : b.encryptionRoot = bRoot.hex)
    (hbSecret : b.myDhSecret = bSecret.hex) (hideal : IdealReply p.crypto sessionId s b secret salt)
    {now : UInt64} (h : Decrypts p sessionId b now text body b') : sRoot = bRoot := by
  obtain ⟨seq, sentAt, nonce, ts, hr, hseal⟩ := hreply
  obtain ⟨newSecret, shared, newRoot, hnew, -, -, hshared, hnewRoot, rfl⟩ := rekeyOutbound_eq_ok hr
  obtain rfl := Except.ok.inj hnew
  rw [hpeer] at hshared
  obtain ⟨-, rfl⟩ := computeSharedSecret_eq_ok_iff.mp hshared
  rw [hsRoot, deriveRekeyRoot_hex] at hnewRoot
  obtain rfl := Except.ok.inj hnewRoot
  obtain ⟨root, x, salt', hroot, hsalt, hxsalt, hx, rfl⟩ := sealConnectMessage_eq_ok hseal
  obtain rfl := Except.ok.inj hsalt
  rw [decodeEncryptionSecret_hex] at hroot
  obtain rfl := Except.ok.inj hroot
  obtain ⟨e, he, hopened⟩ := h
  rw [fromStr_envelopeFields] at he
  obtain rfl := Option.some.inj he
  obtain ⟨dh, rekey, body', hdh, hrekey, hopen, -, -⟩ := of_openEvent_eq_ok hopened
  obtain rfl := Option.some.inj hdh
  obtain ⟨shared', newRoot', -, hshared', hnewRoot', rfl⟩ := rekeyInbound_eq_ok hrekey
  rw [hbSecret] at hshared'
  obtain ⟨-, rfl⟩ := computeSharedSecret_eq_ok_iff.mp hshared'
  rw [hbRoot, deriveRekeyRoot_hex] at hnewRoot'
  obtain rfl := Except.ok.inj hnewRoot'
  obtain ⟨-, -, root', hroot', hkey⟩ := hx.of_openBody (hx.sealedBody?_envelopeOf _) hopen
  rw [decodeEncryptionSecret_hex] at hroot'
  obtain rfl := Except.ok.inj hroot'
  rw [hxsalt] at hkey
  exact root_of_key (hideal sRoot peer bRoot bSecret hsRoot hpeer hbRoot hbSecret) hkey.symm

/-- A reply from the state of a message is usable when the message is the last
one that the query accepted. -/
theorem usable_iff {poll : Poll} {result : ResultOfQuerySessionMessages}
    (hbatch : Batch p sessionId a b w ms poll result) {i : ℕ} {msg : ConnectSessionMessage}
    (hmsg : (acceptedOf result.messages)[i]? = some msg) {s : ConnectSessionState}
    (hs : msg.sessionStateAfter = some s) {secret salt : Bytes32} {body : Value F} {r : RekeyResult}
    {text : String} (hreply : IsReply p sessionId msgType s secret salt body r text)
    (hideal : IdealReply p.crypto sessionId s b secret salt) {now : UInt64}
    (hfresh : b.isExpired now = false) :
    Usable p sessionId b now result body r text ↔ i + 1 = ms.length := by
  obtain ⟨wSecret, root, ls, hwSecret, hroot, rfl, hlinked, hchain, hi, rfl, hmirror⟩ :=
    hbatch.states hmsg hs
  rw [List.length_map]
  constructor
  · rintro ⟨b', hdecrypts, -⟩
    obtain ⟨bRoot, hbRoot, hwRoot⟩ := hmirror.root
    obtain ⟨bSecret, hbSecret, -⟩ := hmirror.key
    obtain ⟨l, hl⟩ : ∃ l, ls[i]? = some l := ⟨ls[i], List.getElem?_eq_getElem hi⟩
    rw [encryptionRoot_stateAfter hroot] at hwRoot
    have hpeer : (stateAfter w ls (i + 1)).peerDhPublic = l.dhPublic.hex := by
      rw [stateAfter_succ hl]
      rfl
    have hsame := root_of_decrypts hreply (encryptionRoot_stateAfter hroot ls (i + 1)) hpeer hbRoot
      hbSecret hideal hdecrypts
    rw [← Bytes32.hex_injective hwRoot] at hsame
    exact hlinked.rootAfter_injective hchain hi le_rfl hsame
  · intro hlast
    rw [← hlast] at hmirror
    exact usable_of_mirror hchain.agrees hmirror hreply hfresh result

/-! ## A batch of one message and one of two -/

def exampleFirst : Link Empty :=
  exampleLink (exampleHeader "session-1" "c2w" 1700000001000 typeSignChallenge)
    (challengeBody "one") firstKey firstRoot

def exampleSecond : Link Empty :=
  exampleLink (exampleHeader "session-1" "c2w" 1700000002000 typeSetMiningKeys) miningBody secondKey
    secondRoot

def examplePage (ls : List (Link Empty)) : Poll :=
  ⟨"profile", .ok "0:1", true,
    .ok (exampleRecords (ls.map (Link.sent Json.Compact.serde)), none)⟩

theorem listsChain_examplePage (ls : List (Link Empty)) :
    ListsChain (ls.map (Link.sent Json.Compact.serde)) (examplePage ls) where
  succeeds := ⟨Eq.refl (Text.isBlank "profile"), ⟨_, rfl⟩, ⟨_, rfl⟩⟩
  texts := by
    have htexts := exampleRecords_text (ls.map (Link.sent Json.Compact.serde))
    rw [← htexts]
    exact List.Sublist.refl _

theorem linked_exampleFirst : Linked examplePrimitives "session-1" "c2w" (repeated 2) startRoot
    exampleWallet.lastSeenSeq [exampleFirst] :=
  ⟨exampleStep_first.linkedTo publicKey_wallet (by decide) _ _ _, trivial⟩

theorem linked_exampleSecond : Linked examplePrimitives "session-1" "c2w" (repeated 2) startRoot
    exampleWallet.lastSeenSeq [exampleFirst, exampleSecond] :=
  ⟨exampleStep_first.linkedTo publicKey_wallet (by decide) _ _ _,
    exampleStep_second.linkedTo publicKey_wallet (by decide) _ _ _, trivial⟩

/-- The dApp after the first message, and after both. -/
def dappAfterFirst : ConnectSessionState :=
  exampleState (repeated 3) walletKey firstRoot 1700000000000 1700000001000

def dappAfterSecond : ConnectSessionState :=
  exampleState (repeated 4) walletKey secondRoot 1700000000000 1700000002000

/-- The wallet after the first message. -/
def walletAfterFirst : ConnectSessionState :=
  exampleState (repeated 2) firstKey firstRoot 1700000001000 1700000000000

theorem exists_exampleBatch_first : ∃ result,
    Batch examplePrimitives "session-1" exampleDapp dappAfterFirst exampleWallet
      [exampleFirst.sent Json.Compact.serde] (examplePage [exampleFirst]) result ∧
    ∃ msg, (acceptedOf result.messages)[0]? = some msg ∧
      msg.sessionStateAfter = some walletAfterFirst := by
  have hideal : IdealFor examplePrimitives "session-1" exampleWallet
      ([exampleFirst].map (Link.sent Json.Compact.serde)) (textsOf [examplePage [exampleFirst]]) :=
    idealFor_exampleLink exampleStep_first isDerived_first "c2w" typeSignChallenge
      (challengeBody "one") (List.Subset.refl _)
  obtain ⟨result, hbatch, hstates⟩ := exists_batch
    (exampleStep_first.chain (by decide) "c2w" typeSignChallenge (challengeBody "one") (.nil _))
    mirror_example linked_exampleFirst rfl rfl hideal ⟨by decide, by decide⟩ rfl
    (listsChain_examplePage [exampleFirst]) (isExpired_exampleRecords _)
  exact ⟨result, hbatch, hstates 0 Nat.zero_lt_one⟩

theorem exists_exampleBatch_second : ∃ result,
    Batch examplePrimitives "session-1" exampleDapp dappAfterSecond exampleWallet
      [exampleFirst.sent Json.Compact.serde, exampleSecond.sent Json.Compact.serde]
      (examplePage [exampleFirst, exampleSecond]) result ∧
    ∃ msg, (acceptedOf result.messages)[0]? = some msg ∧
      msg.sessionStateAfter = some walletAfterFirst := by
  have hideal : IdealFor examplePrimitives "session-1" exampleWallet
      ([exampleFirst, exampleSecond].map (Link.sent Json.Compact.serde))
      (textsOf [examplePage [exampleFirst, exampleSecond]]) :=
    idealFor_example linked_exampleSecond (List.Subset.refl _) (List.Subset.refl _)
      (by simp [exampleFirst, exampleSecond, exampleLink]) isDerived_example.1
  obtain ⟨result, hbatch, hstates⟩ := exists_batch
    (exampleStep_first.chain (by decide) "c2w" typeSignChallenge (challengeBody "one")
      (exampleStep_second.chain (by decide) "c2w" typeSetMiningKeys miningBody (.nil _)))
    mirror_example linked_exampleSecond rfl rfl hideal ⟨by decide, by decide⟩ rfl
    (listsChain_examplePage [exampleFirst, exampleSecond]) (isExpired_exampleRecords _)
  exact ⟨result, hbatch, hstates 0 Nat.zero_lt_two⟩

/-- The wallet answers from the state after the first message. -/
theorem exists_exampleReply : ∃ r text,
    IsReply examplePrimitives "session-1" typeChallengeResponse walletAfterFirst (repeated 5)
      exampleSalt answerBody r text := by
  have hr : Dh.rekeyOutbound exampleCrypto walletAfterFirst "session-1" 1700000003000 1700000000
      (.ok (repeated 5)) = _ :=
    exampleStep_reply.rekeyOutbound (by decide)
  have hseal := sealConnectMessage_exampleLink
    (exampleHeader "session-1" "w2c" 1700000003000 typeChallengeResponse) answerBody replyKey
    replyRoot
  exact ⟨_, _, 1700000003000, 1700000000, .ok exampleNonce, _, hr, hseal⟩

/-- The table has what is derived for the reply and what the dApp derives to
read it. -/
theorem idealReply_example {secret k peer peer' own key root root' next next' : Bytes32}
    {seen sent seen' sent' : UInt64} (h : ExampleStep "session-1" secret k peer root next)
    (h' : ExampleStep "session-1" secret k peer' root' next')
    (hpeer' : exampleCrypto.publicKey own = peer')
    (hkey : keyInput exampleSalt.bytes next ∈ exampleTable.map Prod.fst)
    (hkey' : keyInput exampleSalt.bytes next' ∈ exampleTable.map Prod.fst) (own' : Bytes32) :
    IdealReply exampleCrypto "session-1" (exampleState own' peer root seen sent)
      (exampleState own key root' seen' sent') secret exampleSalt := by
  intro sRoot sPeer bRoot bSecret hsRoot hsPeer hbRoot hbSecret
  obtain rfl := Bytes32.hex_injective hsRoot
  obtain rfl := Bytes32.hex_injective hsPeer
  obtain rfl := Bytes32.hex_injective hbRoot
  obtain rfl := Bytes32.hex_injective hbSecret
  have hmem {peer root next shared : Bytes32} (h : ExampleStep "session-1" secret k peer root next)
      (hkey : keyInput exampleSalt.bytes next ∈ exampleTable.map Prod.fst)
      (hshared : shared = exchange exampleKeys k peer) :
      messageInputs exampleCrypto "session-1" exampleSalt.bytes root shared ⊆
        exampleTable.map Prod.fst := by
    rw [messageInputs, hshared, h.kdf_eq]
    exact List.cons_subset.mpr ⟨List.mem_map_of_mem h.next,
      List.cons_subset.mpr ⟨hkey, List.nil_subset _⟩⟩
  have hread : exampleCrypto.diffieHellman own (exampleCrypto.publicKey secret) =
      exchange exampleKeys k peer' := by
    rw [h.publicKey, ExampleStep.diffieHellman_peer hpeer']
  have hsubset := List.append_subset.mpr ⟨hmem h hkey (diffieHellman_example h.publicKey peer),
    hmem h' hkey' hread⟩
  intro i hi j hj hsame
  exact eq_of_kdf_eq kdf_exampleTable (List.nodup_cons.mp nodup_exampleTable).2 (hsubset hi)
    (hsubset hj) hsame

theorem usable_example : ∃ result r text,
    Batch examplePrimitives "session-1" exampleDapp dappAfterFirst exampleWallet
      [exampleFirst.sent Json.Compact.serde] (examplePage [exampleFirst]) result ∧
    Usable examplePrimitives "session-1" dappAfterFirst 1700000004 result answerBody r text := by
  obtain ⟨result, hbatch, msg, hmsg, hs⟩ := exists_exampleBatch_first
  obtain ⟨r, text, hreply⟩ := exists_exampleReply
  have hideal : IdealReply examplePrimitives.crypto "session-1" walletAfterFirst dappAfterFirst
      (repeated 5) exampleSalt :=
    idealReply_example exampleStep_reply exampleStep_reply publicKey_first
      (by simp [exampleTable]) (by simp [exampleTable]) (repeated 2)
  have hiff := usable_iff hbatch hmsg hs hreply hideal
    (isExpired_exampleState (by decide : (1700000004 : UInt64) < 1700086400))
  exact ⟨result, r, text, hbatch, hiff.mpr rfl⟩

/-- Both messages are accepted by one query, and the wallet answers the first
one. -/
theorem not_usable : ∃ result msg r text,
    Batch examplePrimitives "session-1" exampleDapp dappAfterSecond exampleWallet
      [exampleFirst.sent Json.Compact.serde, exampleSecond.sent Json.Compact.serde]
      (examplePage [exampleFirst, exampleSecond]) result ∧
    (acceptedOf result.messages)[0]? = some msg ∧
    msg.sessionStateAfter = some walletAfterFirst ∧
    IsReply examplePrimitives "session-1" typeChallengeResponse walletAfterFirst (repeated 5)
      exampleSalt answerBody r text ∧
    dappAfterSecond.isExpired 1700000004 = false ∧
    ¬Usable examplePrimitives "session-1" dappAfterSecond 1700000004 result answerBody r text := by
  obtain ⟨result, hbatch, msg, hmsg, hs⟩ := exists_exampleBatch_second
  obtain ⟨r, text, hreply⟩ := exists_exampleReply
  have hideal : IdealReply examplePrimitives.crypto "session-1" walletAfterFirst dappAfterSecond
      (repeated 5) exampleSalt :=
    idealReply_example exampleStep_reply exampleStep_late publicKey_second
      (by simp [exampleTable]) (by simp [exampleTable]) (repeated 2)
  refine ⟨result, msg, r, text, hbatch, hmsg, hs, hreply, isExpired_exampleState (by decide), ?_⟩
  rintro ⟨b', hdecrypts, -⟩
  have hne : firstRoot ≠ secondRoot := by decide +kernel
  exact hne (root_of_decrypts hreply rfl rfl rfl rfl hideal hdecrypts)

end SnapshotReply

end BeeEngine
