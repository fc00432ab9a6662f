import BeeEngine.Lib.JsonText
import BeeEngine.Lib.XChaCha
import BeeEngine.MessageChain

/-!
# Reading a chain

Which texts open at a point of a chain.  Whoever does not know the roots of the
session can copy the ciphertexts of the chain but make none of his own; then
only the next message of the chain opens, and the state after it is that of
the chain.
-/

namespace BeeEngine

open ConnectMessage Dh Ratchet
open Json (Value)

namespace MessageChain

variable {F : Type}

/-! ## What a text carries -/

def dhPublicOf (serde : SerdeJson F) (text : String) : Option String :=
  (serde.fromStr some text).bind fun v ↦ (v.get? "dh_public").bind (·.asStr?)

/-- The key that is written in hexadecimal. -/
def keyOf (text : String) : Option Bytes32 := (Bytes.hexDecode text).toOption.bind Bytes32.ofSlice?

def sealedOf (serde : SerdeJson F) (text : String) : Option SealedBody :=
  (serde.fromStr ConnectMessageEnvelope.read text).bind (·.sealedBody?)

def peersOf (serde : SerdeJson F) (texts : List String) : List Bytes32 :=
  texts.filterMap fun text ↦ (dhPublicOf serde text).bind keyOf

def saltsOf (serde : SerdeJson F) (texts : List String) : List Bytes :=
  texts.filterMap fun text ↦ (sealedOf serde text).map SealedBody.salt

/-- The roots of a receiver along the messages of its peer. -/
def rootsOf (p : Primitives F) (sessionId : String) (secret root : Bytes32) (ms : List (Sent F)) :
    List Bytes32 :=
  (peersOf p.serde (ms.map Sent.text)).scanl (nextRoot p.crypto sessionId secret) root

/-! ## What is assumed -/

/-- The ciphertext is copied from a message of the chain. -/
def Copied (p : Primitives F) (ms : List (Sent F)) (x : SealedBody) : Prop :=
  ∃ m ∈ ms, ∃ y, sealedOf p.serde m.text = some y ∧ x.ciphertext = y.ciphertext

/-- The ciphertext is made with a key that is derived of one of the roots. -/
def MadeUnder (p : Primitives F) (sessionId : String) (secret : Bytes32) (roots : List Bytes32)
    (x : SealedBody) : Prop :=
  ∃ r ∈ roots, ∃ k nonce aad msg,
    p.aead.encrypt (p.crypto.hkdf x.salt (nextRoot p.crypto sessionId secret r k).bytes keyInfo)
      nonce aad msg = some x.ciphertext

/-- What is assumed of the primitives and of texts that are read beside a chain:
keys are agreed on and have one encoding, the derivation of keys is ideal on
what the receiver derives, and every ciphertext that is not copied from the
chain was made without its roots. -/
structure Ideal (p : Primitives F) (sessionId : String) (secret root : Bytes32) (ms : List (Sent F))
    (texts : List String) : Prop where
  agrees : p.crypto.Agrees
  oneText : ∀ text ∈ texts, ∀ dh k, dhPublicOf p.serde text = some dh → keyOf dh = some k →
    dh = k.hex
  oneEncoding : OneEncoding p.crypto secret (peersOf p.serde (ms.map Sent.text ++ texts))
  kdf : IdealKdf p.crypto root
    (receiverInputs p.crypto sessionId secret (rootsOf p sessionId secret root ms)
      (peersOf p.serde (ms.map Sent.text ++ texts)) (saltsOf p.serde (ms.map Sent.text ++ texts)))
  unforged : ∀ text ∈ texts, ∀ x, sealedOf p.serde text = some x →
    Copied p ms x ∨ ¬MadeUnder p sessionId secret (rootsOf p sessionId secret root ms) x

/-- The same for a receiver in this state. -/
def IdealFor (p : Primitives F) (sessionId : String) (w : ConnectSessionState) (ms : List (Sent F))
    (texts : List String) : Prop :=
  ∃ secret root : Bytes32, w.myDhSecret = secret.hex ∧ w.encryptionRoot = root.hex ∧
    Ideal p sessionId secret root ms texts

/-! ## The texts of a chain -/

variable {p : Primitives F} {sessionId dir : String} {secret root : Bytes32}

theorem keyOf_hex (k : Bytes32) : keyOf k.hex = some k := by
  rw [keyOf, Bytes32.hex, Bytes.hexDecode_hexEncode]
  exact Bytes32.ofSlice?_bytes k

theorem keyOf_of_decode {decodeError : String} {lengthError : ℕ → String} {text : String}
    {k : Bytes32} (h : Bytes32.decode decodeError lengthError text = .ok k) :
    keyOf text = some k := by
  rw [Bytes32.decode] at h
  split at h
  · cases h
  · rename_i bs hbs
    split at h
    · rename_i k' hk'
      obtain rfl := Except.ok.inj h
      rw [keyOf, hbs]
      exact hk'
    · cases h

theorem get?_dhPublic_envelopeFields (h : Header) (encrypted : EncryptedConnectBody) (dh : String) :
    (envelopeFields h encrypted (some dh) : Json.Map F).get? "dh_public" = some (.str dh) := by
  simp [envelopeFields]

theorem fromStr_some_sent (serde : SerdeJson F) (l : Link F) :
    serde.fromStr some (l.sent serde).text =
      some (.object (envelopeFields l.header l.sealedBody.encoded (some l.dhPublic.hex))) :=
  serde.fromStr_toString _ _

@[simp] theorem dhPublicOf_sent (serde : SerdeJson F) (l : Link F) :
    dhPublicOf serde (l.sent serde).text = some l.dhPublic.hex := by
  rw [dhPublicOf, fromStr_some_sent]
  simp only [Option.bind_some, Json.Value.get?_object, get?_dhPublic_envelopeFields]
  rfl

theorem fromStr_sent (l : Link F) :
    p.serde.fromStr ConnectMessageEnvelope.read (l.sent p.serde).text =
      some (envelopeOf l.header l.sealedBody (some l.dhPublic.hex)) :=
  fromStr_envelopeFields _ _ _

theorem peersOf_sent (serde : SerdeJson F) (ls : List (Link F)) :
    peersOf serde ((ls.map (Link.sent serde)).map Sent.text) = ls.map Link.dhPublic := by
  induction ls with
  | nil => rfl
  | cons l ls ih =>
      have hl : (dhPublicOf serde (l.sent serde).text).bind keyOf = some l.dhPublic := by
        rw [dhPublicOf_sent]
        exact keyOf_hex l.dhPublic
      rw [List.map_cons, List.map_cons, List.map_cons, ← ih]
      exact List.filterMap_cons_some hl

theorem mem_peersOf {serde : SerdeJson F} {texts : List String} {text dh : String} {k : Bytes32}
    (htext : text ∈ texts) (hdh : dhPublicOf serde text = some dh) (hk : keyOf dh = some k) :
    k ∈ peersOf serde texts := by
  apply List.mem_filterMap.mpr ⟨text, htext, ?_⟩
  rw [hdh]
  exact hk

theorem mem_saltsOf {serde : SerdeJson F} {texts : List String} {text : String} {x : SealedBody}
    (htext : text ∈ texts) (hx : sealedOf serde text = some x) : x.salt ∈ saltsOf serde texts := by
  apply List.mem_filterMap.mpr ⟨text, htext, ?_⟩
  rw [hx]
  rfl

theorem Linked.rootsOf {lastSeen : UInt64} {ls : List (Link F)}
    (h : Linked p sessionId dir secret root lastSeen ls) :
    rootsOf p sessionId secret root (ls.map (Link.sent p.serde)) = root :: ls.map Link.root := by
  rw [MessageChain.rootsOf, peersOf_sent]
  induction ls generalizing root lastSeen with
  | nil => rfl
  | cons l ls ih =>
      rw [List.map_cons, List.scanl_cons, ← h.1.root, ih h.2]
      rfl

/-- The message of a chain at some place. -/
theorem Linked.getElem? {w : ConnectSessionState} {ls : List (Link F)}
    (h : Linked p sessionId dir secret root w.lastSeenSeq ls) {l : Link F} (hl : l ∈ ls) :
    ∃ i, ls[i]? = some l ∧
      LinkedTo p sessionId dir secret (rootAfter root ls i) (stateAfter w ls i).lastSeenSeq l := by
  obtain ⟨i, hi⟩ := List.mem_iff_getElem?.mp hl
  exact ⟨i, hi, h.linkedTo hi⟩

theorem sealedOf_sent {l : Link F} {key : Bytes}
    (h : Sealed p l.header l.body key l.sealedBody) :
    sealedOf p.serde (l.sent p.serde).text = some l.sealedBody := by
  rw [sealedOf, fromStr_sent]
  exact h.sealedBody?_envelopeOf _

theorem Linked.sealedOf_sent {w : ConnectSessionState} {ls : List (Link F)}
    (h : Linked p sessionId dir secret root w.lastSeenSeq ls) {l : Link F} (hl : l ∈ ls) :
    sealedOf p.serde (l.sent p.serde).text = some l.sealedBody := by
  obtain ⟨i, -, hlink⟩ := h.getElem? hl
  exact MessageChain.sealedOf_sent hlink.body

/-- The salts of messages that are sealed. -/
theorem saltsOf_sent {ls : List (Link F)}
    (h : ∀ l ∈ ls, ∃ key, Sealed p l.header l.body key l.sealedBody) :
    saltsOf p.serde ((ls.map (Link.sent p.serde)).map Sent.text) =
      ls.map fun l ↦ l.sealedBody.salt := by
  induction ls with
  | nil => rfl
  | cons l ls ih =>
      obtain ⟨key, hkey⟩ := h l List.mem_cons_self
      have hl : (sealedOf p.serde (l.sent p.serde).text).map SealedBody.salt =
          some l.sealedBody.salt := by
        rw [MessageChain.sealedOf_sent hkey]
        rfl
      rw [List.map_cons, List.map_cons, List.map_cons,
        ← ih fun l' hl' ↦ h l' (List.mem_cons_of_mem _ hl')]
      exact List.filterMap_cons_some hl

/-- A message of the chain opens with its root. -/
theorem LinkedTo.openBody_sent {lastSeen : UInt64} {l : Link F}
    (h : LinkedTo p sessionId dir secret root lastSeen l) :
    openBody p (envelopeOf l.header l.sealedBody (some l.dhPublic.hex)) sessionId l.root.hex =
      .ok l.body := by
  apply h.body.openBody_eq_ok (h.body.sealedBody?_envelopeOf _) _
    (decodeEncryptionSecret_hex l.root)
  rw [← h.session]
  rfl

/-! ## The next message of a chain -/

variable {w : ConnectSessionState} {ls : List (Link F)}

/-- The receiver at the point before a message takes it. -/
theorem Linked.rekeyInbound (hlinked : Linked p sessionId dir secret root w.lastSeenSeq ls)
    (hsecret : w.myDhSecret = secret.hex) (hroot : w.encryptionRoot = root.hex) {i : ℕ} {l : Link F}
    (hl : ls[i]? = some l) {now : UInt64} (hexpired : w.isExpired now = false) :
    Dh.rekeyInbound p.crypto (stateAfter w ls i) l.dhPublic.hex sessionId l.header.seq now =
      .ok ⟨l.root.hex, none, advance (stateAfter w ls i) l, 0⟩ := by
  have hlink := hlinked.linkedTo hl
  obtain ⟨hkept, hexpires, -⟩ := unchanged_stateAfter w ls i
  have hexpired' : (stateAfter w ls i).isExpired now = false := by
    rw [ConnectSessionState.isExpired, hexpires]
    exact hexpired
  have hpos : l.header.seq ≠ 0 := by
    intro hzero
    have hseq := hlink.seq
    rw [hzero] at hseq
    exact absurd hseq (UInt64.not_lt.mpr (UInt64.zero_le))
  have hshared : computeSharedSecret p.crypto (stateAfter w ls i).myDhSecret l.dhPublic.hex =
      .ok (p.crypto.diffieHellman secret l.dhPublic).hex := by
    rw [hkept, hsecret]
    exact computeSharedSecret_eq_ok_iff.mpr ⟨hlink.shared, rfl⟩
  apply rekeyInbound_of hexpired' hpos hlink.seq hshared
  rw [encryptionRoot_stateAfter hroot, deriveRekeyRoot_hex, hlink.root]
  rfl

/-- What an inbound message does to any state. -/
theorem rekeyInbound_eq_nextRoot {state : ConnectSessionState} {dh : String} {seq now : UInt64}
    {r : RekeyResult} (h : Dh.rekeyInbound p.crypto state dh sessionId seq now = .ok r) :
    ∃ secret root k, keyOf state.myDhSecret = some secret ∧
      keyOf state.encryptionRoot = some root ∧ keyOf dh = some k ∧
      r = ⟨(nextRoot p.crypto sessionId secret root k).hex, none, { state with
        encryptionRoot := (nextRoot p.crypto sessionId secret root k).hex
        peerDhPublic := dh
        lastSeenSeq := seq }, 0⟩ := by
  obtain ⟨shared, newRoot, -, hshared, hnewRoot, rfl⟩ := rekeyInbound_eq_ok h
  obtain ⟨secret, hsecret, hshared⟩ := Outcome.bind_eq_ok_iff.mp hshared
  obtain ⟨k, hk, hshared⟩ := Outcome.bind_eq_ok_iff.mp hshared
  dsimp only at hshared
  split at hshared
  · cases hshared
  · obtain rfl := Except.ok.inj hshared
    obtain ⟨root, hroot, hnewRoot⟩ := Outcome.bind_eq_ok_iff.mp hnewRoot
    rw [decodeShared, Bytes32.decode_hex, Outcome.ok_bind] at hnewRoot
    obtain rfl := Except.ok.inj hnewRoot
    exact ⟨secret, root, k, keyOf_of_decode hsecret, keyOf_of_decode hroot, keyOf_of_decode hk, rfl⟩

theorem exists_hex_of_rekeyInbound {state : ConnectSessionState} {dh : String} {seq now : UInt64}
    {r : RekeyResult} (h : Dh.rekeyInbound p.crypto state dh sessionId seq now = .ok r) :
    ∃ k : Bytes32, r.messageEncryptionRoot = k.hex := by
  obtain ⟨secret, root, k, -, -, -, rfl⟩ := rekeyInbound_eq_nextRoot h
  exact ⟨_, rfl⟩

/-- The root that a receiver takes at some point of a chain. -/
theorem rekeyInbound_stateAfter (hsecret : w.myDhSecret = secret.hex)
    (hroot : w.encryptionRoot = root.hex) {i : ℕ} {dh : String} {seq now : UInt64} {r : RekeyResult}
    (hr : Dh.rekeyInbound p.crypto (stateAfter w ls i) dh sessionId seq now = .ok r) :
    ∃ k, keyOf dh = some k ∧
      r = ⟨(nextRoot p.crypto sessionId secret (rootAfter root ls i) k).hex, none,
        { stateAfter w ls i with
          encryptionRoot := (nextRoot p.crypto sessionId secret (rootAfter root ls i) k).hex
          peerDhPublic := dh
          lastSeenSeq := seq }, 0⟩ := by
  obtain ⟨secret', root', k, hsecret', hroot', hk, hr⟩ := rekeyInbound_eq_nextRoot hr
  rw [(unchanged_stateAfter w ls i).1, hsecret, keyOf_hex] at hsecret'
  rw [encryptionRoot_stateAfter hroot, keyOf_hex] at hroot'
  obtain rfl := Option.some.inj hsecret'
  obtain rfl := Option.some.inj hroot'
  exact ⟨k, hk, hr⟩

/-- A receiver has the same root at no two points of a chain. -/
theorem Linked.rootAfter_injective (hlinked : Linked p sessionId dir secret root w.lastSeenSeq ls)
    {texts : List String}
    (hideal : Ideal p sessionId secret root (ls.map (Link.sent p.serde)) texts) {i j : ℕ}
    (hi : i ≤ ls.length) (hj : j ≤ ls.length)
    (hsame : rootAfter root ls i = rootAfter root ls j) : i = j := by
  have hkdf := hideal.kdf
  rw [hlinked.rootsOf] at hkdf
  refine hkdf.rootAfter_injective hlinked (fun l hl ↦ ?_) hi hj hsame
  exact mem_peersOf (List.mem_append_left _ (List.mem_map_of_mem (List.mem_map_of_mem hl)))
    (dhPublicOf_sent p.serde l) (keyOf_hex l.dhPublic)

/-- What opens at some point of a chain is the next message of the chain. -/
theorem Linked.of_openBody (hlinked : Linked p sessionId dir secret root w.lastSeenSeq ls)
    (hsecret : w.myDhSecret = secret.hex) (hroot : w.encryptionRoot = root.hex)
    {texts : List String}
    (hideal : Ideal p sessionId secret root (ls.map (Link.sent p.serde)) texts) {i : ℕ}
    (hi : i ≤ ls.length) {text dh : String} (htext : text ∈ texts)
    (hdh : dhPublicOf p.serde text = some dh) {seq now : UInt64} {r : RekeyResult}
    (hr : Dh.rekeyInbound p.crypto (stateAfter w ls i) dh sessionId seq now = .ok r)
    {e : ConnectMessageEnvelope F}
    (he : p.serde.fromStr ConnectMessageEnvelope.read text = some e) {body : Value F}
    (hopen : openBody p e sessionId r.messageEncryptionRoot = .ok body) :
    ∃ l, ls[i]? = some l ∧ dh = l.dhPublic.hex ∧ e.header? sessionId = some l.header ∧
      body = l.body ∧ r.messageEncryptionRoot = l.root.hex := by
  obtain ⟨k, hk, rfl⟩ := rekeyInbound_stateAfter hsecret hroot hr
  obtain ⟨x, ts, root', plaintext, hx, hts, hroot', hdecrypt, hbody⟩ := openBody_eq_ok_iff.mp hopen
  rw [decodeEncryptionSecret_hex] at hroot'
  obtain rfl := Except.ok.inj hroot'
  have hsealed : sealedOf p.serde text = some x := by
    rw [sealedOf, he]
    exact hx
  have hencrypt := p.aead.encrypt_of_decrypt hdecrypt
  have hroots : rootAfter root ls i ∈
      MessageChain.rootsOf p sessionId secret root (ls.map (Link.sent p.serde)) := by
    rw [hlinked.rootsOf]
    exact rootAfter_mem root ls i
  -- The ciphertext was made under a root of the session, so it is copied.
  obtain hcopied | hforged := hideal.unforged text htext x hsealed
  · obtain ⟨m, hm, y, hy, hsame⟩ := hcopied
    obtain ⟨l, hl, rfl⟩ := List.mem_map.mp hm
    obtain ⟨j, hj, hlink⟩ := hlinked.getElem? hl
    obtain rfl := Option.some.inj ((hlinked.sealedOf_sent hl).symm.trans hy)
    rw [hsame] at hdecrypt
    obtain ⟨hkey, -, haad, hmsg⟩ := IdealAead.eq_of_decrypt hlink.body.ciphertext hdecrypt
    have hsent {l : Link F} (hl : l ∈ ls) : (l.sent p.serde).text ∈
        (ls.map (Link.sent p.serde)).map Sent.text ++ texts :=
      List.mem_append_left _ (List.mem_map_of_mem (List.mem_map_of_mem hl))
    have hread : text ∈ (ls.map (Link.sent p.serde)).map Sent.text ++ texts :=
      List.mem_append_right _ htext
    have hpeers (l : Link F) (hl : l ∈ ls) :=
      mem_peersOf (hsent hl) (dhPublicOf_sent p.serde l) (keyOf_hex l.dhPublic)
    have hsalts (l : Link F) (hl : l ∈ ls) :=
      mem_saltsOf (hsent hl) (hlinked.sealedOf_sent hl)
    have hkmem := mem_peersOf hread hdh hk
    have hsalt := mem_saltsOf hread hsealed
    have hkdf := hideal.kdf
    rw [hlinked.rootsOf] at hkdf
    obtain ⟨rfl, rfl⟩ := hkdf.eq_of_key hlinked hpeers hsalts hideal.oneEncoding hi hj hkmem hsalt
      hkey.symm
    have hheader := connectMessageAad_injective haad
    rw [← hmsg, p.serde.fromSlice_toVec] at hbody
    refine ⟨l, hj, hideal.oneText text htext dh l.dhPublic hdh hk, ?_,
      (Option.some.inj hbody).symm, ?_⟩
    · rw [ConnectMessageEnvelope.header?, hts, hheader]
      rfl
    · rw [(hlinked.linkedTo hj).root]
  · exact absurd ⟨_, hroots, k, _, _, _, hencrypt⟩ hforged

/-! ## Copies only -/

theorem subset_filterMap_append {α β : Type} (f : α → Option β) {xs ys : List α} (h : ys ⊆ xs) :
    (xs ++ ys).filterMap f ⊆ xs.filterMap f := by
  rw [List.filterMap_append]
  exact List.append_subset.mpr ⟨fun _ ↦ id, List.filterMap_subset f h⟩

/-- When nothing but the messages of the chain is read, the keys are to have one
encoding and their derivation is to be ideal. -/
theorem Ideal.of_copies (hagrees : p.crypto.Agrees)
    (hlinked : Linked p sessionId dir secret root w.lastSeenSeq ls) {texts : List String}
    (htexts : texts ⊆ (ls.map (Link.sent p.serde)).map Sent.text)
    (hencoding : OneEncoding p.crypto secret (ls.map Link.dhPublic))
    (hkdf : IdealKdf p.crypto root (receiverInputs p.crypto sessionId secret
      (root :: ls.map Link.root) (ls.map Link.dhPublic) (ls.map fun l ↦ l.sealedBody.salt))) :
    Ideal p sessionId secret root (ls.map (Link.sent p.serde)) texts := by
  have hlink {text : String} (htext : text ∈ texts) : ∃ l ∈ ls, text = (l.sent p.serde).text := by
    obtain ⟨m, hm, rfl⟩ := List.mem_map.mp (htexts htext)
    obtain ⟨l, hl, rfl⟩ := List.mem_map.mp hm
    exact ⟨l, hl, rfl⟩
  have hpeers : peersOf p.serde ((ls.map (Link.sent p.serde)).map Sent.text ++ texts) ⊆
      ls.map Link.dhPublic := by
    rw [← peersOf_sent p.serde ls]
    exact subset_filterMap_append _ htexts
  have hsalts : saltsOf p.serde ((ls.map (Link.sent p.serde)).map Sent.text ++ texts) ⊆
      ls.map fun l ↦ l.sealedBody.salt := by
    have hsent : saltsOf p.serde ((ls.map (Link.sent p.serde)).map Sent.text) =
        ls.map fun l ↦ l.sealedBody.salt := by
      apply saltsOf_sent
      intro l hl
      obtain ⟨i, -, hlink⟩ := hlinked.getElem? hl
      exact ⟨_, hlink.body⟩
    rw [← hsent]
    exact subset_filterMap_append _ htexts
  refine ⟨hagrees, ?_, ?_, ?_, ?_⟩
  · rintro text htext dh k hdh hk
    obtain ⟨l, hl, rfl⟩ := hlink htext
    rw [dhPublicOf_sent] at hdh
    obtain rfl := Option.some.inj hdh
    rw [keyOf_hex] at hk
    rw [Option.some.inj hk]
  · intro k hk k' hk'
    exact hencoding k (hpeers hk) k' (hpeers hk')
  · rw [hlinked.rootsOf]
    exact hkdf.mono (receiverInputs_subset _ _ _ _ hpeers hsalts)
  · intro text htext x hx
    obtain ⟨l, hl, rfl⟩ := hlink htext
    exact .inl ⟨_, List.mem_map_of_mem hl, x, hx, rfl⟩

/-! ## Sessions over the real primitives -/

open Json.Compact (serde)

def walletKey : Bytes32 := key 0x597d580e8705ba4547340d05859602cd6ec7a51478c1707bec33b6ccd13a8dce

def dappKey : Bytes32 := key 0x09a2f809442bdcf99d8cb66ab406d913bba95f9f562c77b978c251b69292e0a4

def firstKey : Bytes32 := key 0x22efb324016e1cdff9da8b484d7753eab05b9d965de18ea26f7fd46b3bddfe5d

def secondKey : Bytes32 := key 0x0bf1ec7f616993011ca633f4cb7f3cb1faf4e05d7b2353b84f35869e20b201ac

def replyKey : Bytes32 := key 0x5d49203d657c906e78d71b0b00072c77e919e700b7169b5e32d0ddb10914a650

/-- The shared secret of the wallet with the first key of the dApp. -/
def firstShared : Bytes32 := key 0x6ca9fd71f147a2a266ee02b5087780171051d64da3b01200e6f2a7f6515a427c

def secondShared : Bytes32 := key 0x347c0477998b7b1b702f1cf36d6e10ca89bbe3ecbd606609599979e34c97bb09

def replyShared : Bytes32 := key 0x47a89a25c23fe34f24c035d425a7cae06bdd9290965e5a896c9de6d2f1dd7e8a

def lateShared : Bytes32 := key 0x0e25501a0dbaa837405e0f24ad355804f0ea8abcbfb9e9910d01cde180755558

theorem exchange_exampleKeys :
    exchange exampleKeys firstKey walletKey = firstShared ∧
      exchange exampleKeys secondKey walletKey = secondShared ∧
      exchange exampleKeys replyKey firstKey = replyShared ∧
      exchange exampleKeys replyKey secondKey = lateShared := by
  decide +kernel

theorem nonzero_exampleShared : ∀ k ∈ [firstShared, secondShared, replyShared, lateShared],
    k.bytes.all (· = 0) = false := by
  decide +kernel

theorem diffieHellman_example {secret k : Bytes32} (h : exampleCrypto.publicKey secret = k)
    (peer : Bytes32) : exampleCrypto.diffieHellman secret peer = exchange exampleKeys k peer := by
  simp only [exampleCrypto] at h ⊢
  rw [h]

theorem publicKey_dapp : exampleCrypto.publicKey (repeated 1) = dappKey :=
  publicKey_exampleKeys (repeated 1, dappKey) (by simp [exampleKeys, dappKey])

theorem publicKey_wallet : exampleCrypto.publicKey (repeated 2) = walletKey :=
  publicKey_exampleKeys (repeated 2, walletKey) (by simp [exampleKeys, walletKey])

theorem publicKey_first : exampleCrypto.publicKey (repeated 3) = firstKey :=
  publicKey_exampleKeys (repeated 3, firstKey) (by simp [exampleKeys, firstKey])

theorem publicKey_second : exampleCrypto.publicKey (repeated 4) = secondKey :=
  publicKey_exampleKeys (repeated 4, secondKey) (by simp [exampleKeys, secondKey])

theorem publicKey_reply : exampleCrypto.publicKey (repeated 5) = replyKey :=
  publicKey_exampleKeys (repeated 5, replyKey) (by simp [exampleKeys, replyKey])

/-- The root of the session, and roots that are derived of it: with the first
key, with the first key twice, with the second after the first and then with
each of the keys again, with the second alone, with the reply to the first, and
to the second after the first. -/
def startRoot : Bytes32 := repeated 7

def firstRoot : Bytes32 := key 0xaac65f5f51cee0a4741fced58e79a915cac7c09dc0267eb893c60048cdb67505

def twiceRoot : Bytes32 := key 0x5b22b72dfda6b1a35bdd23ecefae2607de592a58cb41efd8d657786783225ab8

def secondRoot : Bytes32 := key 0x1017cd1b7ae407727bfef455b0edafbff3e2b74e0a73ce779637cea5298ddba4

def thirdRoot : Bytes32 := key 0x385b9430180e947eeacf9fc63135c96323d3e883de58c86747350751cf9dc2f5

def fourthRoot : Bytes32 := key 0xfd6974be4d056257be3b6778e875aaecdfdacdca6ed5634c4637841e93790ab9

def otherRoot : Bytes32 := key 0x8fa9926a76c35e6ee0a5c44027bd817877ad724ced886699d6aa8ede14762c91

def replyRoot : Bytes32 := key 0xddfb4e45cad9b0896e93504f1d598236dd6dbc19c966013972cc0f4fdfc0fe44

def lateRoot : Bytes32 := key 0x6f30f04eafdb61e35172425d39853b8f1267b358482154b4ea11e824481839d0

/-- The roots with the first key, and with it twice, in a session whose
identifier begins with a space. -/
def spacedRoot : Bytes32 := key 0x1c5e1767d11c8d447306603bb21843f5c78afcf182f44d707e5e7b11454d517e

def spacedTwiceRoot : Bytes32 :=
  key 0xb4669181ac301fe3aa1a4fc256f6d91bc9b2f8f85789b6fae4e6218e2ab633b6

def firstMessageKey : Bytes32 := key 0x75aea96897c5741e6a84cf9e0c305f0ce85d492a4f6359abef24bce434f766f2

def secondMessageKey : Bytes32 := key 0x6aac8448bc74e7e31714b8aa668e73a839c26d826fd7193c2f503c441ce44106

def otherMessageKey : Bytes32 := key 0x27205f2b7670815b2d5d95216786f49b4baa3ddcf3755392af7c2c66c6bbc45e

def replyMessageKey : Bytes32 := key 0xbd68aa69215f49599421b1c36dead6f2eaee5e484423eca513978caf59139caf

def spacedMessageKey : Bytes32 := key 0x60b8264787cbaa20230b2b5c49e69b9e9ca13637986ea1d2573087407caa3ce9

def exampleSalt : Bytes32 := repeated 6

/-- What is derived in the sessions below. -/
def exampleTable : List (KdfInput × Bytes32) :=
  [(rootInput "session-1" startRoot firstShared, firstRoot),
    (keyInput exampleSalt.bytes firstRoot, firstMessageKey),
    (rootInput "session-1" firstRoot firstShared, twiceRoot),
    (keyInput exampleSalt.bytes twiceRoot,
      key 0xabf80a3c294f92aa13634f23c6074dc1e36564f4eef4ef1e09a7333b6fc2d8fb),
    (rootInput "session-1" firstRoot secondShared, secondRoot),
    (keyInput exampleSalt.bytes secondRoot, secondMessageKey),
    (rootInput "session-1" secondRoot firstShared, thirdRoot),
    (keyInput exampleSalt.bytes thirdRoot,
      key 0xbcc5a42a739ff8145fee1dec93f74e3f2b68c2d8f261759f0c146fa387df94fb),
    (rootInput "session-1" secondRoot secondShared, fourthRoot),
    (keyInput exampleSalt.bytes fourthRoot,
      key 0x5bdddd1e4fd7f6ccab450969a027880e4ed7a48cc5a0951cc8a2f0daf4e4fc91),
    (rootInput "session-1" startRoot secondShared, otherRoot),
    (keyInput exampleSalt.bytes otherRoot, otherMessageKey),
    (rootInput "session-1" firstRoot replyShared, replyRoot),
    (keyInput exampleSalt.bytes replyRoot, replyMessageKey),
    (rootInput "session-1" secondRoot lateShared, lateRoot),
    (keyInput exampleSalt.bytes lateRoot,
      key 0x2e0be86efd49796af89cfa023050d8fabda50cc70f3aeffd098ba27a12052c0c),
    (rootInput " session-1" startRoot firstShared, spacedRoot),
    (keyInput exampleSalt.bytes spacedRoot, spacedMessageKey),
    (rootInput " session-1" spacedRoot firstShared, spacedTwiceRoot),
    (keyInput exampleSalt.bytes spacedTwiceRoot,
      key 0x0c7a39a2db5e15304043cd955cd48ae219c2ff2c6a6491789b2b1668db4a5a7c)]

theorem kdf_exampleTable : ∀ d ∈ exampleTable, kdf exampleCrypto d.1 = d.2 := by decide +kernel

theorem nodup_exampleTable : (startRoot :: exampleTable.map Prod.snd).Nodup := by decide +kernel

/-! ## Messages of these sessions -/

def exampleNonce : { bs : Bytes // bs.length = 24 } := ⟨List.replicate 24 5, List.length_replicate⟩

def challengeBody (nonce : String) : Value Empty := .object (.ofList [("nonce", .str nonce)])

def miningBody : Value Empty :=
  .object (.ofList [("app_id", .str "0x1"), ("owner_public", .str (repeated 9).hex)])

def answerBody : Value Empty :=
  .object (.ofList [("nonce", .str "one"), ("signature", .str "00"),
    ("wallet_address", .str "0:1")])

def exampleHeader (sessionId dir : String) (seq : UInt64) (msgType : String) : Header :=
  ⟨sessionId, dir, seq, msgType, seq / 1000⟩

/-- A message, and the key that it is sealed with. -/
def exampleMessages : List (Bytes32 × Header × Value Empty) :=
  [(firstMessageKey, exampleHeader "session-1" "c2w" 1700000001000 typeSignChallenge,
      challengeBody "one"),
    (secondMessageKey, exampleHeader "session-1" "c2w" 1700000002000 typeSetMiningKeys, miningBody),
    (otherMessageKey, exampleHeader "session-1" "c2w" 1700000002000 typeSignChallenge,
      challengeBody "two"),
    (replyMessageKey, exampleHeader "session-1" "w2c" 1700000003000 typeChallengeResponse,
      answerBody),
    (firstMessageKey, exampleHeader "session-1" "c2w" 1700000001000 typeSetMiningKeys, miningBody),
    (firstMessageKey, exampleHeader "session-1" "w2c" 1700000001000 typeChallengeResponse,
      answerBody),
    (firstMessageKey, exampleHeader "session-1" "w2c" 1700000001000 "status", challengeBody "one"),
    (secondMessageKey, exampleHeader "session-1" "w2c" 1700000002000 typeChallengeResponse,
      answerBody),
    (spacedMessageKey, exampleHeader " session-1" "c2w" 1700000001000 typeSignChallenge,
      challengeBody "one")]

def exampleSealings : List Sealing :=
  exampleMessages.map fun m ↦
    ⟨m.1, exampleNonce.val, connectMessageAad serde m.2.1, serde.toVec m.2.2⟩

def xchacha (q : Sealing) : Bytes := XChaCha.encrypt q.key q.nonce q.aad q.msg

theorem nodup_exampleSealings : (exampleSealings.map xchacha).Nodup := by decide +kernel

theorem head_exampleSealings : ∀ q ∈ exampleSealings, (xchacha q).head? ≠ some 0 := by
  decide +kernel

def examplePrimitives : Primitives Empty :=
  ⟨exampleCrypto, .recorded nodup_exampleSealings head_exampleSealings, serde⟩

/-- One end of a session with its secret, the key of its peer and the root. -/
def exampleState (secret peer root : Bytes32) (seen sent : UInt64) : ConnectSessionState where
  encryptionRoot := root.hex
  myDhSecret := secret.hex
  peerDhPublic := peer.hex
  signingPublic := ""
  signingSecret := ""
  createdAt := 1700000000
  expiresAt := 1700086400
  lastSeenSeq := seen
  lastSentSeq := sent

theorem isExpired_exampleState {secret peer root : Bytes32} {seen sent now : UInt64}
    (h : now < 1700086400) : (exampleState secret peer root seen sent).isExpired now = false := by
  have hexpires : (exampleState secret peer root seen sent).expiresAt = 1700086400 := rfl
  rw [ConnectSessionState.isExpired, hexpires, if_neg (by decide)]
  exact decide_eq_false (UInt64.not_le.mpr h)

def exampleDapp : ConnectSessionState :=
  exampleState (repeated 1) walletKey startRoot 1700000000000 1700000000000

def exampleWallet : ConnectSessionState :=
  exampleState (repeated 2) dappKey startRoot 1700000000000 1700000000000

/-- The two ends of a session mirror each other when each holds the public key
of the other's secret. -/
theorem mirror_exampleState {secret secret' k k' root : Bytes32} {seen sent : UInt64}
    (hk : exampleCrypto.publicKey secret = k) (hk' : exampleCrypto.publicKey secret' = k') :
    Mirror exampleCrypto (exampleState secret k' root seen sent)
      (exampleState secret' k root sent seen) where
  root := ⟨root, rfl, rfl⟩
  key := ⟨secret, rfl, congrArg Bytes32.hex hk.symm⟩
  key' := ⟨secret', rfl, congrArg Bytes32.hex hk'.symm⟩
  seq := rfl
  seq' := rfl

theorem mirror_example : Mirror exampleCrypto exampleDapp exampleWallet :=
  mirror_exampleState publicKey_dapp publicKey_wallet

/-- A message with its ciphertext in these sessions. -/
def exampleLink (h : Header) (body : Value Empty) (dhPublic root : Bytes32) : Link Empty where
  header := h
  body := body
  dhPublic := dhPublic
  root := root
  sealedBody := ⟨exampleNonce.val, exampleSalt.bytes, IdealAead.encloseKnown xchacha exampleSealings
    ⟨kdf exampleCrypto (keyInput exampleSalt.bytes root), exampleNonce.val,
      connectMessageAad serde h, serde.toVec body⟩⟩

/-- With this fresh secret a sender comes from one root to the next. -/
structure ExampleStep (sessionId : String) (new dhPublic peer root next : Bytes32) : Prop where
  publicKey : exampleCrypto.publicKey new = dhPublic
  nonzero : (exchange exampleKeys dhPublic peer).bytes.all (· = 0) = false
  next : (rootInput sessionId root (exchange exampleKeys dhPublic peer), next) ∈ exampleTable

theorem sealed_exampleLink (h : Header) (body : Value Empty) (dhPublic root : Bytes32) :
    Sealed examplePrimitives h body root.bytes (exampleLink h body dhPublic root).sealedBody where
  nonce := exampleNonce.property
  salt := exampleSalt.length_eq
  ciphertext := rfl

theorem sealConnectMessage_exampleLink (h : Header) (body : Value Empty) (dhPublic root : Bytes32) :
    sealConnectMessage examplePrimitives ⟨.ok exampleNonce, .ok exampleSalt⟩ h body root.hex
        (some dhPublic.hex) = .ok ((exampleLink h body dhPublic root).sent serde).text :=
  sealConnectMessage_of rfl rfl (decodeEncryptionSecret_hex root)
    (sealed_exampleLink h body dhPublic root).ciphertext _

namespace ExampleStep

variable {sessionId : String} {new dhPublic peer root next secret : Bytes32}
    {seen last seq : UInt64}
  (h : ExampleStep sessionId new dhPublic peer root next)

include h

theorem kdf_eq : kdf exampleCrypto (rootInput sessionId root (exchange exampleKeys dhPublic peer)) =
    next :=
  kdf_exampleTable (_, next) h.next

theorem rekeyOutbound (hseq : last < seq) :
    Dh.rekeyOutbound exampleCrypto (exampleState secret peer root seen last) sessionId seq
        1700000000 (.ok new) =
      .ok ⟨next.hex, some dhPublic.hex, exampleState new peer next seen seq, seq⟩ := by
  have hshared := diffieHellman_example h.publicKey peer
  have hnext := h.kdf_eq
  rw [kdf_rootInput, ← hshared] at hnext
  have hr := @rekeyOutbound_hex exampleCrypto sessionId
    (exampleState secret peer root seen last) seq 1700000000 root peer rfl rfl
    (isExpired_exampleState (by decide)) hseq new (hshared.symm ▸ h.nonzero) next hnext
  rw [h.publicKey] at hr
  exact hr

/-- The message that a sender makes of this step. -/
theorem chain (hseq : last < seq) (dir msgType : String) (body : Value Empty)
    {ms : List (Sent Empty)}
    {b : ConnectSessionState}
    (hrest : Chain examplePrimitives sessionId dir (exampleState new peer next seen seq) ms b) :
    Chain examplePrimitives sessionId dir (exampleState secret peer root seen last)
      ((exampleLink (exampleHeader sessionId dir seq msgType) body dhPublic next).sent serde :: ms)
        b := by
  have hr := @rekeyOutbound sessionId new dhPublic peer root next secret seen last seq h hseq
  have hseal := sealConnectMessage_exampleLink (exampleHeader sessionId dir seq msgType) body
    dhPublic next
  have hsent : (exampleLink (exampleHeader sessionId dir seq msgType) body dhPublic next).sent serde =
      ⟨((exampleLink (exampleHeader sessionId dir seq msgType) body dhPublic next).sent serde).text,
        exampleHeader sessionId dir seq msgType, body⟩ := rfl
  rw [hsent]
  generalize ((exampleLink (exampleHeader sessionId dir seq msgType) body dhPublic next).sent serde).text =
    text at hseal ⊢
  exact Chain.cons (p := examplePrimitives) hr hseal hrest

omit h in
theorem diffieHellman_peer (hpeer : exampleCrypto.publicKey secret = peer) :
    exampleCrypto.diffieHellman secret dhPublic = exchange exampleKeys dhPublic peer := by
  rw [diffieHellman_example hpeer, exchange_comm]

theorem nextRoot_eq (hpeer : exampleCrypto.publicKey secret = peer) :
    nextRoot exampleCrypto sessionId secret root dhPublic = next := by
  rw [nextRoot, diffieHellman_peer hpeer, ← kdf_rootInput]
  exact h.kdf_eq

/-- The message continues the ratchet of the receiver. -/
theorem linkedTo (hpeer : exampleCrypto.publicKey secret = peer) (hseq : last < seq)
    (dir msgType : String) (body : Value Empty) :
    LinkedTo examplePrimitives sessionId dir secret root last
      (exampleLink (exampleHeader sessionId dir seq msgType) body dhPublic next) where
  session := rfl
  dir := rfl
  seq := hseq
  shared := by
    have hnonzero := h.nonzero
    rw [← diffieHellman_peer hpeer] at hnonzero
    exact hnonzero
  root := (h.nextRoot_eq hpeer).symm
  body := sealed_exampleLink _ body dhPublic next

/-- What the receiver derives of this step is in the table. -/
theorem inputsAt_subset (hpeer : exampleCrypto.publicKey secret = peer)
    (hkey : keyInput exampleSalt.bytes next ∈ exampleTable.map Prod.fst) {salts : List Bytes}
    (hsalts : ∀ salt ∈ salts, salt = exampleSalt.bytes) :
    inputsAt exampleCrypto sessionId secret salts root dhPublic ⊆ exampleTable.map Prod.fst := by
  intro input hinput
  obtain rfl | hinput := List.mem_cons.mp hinput
  · have hrekey : rekeyInput exampleCrypto sessionId secret root dhPublic =
        rootInput sessionId root (exchange exampleKeys dhPublic peer) := by
      rw [rekeyInput, rootInput, diffieHellman_peer hpeer]
    rw [hrekey]
    exact List.mem_map_of_mem h.next
  · obtain ⟨salt, hsalt, rfl⟩ := List.mem_map.mp hinput
    rw [hsalts salt hsalt, h.nextRoot_eq hpeer]
    exact hkey

omit h in
theorem of_shared {shared : Bytes32} (hpublic : exampleCrypto.publicKey new = dhPublic)
    (hshared : exchange exampleKeys dhPublic peer = shared)
    (hmem : shared ∈ [firstShared, secondShared, replyShared, lateShared])
    (hnext : (rootInput sessionId root shared, next) ∈ exampleTable) :
    ExampleStep sessionId new dhPublic peer root next where
  publicKey := hpublic
  nonzero := by
    rw [hshared]
    exact nonzero_exampleShared shared hmem
  next := by
    rw [hshared]
    exact hnext

end ExampleStep

theorem exampleStep_first :
    ExampleStep "session-1" (repeated 3) firstKey walletKey startRoot firstRoot :=
  .of_shared publicKey_first exchange_exampleKeys.1 (by simp) (by simp [exampleTable])

theorem exampleStep_twice :
    ExampleStep "session-1" (repeated 3) firstKey walletKey firstRoot twiceRoot :=
  .of_shared publicKey_first exchange_exampleKeys.1 (by simp) (by simp [exampleTable])

theorem exampleStep_second :
    ExampleStep "session-1" (repeated 4) secondKey walletKey firstRoot secondRoot :=
  .of_shared publicKey_second exchange_exampleKeys.2.1 (by simp) (by simp [exampleTable])

theorem exampleStep_other :
    ExampleStep "session-1" (repeated 4) secondKey walletKey startRoot otherRoot :=
  .of_shared publicKey_second exchange_exampleKeys.2.1 (by simp) (by simp [exampleTable])

theorem exampleStep_reply :
    ExampleStep "session-1" (repeated 5) replyKey firstKey firstRoot replyRoot :=
  .of_shared publicKey_reply exchange_exampleKeys.2.2.1 (by simp) (by simp [exampleTable])

theorem exampleStep_late :
    ExampleStep "session-1" (repeated 5) replyKey secondKey secondRoot lateRoot :=
  .of_shared publicKey_reply exchange_exampleKeys.2.2.2 (by simp) (by simp [exampleTable])

theorem exampleStep_spaced :
    ExampleStep " session-1" (repeated 3) firstKey walletKey startRoot spacedRoot :=
  .of_shared publicKey_first exchange_exampleKeys.1 (by simp) (by simp [exampleTable])

theorem exampleStep_spacedTwice :
    ExampleStep " session-1" (repeated 3) firstKey walletKey spacedRoot spacedTwiceRoot :=
  .of_shared publicKey_first exchange_exampleKeys.1 (by simp) (by simp [exampleTable])

theorem exampleStep_third :
    ExampleStep "session-1" (repeated 3) firstKey walletKey secondRoot thirdRoot :=
  .of_shared publicKey_first exchange_exampleKeys.1 (by simp) (by simp [exampleTable])

theorem exampleStep_fourth :
    ExampleStep "session-1" (repeated 4) secondKey walletKey secondRoot fourthRoot :=
  .of_shared publicKey_second exchange_exampleKeys.2.1 (by simp) (by simp [exampleTable])

/-- The table has what the wallet derives of a root with a key. -/
def IsDerived (sessionId : String) (root dhPublic : Bytes32) : Prop :=
  ∃ new next, ExampleStep sessionId new dhPublic walletKey root next ∧
    keyInput exampleSalt.bytes next ∈ exampleTable.map Prod.fst

theorem isDerived_example :
    (∀ r ∈ [startRoot, firstRoot, secondRoot], ∀ k ∈ [firstKey, secondKey],
      IsDerived "session-1" r k) ∧
    ∀ r ∈ [startRoot, spacedRoot], IsDerived " session-1" r firstKey := by
  simp only [List.forall_mem_cons, List.not_mem_nil, false_implies, implies_true, and_true]
  exact ⟨⟨⟨⟨_, _, exampleStep_first, by simp [exampleTable]⟩,
      ⟨_, _, exampleStep_other, by simp [exampleTable]⟩⟩,
    ⟨⟨_, _, exampleStep_twice, by simp [exampleTable]⟩,
      ⟨_, _, exampleStep_second, by simp [exampleTable]⟩⟩,
    ⟨_, _, exampleStep_third, by simp [exampleTable]⟩,
      ⟨_, _, exampleStep_fourth, by simp [exampleTable]⟩⟩,
    ⟨_, _, exampleStep_spaced, by simp [exampleTable]⟩,
      ⟨_, _, exampleStep_spacedTwice, by simp [exampleTable]⟩⟩

theorem isDerived_first : ∀ r ∈ [startRoot, firstRoot], IsDerived "session-1" r firstKey :=
  fun r hr ↦ isDerived_example.1 r (List.mem_append_left [secondRoot] hr) firstKey
    List.mem_cons_self

theorem oneEncoding_example : OneEncoding exampleCrypto (repeated 2) [firstKey, secondKey] := by
  have hne : firstShared ≠ secondShared := by decide +kernel
  have hfirst := diffieHellman_example publicKey_wallet firstKey
  have hsecond := diffieHellman_example publicKey_wallet secondKey
  rw [exchange_comm, exchange_exampleKeys.1] at hfirst
  rw [exchange_comm, exchange_exampleKeys.2.1] at hsecond
  intro k hk k' hk' hsame
  simp only [List.mem_cons, List.not_mem_nil, or_false] at hk hk'
  obtain rfl | rfl := hk
  · obtain rfl | rfl := hk'
    · rfl
    · exact absurd (hfirst.symm.trans (hsame.trans hsecond)) hne
  · obtain rfl | rfl := hk'
    · exact absurd (hfirst.symm.trans (hsame.symm.trans hsecond)) hne
    · rfl

/-- What the wallet reads of a chain is ideal when the table has all that it
derives. -/
theorem idealFor_example {sessionId dir : String} {ls : List (Link Empty)} {texts : List String}
    (hlinked : Linked examplePrimitives sessionId dir (repeated 2) startRoot
      exampleWallet.lastSeenSeq ls)
    (htexts : texts ⊆ (ls.map (Link.sent serde)).map Sent.text)
    (hkeys : ls.map Link.dhPublic ⊆ [firstKey, secondKey])
    (hsalts : ∀ salt ∈ ls.map fun l ↦ l.sealedBody.salt, salt = exampleSalt.bytes)
    (hderived : ∀ r ∈ startRoot :: ls.map Link.root, ∀ k ∈ ls.map Link.dhPublic,
      IsDerived sessionId r k) :
    IdealFor examplePrimitives sessionId exampleWallet (ls.map (Link.sent serde)) texts := by
  refine ⟨repeated 2, startRoot, rfl, rfl, ?_⟩
  apply Ideal.of_copies exampleCrypto_agrees hlinked htexts
  · intro k hk k' hk'
    exact oneEncoding_example k (hkeys hk) k' (hkeys hk')
  · apply IdealKdf.of_table kdf_exampleTable nodup_exampleTable
    intro input hinput
    obtain ⟨r, hr, hinput⟩ := List.mem_flatMap.mp hinput
    obtain ⟨k, hk, hinput⟩ := List.mem_flatMap.mp hinput
    obtain ⟨new, next, hstep, hkey⟩ := hderived r hr k hk
    exact hstep.inputsAt_subset publicKey_wallet hkey hsalts hinput

/-- A chain of one message. -/
theorem idealFor_exampleLink {sessionId : String} {root : Bytes32}
    (hstep : ExampleStep sessionId (repeated 3) firstKey walletKey startRoot root)
    (hderived : ∀ r ∈ [startRoot, root], IsDerived sessionId r firstKey) (dir msgType : String)
    (body : Value Empty) {texts : List String}
    (htexts : texts ⊆ [((exampleLink (exampleHeader sessionId dir 1700000001000 msgType) body
      firstKey root).sent serde).text]) :
    IdealFor examplePrimitives sessionId exampleWallet
      [(exampleLink (exampleHeader sessionId dir 1700000001000 msgType) body firstKey root).sent
        serde] texts := by
  have hlinked : Linked examplePrimitives sessionId dir (repeated 2) startRoot
      exampleWallet.lastSeenSeq
      [exampleLink (exampleHeader sessionId dir 1700000001000 msgType) body firstKey root] :=
    ⟨hstep.linkedTo publicKey_wallet (by decide) dir msgType body, trivial⟩
  apply idealFor_example hlinked htexts
  · exact List.cons_subset.mpr ⟨List.mem_cons_self, List.nil_subset _⟩
  · exact List.forall_mem_singleton.mpr rfl
  · intro r hr
    exact List.forall_mem_singleton.mpr (hderived r hr)

end MessageChain

end BeeEngine
