import BeeEngine.Ratchet
import BeeEngine.WalletMessage

/-!
# Chains of messages

Messages that one end of a session sends in a row, and the same messages as
links of the receiver's ratchet.  The derivation of keys is ideal: it is
injective on the inputs that come up, and none of them gives the root at the
start of the chain again.
-/

namespace BeeEngine

open ConnectMessage Dh Ratchet
open Json (Value)

namespace MessageChain

variable {F : Type}

/-! ## What is sent -/

/-- The text of a message, with the fields and the body that are sealed in it. -/
structure Sent (F : Type) where
  text : String
  header : Header
  body : Value F

/-- Messages sent in a row from a state, each re-keyed and encoded with the root
of its re-key. -/
inductive Chain (p : Primitives F) (sessionId dir : String) :
    ConnectSessionState → List (Sent F) → ConnectSessionState → Prop
  | nil (a : ConnectSessionState) : Chain p sessionId dir a [] a
  | cons {a b : ConnectSessionState} {ms : List (Sent F)} {seq now : UInt64}
      {random : Except String Bytes32} {r : RekeyResult} {entropy : Entropy} {msgType : String}
      {ts : UInt64} {body : Value F} {text : String} :
      rekeyOutbound p.crypto a sessionId seq now random = .ok r →
      sealConnectMessage p entropy ⟨sessionId, dir, r.outboundSeq, msgType, ts⟩ body
        r.messageEncryptionRoot r.newDhPublic = .ok text →
      Chain p sessionId dir r.updatedState ms b →
      Chain p sessionId dir a (⟨text, ⟨sessionId, dir, r.outboundSeq, msgType, ts⟩, body⟩ :: ms) b

/-! ## Links of the receiver's ratchet -/

/-- A message with its key, its root and its sealed body. -/
structure Link (F : Type) where
  header : Header
  body : Value F
  dhPublic : Bytes32
  root : Bytes32
  sealedBody : SealedBody

def Link.sent (serde : SerdeJson F) (l : Link F) : Sent F where
  text := serde.toString (.object (envelopeFields l.header l.sealedBody.encoded
    (some l.dhPublic.hex)))
  header := l.header
  body := l.body

/-- The state of the receiver after a message. -/
def advance (w : ConnectSessionState) (l : Link F) : ConnectSessionState :=
  { w with
    encryptionRoot := l.root.hex
    peerDhPublic := l.dhPublic.hex
    lastSeenSeq := l.header.seq }

def stateAfter (w : ConnectSessionState) : List (Link F) → ℕ → ConnectSessionState
  | _, 0 => w
  | [], _ + 1 => w
  | l :: ls, i + 1 => stateAfter (advance w l) ls i

def rootAfter (root : Bytes32) : List (Link F) → ℕ → Bytes32
  | _, 0 => root
  | [], _ + 1 => root
  | l :: ls, i + 1 => rootAfter l.root ls i

/-- The root that a receiver with this secret derives for a key of its peer. -/
def nextRoot (c : Crypto) (sessionId : String) (secret root peer : Bytes32) : Bytes32 :=
  c.hkdf (Bytes.utf8 sessionId) (root.bytes ++ (c.diffieHellman secret peer).bytes) rekeyInfo

/-- The message continues a ratchet at this root and number. -/
structure LinkedTo (p : Primitives F) (sessionId dir : String) (secret root : Bytes32)
    (lastSeen : UInt64) (l : Link F) : Prop where
  session : l.header.sessionId = sessionId
  dir : l.header.dir = dir
  seq : lastSeen < l.header.seq
  shared : (p.crypto.diffieHellman secret l.dhPublic).bytes.all (· = 0) = false
  root : l.root = nextRoot p.crypto sessionId secret root l.dhPublic
  body : Sealed p l.header l.body l.root.bytes l.sealedBody

def Linked (p : Primitives F) (sessionId dir : String) (secret : Bytes32) :
    Bytes32 → UInt64 → List (Link F) → Prop
  | _, _, [] => True
  | root, lastSeen, l :: ls =>
      LinkedTo p sessionId dir secret root lastSeen l ∧
        Linked p sessionId dir secret l.root l.header.seq ls

variable {p : Primitives F} {sessionId dir : String} {secret root : Bytes32}

@[simp] theorem stateAfter_zero (w : ConnectSessionState) (ls : List (Link F)) :
    stateAfter w ls 0 = w := by
  cases ls <;> rfl

@[simp] theorem rootAfter_zero (root : Bytes32) (ls : List (Link F)) :
    rootAfter root ls 0 = root := by
  cases ls <;> rfl

theorem stateAfter_succ {w : ConnectSessionState} {ls : List (Link F)} {i : ℕ} {l : Link F}
    (hl : ls[i]? = some l) : stateAfter w ls (i + 1) = advance (stateAfter w ls i) l := by
  induction i generalizing w ls with
  | zero =>
      cases ls with
      | nil => cases hl
      | cons l' ls =>
          obtain rfl := Option.some.inj hl
          simp [stateAfter]
  | succ i ih =>
      cases ls with
      | nil => cases hl
      | cons l' ls => exact ih hl

theorem rootAfter_succ {ls : List (Link F)} {i : ℕ} {l : Link F} (hl : ls[i]? = some l) :
    rootAfter root ls (i + 1) = l.root := by
  induction i generalizing root ls with
  | zero =>
      cases ls with
      | nil => cases hl
      | cons l' ls =>
          obtain rfl := Option.some.inj hl
          simp [rootAfter]
  | succ i ih =>
      cases ls with
      | nil => cases hl
      | cons l' ls => exact ih hl

theorem Linked.linkedTo {w : ConnectSessionState} {ls : List (Link F)}
    (h : Linked p sessionId dir secret root w.lastSeenSeq ls) {i : ℕ} {l : Link F}
    (hl : ls[i]? = some l) :
    LinkedTo p sessionId dir secret (rootAfter root ls i) (stateAfter w ls i).lastSeenSeq l := by
  induction i generalizing w root ls with
  | zero =>
      cases ls with
      | nil => cases hl
      | cons l' ls =>
          obtain rfl := Option.some.inj hl
          rw [rootAfter_zero, stateAfter_zero]
          exact h.1
  | succ i ih =>
      cases ls with
      | nil => cases hl
      | cons l' ls =>
          have hrest : Linked p sessionId dir secret l'.root (advance w l').lastSeenSeq ls := h.2
          exact ih hrest hl

theorem encryptionRoot_stateAfter {w : ConnectSessionState} (hroot : w.encryptionRoot = root.hex)
    (ls : List (Link F)) (i : ℕ) :
    (stateAfter w ls i).encryptionRoot = (rootAfter root ls i).hex := by
  induction ls generalizing w root i with
  | nil => cases i <;> exact hroot
  | cons l ls ih =>
      cases i with
      | zero => exact hroot
      | succ i =>
          apply ih
          rfl

/-- A message changes neither the receiver's key nor the rest of its session. -/
theorem unchanged_stateAfter (w : ConnectSessionState) (ls : List (Link F)) (i : ℕ) :
    (stateAfter w ls i).myDhSecret = w.myDhSecret ∧
      (stateAfter w ls i).expiresAt = w.expiresAt ∧
      (stateAfter w ls i).lastSentSeq = w.lastSentSeq := by
  induction ls generalizing w i with
  | nil => cases i <;> exact ⟨rfl, rfl, rfl⟩
  | cons l ls ih =>
      cases i with
      | zero => exact ⟨rfl, rfl, rfl⟩
      | succ i => exact ih (advance w l) i

/-! ## A chain as links -/

/-- The receiver that mirrors the sender has the message as its next link. -/
theorem exists_link (hc : p.crypto.Agrees) {a w : ConnectSessionState} (h : Mirror p.crypto a w)
    (hsecret : w.myDhSecret = secret.hex) (hroot : w.encryptionRoot = root.hex)
    {seq now ts : UInt64} {random : Except String Bytes32} {r : RekeyResult}
    (hr : rekeyOutbound p.crypto a sessionId seq now random = .ok r) {entropy : Entropy}
    {msgType text : String} {body : Value F}
    (hseal : sealConnectMessage p entropy ⟨sessionId, dir, r.outboundSeq, msgType, ts⟩ body
      r.messageEncryptionRoot r.newDhPublic = .ok text) :
    ∃ l, LinkedTo p sessionId dir secret root w.lastSeenSeq l ∧
      l.sent p.serde = ⟨text, ⟨sessionId, dir, r.outboundSeq, msgType, ts⟩, body⟩ ∧
      Mirror p.crypto r.updatedState (advance w l) := by
  obtain ⟨e, shared, root', -, hzero, hseq, hshared, hroot', rfl⟩ := rekeyOutbound_eq_ok hr
  obtain ⟨oldRoot, haRoot, hwRoot⟩ := h.root
  obtain ⟨wSecret, hwSecret, haPeer⟩ := h.key'
  obtain rfl : oldRoot = root := Bytes32.hex_injective (hwRoot.symm.trans hroot)
  obtain rfl : wSecret = secret := Bytes32.hex_injective (hwSecret.symm.trans hsecret)
  rw [haPeer] at hshared
  obtain ⟨hnonzero, rfl⟩ := computeSharedSecret_eq_ok_iff.mp hshared
  rw [haRoot, deriveRekeyRoot_hex, hc e wSecret] at hroot'
  obtain rfl := Except.ok.inj hroot'
  obtain ⟨bytes, x, salt, hbytes, -, -, hx, htext⟩ := sealConnectMessage_eq_ok hseal
  rw [decodeEncryptionSecret_hex] at hbytes
  obtain rfl := Except.ok.inj hbytes
  refine ⟨⟨⟨sessionId, dir, seq, msgType, ts⟩, body, p.crypto.publicKey e,
    nextRoot p.crypto sessionId wSecret oldRoot (p.crypto.publicKey e), x⟩,
    ⟨rfl, rfl, ?_, ?_, rfl, hx⟩, ?_, ?_⟩
  · rw [h.seq]
    exact hseq
  · rw [← hc e wSecret]
    exact hnonzero
  · rw [htext]
    rfl
  · exact ⟨⟨_, rfl, rfl⟩, ⟨e, rfl, rfl⟩, ⟨wSecret, hwSecret, haPeer⟩, rfl, h.seq'⟩

/-- A sender at some message of a chain. -/
def SentUpTo (p : Primitives F) (sessionId dir : String) (a : ConnectSessionState)
    (ms : List (Sent F)) (k : ℕ) (b d : ConnectSessionState) : Prop :=
  Chain p sessionId dir a (ms.take k) d ∧ Chain p sessionId dir d (ms.drop k) b

/-- A chain from the state that the receiver mirrors is a list of links; after
each of them the receiver mirrors the sender again. -/
theorem exists_links (hc : p.crypto.Agrees) {a b w : ConnectSessionState} {ms : List (Sent F)}
    (hchain : Chain p sessionId dir a ms b) (h : Mirror p.crypto a w)
    (hsecret : w.myDhSecret = secret.hex) (hroot : w.encryptionRoot = root.hex) :
    ∃ ls : List (Link F), ms = ls.map (Link.sent p.serde) ∧
      Linked p sessionId dir secret root w.lastSeenSeq ls ∧
      ∀ k ≤ ls.length, ∃ d, SentUpTo p sessionId dir a ms k b d ∧
        Mirror p.crypto d (stateAfter w ls k) := by
  induction hchain generalizing w root with
  | nil a =>
      refine ⟨[], rfl, trivial, ?_⟩
      intro k hk
      obtain rfl : k = 0 := Nat.le_zero.mp hk
      exact ⟨a, ⟨.nil a, .nil a⟩, h⟩
  | cons hr hseal hrest ih =>
      obtain ⟨l, hl, hsent, hmirror⟩ := exists_link hc h hsecret hroot hr hseal
      obtain ⟨ls, hms, hlinked, hprefix⟩ := ih hmirror hsecret rfl
      refine ⟨l :: ls, ?_, ⟨hl, hlinked⟩, ?_⟩
      · rw [List.map_cons, hsent, ← hms]
      · intro k hk
        cases k with
        | zero => exact ⟨_, ⟨.nil _, .cons hr hseal hrest⟩, h⟩
        | succ k =>
            obtain ⟨d, ⟨hbefore, hafter⟩, hmirror'⟩ := hprefix k (Nat.le_of_succ_le_succ hk)
            exact ⟨d, ⟨.cons hr hseal hbefore, hafter⟩, hmirror'⟩

/-! ## Ideal derivation of keys -/

/-- Salt, key material and purpose. -/
abbrev KdfInput := Bytes × Bytes × Bytes

def kdf (c : Crypto) (i : KdfInput) : Bytes32 := c.hkdf i.1 i.2.1 i.2.2

def rekeyInput (c : Crypto) (sessionId : String) (secret root peer : Bytes32) : KdfInput :=
  (Bytes.utf8 sessionId, root.bytes ++ (c.diffieHellman secret peer).bytes, rekeyInfo)

def keyInput (salt : Bytes) (root : Bytes32) : KdfInput := (salt, root.bytes, keyInfo)

def rootInput (sessionId : String) (root shared : Bytes32) : KdfInput :=
  (Bytes.utf8 sessionId, root.bytes ++ shared.bytes, rekeyInfo)

theorem kdf_rootInput (c : Crypto) (sessionId : String) (root shared : Bytes32) :
    kdf c (rootInput sessionId root shared) =
      c.hkdf (Bytes.utf8 sessionId) (root.bytes ++ shared.bytes) rekeyInfo := by
  rw [kdf, rootInput]

/-- What a receiver derives of a root with a key of its peer: the next root, and
the keys of messages with these salts. -/
def inputsAt (c : Crypto) (sessionId : String) (secret : Bytes32) (salts : List Bytes)
    (root peer : Bytes32) : List KdfInput :=
  rekeyInput c sessionId secret root peer ::
    salts.map fun salt ↦ keyInput salt (nextRoot c sessionId secret root peer)

/-- What a receiver can derive of these roots. -/
def receiverInputs (c : Crypto) (sessionId : String) (secret : Bytes32) (roots peers : List Bytes32)
    (salts : List Bytes) : List KdfInput :=
  roots.flatMap fun r ↦ peers.flatMap (inputsAt c sessionId secret salts r)

/-- No two derivations give the same bytes, and none gives the root that stands
at the start. -/
structure IdealKdf (c : Crypto) (start : Bytes32) (inputs : List KdfInput) : Prop where
  injective : ∀ i ∈ inputs, ∀ j ∈ inputs, kdf c i = kdf c j → i = j
  fresh : ∀ i ∈ inputs, kdf c i ≠ start

/-- Derivations that are all in a table of different results do not collide. -/
theorem eq_of_kdf_eq {c : Crypto} {table : List (KdfInput × Bytes32)}
    (htable : ∀ d ∈ table, kdf c d.1 = d.2) (hnodup : (table.map Prod.snd).Nodup) {i j : KdfInput}
    (hi : i ∈ table.map Prod.fst) (hj : j ∈ table.map Prod.fst) (hsame : kdf c i = kdf c j) :
    i = j := by
  obtain ⟨d, hd, rfl⟩ := List.mem_map.mp hi
  obtain ⟨d', hd', rfl⟩ := List.mem_map.mp hj
  rw [htable d hd, htable d' hd'] at hsame
  rw [List.inj_on_of_nodup_map hnodup hd hd' hsame]

theorem IdealKdf.of_table {c : Crypto} {table : List (KdfInput × Bytes32)} {start : Bytes32}
    {inputs : List KdfInput} (htable : ∀ d ∈ table, kdf c d.1 = d.2)
    (hnodup : (start :: table.map Prod.snd).Nodup) (hinputs : inputs ⊆ table.map Prod.fst) :
    IdealKdf c start inputs where
  injective i hi j hj :=
    eq_of_kdf_eq htable (List.nodup_cons.mp hnodup).2 (hinputs hi) (hinputs hj)
  fresh i hi hstart := by
    obtain ⟨d, hd, rfl⟩ := List.mem_map.mp (hinputs hi)
    rw [htable d hd] at hstart
    exact (List.nodup_cons.mp hnodup).1 (hstart ▸ List.mem_map_of_mem hd)

theorem receiverInputs_subset (c : Crypto) (sessionId : String) (secret : Bytes32)
    (roots : List Bytes32) {peers peers' : List Bytes32} {salts salts' : List Bytes}
    (hpeers : peers ⊆ peers') (hsalts : salts ⊆ salts') :
    receiverInputs c sessionId secret roots peers salts ⊆
      receiverInputs c sessionId secret roots peers' salts' := by
  intro input hinput
  obtain ⟨r, hr, hinput⟩ := List.mem_flatMap.mp hinput
  obtain ⟨k, hk, hinput⟩ := List.mem_flatMap.mp hinput
  refine List.mem_flatMap.mpr ⟨r, hr, List.mem_flatMap.mpr ⟨k, hpeers hk, ?_⟩⟩
  obtain rfl | hinput := List.mem_cons.mp hinput
  · exact List.mem_cons_self
  · obtain ⟨salt, hsalt, rfl⟩ := List.mem_map.mp hinput
    exact List.mem_cons_of_mem _ (List.mem_map_of_mem (hsalts hsalt))

theorem IdealKdf.mono {c : Crypto} {start : Bytes32} {inputs inputs' : List KdfInput}
    (h : IdealKdf c start inputs') (hinputs : inputs ⊆ inputs') : IdealKdf c start inputs where
  injective i hi j hj := h.injective i (hinputs hi) j (hinputs hj)
  fresh i hi := h.fresh i (hinputs hi)

/-- A key has one encoding: other keys give other secrets. -/
def OneEncoding (c : Crypto) (secret : Bytes32) (peers : List Bytes32) : Prop :=
  ∀ k ∈ peers, ∀ k' ∈ peers, c.diffieHellman secret k = c.diffieHellman secret k' → k = k'

variable {ls : List (Link F)} {peers : List Bytes32} {salts : List Bytes}

theorem rootAfter_mem (root : Bytes32) (ls : List (Link F)) (i : ℕ) :
    rootAfter root ls i ∈ root :: ls.map Link.root := by
  induction ls generalizing root i with
  | nil => cases i <;> exact List.mem_cons_self
  | cons l ls ih =>
      cases i with
      | zero => exact List.mem_cons_self
      | succ i => exact List.mem_cons_of_mem _ (ih l.root i)

theorem mem_receiverInputs {i : ℕ} {k : Bytes32} (hk : k ∈ peers) {input : KdfInput}
    (hinput : input ∈ inputsAt p.crypto sessionId secret salts (rootAfter root ls i) k) :
    input ∈ receiverInputs p.crypto sessionId secret (root :: ls.map Link.root) peers salts :=
  List.mem_flatMap.mpr ⟨_, rootAfter_mem root ls i, List.mem_flatMap.mpr ⟨k, hk, hinput⟩⟩

theorem rekeyInput_injective {c : Crypto} {secret secret' a b k k' : Bytes32}
    (h : rekeyInput c sessionId secret a k = rekeyInput c sessionId secret' b k') :
    a = b ∧ c.diffieHellman secret k = c.diffieHellman secret' k' := by
  have hmaterial := congrArg (fun i ↦ i.2.1) h
  obtain ⟨hroot, hshared⟩ := List.append_inj hmaterial (a.length_eq.trans b.length_eq.symm)
  exact ⟨Bytes32.bytes_injective hroot, Bytes32.bytes_injective hshared⟩

namespace IdealKdf

variable (h : IdealKdf p.crypto root
  (receiverInputs p.crypto sessionId secret (root :: ls.map Link.root) peers salts))

include h

/-- Equal roots are derived of equal roots. -/
theorem nextRoot_injective {i j : ℕ} {k k' : Bytes32} (hk : k ∈ peers) (hk' : k' ∈ peers)
    (hsame : nextRoot p.crypto sessionId secret (rootAfter root ls i) k =
      nextRoot p.crypto sessionId secret (rootAfter root ls j) k') :
    rootAfter root ls i = rootAfter root ls j ∧
      p.crypto.diffieHellman secret k = p.crypto.diffieHellman secret k' :=
  rekeyInput_injective (h.injective _ (mem_receiverInputs hk List.mem_cons_self) _
    (mem_receiverInputs hk' List.mem_cons_self) hsame)

/-- Equal message keys are derived of equal roots. -/
theorem key_injective {i j : ℕ} {k k' : Bytes32} (hk : k ∈ peers) (hk' : k' ∈ peers)
    {salt salt' : Bytes} (hsalt : salt ∈ salts) (hsalt' : salt' ∈ salts)
    (hsame : p.crypto.hkdf salt
        (nextRoot p.crypto sessionId secret (rootAfter root ls i) k).bytes keyInfo =
      p.crypto.hkdf salt'
        (nextRoot p.crypto sessionId secret (rootAfter root ls j) k').bytes keyInfo) :
    nextRoot p.crypto sessionId secret (rootAfter root ls i) k =
      nextRoot p.crypto sessionId secret (rootAfter root ls j) k' := by
  have hinput := h.injective _
    (mem_receiverInputs hk (List.mem_cons_of_mem _ (List.mem_map_of_mem hsalt))) _
    (mem_receiverInputs hk' (List.mem_cons_of_mem _ (List.mem_map_of_mem hsalt'))) hsame
  exact Bytes32.bytes_injective (congrArg (fun i ↦ i.2.1) hinput)

/-- The root never comes back. -/
theorem rootAfter_injective {w : ConnectSessionState}
    (hlinked : Linked p sessionId dir secret root w.lastSeenSeq ls)
    (hpeers : ∀ l ∈ ls, l.dhPublic ∈ peers) {i j : ℕ} (hi : i ≤ ls.length) (hj : j ≤ ls.length)
    (hsame : rootAfter root ls i = rootAfter root ls j) : i = j := by
  -- Every root but the first is derived.
  have hderived {n : ℕ} (hn : n + 1 ≤ ls.length) : ∃ k ∈ peers,
      rootAfter root ls (n + 1) = nextRoot p.crypto sessionId secret (rootAfter root ls n) k := by
    obtain ⟨l, hl⟩ : ∃ l, ls[n]? = some l := ⟨ls[n], List.getElem?_eq_getElem hn⟩
    refine ⟨l.dhPublic, hpeers l (List.mem_of_getElem? hl), ?_⟩
    rw [rootAfter_succ hl]
    exact (hlinked.linkedTo hl).root
  induction i generalizing j with
  | zero =>
      cases j with
      | zero => rfl
      | succ j =>
          obtain ⟨k, hk, hroot⟩ := hderived hj
          rw [hroot, rootAfter_zero] at hsame
          exact absurd hsame.symm (h.fresh _ (mem_receiverInputs hk List.mem_cons_self))
  | succ i ih =>
      obtain ⟨k, hk, hroot⟩ := hderived hi
      cases j with
      | zero =>
          rw [hroot, rootAfter_zero] at hsame
          exact absurd hsame (h.fresh _ (mem_receiverInputs hk List.mem_cons_self))
      | succ j =>
          obtain ⟨k', hk', hroot'⟩ := hderived hj
          rw [hroot, hroot'] at hsame
          rw [ih (Nat.le_of_succ_le hi) (Nat.le_of_succ_le hj)
              (h.nextRoot_injective hk hk' hsame).1]

/-- The key that a receiver derives at a point of the chain is that of a message
of the chain only at the point before the message, with the key it carries. -/
theorem eq_of_key {w : ConnectSessionState}
    (hlinked : Linked p sessionId dir secret root w.lastSeenSeq ls)
    (hpeers : ∀ l ∈ ls, l.dhPublic ∈ peers) (hsalts : ∀ l ∈ ls, l.sealedBody.salt ∈ salts)
    (hencoding : OneEncoding p.crypto secret peers) {i j : ℕ} (hi : i ≤ ls.length) {l : Link F}
    (hl : ls[j]? = some l) {k : Bytes32} (hk : k ∈ peers) {salt : Bytes} (hsalt : salt ∈ salts)
    (hsame : p.crypto.hkdf salt
        (nextRoot p.crypto sessionId secret (rootAfter root ls i) k).bytes keyInfo =
      p.crypto.hkdf l.sealedBody.salt l.root.bytes keyInfo) : i = j ∧ k = l.dhPublic := by
  have hmem := List.mem_of_getElem? hl
  have hj : j ≤ ls.length := ((List.getElem?_eq_some_iff.mp hl).1).le
  rw [(hlinked.linkedTo hl).root] at hsame
  have hroot := h.key_injective hk (hpeers l hmem) hsalt (hsalts l hmem) hsame
  obtain ⟨hafter, hshared⟩ := h.nextRoot_injective hk (hpeers l hmem) hroot
  exact ⟨h.rootAfter_injective hlinked hpeers hi hj hafter,
    hencoding k hk l.dhPublic (hpeers l hmem) hshared⟩

end IdealKdf

end MessageChain

end BeeEngine
