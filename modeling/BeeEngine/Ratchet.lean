import BeeEngine.Handshake
import BeeEngine.Lib.Outcome
import BeeEngine.Lib.Sha256
import BeeEngine.Lib.Transition
import BeeEngine.Lib.X25519

/-!
# Agreement of the two ends of a session

A receiver that catches up with the messages on their way mirrors the sender.
This is what every message that is sent or received preserves, whichever end
sends and however often.
-/

namespace BeeEngine

open Dh Transition

namespace Ratchet

/-! ## A session of two parties -/

inductive Party where
  | wallet
  | dapp
  deriving DecidableEq, Repr

def Party.peer : Party → Party
  | wallet => dapp
  | dapp => wallet

/-- A message as its receiver needs it, with the root that its sender used. -/
structure Message where
  dhPublic : String
  seq : UInt64
  root : String
  deriving DecidableEq, Repr

def Message.ofResult (r : RekeyResult) : Message :=
  ⟨r.newDhPublic.getD "", r.outboundSeq, r.messageEncryptionRoot⟩

/-- The states of the parties and the messages that each has yet to receive. -/
structure Session where
  state : Party → ConnectSessionState
  inbox : Party → List Message

inductive Label where
  | send (p : Party) (random : Except String Bytes32) (seq now : UInt64)
  | receive (p : Party) (now : UInt64)

/-- A party sends when it has received all that its peer sent; nothing is done
in an expired session.  A call that fails leaves the state as it was. -/
def step? (c : Crypto) (sessionId : String) (s : Session) : Label → Option Session
  | .send p random seq now =>
      if (s.inbox p).isEmpty ∧ (s.state p).isExpired now = false then
        match rekeyOutbound c (s.state p) sessionId seq now random with
        | .error _ => some s
        | .ok r =>
            some {
              state := Function.update s.state p r.updatedState
              inbox := Function.update s.inbox p.peer (s.inbox p.peer ++ [.ofResult r]) }
      else none
  | .receive p now =>
      match s.inbox p with
      | [] => none
      | m :: rest =>
          if (s.state p).isExpired now then none
          else
            match rekeyInbound c (s.state p) m.dhPublic sessionId m.seq now with
            | .error _ => some { s with inbox := Function.update s.inbox p rest }
            | .ok r =>
                some {
                  state := Function.update s.state p r.updatedState
                  inbox := Function.update s.inbox p rest }

def Step (c : Crypto) (sessionId : String) (s : Session) (l : Label) (s' : Session) : Prop :=
  step? c sessionId s l = some s'

/-! ## What is claimed -/

def IsPublicKeyOf (c : Crypto) (publicHex secretHex : String) : Prop :=
  ∃ secret : Bytes32, secretHex = secret.hex ∧ publicHex = (c.publicKey secret).hex

/-- The part of a state that no message changes. -/
def SameSession (a b : ConnectSessionState) : Prop :=
  b.signingPublic = a.signingPublic ∧ b.signingSecret = a.signingSecret ∧
    b.createdAt = a.createdAt ∧ b.expiresAt = a.expiresAt

/-- Each party sees the peer's key and last message, and the roots are equal. -/
def Mirrored (c : Crypto) (s : Session) : Prop :=
  ∀ p, (s.state p).encryptionRoot = (s.state p.peer).encryptionRoot ∧
    IsPublicKeyOf c (s.state p).peerDhPublic (s.state p.peer).myDhSecret ∧
    (s.state p).lastSeenSeq = (s.state p.peer).lastSentSeq

/-- The next message of either party is accepted with the root it was sent
with; the parties mirror each other once all messages are received; and the
rest of the states is that of the start. -/
structure Agreed (c : Crypto) (sessionId : String) (start s : Session) : Prop where
  accepts : ∀ p m rest, s.inbox p = m :: rest → ∀ now, (s.state p).isExpired now = false →
    ∃ r, rekeyInbound c (s.state p) m.dhPublic sessionId m.seq now = .ok r ∧
      r.messageEncryptionRoot = m.root
  mirrored : (∀ p, s.inbox p = []) → Mirrored c s
  unchanged : ∀ p, SameSession (start.state p) (s.state p)

/-! ## One message -/

variable {c : Crypto} {sessionId : String}

/-- Two states that mirror each other. -/
structure Mirror (c : Crypto) (a b : ConnectSessionState) : Prop where
  root : ∃ root : Bytes32, a.encryptionRoot = root.hex ∧ b.encryptionRoot = root.hex
  key : IsPublicKeyOf c b.peerDhPublic a.myDhSecret
  key' : IsPublicKeyOf c a.peerDhPublic b.myDhSecret
  seq : b.lastSeenSeq = a.lastSentSeq
  seq' : a.lastSeenSeq = b.lastSentSeq

theorem Mirror.symm {a b : ConnectSessionState} (h : Mirror c a b) : Mirror c b a where
  root := by
    obtain ⟨root, ha, hb⟩ := h.root
    exact ⟨root, hb, ha⟩
  key := h.key'
  key' := h.key
  seq := h.seq'
  seq' := h.seq

theorem computeSharedSecret_hex (secret theirs : Bytes32) :
    computeSharedSecret c secret.hex theirs.hex =
      if (c.diffieHellman secret theirs).bytes.all (· = 0) then
        .error "DH shared secret is zero (invalid peer public key)"
      else .ok (c.diffieHellman secret theirs).hex := by
  simp only [computeSharedSecret, Bytes32.decode_hex, Outcome.ok_bind]
  rfl

theorem computeSharedSecret_eq_ok_iff {secret theirs : Bytes32} {shared : String} :
    computeSharedSecret c secret.hex theirs.hex = .ok shared ↔
      (c.diffieHellman secret theirs).bytes.all (· = 0) = false ∧
        (c.diffieHellman secret theirs).hex = shared := by
  rw [computeSharedSecret_hex]
  split
  · rename_i hzero
    simp [hzero]
  · rename_i hzero
    simp [hzero]

theorem deriveRekeyRoot_hex (root shared : Bytes32) :
    deriveRekeyRoot c root.hex shared.hex sessionId =
      .ok (c.hkdf (Bytes.utf8 sessionId) (root.bytes ++ shared.bytes) rekeyInfo).hex := by
  simp only [deriveRekeyRoot, decodeShared, Bytes32.decode_hex, Outcome.ok_bind]
  rfl

/-- What a successful outbound message needs and does. -/
theorem rekeyOutbound_eq_ok {state : ConnectSessionState} {seq now : UInt64}
    {random : Except String Bytes32} {r : RekeyResult}
    (h : rekeyOutbound c state sessionId seq now random = .ok r) :
    ∃ secret shared root, random = .ok secret ∧ seq ≠ 0 ∧ state.lastSentSeq < seq ∧
      computeSharedSecret c secret.hex state.peerDhPublic = .ok shared ∧
      deriveRekeyRoot c state.encryptionRoot shared sessionId = .ok root ∧
      r = ⟨root, some (c.publicKey secret).hex, { state with
        encryptionRoot := root, myDhSecret := secret.hex, lastSentSeq := seq }, seq⟩ := by
  rw [rekeyOutbound] at h
  obtain ⟨-, -, h⟩ := Outcome.bind_eq_ok_iff.mp h
  obtain ⟨⟨⟩, hseq, h⟩ := Outcome.bind_eq_ok_iff.mp h
  obtain ⟨newDh, hnewDh, h⟩ := Outcome.bind_eq_ok_iff.mp h
  obtain ⟨shared, hshared, h⟩ := Outcome.bind_eq_ok_iff.mp h
  obtain ⟨root, hroot, h⟩ := Outcome.bind_eq_ok_iff.mp h
  cases random with
  | error e => cases hnewDh
  | ok secret =>
      obtain rfl := Except.ok.inj hnewDh
      rw [checkOutboundSeq] at hseq
      split at hseq
      · cases hseq
      · rename_i hzero
        split at hseq
        · cases hseq
        · rename_i hle
          exact ⟨secret, shared, root, rfl, hzero, UInt64.not_le.mp hle, hshared, hroot,
            (Except.ok.inj h).symm⟩

/-- What an inbound message needs and does. -/
theorem rekeyInbound_of {state : ConnectSessionState} {peerPublic shared root : String}
    {seq now : UInt64} (hexpired : state.isExpired now = false) (hzero : seq ≠ 0)
    (hseq : state.lastSeenSeq < seq)
    (hshared : computeSharedSecret c state.myDhSecret peerPublic = .ok shared)
    (hroot : deriveRekeyRoot c state.encryptionRoot shared sessionId = .ok root) :
    rekeyInbound c state peerPublic sessionId seq now =
      .ok ⟨root, none, { state with
        encryptionRoot := root, peerDhPublic := peerPublic, lastSeenSeq := seq }, 0⟩ := by
  have hcheck : checkIncomingSeq state seq = .ok () := by
    rw [checkIncomingSeq, if_neg hzero, if_neg (UInt64.not_le.mpr hseq)]
  have hfresh : state.ensureNotExpired now = .ok () := by
    rw [ConnectSessionState.ensureNotExpired, hexpired]
    rfl
  rw [rekeyInbound, hfresh, hcheck, hshared]
  simp only [Outcome.ok_bind]
  rw [hroot]
  rfl

/-- An outbound message of a state with these keys. -/
theorem rekeyOutbound_hex {state : ConnectSessionState} {seq now : UInt64}
    {root peer : Bytes32} (hroot : state.encryptionRoot = root.hex)
    (hpeer : state.peerDhPublic = peer.hex) (hfresh : state.isExpired now = false)
    (hseq : state.lastSentSeq < seq) {secret : Bytes32}
    (hnonzero : (c.diffieHellman secret peer).bytes.all (· = 0) = false) {next : Bytes32}
    (hnext : c.hkdf (Bytes.utf8 sessionId) (root.bytes ++ (c.diffieHellman secret peer).bytes)
      rekeyInfo = next) :
    rekeyOutbound c state sessionId seq now (.ok secret) =
      .ok ⟨next.hex, some (c.publicKey secret).hex, { state with
        encryptionRoot := next.hex, myDhSecret := secret.hex, lastSentSeq := seq }, seq⟩ := by
  have hzero : seq ≠ 0 := by
    rintro rfl
    exact absurd hseq (UInt64.not_lt.mpr UInt64.zero_le)
  have hcheck : checkOutboundSeq state seq = .ok () := by
    rw [checkOutboundSeq, if_neg hzero, if_neg (UInt64.not_le.mpr hseq)]
  have hvalid : state.ensureNotExpired now = .ok () := by
    rw [ConnectSessionState.ensureNotExpired, hfresh]
    rfl
  have hshared : computeSharedSecret c secret.hex state.peerDhPublic =
      .ok (c.diffieHellman secret peer).hex := by
    rw [hpeer]
    exact computeSharedSecret_eq_ok_iff.mpr ⟨hnonzero, rfl⟩
  rw [rekeyOutbound, hvalid, hcheck, generateDhKeypair]
  simp only [Outcome.ok_bind]
  rw [hshared, Outcome.ok_bind, hroot, deriveRekeyRoot_hex, hnext]
  rfl

/-- What a successful inbound message needs and does. -/
theorem rekeyInbound_eq_ok {state : ConnectSessionState} {peerPublic : String} {seq now : UInt64}
    {r : RekeyResult} (h : rekeyInbound c state peerPublic sessionId seq now = .ok r) :
    ∃ shared root, state.lastSeenSeq < seq ∧
      computeSharedSecret c state.myDhSecret peerPublic = .ok shared ∧
      deriveRekeyRoot c state.encryptionRoot shared sessionId = .ok root ∧
      r = ⟨root, none, { state with
        encryptionRoot := root, peerDhPublic := peerPublic, lastSeenSeq := seq }, 0⟩ := by
  rw [rekeyInbound] at h
  obtain ⟨-, -, h⟩ := Outcome.bind_eq_ok_iff.mp h
  obtain ⟨⟨⟩, hseq, h⟩ := Outcome.bind_eq_ok_iff.mp h
  obtain ⟨shared, hshared, h⟩ := Outcome.bind_eq_ok_iff.mp h
  obtain ⟨root, hroot, h⟩ := Outcome.bind_eq_ok_iff.mp h
  rw [checkIncomingSeq] at hseq
  split at hseq
  · cases hseq
  · split at hseq
    · cases hseq
    · rename_i hle
      exact ⟨shared, root, UInt64.not_le.mp hle, hshared, hroot, (Except.ok.inj h).symm⟩

/-- The receiver of a message mirrors the sender again. -/
theorem Mirror.message {a b : ConnectSessionState} (hc : c.Agrees) (h : Mirror c a b)
    {seq now : UInt64} {random : Except String Bytes32} {r : RekeyResult}
    (hr : rekeyOutbound c a sessionId seq now random = .ok r) :
    ∃ b', (∀ now, b.isExpired now = false →
        rekeyInbound c b (Message.ofResult r).dhPublic sessionId (Message.ofResult r).seq now =
          .ok ⟨(Message.ofResult r).root, none, b', 0⟩) ∧
      Mirror c r.updatedState b' := by
  obtain ⟨secret, shared, root, -, hzero, hseq, hshared, hroot, rfl⟩ := rekeyOutbound_eq_ok hr
  obtain ⟨oldRoot, haRoot, hbRoot⟩ := h.root
  obtain ⟨bSecret, hbSecret, haPeer⟩ := h.key'
  rw [haPeer] at hshared
  obtain ⟨hnonzero, rfl⟩ := computeSharedSecret_eq_ok_iff.mp hshared
  rw [haRoot, deriveRekeyRoot_hex] at hroot
  obtain rfl := Except.ok.inj hroot
  -- The receiver computes the same secret from its own key and the new key.
  have hshared' : computeSharedSecret c b.myDhSecret (c.publicKey secret).hex =
      .ok (c.diffieHellman secret (c.publicKey bSecret)).hex := by
    rw [hbSecret]
    apply computeSharedSecret_eq_ok_iff.mpr
    rw [hc bSecret secret]
    exact ⟨hnonzero, rfl⟩
  refine ⟨{ b with
    encryptionRoot := (c.hkdf (Bytes.utf8 sessionId)
      (oldRoot.bytes ++ (c.diffieHellman secret (c.publicKey bSecret)).bytes) rekeyInfo).hex
    peerDhPublic := (c.publicKey secret).hex
    lastSeenSeq := seq }, ?_, ?_⟩
  · intro now hexpired
    apply rekeyInbound_of hexpired hzero (h.seq ▸ hseq) hshared'
    rw [hbRoot, deriveRekeyRoot_hex]
    rfl
  · exact ⟨⟨_, rfl, rfl⟩, ⟨secret, rfl, rfl⟩, ⟨bSecret, hbSecret, haPeer⟩, rfl, h.seq'⟩

/-! ## Messages on their way -/

/-- The receiver mirrors the sender after the messages on their way. -/
def CatchesUp (c : Crypto) (sessionId : String) :
    ConnectSessionState → List Message → ConnectSessionState → Prop
  | b, [], a => Mirror c a b
  | b, m :: rest, a => ∃ b', (∀ now, b.isExpired now = false →
      rekeyInbound c b m.dhPublic sessionId m.seq now = .ok ⟨m.root, none, b', 0⟩) ∧
      CatchesUp c sessionId b' rest a

theorem CatchesUp.send (hc : c.Agrees) {a b : ConnectSessionState} {ms : List Message}
    (h : CatchesUp c sessionId b ms a) {seq now : UInt64} {random : Except String Bytes32}
    {r : RekeyResult} (hr : rekeyOutbound c a sessionId seq now random = .ok r) :
    CatchesUp c sessionId b (ms ++ [.ofResult r]) r.updatedState := by
  induction ms generalizing b with
  | nil =>
      obtain ⟨b', haccepts, hmirror⟩ := Mirror.message hc h hr
      exact ⟨b', haccepts, hmirror⟩
  | cons m rest ih =>
      obtain ⟨b', haccepts, hrest⟩ := h
      exact ⟨b', haccepts, ih hrest⟩

/-- One party has received all messages, and the other catches up with it. -/
def InStep (c : Crypto) (sessionId : String) (s : Session) : Prop :=
  ∃ p : Party, s.inbox p = [] ∧
    CatchesUp c sessionId (s.state p.peer) (s.inbox p.peer) (s.state p)

@[simp] theorem Party.peer_peer (p : Party) : p.peer.peer = p := by
  cases p
  · rfl
  · rfl

@[simp] theorem Party.peer_ne (p : Party) : p.peer ≠ p := by
  cases p
  · exact nofun
  · exact nofun

theorem Party.eq_or_eq_peer (p q : Party) : q = p ∨ q = p.peer := by
  cases p
  · cases q
    · exact .inl rfl
    · exact .inr rfl
  · cases q
    · exact .inr rfl
    · exact .inl rfl

/-- The party that sends may be chosen as the one that has received all. -/
theorem InStep.of_empty {s : Session} (h : InStep c sessionId s) {p : Party}
    (hempty : s.inbox p = []) :
    CatchesUp c sessionId (s.state p.peer) (s.inbox p.peer) (s.state p) := by
  obtain ⟨q, hq, hcatches⟩ := h
  rcases q.eq_or_eq_peer p with rfl | rfl
  · exact hcatches
  · rw [hempty] at hcatches
    rw [Party.peer_peer, hq]
    exact Mirror.symm hcatches

theorem InStep.step (hc : c.Agrees) {s s' : Session} (h : InStep c sessionId s) {l : Label}
    (hstep : Step c sessionId s l s') : InStep c sessionId s' := by
  cases l with
  | send p random seq now =>
      rw [Step, step?] at hstep
      split at hstep
      · rename_i hfree
        split at hstep
        · obtain rfl := Option.some.inj hstep
          exact h
        · rename_i r hr
          obtain rfl := Option.some.inj hstep
          have hempty := List.isEmpty_iff.mp hfree.1
          have hsent := (h.of_empty hempty).send hc hr
          refine ⟨p, ?_, ?_⟩
          · simp [hempty, (p.peer_ne).symm]
          · simpa using hsent
      · cases hstep
  | receive p now =>
      rw [Step, step?] at hstep
      split at hstep
      · cases hstep
      · rename_i m rest hinbox
        split at hstep
        · cases hstep
        · rename_i hexpired
          obtain ⟨q, hq, hcatches⟩ := h
          obtain rfl : p = q.peer := by
            rcases q.eq_or_eq_peer p with rfl | hp
            · rw [hq] at hinbox
              cases hinbox
            · exact hp
          rw [hinbox] at hcatches
          obtain ⟨b', haccepts, hrest⟩ := hcatches
          rw [haccepts now (Bool.eq_false_iff.mpr hexpired)] at hstep
          obtain rfl := Option.some.inj hstep
          refine ⟨q, ?_, ?_⟩
          · simp [hq, (q.peer_ne).symm]
          · simpa [(q.peer_ne).symm] using hrest

/-! ## What no message changes -/

theorem SameSession.refl (a : ConnectSessionState) : SameSession a a := ⟨rfl, rfl, rfl, rfl⟩

theorem SameSession.trans {a b d : ConnectSessionState} (h : SameSession a b)
    (h' : SameSession b d) : SameSession a d := by
  obtain ⟨h₁, h₂, h₃, h₄⟩ := h
  obtain ⟨h₁', h₂', h₃', h₄'⟩ := h'
  exact ⟨h₁'.trans h₁, h₂'.trans h₂, h₃'.trans h₃, h₄'.trans h₄⟩

theorem sameSession_rekeyOutbound {state : ConnectSessionState} {seq now : UInt64}
    {random : Except String Bytes32} {r : RekeyResult}
    (h : rekeyOutbound c state sessionId seq now random = .ok r) :
    SameSession state r.updatedState := by
  obtain ⟨secret, shared, root, -, -, -, -, -, rfl⟩ := rekeyOutbound_eq_ok h
  exact ⟨rfl, rfl, rfl, rfl⟩

theorem sameSession_rekeyInbound {state : ConnectSessionState} {peerPublic : String}
    {seq now : UInt64} {r : RekeyResult}
    (h : rekeyInbound c state peerPublic sessionId seq now = .ok r) :
    SameSession state r.updatedState := by
  rw [rekeyInbound] at h
  obtain ⟨-, -, h⟩ := Outcome.bind_eq_ok_iff.mp h
  obtain ⟨-, -, h⟩ := Outcome.bind_eq_ok_iff.mp h
  obtain ⟨shared, -, h⟩ := Outcome.bind_eq_ok_iff.mp h
  obtain ⟨root, -, h⟩ := Outcome.bind_eq_ok_iff.mp h
  rw [← Except.ok.inj h]
  exact ⟨rfl, rfl, rfl, rfl⟩

theorem sameSession_update {s : Session} {p : Party} {state : ConnectSessionState}
    (h : SameSession (s.state p) state) (q : Party) :
    SameSession (s.state q) (Function.update s.state p state q) := by
  by_cases hq : q = p
  · subst hq
    rw [Function.update_self]
    exact h
  · rw [Function.update_of_ne hq]
    exact .refl _

theorem sameSession_step {s s' : Session} {l : Label} (hstep : Step c sessionId s l s')
    (q : Party) : SameSession (s.state q) (s'.state q) := by
  cases l with
  | send p random seq now =>
      rw [Step, step?] at hstep
      split at hstep
      · split at hstep
        · obtain rfl := Option.some.inj hstep
          exact .refl _
        · rename_i r hr
          obtain rfl := Option.some.inj hstep
          exact sameSession_update (sameSession_rekeyOutbound hr) q
      · cases hstep
  | receive p now =>
      rw [Step, step?] at hstep
      split at hstep
      · cases hstep
      · split at hstep
        · cases hstep
        · split at hstep
          · obtain rfl := Option.some.inj hstep
            exact .refl _
          · rename_i r hr
            obtain rfl := Option.some.inj hstep
            exact sameSession_update (sameSession_rekeyInbound hr) q

/-! ## Runs -/

theorem InStep.agreed {start s : Session} (h : InStep c sessionId s)
    (hsame : ∀ p, SameSession (start.state p) (s.state p)) : Agreed c sessionId start s where
  accepts p m rest hinbox now hexpired := by
    obtain ⟨q, hq, hcatches⟩ := h
    obtain rfl : p = q.peer := by
      rcases q.eq_or_eq_peer p with rfl | hp
      · rw [hq] at hinbox
        cases hinbox
      · exact hp
    rw [hinbox] at hcatches
    obtain ⟨b', haccepts, -⟩ := hcatches
    exact ⟨_, haccepts now hexpired, rfl⟩
  mirrored hempty p := by
    have hmirror := h.of_empty (hempty p)
    rw [hempty p.peer] at hmirror
    obtain ⟨⟨root, ha, hb⟩, -, hkey', -, hseq'⟩ := hmirror
    exact ⟨ha.trans hb.symm, hkey', hseq'⟩
  unchanged := hsame

theorem agreed_of_run (hc : c.Agrees) {start s : Session} (hstart : InStep c sessionId start)
    {ls : List Label} (h : Run (Step c sessionId) start ls s) : Agreed c sessionId start s := by
  have hinv : InStep c sessionId s ∧ ∀ p, SameSession (start.state p) (s.state p) := by
    refine Run.invariant
      (fun s ↦ InStep c sessionId s ∧ ∀ p, SameSession (start.state p) (s.state p)) ?_
      ⟨hstart, fun p ↦ .refl _⟩ h
    rintro s l s' ⟨hs, hsame⟩ hstep
    exact ⟨hs.step hc hstep, fun p ↦ (hsame p).trans (sameSession_step hstep p)⟩
  exact hinv.1.agreed hinv.2

/-! ## From the handshake -/

open Handshake

theorem generateDhKeypair_eq_ok {random : Except String Bytes32} {keys : DhKeyPair}
    (h : generateDhKeypair c random = .ok keys) :
    ∃ secret : Bytes32, keys = ⟨(c.publicKey secret).hex, secret.hex⟩ := by
  cases random with
  | error e => cases h
  | ok secret => exact ⟨secret, (Except.ok.inj h).symm⟩

/-- The keys of both ends of a handshake. -/
theorem deriveSessionKeys_hex (shared : Bytes32) :
    deriveSessionKeys c shared.hex sessionId =
      .ok ⟨(c.verifyingKey (c.hkdf (Bytes.utf8 sessionId) shared.bytes signingKeyInfo)).hex,
        (c.hkdf (Bytes.utf8 sessionId) shared.bytes signingKeyInfo).hex,
        (c.hkdf (Bytes.utf8 sessionId) shared.bytes encryptionKeyInfo).hex⟩ := by
  simp only [deriveSessionKeys, decodeShared, Bytes32.decode_hex, Outcome.ok_bind]
  rfl

theorem acceptConnectCommon_eq_ok {Body : Type} {encrypt : Seal Body} {clientDhPublic : String}
    {i : AcceptInputs} {state : ConnectSessionState} {hello : ConnectMessageEnvelope Body}
    (h : acceptConnectCommon c encrypt sessionId clientDhPublic i = .ok (state, hello)) :
    ∃ secret shared keys, computeSharedSecret c secret.hex clientDhPublic = .ok shared ∧
      deriveSessionKeys c shared sessionId = .ok keys ∧
      hello.dhPublic = some (c.publicKey secret).hex ∧
      state = { createInitialState keys secret.hex clientDhPublic i.now with
        lastSentSeq := hello.seq } := by
  rw [acceptConnectCommon] at h
  obtain ⟨walletDh, hwalletDh, h⟩ := Outcome.bind_eq_ok_iff.mp h
  obtain ⟨shared, hshared, h⟩ := Outcome.bind_eq_ok_iff.mp h
  obtain ⟨keys, hkeys, h⟩ := Outcome.bind_eq_ok_iff.mp h
  obtain ⟨-, -, h⟩ := Outcome.bind_eq_ok_iff.mp h
  obtain ⟨helloSeq, -, h⟩ := Outcome.bind_eq_ok_iff.mp h
  obtain ⟨hello', hhello, h⟩ := Outcome.bind_eq_ok_iff.mp h
  obtain ⟨-, -, h⟩ := Outcome.bind_eq_ok_iff.mp h
  obtain ⟨rfl, rfl⟩ := Prod.mk.inj (Except.ok.inj h)
  obtain ⟨secret, rfl⟩ := generateDhKeypair_eq_ok hwalletDh
  rw [encodeWalletHelloMessage] at hhello
  split at hhello
  · cases hhello
  · split at hhello
    · cases hhello
    · obtain ⟨body, -, hhello⟩ := Outcome.bind_eq_ok_iff.mp hhello
      rw [← Except.ok.inj hhello]
      exact ⟨secret, shared, keys, hshared, hkeys, rfl, rfl⟩

theorem helloState_eq_ok {Body : Type} {decrypt : Unseal Body}
    {clientDhSecret walletDhPublic : String}
    {now : UInt64} {envelope : ConnectMessageEnvelope Body} {state : ConnectSessionState}
    (hpublic : envelope.dhPublic = some walletDhPublic)
    (h : helloState c decrypt sessionId clientDhSecret now envelope = .ok state) :
    ∃ keys, helloKeys c sessionId clientDhSecret walletDhPublic = .ok keys ∧
      state = { createInitialState keys clientDhSecret walletDhPublic now with
        lastSeenSeq := envelope.seq } := by
  rw [helloState, hpublic] at h
  simp only at h
  split at h
  · cases h
  · rename_i keys hkeys
    split at h
    · cases h
    · exact ⟨keys, hkeys, (Except.ok.inj h).symm⟩

/-- The session after the handshake, with no message on its way. -/
def startOf (wallet dapp : ConnectSessionState) : Session where
  state
    | .wallet => wallet
    | .dapp => dapp
  inbox _ := []

/-- Both ends of a handshake mirror each other. -/
theorem mirror_of_handshake (hc : c.Agrees) {Body : Type} {encrypt : Seal Body}
    {decrypt : Unseal Body} {random : Except String Bytes32} {client : DhKeyPair}
    (hclient : generateDhKeypair c random = .ok client) {i : AcceptInputs}
    {wallet dapp : ConnectSessionState} {hello : ConnectMessageEnvelope Body}
    (haccept : acceptConnectCommon c encrypt sessionId client.publicHex i = .ok (wallet, hello))
    {now : UInt64} (hfound : helloState c decrypt sessionId client.secretHex now hello = .ok dapp) :
    Mirror c wallet dapp := by
  obtain ⟨clientSecret, rfl⟩ := generateDhKeypair_eq_ok hclient
  obtain ⟨secret, shared, keys, hshared, hkeys, hpublic, rfl⟩ := acceptConnectCommon_eq_ok haccept
  obtain ⟨keys', hkeys', rfl⟩ := helloState_eq_ok hpublic hfound
  obtain ⟨-, rfl⟩ := computeSharedSecret_eq_ok_iff.mp hshared
  obtain ⟨shared', hshared', hkeys'⟩ := Outcome.bind_eq_ok_iff.mp hkeys'
  obtain ⟨-, rfl⟩ := computeSharedSecret_eq_ok_iff.mp hshared'
  -- Both derive the keys of one shared secret.
  rw [hc clientSecret secret, hkeys] at hkeys'
  obtain rfl := Except.ok.inj hkeys'
  rw [deriveSessionKeys_hex] at hkeys
  obtain rfl := Except.ok.inj hkeys
  exact ⟨⟨_, rfl, rfl⟩, ⟨secret, rfl, rfl⟩, ⟨clientSecret, rfl, rfl⟩, rfl, rfl⟩

/-- The two ends agree in every state that a causal run reaches from a
handshake. -/
theorem agreed_of_handshake (hc : c.Agrees) {Body : Type} {encrypt : Seal Body}
    {decrypt : Unseal Body} {random : Except String Bytes32} {client : DhKeyPair}
    (hclient : generateDhKeypair c random = .ok client) {i : AcceptInputs}
    {wallet dapp : ConnectSessionState} {hello : ConnectMessageEnvelope Body}
    (haccept : acceptConnectCommon c encrypt sessionId client.publicHex i = .ok (wallet, hello))
    {records : List (Option (ConnectMessageEnvelope Body))} {now : UInt64}
    (hone : ∀ envelope, some envelope ∈ records → isWalletHello sessionId envelope = true →
      envelope = hello)
    (hfind : findWalletHelloEvent c decrypt sessionId client.secretHex now records =
      .ok (some dapp))
    {ls : List Label} {s : Session} (h : Run (Step c sessionId) (startOf wallet dapp) ls s) :
    Agreed c sessionId (startOf wallet dapp) s := by
  obtain ⟨envelope, hmem, hmatch, hfound⟩ := exists_of_searchHello c hfind
  obtain rfl := hone envelope hmem hmatch
  have hmirror := mirror_of_handshake hc hclient haccept hfound
  exact agreed_of_run hc ⟨.wallet, rfl, hmirror⟩ h

/-! ## A session over X25519 -/

/-- The shared secret of two public keys, computed by X25519 from the first of
the known key pairs that one of them belongs to. -/
def exchange (known : List (Bytes32 × Bytes32)) (p q : Bytes32) : Bytes32 :=
  match known.find? fun k ↦ k.2 = p ∨ k.2 = q with
  | some k => X25519.diffieHellman k.1 (if k.2 = p then q else p)
  | none => ⟨List.replicate 32 0, List.length_replicate⟩

theorem exchange_comm (known : List (Bytes32 × Bytes32)) (p q : Bytes32) :
    exchange known p q = exchange known q p := by
  have hfind : (known.find? fun k ↦ k.2 = p ∨ k.2 = q) =
      known.find? fun k ↦ k.2 = q ∨ k.2 = p := by
    simp only [or_comm]
  rw [exchange, exchange, hfind]
  cases hknown : known.find? fun k ↦ k.2 = q ∨ k.2 = p with
  | none => rfl
  | some k =>
      have hkey : k.2 = q ∨ k.2 = p := by simpa using List.find?_some hknown
      by_cases hp : k.2 = p
      · by_cases hq : k.2 = q
        · rw [← hp, ← hq]
        · simp only [if_pos hp, if_neg hq]
      · have hq := hkey.resolve_right hp
        simp only [if_neg hp, if_pos hq]

def repeated (b : UInt8) : Bytes32 := ⟨List.replicate 32 b, List.length_replicate⟩

def key (n : ℕ) : Bytes32 := ⟨Bytes.leBytes 32 n, Bytes.length_leBytes _ _⟩

def exampleKeys : List (Bytes32 × Bytes32) :=
  [(repeated 1, key 0x09a2f809442bdcf99d8cb66ab406d913bba95f9f562c77b978c251b69292e0a4),
    (repeated 2, key 0x597d580e8705ba4547340d05859602cd6ec7a51478c1707bec33b6ccd13a8dce),
    (repeated 3, key 0x22efb324016e1cdff9da8b484d7753eab05b9d965de18ea26f7fd46b3bddfe5d),
    (repeated 4, key 0x0bf1ec7f616993011ca633f4cb7f3cb1faf4e05d7b2353b84f35869e20b201ac),
    (repeated 5, key 0x5d49203d657c906e78d71b0b00072c77e919e700b7169b5e32d0ddb10914a650)]

theorem publicKey_exampleKeys : ∀ k ∈ exampleKeys, X25519.publicKey k.1 = k.2 := by
  decide +kernel

/-- The Ed25519 key of the signing seed that the session below derives. -/
def exampleVerifyingKey (seed : Bytes32) : Bytes32 where
  bytes := Bytes.leBytes 32
    (if seed.hex = "39f6f28fb04743aae938fad13af7efc500d85f0d9b5230f3a3d47acb350cdf85" then
      0x0ba83a739e8cb0c1eb0aa13564630468331209cfd66cfbc74959b5f163d65b92 else 0)
  length_eq := Bytes.length_leBytes _ _

/-- X25519 for exchanges with one of five known keys, and HKDF-SHA256. -/
def exampleCrypto : Crypto where
  publicKey := X25519.publicKey
  diffieHellman a theirs := exchange exampleKeys (X25519.publicKey a) theirs
  hkdf := Sha256.hkdf
  verifyingKey := exampleVerifyingKey

theorem exampleCrypto_agrees : exampleCrypto.Agrees := by
  intro a b
  simp only [exampleCrypto]
  apply exchange_comm

/-- Two messages of the dApp in a row, and one of the wallet. -/
def exampleRun : List Label :=
  [.send .dapp (.ok (repeated 3)) 1700000001000 1700000001,
    .send .dapp (.ok (repeated 4)) 1700000002000 1700000002,
    .receive .wallet 1700000003, .receive .wallet 1700000004,
    .send .wallet (.ok (repeated 5)) 1700000005000 1700000005, .receive .dapp 1700000006]

def exampleInputs : AcceptInputs :=
  ⟨.ok (repeated 2), .ok (), .ok 1700000000000, 1700000000, .ok (), 1700000000⟩

/-- The run after a handshake.  The body of the hello is sealed as its root, and
opens under no other. -/
def exampleSession : Except String (Option (Session × Option Session)) := do
  let client ← generateDhKeypair exampleCrypto (.ok (repeated 1))
  let (wallet, hello) ← acceptConnectCommon exampleCrypto (fun root _ _ ↦ .ok root) "session-1"
    client.publicHex exampleInputs
  let dapp ← findWalletHelloEvent exampleCrypto
    (fun envelope root ↦ if envelope.body = root then .ok () else .error .decryptFailure)
    "session-1" client.secretHex 1700000000 [none, some hello]
  return dapp.map fun dapp ↦
    (startOf wallet dapp, run? (step? exampleCrypto "session-1") (startOf wallet dapp) exampleRun)

def receivedAll : Except String (Option (Session × Option Session)) → Bool
  | .ok (some (_, some s)) => (s.inbox .wallet).isEmpty && (s.inbox .dapp).isEmpty
  | _ => false

theorem exists_of_receivedAll {x : Except String (Option (Session × Option Session))}
    (h : receivedAll x = true) : ∃ start s, x = .ok (some (start, some s)) ∧
      ∀ p, s.inbox p = [] := by
  unfold receivedAll at h
  split at h
  · rename_i start s
    obtain ⟨hwallet, hdapp⟩ := Bool.and_eq_true_iff.mp h
    refine ⟨start, s, rfl, ?_⟩
    rintro (_ | _)
    · exact List.isEmpty_iff.mp hwallet
    · exact List.isEmpty_iff.mp hdapp
  · cases h

theorem receivedAll_exampleSession : receivedAll exampleSession = true := by decide +kernel

theorem agreed_exampleRun :
    ∃ start s, Run (Step exampleCrypto "session-1") start exampleRun s ∧
      (∀ p, s.inbox p = []) ∧ Agreed exampleCrypto "session-1" start s := by
  obtain ⟨start, s, hsession, hempty⟩ := exists_of_receivedAll receivedAll_exampleSession
  rw [exampleSession] at hsession
  obtain ⟨client, hclient, hsession⟩ := Outcome.bind_eq_ok_iff.mp hsession
  obtain ⟨⟨wallet, hello⟩, haccept, hsession⟩ := Outcome.bind_eq_ok_iff.mp hsession
  obtain ⟨found, hfind, hsession⟩ := Outcome.bind_eq_ok_iff.mp hsession
  obtain ⟨dapp, rfl, hpair⟩ := Option.map_eq_some_iff.mp (Except.ok.inj hsession)
  obtain ⟨rfl, hrun⟩ := Prod.mk.inj hpair
  have hrun := run?_eq_some_iff.mp hrun
  exact ⟨_, s, hrun, hempty,
    agreed_of_handshake exampleCrypto_agrees hclient haccept (by simp) hfind hrun⟩

end Ratchet

end BeeEngine
