import BeeEngine.ConnectMessage
import BeeEngine.Lib.JsonText

/-!
# Connect payloads

The payload of a deeplink, as `bee_connect` and the wallet decode it.
-/

namespace BeeEngine

open ConnectMessage (normalizeUint256Hex)
open Json (Value)

namespace Deeplink

def connectDeeplinkVersion : String := "bee_connect.dl/1"
def connectDescriptionPrefix : String := "bee_connect:"
def connectDescriptionVersion : String := "v1"

structure ConnectPayload where
  v : String
  sessionId : String
  description : String
  expiresAt : UInt64
  appId : String
  nonce : Option String
  deriving DecidableEq, Repr

variable {F : Type}

def ConnectPayload.read (v : Value F) : Option ConnectPayload := do
  let field ← v.members? ["v", "session_id", "description", "expires_at", "app_id", "nonce"]
  let version ← Json.required (field "v") (·.asStr?)
  let sessionId ← Json.required (field "session_id") (·.asStr?)
  let description ← Json.required (field "description") (·.asStr?)
  let expiresAt ← Json.required (field "expires_at") (·.asU64?)
  let appId ← Json.required (field "app_id") (·.asStr?)
  let nonce ← Json.optional (field "nonce") (·.asStr?)
  return ⟨version, sessionId, description, expiresAt, appId, nonce⟩

/-- The payload of base64url text, with the messages of the caller. -/
def readPayload (serde : SerdeJson F) (base64Error utf8Error jsonError payloadB64url : String) :
    Except String ConnectPayload :=
  match Base64.decode payloadB64url with
  | none => .error base64Error
  | some payloadBytes =>
      match Bytes.fromUtf8 payloadBytes with
      | none => .error utf8Error
      | some payloadJson =>
          match serde.fromStr ConnectPayload.read payloadJson with
          | none => .error jsonError
          | some payload => .ok payload

/-! ## The decoder of `bee_connect` -/

structure ParsedConnectDescription where
  appId : Option String
  sessionId : Option String
  deriving DecidableEq, Repr

def parseConnectDescription (value : String) : ParsedConnectDescription :=
  match Text.stripPrefix connectDescriptionPrefix value with
  | none => ⟨none, none⟩
  | some tail =>
      match (tail.toList.splitOn ':').map String.ofList with
      | version :: rawAppId :: rawSessionId :: _ =>
          if version ≠ connectDescriptionVersion then ⟨none, none⟩
          else
            match normalizeUint256Hex rawAppId with
            | .error _ => ⟨none, none⟩
            | .ok appId =>
                if rawSessionId.isEmpty then ⟨none, none⟩ else ⟨some appId, some rawSessionId⟩
      | _ => ⟨none, none⟩

namespace Client

def validateConnectPayloadShape (payload : ConnectPayload) : Except String Unit :=
  if payload.v ≠ connectDeeplinkVersion then
    .error ("Unsupported connect deeplink version `" ++ payload.v ++ "` (expected `" ++
      connectDeeplinkVersion ++ "`)")
  else if Text.isBlank payload.sessionId then .error "connect payload session_id is empty"
  else if Text.isBlank payload.description then .error "connect payload description is empty"
  else if payload.expiresAt = 0 then .error "connect payload expires_at must be > 0"
  else (normalizeUint256Hex payload.appId).map fun _ ↦ ()

def decodeConnectPayloadB64url (serde : SerdeJson F) (payloadB64url : String) :
    Except String ConnectPayload :=
  let payloadB64url := Text.trim payloadB64url
  if payloadB64url.isEmpty then .error "connect payload is empty"
  else do
    let payload ← readPayload serde "Decode connect payload base64url" "Decode connect payload utf8"
      "Deserialize connect payload" payloadB64url
    validateConnectPayloadShape payload
    let appId ← normalizeUint256Hex payload.appId
    let parsedDescription := parseConnectDescription payload.description
    if parsedDescription.appId ≠ some appId then
      throw "connect payload description app_id mismatch"
    else if parsedDescription.sessionId ≠ some payload.sessionId then
      throw "connect payload description session_id mismatch"
    else return { payload with appId := appId }

end Client

/-! ## The decoder of the wallet -/

namespace Wallet

def validateConnectPayloadShape (payload : ConnectPayload) : Except String Unit :=
  if payload.v ≠ connectDeeplinkVersion then
    .error ("Unsupported connect deeplink version `" ++ payload.v ++ "` (expected `" ++
      connectDeeplinkVersion ++ "`)")
  else if Text.isBlank payload.sessionId then .error "Connect payload session_id is empty"
  else if Text.isBlank payload.description then .error "Connect payload description is empty"
  else (normalizeUint256Hex payload.appId).map fun _ ↦ ()

def decodeConnectPayloadB64url (serde : SerdeJson F) (payloadB64 : String) :
    Except String ConnectPayload := do
  let payload ← readPayload serde "Decode connect payload base64url" "Decode connect payload utf8"
    "Deserialize connect payload json" payloadB64
  validateConnectPayloadShape payload
  return payload

end Wallet

/-! ## What is claimed -/

/-- The payload with its `app_id` in normal form. -/
def normalized (payload : ConnectPayload) : ConnectPayload :=
  { payload with appId := (normalizeUint256Hex payload.appId).toOption.getD payload.appId }

/-- The description names the application and the session of the payload. -/
def NamesItself (payload : ConnectPayload) : Prop :=
  ∃ appId, normalizeUint256Hex payload.appId = .ok appId ∧
    parseConnectDescription payload.description = ⟨some appId, some payload.sessionId⟩

/-- The decoders agree on a string, on the payload as `same` compares it. -/
def Agree (serde : SerdeJson F) (same : ConnectPayload → ConnectPayload → Prop) (s : String) :
    Prop :=
  ((∃ payload, Client.decodeConnectPayloadB64url serde s = .ok payload) ↔
    ∃ payload, Wallet.decodeConnectPayloadB64url serde s = .ok payload) ∧
  (∀ payload payload', Client.decodeConnectPayloadB64url serde s = .ok payload →
    Wallet.decodeConnectPayloadB64url serde s = .ok payload' → same payload payload') ∧
  ∀ payload, Wallet.decodeConnectPayloadB64url serde s = .ok payload → NamesItself payload

/-! ## What each decoder accepts -/

/-- The payload that a text holds. -/
def payload? (serde : SerdeJson F) (text : String) : Option ConnectPayload :=
  (Base64.decode text).bind fun bs ↦
    (Bytes.fromUtf8 bs).bind (serde.fromStr ConnectPayload.read)

/-- The checks that both decoders make. -/
structure WellShaped (payload : ConnectPayload) : Prop where
  version : payload.v = connectDeeplinkVersion
  sessionId : Text.isBlank payload.sessionId = false
  description : Text.isBlank payload.description = false
  appId : ∃ appId, normalizeUint256Hex payload.appId = .ok appId

theorem readPayload_eq_ok_iff {serde : SerdeJson F} {e₁ e₂ e₃ text : String}
    {payload : ConnectPayload} :
    readPayload serde e₁ e₂ e₃ text = .ok payload ↔ payload? serde text = some payload := by
  rw [readPayload, payload?]
  cases Base64.decode text with
  | none => simp
  | some bs =>
      cases hutf8 : Bytes.fromUtf8 bs with
      | none => simp [hutf8]
      | some json => cases hread : serde.fromStr ConnectPayload.read json <;> simp [hutf8, hread]

theorem isOk_of_map {x : Except String String} :
    x.map (fun _ ↦ ()) = .ok () ↔ ∃ a, x = .ok a := by
  rw [Outcome.map_eq_ok_iff]
  simp only [and_true]

theorem Wallet.validate_eq_ok_iff {payload : ConnectPayload} :
    Wallet.validateConnectPayloadShape payload = .ok () ↔ WellShaped payload := by
  rw [Wallet.validateConnectPayloadShape]
  constructor
  · intro h
    split_ifs at h with hversion hsession hdescription
    exact ⟨not_not.mp hversion, Bool.eq_false_iff.mpr hsession, Bool.eq_false_iff.mpr hdescription,
      isOk_of_map.mp h⟩
  · rintro ⟨hversion, hsession, hdescription, happ⟩
    rw [if_neg (not_not.mpr hversion), if_neg (by simp [hsession]), if_neg (by simp [hdescription])]
    exact isOk_of_map.mpr happ

theorem Client.validate_eq_ok_iff {payload : ConnectPayload} :
    Client.validateConnectPayloadShape payload = .ok () ↔
      WellShaped payload ∧ payload.expiresAt ≠ 0 := by
  rw [Client.validateConnectPayloadShape]
  constructor
  · intro h
    split_ifs at h with hversion hsession hdescription hexpires
    exact ⟨⟨not_not.mp hversion, Bool.eq_false_iff.mpr hsession,
      Bool.eq_false_iff.mpr hdescription, isOk_of_map.mp h⟩, hexpires⟩
  · rintro ⟨⟨hversion, hsession, hdescription, happ⟩, hexpires⟩
    rw [if_neg (not_not.mpr hversion), if_neg (by simp [hsession]), if_neg (by simp [hdescription]),
      if_neg hexpires]
    exact isOk_of_map.mpr happ

theorem Wallet.decode_eq_ok_iff {serde : SerdeJson F} {s : String} {payload : ConnectPayload} :
    Wallet.decodeConnectPayloadB64url serde s = .ok payload ↔
      payload? serde s = some payload ∧ WellShaped payload := by
  rw [Wallet.decodeConnectPayloadB64url, Outcome.bind_eq_ok_iff]
  constructor
  · rintro ⟨payload', hread, h⟩
    obtain ⟨⟨⟩, hshape, h⟩ := Outcome.bind_eq_ok_iff.mp h
    obtain rfl := Except.ok.inj h
    exact ⟨readPayload_eq_ok_iff.mp hread, Wallet.validate_eq_ok_iff.mp hshape⟩
  · rintro ⟨hread, hshape⟩
    refine ⟨payload, readPayload_eq_ok_iff.mpr hread, ?_⟩
    rw [Wallet.validate_eq_ok_iff.mpr hshape]
    rfl

/-- What `bee_connect` asks of a payload beyond its shape. -/
structure Checked (payload : ConnectPayload) : Prop where
  wellShaped : WellShaped payload
  expiresAt : payload.expiresAt ≠ 0
  namesItself : NamesItself payload

theorem Client.decode_eq_ok_iff {serde : SerdeJson F} {s : String} {payload : ConnectPayload} :
    Client.decodeConnectPayloadB64url serde s = .ok payload ↔
      ∃ payload', payload? serde (Text.trim s) = some payload' ∧ Checked payload' ∧
        payload = normalized payload' := by
  rw [Client.decodeConnectPayloadB64url]
  constructor
  · intro h
    split at h
    · cases h
    · obtain ⟨payload', hread, h⟩ := Outcome.bind_eq_ok_iff.mp h
      obtain ⟨⟨⟩, hshape, h⟩ := Outcome.bind_eq_ok_iff.mp h
      obtain ⟨appId, happ, h⟩ := Outcome.bind_eq_ok_iff.mp h
      obtain ⟨hshape, hexpires⟩ := Client.validate_eq_ok_iff.mp hshape
      simp only at h
      split at h
      · cases h
      · rename_i happId
        split at h
        · cases h
        · rename_i hsession
          obtain rfl := Except.ok.inj h
          refine ⟨payload', readPayload_eq_ok_iff.mp hread, ⟨hshape, hexpires, appId, happ, ?_⟩, ?_⟩
          · rw [← not_not.mp happId, ← not_not.mp hsession]
          · rw [normalized, happ]
            rfl
  · rintro ⟨payload', hread, ⟨hshape, hexpires, appId, happ, hdescription⟩, rfl⟩
    have hempty : ¬(Text.trim s).isEmpty = true := by
      rw [String.isEmpty_iff]
      intro hempty
      rw [hempty] at hread
      have hnone : payload? serde "" = none := serde.fromStr_empty _
      rw [hnone] at hread
      cases hread
    rw [if_neg hempty, readPayload_eq_ok_iff.mpr hread]
    simp only [Outcome.ok_bind, Client.validate_eq_ok_iff.mpr ⟨hshape, hexpires⟩, happ,
      hdescription, normalized, ne_eq, not_true_eq_false, if_false]
    rfl

/-! ## When they agree -/

theorem isWhitespace_of_isSome_digitVal {c : Char} (h : (Base64.digitVal c).isSome) :
    Text.isWhitespace c = false := by
  have hc : (65 ≤ c.toNat ∧ c.toNat ≤ 90) ∨ (97 ≤ c.toNat ∧ c.toNat ≤ 122) ∨
      (48 ≤ c.toNat ∧ c.toNat ≤ 57) ∨ c.toNat = 45 ∨ c.toNat = 95 := by
    rw [Base64.digitVal] at h
    split_ifs at h with hupper hlower hdigit hminus hunder
    · exact .inl (Text.toNat_of_between hupper)
    · exact .inr (.inl (Text.toNat_of_between hlower))
    · exact .inr (.inr (.inl (Text.toNat_of_between hdigit)))
    · exact .inr (.inr (.inr (.inl (congrArg Char.toNat hminus))))
    · exact .inr (.inr (.inr (.inr (congrArg Char.toNat hunder))))
    · cases h
  rw [Text.isWhitespace, decide_eq_false_iff_not]
  omega

/-- A text that holds a payload has no white space around it. -/
theorem trim_of_payload? {serde : SerdeJson F} {s : String} {payload : ConnectPayload}
    (h : payload? serde s = some payload) : Text.trim s = s := by
  obtain ⟨bs, hbs, -⟩ := Option.bind_eq_some_iff.mp h
  apply Text.trim_eq_self
  intro c hc
  exact isWhitespace_of_isSome_digitVal (Base64.isSome_digitVal hbs c hc)

/-- A string without white space around it holds, if its payload has the shape
that both decoders ask for, one that `bee_connect` accepts; and what stands
between white space is no payload that it accepts. -/
def Consistent (serde : SerdeJson F) (s : String) : Prop :=
  if Text.trim s = s then
    ∀ payload, payload? serde s = some payload → WellShaped payload →
      payload.expiresAt ≠ 0 ∧ NamesItself payload
  else ∀ payload, payload? serde (Text.trim s) = some payload → ¬Checked payload

theorem agree_of_consistent {serde : SerdeJson F} {s : String}
    {same : ConnectPayload → ConnectPayload → Prop} (h : Consistent serde s)
    (hsame : ∀ payload, payload? serde s = some payload → WellShaped payload →
      same (normalized payload) payload) : Agree serde same s := by
  rw [Consistent] at h
  split at h
  · rename_i htrim
    refine ⟨⟨?_, ?_⟩, ?_, ?_⟩
    · rintro ⟨payload, hclient⟩
      obtain ⟨payload', hread, hchecked, -⟩ := Client.decode_eq_ok_iff.mp hclient
      rw [htrim] at hread
      exact ⟨payload', Wallet.decode_eq_ok_iff.mpr ⟨hread, hchecked.wellShaped⟩⟩
    · rintro ⟨payload, hwallet⟩
      obtain ⟨hread, hshape⟩ := Wallet.decode_eq_ok_iff.mp hwallet
      obtain ⟨hexpires, hnames⟩ := h payload hread hshape
      exact ⟨_, Client.decode_eq_ok_iff.mpr
        ⟨payload, by rwa [htrim], ⟨hshape, hexpires, hnames⟩, rfl⟩⟩
    · intro payload payload' hclient hwallet
      obtain ⟨payload'', hread, -, rfl⟩ := Client.decode_eq_ok_iff.mp hclient
      obtain ⟨hread', hshape⟩ := Wallet.decode_eq_ok_iff.mp hwallet
      rw [htrim, hread'] at hread
      obtain rfl := Option.some.inj hread
      exact hsame _ hread' hshape
    · intro payload hwallet
      obtain ⟨hread, hshape⟩ := Wallet.decode_eq_ok_iff.mp hwallet
      exact (h payload hread hshape).2
  · rename_i htrim
    have hclient : ∀ payload, Client.decodeConnectPayloadB64url serde s ≠ .ok payload := by
      intro payload hclient
      obtain ⟨payload', hread, hchecked, -⟩ := Client.decode_eq_ok_iff.mp hclient
      exact h payload' hread hchecked
    have hwallet : ∀ payload, Wallet.decodeConnectPayloadB64url serde s ≠ .ok payload := by
      intro payload hwallet
      exact htrim (trim_of_payload? (Wallet.decode_eq_ok_iff.mp hwallet).1)
    refine ⟨⟨?_, ?_⟩, ?_, ?_⟩
    · rintro ⟨payload, h⟩
      exact absurd h (hclient payload)
    · rintro ⟨payload, h⟩
      exact absurd h (hwallet payload)
    · intro payload payload' h
      exact absurd h (hclient payload)
    · intro payload h
      exact absurd h (hwallet payload)

theorem consistent_of_agree {serde : SerdeJson F} {s : String}
    {same : ConnectPayload → ConnectPayload → Prop} (h : Agree serde same s) :
    Consistent serde s := by
  obtain ⟨haccept, -, hnames⟩ := h
  rw [Consistent]
  split
  · rename_i htrim
    intro payload hread hshape
    have hwallet := Wallet.decode_eq_ok_iff.mpr ⟨hread, hshape⟩
    obtain ⟨payload', hclient⟩ := haccept.mpr ⟨payload, hwallet⟩
    obtain ⟨payload'', hread', hchecked, -⟩ := Client.decode_eq_ok_iff.mp hclient
    rw [htrim, hread] at hread'
    obtain rfl := Option.some.inj hread'
    exact ⟨hchecked.expiresAt, hnames payload hwallet⟩
  · rename_i htrim
    intro payload hread hchecked
    obtain ⟨payload', hwallet⟩ :=
      haccept.mp ⟨_, Client.decode_eq_ok_iff.mpr ⟨payload, hread, hchecked, rfl⟩⟩
    exact htrim (trim_of_payload? (Wallet.decode_eq_ok_iff.mp hwallet).1)

/-- When the decoders agree: on the payload in normal form, and on the payload
as it is returned. -/
theorem agree_iff (serde : SerdeJson F) (s : String) :
    (Agree serde (fun payload payload' ↦ payload = normalized payload') s ↔
      Consistent serde s) ∧
    (Agree serde (· = ·) s ↔ Consistent serde s ∧
      ∀ payload, payload? serde s = some payload → WellShaped payload →
        normalized payload = payload) := by
  refine ⟨⟨consistent_of_agree, fun h ↦ ?_⟩, ⟨fun h ↦ ?_, fun h ↦ ?_⟩⟩
  · apply agree_of_consistent h
    intros
    rfl
  · have hconsistent := consistent_of_agree h
    refine ⟨hconsistent, ?_⟩
    intro payload hread hshape
    have hwallet := Wallet.decode_eq_ok_iff.mpr ⟨hread, hshape⟩
    obtain ⟨payload', hclient⟩ := h.1.mpr ⟨payload, hwallet⟩
    have hsame := h.2.1 payload' payload hclient hwallet
    obtain ⟨payload'', hread', -, rfl⟩ := Client.decode_eq_ok_iff.mp hclient
    rw [trim_of_payload? hread, hread] at hread'
    obtain rfl := Option.some.inj hread'
    exact hsame
  · exact agree_of_consistent h.1 h.2

/-- A deeplink of `session-1` whose description names `session-2`. -/
def mismatchedDeeplink : String :=
    "eyJhcHBfaWQiOiIweDEiLCJkZXNjcmlwdGlvbiI6ImJlZV9jb25uZWN0OnYxOjB4MTpzZXNzaW9uLTIi" ++
    "LCJleHBpcmVzX2F0IjoxNzAwMDAwMzAwLCJzZXNzaW9uX2lkIjoic2Vzc2lvbi0xIiwidiI6ImJlZV9j" ++
    "b25uZWN0LmRsLzEifQ"

theorem not_agree : ¬Agree Json.Compact.serde
    (fun payload payload' ↦ payload = normalized payload') mismatchedDeeplink := by
  rintro ⟨-, -, hnames⟩
  have hwallet : Wallet.decodeConnectPayloadB64url Json.Compact.serde mismatchedDeeplink =
      .ok ⟨"bee_connect.dl/1", "session-1", "bee_connect:v1:0x1:session-2", 1700000300, "0x1",
        none⟩ := by decide +kernel
  obtain ⟨appId, -, hdescription⟩ := hnames _ hwallet
  have hsession : (parseConnectDescription "bee_connect:v1:0x1:session-2").sessionId =
      some "session-2" := by decide +kernel
  have hnamed : (parseConnectDescription "bee_connect:v1:0x1:session-2").sessionId =
      some "session-1" := by rw [hdescription]
  exact absurd (Option.some.inj (hnamed.symm.trans hsession)) (by decide)

end Deeplink

end BeeEngine
