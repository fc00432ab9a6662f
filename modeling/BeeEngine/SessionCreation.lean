import BeeEngine.ConnectPayload
import BeeEngine.Infra
import BeeEngine.MiningCore

/-!
# Sessions that a client creates

The payload that `bee_connect` makes for a deeplink, and what the decoders and
the reader of descriptions make of it.
-/

namespace BeeEngine

open ConnectMessage (normalizeUint256Hex stripHexPrefix)
open Json (Value)

namespace SessionCreation

variable {F : Type}

open Deeplink (ConnectPayload)

def defaultConnectTtlSecs : UInt64 := 300

/-- The fields as they are declared, `nonce` only if there is one. -/
def structFields (payload : ConnectPayload) : List (String × Value F) :=
  [("v", .str payload.v), ("session_id", .str payload.sessionId),
    ("description", .str payload.description), ("expires_at", .u64 payload.expiresAt),
    ("app_id", .str payload.appId)] ++
  match payload.nonce with
  | some nonce => [("nonce", .str nonce)]
  | none => []

/-- A token of as many random bytes as the system has filled in. -/
def randomTokenB64url {numBytes : ℕ} (bytes : Except String (Vector UInt8 numBytes)) :
    Except AppError String :=
  match bytes with
  | .error e => .error ((AppError.new e).withContext "Generate random bytes")
  | .ok bytes => .ok (Base64.encode bytes.toList)

structure SessionCommon where
  sessionId : String
  description : String
  createdAt : UInt64
  expiresAt : UInt64
  appId : String
  payloadJson : String
  payloadB64url : String

/-- The random bytes of the session and of the description are inputs, as is the
clock. -/
def createSessionCommon {serde : SerdeJson F} (writer : serde.StructWriter)
    (nowSecs : Except AppError UInt64) (sessionBytes descriptionBytes :
      Except String (Vector UInt8 16)) (appId : String) (ttlSecs : Option UInt64)
    (nonce : Option String) : Except AppError SessionCommon := do
  let nowSecs ← nowSecs
  let ttlSecs := max (ttlSecs.getD defaultConnectTtlSecs) 1
  let expiresAt := MiningCore.saturatingAdd nowSecs ttlSecs
  let appId ← (normalizeUint256Hex appId).mapError AppError.new
  let sessionId ← randomTokenB64url sessionBytes
  let descriptionToken ← randomTokenB64url descriptionBytes
  let description := Deeplink.connectDescriptionPrefix ++ Deeplink.connectDescriptionVersion ++
    ":" ++ appId ++ ":" ++ sessionId ++ ":" ++ descriptionToken
  let payload : ConnectPayload :=
    ⟨Deeplink.connectDeeplinkVersion, sessionId, description, expiresAt, appId, nonce⟩
  let payloadJson := writer.toString (structFields payload)
  let payloadB64url := Base64.encode (Bytes.utf8 payloadJson)
  return ⟨sessionId, description, nowSecs, expiresAt, appId, payloadJson, payloadB64url⟩

/-! ## Spellings of a number -/

/-- The digits of an application: some, and nothing else behind the prefix. -/
structure Spells (value : String) (k : ℕ) : Prop where
  nonempty : stripHexPrefix value ≠ ""
  digits : ∀ c ∈ (stripHexPrefix value).toList, Text.isAsciiHexdigit c = true
  number : HexNumber.number (stripHexPrefix value).toList = k

/-- The normal form of the digits. -/
def normalForm (value : String) : String :=
  "0x" ++ String.ofList (HexNumber.padded 64 (stripHexPrefix value).toList)

theorem normalizeUint256Hex_eq_ok_iff {value appId : String} :
    normalizeUint256Hex value = .ok appId ↔
      (∃ k, Spells value k) ∧ (stripHexPrefix value).length ≤ 64 ∧ appId = normalForm value := by
  have hform : "0x" ++ String.ofList (List.replicate (64 - (stripHexPrefix value).length) '0') ++
      Text.toAsciiLowercase (stripHexPrefix value) = normalForm value := by
    apply String.toList_inj.mp
    rw [normalForm, HexNumber.padded, String.ofList_toList, String.length_toList]
    simp
  rw [normalizeUint256Hex]
  constructor
  · intro h
    split_ifs at h with hempty hlong hdigits
    have hdigits := List.all_eq_true.mp hdigits
    rw [HexNumber.utf8ByteSize_eq_length hdigits] at hlong
    obtain rfl := Except.ok.inj h
    refine ⟨⟨_, ?_, hdigits, rfl⟩, not_lt.mp hlong, hform⟩
    rwa [String.isEmpty_iff] at hempty
  · rintro ⟨⟨k, hempty, hdigits, -⟩, hlong, rfl⟩
    rw [if_neg (by rwa [String.isEmpty_iff]), HexNumber.utf8ByteSize_eq_length hdigits,
      if_neg (not_lt.mpr hlong), if_neg (not_not.mpr (List.all_eq_true.mpr hdigits)), hform]

theorem normalForm_eq {value other : String} {k : ℕ} (h : Spells value k) (h' : Spells other k)
    (hlength : (stripHexPrefix value).length ≤ 64) (hlength' : (stripHexPrefix other).length ≤ 64) :
    normalForm value = normalForm other := by
  rw [normalForm, normalForm]
  rw [HexNumber.padded_eq_padded h.digits h'.digits (by rwa [String.length_toList])
    (by rwa [String.length_toList]) (h.number.trans h'.number.symm)]

theorem stripHexPrefix_normalForm (value : String) : stripHexPrefix (normalForm value) =
    String.ofList (HexNumber.padded 64 (stripHexPrefix value).toList) := by
  rw [stripHexPrefix, normalForm, Text.stripPrefix_append]
  rfl

theorem length_stripHexPrefix_normalForm {value : String}
    (hlength : (stripHexPrefix value).length ≤ 64) :
    (stripHexPrefix (normalForm value)).length = 64 := by
  rw [stripHexPrefix_normalForm, String.length_ofList,
    HexNumber.length_padded (by rwa [String.length_toList])]

/-- The normal form is a spelling of the same number. -/
theorem Spells.normalForm {value : String} {k : ℕ} (h : Spells value k)
    (hlength : (stripHexPrefix value).length ≤ 64) : Spells (normalForm value) k := by
  refine ⟨?_, ?_, ?_⟩
  · intro hempty
    have hlength := length_stripHexPrefix_normalForm hlength
    rw [hempty] at hlength
    exact absurd hlength (by decide)
  · rw [stripHexPrefix_normalForm, String.toList_ofList]
    intro c hc
    exact HexNumber.isAsciiHexdigit_of_mem_padded h.digits hc
  · rw [stripHexPrefix_normalForm, String.toList_ofList, HexNumber.number_padded h.digits, h.number]

/-- What is in normal form stays as it is. -/
theorem normalizeUint256Hex_idem {value appId : String}
    (h : normalizeUint256Hex value = .ok appId) :
    normalizeUint256Hex appId = .ok appId := by
  obtain ⟨⟨k, hspells⟩, hlength, rfl⟩ := normalizeUint256Hex_eq_ok_iff.mp h
  have hnormal := hspells.normalForm hlength
  have hlength' := length_stripHexPrefix_normalForm hlength
  rw [normalizeUint256Hex_eq_ok_iff]
  exact ⟨⟨k, hnormal⟩, hlength'.le, normalForm_eq hspells hnormal hlength hlength'.le⟩

theorem normalizeUint256Hex_of_spells {value other appId : String} {k : ℕ}
    (h : normalizeUint256Hex value = .ok appId) (hvalue : Spells value k) (hother : Spells other k)
    (hlength : (stripHexPrefix other).length ≤ 64) : normalizeUint256Hex other = .ok appId := by
  obtain ⟨-, hvalueLength, rfl⟩ := normalizeUint256Hex_eq_ok_iff.mp h
  rw [normalizeUint256Hex_eq_ok_iff]
  exact ⟨⟨k, hother⟩, hlength, normalForm_eq hvalue hother hvalueLength hlength⟩

/-! ## The characters of a description -/

/-- A character that is no separator and no white space. -/
def IsPlain (c : Char) : Prop := c ≠ ':' ∧ Text.isWhitespace c = false

theorem isPlain_of_mem_normalForm {value appId : String}
    (h : normalizeUint256Hex value = .ok appId) {c : Char} (hc : c ∈ appId.toList) : IsPlain c := by
  obtain ⟨⟨k, hspells⟩, -, rfl⟩ := normalizeUint256Hex_eq_ok_iff.mp h
  rw [normalForm, String.toList_append] at hc
  rcases List.mem_append.mp hc with hc | hc
  · rcases List.mem_pair.mp hc with rfl | rfl <;> exact ⟨by decide, by decide⟩
  · rw [String.toList_ofList] at hc
    have hdigit := HexNumber.isAsciiHexdigit_of_mem_padded hspells.digits hc
    refine ⟨?_, Text.isWhitespace_of_isAsciiHexdigit hdigit⟩
    rintro rfl
    cases hdigit

theorem isPlain_of_mem_encode {bs : Bytes} {c : Char} (hc : c ∈ (Base64.encode bs).toList) :
    IsPlain c := by
  have hdecode : Base64.decodeChars (Base64.encode bs).toList = some bs := Base64.decode_encode bs
  have hdigit := Base64.isSome_digitVal hdecode c hc
  refine ⟨?_, Deeplink.isWhitespace_of_isSome_digitVal hdigit⟩
  rintro rfl
  cases hdigit

theorem encode_ne_empty {bs : Bytes} (h : bs ≠ []) : Base64.encode bs ≠ "" := by
  intro hempty
  have hdecode := Base64.decode_encode bs
  have hnil : Base64.decode "" = some [] := by
    rw [Base64.decode, String.toList_empty, Base64.decodeChars]
  rw [hempty, hnil] at hdecode
  exact h (Option.some.inj hdecode).symm

theorem toList_ne_nil (bytes : Vector UInt8 16) : bytes.toList ≠ [] := by
  intro h
  have hlength := bytes.length_toList
  rw [h] at hlength
  cases hlength

/-- The separators are where the reader looks for them. -/
theorem parseConnectDescription_eq {appId sessionId token : String}
    (happ : normalizeUint256Hex appId = .ok appId) (hne : sessionId ≠ "")
    (happColon : ':' ∉ appId.toList) (hsessionColon : ':' ∉ sessionId.toList) :
    Deeplink.parseConnectDescription (Deeplink.connectDescriptionPrefix ++
      Deeplink.connectDescriptionVersion ++ ":" ++ appId ++ ":" ++ sessionId ++ ":" ++ token) =
        ⟨some appId, some sessionId⟩ := by
  have hstrip : Text.stripPrefix Deeplink.connectDescriptionPrefix
      (Deeplink.connectDescriptionPrefix ++ Deeplink.connectDescriptionVersion ++ ":" ++ appId ++
        ":" ++ sessionId ++ ":" ++ token) =
      some (Deeplink.connectDescriptionVersion ++ ":" ++ appId ++ ":" ++ sessionId ++ ":" ++
        token) := by
    simp only [String.append_assoc]
    apply Text.stripPrefix_append
  have hlist : (Deeplink.connectDescriptionVersion ++ ":" ++ appId ++ ":" ++ sessionId ++ ":" ++
      token).toList = Deeplink.connectDescriptionVersion.toList ++ ':' :: (appId.toList ++ ':' ::
        (sessionId.toList ++ ':' :: token.toList)) := by
    simp
  have hversion : ':' ∉ Deeplink.connectDescriptionVersion.toList := by decide
  have hempty : ¬sessionId.isEmpty = true := by rwa [String.isEmpty_iff]
  rw [Deeplink.parseConnectDescription, hstrip]
  simp only [hlist, List.splitOn_append_cons_self_of_not_mem hversion,
    List.splitOn_append_cons_self_of_not_mem happColon,
    List.splitOn_append_cons_self_of_not_mem hsessionColon, List.map_cons, String.ofList_toList,
    ne_eq, not_true_eq_false, if_false, happ, if_neg hempty]

/-! ## The payload -/

def SessionCommon.payload (common : SessionCommon) (nonce : Option String) : ConnectPayload :=
  ⟨Deeplink.connectDeeplinkVersion, common.sessionId, common.description, common.expiresAt,
    common.appId, nonce⟩

theorem read_structFields (payload : ConnectPayload) :
    ConnectPayload.read (.object (.ofList (structFields payload)) : Value F) = some payload := by
  obtain ⟨v, sessionId, description, expiresAt, appId, nonce⟩ := payload
  cases nonce <;>
    simp [ConnectPayload.read, structFields, Json.Map.ofList, Json.required, Json.optional]

theorem payload?_encode {serde : SerdeJson F} (writer : serde.StructWriter)
    (payload : ConnectPayload) : Deeplink.payload? serde
      (Base64.encode (Bytes.utf8 (writer.toString (structFields payload)))) = some payload := by
  have hnames : ((structFields payload : List (String × Value F)).map Prod.fst).Nodup := by
    obtain ⟨v, sessionId, description, expiresAt, appId, nonce⟩ := payload
    cases nonce <;> simp [structFields]
  rw [Deeplink.payload?, Base64.decode_encode, Option.bind_some, Bytes.fromUtf8_utf8,
    Option.bind_some, writer.fromStr_toString _ hnames, read_structFields]

/-- There is no white space in the text. -/
def NoSpace (s : String) : Prop := ∀ c ∈ s.toList, Text.isWhitespace c = false

theorem NoSpace.append {s t : String} (hs : NoSpace s) (ht : NoSpace t) : NoSpace (s ++ t) := by
  intro c hc
  rw [String.toList_append] at hc
  rcases List.mem_append.mp hc with hc | hc
  · exact hs c hc
  · exact ht c hc

theorem NoSpace.isBlank_eq_false {s : String} (h : NoSpace s) (hne : s ≠ "") :
    Text.isBlank s = false := by
  rwa [Text.isBlank_eq_false_iff, Text.trim_eq_self h]

section Created

variable {serde : SerdeJson F} {writer : serde.StructWriter} {nowSecs : UInt64}
  {sessionBytes descriptionBytes : Vector UInt8 16} {value appId : String}
  {ttlSecs : Option UInt64} {nonce : Option String}

theorem createSessionCommon_eq_ok (writer : serde.StructWriter) (nowSecs : UInt64)
    (sessionBytes descriptionBytes : Vector UInt8 16) (ttlSecs : Option UInt64)
    (nonce : Option String) (h : normalizeUint256Hex value = .ok appId) :
    ∃ common, createSessionCommon writer (.ok nowSecs) (.ok sessionBytes) (.ok descriptionBytes)
        value ttlSecs nonce = .ok common ∧
      common.appId = appId ∧ common.sessionId = Base64.encode sessionBytes.toList ∧
      common.description = Deeplink.connectDescriptionPrefix ++
        Deeplink.connectDescriptionVersion ++ ":" ++ appId ++ ":" ++
          Base64.encode sessionBytes.toList ++ ":" ++ Base64.encode descriptionBytes.toList ∧
      common.createdAt = nowSecs ∧
      common.expiresAt =
        MiningCore.saturatingAdd nowSecs (max (ttlSecs.getD defaultConnectTtlSecs) 1) ∧
      common.payloadB64url =
        Base64.encode (Bytes.utf8 (writer.toString (structFields (common.payload nonce)))) := by
  rw [createSessionCommon, h]
  exact ⟨_, rfl, rfl, rfl, rfl, rfl, rfl, rfl⟩

/-- Time is added without wrapping. -/
theorem toNat_saturatingAdd (a b : UInt64) :
    (MiningCore.saturatingAdd a b).toNat = min (a.toNat + b.toNat) (2 ^ 64 - 1) := by
  rw [MiningCore.saturatingAdd, UInt64.toNat_ofNat_of_lt']
  exact (min_le_right _ _).trans_lt (by decide)

/-- A session lasts a second at least, up to the end of time. -/
theorem lt_saturatingAdd (nowSecs ttlSecs : UInt64) :
    nowSecs.toNat + 1 ≤ (MiningCore.saturatingAdd nowSecs (max ttlSecs 1)).toNat ∨
      MiningCore.saturatingAdd nowSecs (max ttlSecs 1) = UInt64.ofNat (2 ^ 64 - 1) := by
  have hone : 1 ≤ (max ttlSecs 1).toNat := by
    by_cases hle : ttlSecs ≤ 1
    · have hmax : max ttlSecs 1 = 1 := if_pos hle
      rw [hmax]
      rfl
    · have hmax : max ttlSecs 1 = ttlSecs := if_neg hle
      rw [hmax]
      rw [UInt64.le_iff_toNat_le, not_le] at hle
      exact Nat.le_of_lt hle
  have hsum := toNat_saturatingAdd nowSecs (max ttlSecs 1)
  rcases le_or_gt (nowSecs.toNat + (max ttlSecs 1).toNat) (2 ^ 64 - 1) with hfits | hover
  · rw [min_eq_left hfits] at hsum
    left
    omega
  · right
    rw [MiningCore.saturatingAdd, min_eq_right hover.le]

/-- The payload that a client has created passes every check. -/
theorem checked_payload {common : SessionCommon} (happ : normalizeUint256Hex value = .ok appId)
    (hcreate : createSessionCommon writer (.ok nowSecs) (.ok sessionBytes) (.ok descriptionBytes)
      value ttlSecs nonce = .ok common) :
    Deeplink.Checked (common.payload nonce) ∧
      Deeplink.parseConnectDescription common.description =
        ⟨some appId, some common.sessionId⟩ := by
  obtain ⟨common', hcreate', happId, hsession, hdescription, -, hexpires, -⟩ :=
    createSessionCommon_eq_ok writer nowSecs sessionBytes descriptionBytes ttlSecs nonce happ
  obtain rfl := Except.ok.inj (hcreate.symm.trans hcreate')
  have hnormal := normalizeUint256Hex_idem happ
  have hsessionNe : common.sessionId ≠ "" := by
    rw [hsession]
    exact encode_ne_empty (toList_ne_nil sessionBytes)
  have hsessionPlain : ∀ c ∈ common.sessionId.toList, IsPlain c := by
    rw [hsession]
    intro c hc
    exact isPlain_of_mem_encode hc
  have hsessionSpace : NoSpace common.sessionId := fun c hc ↦ (hsessionPlain c hc).2
  have hdescriptionNe : common.description ≠ "" := by
    rw [hdescription]
    intro hempty
    have hlength := congrArg String.length hempty
    simp [Deeplink.connectDescriptionPrefix] at hlength
  have hdescriptionSpace : NoSpace common.description := by
    have hscheme : NoSpace Deeplink.connectDescriptionPrefix := by
      simp [NoSpace, Deeplink.connectDescriptionPrefix, Text.isWhitespace]
    have hversion : NoSpace Deeplink.connectDescriptionVersion := by
      simp [NoSpace, Deeplink.connectDescriptionVersion, Text.isWhitespace]
    have hcolon : NoSpace ":" := by
      simp [NoSpace, Text.isWhitespace]
    have happSpace : NoSpace appId := fun c hc ↦ (isPlain_of_mem_normalForm happ hc).2
    have htoken : NoSpace (Base64.encode descriptionBytes.toList) :=
      fun c hc ↦ (isPlain_of_mem_encode hc).2
    rw [hdescription, ← hsession]
    apply NoSpace.append _ htoken
    apply NoSpace.append _ hcolon
    apply NoSpace.append _ hsessionSpace
    apply NoSpace.append _ hcolon
    apply NoSpace.append _ happSpace
    exact (hscheme.append hversion).append hcolon
  have hparse : Deeplink.parseConnectDescription common.description =
      ⟨some appId, some common.sessionId⟩ := by
    rw [hdescription, ← hsession]
    apply parseConnectDescription_eq hnormal hsessionNe
    · intro hc
      exact (isPlain_of_mem_normalForm happ hc).1 rfl
    · intro hc
      exact (hsessionPlain _ hc).1 rfl
  have hnormalId : normalizeUint256Hex (common.payload nonce).appId = .ok appId := by
    rw [SessionCommon.payload, happId]
    exact hnormal
  have hexpiresNe : common.expiresAt ≠ 0 := by
    intro hzero
    have hlater := lt_saturatingAdd nowSecs (ttlSecs.getD defaultConnectTtlSecs)
    rw [← hexpires, hzero] at hlater
    rcases hlater with hlater | hlater
    · exact Nat.not_succ_le_zero _ hlater
    · exact absurd hlater (by decide)
  exact ⟨⟨⟨rfl, hsessionSpace.isBlank_eq_false hsessionNe,
    hdescriptionSpace.isBlank_eq_false hdescriptionNe, appId, hnormalId⟩, hexpiresNe, appId,
    hnormalId, hparse⟩, hparse⟩

/-- What a created session is to the decoders: the payload that was made, an end
that does not wrap, and one session for all spellings of a number. -/
theorem createSessionCommon_roundtrip (writer : serde.StructWriter) (nowSecs : UInt64)
    (sessionBytes descriptionBytes : Vector UInt8 16) (ttlSecs : Option UInt64)
    (nonce : Option String) (happ : normalizeUint256Hex value = .ok appId) :
    ∃ common, createSessionCommon writer (.ok nowSecs) (.ok sessionBytes) (.ok descriptionBytes)
        value ttlSecs nonce = .ok common ∧
      common.appId = appId ∧
      Deeplink.Client.decodeConnectPayloadB64url serde common.payloadB64url =
        .ok (common.payload nonce) ∧
      Deeplink.Wallet.decodeConnectPayloadB64url serde common.payloadB64url =
        .ok (common.payload nonce) ∧
      Deeplink.parseConnectDescription common.description = ⟨some appId, some common.sessionId⟩ ∧
      (nowSecs.toNat + 1 ≤ common.expiresAt.toNat ∨
        common.expiresAt = UInt64.ofNat (2 ^ 64 - 1)) ∧
      nowSecs ≤ common.expiresAt ∧
      ∀ other k, Spells value k → Spells other k → (stripHexPrefix other).length ≤ 64 →
        normalizeUint256Hex other = .ok appId ∧
        createSessionCommon writer (.ok nowSecs) (.ok sessionBytes) (.ok descriptionBytes)
          other ttlSecs nonce = .ok common := by
  obtain ⟨common, hcreate, happId, -, -, -, hexpires, hpayload⟩ :=
    createSessionCommon_eq_ok writer nowSecs sessionBytes descriptionBytes ttlSecs nonce happ
  obtain ⟨hchecked, hparse⟩ := checked_payload happ hcreate
  have hread : Deeplink.payload? serde common.payloadB64url = some (common.payload nonce) := by
    rw [hpayload]
    apply payload?_encode
  have hnormalized : Deeplink.normalized (common.payload nonce) = common.payload nonce := by
    rw [Deeplink.normalized, SessionCommon.payload, happId, normalizeUint256Hex_idem happ]
    rfl
  refine ⟨common, hcreate, happId, ?_, ?_, hparse, ?_, ?_, ?_⟩
  · rw [Deeplink.Client.decode_eq_ok_iff]
    refine ⟨common.payload nonce, ?_, hchecked, hnormalized.symm⟩
    rwa [Deeplink.trim_of_payload? hread]
  · rw [Deeplink.Wallet.decode_eq_ok_iff]
    exact ⟨hread, hchecked.wellShaped⟩
  · rw [hexpires]
    apply lt_saturatingAdd
  · rw [hexpires, UInt64.le_iff_toNat_le, toNat_saturatingAdd]
    have hnow := nowSecs.toNat_lt
    omega
  · intro other k hvalue hother hlength
    have hsame := normalizeUint256Hex_of_spells happ hvalue hother hlength
    refine ⟨hsame, ?_⟩
    rw [← hcreate, createSessionCommon, createSessionCommon, hsame, happ]

end Created

/-- A session of `0xFf`, also spelled `0X00fF`, with a nonce of separators and quotes. -/
theorem createSessionCommon_roundtrip_quotes :
    ∃ common, createSessionCommon Json.Compact.structWriter (.ok 1700000000)
        (.ok (Vector.replicate 16 7)) (.ok (Vector.replicate 16 250)) "0xFf" (some 0)
        (some "a:\"\\") = .ok common ∧
      normalizeUint256Hex "0X00fF" = .ok common.appId ∧
      Deeplink.Client.decodeConnectPayloadB64url Json.Compact.serde common.payloadB64url =
        .ok (common.payload (some "a:\"\\")) := by
  have happ : normalizeUint256Hex "0xFf" = .ok (normalForm "0xFf") := by decide +kernel
  obtain ⟨common, hcreate, happId, hclient, -, -, -, -, hspellings⟩ :=
    createSessionCommon_roundtrip Json.Compact.structWriter 1700000000 (Vector.replicate 16 7)
      (Vector.replicate 16 250) (some 0) (some "a:\"\\") happ
  have hvalue : Spells "0xFf" 255 :=
    ⟨by decide +kernel, List.all_eq_true.mp (by decide +kernel), by decide +kernel⟩
  have hother : Spells "0X00fF" 255 :=
    ⟨by decide +kernel, List.all_eq_true.mp (by decide +kernel), by decide +kernel⟩
  have hsame := (hspellings "0X00fF" 255 hvalue hother (by decide +kernel)).1
  rw [← happId] at hsame
  exact ⟨common, hcreate, hsame, hclient⟩

end SessionCreation

end BeeEngine
