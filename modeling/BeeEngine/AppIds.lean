import BeeEngine.ActiveSessions
import BeeEngine.Lib.BigUint
import BeeEngine.SessionCreation

/-!
# Application ids

`normalize_uint256_hex` gives one text to all spellings of a number, and the
texts are what the decoder of payloads and the query of sessions compare.
-/

namespace BeeEngine

namespace AppIds

open ConnectMessage (normalizeUint256Hex stripHexPrefix)
open Deeplink (ConnectPayload ParsedConnectDescription parseConnectDescription)
open SessionCreation (Spells)

variable {value value' appId appId' : String} {digits digits' : List Char}

/-! ## What is claimed -/

/-- The text is one to 64 digits, behind a prefix or alone. -/
structure DigitsOf (value : String) (digits : List Char) : Prop where
  text : value.toList = digits ∨ value.toList = '0' :: 'x' :: digits ∨
    value.toList = '0' :: 'X' :: digits
  nonempty : 1 ≤ digits.length
  atMost : digits.length ≤ 64
  hex : ∀ c ∈ digits, Text.isAsciiHexdigit c = true

def IsUint256Hex (value : String) : Prop := ∃ digits, DigitsOf value digits

/-- The text is a spelling of the number. -/
def Denotes (value : String) (k : ℕ) : Prop :=
  ∃ digits, DigitsOf value digits ∧ HexNumber.number digits = k

/-- The text is `0x` and 64 digits in lower case. -/
def IsNormalForm (appId : String) : Prop :=
  ∃ digits, appId.toList = '0' :: 'x' :: digits ∧ digits.length = 64 ∧
    ∀ c ∈ digits, Bytes.isLowerHex c = true

/-- The description names the application with this text, and this session. -/
structure Describes (description rawAppId sessionId : String) : Prop where
  session : sessionId ≠ ""
  appIdColon : ':' ∉ rawAppId.toList
  sessionColon : ':' ∉ sessionId.toList
  text : ∃ rest : List Char, (rest = [] ∨ rest.head? = some ':') ∧
    description = Deeplink.connectDescriptionPrefix ++ (Deeplink.connectDescriptionVersion ++ ":" ++
      rawAppId ++ ":" ++ sessionId ++ String.ofList rest)

/-! ## The digits of a text -/

theorem not_isAsciiHexdigit_x : Text.isAsciiHexdigit 'x' = false ∧
    Text.isAsciiHexdigit 'X' = false := by
  decide

/-- Digits alone begin with no prefix. -/
theorem stripPrefix_digits {c : Char} (hc : Text.isAsciiHexdigit c = false)
    (hvalue : value.toList = digits) (hhex : ∀ c ∈ digits, Text.isAsciiHexdigit c = true) :
    Text.stripPrefix (String.ofList ['0', c]) value = none := by
  rw [Text.stripPrefix, if_neg]
  rw [List.isPrefixOf_iff_prefix, String.toList_ofList, hvalue]
  rintro ⟨rest, rfl⟩
  rw [hhex c (by simp)] at hc
  cases hc

theorem DigitsOf.toList_stripHexPrefix (h : DigitsOf value digits) :
    (stripHexPrefix value).toList = digits := by
  obtain ⟨hx, hX⟩ := not_isAsciiHexdigit_x
  rw [stripHexPrefix]
  rcases h.text with hvalue | hvalue | hvalue
  · have hlower : Text.stripPrefix "0x" value = none := stripPrefix_digits hx hvalue h.hex
    have hupper : Text.stripPrefix "0X" value = none := stripPrefix_digits hX hvalue h.hex
    rw [hlower, hupper]
    exact hvalue
  · obtain rfl : value = "0x" ++ String.ofList digits := String.toList_inj.mp (by simp [hvalue])
    rw [Text.stripPrefix_append]
    exact String.toList_ofList
  · obtain rfl : value = "0X" ++ String.ofList digits := String.toList_inj.mp (by simp [hvalue])
    have hlower : Text.stripPrefix "0x" ("0X" ++ String.ofList digits) = none := by
      rw [Text.stripPrefix, if_neg]
      simp
    rw [hlower, Text.stripPrefix_append]
    exact String.toList_ofList

theorem toList_stripHexPrefix_cases (value : String) :
    value.toList = (stripHexPrefix value).toList ∨
      value.toList = '0' :: 'x' :: (stripHexPrefix value).toList ∨
      value.toList = '0' :: 'X' :: (stripHexPrefix value).toList := by
  rw [stripHexPrefix]
  cases hlower : Text.stripPrefix "0x" value with
  | some rest => exact .inr (.inl (Text.toList_of_stripPrefix hlower))
  | none =>
      cases hupper : Text.stripPrefix "0X" value with
      | some rest => exact .inr (.inr (Text.toList_of_stripPrefix hupper))
      | none => exact .inl rfl

theorem normalizeUint256Hex_eq_ok_iff :
    normalizeUint256Hex value = .ok appId ↔
      ∃ digits, DigitsOf value digits ∧
        appId = "0x" ++ String.ofList (HexNumber.padded 64 digits) := by
  rw [SessionCreation.normalizeUint256Hex_eq_ok_iff]
  constructor
  · rintro ⟨⟨k, hspells⟩, hlength, rfl⟩
    refine ⟨_, ⟨toList_stripHexPrefix_cases value, ?_, ?_, hspells.digits⟩, rfl⟩
    · rw [Nat.one_le_iff_ne_zero, String.length_toList]
      intro hempty
      exact hspells.nonempty (String.length_eq_zero_iff.mp hempty)
    · rwa [String.length_toList]
  · rintro ⟨digits, h, rfl⟩
    have hstrip := h.toList_stripHexPrefix
    refine ⟨⟨_, ?_, ?_, rfl⟩, ?_, ?_⟩
    · intro hempty
      have hnonempty := h.nonempty
      rw [← hstrip, hempty] at hnonempty
      cases hnonempty
    · rw [hstrip]
      exact h.hex
    · rw [← String.length_toList, hstrip]
      exact h.atMost
    · rw [SessionCreation.normalForm, hstrip]

theorem DigitsOf.unique (h : DigitsOf value digits) (h' : DigitsOf value digits') :
    digits = digits' := h.toList_stripHexPrefix.symm.trans h'.toList_stripHexPrefix

/-! ## Numbers -/

/-- Texts have one normal form if they denote one number. -/
theorem normalForm_eq_iff {k k' : ℕ} (happ : normalizeUint256Hex value = .ok appId)
    (happ' : normalizeUint256Hex value' = .ok appId') (hk : Denotes value k)
    (hk' : Denotes value' k') : appId = appId' ↔ k = k' := by
  obtain ⟨digits, h, rfl⟩ := normalizeUint256Hex_eq_ok_iff.mp happ
  obtain ⟨digits', h', rfl⟩ := normalizeUint256Hex_eq_ok_iff.mp happ'
  obtain ⟨_, hdigits, rfl⟩ := hk
  obtain ⟨_, hdigits', rfl⟩ := hk'
  obtain rfl := h.unique hdigits
  obtain rfl := h'.unique hdigits'
  constructor
  · intro hsame
    have hpadded := String.ofList_injective ((String.append_right_inj _).mp hsame)
    rw [← HexNumber.number_padded h.hex, hpadded, HexNumber.number_padded h'.hex]
  · intro hnumber
    rw [HexNumber.padded_eq_padded h.hex h'.hex h.atMost h'.atMost hnumber]

theorem isNormalForm_of_normalize (h : normalizeUint256Hex value = .ok appId) :
    IsNormalForm appId := by
  obtain ⟨digits, hdigits, rfl⟩ := normalizeUint256Hex_eq_ok_iff.mp h
  refine ⟨HexNumber.padded 64 digits, by simp, HexNumber.length_padded hdigits.atMost, ?_⟩
  intro c hc
  rw [HexNumber.padded_eq hdigits.hex] at hc
  obtain ⟨n, hn, rfl⟩ := List.mem_map.mp hc
  exact Bytes.isLowerHex_hexDigit n (HexNumber.lt_of_mem_padding hdigits.hex n hn)

/-! ## Comparisons -/

theorem parseConnectDescription_of_describes {description rawAppId sessionId : String}
    (h : Describes description rawAppId sessionId) (happ : normalizeUint256Hex rawAppId = .ok appId) :
    parseConnectDescription description = ⟨some appId, some sessionId⟩ := by
  obtain ⟨hsession, happColon, hsessionColon, rest, hrest, rfl⟩ := h
  have hversion : ':' ∉ Deeplink.connectDescriptionVersion.toList := by decide
  have hempty : ¬sessionId.isEmpty = true := by rwa [String.isEmpty_iff]
  have hlist : (Deeplink.connectDescriptionVersion ++ ":" ++ rawAppId ++ ":" ++ sessionId ++
      String.ofList rest).toList = Deeplink.connectDescriptionVersion.toList ++ ':' ::
        (rawAppId.toList ++ ':' :: (sessionId.toList ++ rest)) := by
    simp
  obtain ⟨pieces, hlast⟩ :
      ∃ pieces, (sessionId.toList ++ rest).splitOn ':' = sessionId.toList :: pieces := by
    cases rest with
    | nil => exact ⟨[], by rw [List.append_nil, List.splitOn_eq_singleton hsessionColon]⟩
    | cons c rest =>
        obtain rfl : c = ':' := by simpa using hrest
        exact ⟨_, List.splitOn_append_cons_self_of_not_mem hsessionColon _⟩
  rw [parseConnectDescription, Text.stripPrefix_append]
  simp only [hlist, List.splitOn_append_cons_self_of_not_mem hversion,
    List.splitOn_append_cons_self_of_not_mem happColon, hlast, List.map_cons, String.ofList_toList,
    ne_eq, not_true_eq_false, if_false, happ, if_neg hempty]

theorem Denotes.exists_normalize {k : ℕ} (h : Denotes value k) :
    ∃ appId, normalizeUint256Hex value = .ok appId := by
  obtain ⟨digits, hdigits, -⟩ := h
  exact ⟨_, normalizeUint256Hex_eq_ok_iff.mpr ⟨digits, hdigits, rfl⟩⟩

variable {F : Type} {serde : SerdeJson F}

def appIdMismatch : String := "connect payload description app_id mismatch"

/-- The decoder refuses a payload of which all else is in order for its
application exactly if the description names another one. -/
theorem decode_eq_mismatch_iff {s rawAppId sessionId : String} {payload : ConnectPayload}
    {k k' : ℕ} (hread : Deeplink.payload? serde (Text.trim s) = some payload)
    (hshape : Deeplink.WellShaped payload) (hexpires : payload.expiresAt ≠ 0)
    (hdescription : Describes payload.description rawAppId sessionId)
    (hk : Denotes payload.appId k) (hk' : Denotes rawAppId k') :
    Deeplink.Client.decodeConnectPayloadB64url serde s = .error appIdMismatch ↔ k ≠ k' := by
  obtain ⟨appId, happ⟩ := hk.exists_normalize
  obtain ⟨appId', happ'⟩ := hk'.exists_normalize
  have hnonempty : ¬(Text.trim s).isEmpty = true := by
    rw [String.isEmpty_iff]
    intro hempty
    have hnone : Deeplink.payload? serde "" = none := serde.fromStr_empty _
    rw [hempty, hnone] at hread
    cases hread
  rw [Deeplink.Client.decodeConnectPayloadB64url, if_neg hnonempty,
    Deeplink.readPayload_eq_ok_iff.mpr hread]
  simp only [Outcome.ok_bind, Deeplink.Client.validate_eq_ok_iff.mpr ⟨hshape, hexpires⟩, happ,
    parseConnectDescription_of_describes hdescription happ']
  refine Iff.trans ?_ (not_congr (normalForm_eq_iff happ happ' hk hk'))
  by_cases hsame : appId' = appId
  · -- What is left to compare are the sessions, whose error is another one.
    rw [if_neg (by simp [hsame])]
    simp only [hsame, not_true_eq_false, iff_false]
    split
    · intro h
      exact absurd (Except.error.inj h) (by decide)
    · rintro ⟨⟩
  · rw [if_pos (by simp [hsame])]
    exact iff_of_true rfl fun h ↦ hsame h.symm

/-- A profile passes the filter exactly if its description names the application
that is asked for. -/
theorem matchesFilter_iff {record : ActiveSessions.ProfileDeployed}
    {filter rawAppId sessionId : String} {k k' : ℕ}
    (hfilter : ActiveSessions.normalizeOptionalAppId (some value) = .ok (some filter))
    (hdescription : Describes record.description rawAppId sessionId) (hk : Denotes value k)
    (hk' : Denotes rawAppId k') :
    ActiveSessions.matchesFilter (some filter) record = true ↔ k = k' := by
  obtain ⟨appId, happ⟩ := hk.exists_normalize
  obtain ⟨appId', happ'⟩ := hk'.exists_normalize
  have hsame : filter = appId := by
    rw [ActiveSessions.normalizeOptionalAppId, happ] at hfilter
    split at hfilter
    · cases hfilter
    · exact (Option.some.inj (Except.ok.inj hfilter)).symm
  rw [ActiveSessions.matchesFilter, parseConnectDescription_of_describes hdescription happ',
    decide_eq_true_iff, Option.some.injEq, hsame, ← normalForm_eq_iff happ happ' hk hk']
  exact eq_comm

/-! ## The normal form -/

/-- What `normalize_uint256_hex` accepts and gives, when two results are equal,
and what its two comparisons decide. -/
theorem normalizeUint256Hex_canonical (serde : SerdeJson F) :
    (∀ value, (∃ appId, normalizeUint256Hex value = .ok appId) ↔ IsUint256Hex value) ∧
    (∀ value appId, normalizeUint256Hex value = .ok appId →
      IsNormalForm appId ∧ normalizeUint256Hex appId = .ok appId) ∧
    (∀ value value' appId appId', normalizeUint256Hex value = .ok appId →
      normalizeUint256Hex value' = .ok appId' →
      ∀ k k', Denotes value k → Denotes value' k' → (appId = appId' ↔ k = k')) ∧
    (∀ s payload rawAppId sessionId k k', Deeplink.payload? serde (Text.trim s) = some payload →
      Deeplink.WellShaped payload → payload.expiresAt ≠ 0 →
      Describes payload.description rawAppId sessionId → Denotes payload.appId k →
      Denotes rawAppId k' →
      (Deeplink.Client.decodeConnectPayloadB64url serde s = .error appIdMismatch ↔ k ≠ k')) ∧
    ∀ value filter record rawAppId sessionId k k',
      ActiveSessions.normalizeOptionalAppId (some value) = .ok (some filter) →
      Describes record.description rawAppId sessionId → Denotes value k → Denotes rawAppId k' →
      (ActiveSessions.matchesFilter (some filter) record = true ↔ k = k') := by
  refine ⟨?_, ?_, ?_, ?_, ?_⟩
  · intro value
    constructor
    · rintro ⟨appId, happ⟩
      obtain ⟨digits, hdigits, -⟩ := normalizeUint256Hex_eq_ok_iff.mp happ
      exact ⟨digits, hdigits⟩
    · rintro ⟨digits, hdigits⟩
      exact ⟨_, normalizeUint256Hex_eq_ok_iff.mpr ⟨digits, hdigits, rfl⟩⟩
  · intro value appId happ
    exact ⟨isNormalForm_of_normalize happ, SessionCreation.normalizeUint256Hex_idem happ⟩
  · intro value value' appId appId' happ happ' k k' hk hk'
    exact normalForm_eq_iff happ happ' hk hk'
  · intro s payload rawAppId sessionId k k' hread hshape hexpires hdescription hk hk'
    exact decode_eq_mismatch_iff hread hshape hexpires hdescription hk hk'
  · intro value filter record rawAppId sessionId k k' hfilter hdescription hk hk'
    exact matchesFilter_iff hfilter hdescription hk hk'

end AppIds

end BeeEngine
