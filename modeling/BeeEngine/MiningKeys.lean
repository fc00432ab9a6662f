import BeeEngine.AppIds
import BeeEngine.MessageFinders
import BeeEngine.Whitelist

/-!
# Mining keys

The wallet sets and removes the mining key of an application and waits until the
miner shows it.  The application asks for the key in a message and waits for it
too.  The miner shows all numbers in one form.
-/

namespace BeeEngine

namespace MiningKeys

open Multifactor ConnectMessage WalletMessage
open Json (Value)

variable {F : Type}

/-! ## The wallet -/

structure MinerDetails where
  ownerPublic : List (String × String)

structure Mirror where
  address : String
  index : BitVec 128

structure ParamsOfEncodeSetOwnerPublic where
  publicKey : String
  appId : String

structure ParamsOfSubmitTransaction where
  dest : String
  value : BitVec 128
  cc : List (UInt32 × String)
  bounce : Bool
  allBalance : Bool
  epkExpireAt : UInt64
  payload : String

inductive Message where
  | whitelist (message : Whitelist.Message)
  | submitTransaction (params : ParamsOfSubmitTransaction) (signer : KeyPair)

/-- What the chain answers in a call, and what the kit encodes. -/
structure Steps where
  resolveMiner : Except AppError String
  isDeployed : Bool
  getEpkExpireAt : String → Except AppError UInt64
  minerContract : Whitelist.ContractIndex
  resolveMirror : Except AppError Mirror
  whitelist : Whitelist.Steps
  setOwnerPublicMessage : ParamsOfEncodeSetOwnerPublic → Except AppError String
  removeOwnerPublicMessage : String → Except AppError String
  submitTransaction : Except AppError ResultOfSendMessage
  details : ℕ → Except AppError MinerDetails

def txValue : BitVec 128 := 100000000

section

variable (steps : Steps)

/-- A call's messages: the miner is listed, and then the transaction is submitted. -/
def submitToMiner (op encodeName : String) (minerAddress : String) (epkExpireAt : UInt64)
    (signer : KeyPair) (message : Except AppError String) :
    Reporting Message AppError (List String) := do
  let mirror ← steps.resolveMirror
  let listing := Whitelist.updateMultifactorWhitelistAndWait steps.whitelist
    ⟨epkExpireAt, steps.minerContract, minerAddress, mirror.index - 1, none⟩
  let whitelistIds ← Reporting.mapError
    (·.withContext ("miner." ++ op ++ ": add miner to whitelist"))
    ⟨listing.events.map .whitelist, listing.result⟩
  let msg ← inContext ("miner." ++ op ++ ": miner." ++ encodeName) message
  let res ← sendMessage
    (.submitTransaction ⟨minerAddress, txValue, [], true, false, epkExpireAt, msg⟩ signer)
    ("miner." ++ op ++ ": multifactor.submit_transaction") steps.submitTransaction op
  return whitelistIds ++ res.messageHash.toList

/-- Polls the details of the miner. -/
def waitDetails (op what : String) (predicate : MinerDetails → Bool)
    (maxAttempts : Option UInt32) : Reporting Message AppError Unit := do
  let _ ← inContext ("miner." ++ op ++ ": " ++ what) (pollUntil AppError.new
    (fun i ↦ inContext ("miner." ++ op ++ ": miner.get_details") (steps.details i))
    predicate maxAttempts).1
  return ()

def hasOwnerPublic (appId expectedOwnerPublic : String) (details : MinerDetails) : Bool :=
  match details.ownerPublic.lookup appId with
  | some value => value = expectedOwnerPublic
  | none => false

def lacksOwnerPublic (appId : String) (details : MinerDetails) : Bool :=
  match details.ownerPublic.lookup appId with
  | some value => value.isEmpty
  | none => true

namespace Cmd

def setMiningKeys (minerAddress miningPubkey : String) (epkExpireAt : UInt64) (appId : String)
    (signer : KeyPair) : Reporting Message AppError (List String) := do
  let expectedOwnerPublic := "0x" ++ miningPubkey
  let messageIds ← submitToMiner steps "set_mining_keys" "set_owner_public_message" minerAddress
    epkExpireAt signer (steps.setOwnerPublicMessage ⟨expectedOwnerPublic, appId⟩)
  waitDetails steps "set_mining_keys" "wait owner_public set"
    (hasOwnerPublic appId expectedOwnerPublic) (some 200)
  return messageIds

def delMiningKey (minerAddress : String) (epkExpireAt : UInt64) (appId : String) (wait : Bool)
    (signer : KeyPair) : Reporting Message AppError (List String) := do
  let messageIds ← submitToMiner steps "del_mining_key" "remove_owner_public_message" minerAddress
    epkExpireAt signer (steps.removeOwnerPublicMessage appId)
  if wait then
    waitDetails steps "del_mining_key" "wait owner_public removal" (lacksOwnerPublic appId) none
    return messageIds
  else return messageIds

end Cmd

structure ParamsOfSetMiningKeys where
  multifactorAddress : String
  signerKeys : KeyPair
  miningPubkey : String
  appId : String
  epkExpireAt : Option UInt64

structure ParamsOfDelMiningKey where
  multifactorAddress : String
  signerKeys : KeyPair
  appId : String
  epkExpireAt : Option UInt64
  wait : Bool

/-- The miner of a call and the end of its key. -/
def prepareCall (signerKeys : KeyPair) (epkExpireAt : Option UInt64) :
    Except AppError (String × UInt64) := do
  let minerAddress ← inContext "Failed to resolve miner for multifactor" steps.resolveMiner
  if ¬steps.isDeployed then throw (.new "Miner is not deployed")
  match epkExpireAt with
  | some v => return (minerAddress, v)
  | none =>
      let v ← inContext "Get EPK expire at"
        (steps.getEpkExpireAt ("0x" ++ signerKeys.publicKey))
      return (minerAddress, v)

/-- The application of a call: the one of the client, if the call names none. -/
def appIdOf (clientAppId appId : String) : String := if appId.isEmpty then clientAppId else appId

def setMiningKeys (clientAppId : String) (params : ParamsOfSetMiningKeys) :
    Reporting Message AppError (List String) := do
  let (minerAddress, epkExpireAt) ← prepareCall steps params.signerKeys params.epkExpireAt
  Reporting.mapError (·.withContext "Failed to set miner owner pubkey")
    (Cmd.setMiningKeys steps minerAddress params.miningPubkey epkExpireAt
      (appIdOf clientAppId params.appId) params.signerKeys)

def delMiningKey (clientAppId : String) (params : ParamsOfDelMiningKey) :
    Reporting Message AppError (List String) := do
  let (minerAddress, epkExpireAt) ← prepareCall steps params.signerKeys params.epkExpireAt
  Reporting.mapError (·.withContext "Failed to del mining key")
    (Cmd.delMiningKey steps minerAddress epkExpireAt (appIdOf clientAppId params.appId) params.wait
      params.signerKeys)

end

/-! ## The application -/

/-- The body of a request, and the texts that it is made of. -/
def requestBody (appId ownerPublic : String) : Except String (Value F × String × String) := do
  let appId ← normalizeUint256Hex appId
  let ownerPublic ← normalizeOwnerPublicHex ownerPublic
  return (.object (.ofList [("app_id", .str appId), ("owner_public", .str ownerPublic)]),
    appId, ownerPublic)

def normalizeOwnerPublicForCompare (value : String) : String :=
  "0x" ++ Text.toAsciiLowercase (stripHexPrefix value)

def isPropagated (appId expectedOwnerPublic : String) (details : MinerDetails) : Bool :=
  match details.ownerPublic.lookup appId with
  | some value => normalizeOwnerPublicForCompare value =
      normalizeOwnerPublicForCompare expectedOwnerPublic
  | none => false

def ensureMiningKeysPropagated (details : ℕ → Except String MinerDetails)
    (appId expectedOwnerPublic : String) (maxAttempts : Option UInt32) : Except String Unit :=
  (pollUntil id (fun i ↦ (details i).mapError fun e ↦
    "ensure_mining_keys_propagated: miner.get_details (" ++ e ++ ")")
    (isPropagated appId expectedOwnerPublic) maxAttempts).1.map fun _ ↦ ()

/-! ## The miner -/

abbrev Uint256 : Type := BitVec 256

/-- The 64 digits of a number. -/
def digitsText (n : Uint256) : String := .ofList (HexNumber.padded 64 (HexNumber.digits n.toNat))

def uint256Text (n : Uint256) : String := "0x" ++ digitsText n

/-- The keys of a miner, by the numbers of their applications. -/
abbrev Owners : Type := List (Uint256 × Uint256)

/-- The details that a miner shows. -/
def detailsOf (owners : Owners) : MinerDetails where
  ownerPublic := owners.map fun owner ↦ (uint256Text owner.1, uint256Text owner.2)

/-! ## The texts of numbers -/

section

variable {a k : Uint256} {owners : Owners} {appId : String}

theorem two_pow_eq : 2 ^ 256 = 16 ^ 64 := by norm_num

theorem toList_digitsText (n : Uint256) :
    (digitsText n).toList = HexNumber.padded 64 (HexNumber.digits n.toNat) := by
  rw [digitsText, String.toList_ofList]

theorem length_digits_le (n : Uint256) : (HexNumber.digits n.toNat).length ≤ 64 :=
  HexNumber.length_digits_le (two_pow_eq ▸ n.isLt)

theorem length_digitsText (n : Uint256) : (digitsText n).toList.length = 64 := by
  rw [toList_digitsText, HexNumber.length_padded (length_digits_le n)]

theorem number_digitsText (n : Uint256) : HexNumber.number (digitsText n).toList = n.toNat := by
  rw [toList_digitsText, HexNumber.number_padded fun c ↦ HexNumber.isAsciiHexdigit_of_mem_digits,
    HexNumber.number_digits]

theorem isLowerHex_of_mem_digitsText {n : Uint256} {c : Char} (hc : c ∈ (digitsText n).toList) :
    Bytes.isLowerHex c = true := by
  have hdigits : ∀ c ∈ HexNumber.digits n.toNat, Text.isAsciiHexdigit c = true :=
    fun c ↦ HexNumber.isAsciiHexdigit_of_mem_digits
  rw [toList_digitsText, HexNumber.padded_eq hdigits] at hc
  obtain ⟨d, hd, rfl⟩ := List.mem_map.mp hc
  exact Bytes.isLowerHex_hexDigit d (HexNumber.lt_of_mem_padding hdigits d hd)

theorem digitsText_injective : Function.Injective digitsText := by
  intro n m h
  apply BitVec.eq_of_toNat_eq
  rw [← number_digitsText n, ← number_digitsText m, h]

theorem uint256Text_injective : Function.Injective uint256Text :=
  fun _ _ h ↦ digitsText_injective ((String.append_right_inj _).mp h)

/-- Digits of any case, up to 64, are padded and lowered to the text of their number. -/
theorem exists_padded_eq {cs : List Char} (hhex : ∀ c ∈ cs, Text.isAsciiHexdigit c = true)
    (hlength : cs.length ≤ 64) :
    ∃ n : Uint256, HexNumber.number cs = n.toNat ∧
      String.ofList (HexNumber.padded 64 cs) = digitsText n := by
  have hlt : HexNumber.number cs < 2 ^ 256 := by
    rw [two_pow_eq]
    exact (HexNumber.number_lt hhex).trans_le (Nat.pow_le_pow_right (by decide) hlength)
  have hnumber : (BitVec.ofNat 256 (HexNumber.number cs)).toNat = HexNumber.number cs :=
    Nat.mod_eq_of_lt hlt
  refine ⟨.ofNat 256 (HexNumber.number cs), hnumber.symm, ?_⟩
  rw [digitsText, HexNumber.padded_eq_padded hhex
    (fun c ↦ HexNumber.isAsciiHexdigit_of_mem_digits) hlength (length_digits_le _)]
  rw [HexNumber.number_digits, hnumber]

theorem normalizeUint256Hex_eq_uint256Text {value : String}
    (h : normalizeUint256Hex value = .ok appId) :
    ∃ a : Uint256, AppIds.Denotes value a.toNat ∧ appId = uint256Text a := by
  obtain ⟨digits, hdigits, rfl⟩ := AppIds.normalizeUint256Hex_eq_ok_iff.mp h
  obtain ⟨a, hnumber, htext⟩ := exists_padded_eq hdigits.hex hdigits.atMost
  exact ⟨a, ⟨digits, hdigits, hnumber⟩, by rw [uint256Text, htext]⟩

theorem normalizeOwnerPublicHex_eq_digitsText {value key : String}
    (h : normalizeOwnerPublicHex value = .ok key) :
    ∃ k : Uint256, HexNumber.number (stripHexPrefix value).toList = k.toNat ∧
      key = Text.toAsciiLowercase (stripHexPrefix value) ∧ key = digitsText k := by
  rw [normalizeOwnerPublicHex] at h
  split_ifs at h with hempty hlength hhex
  obtain rfl := Except.ok.inj h
  rw [List.all_eq_true] at hhex
  rw [not_not, HexNumber.utf8ByteSize_eq_length hhex, ← String.length_toList] at hlength
  obtain ⟨k, hnumber, htext⟩ := exists_padded_eq hhex hlength.le
  refine ⟨k, hnumber, rfl, ?_⟩
  rw [← htext, HexNumber.padded, hlength, Nat.sub_self, List.replicate_zero, List.nil_append,
    String.ofList_toList, String.ofList_toList]

theorem stripHexPrefix_uint256Text (n : Uint256) : stripHexPrefix (uint256Text n) = digitsText n := by
  rw [stripHexPrefix, uint256Text, Text.stripPrefix_append]
  rfl

/-- Lower-case digits stay as they are. -/
theorem toAsciiLowercase_digitsText (n : Uint256) :
    Text.toAsciiLowercase (digitsText n) = digitsText n := by
  apply String.toList_injective
  have hpadded := HexNumber.padded_of_lower (fun c ↦ isLowerHex_of_mem_digitsText)
    (length_digitsText n)
  rw [HexNumber.padded, length_digitsText, Nat.sub_self, List.replicate_zero, List.nil_append,
    String.ofList_toList] at hpadded
  exact hpadded

theorem normalizeOwnerPublicForCompare_uint256Text (n : Uint256) :
    normalizeOwnerPublicForCompare (uint256Text n) = uint256Text n := by
  rw [normalizeOwnerPublicForCompare, stripHexPrefix_uint256Text, toAsciiLowercase_digitsText,
    uint256Text]

theorem stripHexPrefix_digitsText (n : Uint256) : stripHexPrefix (digitsText n) = digitsText n := by
  have hdigits : AppIds.DigitsOf (digitsText n) (digitsText n).toList :=
    ⟨.inl rfl, by rw [length_digitsText]; decide, (length_digitsText n).le,
      fun c hc ↦ HexNumber.isAsciiHexdigit_of_isLowerHex (isLowerHex_of_mem_digitsText hc)⟩
  exact String.toList_injective hdigits.toList_stripHexPrefix

/-! ## What the calls wait for -/

theorem lookup_detailsOf (owners : Owners) (a : Uint256) :
    (detailsOf owners).ownerPublic.lookup (uint256Text a) = (owners.lookup a).map uint256Text := by
  rw [detailsOf]
  induction owners with
  | nil => rfl
  | cons owner owners ih =>
      rw [List.map_cons, List.lookup_cons, List.lookup_cons, ih]
      by_cases h : a = owner.1
      · rw [h, beq_self_eq_true, beq_self_eq_true]
        rfl
      · rw [beq_eq_false_iff_ne.mpr h,
          beq_eq_false_iff_ne.mpr fun htext ↦ h (uint256Text_injective htext)]

/-- A text that is no number's is not shown. -/
theorem lookup_detailsOf_eq_some_iff {value : String} :
    (detailsOf owners).ownerPublic.lookup appId = some value ↔
      ∃ a k, appId = uint256Text a ∧ owners.lookup a = some k ∧ value = uint256Text k := by
  constructor
  · intro h
    obtain ⟨before, after, hsplit, -⟩ := List.lookup_eq_some_iff.mp h
    have hmem : (appId, value) ∈ (detailsOf owners).ownerPublic := by
      rw [hsplit]
      exact List.mem_append_right _ List.mem_cons_self
    obtain ⟨owner, -, howner⟩ := List.mem_map.mp hmem
    obtain ⟨rfl, -⟩ := Prod.mk.inj howner
    rw [lookup_detailsOf, Option.map_eq_some_iff] at h
    obtain ⟨k, hk, rfl⟩ := h
    exact ⟨owner.1, k, rfl, hk, rfl⟩
  · rintro ⟨a, k, rfl, hk, rfl⟩
    rw [lookup_detailsOf, hk]
    rfl

theorem hasOwnerPublic_iff {miningPubkey : String} :
    hasOwnerPublic appId ("0x" ++ miningPubkey) (detailsOf owners) = true ↔
      ∃ a k, appId = uint256Text a ∧ miningPubkey = digitsText k ∧ owners.lookup a = some k := by
  have hshown : hasOwnerPublic appId ("0x" ++ miningPubkey) (detailsOf owners) = true ↔
      (detailsOf owners).ownerPublic.lookup appId = some ("0x" ++ miningPubkey) := by
    rw [hasOwnerPublic]
    split
    · rename_i value hvalue
      rw [hvalue, Option.some_inj, decide_eq_true_iff]
    · rename_i hvalue
      simp [hvalue]
  rw [hshown, lookup_detailsOf_eq_some_iff]
  constructor
  · rintro ⟨a, k, happ, hk, hkey⟩
    exact ⟨a, k, happ, (String.append_right_inj _).mp hkey, hk⟩
  · rintro ⟨a, k, happ, rfl, hk⟩
    exact ⟨a, k, happ, hk, rfl⟩

theorem lacksOwnerPublic_iff :
    lacksOwnerPublic appId (detailsOf owners) = true ↔
      ∀ a, appId = uint256Text a → owners.lookup a = none := by
  rw [lacksOwnerPublic]
  split
  · rename_i value hvalue
    obtain ⟨a, k, rfl, hk, rfl⟩ := lookup_detailsOf_eq_some_iff.mp hvalue
    have hempty : (uint256Text k).isEmpty = false := by
      rw [uint256Text, Bool.eq_false_iff, ne_eq, String.isEmpty_iff, String.append_eq_empty_iff]
      exact fun h ↦ absurd h.1 (by decide)
    rw [hempty]
    refine ⟨nofun, fun h ↦ ?_⟩
    rw [h a rfl] at hk
    cases hk
  · rename_i hvalue
    refine ⟨fun _ a ha ↦ ?_, fun _ ↦ rfl⟩
    rw [ha, lookup_detailsOf, Option.map_eq_none_iff] at hvalue
    exact hvalue

theorem isPropagated_iff {expectedOwnerPublic : String} :
    isPropagated appId expectedOwnerPublic (detailsOf owners) = true ↔
      ∃ a k, appId = uint256Text a ∧
        normalizeOwnerPublicForCompare expectedOwnerPublic = uint256Text k ∧
          owners.lookup a = some k := by
  rw [isPropagated]
  split
  · rename_i value hvalue
    obtain ⟨a, k, rfl, hk, rfl⟩ := lookup_detailsOf_eq_some_iff.mp hvalue
    rw [normalizeOwnerPublicForCompare_uint256Text, decide_eq_true_iff]
    constructor
    · exact fun h ↦ ⟨a, k, rfl, h.symm, hk⟩
    · rintro ⟨a', k', happ, hkey, hk'⟩
      obtain rfl := uint256Text_injective happ
      rw [hkey, Option.some.inj (hk.symm.trans hk')]
  · rename_i hvalue
    refine ⟨nofun, ?_⟩
    rintro ⟨a, k, rfl, -, hk⟩
    rw [lookup_detailsOf, hk] at hvalue
    cases hvalue

/-! ## One key for both sides -/

theorem readMiningKeys_body {appId ownerPublic : String} :
    MessageFinders.readMiningKeys (F := F)
        (.object (.ofList [("app_id", .str appId), ("owner_public", .str ownerPublic)])) =
      normalizeMiningKeys ⟨appId, ownerPublic⟩ := by
  simp [MessageFinders.readMiningKeys, SetMiningKeysMessageBody.read, Json.Map.ofList,
    Json.required]

theorem normalizeOwnerPublicHex_digitsText (n : Uint256) :
    normalizeOwnerPublicHex (digitsText n) = .ok (digitsText n) := by
  have hhex : ∀ c ∈ (digitsText n).toList, Text.isAsciiHexdigit c = true :=
    fun c hc ↦ HexNumber.isAsciiHexdigit_of_isLowerHex (isLowerHex_of_mem_digitsText hc)
  have hlength := length_digitsText n
  have hempty : digitsText n ≠ "" := by
    intro h
    rw [h] at hlength
    cases hlength
  have hsize : (digitsText n).utf8ByteSize = 64 := by
    rw [HexNumber.utf8ByteSize_eq_length hhex, ← String.length_toList, hlength]
  rw [normalizeOwnerPublicHex, stripHexPrefix_digitsText, if_neg (by rwa [String.isEmpty_iff]),
    if_neg (not_not.mpr hsize), if_neg (not_not.mpr (List.all_eq_true.mpr hhex)),
    toAsciiLowercase_digitsText]

end

/-! ## Calls while the miner changes -/

section

variable {E E' : Type}

/-- Every read shows the keys of some moment. -/
def Shows (details : ℕ → Except E MinerDetails) (owners : ℕ → Owners) (readAt : ℕ → ℕ) : Prop :=
  ∀ i shown, details i = .ok shown → shown = detailsOf (owners (readAt i))

/-- One of the first reads finds what is awaited, and no read before it fails. -/
def Reaches (details : ℕ → Except E MinerDetails) (owners : ℕ → Owners) (readAt : ℕ → ℕ)
    (attempts : ℕ) (awaited : Owners → Prop) : Prop :=
  ∃ n < attempts, (∀ i ≤ n, ∃ shown, details i = .ok shown) ∧ awaited (owners (readAt n))

variable {details : ℕ → Except E MinerDetails} {owners : ℕ → Owners} {readAt : ℕ → ℕ}

theorem exists_pollUntil_ok_iff (hshows : Shows details owners readAt) {fromString : String → E'}
    {fetch : ℕ → Except E' MinerDetails} (hfetch : ∀ i d, fetch i = .ok d ↔ details i = .ok d)
    {predicate : MinerDetails → Bool} {awaited : Owners → Prop}
    (hpredicate : ∀ owners, predicate (detailsOf owners) = true ↔ awaited owners)
    {maxAttempts : Option UInt32} :
    (∃ d, (pollUntil fromString fetch predicate maxAttempts).1 = .ok d) ↔
      Reaches details owners readAt (maxAttempts.getD 100).toNat awaited := by
  simp only [exists_pollUntil_eq_ok_iff, hfetch]
  constructor
  · rintro ⟨n, hn, hbefore, shown, hread, hshown⟩
    refine ⟨n, hn, fun i hi ↦ ?_, ?_⟩
    · obtain hi | rfl := Nat.lt_or_eq_of_le hi
      · exact hbefore i hi
      · exact ⟨shown, hread⟩
    · rw [← hpredicate, ← hshows n shown hread]
      exact hshown
  · rintro ⟨n, hn, hreads, hawaited⟩
    obtain ⟨shown, hread⟩ := hreads n le_rfl
    refine ⟨n, hn, fun i hi ↦ hreads i hi.le, shown, hread, ?_⟩
    rw [hshows n shown hread, hpredicate]
    exact hawaited

end

section

variable {steps : Steps} {owners : ℕ → Owners} {readAt : ℕ → ℕ} {clientAppId : String}

theorem waitDetails_eq_ok_iff (hshows : Shows steps.details owners readAt) {op what : String}
    {predicate : MinerDetails → Bool} {awaited : Owners → Prop}
    (hpredicate : ∀ owners, predicate (detailsOf owners) = true ↔ awaited owners)
    {maxAttempts : Option UInt32} :
    (waitDetails steps op what predicate maxAttempts).result = .ok () ↔
      Reaches steps.details owners readAt (maxAttempts.getD 100).toNat awaited := by
  rw [waitDetails, Reporting.bind_result_eq_ok_iff]
  simp only [Reporting.liftM_result, inContext_eq_ok_iff, Reporting.pure_result, and_true]
  exact exists_pollUntil_ok_iff hshows (fun i d ↦ inContext_eq_ok_iff) hpredicate

/-- What a call does before it waits, with the ids of its messages. -/
def Submitted (steps : Steps) (op encodeName : String) (signerKeys : KeyPair)
    (epkExpireAt : Option UInt64) (message : Except AppError String) (ids : List String) : Prop :=
  ∃ minerAddress expireAt, prepareCall steps signerKeys epkExpireAt = .ok (minerAddress, expireAt) ∧
    (submitToMiner steps op encodeName minerAddress expireAt signerKeys message).result = .ok ids

def SubmittedSet (steps : Steps) (clientAppId : String) (params : ParamsOfSetMiningKeys)
    (ids : List String) : Prop :=
  Submitted steps "set_mining_keys" "set_owner_public_message" params.signerKeys
    params.epkExpireAt (steps.setOwnerPublicMessage
      ⟨"0x" ++ params.miningPubkey, appIdOf clientAppId params.appId⟩) ids

def SubmittedDel (steps : Steps) (clientAppId : String) (params : ParamsOfDelMiningKey)
    (ids : List String) : Prop :=
  Submitted steps "del_mining_key" "remove_owner_public_message" params.signerKeys
    params.epkExpireAt (steps.removeOwnerPublicMessage (appIdOf clientAppId params.appId)) ids

theorem submitted_iff {op encodeName : String} {signerKeys : KeyPair} {epkExpireAt : Option UInt64}
    {message : Except AppError String} {ids : List String} {f : AppError → AppError}
    {rest : List String → Reporting Message AppError (List String)} {p : Prop}
    (hrest : ∀ ids ids', (rest ids).result = .ok ids' ↔ ids = ids' ∧ p) :
    (do
      let (minerAddress, expireAt) ← prepareCall steps signerKeys epkExpireAt
      Reporting.mapError f (submitToMiner steps op encodeName minerAddress expireAt signerKeys
        message >>= rest) : Reporting Message AppError (List String)).result = .ok ids ↔
      Submitted steps op encodeName signerKeys epkExpireAt message ids ∧ p := by
  simp only [Reporting.bind_result_eq_ok_iff, Reporting.liftM_result, Prod.exists,
    Reporting.mapError_result_eq_ok_iff, hrest]
  constructor
  · rintro ⟨minerAddress, expireAt, hprepare, _, hsubmit, rfl, hp⟩
    exact ⟨⟨minerAddress, expireAt, hprepare, hsubmit⟩, hp⟩
  · rintro ⟨⟨minerAddress, expireAt, hprepare, hsubmit⟩, hp⟩
    exact ⟨minerAddress, expireAt, hprepare, ids, hsubmit, rfl, hp⟩

theorem waited_iff {wait : Reporting Message AppError Unit} {p : Prop}
    (hwait : wait.result = .ok () ↔ p) (ids ids' : List String) :
    (do
      wait
      return ids : Reporting Message AppError (List String)).result = .ok ids' ↔
      ids = ids' ∧ p := by
  rw [Reporting.bind_result_eq_ok_iff, ← hwait]
  simp only [Reporting.pure_result, Except.ok.injEq]
  constructor
  · rintro ⟨_, hresult, rfl⟩
    exact ⟨rfl, hresult⟩
  · rintro ⟨rfl, hresult⟩
    exact ⟨(), hresult, rfl⟩

/-- Setting a key succeeds exactly if the transaction is submitted, both texts are in
normal form, and a read then finds the key. -/
theorem setMiningKeys_eq_ok_iff (hshows : Shows steps.details owners readAt)
    {params : ParamsOfSetMiningKeys} {ids : List String} :
    (setMiningKeys steps clientAppId params).result = .ok ids ↔
      SubmittedSet steps clientAppId params ids ∧
        ∃ a k, appIdOf clientAppId params.appId = uint256Text a ∧
          params.miningPubkey = digitsText k ∧
            Reaches steps.details owners readAt 200 fun owners ↦ owners.lookup a = some k := by
  have hwait : (waitDetails steps "set_mining_keys" "wait owner_public set"
      (hasOwnerPublic (appIdOf clientAppId params.appId) ("0x" ++ params.miningPubkey))
      (some 200)).result = .ok () ↔ Reaches steps.details owners readAt 200 fun owners ↦ ∃ a k,
        appIdOf clientAppId params.appId = uint256Text a ∧ params.miningPubkey = digitsText k ∧
          owners.lookup a = some k :=
    waitDetails_eq_ok_iff hshows fun owners ↦ hasOwnerPublic_iff
  rw [setMiningKeys]
  refine (submitted_iff (waited_iff hwait)).trans (and_congr_right fun _ ↦ ?_)
  constructor
  · rintro ⟨n, hn, hreads, a, k, happ, hkey, hlookup⟩
    exact ⟨a, k, happ, hkey, n, hn, hreads, hlookup⟩
  · rintro ⟨a, k, happ, hkey, n, hn, hreads, hlookup⟩
    exact ⟨n, hn, hreads, a, k, happ, hkey, hlookup⟩

/-- Removing a key succeeds exactly if the transaction is submitted and, for a call that
waits, a read does not find a key: as for every id that is not in normal form. -/
theorem delMiningKey_eq_ok_iff (hshows : Shows steps.details owners readAt)
    {params : ParamsOfDelMiningKey} {ids : List String} :
    (delMiningKey steps clientAppId params).result = .ok ids ↔
      SubmittedDel steps clientAppId params ids ∧
        (params.wait = true → Reaches steps.details owners readAt 100 fun owners ↦
          ∀ a, appIdOf clientAppId params.appId = uint256Text a → owners.lookup a = none) := by
  have hwait : (waitDetails steps "del_mining_key" "wait owner_public removal"
      (lacksOwnerPublic (appIdOf clientAppId params.appId)) none).result = .ok () ↔
        Reaches steps.details owners readAt 100 fun owners ↦
          ∀ a, appIdOf clientAppId params.appId = uint256Text a → owners.lookup a = none :=
    waitDetails_eq_ok_iff hshows fun owners ↦ lacksOwnerPublic_iff
  rw [delMiningKey]
  refine submitted_iff fun ids ids' ↦ ?_
  cases params.wait with
  | true =>
      rw [if_pos rfl, imp_iff_right rfl]
      exact waited_iff hwait ids ids'
  | false => simp

/-! ## What is sent -/

theorem mem_submitToMiner {op encodeName minerAddress : String} {epkExpireAt : UInt64}
    {signer signer' : KeyPair} {message : Except AppError String}
    {transaction : ParamsOfSubmitTransaction}
    (h : .submitTransaction transaction signer' ∈
      (submitToMiner steps op encodeName minerAddress epkExpireAt signer message).events) :
    (∃ whiteList, transaction.dest ∈ whiteList ∧
      (steps.whitelist.read = .ok whiteList ∨
        ∃ n, steps.whitelist.readUpdated n = .ok whiteList)) ∧
      message = .ok transaction.payload ∧ signer' = signer := by
  simp only [submitToMiner, Reporting.mem_events_bind_iff, Reporting.liftM_events,
    Reporting.liftM_result, Reporting.mapError_events, Reporting.mapError_result_eq_ok_iff,
    inContext_eq_ok_iff, events_sendMessage, Reporting.pure_events, List.not_mem_nil, false_or,
    and_false, exists_false, or_false, List.mem_singleton, List.mem_map, reduceCtorEq] at h
  obtain ⟨mirror, -, ids, hlisted, msg, hmsg, hsent⟩ := h
  obtain ⟨rfl, rfl⟩ := Message.submitTransaction.inj hsent
  exact ⟨Whitelist.listed_of_result hlisted, hmsg, rfl⟩

/-- The whitelist has been read with the miner on it. -/
def Listed (steps : Steps) (minerAddress : String) : Prop :=
  ∃ whiteList, minerAddress ∈ whiteList ∧
    (steps.whitelist.read = .ok whiteList ∨ ∃ n, steps.whitelist.readUpdated n = .ok whiteList)

@[simp] theorem events_waitDetails {op what : String} {predicate : MinerDetails → Bool}
    {maxAttempts : Option UInt32} :
    (waitDetails steps op what predicate maxAttempts).events = [] := by
  rw [waitDetails, Reporting.bind_pure_events]
  rfl

theorem mem_setMiningKeys {params : ParamsOfSetMiningKeys}
    {transaction : ParamsOfSubmitTransaction} {signer : KeyPair}
    (h : .submitTransaction transaction signer ∈ (setMiningKeys steps clientAppId params).events) :
    Listed steps transaction.dest ∧ signer = params.signerKeys ∧
      steps.setOwnerPublicMessage ⟨"0x" ++ params.miningPubkey, appIdOf clientAppId params.appId⟩ =
        .ok transaction.payload := by
  simp only [setMiningKeys, Cmd.setMiningKeys, Reporting.mem_events_bind_iff,
    Reporting.liftM_events, Reporting.mapError_events, events_waitDetails, Reporting.pure_events,
    List.not_mem_nil, false_or, and_false, exists_false, or_false] at h
  obtain ⟨_, -, hsubmit⟩ := h
  obtain ⟨hlisted, hpayload, hsigner⟩ := mem_submitToMiner hsubmit
  exact ⟨hlisted, hsigner, hpayload⟩

theorem mem_delMiningKey {params : ParamsOfDelMiningKey}
    {transaction : ParamsOfSubmitTransaction} {signer : KeyPair}
    (h : .submitTransaction transaction signer ∈ (delMiningKey steps clientAppId params).events) :
    Listed steps transaction.dest ∧ signer = params.signerKeys ∧
      steps.removeOwnerPublicMessage (appIdOf clientAppId params.appId) =
        .ok transaction.payload := by
  simp only [delMiningKey, Cmd.delMiningKey, Reporting.mem_events_bind_iff,
    Reporting.liftM_events, Reporting.mapError_events, List.not_mem_nil, false_or] at h
  obtain ⟨_, -, hsubmit | ⟨ids, -, hwait⟩⟩ := h
  · obtain ⟨hlisted, hpayload, hsigner⟩ := mem_submitToMiner hsubmit
    exact ⟨hlisted, hsigner, hpayload⟩
  · cases hparams : params.wait <;>
      simp [hparams, Reporting.mem_events_bind_iff] at hwait

/-! ## Every call -/

/-- What a wallet's calls send and when they succeed, while the miner changes. -/
structure Confirms (steps : Steps) (owners : ℕ → Owners) (readAt : ℕ → ℕ) (clientAppId : String) :
    Prop where
  set : ∀ params ids, (setMiningKeys steps clientAppId params).result = .ok ids ↔
    SubmittedSet steps clientAppId params ids ∧
      ∃ a k, appIdOf clientAppId params.appId = uint256Text a ∧
        params.miningPubkey = digitsText k ∧
          Reaches steps.details owners readAt 200 fun owners ↦ owners.lookup a = some k
  /-- An id that is not in normal form is found to have no key. -/
  del : ∀ params ids, (delMiningKey steps clientAppId params).result = .ok ids ↔
    SubmittedDel steps clientAppId params ids ∧
      (params.wait = true → Reaches steps.details owners readAt 100 fun owners ↦
        ∀ a, appIdOf clientAppId params.appId = uint256Text a → owners.lookup a = none)
  /-- A transaction goes to a miner that is listed. -/
  listed : ∀ transaction signer,
    ((∃ params, .submitTransaction transaction signer ∈
        (setMiningKeys steps clientAppId params).events) ∨
      ∃ params, .submitTransaction transaction signer ∈
        (delMiningKey steps clientAppId params).events) → Listed steps transaction.dest

/-- The wallet reports what the miner shows, whatever other calls do to it. -/
theorem confirms_of_shows (hshows : Shows steps.details owners readAt) :
    Confirms steps owners readAt clientAppId := by
  refine ⟨fun params ids ↦ setMiningKeys_eq_ok_iff hshows,
    fun params ids ↦ delMiningKey_eq_ok_iff hshows, ?_⟩
  rintro transaction signer (⟨params, h⟩ | ⟨params, h⟩)
  · exact (mem_setMiningKeys h).1
  · exact (mem_delMiningKey h).1

end

/-! ## One key for both sides -/

section

variable {a k : Uint256} {appId ownerPublic appId' ownerPublic' : String}

theorem ensureMiningKeysPropagated_eq_ok_iff {details : ℕ → Except String MinerDetails}
    {owners : ℕ → Owners} {readAt : ℕ → ℕ} (hshows : Shows details owners readAt)
    {maxAttempts : Option UInt32} {awaited : Owners → Prop}
    (hpredicate : ∀ owners, isPropagated appId ownerPublic (detailsOf owners) = true ↔
      awaited owners) :
    ensureMiningKeysPropagated details appId ownerPublic maxAttempts = .ok () ↔
      Reaches details owners readAt (maxAttempts.getD 100).toNat awaited := by
  rw [ensureMiningKeysPropagated, Outcome.map_eq_ok_iff]
  simp only [and_true]
  exact exists_pollUntil_ok_iff hshows (fun i d ↦ Outcome.mapError_eq_ok_iff) hpredicate

/-- The wallet and the application wait for one entry of the miner. -/
structure Agree (appId ownerPublic appId' ownerPublic' : String) (a k : Uint256) : Prop where
  set : ∀ steps owners readAt clientAppId params ids, Shows steps.details owners readAt →
    params.appId = appId' → params.miningPubkey = ownerPublic' →
      ((setMiningKeys steps clientAppId params).result = .ok ids ↔
        SubmittedSet steps clientAppId params ids ∧
          Reaches steps.details owners readAt 200 fun owners ↦ owners.lookup a = some k)
  del : ∀ steps owners readAt clientAppId params ids, Shows steps.details owners readAt →
    params.appId = appId' →
      ((delMiningKey steps clientAppId params).result = .ok ids ↔
        SubmittedDel steps clientAppId params ids ∧ (params.wait = true →
          Reaches steps.details owners readAt 100 fun owners ↦ owners.lookup a = none))
  ensure : ∀ details owners readAt maxAttempts, Shows details owners readAt →
    ∀ expected ∈ [ownerPublic, ownerPublic'],
      (ensureMiningKeysPropagated details appId' expected maxAttempts = .ok () ↔
        Reaches details owners readAt (maxAttempts.getD 100).toNat fun owners ↦
          owners.lookup a = some k)
  /-- The id is not found as it was spelled, unless that is its normal form. -/
  spelled : ∀ details owners readAt maxAttempts, Shows details owners readAt →
    (ensureMiningKeysPropagated details appId ownerPublic maxAttempts = .ok () ↔
      appId = appId' ∧ Reaches details owners readAt (maxAttempts.getD 100).toNat fun owners ↦
        owners.lookup a = some k)

theorem isPropagated_iff_of_unique (happId : ∀ a', appId = uint256Text a' → a' = a)
    (hexpected : normalizeOwnerPublicForCompare ownerPublic = uint256Text k) (owners : Owners) :
    isPropagated appId ownerPublic (detailsOf owners) = true ↔
      appId = uint256Text a ∧ owners.lookup a = some k := by
  rw [isPropagated_iff, hexpected]
  constructor
  · rintro ⟨a', k', rfl, hkeys, hlookup⟩
    obtain rfl := happId a' rfl
    obtain rfl := uint256Text_injective hkeys
    exact ⟨rfl, hlookup⟩
  · rintro ⟨rfl, hlookup⟩
    exact ⟨a, k, rfl, rfl, hlookup⟩

theorem appIdOf_uint256Text (clientAppId : String) (a : Uint256) :
    appIdOf clientAppId (uint256Text a) = uint256Text a := by
  rw [appIdOf, if_neg]
  rw [uint256Text, String.isEmpty_iff, String.append_eq_empty_iff]
  exact fun h ↦ absurd h.1 (by decide)

theorem agree_of_texts (ha : AppIds.Denotes appId a.toNat)
    (hkey : Text.toAsciiLowercase (stripHexPrefix ownerPublic) = digitsText k) :
    Agree appId ownerPublic (uint256Text a) (digitsText k) a k := by
  have hself (a' : Uint256) (h : uint256Text a = uint256Text a') : a' = a :=
    (uint256Text_injective h).symm
  have hspelled (a' : Uint256) (h : appId = uint256Text a') : a' = a := by
    obtain ⟨digits, hdigits, hnumber⟩ := ha
    apply BitVec.eq_of_toNat_eq
    rw [← hnumber, ← hdigits.toList_stripHexPrefix, h, stripHexPrefix_uint256Text,
      number_digitsText]
  have hraw : normalizeOwnerPublicForCompare ownerPublic = uint256Text k := by
    rw [normalizeOwnerPublicForCompare, hkey, uint256Text]
  have hnormal : normalizeOwnerPublicForCompare (digitsText k) = uint256Text k := by
    rw [normalizeOwnerPublicForCompare, stripHexPrefix_digitsText, toAsciiLowercase_digitsText,
      uint256Text]
  constructor
  · intro steps owners readAt clientAppId params ids hshows happ hpubkey
    rw [setMiningKeys_eq_ok_iff hshows, happ, hpubkey, appIdOf_uint256Text]
    refine and_congr_right fun _ ↦ ⟨?_, fun h ↦ ⟨a, k, rfl, rfl, h⟩⟩
    rintro ⟨a', k', happ', hkey', hreaches⟩
    obtain rfl := hself a' happ'
    obtain rfl := digitsText_injective hkey'
    exact hreaches
  · intro steps owners readAt clientAppId params ids hshows happ
    rw [delMiningKey_eq_ok_iff hshows, happ, appIdOf_uint256Text]
    have hawaited (owners : Owners) :
        (∀ a', uint256Text a = uint256Text a' → owners.lookup a' = none) ↔
          owners.lookup a = none :=
      ⟨fun h ↦ h a rfl, fun h a' ha' ↦ hself a' ha' ▸ h⟩
    simp only [hawaited]
  · intro details owners readAt maxAttempts hshows expected hexpected
    have hexpected : normalizeOwnerPublicForCompare expected = uint256Text k := by
      simp only [List.mem_cons, List.not_mem_nil, or_false] at hexpected
      obtain rfl | rfl := hexpected
      · exact hraw
      · exact hnormal
    refine ensureMiningKeysPropagated_eq_ok_iff hshows fun owners ↦ ?_
    rw [isPropagated_iff_of_unique hself hexpected, and_iff_right rfl]
  · intro details owners readAt maxAttempts hshows
    rw [ensureMiningKeysPropagated_eq_ok_iff hshows (isPropagated_iff_of_unique hspelled hraw)]
    constructor
    · rintro ⟨n, hn, hreads, happ, hlookup⟩
      exact ⟨happ, n, hn, hreads, hlookup⟩
    · rintro ⟨happ, n, hn, hreads, hlookup⟩
      exact ⟨n, hn, hreads, happ, hlookup⟩

end

/-- Both sides take a request for one application and key, and all calls about it wait for
the same entry of the miner. -/
theorem keys_agree {appId ownerPublic appId' ownerPublic' : String} {body : Value F}
    (h : requestBody appId ownerPublic = .ok (body, appId', ownerPublic')) :
    MessageFinders.readMiningKeys body = some ⟨appId', ownerPublic'⟩ ∧
      ∃ a k : Uint256, AppIds.Denotes appId a.toNat ∧
        HexNumber.number (stripHexPrefix ownerPublic).toList = k.toNat ∧
          Agree appId ownerPublic appId' ownerPublic' a k := by
  simp only [requestBody, Outcome.bind_eq_ok_iff] at h
  obtain ⟨_, happ, _, hkey, hr⟩ := h
  obtain ⟨rfl, rfl, rfl⟩ : _ = body ∧ _ = appId' ∧ _ = ownerPublic' := by
    simpa using Except.ok.inj hr
  obtain ⟨a, ha, rfl⟩ := normalizeUint256Hex_eq_uint256Text happ
  obtain ⟨k, hk, hlower, rfl⟩ := normalizeOwnerPublicHex_eq_digitsText hkey
  refine ⟨?_, a, k, ha, hk, agree_of_texts ha hlower.symm⟩
  rw [readMiningKeys_body, normalizeMiningKeys, SessionCreation.normalizeUint256Hex_idem happ,
    normalizeOwnerPublicHex_digitsText]

/-! ## A key in capitals -/

def capitalKey : String := "0X" ++ .ofList (List.replicate 64 'A')

theorem requestBody_capital : requestBody (F := Empty) "0x1" capitalKey =
    .ok (.object (.ofList [("app_id", .str ("0x" ++ .ofList (List.replicate 63 '0') ++ "1")),
        ("owner_public", .str (.ofList (List.replicate 64 'a')))]),
      "0x" ++ .ofList (List.replicate 63 '0') ++ "1", .ofList (List.replicate 64 'a')) := by
  rfl

theorem keys_agree_capital : ∃ a k : Uint256, HexNumber.number (stripHexPrefix capitalKey).toList =
    k.toNat ∧ Agree "0x1" capitalKey ("0x" ++ .ofList (List.replicate 63 '0') ++ "1")
      (.ofList (List.replicate 64 'a')) a k := by
  obtain ⟨-, a, k, -, hk, hagree⟩ := keys_agree requestBody_capital
  exact ⟨a, k, hk, hagree⟩

/-- The miner is listed, and then shows the key of the first application. -/
def exampleSteps : Steps where
  resolveMiner := .ok "0:miner"
  isDeployed := true
  getEpkExpireAt _ := .ok 2
  minerContract := .other 3
  resolveMirror := .ok ⟨"0:mirror", 1⟩
  whitelist := { Whitelist.exampleSteps with read := .ok {"0:miner"} }
  setOwnerPublicMessage _ := .ok "payload"
  removeOwnerPublicMessage _ := .ok "payload"
  submitTransaction := .ok ⟨some "hash", none, none⟩
  details i := .ok (detailsOf (if i < 3 then [] else [(1, 2)]))

theorem confirms_example :
    Confirms exampleSteps (fun t ↦ if t < 3 then [] else [(1, 2)]) id (uint256Text 1) :=
  confirms_of_shows fun _ _ hread ↦ (Except.ok.inj hread).symm

end MiningKeys

end BeeEngine
