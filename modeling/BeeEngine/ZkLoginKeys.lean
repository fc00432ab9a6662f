import BeeEngine.AddressSeed
import BeeEngine.Lib.Base64
import BeeEngine.Lib.Bech32
import BeeEngine.Lib.Json

/-!
# Ephemeral keys of a login

`prepare_zk_login_with_inputs` makes a nonce of an ephemeral key, and
`zk_login_complete_local_prepare` sends the key to the prover.  Each reads the
key from its own copy of the decoder.
-/

namespace BeeEngine

open Outcome

/-- Base64 with padding, of which the alphabet ends in `+` and `/`. -/
def Base64.encodeStandard (bs : Bytes) : String :=
  let cs := (encodeChars bs).map fun c ↦ if c = '-' then '+' else if c = '_' then '/' else c
  .ofList (cs ++ List.replicate ((4 - cs.length % 4) % 4) '=')

namespace ZkLogin

def suiPrivateKeyPrefix : String := "suiprivkey"
def suiEd25519Flag : UInt8 := 0x00

/-- What the `bech32` crate does.  Reading undoes writing, for the prefix of
private keys. -/
structure Bech32Crate where
  encode : String → List Bech32.Word → Bech32.Variant → Except String String
  decode : String → Except String (String × List Bech32.Word × Bech32.Variant)
  toBase32 : Bytes → List Bech32.Word
  fromBase32 : List Bech32.Word → Except String Bytes
  decode_of_encode : ∀ {words variant text}, encode suiPrivateKeyPrefix words variant = .ok text →
    decode text = .ok (suiPrivateKeyPrefix, words, variant)
  fromBase32_toBase32 : ∀ bs, fromBase32 (toBase32 bs) = .ok bs

/-- The public key that `ed25519_dalek` makes of a seed. -/
abbrev VerifyingKey := Bytes32 → Bytes32

variable (bech32 : Bech32Crate) (verifyingKey : VerifyingKey) (tables : PoseidonTables)
  (reader : DecimalReader)

/-! ## Preparing a login -/

namespace Prepare

def nonceBytesLen : ℕ := 20
def nonceLenB64urlNoPad : ℕ := 27

def encodeSuiPrivateKeyEd25519 (seed : Bytes32) : Except AppError String :=
  let bytes := suiEd25519Flag :: seed.bytes
  (bech32.encode suiPrivateKeyPrefix (bech32.toBase32 bytes) .bech32).mapError fun e ↦
    .new ("Encode suiprivkey bech32 (" ++ e ++ ")")

def decodeSuiPrivateKeyEd25519 (value : String) : Except AppError Bytes32 := do
  let (hrp, words, _) ← (bech32.decode value).mapError fun e ↦
    .new ("Decode suiprivkey bech32 (" ++ e ++ ")")
  if hrp ≠ suiPrivateKeyPrefix then .error (.new ("Invalid suiprivkey prefix: " ++ hrp))
  else do
    let bytes ← (bech32.fromBase32 words).mapError fun e ↦
      .new ("Decode suiprivkey words (" ++ e ++ ")")
    if hlength : bytes.length ≠ 33 then
      .error (.new ("Invalid suiprivkey length: expected 33 bytes, got " ++
        toString bytes.length))
    else if bytes.head? ≠ some suiEd25519Flag then
      .error (.new ("Invalid suiprivkey scheme flag: expected " ++ toString suiEd25519Flag ++
        ", got " ++ toString (bytes.headD 0)))
    else .ok ⟨bytes.drop 1, by rw [List.length_drop, not_not.mp hlength]⟩

def parseBiguintDecimal (value : String) : Except Failure ℕ :=
  match reader.parseBytes value with
  | some n => .ok n
  | none => .error (.error
      ((AppError.new ("Invalid decimal bigint: " ++ value)).withKind "zk_login_prepare"))

def buildZkLoginNonce (suiPublicKeyBytes : Bytes) (maxEpoch : UInt64) (randomness : String) :
    Except Failure String := do
  let publicKeyAsBigint := Bytes.ofBeBytes suiPublicKeyBytes
  let splitBase := 1 <<< 128
  let ephPublicKey0 := publicKeyAsBigint / splitBase
  let ephPublicKey1 := publicKeyAsBigint % splitBase
  let randomness ← parseBiguintDecimal reader randomness
  let hash ← poseidonLiteHash4 tables.constants4
    #v[ephPublicKey0, ephPublicKey1, maxEpoch.toNat, randomness]
  let nonce := Base64.encode (toBigEndianFixedLen hash nonceBytesLen)
  if nonce.utf8ByteSize ≠ nonceLenB64urlNoPad then
    .error (.error ((AppError.new ("Invalid nonce length " ++ toString nonce.utf8ByteSize ++
      " (expected " ++ toString nonceLenB64urlNoPad ++ ")")).withKind "zk_login_prepare"))
  else return nonce

structure ZkLoginPrepareDeterministicInput where
  maxEpoch : UInt64
  randomness : String
  privateKeySuiBech32 : String

structure ZkLoginPrepareResult where
  nonce : String
  maxEpoch : UInt64
  randomness : String
  ephemeralPrivateKey : String

def prepareZkLoginWithInputs (input : ZkLoginPrepareDeterministicInput) :
    Except Failure ZkLoginPrepareResult := do
  let seed ← (decodeSuiPrivateKeyEd25519 bech32 input.privateKeySuiBech32).mapError .error
  let suiPublicKeyBytes := suiEd25519Flag :: (verifyingKey seed).bytes
  let nonce ← buildZkLoginNonce tables reader suiPublicKeyBytes input.maxEpoch input.randomness
  if (Base64.decode nonce).isNone then
    .error (.error ((AppError.new "Generated nonce is not valid base64url-no-pad").withKind
      "zk_login_prepare"))
  else return ⟨nonce, input.maxEpoch, input.randomness, input.privateKeySuiBech32⟩

end Prepare

/-! ## Completing a login -/

def decodeSuiPrivateKeyEd25519 (value : String) : Except AppError Bytes32 := do
  let (hrp, words, _) ← (bech32.decode value).mapError fun e ↦
    .new ("Decode suiprivkey bech32 (" ++ e ++ ")")
  if hrp ≠ suiPrivateKeyPrefix then .error (.new ("Invalid suiprivkey prefix: " ++ hrp))
  else do
    let bytes ← (bech32.fromBase32 words).mapError fun e ↦
      .new ("Decode suiprivkey words (" ++ e ++ ")")
    if h : bytes.length ≠ 33 ∨ bytes.head? ≠ some suiEd25519Flag then
      .error (.new "Invalid suiprivkey payload")
    else .ok ⟨bytes.drop 1, by rw [List.length_drop, not_not.mp (not_or.mp h).1]⟩

structure ZkLoginTempData where
  maxEpoch : UInt64
  randomness : String
  ephemeralPrivateKey : String

structure ZkLoginCompleteLocalPrepareParams where
  savedData : ZkLoginTempData
  jwt : String
  jwtSub : String
  jwtAud : String
  userPassword : String

structure ZkLoginCompleteLocalPrepareResult where
  zkid : String
  payload : String
  maxEpoch : UInt64
  ephemeralPrivateKey : String
  extendedEphemeralPublicKey : String
  ephemeralPublicKeyInHex : String
  ephemeralSecretKeyInHex : String

variable {F : Type} {serde : SerdeJson F} (writer : serde.StructWriter)

/-- The fields of the payload for the prover. -/
def proverPayload (params : ZkLoginCompleteLocalPrepareParams)
    (extendedEphemeralPublicKey salt : String) : List (String × Json.Value F) :=
  [("jwt", .str params.jwt), ("maxEpoch", .u64 params.savedData.maxEpoch),
    ("jwtRandomness", .str params.savedData.randomness),
    ("extendedEphemeralPublicKey", .str extendedEphemeralPublicKey), ("salt", .str salt),
    ("keyClaimName", .str "sub")]

def zkLoginCompleteLocalPrepare (params : ZkLoginCompleteLocalPrepareParams) :
    Except Failure ZkLoginCompleteLocalPrepareResult := do
  let userSaltDec := formatPwdToInt params.userPassword
  let userSalt ← parseBiguintDecimal reader userSaltDec
  let zkid ← genAddressSeed tables userSalt "sub" params.jwtSub params.jwtAud
  let seed ← (decodeSuiPrivateKeyEd25519 bech32 params.savedData.ephemeralPrivateKey).mapError
    .error
  let publicKeyRaw := (verifyingKey seed).bytes
  let suiPublicKeyBytes := suiEd25519Flag :: publicKeyRaw
  let extendedEphemeralPublicKey := Base64.encodeStandard suiPublicKeyBytes
  let payload := writer.toString (proverPayload params extendedEphemeralPublicKey userSaltDec)
  return {
    zkid := toString zkid
    payload
    maxEpoch := params.savedData.maxEpoch
    ephemeralPrivateKey := params.savedData.ephemeralPrivateKey
    extendedEphemeralPublicKey
    ephemeralPublicKeyInHex := Bytes.hexEncode publicKeyRaw
    ephemeralSecretKeyInHex := Bytes.hexEncode seed.bytes }

/-! ## The decoders -/

/-- The text carries the flag and the seed. -/
def Carries (value : String) (seed : Bytes32) : Prop :=
  ∃ words variant, bech32.decode value = .ok (suiPrivateKeyPrefix, words, variant) ∧
    bech32.fromBase32 words = .ok (suiEd25519Flag :: seed.bytes)

variable {bech32 verifyingKey tables reader} {value : String} {seed : Bytes32}

theorem eq_flag_cons {bytes : Bytes} (hlength : bytes.length = 33)
    (hflag : bytes.head? = some suiEd25519Flag) : bytes = suiEd25519Flag :: bytes.drop 1 := by
  cases bytes with
  | nil => cases hlength
  | cons b bytes =>
      obtain rfl := Option.some.inj hflag
      rfl

theorem prepare_decode_eq_ok_iff :
    Prepare.decodeSuiPrivateKeyEd25519 bech32 value = .ok seed ↔ Carries bech32 value seed := by
  simp only [Prepare.decodeSuiPrivateKeyEd25519, bind_eq_ok_iff, mapError_eq_ok_iff, Prod.exists]
  constructor
  · rintro ⟨hrp, words, variant, hdecode, h⟩
    split at h
    · cases h
    · rename_i hhrp
      obtain ⟨bytes, hbytes, h⟩ := bind_eq_ok_iff.mp h
      rw [mapError_eq_ok_iff] at hbytes
      split at h
      · cases h
      · rename_i hlength
        split at h
        · cases h
        · rename_i hflag
          obtain rfl := not_not.mp hhrp
          rw [eq_flag_cons (not_not.mp hlength) (not_not.mp hflag)] at hbytes
          obtain rfl := Except.ok.inj h
          exact ⟨words, variant, hdecode, hbytes⟩
  · rintro ⟨words, variant, hdecode, hbytes⟩
    refine ⟨_, words, variant, hdecode, ?_⟩
    rw [if_neg (not_not.mpr rfl)]
    refine bind_eq_ok_iff.mpr ⟨_, mapError_eq_ok_iff.mpr hbytes, ?_⟩
    have hlength : (suiEd25519Flag :: seed.bytes).length = 33 := by
      rw [List.length_cons, seed.length_eq]
    have hflag : (suiEd25519Flag :: seed.bytes).head? = some suiEd25519Flag := rfl
    rw [dif_neg (not_not.mpr hlength), if_neg (not_not.mpr hflag)]
    rfl

theorem decode_eq_ok_iff :
    decodeSuiPrivateKeyEd25519 bech32 value = .ok seed ↔ Carries bech32 value seed := by
  simp only [decodeSuiPrivateKeyEd25519, bind_eq_ok_iff, mapError_eq_ok_iff, Prod.exists]
  constructor
  · rintro ⟨hrp, words, variant, hdecode, h⟩
    split at h
    · cases h
    · rename_i hhrp
      obtain ⟨bytes, hbytes, h⟩ := bind_eq_ok_iff.mp h
      rw [mapError_eq_ok_iff] at hbytes
      split at h
      · cases h
      · rename_i hvalid
        obtain ⟨hlength, hflag⟩ := not_or.mp hvalid
        obtain rfl := not_not.mp hhrp
        rw [eq_flag_cons (not_not.mp hlength) (not_not.mp hflag)] at hbytes
        obtain rfl := Except.ok.inj h
        exact ⟨words, variant, hdecode, hbytes⟩
  · rintro ⟨words, variant, hdecode, hbytes⟩
    refine ⟨_, words, variant, hdecode, ?_⟩
    rw [if_neg (not_not.mpr rfl)]
    refine bind_eq_ok_iff.mpr ⟨_, mapError_eq_ok_iff.mpr hbytes, ?_⟩
    have hvalid : ¬((suiEd25519Flag :: seed.bytes).length ≠ 33 ∨
        (suiEd25519Flag :: seed.bytes).head? ≠ some suiEd25519Flag) := by
      rw [List.length_cons, seed.length_eq]
      simp
    rw [dif_neg hvalid]
    rfl

theorem decoders_agree (value : String) :
    (Prepare.decodeSuiPrivateKeyEd25519 bech32 value).toOption =
      (decodeSuiPrivateKeyEd25519 bech32 value).toOption := by
  apply Option.ext
  intro seed
  have htoOption (x : Except AppError Bytes32) : x.toOption = some seed ↔ x = .ok seed := by
    cases x <;> simp [Except.toOption]
  rw [htoOption, htoOption, prepare_decode_eq_ok_iff, decode_eq_ok_iff]

/-- What was encoded carries its seed. -/
theorem carries_of_encode (h : Prepare.encodeSuiPrivateKeyEd25519 bech32 seed = .ok value) :
    Carries bech32 value seed :=
  ⟨_, _, bech32.decode_of_encode (mapError_eq_ok_iff.mp h), bech32.fromBase32_toBase32 _⟩

/-! ## The nonce -/

theorem length_encodeChars (bs : Bytes) :
    (Base64.encodeChars bs).length = (4 * bs.length + 2) / 3 := by
  induction bs using Base64.encodeChars.induct with
  | case1 => rfl
  | case2 a => simp [Base64.encodeChars]
  | case3 a b => simp [Base64.encodeChars]
  | case4 a b c rest ih =>
      rw [Base64.encodeChars]
      simp only [List.length_cons, ih]
      omega

theorem toNat_of_isSome_digitVal {c : Char} (h : (Base64.digitVal c).isSome) : c.toNat < 128 := by
  rw [Base64.digitVal] at h
  split_ifs at h with hupper hlower hdigit hminus hunder
  · exact (Text.toNat_of_between hupper).2.trans_lt (by decide)
  · exact (Text.toNat_of_between hlower).2.trans_lt (by decide)
  · exact (Text.toNat_of_between hdigit).2.trans_lt (by decide)
  · rw [hminus]
    decide
  · rw [hunder]
    decide
  · cases h

theorem utf8ByteSize_encode (bs : Bytes) :
    (Base64.encode bs).utf8ByteSize = (4 * bs.length + 2) / 3 := by
  have hascii : ∀ c ∈ (Base64.encode bs).toList, c.toNat < 128 := by
    intro c hc
    rw [Base64.encode, String.toList_ofList] at hc
    exact toNat_of_isSome_digitVal
      (Base64.isSome_digitVal (Base64.decodeChars_encodeChars bs) c hc)
  rw [HexNumber.utf8ByteSize_of_ascii hascii, Base64.encode, String.length_ofList,
    length_encodeChars]

/-- Any number as randomness gives a nonce, which decodes. -/
theorem exists_buildZkLoginNonce (tables : PoseidonTables) {reader : DecimalReader} (bytes : Bytes)
    (maxEpoch : UInt64) {randomness : String} {n : ℕ} (h : reader.parseBytes randomness = some n) :
    ∃ nonce, Prepare.buildZkLoginNonce tables reader bytes maxEpoch randomness = .ok nonce ∧
      (Base64.decode nonce).isNone = false := by
  have hparse : Prepare.parseBiguintDecimal reader randomness = .ok n := by
    rw [Prepare.parseBiguintDecimal, h]
  let inputs := #v[Bytes.ofBeBytes bytes / 1 <<< 128, Bytes.ofBeBytes bytes % 1 <<< 128,
    maxEpoch.toNat, n]
  have hlength : inputs.toList.length = 4 := inputs.length_toList
  obtain ⟨hash, -, hhash⟩ := exists_poseidonLiteHash tables (.inr (.inr (.inl hlength)))
  rw [← poseidonLiteHash4_eq] at hhash
  have hsize : (Base64.encode (toBigEndianFixedLen hash Prepare.nonceBytesLen)).utf8ByteSize =
      Prepare.nonceLenB64urlNoPad := by
    rw [utf8ByteSize_encode, toBigEndianFixedLen_eq, Bytes.length_beBytes]
    rfl
  refine ⟨Base64.encode (toBigEndianFixedLen hash Prepare.nonceBytesLen), ?_, ?_⟩
  · rw [Prepare.buildZkLoginNonce]
    refine bind_eq_ok_iff.mpr ⟨n, hparse, bind_eq_ok_iff.mpr ⟨hash, hhash, ?_⟩⟩
    simp only [hsize, ne_eq, not_true_eq_false, if_false]
    rfl
  · rw [Base64.decode_encode]
    rfl

/-! ## Both ends -/

/-- The bytes of a public key, behind the flag. -/
def suiPublicKeyBytes (verifyingKey : VerifyingKey) (seed : Bytes32) : Bytes :=
  suiEd25519Flag :: (verifyingKey seed).bytes

theorem exists_prepare {maxEpoch : UInt64} {randomness : String} {n : ℕ}
    (hcarries : Carries bech32 value seed) (h : reader.parseBytes randomness = some n) :
    ∃ nonce, Prepare.buildZkLoginNonce tables reader (suiPublicKeyBytes verifyingKey seed) maxEpoch
        randomness = .ok nonce ∧
      Prepare.prepareZkLoginWithInputs bech32 verifyingKey tables reader
        ⟨maxEpoch, randomness, value⟩ = .ok ⟨nonce, maxEpoch, randomness, value⟩ := by
  obtain ⟨nonce, hnonce, hdecode⟩ :=
    exists_buildZkLoginNonce tables (suiPublicKeyBytes verifyingKey seed) maxEpoch h
  refine ⟨nonce, hnonce, ?_⟩
  rw [Prepare.prepareZkLoginWithInputs]
  refine bind_eq_ok_iff.mpr ⟨seed, mapError_eq_ok_iff.mpr (prepare_decode_eq_ok_iff.mpr hcarries),
    bind_eq_ok_iff.mpr ⟨nonce, hnonce, ?_⟩⟩
  rw [hdecode]
  rfl

/-- The key that the prover reads from a payload. -/
def readExtendedKey (v : Json.Value F) : Option String :=
  (v.get? "extendedEphemeralPublicKey").bind Json.Value.asStr?

theorem readExtendedKey_payload (params : ZkLoginCompleteLocalPrepareParams) (key salt : String) :
    serde.fromStr readExtendedKey (writer.toString (proverPayload params key salt)) = some key := by
  have hnames : ((proverPayload params key salt : List (String × Json.Value F)).map
      Prod.fst).Nodup := by
    simp [proverPayload]
  rw [writer.fromStr_toString _ hnames]
  simp [readExtendedKey, proverPayload, Json.Map.ofList]

/-- What the end of a login sends, once it has a salt and an address. -/
theorem complete_of_carries {params : ZkLoginCompleteLocalPrepareParams}
    {completed : ZkLoginCompleteLocalPrepareResult}
    (hcarries : Carries bech32 params.savedData.ephemeralPrivateKey seed)
    (h : zkLoginCompleteLocalPrepare bech32 verifyingKey tables reader writer params =
      .ok completed) :
    completed.extendedEphemeralPublicKey =
        Base64.encodeStandard (suiPublicKeyBytes verifyingKey seed) ∧
      serde.fromStr readExtendedKey completed.payload =
        some (Base64.encodeStandard (suiPublicKeyBytes verifyingKey seed)) := by
  rw [zkLoginCompleteLocalPrepare] at h
  obtain ⟨salt, -, h⟩ := bind_eq_ok_iff.mp h
  obtain ⟨zkid, -, h⟩ := bind_eq_ok_iff.mp h
  obtain ⟨seed', hseed, h⟩ := bind_eq_ok_iff.mp h
  rw [mapError_eq_ok_iff, decode_eq_ok_iff.mpr hcarries] at hseed
  obtain rfl := Except.ok.inj hseed
  obtain rfl := Except.ok.inj h
  exact ⟨rfl, readExtendedKey_payload writer _ _ _⟩

theorem exists_complete {params : ZkLoginCompleteLocalPrepareParams}
    (hcarries : Carries bech32 params.savedData.ephemeralPrivateKey seed)
    (hpassword : params.userPassword ≠ "")
    (hsub : params.jwtSub.utf8ByteSize ≤ maxKeyClaimValueLength)
    (haud : params.jwtAud.utf8ByteSize ≤ maxAudValueLength) :
    ∃ completed, zkLoginCompleteLocalPrepare bech32 verifyingKey tables reader writer params =
      .ok completed := by
  have hname : "sub".utf8ByteSize ≤ maxKeyClaimNameLength := by decide
  obtain ⟨salt, hsalt⟩ := exists_userSalt reader hpassword
  obtain ⟨zkid, -, hzkid⟩ := exists_genAddressSeed tables salt hname hsub haud
  exact ⟨_, bind_eq_ok_iff.mpr ⟨salt, hsalt, bind_eq_ok_iff.mpr ⟨zkid, hzkid,
    bind_eq_ok_iff.mpr ⟨seed, mapError_eq_ok_iff.mpr (decode_eq_ok_iff.mpr hcarries), rfl⟩⟩⟩⟩

/-- The hashes of both ends are one, their decoders agree and undo the encoder,
and the nonce commits to the key that the prover is sent. -/
theorem zkLogin_ends_agree (bech32 : Bech32Crate) (verifyingKey : VerifyingKey)
    (tables : PoseidonTables) (reader : DecimalReader) {serde : SerdeJson F}
    (writer : serde.StructWriter) :
    (∀ inputs : Vector ℕ 4, ∃ value < bn254FieldModulus,
      Prepare.poseidonLiteHash4 tables.constants4 inputs = .ok value ∧
      poseidonLiteHash tables inputs.toList = .ok value) ∧
    (∀ value, (Prepare.decodeSuiPrivateKeyEd25519 bech32 value).toOption =
      (decodeSuiPrivateKeyEd25519 bech32 value).toOption) ∧
    (∀ seed value, Prepare.encodeSuiPrivateKeyEd25519 bech32 seed = .ok value →
      Prepare.decodeSuiPrivateKeyEd25519 bech32 value = .ok seed) ∧
    (∀ seed value maxEpoch randomness n,
      Prepare.encodeSuiPrivateKeyEd25519 bech32 seed = .ok value →
      reader.parseBytes randomness = some n →
      ∃ prepared, Prepare.prepareZkLoginWithInputs bech32 verifyingKey tables reader
          ⟨maxEpoch, randomness, value⟩ = .ok prepared ∧
        Prepare.buildZkLoginNonce tables reader (suiPublicKeyBytes verifyingKey seed) maxEpoch
          randomness = .ok prepared.nonce ∧
        ∀ params : ZkLoginCompleteLocalPrepareParams,
          params.savedData =
            ⟨prepared.maxEpoch, prepared.randomness, prepared.ephemeralPrivateKey⟩ →
          (params.userPassword ≠ "" → params.jwtSub.utf8ByteSize ≤ maxKeyClaimValueLength →
            params.jwtAud.utf8ByteSize ≤ maxAudValueLength →
            ∃ completed, zkLoginCompleteLocalPrepare bech32 verifyingKey tables reader writer
              params = .ok completed) ∧
          ∀ completed, zkLoginCompleteLocalPrepare bech32 verifyingKey tables reader writer
              params = .ok completed →
            completed.extendedEphemeralPublicKey =
              Base64.encodeStandard (suiPublicKeyBytes verifyingKey seed) ∧
            serde.fromStr readExtendedKey completed.payload =
              some completed.extendedEphemeralPublicKey) := by
  refine ⟨fun inputs ↦ ?_, decoders_agree, fun seed value hencode ↦ ?_, ?_⟩
  · obtain ⟨value, hlt, hhash⟩ := exists_poseidonLiteHash tables
      (.inr (.inr (.inl inputs.length_toList)))
    exact ⟨value, hlt, by rw [poseidonLiteHash4_eq, hhash], hhash⟩
  · exact prepare_decode_eq_ok_iff.mpr (carries_of_encode hencode)
  · intro seed value maxEpoch randomness n hencode hread
    have hcarries := carries_of_encode hencode
    obtain ⟨nonce, hnonce, hprepare⟩ := exists_prepare hcarries hread
    refine ⟨_, hprepare, hnonce, fun params hsaved ↦ ?_⟩
    have hsaved' : Carries bech32 params.savedData.ephemeralPrivateKey seed := by rwa [hsaved]
    refine ⟨fun hpassword hsub haud ↦ exists_complete writer hsaved' hpassword hsub haud,
      fun completed hcomplete ↦ ?_⟩
    obtain ⟨hkey, hpayload⟩ := complete_of_carries writer hsaved' hcomplete
    exact ⟨hkey, by rw [hpayload, hkey]⟩

/-! ### A known key -/

/-- Bech32 in lower case. -/
def lowercaseBech32 : Bech32Crate where
  encode hrp words variant := .ok (Bech32.encode hrp words variant)
  decode text :=
    match Bech32.decode text with
    | some r => .ok r
    | none => .error "invalid checksum"
  toBase32 := Bech32.toBase32
  fromBase32 words :=
    match Bech32.fromBase32 words with
    | some bytes => .ok bytes
    | none => .error "invalid padding"
  decode_of_encode h := by
    obtain rfl := Except.ok.inj h
    rw [Bech32.decode_encode]
  fromBase32_toBase32 bs := by rw [Bech32.fromBase32_toBase32]

def knownSeed : Bytes32 where
  bytes := [0x10, 0x78, 0xba, 0x7c, 0x75, 0x52, 0xfb, 0xc5, 0xcf, 0x76, 0x04, 0x7f, 0xec, 0x8b,
    0xf0, 0x0e, 0xaf, 0xbc, 0x0e, 0x43, 0x86, 0xe0, 0x37, 0xda, 0xb3, 0x18, 0x53, 0xf1, 0x98, 0x1e,
    0x6f, 0xe5]
  length_eq := rfl

example : Prepare.encodeSuiPrivateKeyEd25519 lowercaseBech32 knownSeed =
    .ok "suiprivkey1qqg83wnuw4f0h3w0wcz8lmyt7q82l0qwgwrwqd76kvv98uvcreh72l8k3uv" := by
  decide +kernel

end ZkLogin

end BeeEngine
