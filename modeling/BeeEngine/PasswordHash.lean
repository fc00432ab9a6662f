import BeeEngine.KeyDerivation
import BeeEngine.Lib.Fields
import BeeEngine.Lib.Outcome
import BeeEngine.Lib.Pbkdf2

/-!
# Hashes of passwords

`random_salted_hash` and `verify_salted_hash`, which are written separately for
the native and for the wasm32 target, with their checks in another order.
-/

namespace BeeEngine

namespace PasswordHash

open Outcome

def pbkdf2RoundsV3 : ℕ := pbkdf2Iterations
def pbkdf2RoundsV2Legacy : ℕ := 100000
def dkLen : ℕ := 32
def saltLen : ℕ := 32

/-- The pieces between colons. -/
def split (envelope : String) : List String := (envelope.toList.splitOn ':').map String.ofList

/-- A field of bytes, with the messages for text that is not hexadecimal and for
another length. -/
def decodeField (len : ℕ) (hexError lengthError text : String) : Except AppError Bytes :=
  match Bytes.hexDecode text with
  | .error _ => .error (.new hexError)
  | .ok bs => if bs.length ≠ len then .error (.new lengthError) else .ok bs

def unknownVersion (version : String) : AppError := .new ("Unknown hash version: " ++ version)

/-! ## The native target -/

namespace Native

variable (pbkdf2 : Pbkdf2Hmac)

/-- The salt is what `getrandom` filled in, or its error. -/
def randomSaltedHash (saltBytes : Except String Bytes32) (data : String) :
    Except AppError String := do
  let saltBytes ← saltBytes.mapError fun e ↦ .new ("Failed to generate salt: " ++ e)
  let dk := pbkdf2 (Bytes.utf8 data) saltBytes.bytes pbkdf2RoundsV3
  return "v3:" ++ Bytes.hexEncode saltBytes.bytes ++ ":" ++ Bytes.hexEncode dk.bytes

def iterations (version : String) : Except AppError ℕ :=
  if version = "v3" then .ok pbkdf2RoundsV3
  else if version = "v2" then .ok pbkdf2RoundsV2Legacy
  else .error (unknownVersion version)

def verifySaltedHash (password envelope : String) : Except AppError Bool :=
  match split envelope with
  | [version, saltHex, dkHex] => do
      let iterations ← iterations version
      let saltBytes ← decodeField saltLen "Bad salt hex" "Bad salt length" saltHex
      let expected ← decodeField dkLen "Bad dk hex" "Bad dk length" dkHex
      let dk := pbkdf2 (Bytes.utf8 password) saltBytes iterations
      return dk.bytes == expected
  | _ => .error (.new "Bad format")

end Native

/-! ## The wasm32 target -/

namespace Wasm

variable (subtle : SubtleCrypto)

def randomSaltedHash (saltBytes : Except String Bytes32) (data : String) :
    Except AppError String := do
  let saltBytes ← saltBytes.mapError fun e ↦ .new ("Failed to generate salt: " ++ e)
  let dkHex ← BeeEngine.Wasm.deriveKeyPbkdf2WithRounds subtle (Bytes.utf8 data) saltBytes.bytes
    pbkdf2Iterations
  return "v3:" ++ Bytes.hexEncode saltBytes.bytes ++ ":" ++ dkHex

/-- The key of version `v2` is made by the crate, on this target too. -/
def derivedHex (pbkdf2 : Pbkdf2Hmac) (version : String) (password saltBytes : Bytes) :
    Except AppError String :=
  if version = "v3" then
    BeeEngine.Wasm.deriveKeyPbkdf2WithRounds subtle password saltBytes pbkdf2Iterations
  else if version = "v2" then
    .ok (Bytes.hexEncode (pbkdf2 password saltBytes pbkdf2RoundsV2Legacy).bytes)
  else .error (unknownVersion version)

def verifySaltedHash (pbkdf2 : Pbkdf2Hmac) (password envelope : String) : Except AppError Bool :=
  match split envelope with
  | [version, saltHex, dkHex] => do
      let saltBytes ← decodeField saltLen "Bad salt hex" "Bad salt length" saltHex
      let expected ← decodeField dkLen "Bad dk hex" "Bad dk length" dkHex
      let dkHex ← derivedHex subtle pbkdf2 version (Bytes.utf8 password) saltBytes
      let dkBytes ← (Bytes.hexDecode dkHex).mapError fun _ ↦ .new "Bad computed dk hex"
      return dkBytes == expected
  | _ => .error (.new "Bad format")

end Wasm

/-! ## What is claimed -/

/-- Three fields: a known version, and two hexadecimal texts of 32 bytes. -/
def WellFormed (envelope : String) : Prop :=
  ∃ version saltHex dkHex : String, envelope = version ++ ":" ++ saltHex ++ ":" ++ dkHex ∧
    (version = "v2" ∨ version = "v3") ∧ Bytes.IsHex 32 saltHex ∧ Bytes.IsHex 32 dkHex

/-- The fields of a well-formed envelope, with the bytes that they stand for. -/
structure Fields (envelope : String) (salt key : Bytes) : Prop where
  fields : ∃ version saltHex dkHex, split envelope = [version, saltHex, dkHex] ∧
    (version = "v2" ∨ version = "v3") ∧ Bytes.hexDecode saltHex = .ok salt ∧
    Bytes.hexDecode dkHex = .ok key
  salt : salt.length = 32
  key : key.length = 32

/-! ## Fields -/

theorem decodeField_eq_ok_iff {len : ℕ} {hexError lengthError text : String} {bs : Bytes} :
    decodeField len hexError lengthError text = .ok bs ↔
      Bytes.hexDecode text = .ok bs ∧ bs.length = len := by
  rw [decodeField]
  cases Bytes.hexDecode text with
  | error e => simp
  | ok bs' =>
      simp only [ne_eq, ite_not]
      constructor
      · intro h
        split at h
        · rename_i hlength
          obtain rfl := Except.ok.inj h
          exact ⟨rfl, hlength⟩
        · cases h
      · rintro ⟨h, hlength⟩
        obtain rfl := Except.ok.inj h
        rw [if_pos hlength]

theorem split_eq_iff {envelope version saltHex dkHex : String} :
    split envelope = [version, saltHex, dkHex] ↔
      ':' ∉ version.toList ∧ ':' ∉ saltHex.toList ∧ ':' ∉ dkHex.toList ∧
        envelope = version ++ ":" ++ saltHex ++ ":" ++ dkHex := by
  have htext : envelope = version ++ ":" ++ saltHex ++ ":" ++ dkHex ↔
      envelope.toList = version.toList ++ ':' :: (saltHex.toList ++ ':' :: dkHex.toList) := by
    rw [← String.toList_inj]
    simp
  rw [split, Fields.map_ofList_eq_iff, htext]
  simp only [List.map_cons, List.map_nil]
  rw [Fields.splitOn_eq_cons_cons_iff]
  constructor
  · rintro ⟨hversion, rest, hrest, hsplit⟩
    obtain ⟨hsalt, dk, rfl, hlast⟩ := Fields.splitOn_eq_cons_cons_iff.mp hsplit
    obtain ⟨rfl, hdk⟩ := Fields.splitOn_eq_singleton_iff.mp hlast
    exact ⟨hversion, hsalt, hdk, hrest⟩
  · rintro ⟨hversion, hsalt, hdk, hrest⟩
    refine ⟨hversion, _, hrest, ?_⟩
    rw [Fields.splitOn_eq_cons_cons_iff]
    exact ⟨hsalt, _, rfl, Fields.splitOn_eq_singleton_iff.mpr ⟨rfl, hdk⟩⟩

theorem exists_fields_iff {envelope : String} :
    (∃ salt key, Fields envelope salt key) ↔ WellFormed envelope := by
  constructor
  · rintro ⟨salt, key, ⟨version, saltHex, dkHex, hsplit, hversion, hsalt, hkey⟩, hsaltLength,
      hkeyLength⟩
    obtain ⟨-, -, -, htext⟩ := split_eq_iff.mp hsplit
    exact ⟨version, saltHex, dkHex, htext, hversion,
      Bytes.hexDecode_iff.mp ⟨salt, hsalt, hsaltLength⟩,
      Bytes.hexDecode_iff.mp ⟨key, hkey, hkeyLength⟩⟩
  · rintro ⟨version, saltHex, dkHex, htext, hversion, hsaltHex, hdkHex⟩
    obtain ⟨salt, hsalt, hsaltLength⟩ := Bytes.hexDecode_iff.mpr hsaltHex
    obtain ⟨key, hkey, hkeyLength⟩ := Bytes.hexDecode_iff.mpr hdkHex
    have hcolon : ':' ∉ version.toList := by rcases hversion with rfl | rfl <;> decide
    have hsplit := split_eq_iff.mpr
      ⟨hcolon, hsaltHex.notMem (by decide), hdkHex.notMem (by decide), htext⟩
    exact ⟨salt, key, ⟨version, saltHex, dkHex, hsplit, hversion, hsalt, hkey⟩, hsaltLength,
      hkeyLength⟩

/-! ## Both verifiers -/

variable {pbkdf2 : Pbkdf2Hmac} {subtle : SubtleCrypto} {password envelope : String} {b : Bool}

/-- What the fields of an envelope say of a password. -/
def Verdict (pbkdf2 : Pbkdf2Hmac) (password envelope : String) (b : Bool) : Prop :=
  ∃ salt key, Fields envelope salt key ∧
    b = ((pbkdf2 (Bytes.utf8 password) salt pbkdf2Iterations).bytes == key)

/-- Both versions ask for the same number of rounds. -/
theorem iterations_eq_ok_iff {version : String} {n : ℕ} :
    Native.iterations version = .ok n ↔ (version = "v2" ∨ version = "v3") ∧ n = pbkdf2Iterations := by
  rw [Native.iterations]
  by_cases h3 : version = "v3"
  · simp [h3, pbkdf2RoundsV3, eq_comm]
  · by_cases h2 : version = "v2"
    · rw [if_neg h3, if_pos h2, Except.ok.injEq]
      exact ⟨fun h ↦ ⟨.inl h2, h.symm⟩, fun h ↦ h.2.symm⟩
    · simp [h3, h2]

theorem native_eq_ok_iff :
    Native.verifySaltedHash pbkdf2 password envelope = .ok b ↔
      Verdict pbkdf2 password envelope b := by
  rw [Native.verifySaltedHash]
  constructor
  · intro h
    split at h
    · rename_i version saltHex dkHex hsplit
      simp only [bind_eq_ok_iff, iterations_eq_ok_iff, decodeField_eq_ok_iff] at h
      obtain ⟨_, ⟨hversion, rfl⟩, salt, ⟨hsalt, hsaltLength⟩, key, ⟨hkey, hkeyLength⟩, h⟩ := h
      exact ⟨salt, key, ⟨⟨version, saltHex, dkHex, hsplit, hversion, hsalt, hkey⟩, hsaltLength,
        hkeyLength⟩, (Except.ok.inj h).symm⟩
    · cases h
  · rintro ⟨salt, key, ⟨⟨version, saltHex, dkHex, hsplit, hversion, hsalt, hkey⟩, hsaltLength,
      hkeyLength⟩, rfl⟩
    rw [hsplit]
    simp only [bind_eq_ok_iff, iterations_eq_ok_iff, decodeField_eq_ok_iff]
    exact ⟨_, ⟨hversion, rfl⟩, salt, ⟨hsalt, hsaltLength⟩, key, ⟨hkey, hkeyLength⟩, rfl⟩

theorem derivedHex_eq_ok_iff {version : String} {salt : Bytes} {dkHex : String}
    (hsubtle : subtle.Equals pbkdf2) :
    Wasm.derivedHex subtle pbkdf2 version (Bytes.utf8 password) salt = .ok dkHex ↔
      (version = "v2" ∨ version = "v3") ∧
        dkHex = Bytes.hexEncode (pbkdf2 (Bytes.utf8 password) salt pbkdf2Iterations).bytes := by
  rw [Wasm.derivedHex, derivesKeys_wasm hsubtle]
  by_cases h3 : version = "v3"
  · simp [h3, eq_comm]
  · by_cases h2 : version = "v2"
    · rw [if_neg h3, if_pos h2, Except.ok.injEq]
      exact ⟨fun h ↦ ⟨.inl h2, h.symm⟩, fun h ↦ h.2.symm⟩
    · simp [h3, h2]

theorem wasm_eq_ok_iff (hsubtle : subtle.Equals pbkdf2) :
    Wasm.verifySaltedHash subtle pbkdf2 password envelope = .ok b ↔
      Verdict pbkdf2 password envelope b := by
  rw [Wasm.verifySaltedHash]
  constructor
  · intro h
    split at h
    · rename_i version saltHex dkHex hsplit
      simp only [bind_eq_ok_iff, derivedHex_eq_ok_iff hsubtle, decodeField_eq_ok_iff] at h
      obtain ⟨salt, ⟨hsalt, hsaltLength⟩, key, ⟨hkey, hkeyLength⟩, _, ⟨hversion, rfl⟩, h⟩ := h
      rw [Bytes.hexDecode_hexEncode] at h
      obtain ⟨_, hdk, h⟩ := h
      obtain rfl := Except.ok.inj hdk
      exact ⟨salt, key, ⟨⟨version, saltHex, dkHex, hsplit, hversion, hsalt, hkey⟩, hsaltLength,
        hkeyLength⟩, (Except.ok.inj h).symm⟩
    · cases h
  · rintro ⟨salt, key, ⟨⟨version, saltHex, dkHex, hsplit, hversion, hsalt, hkey⟩, hsaltLength,
      hkeyLength⟩, rfl⟩
    rw [hsplit]
    simp only [bind_eq_ok_iff, derivedHex_eq_ok_iff hsubtle, decodeField_eq_ok_iff]
    refine ⟨salt, ⟨hsalt, hsaltLength⟩, key, ⟨hkey, hkeyLength⟩, _, ⟨hversion, rfl⟩, ?_⟩
    rw [Bytes.hexDecode_hexEncode]
    exact ⟨_, rfl, rfl⟩

theorem eq_toOption_iff {α : Type} {x y : Except AppError α} :
    x.toOption = y.toOption ↔ ∀ a, x = .ok a ↔ y = .ok a := by
  cases x <;> cases y <;> simp [Except.toOption, eq_comm]

/-- The verifiers accept the same envelopes, the well-formed ones. -/
theorem exists_native_iff :
    (∃ b, Native.verifySaltedHash pbkdf2 password envelope = .ok b) ↔ WellFormed envelope := by
  simp only [native_eq_ok_iff, Verdict, ← exists_fields_iff]
  constructor
  · rintro ⟨_, salt, key, hfields, _⟩
    exact ⟨salt, key, hfields⟩
  · rintro ⟨salt, key, hfields⟩
    exact ⟨_, salt, key, hfields, rfl⟩

/-- The envelope of a password and a salt. -/
def genuine (pbkdf2 : Pbkdf2Hmac) (salt : Bytes32) (password : String) : String :=
  "v3:" ++ Bytes.hexEncode salt.bytes ++ ":" ++
    Bytes.hexEncode (pbkdf2 (Bytes.utf8 password) salt.bytes pbkdf2Iterations).bytes

theorem verdict_genuine (pbkdf2 : Pbkdf2Hmac) (salt : Bytes32) (password : String) :
    Verdict pbkdf2 password (genuine pbkdf2 salt password) true := by
  let key := pbkdf2 (Bytes.utf8 password) salt.bytes pbkdf2Iterations
  have hsalt := Bytes.isHex_hexEncode salt.bytes
  have hkey := Bytes.isHex_hexEncode key.bytes
  have hsplit : split (genuine pbkdf2 salt password) =
      ["v3", Bytes.hexEncode salt.bytes, Bytes.hexEncode key.bytes] :=
    split_eq_iff.mpr
      ⟨by decide, hsalt.notMem (by decide), hkey.notMem (by decide), rfl⟩
  refine ⟨salt.bytes, key.bytes, ⟨⟨"v3", _, _, hsplit, .inr rfl, Bytes.hexDecode_hexEncode _,
    Bytes.hexDecode_hexEncode _⟩, salt.length_eq, key.length_eq⟩, ?_⟩
  exact (beq_self_eq_true _).symm

theorem randomSaltedHash_native (salt : Bytes32) :
    Native.randomSaltedHash pbkdf2 (.ok salt) password = .ok (genuine pbkdf2 salt password) := rfl

theorem randomSaltedHash_wasm (salt : Bytes32) (hsubtle : subtle.Equals pbkdf2) :
    Wasm.randomSaltedHash subtle (.ok salt) password = .ok (genuine pbkdf2 salt password) := by
  rw [Wasm.randomSaltedHash]
  exact bind_eq_ok_iff.mpr
    ⟨salt, rfl, bind_eq_ok_iff.mpr ⟨_, derivesKeys_wasm hsubtle _ _ _, rfl⟩⟩

/-- A hash made on either target verifies on both, the targets agree on every
envelope, and they accept exactly the well-formed ones. -/
theorem verifySaltedHash_agrees (pbkdf2 : Pbkdf2Hmac) (subtle : SubtleCrypto)
    (hsubtle : subtle.Equals pbkdf2) :
    (∀ (password : String) (salt : Bytes32), ∃ envelope,
      Native.randomSaltedHash pbkdf2 (.ok salt) password = .ok envelope ∧
      Wasm.randomSaltedHash subtle (.ok salt) password = .ok envelope ∧
      Native.verifySaltedHash pbkdf2 password envelope = .ok true ∧
      Wasm.verifySaltedHash subtle pbkdf2 password envelope = .ok true) ∧
    (∀ password envelope,
      (Native.verifySaltedHash pbkdf2 password envelope).toOption =
        (Wasm.verifySaltedHash subtle pbkdf2 password envelope).toOption) ∧
    (∀ password envelope,
      (∃ b, Native.verifySaltedHash pbkdf2 password envelope = .ok b) ↔ WellFormed envelope) := by
  refine ⟨fun password salt ↦ ?_, fun password envelope ↦ ?_, fun _ _ ↦ exists_native_iff⟩
  · have hgenuine := verdict_genuine pbkdf2 salt password
    exact ⟨_, randomSaltedHash_native salt, randomSaltedHash_wasm salt hsubtle,
      native_eq_ok_iff.mpr hgenuine, (wasm_eq_ok_iff hsubtle).mpr hgenuine⟩
  · rw [eq_toOption_iff]
    exact fun b ↦ native_eq_ok_iff.trans (wasm_eq_ok_iff hsubtle).symm

theorem verifySaltedHash_agrees_derive :
    ∃ envelope,
      Native.randomSaltedHash Pbkdf2.derive (.ok ⟨List.replicate 32 7, rfl⟩) "pass:word" =
        .ok envelope ∧
      Wasm.verifySaltedHash (fun password salt rounds ↦ .ok (Pbkdf2.derive password salt rounds))
        Pbkdf2.derive "pass:word" envelope = .ok true := by
  obtain ⟨envelope, hnative, -, -, hwasm⟩ :=
    (verifySaltedHash_agrees Pbkdf2.derive
      (fun password salt rounds ↦ .ok (Pbkdf2.derive password salt rounds))
      fun _ _ _ ↦ rfl).1 "pass:word" ⟨List.replicate 32 7, rfl⟩
  exact ⟨envelope, hnative, hwasm⟩

end PasswordHash

end BeeEngine
