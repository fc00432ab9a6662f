import BeeEngine.Infra
import BeeEngine.Lib.HexText

/-!
# Keys derived from passwords

`derive_key_pbkdf2_with_rounds` on each target.  The `pbkdf2` crate and
SubtleCrypto are parameters.
-/

namespace BeeEngine

def pbkdf2Iterations : ℕ := 100000

/-- PBKDF2 with HMAC-SHA256 and a key of 32 bytes, of a password, a salt and a
number of rounds. -/
abbrev Pbkdf2Hmac := Bytes → Bytes → ℕ → Bytes32

/-- What the calls to SubtleCrypto give together. -/
abbrev SubtleCrypto := Bytes → Bytes → ℕ → Except AppError Bytes32

/-- SubtleCrypto's PBKDF2 gives the keys of the crate. -/
def SubtleCrypto.Equals (subtle : SubtleCrypto) (pbkdf2 : Pbkdf2Hmac) : Prop :=
  ∀ password salt rounds, subtle password salt rounds = .ok (pbkdf2 password salt rounds)

namespace Native

def deriveKeyPbkdf2WithRounds (pbkdf2 : Pbkdf2Hmac) (password salt : Bytes) (rounds : ℕ) :
    Except AppError String :=
  .ok (Bytes.hexEncode (pbkdf2 password salt rounds).bytes)

end Native

namespace Wasm

def deriveKeyPbkdf2WithRounds (subtle : SubtleCrypto) (password salt : Bytes) (rounds : ℕ) :
    Except AppError String := do
  let key ← subtle password salt rounds
  return Bytes.hexEncode key.bytes

end Wasm

/-- The key of either target is the hexadecimal form of the crate's. -/
def DerivesKeys (derive : Bytes → Bytes → ℕ → Except AppError String) (pbkdf2 : Pbkdf2Hmac) :
    Prop :=
  ∀ password salt rounds,
    derive password salt rounds = .ok (Bytes.hexEncode (pbkdf2 password salt rounds).bytes)

theorem derivesKeys_native (pbkdf2 : Pbkdf2Hmac) :
    DerivesKeys (Native.deriveKeyPbkdf2WithRounds pbkdf2) pbkdf2 := fun _ _ _ ↦ rfl

theorem derivesKeys_wasm {subtle : SubtleCrypto} {pbkdf2 : Pbkdf2Hmac}
    (h : subtle.Equals pbkdf2) : DerivesKeys (Wasm.deriveKeyPbkdf2WithRounds subtle) pbkdf2 := by
  intro password salt rounds
  rw [Wasm.deriveKeyPbkdf2WithRounds, h]
  rfl

end BeeEngine
