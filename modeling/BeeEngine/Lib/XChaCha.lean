import BeeEngine.Lib.Aead
import BeeEngine.Lib.Blake3

/-!
# XChaCha20-Poly1305

The cipher itself, for messages of any length, and ideal ciphers that give the
ciphertexts of XChaCha20-Poly1305 on finitely many inputs.
-/

namespace BeeEngine

namespace XChaCha

open Blake3 (add32 rotateRight)

/-! ## ChaCha20 -/

structure Quarter where
  a : ℕ
  b : ℕ
  c : ℕ
  d : ℕ

def quarterRound (q : Quarter) : Quarter :=
  evaluated (add32 q.a q.b) fun a ↦ evaluated (rotateRight (q.d ^^^ a) 16) fun d ↦
  evaluated (add32 q.c d) fun c ↦ evaluated (rotateRight (q.b ^^^ c) 20) fun b ↦
  evaluated (add32 a b) fun a ↦ evaluated (rotateRight (d ^^^ a) 24) fun d ↦
  evaluated (add32 c d) fun c ↦ evaluated (rotateRight (b ^^^ c) 25) fun b ↦ ⟨a, b, c, d⟩

/-- The sixteen words, by columns. -/
structure State where
  q0 : Quarter
  q1 : Quarter
  q2 : Quarter
  q3 : Quarter

def columnRound (s : State) : State :=
  ⟨quarterRound s.q0, quarterRound s.q1, quarterRound s.q2, quarterRound s.q3⟩

/-- The columns read along the diagonals. -/
def diagonal : State → State
  | ⟨⟨a0, b0, c0, d0⟩, ⟨a1, b1, c1, d1⟩, ⟨a2, b2, c2, d2⟩, ⟨a3, b3, c3, d3⟩⟩ =>
      ⟨⟨a0, b1, c2, d3⟩, ⟨a1, b2, c3, d0⟩, ⟨a2, b3, c0, d1⟩, ⟨a3, b0, c1, d2⟩⟩

def undiagonal : State → State
  | ⟨⟨a0, b1, c2, d3⟩, ⟨a1, b2, c3, d0⟩, ⟨a2, b3, c0, d1⟩, ⟨a3, b0, c1, d2⟩⟩ =>
      ⟨⟨a0, b0, c0, d0⟩, ⟨a1, b1, c1, d1⟩, ⟨a2, b2, c2, d2⟩, ⟨a3, b3, c3, d3⟩⟩

def doubleRounds : ℕ → State → State
  | 0, s => s
  | n + 1, s => doubleRounds n (undiagonal (columnRound (diagonal (columnRound s))))

def word (bs : Bytes) (i : ℕ) : ℕ := evaluated (Bytes.ofLeBytes ((bs.drop (4 * i)).take 4)) id

/-- The state of a key and the last four words. -/
def initial (key last : Bytes) : State where
  q0 := ⟨0x61707865, word key 0, word key 4, word last 0⟩
  q1 := ⟨0x3320646e, word key 1, word key 5, word last 1⟩
  q2 := ⟨0x79622d32, word key 2, word key 6, word last 2⟩
  q3 := ⟨0x6b206574, word key 3, word key 7, word last 3⟩

def State.rows (s : State) : List ℕ :=
  [s.q0.a, s.q1.a, s.q2.a, s.q3.a, s.q0.b, s.q1.b, s.q2.b, s.q3.b,
    s.q0.c, s.q1.c, s.q2.c, s.q3.c, s.q0.d, s.q1.d, s.q2.d, s.q3.d]

def block (key nonce : Bytes) (counter : ℕ) : Bytes :=
  let s := initial key (Bytes.leBytes 4 counter ++ nonce)
  (List.zipWith add32 (doubleRounds 10 s).rows s.rows).flatMap (Bytes.leBytes 4)

/-- The key that HChaCha20 derives of the first half of a nonce. -/
def subkey (key nonce : Bytes) : Bytes :=
  let rows := (doubleRounds 10 (initial key nonce)).rows
  (rows.take 4 ++ rows.drop 12).flatMap (Bytes.leBytes 4)

/-- The exclusive or with `count` blocks of the key stream. -/
def stream (key nonce : Bytes) : ℕ → ℕ → Bytes → Bytes
  | 0, _, _ => []
  | count + 1, counter, bs =>
      List.zipWith (· ^^^ ·) (bs.take 64) (block key nonce counter) ++
        stream key nonce count (counter + 1) (bs.drop 64)

/-! ## Poly1305 -/

def accumulate (r : ℕ) : ℕ → ℕ → Bytes → ℕ
  | 0, acc, _ => acc
  | count + 1, acc, bs =>
      evaluated ((acc + Bytes.ofLeBytes (bs.take 16 ++ [1])) * r % (2 ^ 130 - 5)) fun acc ↦
        accumulate r count acc (bs.drop 16)

def poly1305 (key message : Bytes) : Bytes :=
  let r := Bytes.ofLeBytes (key.take 16) &&& 0x0ffffffc0ffffffc0ffffffc0fffffff
  let acc := accumulate r ((message.length + 15) / 16) 0 message
  Bytes.leBytes 16 (acc + Bytes.ofLeBytes ((key.drop 16).take 16))

/-! ## The cipher -/

def pad16 (bs : Bytes) : Bytes := bs ++ List.replicate ((16 - bs.length % 16) % 16) 0

def encrypt (key : Bytes32) (nonce aad msg : Bytes) : Bytes :=
  let key := subkey key.bytes (nonce.take 16)
  let nonce := List.replicate 4 0 ++ nonce.drop 16
  let ciphertext := stream key nonce ((msg.length + 63) / 64) 1 msg
  ciphertext ++ poly1305 (block key nonce 0)
    (pad16 aad ++ pad16 ciphertext ++ Bytes.leBytes 8 aad.length ++
      Bytes.leBytes 8 ciphertext.length)

example : Bytes.hexEncode (encrypt ⟨(List.range 32).map fun i ↦ UInt8.ofNat (0x80 + i), by decide⟩
    ((List.range 24).map fun i ↦ UInt8.ofNat (0x40 + i))
    [0x50, 0x51, 0x52, 0x53, 0xc0, 0xc1, 0xc2, 0xc3, 0xc4, 0xc5, 0xc6, 0xc7]
    (Bytes.utf8 ("Ladies and Gentlemen of the class of '99: If I could offer you only one tip " ++
      "for the future, sunscreen would be it."))) =
      "bd6d179d3e83d43b9576579493c0e939572a1700252bfaccbed2902c21396cbb731c7f1b0b4aa644" ++
      "0bf3a82f4eda7e39ae64c6708c54c216cb96b72e1213b4522f8c9ba40db5d945b11b69b982c1bb9e" ++
      "3f3fac2bc369488f76b2383565d3fff921f9664c97637da9768812f615c68b13b52ec0875924c1c7" ++
      "987947deafd8780acf49" := by
  decide +kernel

end XChaCha

end BeeEngine
