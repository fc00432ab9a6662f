import BeeEngine.Lib.Bytes

/-!
# X25519

The Montgomery ladder on the curve with coefficient 486662 over the integers
modulo `2 ^ 255 - 19`.
-/

namespace BeeEngine.X25519

def prime : ℕ := 2 ^ 255 - 19

def mul (a b : ℕ) : ℕ := a * b % prime

def add (a b : ℕ) : ℕ := (a + b) % prime

def sub (a b : ℕ) : ℕ := (a + (prime - b)) % prime

/-- A power by its binary exponent of at most `bits` bits. -/
def pow (a : ℕ) : ℕ → ℕ → ℕ
  | 0, _ => 1
  | bits + 1, e =>
      let half := pow a bits (e / 2)
      let square := mul half half
      if e % 2 = 1 then mul square a else square

/-- The two points of the ladder, in projective coordinates. -/
structure Ladder where
  x2 : ℕ
  z2 : ℕ
  x3 : ℕ
  z3 : ℕ

def Ladder.swap (l : Ladder) (doSwap : Bool) : Ladder :=
  if doSwap then ⟨l.x3, l.z3, l.x2, l.z2⟩ else l

def Ladder.step (x1 : ℕ) (l : Ladder) : Ladder :=
  let a := add l.x2 l.z2
  let aa := mul a a
  let b := sub l.x2 l.z2
  let bb := mul b b
  let e := sub aa bb
  let da := mul (sub l.x3 l.z3) a
  let cb := mul (add l.x3 l.z3) b
  evaluated (mul aa bb) fun x2 ↦
  evaluated (mul e (add aa (mul 121665 e))) fun z2 ↦
  evaluated (mul (add da cb) (add da cb)) fun x3 ↦
  evaluated (mul x1 (mul (sub da cb) (sub da cb))) fun z3 ↦ ⟨x2, z2, x3, z3⟩

def ladder (k x1 : ℕ) : ℕ → Ladder → Ladder
  | 0, l => l
  | bits + 1, l =>
      let bit := k.testBit bits
      ladder k x1 bits (((l.swap bit).step x1).swap bit)

/-- The scalar of a secret key. -/
def scalar (secret : Bytes32) : ℕ :=
  let n := Bytes.ofLeBytes secret.bytes % 2 ^ 254
  n - n % 8 + 2 ^ 254

def multiply (secret : Bytes32) (u : ℕ) : Bytes32 where
  bytes :=
    let l := ladder (scalar secret) u 255 ⟨1, 0, u, 1⟩
    Bytes.leBytes 32 (evaluated (mul l.x2 (pow l.z2 255 (prime - 2))) id)
  length_eq := Bytes.length_leBytes _ _

def publicKey (secret : Bytes32) : Bytes32 := multiply secret 9

def diffieHellman (secret their : Bytes32) : Bytes32 :=
  multiply secret (Bytes.ofLeBytes their.bytes % 2 ^ 255 % prime)

end BeeEngine.X25519
