import BeeEngine.Lib.Blake3

/-!
# SHA-256, HMAC and HKDF

HKDF is used with the hash SHA-256 and an output of 32 bytes, which is one
block of its expansion.
-/

namespace BeeEngine.Sha256

open Blake3 (add32 rotateRight)

def constants : List ℕ :=
  [0x428a2f98, 0x71374491, 0xb5c0fbcf, 0xe9b5dba5, 0x3956c25b, 0x59f111f1, 0x923f82a4, 0xab1c5ed5,
    0xd807aa98, 0x12835b01, 0x243185be, 0x550c7dc3, 0x72be5d74, 0x80deb1fe, 0x9bdc06a7, 0xc19bf174,
    0xe49b69c1, 0xefbe4786, 0x0fc19dc6, 0x240ca1cc, 0x2de92c6f, 0x4a7484aa, 0x5cb0a9dc, 0x76f988da,
    0x983e5152, 0xa831c66d, 0xb00327c8, 0xbf597fc7, 0xc6e00bf3, 0xd5a79147, 0x06ca6351, 0x14292967,
    0x27b70a85, 0x2e1b2138, 0x4d2c6dfc, 0x53380d13, 0x650a7354, 0x766a0abb, 0x81c2c92e, 0x92722c85,
    0xa2bfe8a1, 0xa81a664b, 0xc24b8b70, 0xc76c51a3, 0xd192e819, 0xd6990624, 0xf40e3585, 0x106aa070,
    0x19a4c116, 0x1e376c08, 0x2748774c, 0x34b0bcb5, 0x391c0cb3, 0x4ed8aa4a, 0x5b9cca4f, 0x682e6ff3,
    0x748f82ee, 0x78a5636f, 0x84c87814, 0x8cc70208, 0x90befffa, 0xa4506ceb, 0xbef9a3f7, 0xc67178f2]

structure Work where
  a : ℕ
  b : ℕ
  c : ℕ
  d : ℕ
  e : ℕ
  f : ℕ
  g : ℕ
  h : ℕ

/-- The sixteen words of the message schedule that a round can read. -/
structure Window where
  w0 : ℕ
  w1 : ℕ
  w2 : ℕ
  w3 : ℕ
  w4 : ℕ
  w5 : ℕ
  w6 : ℕ
  w7 : ℕ
  w8 : ℕ
  w9 : ℕ
  w10 : ℕ
  w11 : ℕ
  w12 : ℕ
  w13 : ℕ
  w14 : ℕ
  w15 : ℕ

def nextWord (w0 w1 w9 w14 : ℕ) : ℕ :=
  let s0 := rotateRight w1 7 ^^^ rotateRight w1 18 ^^^ (w1 >>> 3)
  let s1 := rotateRight w14 17 ^^^ rotateRight w14 19 ^^^ (w14 >>> 10)
  add32 (add32 w0 s0) (add32 w9 s1)

def sum1 (e f g h : ℕ) : ℕ :=
  let s1 := rotateRight e 6 ^^^ rotateRight e 11 ^^^ rotateRight e 25
  add32 (add32 h s1) ((e &&& f) ^^^ ((4294967295 ^^^ e) &&& g))

def sum0 (a b c : ℕ) : ℕ :=
  let s0 := rotateRight a 2 ^^^ rotateRight a 13 ^^^ rotateRight a 22
  add32 s0 ((a &&& b) ^^^ (a &&& c) ^^^ (b &&& c))

def rounds : List ℕ → Window → Work → Work
  | [], _, v => v
  | constant :: rest, ⟨w0, w1, w2, w3, w4, w5, w6, w7, w8, w9, w10, w11, w12, w13, w14, w15⟩,
      ⟨a, b, c, d, e, f, g, h⟩ =>
      evaluated (nextWord w0 w1 w9 w14) fun w16 ↦
      evaluated (add32 (sum1 e f g h) (add32 constant w0)) fun t1 ↦
      evaluated (add32 t1 (sum0 a b c)) fun a' ↦
      evaluated (add32 d t1) fun e' ↦
      rounds rest ⟨w1, w2, w3, w4, w5, w6, w7, w8, w9, w10, w11, w12, w13, w14, w15, w16⟩
        ⟨a', a, b, c, e', e, f, g⟩

/-- The window of a block of 64 bytes. -/
def window (block : Bytes) : Window :=
  let word := fun i ↦ evaluated (Bytes.ofBeBytes ((block.drop (4 * i)).take 4)) id
  ⟨word 0, word 1, word 2, word 3, word 4, word 5, word 6, word 7,
    word 8, word 9, word 10, word 11, word 12, word 13, word 14, word 15⟩

def Work.add (v w : Work) : Work :=
  evaluated (add32 v.a w.a) fun a ↦ evaluated (add32 v.b w.b) fun b ↦
  evaluated (add32 v.c w.c) fun c ↦ evaluated (add32 v.d w.d) fun d ↦
  evaluated (add32 v.e w.e) fun e ↦ evaluated (add32 v.f w.f) fun f ↦
  evaluated (add32 v.g w.g) fun g ↦ evaluated (add32 v.h w.h) fun h ↦ ⟨a, b, c, d, e, f, g, h⟩

def compress (state : Work) (block : Bytes) : Work :=
  state.add (rounds constants (window block) state)

def initial : Work where
  a := 0x6a09e667
  b := 0xbb67ae85
  c := 0x3c6ef372
  d := 0xa54ff53a
  e := 0x510e527f
  f := 0x9b05688c
  g := 0x1f83d9ab
  h := 0x5be0cd19

def blocks : ℕ → Work → Bytes → Work
  | 0, state, _ => state
  | count + 1, state, bs => blocks count (compress state (bs.take 64)) (bs.drop 64)

def hash (bs : Bytes) : Bytes :=
  let zeros := (119 - bs.length % 64) % 64
  let padded := bs ++ 0x80 :: List.replicate zeros 0 ++ Bytes.beBytes 8 (8 * bs.length)
  let v := blocks (padded.length / 64) initial padded
  [v.a, v.b, v.c, v.d, v.e, v.f, v.g, v.h].flatMap (Bytes.beBytes 4)

def hmac (key message : Bytes) : Bytes :=
  let key := if 64 < key.length then hash key else key
  let key := key ++ List.replicate (64 - key.length) 0
  hash (key.map (· ^^^ 0x5c) ++ hash (key.map (· ^^^ 0x36) ++ message))

/-- The first 32 bytes that HKDF derives. -/
def hkdf (salt ikm info : Bytes) : Bytes32 where
  bytes := (hmac (hmac salt ikm) (info ++ [1]) ++ List.replicate 32 0).take 32
  length_eq := by simp

end BeeEngine.Sha256
