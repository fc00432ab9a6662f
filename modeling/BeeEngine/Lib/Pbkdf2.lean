import BeeEngine.Lib.Sha256

/-!
# PBKDF2

With HMAC-SHA256 and keys of 32 bytes, which is one block of its output.
-/

namespace BeeEngine.Pbkdf2

def xor (bs cs : Bytes) : Bytes := List.zipWith (· ^^^ ·) bs cs

/-- The exclusive or of `acc` with the next `count` values after `u`. -/
def iterate (password : Bytes) : ℕ → Bytes → Bytes → Bytes
  | 0, _, acc => acc
  | count + 1, u, acc =>
      let u := Sha256.hmac password u
      iterate password count u (xor acc u)

def derive (password salt : Bytes) (rounds : ℕ) : Bytes32 where
  bytes :=
    let u := Sha256.hmac password (salt ++ Bytes.beBytes 4 1)
    (iterate password (rounds - 1) u u ++ List.replicate 32 0).take 32
  length_eq := by simp

example : Bytes.hexEncode (derive (Bytes.utf8 "password") (Bytes.utf8 "salt") 2).bytes =
    "ae4d0c95af6b46d32d0adff928f06dd02a303f8ef3c251dfd6e2d85a95474c43" := by
  decide +kernel

end BeeEngine.Pbkdf2
