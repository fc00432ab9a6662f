import BeeEngine.Lib.Bytes

/-!
# BLAKE3

The default hash mode with an output of 32 bytes.  Words are naturals below
`2 ^ 32`; a node of the hash tree is kept as the input of its last
compression, so that the root flag can be added when the node turns out to be
the root.
-/

namespace BeeEngine.Blake3

def chunkStart : ℕ := 1
def chunkEnd : ℕ := 2
def parentFlag : ℕ := 4
def rootFlag : ℕ := 8

def iv : List ℕ :=
  [0x6A09E667, 0xBB67AE85, 0x3C6EF372, 0xA54FF53A,
    0x510E527F, 0x9B05688C, 0x1F83D9AB, 0x5BE0CD19]

def add32 (a b : ℕ) : ℕ := (a + b) % 4294967296

def rotateRight (a n : ℕ) : ℕ := (a >>> n) ||| ((a <<< (32 - n)) % 4294967296)

/-- One column or diagonal of the working state. -/
structure Column where
  a : ℕ
  b : ℕ
  c : ℕ
  d : ℕ

/-- The quarter round, mixing two message words into a column. -/
def Column.mix (q : Column) (x y : ℕ) : Column :=
  let a := add32 (add32 q.a q.b) x
  let d := rotateRight (q.d ^^^ a) 16
  let c := add32 q.c d
  let b := rotateRight (q.b ^^^ c) 12
  let a := add32 (add32 a b) y
  let d := rotateRight (d ^^^ a) 8
  let c := add32 c d
  let b := rotateRight (b ^^^ c) 7
  ⟨a, b, c, d⟩

structure Work where
  p : Column
  q : Column
  r : Column
  s : Column

/-- A round mixes the four columns, then the four diagonals. -/
def Work.round (v : Work) : List ℕ → Work
  | [m0, m1, m2, m3, m4, m5, m6, m7, m8, m9, m10, m11, m12, m13, m14, m15] =>
      let p := v.p.mix m0 m1
      let q := v.q.mix m2 m3
      let r := v.r.mix m4 m5
      let s := v.s.mix m6 m7
      let i := Column.mix ⟨p.a, q.b, r.c, s.d⟩ m8 m9
      let j := Column.mix ⟨q.a, r.b, s.c, p.d⟩ m10 m11
      let k := Column.mix ⟨r.a, s.b, p.c, q.d⟩ m12 m13
      let l := Column.mix ⟨s.a, p.b, q.c, r.d⟩ m14 m15
      ⟨⟨i.a, l.b, k.c, j.d⟩, ⟨j.a, i.b, l.c, k.d⟩, ⟨k.a, j.b, i.c, l.d⟩, ⟨l.a, k.b, j.c, i.d⟩⟩
  | _ => v

def permute : List ℕ → List ℕ
  | [m0, m1, m2, m3, m4, m5, m6, m7, m8, m9, m10, m11, m12, m13, m14, m15] =>
      [m2, m6, m3, m10, m7, m0, m4, m13, m1, m11, m12, m5, m9, m14, m15, m8]
  | m => m

def rounds : ℕ → Work → List ℕ → Work
  | 0, v, _ => v
  | n + 1, v, m => rounds n (v.round m) (permute m)

/-- The first eight output words of the compression function. -/
def compress (cv m : List ℕ) (counter len flags : ℕ) : List ℕ :=
  match cv with
  | [h0, h1, h2, h3, h4, h5, h6, h7] =>
      let v := rounds 7
        ⟨⟨h0, h4, 0x6A09E667, counter % 4294967296⟩,
          ⟨h1, h5, 0xBB67AE85, counter / 4294967296⟩,
          ⟨h2, h6, 0x3C6EF372, len⟩, ⟨h3, h7, 0xA54FF53A, flags⟩⟩ m
      [v.p.a ^^^ v.p.c, v.q.a ^^^ v.q.c, v.r.a ^^^ v.r.c, v.s.a ^^^ v.s.c,
        v.p.b ^^^ v.p.d, v.q.b ^^^ v.q.d, v.r.b ^^^ v.r.d, v.s.b ^^^ v.s.d]
  | _ => []

/-- The input of a compression whose flags are not final. -/
structure Node where
  cv : List ℕ
  words : List ℕ
  counter : ℕ
  len : ℕ
  flags : ℕ

def Node.chainingValue (n : Node) : List ℕ := compress n.cv n.words n.counter n.len n.flags

def Node.rootWords (n : Node) : List ℕ := compress n.cv n.words 0 n.len (n.flags ||| rootFlag)

/-- The first `count` words of a block, read past its end as zeros. -/
def blockWords : ℕ → Bytes → List ℕ
  | 0, _ => []
  | count + 1, bs => Bytes.ofLeBytes (bs.take 4) :: blockWords count (bs.drop 4)

/-- A chunk with at most `fuel + 1` blocks, from the chaining value of the
blocks before it. -/
def chunkNode (counter : ℕ) : ℕ → List ℕ → ℕ → Bytes → Node
  | 0, cv, start, bs => ⟨cv, blockWords 16 bs, counter, bs.length, start ||| chunkEnd⟩
  | fuel + 1, cv, start, bs =>
      if bs.length ≤ 64 then ⟨cv, blockWords 16 bs, counter, bs.length, start ||| chunkEnd⟩
      else
        chunkNode counter fuel (compress cv (blockWords 16 (bs.take 64)) counter 64 start) 0
          (bs.drop 64)

/-- The tree over an input: the left child holds the largest power of two of
chunks that leaves something for the right child. -/
def treeNode : ℕ → ℕ → Bytes → Node
  | 0, counter, bs => chunkNode counter 15 iv chunkStart bs
  | fuel + 1, counter, bs =>
      if bs.length ≤ 1024 then chunkNode counter 15 iv chunkStart bs
      else
        let chunks := 2 ^ Nat.log2 ((bs.length - 1) / 1024)
        let left := treeNode fuel counter (bs.take (1024 * chunks))
        let right := treeNode fuel (counter + chunks) (bs.drop (1024 * chunks))
        ⟨iv, left.chainingValue ++ right.chainingValue, 0, 64, parentFlag⟩

def hash (bs : Bytes) : Bytes32 where
  bytes :=
    ((treeNode bs.length 0 bs).rootWords.flatMap (Bytes.leBytes 4) ++ List.replicate 32 0).take 32
  length_eq := by simp

end BeeEngine.Blake3
