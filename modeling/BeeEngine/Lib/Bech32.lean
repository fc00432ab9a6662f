import Mathlib

/-!
# Bech32

Words of five bits, with a checksum whose steps are linear in exclusive or: so
the six words that a text ends with make its remainder the constant of its
variant.
-/

namespace Bech32

inductive Variant where
  | bech32
  | bech32m
  deriving DecidableEq, Repr

def Variant.constant : Variant → ℕ
  | bech32 => 1
  | bech32m => 0x2bc830a3

/-! ## Remainders -/

/-- A bit above the lower 25, and what it brings back. -/
def generators : List (ℕ × ℕ) :=
  [(25, 0x3b6a57b2), (26, 0x26508e6d), (27, 0x1ea119fa), (28, 0x3d4233dd), (29, 0x2a1462b3)]

def feedback (chk : ℕ) : List (ℕ × ℕ) → ℕ
  | [] => 0
  | (i, g) :: gens => (if chk.testBit i then g else 0) ^^^ feedback chk gens

def step (chk v : ℕ) : ℕ := ((chk % 2 ^ 25) <<< 5 ^^^ feedback chk generators) ^^^ v

def remainder (chk : ℕ) (vs : List ℕ) : ℕ := vs.foldl step chk

theorem remainder_append (chk : ℕ) (vs ws : List ℕ) :
    remainder chk (vs ++ ws) = remainder (remainder chk vs) ws := List.foldl_append

theorem feedback_xor (a b : ℕ) (gens : List (ℕ × ℕ)) :
    feedback (a ^^^ b) gens = feedback a gens ^^^ feedback b gens := by
  induction gens with
  | nil => simp [feedback]
  | cons p gens ih =>
      obtain ⟨i, g⟩ := p
      have hpick : (if (a ^^^ b).testBit i then g else 0) =
          (if a.testBit i then g else 0) ^^^ (if b.testBit i then g else 0) := by
        rw [Nat.testBit_xor]
        cases a.testBit i <;> cases b.testBit i <;> simp
      rw [feedback, feedback, feedback, hpick, ih]
      ac_rfl

theorem step_xor (a b v w : ℕ) : step (a ^^^ b) (v ^^^ w) = step a v ^^^ step b w := by
  rw [step, step, step, feedback_xor, Nat.xor_mod_two_pow, Nat.shiftLeft_xor_distrib]
  ac_rfl

theorem remainder_xor (a b : ℕ) {vs ws : List ℕ} (h : vs.length = ws.length) :
    remainder (a ^^^ b) (List.zipWith (· ^^^ ·) vs ws) = remainder a vs ^^^ remainder b ws := by
  induction vs generalizing a b ws with
  | nil =>
      obtain rfl := List.eq_nil_of_length_eq_zero h.symm
      rfl
  | cons v vs ih =>
      obtain ⟨w, ws, rfl⟩ := List.exists_cons_of_length_eq_add_one h.symm
      rw [List.zipWith_cons_cons, remainder, List.foldl_cons, step_xor]
      exact ih _ _ (Nat.succ.inj h)

theorem feedback_lt {gens : List (ℕ × ℕ)} (h : ∀ p ∈ gens, p.2 < 2 ^ 30) (chk : ℕ) :
    feedback chk gens < 2 ^ 30 := by
  induction gens with
  | nil => exact Nat.two_pow_pos 30
  | cons p gens ih =>
      obtain ⟨hp, hgens⟩ := List.forall_mem_cons.mp h
      apply Nat.xor_lt_two_pow _ (ih hgens)
      split
      · exact hp
      · decide

theorem step_lt (chk : ℕ) {v : ℕ} (hv : v < 2 ^ 30) : step chk v < 2 ^ 30 := by
  have hshift : (chk % 2 ^ 25) <<< 5 < 2 ^ 30 := by
    rw [Nat.shiftLeft_eq]
    omega
  exact Nat.xor_lt_two_pow (Nat.xor_lt_two_pow hshift (feedback_lt (by decide) chk)) hv

theorem remainder_lt {chk : ℕ} {vs : List ℕ} (hvs : ∀ v ∈ vs, v < 2 ^ 30) (h : vs ≠ []) :
    remainder chk vs < 2 ^ 30 := by
  induction vs generalizing chk with
  | nil => exact absurd rfl h
  | cons v vs ih =>
      obtain ⟨hv, hvs⟩ := List.forall_mem_cons.mp hvs
      cases vs with
      | nil => exact step_lt chk hv
      | cons w vs => exact ih hvs (List.cons_ne_nil _ _)

theorem feedback_eq_zero {gens : List (ℕ × ℕ)} {chk : ℕ}
    (h : ∀ p ∈ gens, chk.testBit p.1 = false) : feedback chk gens = 0 := by
  induction gens with
  | nil => rfl
  | cons p gens ih =>
      obtain ⟨hp, hgens⟩ := List.forall_mem_cons.mp h
      rw [feedback, hp, ih hgens]
      simp

theorem shiftLeft_xor {chk v : ℕ} (hv : v < 2 ^ 5) : chk <<< 5 ^^^ v = chk * 32 + v := by
  have hsum : chk * 32 + v = 2 ^ 5 * chk + v := by omega
  apply Nat.eq_of_testBit_eq
  intro i
  rw [hsum, Nat.testBit_two_pow_mul_add _ hv, Nat.testBit_xor, Nat.testBit_shiftLeft]
  by_cases hi : i < 5
  · simp [hi, Nat.not_le.mpr hi]
  · have hsmall : v.testBit i = false :=
      Nat.testBit_lt_two_pow (hv.trans_le (Nat.pow_le_pow_right (by decide) (by omega)))
    simp [hi, hsmall, Nat.le_of_not_lt hi]

/-- Words only move up as long as there is room above. -/
theorem step_small {chk v : ℕ} (hchk : chk < 2 ^ 25) (hv : v < 32) :
    step chk v = chk * 32 + v := by
  have hfeedback : feedback chk generators = 0 := by
    apply feedback_eq_zero
    intro p hp
    have hbits : ∀ p ∈ generators, 25 ≤ p.1 := by decide
    exact Nat.testBit_lt_two_pow (hchk.trans_le (Nat.pow_le_pow_right (by decide) (hbits p hp)))
  rw [step, hfeedback, Nat.xor_zero, Nat.mod_eq_of_lt hchk, shiftLeft_xor hv]

/-- The last `k` words of a number. -/
def digits : ℕ → ℕ → List ℕ
  | 0, _ => []
  | k + 1, n => digits k (n / 32) ++ [n % 32]

@[simp] theorem length_digits (k n : ℕ) : (digits k n).length = k := by
  induction k generalizing n with
  | zero => rfl
  | succ k ih => rw [digits, List.length_append, ih, List.length_singleton]

theorem lt_of_mem_digits {k n v : ℕ} (h : v ∈ digits k n) : v < 32 := by
  induction k generalizing n with
  | zero => cases h
  | succ k ih =>
      rcases List.mem_append.mp h with h | h
      · exact ih h
      · rw [List.mem_singleton.mp h]
        exact Nat.mod_lt _ (by decide)

theorem remainder_digits {k n : ℕ} (hk : k ≤ 6) (h : n < 32 ^ k) :
    remainder 0 (digits k n) = n := by
  induction k generalizing n with
  | zero => exact (Nat.lt_one_iff.mp h).symm
  | succ k ih =>
      have hupper : n / 32 < 32 ^ k := by
        rw [Nat.div_lt_iff_lt_mul (by decide), ← Nat.pow_succ]
        exact h
      have hroom : n / 32 < 2 ^ 25 := hupper.trans_le
        (Nat.pow_le_pow_right (by decide) (Nat.le_of_succ_le_succ hk))
      rw [digits, remainder_append, ih (by omega) hupper, remainder, List.foldl_cons,
        List.foldl_nil, step_small hroom (Nat.mod_lt n (by decide))]
      exact Nat.div_add_mod' n 32

theorem zipWith_zeros (ws : List ℕ) :
    List.zipWith (· ^^^ ·) (List.replicate ws.length 0) ws = ws := by
  induction ws with
  | nil => rfl
  | cons w ws ih => rw [List.length_cons, List.replicate_succ, List.zipWith_cons_cons, ih,
      Nat.zero_xor]

/-- What words add to a remainder is their own one. -/
theorem remainder_eq_xor (chk : ℕ) (ws : List ℕ) :
    remainder chk ws = remainder chk (List.replicate ws.length 0) ^^^ remainder 0 ws := by
  have hsum : remainder (chk ^^^ 0) (List.zipWith (· ^^^ ·) (List.replicate ws.length 0) ws) = _ :=
    remainder_xor chk 0 List.length_replicate
  rwa [Nat.xor_zero, zipWith_zeros] at hsum

/-- The words that make the remainder of a text the constant `c`. -/
def checkWords (vs : List ℕ) (c : ℕ) : List ℕ :=
  digits 6 (remainder 1 (vs ++ List.replicate 6 0) ^^^ c)

theorem remainder_checkWords (vs : List ℕ) {c : ℕ} (hc : c < 2 ^ 30) :
    remainder 1 (vs ++ checkWords vs c) = c := by
  have hzeros : remainder (remainder 1 vs) (List.replicate 6 0) < 2 ^ 30 :=
    remainder_lt (by decide) (by decide)
  rw [checkWords, remainder_append, remainder_append]
  generalize remainder 1 vs = chk at hzeros ⊢
  generalize hn : remainder chk (List.replicate 6 0) ^^^ c = n
  have hlt : n < 32 ^ 6 := by
    rw [← hn]
    exact Nat.xor_lt_two_pow hzeros hc
  rw [remainder_eq_xor, length_digits, remainder_digits (Nat.le_refl 6) hlt, ← hn,
    ← Nat.xor_assoc, Nat.xor_self, Nat.zero_xor]

/-! ## Texts -/

abbrev Word := Fin 32

def charset : List Char := "qpzry9x8gf2tvdw0s3jn54khce6mua7l".toList

def letter (w : Word) : Char := charset.getD w 'q'

def word? (c : Char) : Option Word := (List.finRange 32).find? fun w ↦ letter w = c

theorem word?_letter : ∀ w, word? (letter w) = some w := by decide

theorem letter_ne_one : ∀ w, letter w ≠ '1' := by decide

/-- The human-readable part, as words. -/
def expand (hrp : List Char) : List ℕ :=
  hrp.map (·.toNat / 32) ++ 0 :: hrp.map (·.toNat % 32)

def checksum (hrp : List Char) (words : List Word) (variant : Variant) : List Word :=
  (checkWords (expand hrp ++ words.map Fin.val) variant.constant).map (Fin.ofNat 32)

def encode (hrp : String) (words : List Word) (variant : Variant) : String :=
  .ofList (hrp.toList ++ '1' :: (words ++ checksum hrp.toList words variant).map letter)

def variant? (residue : ℕ) : Option Variant :=
  if residue = Variant.bech32.constant then some .bech32
  else if residue = Variant.bech32m.constant then some .bech32m
  else none

/-- Reads text in lower case. -/
def decode (text : String) : Option (String × List Word × Variant) :=
  let chars := text.toList.reverse
  match chars.dropWhile (· ≠ '1') with
  | [] => none
  | _ :: hrp => do
      let words ← (chars.takeWhile (· ≠ '1')).reverse.mapM word?
      if words.length < 6 then none
      else do
        let variant ← variant? (remainder 1 (expand hrp.reverse ++ words.map Fin.val))
        return (.ofList hrp.reverse, words.take (words.length - 6), variant)

theorem variant?_constant (variant : Variant) : variant? variant.constant = some variant := by
  cases variant <;> rfl

theorem constant_lt (variant : Variant) : variant.constant < 2 ^ 30 := by
  cases variant <;> decide

theorem map_val_checksum (hrp : List Char) (words : List Word) (variant : Variant) :
    (checksum hrp words variant).map Fin.val =
      checkWords (expand hrp ++ words.map Fin.val) variant.constant := by
  have hword : ∀ v ∈ checkWords (expand hrp ++ words.map Fin.val) variant.constant,
      (Fin.val ∘ Fin.ofNat 32) v = v := by
    intro v hv
    exact Nat.mod_eq_of_lt (lt_of_mem_digits hv)
  rw [checksum, List.map_map, List.map_congr_left hword, List.map_id']

theorem length_checksum (hrp : List Char) (words : List Word) (variant : Variant) :
    (checksum hrp words variant).length = 6 := by
  rw [checksum, List.length_map, checkWords, length_digits]

theorem mapM_word?_letter (words : List Word) : (words.map letter).mapM word? = some words := by
  induction words with
  | nil => rfl
  | cons w words ih => rw [List.map_cons, List.mapM_cons, word?_letter, ih]; rfl

theorem decode_encode (hrp : String) (words : List Word) (variant : Variant) :
    decode (encode hrp words variant) = some (hrp, words, variant) := by
  generalize hcheck : checksum hrp.toList words variant = check
  have hlength : check.length = 6 := by rw [← hcheck, length_checksum]
  have hremainder : remainder 1 (expand hrp.toList ++ (words ++ check).map Fin.val) =
      variant.constant := by
    rw [List.map_append, ← hcheck, map_val_checksum, ← List.append_assoc,
      remainder_checkWords _ (constant_lt variant)]
  have hchars : (encode hrp words variant).toList.reverse =
      ((words ++ check).map letter).reverse ++ '1' :: hrp.toList.reverse := by
    rw [encode, String.toList_ofList, hcheck, List.reverse_append, List.reverse_cons,
      List.append_assoc, List.singleton_append]
  have hletters : ∀ c ∈ ((words ++ check).map letter).reverse, decide (c ≠ '1') = true := by
    intro c hc
    obtain ⟨w, -, rfl⟩ := List.mem_map.mp (List.mem_reverse.mp hc)
    exact decide_eq_true (letter_ne_one w)
  rw [decode, hchars]
  simp only [List.dropWhile_append_of_pos hletters, List.takeWhile_append_of_pos hletters]
  have hdrop : ('1' :: hrp.toList.reverse).dropWhile (fun c ↦ decide (c ≠ '1')) =
      '1' :: hrp.toList.reverse := by simp
  have htake : ('1' :: hrp.toList.reverse).takeWhile (fun c ↦ decide (c ≠ '1')) = [] := by simp
  have hsix : ¬(words ++ check).length < 6 := by
    rw [List.length_append, hlength]
    omega
  have hwords : (words ++ check).take ((words ++ check).length - 6) = words := by
    rw [List.length_append, hlength, Nat.add_sub_cancel, List.take_left]
  rw [hdrop, htake, List.append_nil, List.reverse_reverse, mapM_word?_letter]
  simp only [Option.bind_eq_bind, Option.bind_some, if_neg hsix, List.reverse_reverse, hremainder,
    variant?_constant, hwords, String.ofList_toList]
  rfl

/-! ## Bytes -/

/-- The lower `w` bits, the most significant one first. -/
def bits : ℕ → ℕ → List Bool
  | 0, _ => []
  | w + 1, n => decide (n / 2 ^ w % 2 = 1) :: bits w n

def ofBits (bs : List Bool) : ℕ := bs.foldl (fun n b ↦ 2 * n + b.toNat) 0

/-- Groups of five bits, the last one filled up with zeros. -/
def toWords : List Bool → List Word
  | a :: b :: c :: d :: e :: rest => Fin.ofNat 32 (ofBits [a, b, c, d, e]) :: toWords rest
  | [] => []
  | [a] => [Fin.ofNat 32 (ofBits [a, false, false, false, false])]
  | [a, b] => [Fin.ofNat 32 (ofBits [a, b, false, false, false])]
  | [a, b, c] => [Fin.ofNat 32 (ofBits [a, b, c, false, false])]
  | [a, b, c, d] => [Fin.ofNat 32 (ofBits [a, b, c, d, false])]

/-- Groups of eight bits, behind which there are at most four zeros. -/
def toBytes : List Bool → Option (List UInt8)
  | a :: b :: c :: d :: e :: f :: g :: h :: rest =>
      (toBytes rest).map (UInt8.ofNat (ofBits [a, b, c, d, e, f, g, h]) :: ·)
  | rest => if rest.length < 5 ∧ true ∉ rest then some [] else none

def toBase32 (bs : List UInt8) : List Word := toWords (bs.flatMap fun b ↦ bits 8 b.toNat)

def fromBase32 (words : List Word) : Option (List UInt8) :=
  toBytes (words.flatMap fun w ↦ bits 5 w.val)

theorem bits_ofBits : ∀ a b c d e,
    bits 5 (Fin.ofNat 32 (ofBits [a, b, c, d, e])).val = [a, b, c, d, e] := by
  decide

theorem exists_flatMap_toWords (bs : List Bool) :
    ∃ k < 5, ((toWords bs).flatMap fun w ↦ bits 5 w.val) = bs ++ List.replicate k false := by
  induction bs using toWords.induct with
  | case1 a b c d e rest ih =>
      obtain ⟨k, hk, ih⟩ := ih
      refine ⟨k, hk, ?_⟩
      rw [toWords, List.flatMap_cons, bits_ofBits, ih]
      rfl
  | case2 => exact ⟨0, by decide, rfl⟩
  | case3 a => exact ⟨4, by decide, by rw [toWords, List.flatMap_singleton, bits_ofBits]; rfl⟩
  | case4 a b => exact ⟨3, by decide, by rw [toWords, List.flatMap_singleton, bits_ofBits]; rfl⟩
  | case5 a b c => exact ⟨2, by decide, by rw [toWords, List.flatMap_singleton, bits_ofBits]; rfl⟩
  | case6 a b c d =>
      exact ⟨1, by decide, by rw [toWords, List.flatMap_singleton, bits_ofBits]; rfl⟩

theorem ofBits_bits : ∀ n < 256, ofBits (bits 8 n) = n := by decide +kernel

theorem toBytes_flatMap (bs : List UInt8) {k : ℕ} (hk : k < 5) :
    toBytes ((bs.flatMap fun b ↦ bits 8 b.toNat) ++ List.replicate k false) = some bs := by
  induction bs with
  | nil =>
      revert k
      decide
  | cons byte bs ih =>
      have hvalue := ofBits_bits _ byte.toNat_lt
      simp only [bits] at hvalue
      simp only [List.flatMap_cons, bits, List.cons_append, List.nil_append, toBytes] at ih ⊢
      rw [ih, hvalue, Option.map_some, UInt8.ofNat_toNat]

theorem fromBase32_toBase32 (bs : List UInt8) : fromBase32 (toBase32 bs) = some bs := by
  obtain ⟨k, hk, hbits⟩ := exists_flatMap_toWords (bs.flatMap fun b ↦ bits 8 b.toNat)
  rw [fromBase32, toBase32, hbits, toBytes_flatMap bs hk]

example : encode "a" [] .bech32 = "a12uel5l" ∧ encode "a" [] .bech32m = "a1lqfn3a" := by
  decide +kernel

end Bech32
