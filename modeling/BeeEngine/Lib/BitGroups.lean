import BeeEngine.Lib.Chunks

/-!
# Bits in groups

A number of some width is a list of bits, the most significant one first.  A
list of numbers is a stream of bits, which may be cut again by another width.
-/

namespace BitGroups

open Chunks

/-- The lowest `w` bits of a number. -/
def bits (w n : ℕ) : List Bool := (List.range w).reverse.map n.testBit

/-- The number of some bits. -/
def ofBits (l : List Bool) : ℕ := l.foldl (fun n b ↦ 2 * n + b.toNat) 0

/-! ## One number -/

variable {w v n m : ℕ} {l l' : List Bool}

@[simp] theorem length_bits (w n : ℕ) : (bits w n).length = w := by simp [bits]

theorem bits_succ (w n : ℕ) : bits (w + 1) n = n.testBit w :: bits w n := by
  rw [bits, bits, List.range_succ, List.reverse_append]
  rfl

/-- The upper bits, and the lower ones. -/
theorem bits_add (v w n : ℕ) : bits (v + w) n = bits v (n / 2 ^ w) ++ bits w n := by
  induction v with
  | zero => simp [bits]
  | succ v ih =>
      rw [Nat.succ_add, bits_succ, bits_succ, ih, Nat.testBit_div_two_pow, List.cons_append]

@[simp] theorem ofBits_nil : ofBits [] = 0 := rfl

theorem ofBits_append (l l' : List Bool) :
    ofBits (l ++ l') = ofBits l * 2 ^ l'.length + ofBits l' := by
  have hfold (n : ℕ) : l'.foldl (fun n b ↦ 2 * n + b.toNat) n = n * 2 ^ l'.length + ofBits l' := by
    induction l' generalizing n with
    | nil => simp
    | cons b l' ih =>
        have hcons : ofBits (b :: l') = b.toNat * 2 ^ l'.length + ofBits l' := by
          rw [ofBits, List.foldl_cons, ih, Nat.mul_zero, Nat.zero_add]
        rw [List.foldl_cons, ih, hcons, List.length_cons, Nat.pow_succ]
        ring
  rw [ofBits, List.foldl_append, hfold]
  rfl

theorem ofBits_cons (b : Bool) (l : List Bool) :
    ofBits (b :: l) = b.toNat * 2 ^ l.length + ofBits l := by
  have happend := ofBits_append [b] l
  simpa [ofBits] using happend

theorem ofBits_lt (l : List Bool) : ofBits l < 2 ^ l.length := by
  induction l with
  | nil => exact Nat.one_pos
  | cons b l ih =>
      rw [ofBits_cons, List.length_cons, Nat.pow_succ]
      cases b <;> simp <;> omega

/-- Bits of one length that make the same number are the same. -/
theorem ofBits_injective (hlength : l.length = l'.length) (h : ofBits l = ofBits l') : l = l' := by
  induction l generalizing l' with
  | nil => exact (List.length_eq_zero_iff.mp hlength.symm).symm
  | cons b l ih =>
      cases l' with
      | nil => cases hlength
      | cons b' l' =>
          rw [List.length_cons, List.length_cons, Nat.succ_inj] at hlength
          rw [ofBits_cons, ofBits_cons, hlength] at h
          have hl := ofBits_lt l
          have hl' := ofBits_lt l'
          rw [hlength] at hl
          obtain rfl : b = b' := by
            cases b <;> cases b' <;> simp at h ⊢ <;> omega
          rw [ih hlength (Nat.add_left_cancel h)]

theorem ofBits_bits (w n : ℕ) : ofBits (bits w n) = n % 2 ^ w := by
  induction w with
  | zero => simp [bits, Nat.mod_one]
  | succ w ih =>
      rw [bits_succ, ofBits_cons, ih, length_bits, Nat.mod_pow_succ, Nat.testBit_eq_decide_div_mod_eq]
      rcases Nat.mod_two_eq_zero_or_one (n / 2 ^ w) with hzero | hone
      · simp [hzero]
      · simp [hone, Nat.add_comm]

theorem ofBits_bits_of_lt (h : n < 2 ^ w) : ofBits (bits w n) = n := by
  rw [ofBits_bits, Nat.mod_eq_of_lt h]

/-! ## Streams -/

/-- The bits of some numbers, one after another. -/
def stream (w : ℕ) (ns : List ℕ) : List Bool := ns.flatMap (bits w)

@[simp] theorem stream_cons (w n : ℕ) (ns : List ℕ) : stream w (n :: ns) = bits w n ++ stream w ns :=
  rfl

@[simp] theorem stream_append (w : ℕ) (ns ns' : List ℕ) :
    stream w (ns ++ ns') = stream w ns ++ stream w ns' :=
  List.flatMap_append

@[simp] theorem length_stream (w : ℕ) (ns : List ℕ) : (stream w ns).length = w * ns.length := by
  induction ns with
  | nil => rfl
  | cons n ns ih => rw [stream_cons, List.length_append, length_bits, ih, List.length_cons]; ring

/-- The bits before a number, and those from it on. -/
theorem take_stream (w k : ℕ) (ns : List ℕ) : (stream w ns).take (w * k) = stream w (ns.take k) := by
  induction ns generalizing k with
  | nil => simp [stream]
  | cons n ns ih =>
      cases k with
      | zero => simp [stream]
      | succ k =>
          rw [Nat.mul_succ, Nat.add_comm, stream_cons, List.take_append, length_bits,
            List.take_of_length_le (by simp), Nat.add_sub_cancel_left, ih, List.take_succ_cons,
            stream_cons]

theorem drop_stream (w k : ℕ) (ns : List ℕ) : (stream w ns).drop (w * k) = stream w (ns.drop k) := by
  induction ns generalizing k with
  | nil => simp [stream]
  | cons n ns ih =>
      cases k with
      | zero => simp
      | succ k =>
          rw [Nat.mul_succ, Nat.add_comm, stream_cons, List.drop_append, length_bits,
            List.drop_of_length_le (by simp), Nat.add_sub_cancel_left, ih, List.drop_succ_cons,
            List.nil_append]

/-- A stream is cut into the numbers that it is made of. -/
theorem chunks_stream (hw : 0 < w) (ns : List ℕ) : chunks w (stream w ns) = ns.map (bits w) := by
  induction ns with
  | nil => rfl
  | cons n ns ih =>
      have hne : stream w (n :: ns) ≠ [] := by
        intro hnil
        have hlength := length_stream w (n :: ns)
        rw [hnil, List.length_cons, Nat.mul_succ, List.length_nil] at hlength
        omega
      have htake : (stream w (n :: ns)).take w = bits w n := by
        rw [stream_cons, List.take_append_of_le_length (by simp), List.take_of_length_le (by simp)]
      have hdrop : (stream w (n :: ns)).drop w = stream w ns := by
        rw [stream_cons, List.drop_append_of_le_length (by simp), List.drop_of_length_le (by simp),
          List.nil_append]
      rw [chunks_of_ne_nil hw hne, htake, hdrop, ih, List.map_cons]

end BitGroups
