import BeeEngine.Lib.Base64
import BeeEngine.Lib.BitGroups

/-!
# Base64 as a stream of bits

The digits of an encoded text are the bits of its bytes in groups of six.
-/

namespace BeeEngine

namespace Base64

open BitGroups

/-- The numbers that the digits stand for. -/
def sextets : Bytes → List ℕ
  | [] => []
  | [a] => [a.toNat / 4, a.toNat % 4 * 16]
  | [a, b] => [a.toNat / 4, a.toNat % 4 * 16 + b.toNat / 16, b.toNat % 16 * 4]
  | a :: b :: c :: rest =>
      a.toNat / 4 :: (a.toNat % 4 * 16 + b.toNat / 16) :: (b.toNat % 16 * 4 + c.toNat / 64) ::
        (c.toNat % 64) :: sextets rest

theorem encodeChars_eq (bs : Bytes) : encodeChars bs = (sextets bs).map digit := by
  induction bs using sextets.induct with
  | case1 => rfl
  | case2 a => rfl
  | case3 a b => rfl
  | case4 a b c rest ih => simp [encodeChars, sextets, ih]

theorem sextets_lt {bs : Bytes} {n : ℕ} (h : n ∈ sextets bs) : n < 64 := by
  induction bs using sextets.induct with
  | case1 => cases h
  | case2 a =>
      have ha := a.toNat_lt
      simp only [sextets, List.mem_cons, List.not_mem_nil, or_false] at h
      omega
  | case3 a b =>
      have ha := a.toNat_lt
      have hb := b.toNat_lt
      simp only [sextets, List.mem_cons, List.not_mem_nil, or_false] at h
      omega
  | case4 a b c rest ih =>
      have ha := a.toNat_lt
      have hb := b.toNat_lt
      have hc := c.toNat_lt
      simp only [sextets, List.mem_cons] at h
      obtain h | h | h | h | h := h
      · omega
      · omega
      · omega
      · omega
      · exact ih h

/-- The bits of the bytes, filled up with zeros. -/
theorem exists_stream_sextets (bs : Bytes) : ∃ k < 6, stream 6 (sextets bs) =
    stream 8 (bs.map UInt8.toNat) ++ List.replicate k false := by
  induction bs using sextets.induct with
  | case1 => exact ⟨0, by omega, rfl⟩
  | case2 a =>
      have ha := a.toNat_lt
      have hpad : ofBits [false, false, false, false] = 0 := rfl
      refine ⟨4, by omega, ofBits_injective (by simp [sextets]) ?_⟩
      simp [sextets, stream, ofBits_append, ofBits_bits, hpad]
      omega
  | case3 a b =>
      have ha := a.toNat_lt
      have hb := b.toNat_lt
      have hpad : ofBits [false, false] = 0 := rfl
      refine ⟨2, by omega, ofBits_injective (by simp [sextets]) ?_⟩
      simp [sextets, stream, ofBits_append, ofBits_bits, hpad]
      omega
  | case4 a b c rest ih =>
      obtain ⟨k, hk, hrest⟩ := ih
      have ha := a.toNat_lt
      have hb := b.toNat_lt
      have hc := c.toNat_lt
      have hgroup : stream 6 [a.toNat / 4, a.toNat % 4 * 16 + b.toNat / 16,
          b.toNat % 16 * 4 + c.toNat / 64, c.toNat % 64] =
            stream 8 [a.toNat, b.toNat, c.toNat] := by
        refine ofBits_injective (by simp) ?_
        simp [stream, ofBits_append, ofBits_bits]
        omega
      refine ⟨k, hk, ?_⟩
      change stream 6 ([_, _, _, _] ++ sextets rest) = stream 8 ([_, _, _] ++ rest.map UInt8.toNat) ++ _
      rw [stream_append, stream_append, hgroup, hrest, List.append_assoc]

end Base64

end BeeEngine
