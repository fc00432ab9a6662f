import BeeEngine.Leaf
import BeeEngine.Lib.BigUint
import BeeEngine.Lib.Fields

/-!
# What a leaf commits to

The two strings that are hashed for a leaf determine it.  The seed, which may be
any text, is found between what is read from the front and what is read from the
end.
-/

namespace BeeEngine

namespace Bytes

theorem beBytes_inj {w m n : ℕ} (hm : m < 256 ^ w) (hn : n < 256 ^ w)
    (h : beBytes w m = beBytes w n) : m = n := by
  rw [← ofBeBytes_beBytes_of_lt hm, h, ofBeBytes_beBytes_of_lt hn]

theorem utf8_injective {s t : String} (h : utf8 s = utf8 t) : s = t := by
  have hs := fromUtf8_utf8 s
  rw [h, fromUtf8_utf8] at hs
  exact (Option.some.inj hs).symm

/-- Integers of one width that are written the same before or behind the same
bytes. -/
theorem beBytes_append_inj {w m n : ℕ} {bs cs : Bytes} (hm : m < 256 ^ w) (hn : n < 256 ^ w)
    (h : beBytes w m ++ bs = beBytes w n ++ cs) : m = n ∧ bs = cs := by
  obtain ⟨hfirst, hrest⟩ := List.append_inj h (by simp)
  exact ⟨beBytes_inj hm hn hfirst, hrest⟩

theorem append_beBytes_inj {w m n : ℕ} {bs cs : Bytes} (hm : m < 256 ^ w) (hn : n < 256 ^ w)
    (h : bs ++ beBytes w m = cs ++ beBytes w n) : bs = cs ∧ m = n := by
  obtain ⟨hrest, hlast⟩ := List.append_inj' h (by simp)
  exact ⟨hrest, beBytes_inj hm hn hlast⟩

end Bytes

namespace Leaf

theorem preimage_injective : Function.Injective preimage := by
  intro l l' h
  obtain ⟨h, hnonce⟩ := Bytes.append_beBytes_inj l.nonce.toNat_lt l'.nonce.toNat_lt h
  obtain ⟨h, hindex⟩ := Bytes.append_beBytes_inj l.index.isLt l'.index.isLt h
  simp only [List.append_assoc] at h
  obtain ⟨hx, h⟩ := Bytes.beBytes_append_inj l.x.toNat_lt l'.x.toNat_lt h
  obtain ⟨hy, h⟩ := Bytes.beBytes_append_inj l.y.toNat_lt l'.y.toNat_lt h
  obtain ⟨htimestamp, h⟩ := Bytes.beBytes_append_inj l.timestamp.toNat_lt l'.timestamp.toNat_lt h
  obtain ⟨hcomplexity, hseed⟩ :=
    Bytes.beBytes_append_inj l.complexity.toNat_lt l'.complexity.toNat_lt h
  cases l
  cases l'
  simp only [mk.injEq]
  exact ⟨BitVec.eq_of_toNat_eq hindex, UInt64.toNat_inj.mp hnonce, Bytes.utf8_injective hseed,
    UInt32.toNat_inj.mp hx, UInt32.toNat_inj.mp hy, UInt64.toNat_inj.mp htimestamp,
    UInt32.toNat_inj.mp hcomplexity⟩

end Leaf

namespace ComputedLeaf

/-! ## Fields of the text -/

theorem notMem_toString {sep : Char} (hsep : sep.isDigit = false) (n : ℕ) :
    sep ∉ (toString n).toList := by
  intro h
  rw [Nat.toString_eq_repr, Nat.toList_repr] at h
  have hdigit := Nat.isDigit_of_mem_toDigits (by decide) (by decide) h
  rw [hsep] at hdigit
  cases hdigit

theorem notMem_hexEncode (bs : Bytes) : ':' ∉ (Bytes.hexEncode bs).toList := by
  intro h
  exact absurd (Bytes.isLowerHex_of_mem_hexEncode h) (by decide)

/-- The value of the first field is read up to the next label. -/
theorem eq_of_value_append {label u v x y : String} (hlabel : ∃ name, label.toList = ',' :: name)
    (hu : ',' ∉ u.toList) (hv : ',' ∉ v.toList) (h : u ++ (label ++ x) = v ++ (label ++ y)) :
    u = v ∧ x = y := by
  obtain ⟨name, hlabel⟩ := hlabel
  have hlists := congrArg String.toList h
  simp only [String.toList_append, hlabel, List.cons_append] at hlists
  obtain ⟨hvalue, hrest⟩ := Fields.eq_of_append_cons hu hv hlists
  exact ⟨String.toList_inj.mp hvalue, String.toList_inj.mp (List.append_cancel_left hrest)⟩

/-- The value of the last field is read back to its label. -/
theorem eq_of_append_value {label u v x y : String} (hlabel : ∃ name, label.toList = name ++ [':'])
    (hu : ':' ∉ u.toList) (hv : ':' ∉ v.toList) (h : x ++ label ++ u = y ++ label ++ v) :
    x = y ∧ u = v := by
  obtain ⟨name, hlabel⟩ := hlabel
  have hlists := congrArg String.toList h
  simp only [String.toList_append, hlabel, ← List.append_assoc] at hlists
  rw [List.append_assoc, List.append_assoc (y.toList ++ name)] at hlists
  obtain ⟨hrest, hvalue⟩ := Fields.eq_of_cons_append hu hv hlists
  exact ⟨String.toList_inj.mp (List.append_cancel_right hrest), String.toList_inj.mp hvalue⟩

/-- A decimal field at the end. -/
theorem eq_of_append_toString {label x y : String} {m n : ℕ}
    (hlabel : ∃ name, label.toList = name ++ [':'])
    (h : x ++ label ++ toString m = y ++ label ++ toString n) : x = y ∧ m = n := by
  obtain ⟨hrest, hvalue⟩ := eq_of_append_value hlabel (notMem_toString (by decide) m)
    (notMem_toString (by decide) n) h
  exact ⟨hrest, Nat.repr_injective hvalue⟩

theorem merkleText_injective : Function.Injective merkleText := by
  intro l l' h
  obtain ⟨h, hhash⟩ := eq_of_append_value ⟨",hash".toList, by decide⟩ (notMem_hexEncode _)
    (notMem_hexEncode _) h
  obtain ⟨h, hcomplexity⟩ := eq_of_append_toString ⟨",complexity".toList, by decide⟩ h
  obtain ⟨h, htimestamp⟩ := eq_of_append_toString ⟨",timestamp".toList, by decide⟩ h
  obtain ⟨h, hy⟩ := eq_of_append_toString ⟨",y".toList, by decide⟩ h
  obtain ⟨h, hx⟩ := eq_of_append_toString ⟨",x".toList, by decide⟩ h
  -- What is left ends in the seed, so that it is read from the front.
  simp only [String.append_assoc, String.append_right_inj] at h
  obtain ⟨hindex, h⟩ := eq_of_value_append ⟨"nonce:".toList, by decide⟩
    (notMem_toString (by decide) _) (notMem_toString (by decide) _) h
  obtain ⟨hnonce, hseed⟩ := eq_of_value_append ⟨"seed:".toList, by decide⟩
    (notMem_toString (by decide) _) (notMem_toString (by decide) _) h
  cases l
  cases l'
  simp only [mk.injEq]
  exact ⟨BitVec.eq_of_toNat_eq (Nat.repr_injective hindex),
    UInt64.toNat_inj.mp (Nat.repr_injective hnonce), hseed, UInt32.toNat_inj.mp hx,
    UInt32.toNat_inj.mp hy, UInt64.toNat_inj.mp htimestamp, UInt32.toNat_inj.mp hcomplexity,
    Bytes.hexEncode_injective hhash⟩

end ComputedLeaf

/-! ## Openings -/

/-- Two byte strings with the same hash. -/
def Collision (hash : Bytes → Bytes32) (bs cs : Bytes) : Prop := bs ≠ cs ∧ hash bs = hash cs

/-- The strings that are hashed determine the leaf, so that a hash opens to one
leaf unless the hash function collides. -/
theorem leaf_commitments_unambiguous :
    Function.Injective Leaf.preimage ∧
    (∀ l l' : ComputedLeaf, Bytes.utf8 l.merkleText = Bytes.utf8 l'.merkleText → l = l') ∧
    ∀ (blake3 : Bytes → Bytes32) (l l' : ComputedLeaf),
      l.merkleHash blake3 = l'.merkleHash blake3 →
        l = l' ∨ Collision blake3 (Bytes.utf8 l.merkleText) (Bytes.utf8 l'.merkleText) := by
  have htext : ∀ l l' : ComputedLeaf, Bytes.utf8 l.merkleText = Bytes.utf8 l'.merkleText →
      l = l' := fun l l' h ↦ ComputedLeaf.merkleText_injective (Bytes.utf8_injective h)
  refine ⟨Leaf.preimage_injective, htext, ?_⟩
  intro blake3 l l' h
  by_cases hl : l = l'
  · exact .inl hl
  · exact .inr ⟨fun hsame ↦ hl (htext l l' hsame), h⟩

end BeeEngine
