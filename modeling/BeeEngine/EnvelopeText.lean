import BeeEngine.KeyDerivation
import BeeEngine.Lib.Fields
import BeeEngine.Lib.Outcome
import BeeEngine.Lib.RecordedAead
import BeeEngine.Lib.Utf8Error

/-!
# Texts of envelopes

Tags, fields between colons, and bytes in a field.
-/

namespace BeeEngine

open Outcome

abbrev Nonce24 := { bs : Bytes // bs.length = 24 }

/-- `derive_key_pbkdf2_with_rounds` of either target. -/
abbrev DeriveKey := Bytes → Bytes → ℕ → Except AppError String

/-- `splitn` at colons. -/
def splitColons (n : ℕ) (text : String) : List String :=
  (Fields.splitN ':' n text.toList).map String.ofList

def decodeHexIn (context text : String) : Except AppError Bytes :=
  inContext context
    ((Bytes.hexDecode text).mapError fun e ↦ (AppError.new e.message).withKind "hex")

def decodeUtf8In (context : String) (bs : Bytes) : Except AppError String :=
  inContext context (bs.stringFromUtf8.mapError fun e ↦ (AppError.new e).withKind "utf8")

def sealingError : AppError := .new "AEAD encryption failed: aead::Error"

variable {context text : String} {bs : Bytes}

theorem decodeHexIn_eq_ok_iff :
    decodeHexIn context text = .ok bs ↔ Bytes.hexDecode text = .ok bs := by
  rw [decodeHexIn, inContext_eq_ok_iff, Outcome.mapError_eq_ok_iff]

theorem decodeUtf8In_eq_ok_iff : decodeUtf8In context bs = .ok text ↔ bs = Bytes.utf8 text := by
  rw [decodeUtf8In, inContext_eq_ok_iff, Outcome.mapError_eq_ok_iff,
    Bytes.stringFromUtf8_eq_ok_iff]

theorem colon_notMem (h : Bytes.hexDecode text = .ok bs) : ':' ∉ text.toList :=
  (Bytes.hexDecode_iff.mp ⟨bs, h, rfl⟩).notMem (by decide)

theorem splitColons_eq_pair_iff {a b : String} :
    splitColons 2 text = [a, b] ↔ ':' ∉ a.toList ∧ text = a ++ ":" ++ b := by
  rw [splitColons, Fields.map_ofList_eq_iff, ← String.toList_inj]
  simp only [List.map_cons, List.map_nil, Fields.splitN_eq_pair_iff]
  simp

theorem splitColons_eq_triple_iff {a b c : String} :
    splitColons 3 text = [a, b, c] ↔
      ':' ∉ a.toList ∧ ':' ∉ b.toList ∧ text = a ++ ":" ++ b ++ ":" ++ c := by
  rw [splitColons, Fields.map_ofList_eq_iff, ← String.toList_inj]
  simp only [List.map_cons, List.map_nil, Fields.splitN_eq_triple_iff]
  simp

/-- A tag is what stands before the first colon. -/
theorem stripPrefix_tag_iff {tag rest : String} :
    Text.stripPrefix (tag ++ ":") text = some rest ↔ text = tag ++ ":" ++ rest := by
  constructor
  · intro h
    rw [← String.toList_inj, Text.toList_of_stripPrefix h]
    simp
  · rintro rfl
    exact Text.stripPrefix_append _ _

theorem stripPrefix_tag_eq_none {tag tag' rest : String} (h : tag ≠ tag')
    (htag : ':' ∉ tag.toList) (htag' : ':' ∉ tag'.toList) :
    Text.stripPrefix (tag ++ ":") (tag' ++ ":" ++ rest) = none := by
  rw [Option.eq_none_iff_forall_ne_some]
  intro rest' hstrip
  have htext := congrArg String.toList (stripPrefix_tag_iff.mp hstrip)
  simp only [String.toList_append, List.append_assoc] at htext
  exact h (String.toList_inj.mp (Fields.eq_of_append_cons htag' htag htext).1.symm)

end BeeEngine
