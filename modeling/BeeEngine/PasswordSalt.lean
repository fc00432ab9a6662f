import BeeEngine.Lib.Codes
import BeeEngine.ProofCompression

/-!
# Salts of passwords

`zk_login_complete_local_prepare` up to its salt: the code points of the
password, written in decimal one after another, are read as one number.
-/

namespace BeeEngine

namespace ZkLogin

open Codes

/-- A code point in decimal. -/
def codeDigits (ch : Char) : List Char := Nat.toDigits 10 ch.toNat

def formatPwdToInt (password : String) : String :=
  .ofList (password.toList.flatMap codeDigits)

/-- The salt that `zk_login_complete_local_prepare` reads from the password. -/
def userSalt (reader : DecimalReader) (password : String) : Except Failure ℕ :=
  parseBiguintDecimal reader (formatPwdToInt password)

/-! ## What is claimed -/

/-- Passwords that are both accepted have different salts. -/
def SaltsDiffer (reader : DecimalReader) (password password' : String) : Prop :=
  ∀ salt salt', userSalt reader password = .ok salt → userSalt reader password' = .ok salt' →
    salt ≠ salt'

/-- The passwords part at characters of which one has a code point that begins
with the code point of the other, in decimal. -/
def Clash (password password' : String) : Prop :=
  ∃ before c d rest rest', password.toList = before ++ c :: rest ∧
    password'.toList = before ++ d :: rest' ∧ c ≠ d ∧
    (codeDigits c <+: codeDigits d ∨ codeDigits d <+: codeDigits c)

/-- The password does not begin with U+0000. -/
def NoLeadingNul (password : String) : Prop := password.toList.head? ≠ some '\x00'

/-! ## The digits of a password -/

theorem isDigit_of_mem_formatPwdToInt {password : String} {c : Char}
    (h : c ∈ (formatPwdToInt password).toList) : c.isDigit = true := by
  rw [formatPwdToInt, String.toList_ofList, List.mem_flatMap] at h
  obtain ⟨ch, -, hc⟩ := h
  exact Nat.isDigit_of_mem_toDigits (by decide) (by decide) hc

theorem head?_formatPwdToInt {password : String} (h : NoLeadingNul password) :
    (formatPwdToInt password).toList.head? ≠ some '0' := by
  rw [NoLeadingNul] at h
  rw [formatPwdToInt, String.toList_ofList]
  cases hchars : password.toList with
  | nil => simp
  | cons ch chars =>
      rw [hchars, List.head?_cons] at h
      rw [List.flatMap_cons, codeDigits, List.head?_append_of_ne_nil _ Nat.toDigits_ne_nil]
      apply head?_toDigits
      intro hzero
      exact h (congrArg some (Char.toNat_inj.mp hzero))

theorem parseDigits_formatPwdToInt {password : String}
    (h : (formatPwdToInt password).toList ≠ []) :
    Text.parseDigits (formatPwdToInt password).toList =
      some (Nat.ofDigitChars 10 (formatPwdToInt password).toList 0) := by
  rw [Text.parseDigits, if_neg]
  rintro (hempty | hall)
  · exact h (List.isEmpty_iff.mp hempty)
  · exact hall (List.all_eq_true.mpr fun c hc ↦ isDigit_of_mem_formatPwdToInt hc)

/-- The salt of an accepted password is the number of its digits. -/
theorem salt_of_userSalt {reader : DecimalReader} {password : String} {salt : ℕ}
    (h : userSalt reader password = .ok salt) :
    (formatPwdToInt password).toList ≠ [] ∧
      salt = Nat.ofDigitChars 10 (formatPwdToInt password).toList 0 := by
  rw [userSalt, parseBiguintDecimal_eq_ok_iff] at h
  have hne : (formatPwdToInt password).toList ≠ [] := by
    intro hempty
    rw [String.toList_eq_nil_iff.mp hempty, reader.parse_empty] at h
    cases h
  have hread := reader.parse_digits (parseDigits_formatPwdToInt hne)
  exact ⟨hne, Option.some.inj (h.symm.trans hread)⟩

/-- Every password but the empty one has a salt. -/
theorem exists_userSalt (reader : DecimalReader) {password : String} (h : password ≠ "") :
    ∃ salt, userSalt reader password = .ok salt := by
  have hne : (formatPwdToInt password).toList ≠ [] := by
    rw [formatPwdToInt, String.toList_ofList]
    intro hempty
    cases hchars : password.toList with
    | nil => exact h (String.toList_eq_nil_iff.mp hchars)
    | cons ch chars =>
        rw [hchars, List.flatMap_cons, List.append_eq_nil_iff] at hempty
        exact Nat.toDigits_ne_nil hempty.1
  exact ⟨_, parseBiguintDecimal_eq_ok_iff.mpr
    (reader.parse_digits (parseDigits_formatPwdToInt hne))⟩

/-- The digits of an accepted password are those of its salt. -/
theorem toDigits_salt {reader : DecimalReader} {password : String} {salt : ℕ}
    (h : userSalt reader password = .ok salt) (hnul : NoLeadingNul password) :
    Nat.toDigits 10 salt = password.toList.flatMap codeDigits := by
  obtain ⟨hne, rfl⟩ := salt_of_userSalt h
  rw [toDigits_ofDigitChars hne (head?_formatPwdToInt hnul) fun _ ↦ isDigit_of_mem_formatPwdToInt,
    formatPwdToInt, String.toList_ofList]

/-- Different passwords have different salts, unless they clash. -/
theorem salts_differ (reader : DecimalReader) {password password' : String}
    (hne : password ≠ password') (hnul : NoLeadingNul password) (hnul' : NoLeadingNul password')
    (hclash : ¬Clash password password') : SaltsDiffer reader password password' := by
  rintro salt salt' hsalt hsalt' rfl
  have htext : password.toList.flatMap codeDigits = password'.toList.flatMap codeDigits :=
    (toDigits_salt hsalt hnul).symm.trans (toDigits_salt hsalt' hnul')
  have hlist : password.toList ≠ password'.toList := fun h ↦ hne (String.toList_inj.mp h)
  exact hclash (exists_prefix_of_flatMap_eq (fun _ ↦ Nat.toDigits_ne_nil) htext hlist)

/-! ## Printable passwords -/

/-- The character is a printable one of ASCII. -/
def IsPrintable (c : Char) : Prop := 32 ≤ c.toNat ∧ c.toNat < 127

theorem eq_of_toDigits_append : ∀ m < 127, 32 ≤ m → ∀ n < 127, 32 ≤ n →
    Nat.toDigits 10 m <+: Nat.toDigits 10 n → m = n := by
  decide +kernel

theorem not_clash_of_printable {password password' : String}
    (h : ∀ c ∈ password.toList, IsPrintable c) (h' : ∀ c ∈ password'.toList, IsPrintable c) :
    ¬Clash password password' := by
  rintro ⟨before, c, d, rest, rest', hc, hd, hne, hprefix⟩
  obtain ⟨hc₁, hc₂⟩ := h c (by simp [hc])
  obtain ⟨hd₁, hd₂⟩ := h' d (by simp [hd])
  refine hne (Char.toNat_inj.mp ?_)
  rcases hprefix with hprefix | hprefix
  · exact eq_of_toDigits_append _ hc₂ hc₁ _ hd₂ hd₁ hprefix
  · exact (eq_of_toDigits_append _ hd₂ hd₁ _ hc₂ hc₁ hprefix).symm

theorem salts_differ_hello : SaltsDiffer exampleReader "Hello!23" "Hello!24" := by
  refine salts_differ exampleReader (by decide) (by unfold NoLeadingNul; decide)
    (by unfold NoLeadingNul; decide) (not_clash_of_printable ?_ ?_)
  · simp [IsPrintable]
  · simp [IsPrintable]

/-- Two spaces, and the one character whose code point is 3232. -/
theorem not_salts_differ : "  " ≠ "\u0ca0" ∧ ¬SaltsDiffer exampleReader "  " "\u0ca0" := by
  refine ⟨by decide, fun hdiffer ↦ ?_⟩
  exact hdiffer 3232 3232 (by decide +kernel) (by decide +kernel) rfl

end ZkLogin

end BeeEngine
