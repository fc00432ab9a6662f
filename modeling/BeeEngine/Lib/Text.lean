import BeeEngine.Lib.Bytes

/-!
# Text as Rust reads it

White space is the Unicode property; prefixes and splits are taken by
characters.
-/

namespace BeeEngine

namespace Text

/-- The characters of the property `White_Space`. -/
def isWhitespace (c : Char) : Bool :=
  (0x09 ≤ c.toNat ∧ c.toNat ≤ 0x0D) ∨ c.toNat = 0x20 ∨ c.toNat = 0x85 ∨ c.toNat = 0xA0 ∨
    c.toNat = 0x1680 ∨ (0x2000 ≤ c.toNat ∧ c.toNat ≤ 0x200A) ∨ c.toNat = 0x2028 ∨
    c.toNat = 0x2029 ∨ c.toNat = 0x202F ∨ c.toNat = 0x205F ∨ c.toNat = 0x3000

def trimChars (cs : List Char) : List Char :=
  ((cs.dropWhile isWhitespace).reverse.dropWhile isWhitespace).reverse

def trim (s : String) : String := String.ofList (trimChars s.toList)

/-- Nothing but white space. -/
def isBlank (s : String) : Bool := (trim s).isEmpty

def stripPrefix (p s : String) : Option String :=
  if p.toList.isPrefixOf s.toList then some (String.ofList (s.toList.drop p.length)) else none

def isAsciiHexdigit (c : Char) : Bool :=
  ('0' ≤ c ∧ c ≤ '9') ∨ ('a' ≤ c ∧ c ≤ 'f') ∨ ('A' ≤ c ∧ c ≤ 'F')

def toAsciiLowercase (s : String) : String :=
  String.ofList (s.toList.map fun c ↦ if 'A' ≤ c ∧ c ≤ 'Z' then Char.ofNat (c.toNat + 32) else c)

/-- `text.contains(pattern)` -/
def containsText (pattern text : String) : Bool := text.toList.tails.any pattern.toList.isPrefixOf

/-! ## Integers -/

/-- Decimal digits, one at least. -/
def parseDigits (cs : List Char) : Option ℕ :=
  if cs.isEmpty ∨ ¬cs.all Char.isDigit then none else some (Nat.ofDigitChars 10 cs 0)

/-- `str::parse` for the unsigned integers below a bound. -/
def parseUnsigned (bound : ℕ) (s : String) : Option ℕ :=
  (parseDigits (match s.toList with
    | '+' :: cs => cs
    | cs => cs)).filter (· < bound)

/-- `str::parse` for the signed integers from `-bound` up to `bound - 1`. -/
def parseSigned (bound : ℕ) (s : String) : Option ℤ :=
  match s.toList with
  | '-' :: cs => ((parseDigits cs).filter (· ≤ bound)).map fun n ↦ -(n : ℤ)
  | _ => (parseUnsigned bound s).map fun n ↦ (n : ℤ)

/-! ## Lemmas -/

theorem dropWhile_eq_self {p : Char → Bool} {cs : List Char} (h : ∀ c ∈ cs, p c = false) :
    cs.dropWhile p = cs := by
  cases cs with
  | nil => rfl
  | cons c cs => rw [List.dropWhile_cons_of_neg (by simp [h c])]

theorem trim_eq_self {s : String} (h : ∀ c ∈ s.toList, isWhitespace c = false) : trim s = s := by
  have hfront : s.toList.dropWhile isWhitespace = s.toList := dropWhile_eq_self h
  have hback : s.toList.reverse.dropWhile isWhitespace = s.toList.reverse :=
    dropWhile_eq_self fun c hc ↦ h c (List.mem_reverse.mp hc)
  rw [trim, trimChars, hfront, hback, List.reverse_reverse, String.ofList_toList]

/-- No white space at the ends. -/
def Trimmed (cs : List Char) : Prop :=
  (∀ c ∈ cs.head?, isWhitespace c = false) ∧ ∀ c ∈ cs.getLast?, isWhitespace c = false

theorem dropWhile_of_head? {p : Char → Bool} {cs : List Char} (h : ∀ c ∈ cs.head?, p c = false) :
    cs.dropWhile p = cs := by
  cases cs with
  | nil => rfl
  | cons c cs => rw [List.dropWhile_cons_of_neg (by rw [h c rfl]; exact Bool.false_ne_true)]

theorem head?_of_dropWhile {p : Char → Bool} {cs : List Char} :
    ∀ c ∈ (cs.dropWhile p).head?, p c = false := by
  intro c hc
  have h := List.head?_dropWhile_not p cs
  rw [Option.mem_def.mp hc] at h
  simpa using h

theorem trimChars_of_trimmed {cs : List Char} (h : Trimmed cs) : trimChars cs = cs := by
  rw [trimChars, dropWhile_of_head? h.1, dropWhile_of_head? (by rw [List.head?_reverse]; exact h.2),
    List.reverse_reverse]

theorem trimmed_trimChars (cs : List Char) : Trimmed (trimChars cs) := by
  rw [trimChars]
  constructor
  · intro c hc
    have hsuffix := List.dropWhile_suffix isWhitespace (l := (cs.dropWhile isWhitespace).reverse)
    rw [← List.reverse_prefix, List.reverse_reverse] at hsuffix
    obtain ⟨cs', hcs⟩ := List.head?_eq_some_iff.mp hc
    obtain ⟨rest, hrest⟩ := hsuffix
    have hhead : c ∈ (cs.dropWhile isWhitespace).head? := by
      rw [← hrest, hcs]
      rfl
    exact head?_of_dropWhile c hhead
  · intro c hc
    rw [List.getLast?_reverse] at hc
    exact head?_of_dropWhile c hc

theorem toNat_of_between {a b c : Char} (h : a ≤ c ∧ c ≤ b) :
    a.toNat ≤ c.toNat ∧ c.toNat ≤ b.toNat := ⟨h.1, h.2⟩

theorem isWhitespace_of_isAsciiHexdigit {c : Char} (h : isAsciiHexdigit c = true) :
    isWhitespace c = false := by
  have hc : (48 ≤ c.toNat ∧ c.toNat ≤ 57) ∨ (97 ≤ c.toNat ∧ c.toNat ≤ 102) ∨
      (65 ≤ c.toNat ∧ c.toNat ≤ 70) := by
    rcases of_decide_eq_true h with h | h | h
    · exact .inl (toNat_of_between h)
    · exact .inr (.inl (toNat_of_between h))
    · exact .inr (.inr (toNat_of_between h))
  rw [isWhitespace, decide_eq_false_iff_not]
  omega

theorem toList_of_stripPrefix {p s t : String} (h : stripPrefix p s = some t) :
    s.toList = p.toList ++ t.toList := by
  rw [stripPrefix] at h
  split at h
  · rename_i hp
    obtain ⟨r, hr⟩ := List.isPrefixOf_iff_prefix.mp hp
    obtain rfl := Option.some.inj h
    rw [String.toList_ofList, ← hr, ← String.length_toList, List.drop_left]
  · cases h

theorem stripPrefix_append (p s : String) : stripPrefix p (p ++ s) = some s := by
  have hprefix : p.toList.isPrefixOf (p ++ s).toList = true := by
    rw [List.isPrefixOf_iff_prefix, String.toList_append]
    apply List.prefix_append
  rw [stripPrefix, if_pos hprefix, String.toList_append, ← String.length_toList, List.drop_left,
    String.ofList_toList]

theorem isBlank_eq_false_iff {s : String} : isBlank s = false ↔ trim s ≠ "" := by
  rw [isBlank, ← Bool.not_eq_true, String.isEmpty_iff]

theorem containsText_of_append {pattern text : String} (before after : String)
    (h : text = before ++ (pattern ++ after)) : containsText pattern text = true := by
  rw [containsText, List.any_eq_true]
  refine ⟨pattern.toList ++ after.toList, ?_, ?_⟩
  · rw [List.mem_tails, h, String.toList_append, String.toList_append]
    exact List.suffix_append _ _
  · rw [List.isPrefixOf_iff_prefix]
    exact List.prefix_append _ _

end Text

end BeeEngine
