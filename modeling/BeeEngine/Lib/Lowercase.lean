import BeeEngine.Lib.Text

/-!
# Lower case

The lower case of every character, as Unicode lists it.  The characters that
have one come in runs.
-/

namespace BeeEngine

namespace Lowercase

/-- Every `step`th character from `first` to `last`.  The lower case of `first` is `image`, and that
of the others is as far from it as they are from `first`. -/
structure Run where
  first : ℕ
  last : ℕ
  step : ℕ
  image : ℕ

namespace Run

def Covers (r : Run) (n : ℕ) : Prop := r.first ≤ n ∧ n ≤ r.last ∧ (n - r.first) % r.step = 0

instance (r : Run) (n : ℕ) : Decidable (r.Covers n) := instDecidableAnd

def lower (r : Run) (n : ℕ) : ℕ := r.image + (n - r.first)

/-- A bound of the images. -/
def lastImage (r : Run) : ℕ := r.image + (r.last - r.first)

end Run

def runs : List Run :=
  [⟨65, 90, 1, 97⟩, ⟨192, 214, 1, 224⟩, ⟨216, 222, 1, 248⟩, ⟨256, 302, 2, 257⟩, ⟨306, 310, 2, 307⟩,
    ⟨313, 327, 2, 314⟩, ⟨330, 374, 2, 331⟩, ⟨376, 376, 1, 255⟩, ⟨377, 381, 2, 378⟩,
    ⟨385, 385, 1, 595⟩, ⟨386, 388, 2, 387⟩, ⟨390, 390, 1, 596⟩, ⟨391, 391, 1, 392⟩,
    ⟨393, 394, 1, 598⟩, ⟨395, 395, 1, 396⟩, ⟨398, 398, 1, 477⟩, ⟨399, 399, 1, 601⟩,
    ⟨400, 400, 1, 603⟩, ⟨401, 401, 1, 402⟩, ⟨403, 403, 1, 608⟩, ⟨404, 404, 1, 611⟩,
    ⟨406, 406, 1, 617⟩, ⟨407, 407, 1, 616⟩, ⟨408, 408, 1, 409⟩, ⟨412, 412, 1, 623⟩,
    ⟨413, 413, 1, 626⟩, ⟨415, 415, 1, 629⟩, ⟨416, 420, 2, 417⟩, ⟨422, 422, 1, 640⟩,
    ⟨423, 423, 1, 424⟩, ⟨425, 425, 1, 643⟩, ⟨428, 428, 1, 429⟩, ⟨430, 430, 1, 648⟩,
    ⟨431, 431, 1, 432⟩, ⟨433, 434, 1, 650⟩, ⟨435, 437, 2, 436⟩, ⟨439, 439, 1, 658⟩,
    ⟨440, 440, 1, 441⟩, ⟨444, 444, 1, 445⟩, ⟨452, 452, 1, 454⟩, ⟨453, 453, 1, 454⟩,
    ⟨455, 455, 1, 457⟩, ⟨456, 456, 1, 457⟩, ⟨458, 458, 1, 460⟩, ⟨459, 475, 2, 460⟩,
    ⟨478, 494, 2, 479⟩, ⟨497, 497, 1, 499⟩, ⟨498, 500, 2, 499⟩, ⟨502, 502, 1, 405⟩,
    ⟨503, 503, 1, 447⟩, ⟨504, 542, 2, 505⟩, ⟨544, 544, 1, 414⟩, ⟨546, 562, 2, 547⟩,
    ⟨570, 570, 1, 11365⟩, ⟨571, 571, 1, 572⟩, ⟨573, 573, 1, 410⟩, ⟨574, 574, 1, 11366⟩,
    ⟨577, 577, 1, 578⟩, ⟨579, 579, 1, 384⟩, ⟨580, 580, 1, 649⟩, ⟨581, 581, 1, 652⟩,
    ⟨582, 590, 2, 583⟩, ⟨880, 882, 2, 881⟩, ⟨886, 886, 1, 887⟩, ⟨895, 895, 1, 1011⟩,
    ⟨902, 902, 1, 940⟩, ⟨904, 906, 1, 941⟩, ⟨908, 908, 1, 972⟩, ⟨910, 911, 1, 973⟩,
    ⟨913, 929, 1, 945⟩, ⟨931, 939, 1, 963⟩, ⟨975, 975, 1, 983⟩, ⟨984, 1006, 2, 985⟩,
    ⟨1012, 1012, 1, 952⟩, ⟨1015, 1015, 1, 1016⟩, ⟨1017, 1017, 1, 1010⟩, ⟨1018, 1018, 1, 1019⟩,
    ⟨1021, 1023, 1, 891⟩, ⟨1024, 1039, 1, 1104⟩, ⟨1040, 1071, 1, 1072⟩, ⟨1120, 1152, 2, 1121⟩,
    ⟨1162, 1214, 2, 1163⟩, ⟨1216, 1216, 1, 1231⟩, ⟨1217, 1229, 2, 1218⟩, ⟨1232, 1326, 2, 1233⟩,
    ⟨1329, 1366, 1, 1377⟩, ⟨4256, 4293, 1, 11520⟩, ⟨4295, 4295, 1, 11559⟩, ⟨4301, 4301, 1, 11565⟩,
    ⟨5024, 5103, 1, 43888⟩, ⟨5104, 5109, 1, 5112⟩, ⟨7305, 7305, 1, 7306⟩, ⟨7312, 7354, 1, 4304⟩,
    ⟨7357, 7359, 1, 4349⟩, ⟨7680, 7828, 2, 7681⟩, ⟨7838, 7838, 1, 223⟩, ⟨7840, 7934, 2, 7841⟩,
    ⟨7944, 7951, 1, 7936⟩, ⟨7960, 7965, 1, 7952⟩, ⟨7976, 7983, 1, 7968⟩, ⟨7992, 7999, 1, 7984⟩,
    ⟨8008, 8013, 1, 8000⟩, ⟨8025, 8031, 2, 8017⟩, ⟨8040, 8047, 1, 8032⟩, ⟨8072, 8079, 1, 8064⟩,
    ⟨8088, 8095, 1, 8080⟩, ⟨8104, 8111, 1, 8096⟩, ⟨8120, 8121, 1, 8112⟩, ⟨8122, 8123, 1, 8048⟩,
    ⟨8124, 8124, 1, 8115⟩, ⟨8136, 8139, 1, 8050⟩, ⟨8140, 8140, 1, 8131⟩, ⟨8152, 8153, 1, 8144⟩,
    ⟨8154, 8155, 1, 8054⟩, ⟨8168, 8169, 1, 8160⟩, ⟨8170, 8171, 1, 8058⟩, ⟨8172, 8172, 1, 8165⟩,
    ⟨8184, 8185, 1, 8056⟩, ⟨8186, 8187, 1, 8060⟩, ⟨8188, 8188, 1, 8179⟩, ⟨8486, 8486, 1, 969⟩,
    ⟨8490, 8490, 1, 107⟩, ⟨8491, 8491, 1, 229⟩, ⟨8498, 8498, 1, 8526⟩, ⟨8544, 8559, 1, 8560⟩,
    ⟨8579, 8579, 1, 8580⟩, ⟨9398, 9423, 1, 9424⟩, ⟨11264, 11311, 1, 11312⟩,
    ⟨11360, 11360, 1, 11361⟩, ⟨11362, 11362, 1, 619⟩, ⟨11363, 11363, 1, 7549⟩,
    ⟨11364, 11364, 1, 637⟩, ⟨11367, 11371, 2, 11368⟩, ⟨11373, 11373, 1, 593⟩,
    ⟨11374, 11374, 1, 625⟩, ⟨11375, 11375, 1, 592⟩, ⟨11376, 11376, 1, 594⟩,
    ⟨11378, 11378, 1, 11379⟩, ⟨11381, 11381, 1, 11382⟩, ⟨11390, 11391, 1, 575⟩,
    ⟨11392, 11490, 2, 11393⟩, ⟨11499, 11501, 2, 11500⟩, ⟨11506, 11506, 1, 11507⟩,
    ⟨42560, 42604, 2, 42561⟩, ⟨42624, 42650, 2, 42625⟩, ⟨42786, 42798, 2, 42787⟩,
    ⟨42802, 42862, 2, 42803⟩, ⟨42873, 42875, 2, 42874⟩, ⟨42877, 42877, 1, 7545⟩,
    ⟨42878, 42886, 2, 42879⟩, ⟨42891, 42891, 1, 42892⟩, ⟨42893, 42893, 1, 613⟩,
    ⟨42896, 42898, 2, 42897⟩, ⟨42902, 42920, 2, 42903⟩, ⟨42922, 42922, 1, 614⟩,
    ⟨42923, 42923, 1, 604⟩, ⟨42924, 42924, 1, 609⟩, ⟨42925, 42925, 1, 620⟩, ⟨42926, 42926, 1, 618⟩,
    ⟨42928, 42928, 1, 670⟩, ⟨42929, 42929, 1, 647⟩, ⟨42930, 42930, 1, 669⟩,
    ⟨42931, 42931, 1, 43859⟩, ⟨42932, 42946, 2, 42933⟩, ⟨42948, 42948, 1, 42900⟩,
    ⟨42949, 42949, 1, 642⟩, ⟨42950, 42950, 1, 7566⟩, ⟨42951, 42953, 2, 42952⟩,
    ⟨42955, 42955, 1, 612⟩, ⟨42956, 42970, 2, 42957⟩, ⟨42972, 42972, 1, 411⟩,
    ⟨42997, 42997, 1, 42998⟩, ⟨65313, 65338, 1, 65345⟩, ⟨66560, 66599, 1, 66600⟩,
    ⟨66736, 66771, 1, 66776⟩, ⟨66928, 66938, 1, 66967⟩, ⟨66940, 66954, 1, 66979⟩,
    ⟨66956, 66962, 1, 66995⟩, ⟨66964, 66965, 1, 67003⟩, ⟨68736, 68786, 1, 68800⟩,
    ⟨68944, 68965, 1, 68976⟩, ⟨71840, 71871, 1, 71872⟩, ⟨93760, 93791, 1, 93792⟩,
    ⟨93856, 93880, 1, 93883⟩, ⟨125184, 125217, 1, 125218⟩]

def lowerNat (n : ℕ) : ℕ :=
  match runs.find? fun r ↦ r.Covers n with
  | some r => r.lower n
  | none => n

def lowerChar (c : Char) : Char := Char.ofNat (lowerNat c.toNat)

/-- `char::to_lowercase`; only the capital I with a dot has a lower case of two characters. -/
def toLower (c : Char) : List Char :=
  if c = '\u0130' then ['i', '\u0307'] else [lowerChar c]

/-- The properties that tell whether a sigma ends a word. -/
structure CaseProperties where
  cased : Char → Bool
  caseIgnorable : Char → Bool

def caseIgnorableThenCased (props : CaseProperties) (cs : List Char) : Bool :=
  match cs.dropWhile props.caseIgnorable with
  | c :: _ => props.cased c
  | [] => false

/-- `map_uppercase_sigma`, where the text before is given backwards. -/
def mapUppercaseSigma (props : CaseProperties) (before after : List Char) : Char :=
  if caseIgnorableThenCased props before && !caseIgnorableThenCased props after then 'ς' else 'σ'

/-- A character between others. -/
def lowerIn (props : CaseProperties) (before : List Char) (c : Char) (after : List Char) :
    List Char :=
  if c = 'Σ' then [mapUppercaseSigma props before after] else toLower c

def lowerChars (props : CaseProperties) (before : List Char) : List Char → List Char
  | [] => []
  | c :: cs => lowerIn props before c cs ++ lowerChars props (c :: before) cs

/-- `str::to_lowercase` -/
def toLowercase (props : CaseProperties) (s : String) : String :=
  String.ofList (lowerChars props [] s.toList)

/-! ## Sets of numbers -/

/-- The union of sets that are given by the bits of numbers. -/
def union {α : Type} (f : α → ℕ) (as : List α) : ℕ := as.foldr (fun a m ↦ f a ||| m) 0

theorem testBit_union {α : Type} {f : α → ℕ} {as : List α} {n : ℕ} :
    (union f as).testBit n = true ↔ ∃ a ∈ as, (f a).testBit n = true := by
  induction as with
  | nil => simp [union]
  | cons a as ih =>
      rw [union] at ih
      rw [union, List.foldr_cons, Nat.testBit_or, Bool.or_eq_true, ih]
      simp

/-! ## The runs -/

namespace Run

def isScalar (r : Run) : Bool :=
  Nat.blt r.lastImage 0xD800 || (Nat.blt 0xDFFF r.image && Nat.blt r.lastImage 0x110000)

/-- No lower case of the run is from `a` to `b`. -/
def misses (r : Run) (a b : ℕ) : Bool := Nat.blt r.lastImage a || Nat.blt b r.image

/-- What the run covers, as the bits of a number. -/
def covered (r : Run) : ℕ :=
  union (fun i ↦ 2 ^ (r.first + r.step * i)) (List.range ((r.last - r.first) / r.step + 1))

def images (r : Run) : ℕ :=
  union (fun i ↦ 2 ^ (r.image + r.step * i)) (List.range ((r.last - r.first) / r.step + 1))

variable {r : Run} {a b n : ℕ}

theorem lower_mem (h : r.Covers n) : r.image ≤ r.lower n ∧ r.lower n ≤ r.lastImage := by
  obtain ⟨hfirst, hlast, -⟩ := h
  rw [lastImage, lower]
  omega

theorem exists_index (h : r.Covers n) : ∃ i ∈ List.range ((r.last - r.first) / r.step + 1),
    n = r.first + r.step * i ∧ r.lower n = r.image + r.step * i := by
  obtain ⟨hfirst, hlast, hstep⟩ := h
  have hindex : (n - r.first) / r.step ≤ (r.last - r.first) / r.step :=
    Nat.div_le_div_right (Nat.sub_le_sub_right hlast r.first)
  have hdiv : r.step * ((n - r.first) / r.step) = n - r.first :=
    Nat.mul_div_cancel' (Nat.dvd_of_mod_eq_zero hstep)
  refine ⟨(n - r.first) / r.step, List.mem_range.mpr (by omega), ?_, ?_⟩
  · rw [hdiv]
    omega
  · rw [hdiv, lower]

theorem testBit_covered (h : r.Covers n) : r.covered.testBit n = true := by
  obtain ⟨i, hi, hn, -⟩ := exists_index h
  rw [covered, testBit_union]
  exact ⟨i, hi, by rw [hn, Nat.testBit_two_pow_self]⟩

theorem testBit_images (h : r.Covers n) : r.images.testBit (r.lower n) = true := by
  obtain ⟨i, hi, -, hn⟩ := exists_index h
  rw [images, testBit_union]
  exact ⟨i, hi, by rw [hn, Nat.testBit_two_pow_self]⟩

theorem not_between_of_misses (hr : r.misses a b = true) (h : r.Covers n) :
    ¬(a ≤ r.lower n ∧ r.lower n ≤ b) := by
  obtain ⟨hlow, hhigh⟩ := lower_mem h
  rw [misses, Bool.or_eq_true, Nat.blt_eq, Nat.blt_eq] at hr
  omega

end Run

theorem isScalar_of_mem {r : Run} (h : r ∈ runs) : r.isScalar = true := by
  have hruns : runs.all Run.isScalar = true := by decide
  exact List.all_eq_true.mp hruns r h

/-- No lower case is covered itself. -/
theorem not_covers_lower {r q : Run} {n : ℕ} (hr : r ∈ runs) (hq : q ∈ runs) (h : r.Covers n) :
    ¬q.Covers (r.lower n) := by
  have hruns : union Run.images runs &&& union Run.covered runs = 0 := by decide +kernel
  intro hcovers
  have himage : (union Run.images runs).testBit (r.lower n) = true :=
    testBit_union.mpr ⟨r, hr, Run.testBit_images h⟩
  have hcovered : (union Run.covered runs).testBit (r.lower n) = true :=
    testBit_union.mpr ⟨q, hq, Run.testBit_covered hcovers⟩
  have hboth := Nat.testBit_and (union Run.images runs) (union Run.covered runs) (r.lower n)
  rw [hruns, himage, hcovered, Nat.zero_testBit] at hboth
  cases hboth

theorem lowerNat_cases (n : ℕ) :
    (lowerNat n = n ∧ ∀ r ∈ runs, ¬r.Covers n) ∨
      ∃ r ∈ runs, r.Covers n ∧ lowerNat n = r.lower n := by
  rw [lowerNat]
  cases hfind : runs.find? fun r ↦ decide (r.Covers n) with
  | none => exact .inl ⟨rfl, by simpa using List.find?_eq_none.mp hfind⟩
  | some r =>
      have hcovers := List.find?_some hfind
      exact .inr ⟨r, List.mem_of_find?_eq_some hfind, of_decide_eq_true hcovers, rfl⟩

theorem lowerNat_of_not_covers {n : ℕ} (h : ∀ r ∈ runs, ¬r.Covers n) : lowerNat n = n := by
  rcases lowerNat_cases n with ⟨hn, -⟩ | ⟨r, hr, hcovers, -⟩
  · exact hn
  · exact absurd hcovers (h r hr)

theorem lowerNat_lowerNat (n : ℕ) : lowerNat (lowerNat n) = lowerNat n := by
  rcases lowerNat_cases n with ⟨hn, -⟩ | ⟨r, hr, hcovers, hn⟩
  · rw [hn, hn]
  · rw [hn]
    exact lowerNat_of_not_covers fun q hq ↦ not_covers_lower hr hq hcovers

theorem isValidChar_lowerNat (c : Char) : (lowerNat c.toNat).isValidChar := by
  rcases lowerNat_cases c.toNat with ⟨hn, -⟩ | ⟨r, hr, hcovers, hn⟩
  · rw [hn]
    exact c.valid
  · obtain ⟨hlow, hhigh⟩ := Run.lower_mem hcovers
    rw [hn]
    have hscalar := isScalar_of_mem hr
    rw [Run.isScalar, Bool.or_eq_true, Bool.and_eq_true, Nat.blt_eq, Nat.blt_eq, Nat.blt_eq]
      at hscalar
    rcases hscalar with hlast | ⟨hfirst, hlast⟩
    · exact .inl (by omega)
    · exact .inr ⟨by omega, by omega⟩

theorem toNat_lowerChar (c : Char) : (lowerChar c).toNat = lowerNat c.toNat := by
  rw [lowerChar, Char.toNat_ofNat, if_pos (isValidChar_lowerNat c)]

/-- Numbers that are no images are not reached from others. -/
theorem lowerNat_not_between {a b n : ℕ} (hruns : runs.all (fun r ↦ r.misses a b) = true)
    (h : ¬(a ≤ n ∧ n ≤ b)) : ¬(a ≤ lowerNat n ∧ lowerNat n ≤ b) := by
  rcases lowerNat_cases n with ⟨hn, -⟩ | ⟨r, hr, hcovers, hn⟩
  · rwa [hn]
  · rw [hn]
    exact Run.not_between_of_misses (List.all_eq_true.mp hruns r hr) hcovers

theorem lowerNat_of_ascii {n : ℕ} (h : n < 128) :
    lowerNat n = if 65 ≤ n ∧ n ≤ 90 then n + 32 else n := by
  have hruns : runs.all (fun r ↦ Nat.ble 128 r.first || (r.first == 65 && r.image == 97 &&
      r.last == 90)) = true := by decide
  rcases lowerNat_cases n with ⟨hn, hnone⟩ | ⟨r, hr, hcovers, hn⟩
  · have hcapital : ¬Run.Covers ⟨65, 90, 1, 97⟩ n := hnone _ (List.mem_cons_self ..)
    rw [hn, if_neg fun hcase ↦ hcapital ⟨hcase.1, hcase.2, Nat.mod_one _⟩]
  · have hrun := List.all_eq_true.mp hruns r hr
    simp only [Bool.or_eq_true, Bool.and_eq_true, Nat.ble_eq, beq_iff_eq] at hrun
    obtain ⟨hfirst, hlast, -⟩ := hcovers
    rw [hn, Run.lower, if_pos (by omega)]
    omega

/-- Beside the ASCII characters the Kelvin sign alone has an ASCII lower case. -/
theorem ascii_of_lowerNat {n : ℕ} (h : lowerNat n < 128) : n < 128 ∨ n = 0x212A := by
  have hruns : runs.all (fun r ↦ Nat.blt r.last 128 || Nat.ble 128 r.image ||
      (r.first == 0x212A && r.last == 0x212A)) = true := by decide
  rcases lowerNat_cases n with ⟨hn, -⟩ | ⟨r, hr, hcovers, hn⟩
  · exact .inl (hn ▸ h)
  · have himage := (Run.lower_mem hcovers).1
    have hrun := List.all_eq_true.mp hruns r hr
    simp only [Bool.or_eq_true, Bool.and_eq_true, Nat.blt_eq, Nat.ble_eq, beq_iff_eq] at hrun
    obtain ⟨hfirst, hlast, -⟩ := hcovers
    omega

/-! ## Characters -/

/-- Lower case that stays as it is. -/
def IsLower (c : Char) : Prop := toLower c = [c]

theorem toLower_dot : toLower '\u0130' = ['i', '\u0307'] := if_pos rfl

theorem toLower_of_ne {c : Char} (h : c ≠ '\u0130') : toLower c = [lowerChar c] := if_neg h

theorem lowerChar_lowerChar (c : Char) : lowerChar (lowerChar c) = lowerChar c := by
  rw [lowerChar, toNat_lowerChar, lowerNat_lowerNat, lowerChar]

theorem toNat_ne_of_ne {c d : Char} (h : c ≠ d) : c.toNat ≠ d.toNat :=
  fun heq ↦ h (Char.toNat_inj.mp heq)

theorem lowerChar_ne {c : Char} (h : c ≠ '\u0130') : lowerChar c ≠ '\u0130' := by
  have hruns : runs.all (fun r ↦ r.misses 0x130 0x130) = true := by decide
  have hn : c.toNat ≠ 0x130 := toNat_ne_of_ne h
  have hlower := lowerNat_not_between hruns (by omega : ¬(0x130 ≤ c.toNat ∧ c.toNat ≤ 0x130))
  intro heq
  rw [← toNat_lowerChar, heq] at hlower
  exact hlower ⟨le_rfl, le_rfl⟩

theorem isLower_of_mem_toLower {c x : Char} (h : x ∈ toLower c) : IsLower x := by
  by_cases hc : c = '\u0130'
  · have hdot : IsLower 'i' ∧ IsLower '\u0307' := by
      unfold IsLower
      decide
    rw [hc, toLower_dot] at h
    rcases List.mem_pair.mp h with rfl | rfl
    · exact hdot.1
    · exact hdot.2
  · rw [toLower_of_ne hc, List.mem_singleton] at h
    rw [h, IsLower, toLower_of_ne (lowerChar_ne hc), lowerChar_lowerChar]

def whitespaceRanges : List (ℕ × ℕ) :=
  [(0x09, 0x0D), (0x20, 0x20), (0x85, 0x85), (0xA0, 0xA0), (0x1680, 0x1680), (0x2000, 0x200A),
    (0x2028, 0x2029), (0x202F, 0x202F), (0x205F, 0x205F), (0x3000, 0x3000)]

theorem isWhitespace_iff {c : Char} : Text.isWhitespace c = true ↔
    ∃ w ∈ whitespaceRanges, w.1 ≤ c.toNat ∧ c.toNat ≤ w.2 := by
  simp only [Text.isWhitespace, whitespaceRanges, decide_eq_true_eq, List.mem_cons,
    List.not_mem_nil, or_false, exists_eq_or_imp, exists_eq_left]
  omega

theorem isWhitespace_lowerChar {c : Char} (h : Text.isWhitespace c = false) :
    Text.isWhitespace (lowerChar c) = false := by
  have hruns : whitespaceRanges.all (fun w ↦ runs.all fun r ↦ r.misses w.1 w.2) = true := by
    decide
  by_contra hspace
  obtain ⟨w, hw, hlower⟩ := isWhitespace_iff.mp (Bool.eq_true_of_not_eq_false hspace)
  have hc : ¬(w.1 ≤ c.toNat ∧ c.toNat ≤ w.2) := fun hc ↦
    absurd (isWhitespace_iff.mpr ⟨w, hw, hc⟩) (by simp [h])
  rw [toNat_lowerChar] at hlower
  exact lowerNat_not_between (List.all_eq_true.mp hruns w hw) hc hlower

theorem isWhitespace_of_mem_toLower {c x : Char} (hc : Text.isWhitespace c = false)
    (h : x ∈ toLower c) : Text.isWhitespace x = false := by
  by_cases hdot : c = '\u0130'
  · rw [hdot, toLower_dot] at h
    rcases List.mem_pair.mp h with rfl | rfl <;> decide
  · rw [toLower_of_ne hdot, List.mem_singleton] at h
    rw [h]
    exact isWhitespace_lowerChar hc

section

variable {props : CaseProperties} {before after : List Char} {c x : Char}

theorem toLower_sigma : toLower 'Σ' = ['σ'] := by decide

theorem mem_lowerIn (h : x ∈ lowerIn props before c after) : x ∈ toLower c ∨ c = 'Σ' ∧ x = 'ς' := by
  by_cases hc : c = 'Σ'
  · rw [lowerIn, if_pos hc, List.mem_singleton, mapUppercaseSigma] at h
    rw [hc, toLower_sigma, List.mem_singleton]
    split at h
    · exact .inr ⟨rfl, h⟩
    · exact .inl h
  · rw [lowerIn, if_neg hc] at h
    exact .inl h

theorem isLower_of_mem_lowerIn (h : x ∈ lowerIn props before c after) : IsLower x := by
  rcases mem_lowerIn h with h | ⟨-, rfl⟩
  · exact isLower_of_mem_toLower h
  · unfold IsLower
    decide

theorem isWhitespace_of_mem_lowerIn (hc : Text.isWhitespace c = false)
    (h : x ∈ lowerIn props before c after) : Text.isWhitespace x = false := by
  rcases mem_lowerIn h with h | ⟨-, rfl⟩
  · exact isWhitespace_of_mem_toLower hc h
  · decide

theorem lowerIn_ne_nil : lowerIn props before c after ≠ [] := by
  rw [lowerIn, toLower]
  split_ifs <;> simp

theorem lowerIn_of_isLower (h : IsLower c) : lowerIn props before c after = [c] := by
  have hc : c ≠ 'Σ' := by
    rintro rfl
    rw [IsLower, toLower_sigma] at h
    exact absurd h (by decide)
  rw [lowerIn, if_neg hc, h]

/-! ## Text -/

theorem isLower_of_mem_lowerChars {cs : List Char} (h : x ∈ lowerChars props before cs) :
    IsLower x := by
  induction cs generalizing before with
  | nil => simp [lowerChars] at h
  | cons c cs ih =>
      rw [lowerChars, List.mem_append] at h
      rcases h with h | h
      · exact isLower_of_mem_lowerIn h
      · exact ih h

theorem lowerChars_of_isLower {cs : List Char} (h : ∀ c ∈ cs, IsLower c) :
    lowerChars props before cs = cs := by
  induction cs generalizing before with
  | nil => rfl
  | cons c cs ih =>
      rw [List.forall_mem_cons] at h
      rw [lowerChars, lowerIn_of_isLower h.1, ih h.2, List.singleton_append]

theorem toLowercase_toLowercase (s : String) :
    toLowercase props (toLowercase props s) = toLowercase props s := by
  rw [toLowercase, toLowercase, String.toList_ofList,
    lowerChars_of_isLower fun c hc ↦ isLower_of_mem_lowerChars hc]

/-- The last character comes last. -/
theorem lowerChars_concat (cs : List Char) (c : Char) : ∃ front before',
    lowerChars props before (cs ++ [c]) = front ++ lowerIn props before' c [] := by
  induction cs generalizing before with
  | nil => exact ⟨[], before, by simp [lowerChars]⟩
  | cons d cs ih =>
      obtain ⟨front, before', hlower⟩ := @ih (d :: before)
      refine ⟨lowerIn props before d (cs ++ [c]) ++ front, before', ?_⟩
      rw [List.cons_append, lowerChars, hlower, List.append_assoc]

/-- Lower case brings no white space to the ends. -/
theorem trimmed_lowerChars {cs : List Char} (h : Text.Trimmed cs) :
    Text.Trimmed (lowerChars props before cs) := by
  constructor
  · intro x hx
    cases cs with
    | nil => simp [lowerChars] at hx
    | cons c cs =>
        rw [lowerChars, List.head?_append_of_ne_nil _ lowerIn_ne_nil] at hx
        exact isWhitespace_of_mem_lowerIn (h.1 c rfl) (List.mem_of_mem_head? hx)
  · intro x hx
    rcases List.eq_nil_or_concat cs with rfl | ⟨cs, c, rfl⟩
    · simp [lowerChars] at hx
    · obtain ⟨front, before', hlower⟩ := @lowerChars_concat props before cs c
      rw [List.concat_eq_append, hlower, List.getLast?_append_of_ne_nil _ lowerIn_ne_nil] at hx
      exact isWhitespace_of_mem_lowerIn (h.2 c (by simp)) (List.mem_of_mem_getLast? hx)

theorem trim_toLowercase_trim (s : String) :
    Text.trim (toLowercase props (Text.trim s)) = toLowercase props (Text.trim s) := by
  rw [Text.trim, toLowercase, String.toList_ofList, Text.trim, String.toList_ofList,
    Text.trimChars_of_trimmed (trimmed_lowerChars (Text.trimmed_trimChars _))]

end

end Lowercase

end BeeEngine
