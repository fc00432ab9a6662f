import BeeEngine.Lib.Json

/-!
# Compact JSON text

The text that `serde_json` writes for values without floating-point numbers,
and a reader of that text.  Together they show that the laws of the parameter
can be met.
-/

namespace BeeEngine

namespace Json

namespace Compact

/-! ## Strings -/

def escape (c : Char) : List Char :=
  if c = '"' then ['\\', '"']
  else if c = '\\' then ['\\', '\\']
  else if c = '\x08' then ['\\', 'b']
  else if c = '\t' then ['\\', 't']
  else if c = '\n' then ['\\', 'n']
  else if c = '\x0c' then ['\\', 'f']
  else if c = '\r' then ['\\', 'r']
  else if c.toNat < 32 then
    ['\\', 'u', '0', '0', Bytes.hexDigit (c.toNat / 16), Bytes.hexDigit (c.toNat % 16)]
  else [c]

def printString (s : String) : List Char := '"' :: (s.toList.flatMap escape ++ ['"'])

def hexVal (c : Char) : Option ℕ := Bytes.hexVal (UInt8.ofNat c.toNat)

/-- The character of an escape of one letter. -/
def unescape (c : Char) : Option Char :=
  if c = '"' ∨ c = '\\' then some c
  else if c = 'b' then some '\x08'
  else if c = 't' then some '\t'
  else if c = 'n' then some '\n'
  else if c = 'f' then some '\x0c'
  else if c = 'r' then some '\r'
  else none

/-- The text of a string after its opening quote. -/
def parseString : List Char → Option (List Char × List Char)
  | [] => none
  | '"' :: rest => some ([], rest)
  | '\\' :: 'u' :: '0' :: '0' :: p :: q :: rest =>
      match hexVal p, hexVal q, parseString rest with
      | some x, some y, some (cs, rest) => some (Char.ofNat (16 * x + y) :: cs, rest)
      | _, _, _ => none
  | '\\' :: c :: rest =>
      match unescape c, parseString rest with
      | some c, some (cs, rest) => some (c :: cs, rest)
      | _, _ => none
  | c :: rest => (parseString rest).map fun p ↦ (c :: p.1, p.2)

theorem hexVal_hexDigit : ∀ n < 16, hexVal (Bytes.hexDigit n) = some n := by decide

theorem parseString_escape (c : Char) (cs : List Char) :
    parseString (escape c ++ cs) = (parseString cs).map fun p ↦ (c :: p.1, p.2) := by
  rw [escape]
  split_ifs with h₁ h₂ h₃ h₄ h₅ h₆ h₇ h₈
  · subst h₁
    cases h : parseString cs <;> simp [parseString, unescape, h]
  · subst h₂
    cases h : parseString cs <;> simp [parseString, unescape, h]
  · subst h₃
    cases h : parseString cs <;> simp [parseString, unescape, h]
  · subst h₄
    cases h : parseString cs <;> simp [parseString, unescape, h]
  · subst h₅
    cases h : parseString cs <;> simp [parseString, unescape, h]
  · subst h₆
    cases h : parseString cs <;> simp [parseString, unescape, h]
  · subst h₇
    cases h : parseString cs <;> simp [parseString, unescape, h]
  · have hhi : hexVal (Bytes.hexDigit (c.toNat / 16)) = some (c.toNat / 16) :=
      hexVal_hexDigit _ (by omega)
    have hlo : hexVal (Bytes.hexDigit (c.toNat % 16)) = some (c.toNat % 16) :=
      hexVal_hexDigit _ (by omega)
    have hc : Char.ofNat (16 * (c.toNat / 16) + c.toNat % 16) = c := by
      rw [Nat.div_add_mod, Char.ofNat_toNat]
    cases h : parseString cs <;> simp [parseString, hhi, hlo, hc, h]
  · rw [List.cons_append, List.nil_append, parseString.eq_def]
    split <;> simp_all

theorem parseString_flatMap (s rest : List Char) :
    parseString (s.flatMap escape ++ '"' :: rest) = some (s, rest) := by
  induction s with
  | nil => simp [parseString]
  | cons c s ih =>
      rw [List.flatMap_cons, List.append_assoc, parseString_escape, ih]
      rfl

theorem parseString_toList (s : String) (rest : List Char) :
    parseString (s.toList.flatMap escape ++ '"' :: rest) = some (s.toList, rest) :=
  parseString_flatMap s.toList rest

/-! ## Numbers -/

def printNat (n : ℕ) : List Char := Nat.toDigits 10 n

def parseNat (cs : List Char) : Option (ℕ × List Char) :=
  if (cs.takeWhile Char.isDigit).isEmpty then none
  else some (Nat.ofDigitChars 10 (cs.takeWhile Char.isDigit) 0, cs.dropWhile Char.isDigit)

/-- The text does not go on with a digit. -/
def NoDigit (cs : List Char) : Prop := ∀ c ∈ cs.head?, c.isDigit = false

theorem takeWhile_append {ds rest : List Char} (hds : ∀ c ∈ ds, c.isDigit = true)
    (hrest : NoDigit rest) : (ds ++ rest).takeWhile Char.isDigit = ds ∧
      (ds ++ rest).dropWhile Char.isDigit = rest := by
  induction ds with
  | nil =>
      cases rest with
      | nil => exact ⟨rfl, rfl⟩
      | cons c rest =>
          have hc : c.isDigit = false := hrest c rfl
          simp [hc]
  | cons c ds ih =>
      have hc := hds c List.mem_cons_self
      obtain ⟨htake, hdrop⟩ := ih fun c hc ↦ hds c (List.mem_cons_of_mem _ hc)
      simp [hc, htake, hdrop]

theorem parseNat_printNat (n : ℕ) {rest : List Char} (hrest : NoDigit rest) :
    parseNat (printNat n ++ rest) = some (n, rest) := by
  have hdigits : ∀ c ∈ printNat n, c.isDigit = true := fun c hc ↦
    Nat.isDigit_of_mem_toDigits (by decide) (by decide) hc
  obtain ⟨htake, hdrop⟩ := takeWhile_append hdigits hrest
  have hne : (printNat n).isEmpty = false := List.isEmpty_eq_false_iff.mpr Nat.toDigits_ne_nil
  rw [parseNat, htake, hdrop, hne, printNat, Nat.ofDigitChars_toDigits (by decide) (by decide)]
  rfl

/-- The first digit is no other mark of the grammar. -/
theorem exists_printNat (n : ℕ) : ∃ d ds, printNat n = d :: ds ∧ d.isDigit = true := by
  cases h : printNat n with
  | nil => exact absurd h Nat.toDigits_ne_nil
  | cons d ds =>
      refine ⟨d, ds, rfl, ?_⟩
      apply Nat.isDigit_of_mem_toDigits (b := 10) (n := n) (by decide) (by decide)
      rw [← printNat, h]
      exact List.mem_cons_self

/-! ## Values -/

mutual

def print : Json Empty → List Char
  | .null => ['n', 'u', 'l', 'l']
  | .bool true => ['t', 'r', 'u', 'e']
  | .bool false => ['f', 'a', 'l', 's', 'e']
  | .posInt n => printNat n.toNat
  | .negInt n => '-' :: printNat (n.val + 1)
  | .str s => printString s
  | .array [] => ['[', ']']
  | .array (v :: items) => '[' :: (print v ++ printItems items)
  | .object [] => ['{', '}']
  | .object ((k, v) :: fields) => '{' :: (printString k ++ ':' :: (print v ++ printFields fields))

/-- The items after the first. -/
def printItems : List (Json Empty) → List Char
  | [] => [']']
  | v :: items => ',' :: (print v ++ printItems items)

/-- The fields after the first. -/
def printFields : List (String × Json Empty) → List Char
  | [] => ['}']
  | (k, v) :: fields => ',' :: (printString k ++ ':' :: (print v ++ printFields fields))

end

/-- An integer with its sign, if it fits 64 bits. -/
def parseInt : List Char → Option (Value Empty × List Char)
  | '-' :: cs =>
      match parseNat cs with
      | some (n, rest) =>
          if h : n - 1 < 2 ^ 63 ∧ 0 < n then some (⟨.negInt ⟨n - 1, h.1⟩, .negInt _⟩, rest) else none
      | none => none
  | cs =>
      match parseNat cs with
      | some (n, rest) => if n < 2 ^ 64 then some (.u64 (.ofNat n), rest) else none
      | none => none

def parseKey : List Char → Option (String × List Char)
  | '"' :: cs =>
      match parseString cs with
      | some (k, ':' :: rest) => some (String.ofList k, rest)
      | _ => none
  | _ => none

mutual

/-- A value at the start of the text. -/
def parse : ℕ → List Char → Option (Value Empty × List Char)
  | 0, _ => none
  | _ + 1, 'n' :: 'u' :: 'l' :: 'l' :: rest => some (.null, rest)
  | _ + 1, 't' :: 'r' :: 'u' :: 'e' :: rest => some (⟨.bool true, .bool _⟩, rest)
  | _ + 1, 'f' :: 'a' :: 'l' :: 's' :: 'e' :: rest => some (⟨.bool false, .bool _⟩, rest)
  | _ + 1, '"' :: cs => (parseString cs).map fun p ↦ (.str (String.ofList p.1), p.2)
  | _ + 1, '[' :: ']' :: rest => some (.array [], rest)
  | n + 1, '[' :: cs =>
      match parse n cs with
      | some (v, cs) => (parseItems n cs).map fun p ↦ (.array (v :: p.1), p.2)
      | none => none
  | _ + 1, '{' :: '}' :: rest => some (.object .empty, rest)
  | n + 1, '{' :: cs =>
      match parseKey cs with
      | some (k, cs) =>
          match parse n cs with
          | some (v, cs) => (parseFields n cs).map fun p ↦ (.object (p.1.insertNew k v), p.2)
          | none => none
      | none => none
  | _ + 1, cs => parseInt cs

def parseItems : ℕ → List Char → Option (List (Value Empty) × List Char)
  | 0, _ => none
  | _ + 1, ']' :: rest => some ([], rest)
  | n + 1, ',' :: cs =>
      match parse n cs with
      | some (v, cs) => (parseItems n cs).map fun p ↦ (v :: p.1, p.2)
      | none => none
  | _ + 1, _ => none

def parseFields : ℕ → List Char → Option (Map Empty × List Char)
  | 0, _ => none
  | _ + 1, '}' :: rest => some (.empty, rest)
  | n + 1, ',' :: cs =>
      match parseKey cs with
      | some (k, cs) =>
          match parse n cs with
          | some (v, cs) => (parseFields n cs).map fun p ↦ (p.1.insertNew k v, p.2)
          | none => none
      | none => none
  | _ + 1, _ => none

end

/-! ## What was written is read -/

theorem parse_digit {d : Char} (hd : d.isDigit = true) (n : ℕ) (cs : List Char) :
    parse (n + 1) (d :: cs) = parseInt (d :: cs) := by
  rw [parse.eq_def]
  split <;> simp_all

theorem parse_printNat {n : UInt64} {k : ℕ} {rest : List Char} (hrest : NoDigit rest) :
    parse (k + 1) (printNat n.toNat ++ rest) = some (.u64 n, rest) := by
  obtain ⟨d, ds, hprint, hd⟩ := exists_printNat n.toNat
  have hsign : d ≠ '-' := by
    rintro rfl
    cases hd
  have hnat := parseNat_printNat n.toNat hrest
  rw [hprint, List.cons_append] at hnat ⊢
  rw [parse_digit hd, parseInt.eq_def]
  split
  · rename_i heq
    exact absurd (List.cons.inj heq).1 hsign
  · rw [hnat]
    simp [n.toNat_lt]

theorem parseKey_printString (k : String) (rest : List Char) :
    parseKey (printString k ++ ':' :: rest) = some (k, rest) := by
  rw [printString, List.cons_append, List.append_assoc, List.singleton_append, parseKey,
    parseString_toList]
  simp

theorem exists_print (v : Json Empty) : ∃ c cs, print v = c :: cs ∧ c ≠ ']' := by
  cases v with
  | null => exact ⟨_, _, print.eq_def _, by decide⟩
  | bool b => cases b <;> exact ⟨_, _, print.eq_def _, by decide⟩
  | posInt n =>
      obtain ⟨d, ds, hprint, hd⟩ := exists_printNat n.toNat
      refine ⟨d, ds, by rw [print, hprint], ?_⟩
      rintro rfl
      cases hd
  | negInt n => exact ⟨_, _, print.eq_def _, by decide⟩
  | float x => exact x.elim
  | str s => exact ⟨_, _, print.eq_def _, by decide⟩
  | array items => cases items <;> exact ⟨_, _, print.eq_def _, by decide⟩
  | object fields =>
      rcases fields with _ | ⟨⟨k, v⟩, fields⟩ <;> exact ⟨_, _, print.eq_def _, by decide⟩

theorem noDigit_printItems (items : List (Json Empty)) (rest : List Char) :
    NoDigit (printItems items ++ rest) := by
  cases items <;> simp [NoDigit, printItems]

theorem noDigit_printFields (fields : List (String × Json Empty)) (rest : List Char) :
    NoDigit (printFields fields ++ rest) := by
  rcases fields with _ | ⟨⟨k, v⟩, fields⟩ <;> simp [NoDigit, printFields]

theorem insertNew_of_canonical {k : String} {v : Json Empty} {fields : List (String × Json Empty)}
    (h : Canonical (.object ((k, v) :: fields))) (hv : Canonical v)
    (hfields : Canonical (.object fields)) :
    Map.insertNew k ⟨v, hv⟩ ⟨fields, hfields⟩ = ⟨(k, v) :: fields, h⟩ := by
  have hhead := (List.pairwise_cons.mp h.sorted).1
  have hnone : lookupField k fields = none := by
    cases hlookup : lookupField k fields with
    | none => rfl
    | some w =>
        exact absurd (hhead k (List.mem_map_of_mem (mem_of_lookupField hlookup))) (lt_irrefl k)
  have hinsert : insertField k v fields = (k, v) :: fields := by
    cases fields with
    | nil => rfl
    | cons kv rest => rw [insertField, if_pos (hhead kv.1 List.mem_cons_self)]
  simp only [Map.insertNew, hnone, Map.insert, hinsert]
  rfl

mutual

theorem parse_print : ∀ (v : Json Empty) (h : Canonical v) (n : ℕ) (rest : List Char),
    (print v).length < n → NoDigit rest → parse n (print v ++ rest) = some (⟨v, h⟩, rest)
  | v, h, 0, rest, hn, hrest => absurd hn (Nat.not_lt_zero _)
  | .null, h, n + 1, rest, hn, hrest => by
      simp [print, parse, Value.null]
  | .bool b, h, n + 1, rest, hn, hrest => by
      cases b <;> simp [print, parse]
  | .posInt m, h, n + 1, rest, hn, hrest => by
      rw [print]
      apply parse_printNat hrest
  | .negInt m, h, n + 1, rest, hn, hrest => by
      rw [print, List.cons_append, parse.eq_def]
      simp [parseInt, parseNat_printNat _ hrest]
  | .float x, h, n + 1, rest, hn, hrest => x.elim
  | .str s, h, n + 1, rest, hn, hrest => by
      rw [print, printString, List.cons_append, List.append_assoc, List.singleton_append, parse,
        parseString_toList]
      simp [Value.str]
  | .array [], h, n + 1, rest, hn, hrest => by
      simp [print, parse, Value.array]
  | .array (v :: items), h, n + 1, rest, hn, hrest => by
      simp only [print, List.length_cons, List.length_append] at hn
      have hv := parse_print v (h.of_mem_array List.mem_cons_self) n (printItems items ++ rest)
        (by omega) (noDigit_printItems items rest)
      obtain ⟨values, rfl, hvalues⟩ := parseItems_printItems items
        (fun w hw ↦ h.of_mem_array (List.mem_cons_of_mem _ hw)) n rest (by omega)
      obtain ⟨c, cs, hprint, hc⟩ := exists_print v
      rw [print, List.cons_append, List.append_assoc]
      rw [hprint, List.cons_append] at hv ⊢
      rw [parse.eq_def]
      simp [hc, hv, hvalues, Value.array]
  | .object [], h, n + 1, rest, hn, hrest => by
      simp [print, parse, Value.object, Map.empty]
  | .object ((k, v) :: fields), h, n + 1, rest, hn, hrest => by
      simp only [print, List.length_cons, List.length_append] at hn
      have hv := parse_print v (h.of_mem_object List.mem_cons_self) n (printFields fields ++ rest)
        (by omega) (noDigit_printFields fields rest)
      have hfields := parseFields_printFields fields h.tail n rest (by omega)
      have hkey := parseKey_printString k (print v ++ (printFields fields ++ rest))
      rw [print, List.cons_append, List.append_assoc, List.cons_append, List.append_assoc]
      simp only [printString, List.cons_append, List.append_assoc, List.nil_append] at hkey ⊢
      rw [parse.eq_def]
      simp [hkey, hv, hfields, insertNew_of_canonical h, Value.object]

theorem parseItems_printItems : ∀ (items : List (Json Empty)) (_ : ∀ v ∈ items, Canonical v)
    (n : ℕ) (rest : List Char), (printItems items).length < n →
    ∃ values, values.map Value.tree = items ∧
      parseItems n (printItems items ++ rest) = some (values, rest)
  | items, h, 0, rest, hn => absurd hn (Nat.not_lt_zero _)
  | [], h, n + 1, rest, hn => ⟨[], rfl, by simp [printItems, parseItems]⟩
  | v :: items, h, n + 1, rest, hn => by
      simp only [printItems, List.length_cons, List.length_append] at hn
      have hv := parse_print v (h v List.mem_cons_self) n (printItems items ++ rest)
        (by omega) (noDigit_printItems items rest)
      obtain ⟨values, rfl, hvalues⟩ := parseItems_printItems items
        (fun w hw ↦ h w (List.mem_cons_of_mem _ hw)) n rest (by omega)
      refine ⟨⟨v, h v List.mem_cons_self⟩ :: values, rfl, ?_⟩
      rw [printItems, List.cons_append, List.append_assoc, parseItems, hv]
      simp [hvalues]

theorem parseFields_printFields : ∀ (fields : List (String × Json Empty))
    (h : Canonical (.object fields)) (n : ℕ) (rest : List Char),
    (printFields fields).length < n →
    parseFields n (printFields fields ++ rest) = some (⟨fields, h⟩, rest)
  | fields, h, 0, rest, hn => absurd hn (Nat.not_lt_zero _)
  | [], h, n + 1, rest, hn => by simp [printFields, parseFields, Map.empty]
  | (k, v) :: fields, h, n + 1, rest, hn => by
      simp only [printFields, List.length_cons, List.length_append] at hn
      have hv := parse_print v (h.of_mem_object List.mem_cons_self) n (printFields fields ++ rest)
        (by omega) (noDigit_printFields fields rest)
      have hfields := parseFields_printFields fields h.tail n rest (by omega)
      have hkey := parseKey_printString k (print v ++ (printFields fields ++ rest))
      rw [printFields, List.cons_append, List.append_assoc, List.cons_append, List.append_assoc,
        parseFields, hkey]
      simp [hv, hfields, insertNew_of_canonical h]

end

def toString (v : Value Empty) : String := String.ofList (print v.tree)

def fromStr (s : String) : Option (Value Empty) :=
  match parse (s.length + 1) s.toList with
  | some (v, []) => some v
  | _ => none

theorem fromStr_toString (v : Value Empty) : fromStr (toString v) = some v := by
  have hparse := parse_print v.tree v.canonical ((print v.tree).length + 1) []
    (Nat.lt_succ_self _) (by simp [NoDigit])
  rw [List.append_nil] at hparse
  rw [fromStr, toString, String.length_ofList, String.toList_ofList, hparse]

def serde : SerdeJson Empty where
  toString := toString
  fromStr read s := (fromStr s).bind read
  fromStr_toString read v := by rw [fromStr_toString, Option.bind_some]
  fromStr_empty read := rfl
  fromStr_agrees read s v x hv hx := by
    rw [Option.bind_fun_some] at hv
    rwa [hv, Option.bind_some] at hx

/-- A structure as the object of its fields, in their own order. -/
def structTree (fields : List (String × Value Empty)) : Json Empty :=
  .object (fields.map fun kv ↦ (kv.1, kv.2.tree))

theorem parseFields_structFields (fields : List (String × Value Empty)) (n : ℕ)
    (rest : List Char) :
    (printFields (fields.map fun kv ↦ (kv.1, kv.2.tree))).length < n →
    parseFields n (printFields (fields.map fun kv ↦ (kv.1, kv.2.tree)) ++ rest) =
      some (fields.foldr (fun kv m ↦ m.insertNew kv.1 kv.2) .empty, rest) := by
  induction fields generalizing n with
  | nil =>
      intro hn
      obtain ⟨n, rfl⟩ := Nat.exists_eq_succ_of_ne_zero (Nat.ne_of_gt (Nat.zero_lt_of_lt hn))
      simp [printFields, parseFields]
  | cons kv fields ih =>
      intro hn
      obtain ⟨n, rfl⟩ := Nat.exists_eq_succ_of_ne_zero (Nat.ne_of_gt (Nat.zero_lt_of_lt hn))
      obtain ⟨k, v⟩ := kv
      simp only [List.map_cons, printFields, List.length_cons, List.length_append] at hn
      have hv := parse_print v.tree v.canonical n
        (printFields (fields.map fun kv ↦ (kv.1, kv.2.tree)) ++ rest) (by omega)
        (noDigit_printFields _ rest)
      have hfields := ih n (by omega)
      have hkey := parseKey_printString k (print v.tree ++
        (printFields (fields.map fun kv ↦ (kv.1, kv.2.tree)) ++ rest))
      rw [List.map_cons, printFields, List.cons_append, List.append_assoc, List.cons_append,
        List.append_assoc, parseFields, hkey]
      simp [hv, hfields]

theorem parse_structTree (fields : List (String × Value Empty)) (n : ℕ) :
    (print (structTree fields)).length < n →
    parse n (print (structTree fields)) =
      some (.object (fields.foldr (fun kv m ↦ m.insertNew kv.1 kv.2) .empty), []) := by
  intro hn
  obtain ⟨n, rfl⟩ := Nat.exists_eq_succ_of_ne_zero (Nat.ne_of_gt (Nat.zero_lt_of_lt hn))
  cases fields with
  | nil => simp [structTree, print, parse]
  | cons kv fields =>
      obtain ⟨k, v⟩ := kv
      simp only [structTree, List.map_cons, print, List.length_cons, List.length_append] at hn
      have hfields := parseFields_structFields fields n [] (by omega)
      rw [List.append_nil] at hfields
      have hv := parse_print v.tree v.canonical n
        (printFields (fields.map fun kv ↦ (kv.1, kv.2.tree)) ++ []) (by omega)
        (noDigit_printFields _ [])
      rw [List.append_nil] at hv
      have hkey := parseKey_printString k (print v.tree ++
        printFields (fields.map fun kv ↦ (kv.1, kv.2.tree)))
      rw [structTree, List.map_cons, print]
      simp only [printString, List.cons_append, List.append_assoc, List.nil_append] at hkey ⊢
      rw [parse.eq_def]
      simp [hkey, hv, hfields]

def structWriter : serde.StructWriter where
  toString fields := String.ofList (print (structTree fields))
  fromStr_toString read fields hnames := by
    have hparse := parse_structTree fields _ (Nat.lt_succ_self _)
    rw [Map.foldr_insertNew hnames] at hparse
    have hread : fromStr (String.ofList (print (structTree fields))) =
        some (.object (.ofList fields)) := by
      rw [fromStr, String.length_ofList, String.toList_ofList, hparse]
    simp only [serde, hread, Option.bind_some]

example : toString (.object (.ofList [("v", .str "a\"b"), ("seq", .u64 7)])) =
    "\x7b\"seq\":7,\"v\":\"a\\\"b\"\x7d" := by decide +kernel

example : structWriter.toString [("v", .str "a\"b"), ("seq", .u64 7)] =
    "\x7b\"v\":\"a\\\"b\",\"seq\":7\x7d" := by decide +kernel

end Compact

end Json

end BeeEngine
