import BeeEngine.Lib.Bytes

/-!
# JSON values

The values of `serde_json`: integers of 64 bits beside other numbers, whose
type `F` is left open, and objects as maps with sorted keys.  Reading and
writing text is a parameter; what it has to satisfy is stated with it.
-/

namespace BeeEngine

inductive Json (F : Type) where
  | null
  | bool (b : Bool)
  | posInt (n : UInt64)
  /-- The integer `-(n + 1)`. -/
  | negInt (n : Fin (2 ^ 63))
  | float (x : F)
  | str (s : String)
  | array (items : List (Json F))
  | object (fields : List (String × Json F))

namespace Json

variable {F : Type}

/-- The keys of every object are in strictly ascending order. -/
inductive Canonical : Json F → Prop
  | null : Canonical null
  | bool (b : Bool) : Canonical (bool b)
  | posInt (n : UInt64) : Canonical (posInt n)
  | negInt (n : Fin (2 ^ 63)) : Canonical (negInt n)
  | float (x : F) : Canonical (float x)
  | str (s : String) : Canonical (str s)
  | array {items : List (Json F)} : (∀ v ∈ items, Canonical v) → Canonical (array items)
  | object {fields : List (String × Json F)} : (fields.map Prod.fst).Pairwise (· < ·) →
      (∀ kv ∈ fields, Canonical kv.2) → Canonical (object fields)

theorem Canonical.of_mem_array {items : List (Json F)} (h : Canonical (.array items)) {v : Json F}
    (hv : v ∈ items) : Canonical v := by
  cases h with
  | array hitems => exact hitems v hv

theorem Canonical.sorted {fields : List (String × Json F)} (h : Canonical (.object fields)) :
    (fields.map Prod.fst).Pairwise (· < ·) := by
  cases h with
  | object hsorted hfields => exact hsorted

theorem Canonical.of_mem_object {fields : List (String × Json F)} (h : Canonical (.object fields))
    {kv : String × Json F} (hkv : kv ∈ fields) : Canonical kv.2 := by
  cases h with
  | object hsorted hfields => exact hfields kv hkv

theorem Canonical.tail {kv : String × Json F} {fields : List (String × Json F)}
    (h : Canonical (.object (kv :: fields))) : Canonical (.object fields) :=
  .object (List.pairwise_cons.mp h.sorted).2 fun _ hkv ↦ h.of_mem_object (List.mem_cons_of_mem _ hkv)

/-! ## Fields of an object -/

/-- Set a key of a map that is kept in the order of its keys. -/
def insertField (k : String) (v : Json F) : List (String × Json F) → List (String × Json F)
  | [] => [(k, v)]
  | (k', v') :: rest =>
      if k < k' then (k, v) :: (k', v') :: rest
      else if k = k' then (k, v) :: rest
      else (k', v') :: insertField k v rest

def lookupField (k : String) : List (String × Json F) → Option (Json F)
  | [] => none
  | (k', v) :: rest => if k = k' then some v else lookupField k rest

theorem mem_of_lookupField {k : String} {fields : List (String × Json F)} {v : Json F}
    (h : lookupField k fields = some v) : (k, v) ∈ fields := by
  induction fields with
  | nil => cases h
  | cons kv rest ih =>
      obtain ⟨k', v'⟩ := kv
      rw [lookupField] at h
      split at h
      · rename_i hk
        obtain rfl := hk
        obtain rfl := Option.some.inj h
        exact List.mem_cons_self
      · exact List.mem_cons_of_mem _ (ih h)

theorem mem_insertField {k : String} {v : Json F} {fields : List (String × Json F)}
    {kv : String × Json F} (h : kv ∈ insertField k v fields) : kv = (k, v) ∨ kv ∈ fields := by
  induction fields with
  | nil => exact .inl (List.mem_singleton.mp h)
  | cons kv' rest ih =>
      obtain ⟨k', v'⟩ := kv'
      rw [insertField] at h
      split at h
      · simpa using h
      · split at h
        · rcases List.mem_cons.mp h with h | h
          · exact .inl h
          · exact .inr (List.mem_cons_of_mem _ h)
        · rcases List.mem_cons.mp h with h | h
          · exact .inr (by simp [h])
          · exact (ih h).imp_right (List.mem_cons_of_mem _)

theorem sorted_insertField (k : String) (v : Json F) {fields : List (String × Json F)}
    (h : (fields.map Prod.fst).Pairwise (· < ·)) :
    ((insertField k v fields).map Prod.fst).Pairwise (· < ·) := by
  induction fields with
  | nil => simp [insertField]
  | cons kv rest ih =>
      obtain ⟨k', v'⟩ := kv
      obtain ⟨hhead, htail⟩ := List.pairwise_cons.mp h
      rw [insertField]
      split
      · rename_i hlt
        refine List.pairwise_cons.mpr ⟨?_, h⟩
        rintro a ha
        rcases List.mem_cons.mp ha with rfl | ha
        · exact hlt
        · exact hlt.trans (hhead a ha)
      · rename_i hlt
        split
        · rename_i heq
          subst heq
          exact h
        · rename_i hne
          refine List.pairwise_cons.mpr ⟨?_, ih htail⟩
          rintro a ha
          obtain ⟨kv, hkv, rfl⟩ := List.mem_map.mp ha
          rcases mem_insertField hkv with rfl | hkv
          · exact lt_of_le_of_ne (not_lt.mp hlt) (Ne.symm hne)
          · exact hhead _ (List.mem_map_of_mem hkv)

theorem lookupField_insertField (k k' : String) (v : Json F) (fields : List (String × Json F)) :
    lookupField k' (insertField k v fields) =
      if k' = k then some v else lookupField k' fields := by
  induction fields with
  | nil => simp [insertField, lookupField]
  | cons kv rest ih =>
      obtain ⟨a, w⟩ := kv
      rw [insertField]
      split
      · rfl
      · split
        · rename_i hk
          subst hk
          by_cases h : k' = k <;> simp [lookupField, h]
        · rename_i hk
          rw [lookupField, ih, lookupField]
          by_cases h : k' = a
          · subst h
            simp [Ne.symm hk]
          · simp [h]

theorem insertField_comm {k k' : String} (hne : k ≠ k') (v v' : Json F)
    (fields : List (String × Json F)) :
    insertField k v (insertField k' v' fields) = insertField k' v' (insertField k v fields) := by
  induction fields with
  | nil =>
      rcases lt_or_gt_of_ne hne with hlt | hlt
      · simp [insertField, hlt, hlt.not_gt, hne.symm]
      · simp [insertField, hlt, hlt.not_gt, hne]
  | cons kv rest ih =>
      obtain ⟨a, w⟩ := kv
      rcases lt_trichotomy k a with h | h | h
      · rcases lt_trichotomy k' a with h' | rfl | h'
        · rcases lt_or_gt_of_ne hne with hlt | hlt
          · simp [insertField, h, h', hlt, hlt.not_gt, hne.symm]
          · simp [insertField, h, h', hlt, hlt.not_gt, hne]
        · simp [insertField, h, h.not_gt, h.ne']
        · have hlt : k < k' := h.trans h'
          simp [insertField, h, h'.not_gt, h'.ne', hlt.not_gt, hlt.ne']
      · subst h
        rcases lt_or_gt_of_ne hne with hlt | hlt
        · simp [insertField, hlt.not_gt, hlt.ne']
        · simp [insertField, hlt, hlt.not_gt, hlt.ne']
      · rcases lt_trichotomy k' a with h' | rfl | h'
        · have hlt : k' < k := h'.trans h
          simp [insertField, h', h.not_gt, h.ne', hlt.not_gt, hlt.ne']
        · simp [insertField, h.not_gt, h.ne']
        · simp [insertField, h.not_gt, h.ne', h'.not_gt, h'.ne', ih]

/-! ## Values -/

/-- A map from keys to values. -/
structure Map (F : Type) where
  fields : List (String × Json F)
  canonical : Canonical (.object fields)

/-- A value with sorted objects. -/
structure Value (F : Type) where
  tree : Json F
  canonical : Canonical tree

namespace Value

def null : Value F := ⟨.null, .null⟩

def str (s : String) : Value F := ⟨.str s, .str s⟩

def u64 (n : UInt64) : Value F := ⟨.posInt n, .posInt n⟩

def object (m : Map F) : Value F := ⟨.object m.fields, m.canonical⟩

def array (items : List (Value F)) : Value F where
  tree := .array (items.map Value.tree)
  canonical := by
    refine .array ?_
    rintro v hv
    obtain ⟨w, -, rfl⟩ := List.mem_map.mp hv
    exact w.canonical

def asStr? (v : Value F) : Option String :=
  match v.tree with
  | .str s => some s
  | _ => none

def asU64? (v : Value F) : Option UInt64 :=
  match v.tree with
  | .posInt n => some n
  | _ => none

def isNull (v : Value F) : Bool :=
  match v.tree with
  | .null => true
  | _ => false

def bool (b : Bool) : Value F := ⟨.bool b, .bool b⟩

def asBool? (v : Value F) : Option Bool :=
  match v.tree with
  | .bool b => some b
  | _ => none

def asArray? (v : Value F) : Option (List (Value F)) :=
  match v with
  | ⟨.array items, h⟩ => some (items.pmap Value.mk fun _ hv ↦ h.of_mem_array hv)
  | _ => none

@[simp] theorem asStr?_str (s : String) : (str s : Value F).asStr? = some s := rfl

@[simp] theorem asU64?_u64 (n : UInt64) : (u64 n : Value F).asU64? = some n := rfl

@[simp] theorem asBool?_bool (b : Bool) : (bool b : Value F).asBool? = some b := rfl

@[simp] theorem asArray?_array (items : List (Value F)) : (array items).asArray? = some items := by
  rw [array, asArray?, List.pmap_map]
  change some (List.pmap (fun v _ ↦ id v) items _) = some items
  rw [List.pmap_eq_map, List.map_id]

@[simp] theorem isNull_str (s : String) : (str s : Value F).isNull = false := rfl

@[simp] theorem isNull_u64 (n : UInt64) : (u64 n : Value F).isNull = false := rfl

@[simp] theorem isNull_object (m : Map F) : (object m).isNull = false := rfl

end Value

namespace Map

def empty : Map F := ⟨[], .object .nil (by simp)⟩

def insert (k : String) (v : Value F) (m : Map F) : Map F where
  fields := insertField k v.tree m.fields
  canonical := by
    refine .object (sorted_insertField k v.tree m.canonical.sorted) ?_
    rintro kv hkv
    rcases mem_insertField hkv with rfl | hkv
    · exact v.canonical
    · exact m.canonical.of_mem_object hkv

/-- Set a key that has no value yet. -/
def insertNew (k : String) (v : Value F) (m : Map F) : Map F :=
  if (lookupField k m.fields).isSome then m else m.insert k v

/-- Fields in the order in which they are set. -/
def ofList (fields : List (String × Value F)) : Map F :=
  fields.foldl (fun m kv ↦ m.insert kv.1 kv.2) empty

def get? (m : Map F) (k : String) : Option (Value F) :=
  match h : lookupField k m.fields with
  | some v => some ⟨v, m.canonical.of_mem_object (mem_of_lookupField h)⟩
  | none => none

theorem get?_tree (m : Map F) (k : String) :
    (m.get? k).map Value.tree = lookupField k m.fields := by
  rw [get?]
  split
  · rename_i h
    exact h.symm
  · rename_i h
    exact h.symm

theorem tree_injective {a b : Value F} (h : a.tree = b.tree) : a = b := by
  cases a
  cases b
  cases h
  rfl

theorem get?_eq_of_tree {m : Map F} {k : String} {x : Option (Value F)}
    (h : lookupField k m.fields = x.map Value.tree) : m.get? k = x := by
  refine Option.map_injective (fun a b ↦ tree_injective) ?_
  exact (get?_tree m k).trans h

@[simp] theorem get?_empty (k : String) : (empty : Map F).get? k = none :=
  get?_eq_of_tree rfl

@[simp] theorem get?_insert (m : Map F) (k k' : String) (v : Value F) :
    (m.insert k v).get? k' = if k' = k then some v else m.get? k' := by
  refine get?_eq_of_tree ?_
  rw [insert, lookupField_insertField]
  split
  · rfl
  · rw [get?_tree]

theorem fields_injective {m m' : Map F} (h : m.fields = m'.fields) : m = m' := by
  cases m
  cases m'
  cases h
  rfl

theorem insert_comm {k k' : String} (hne : k ≠ k') (v v' : Value F) (m : Map F) :
    (m.insert k' v').insert k v = (m.insert k v).insert k' v' := by
  apply fields_injective
  exact insertField_comm hne v.tree v'.tree m.fields

/-- Fields with different names may be set in the opposite order. -/
theorem ofList_eq_foldr {fields : List (String × Value F)} (h : (fields.map Prod.fst).Nodup) :
    ofList fields = fields.foldr (fun kv m ↦ m.insert kv.1 kv.2) empty := by
  rw [List.foldr_eq_foldl_reverse, ofList]
  apply List.Perm.foldl_eq' (List.reverse_perm fields).symm
  rintro kv hkv kv' hkv' m
  by_cases hne : kv.1 = kv'.1
  · obtain rfl := List.inj_on_of_nodup_map h hkv hkv' hne
    rfl
  · apply insert_comm (Ne.symm hne)

theorem lookupField_foldr {k : String} {fields : List (String × Value F)}
    (h : k ∉ fields.map Prod.fst) :
    lookupField k (fields.foldr (fun kv m ↦ m.insert kv.1 kv.2) empty : Map F).fields = none := by
  induction fields with
  | nil => rfl
  | cons kv rest ih =>
      rw [List.map_cons, List.mem_cons, not_or] at h
      rw [List.foldr_cons, insert, lookupField_insertField, if_neg h.1]
      exact ih h.2

/-- Fields with different names are all new. -/
theorem foldr_insertNew {fields : List (String × Value F)} (h : (fields.map Prod.fst).Nodup) :
    fields.foldr (fun kv m ↦ m.insertNew kv.1 kv.2) empty = ofList fields := by
  rw [ofList_eq_foldr h]
  induction fields with
  | nil => rfl
  | cons kv rest ih =>
      obtain ⟨hnew, hrest⟩ := List.nodup_cons.mp h
      rw [List.foldr_cons, ih hrest, insertNew, lookupField_foldr hnew]
      rfl

end Map

namespace Value

/-- The field of an object. -/
def get? (v : Value F) (k : String) : Option (Value F) :=
  match v with
  | ⟨.object fields, h⟩ => Map.get? ⟨fields, h⟩ k
  | _ => none

@[simp] theorem get?_object (m : Map F) (k : String) : (object m).get? k = m.get? k := rfl

theorem exists_object_of_get? {v x : Value F} {k : String} (h : v.get? k = some x) :
    ∃ m, v = object m := by
  obtain ⟨tree, hcanonical⟩ := v
  cases tree with
  | object fields => exact ⟨⟨fields, hcanonical⟩, rfl⟩
  | _ => cases h

theorem object_injective {m m' : Map F} (h : object m = object m') : m = m' := by
  cases m
  cases m'
  cases h
  rfl

/-- The fields of a structure with these names, which stands as an object or as
the sequence of its fields. -/
def members? (names : List String) (v : Value F) : Option (String → Option (Value F)) :=
  match v with
  | ⟨.object fields, h⟩ => some (Map.get? ⟨fields, h⟩)
  | ⟨.array items, h⟩ =>
      let values := items.pmap Value.mk fun _ hv ↦ h.of_mem_array hv
      if values.length ≤ names.length then some fun k ↦ (names.zip values).lookup k else none
  | _ => none

@[simp] theorem members?_object (names : List String) (m : Map F) :
    (object m).members? names = some m.get? := rfl

end Value

/-! ## Fields of a structure -/

/-- A field that has to be there. -/
def required {α : Type} (field : Option (Value F)) (read : Value F → Option α) : Option α :=
  field.bind read

/-- A field that may be missing or null. -/
def optional {α : Type} (field : Option (Value F)) (read : Value F → Option α) :
    Option (Option α) :=
  match field with
  | none => some none
  | some v => if v.isNull then some none else (read v).map some

end Json

/-- Writing values and reading them, or structures, from text. -/
structure SerdeJson (F : Type) where
  toString : Json.Value F → String
  fromStr : {α : Type} → (Json.Value F → Option α) → String → Option α
  /-- What was written is read as it was. -/
  fromStr_toString : ∀ {α : Type} (read : Json.Value F → Option α) (v : Json.Value F),
    fromStr read (toString v) = read v
  /-- There is no value in an empty text. -/
  fromStr_empty : ∀ {α : Type} (read : Json.Value F → Option α), fromStr read "" = none
  /-- A structure is read from a text as from the value of that text. -/
  fromStr_agrees : ∀ {α : Type} (read : Json.Value F → Option α) {s : String}
    {v : Json.Value F} {x : α}, fromStr some s = some v → fromStr read s = some x →
      read v = some x

namespace SerdeJson

variable {F : Type} (serde : SerdeJson F)

def toVec (v : Json.Value F) : Bytes := Bytes.utf8 (serde.toString v)

def fromSlice {α : Type} (read : Json.Value F → Option α) (bs : Bytes) : Option α :=
  (Bytes.fromUtf8 bs).bind (serde.fromStr read)

@[simp] theorem fromSlice_toVec {α : Type} (read : Json.Value F → Option α) (v : Json.Value F) :
    serde.fromSlice read (serde.toVec v) = read v := by
  rw [fromSlice, toVec, Bytes.fromUtf8_utf8]
  apply serde.fromStr_toString

theorem toVec_injective {v w : Json.Value F} (h : serde.toVec v = serde.toVec w) : v = w := by
  have hv := serde.fromSlice_toVec some v
  rw [h, serde.fromSlice_toVec] at hv
  exact (Option.some.inj hv).symm

/-- Writing structures: their fields in the order in which they are declared. -/
structure StructWriter where
  toString : List (String × Json.Value F) → String
  /-- The text of a structure is read as the object of its fields. -/
  fromStr_toString : ∀ {α : Type} (read : Json.Value F → Option α)
    {fields : List (String × Json.Value F)}, (fields.map Prod.fst).Nodup →
      serde.fromStr read (toString fields) = read (.object (.ofList fields))

end SerdeJson

end BeeEngine
