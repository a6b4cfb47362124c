import OneCollect.Dotnet.FieldsParser
import OneCollect.Theory.Parser

/-! Lists of fields as a runtime encodes them, and what is parsed of them (`nettrace.rs`,
`FieldsParserV5`). In the first version a field is its type and then its name, and an object is the
list of its fields between the two; in the second a field has its length in front. Fields are
parsed in order as long as no object without fields comes up: its count is taken for the start of
the second version, and what is behind it is lost. -/

namespace OneCollect.Dotnet
open Theory EventFormat

namespace FieldsParserV5

/-! ## Fields -/

inductive Primitive where
  | bool
  | utf16CodeUnit
  | sbyte
  | byte
  | int16
  | uint16
  | int32
  | uint32
  | int64
  | uint64
  | single
  | double
  | dateTime
  | guid
  deriving DecidableEq, Repr

namespace Primitive

def number : Primitive → Nat
  | bool => 3
  | utf16CodeUnit => 4
  | sbyte => 5
  | byte => 6
  | int16 => 7
  | uint16 => 8
  | int32 => 9
  | uint32 => 10
  | int64 => 11
  | uint64 => 12
  | single => 13
  | double => 14
  | dateTime => 16
  | guid => 17

def typeName : Primitive → String
  | bool => "u32"
  | utf16CodeUnit => "u16"
  | sbyte => "s8"
  | byte => "u8"
  | int16 => "s16"
  | uint16 => "u16"
  | int32 => "s32"
  | uint32 => "u32"
  | int64 => "s64"
  | uint64 => "u64"
  | single => "float"
  | double => "double"
  | dateTime => "u8"
  | guid => "u8"

def size : Primitive → Nat
  | sbyte | byte => 1
  | utf16CodeUnit | int16 | uint16 => 2
  | bool | int32 | uint32 | single => 4
  | int64 | uint64 | double => 8
  | dateTime | guid => 16

end Primitive

inductive LeafType where
  | primitive (type : Primitive)
  | string
  | array (element : Primitive)
  deriving DecidableEq, Repr

namespace LeafType

def bytes : LeafType → List UInt8
  | primitive type => toLe 4 type.number
  | string => toLe 4 18
  | array element => toLe 4 19 ++ toLe 4 element.number

def typeName : LeafType → String
  | primitive type => type.typeName
  | string => "string"
  | array element => "__dyn_array " ++ element.typeName

def size : LeafType → Nat
  | primitive type => type.size
  | string | array _ => 0

def location : LeafType → LocationType
  | primitive _ => .static
  | string => .staticUTF16String
  | array _ => .staticLenPrefixArray

end LeafType

structure Leaf where
  name : Name
  type : LeafType

/-- Fields one behind the other, each where those before it end. -/
def placed : Nat → List Leaf → List EventField
  | _, [] => []
  | offset, leaf :: leaves =>
    ⟨String.ofList leaf.name.chars, leaf.type.typeName, leaf.type.location, offset,
      leaf.type.size⟩ :: placed (offset + leaf.type.size) leaves

def appendLeaf (format : EventFormat) (leaf : Leaf) : EventFormat :=
  appendField format (String.ofList leaf.name.chars) leaf.type.typeName leaf.type.size

theorem location_eq (type : LeafType) :
    (if type.typeName = "string" then LocationType.staticUTF16String
      else if "__dyn_array".toList.isPrefixOf type.typeName.toList then .staticLenPrefixArray
      else .static) = type.location := by
  cases type with
  | primitive type => cases type <;> decide
  | string => decide
  | array element => cases element <;> decide

/-- Where the next field goes. -/
theorem nextOffset_placed (offset : Nat) (leaf : Leaf) (leaves : List Leaf) :
    nextOffset ⟨placed offset (leaf :: leaves)⟩ =
      offset + ((leaf :: leaves).map (·.type.size)).sum := by
  induction leaves generalizing offset leaf with
  | nil => simp [nextOffset, placed]
  | cons next leaves ih =>
    have hnext := ih (offset + leaf.type.size) next
    rw [List.map_cons, List.sum_cons, ← Nat.add_assoc, ← hnext]
    simp [nextOffset, placed]

theorem placed_concat (offset : Nat) (leaves : List Leaf) (leaf : Leaf) :
    placed offset (leaves ++ [leaf]) = placed offset leaves ++
      placed (offset + (leaves.map (·.type.size)).sum) [leaf] := by
  induction leaves generalizing offset with
  | nil => simp [placed]
  | cons first leaves ih =>
    have hcons : ∀ leaves, placed offset (first :: leaves) =
        _ :: placed (offset + first.type.size) leaves := fun _ => rfl
    rw [List.cons_append, hcons, ih, hcons, List.map_cons, List.sum_cons, Nat.add_assoc,
      List.cons_append]

theorem length_placed (offset : Nat) (leaves : List Leaf) :
    (placed offset leaves).length = leaves.length := by
  induction leaves generalizing offset with
  | nil => rfl
  | cons leaf leaves ih => rw [placed, List.length_cons, ih, List.length_cons]

theorem appendLeaf_placed (leaves : List Leaf) (leaf : Leaf) :
    appendLeaf ⟨placed 0 leaves⟩ leaf = ⟨placed 0 (leaves ++ [leaf])⟩ := by
  have hoffset : nextOffset ⟨placed 0 leaves⟩ = (leaves.map (·.type.size)).sum := by
    cases leaves with
    | nil => rfl
    | cons first leaves => rw [nextOffset_placed, Nat.zero_add]
  rw [placed_concat, Nat.zero_add, ← hoffset]
  simp only [appendLeaf, appendField, location_eq]
  rfl

theorem foldl_appendLeaf (leaves : List Leaf) :
    leaves.foldl appendLeaf {} = ⟨placed 0 leaves⟩ := by
  induction leaves using List.reverseRecOn with
  | nil => rfl
  | append_singleton leaves leaf ih => rw [List.foldl_concat, ih, appendLeaf_placed]

theorem readInt_toLe {n : Nat} (h : n < 2 ^ 32) (rest : List UInt8) :
    readInt (toLe 4 n ++ rest) = some n := by
  have hvalue : fromLe (toLe 4 n) = n := fromLe_toLe_of_lt h
  rw [readInt, if_neg (by simp), List.take_left' (length_toLe 4 n), hvalue]

theorem parseType_toLe {n : Nat} (h : n < 2 ^ 32) (rest : List UInt8) :
    parseType (toLe 4 n ++ rest) = fieldTypes.lookup n := by
  rw [parseType, readInt_toLe h]
  rfl

@[simp] theorem drop_toLe (n : Nat) (rest : List UInt8) : (toLe 4 n ++ rest).drop 4 = rest :=
  List.drop_left' (length_toLe 4 n)

theorem Primitive.lookup (type : Primitive) :
    fieldTypes.lookup type.number = some (type.typeName, type.size) := by
  cases type <;> decide

theorem Primitive.number_lt (type : Primitive) : type.number < 2 ^ 32 := by
  cases type <;> decide

theorem Primitive.typeName_ne (type : Primitive) :
    type.typeName ≠ "object" ∧ type.typeName ≠ "array" := by
  cases type <;> decide

/-! ## The second version

A field has the length of all of it in front. -/

structure Entry where
  leaf : Leaf
  fits : 4 + leaf.name.bytes.length + leaf.type.bytes.length < 2 ^ 32

namespace Entry

def length (entry : Entry) : Nat := 4 + entry.leaf.name.bytes.length + entry.leaf.type.bytes.length

def bytes (entry : Entry) : List UInt8 :=
  toLe 4 entry.length ++ (entry.leaf.name.bytes ++ entry.leaf.type.bytes)

theorem length_bytes (entry : Entry) : entry.bytes.length = entry.length := by
  simp only [bytes, length, List.length_append, length_toLe]
  omega

theorem fieldHead_bytes (entry : Entry) (rest : List UInt8) :
    fieldHead true (entry.bytes ++ rest) =
      some (some rest, entry.leaf.name.chars, entry.leaf.type.bytes ++ rest) := by
  have hfits : entry.length < 2 ^ 32 := entry.fits
  have hsize : readInt (entry.bytes ++ rest) = some entry.length := by
    rw [bytes, List.append_assoc, readInt_toLe hfits]
  have hname : readString ((entry.bytes ++ rest).drop 4) =
      (entry.leaf.name.chars, entry.leaf.type.bytes ++ rest) := by
    rw [bytes, List.append_assoc, drop_toLe, List.append_assoc, Name.readString_bytes]
  rw [fieldHead, if_pos rfl, hsize, hname]
  dsimp only
  rw [if_neg (by rw [List.length_append, length_bytes]; omega),
    List.drop_left' entry.length_bytes]

/-- One turn of the loop. -/
theorem parseFields_bytes (parseObject : List UInt8 → EventFormat → List UInt8 × EventFormat)
    (count : Nat) (entry : Entry) (rest : List UInt8) (format : EventFormat) :
    parseFields parseObject true (count + 1) (entry.bytes ++ rest) format =
      parseFields parseObject true count rest (appendLeaf format entry.leaf) := by
  rw [parseFields, fieldHead_bytes]
  obtain ⟨⟨name, type⟩, fits⟩ := entry
  dsimp only
  cases type with
  | primitive type =>
    obtain ⟨hobject, harray⟩ := type.typeName_ne
    rw [LeafType.bytes, parseType_toLe type.number_lt, type.lookup]
    simp only [hobject, harray, ↓reduceIte, Option.getD_some]
    rfl
  | string =>
    rw [LeafType.bytes, parseType_toLe (by decide)]
    rfl
  | array element =>
    obtain ⟨hobject, harray⟩ := element.typeName_ne
    have harrayType : fieldTypes.lookup 19 = some ("array", 0) := by decide
    rw [LeafType.bytes, List.append_assoc, parseType_toLe (by decide), harrayType]
    simp only [drop_toLe, parseType_toLe element.number_lt, element.lookup]
    simp only [hobject, harray, or_self, ↓reduceIte, Option.getD_some]
    rfl

theorem parseFields_flatMap (parseObject : List UInt8 → EventFormat → List UInt8 × EventFormat)
    (entries : List Entry) (rest : List UInt8) (format : EventFormat) :
    parseFields parseObject true entries.length (entries.flatMap bytes ++ rest) format =
      (rest, (entries.map leaf).foldl appendLeaf format) := by
  induction entries generalizing format with
  | nil => rfl
  | cons entry entries ih =>
    rw [List.length_cons, List.flatMap_cons, List.append_assoc, parseFields_bytes, ih]
    rfl

end Entry

/-- A list of the second version, in the tag of its kind behind an empty list of the first. -/
structure EntryList where
  entries : List Entry
  fits : 4 + (entries.flatMap Entry.bytes).length < 2 ^ 32

namespace EntryList

def payload (list : EntryList) : List UInt8 :=
  toLe 4 list.entries.length ++ list.entries.flatMap Entry.bytes

def bytes (list : EntryList) : List UInt8 :=
  toLe 4 0 ++ (toLe 4 list.payload.length ++ 2 :: list.payload)

def leaves (list : EntryList) : List Leaf := list.entries.map Entry.leaf

theorem length_payload (list : EntryList) :
    list.payload.length = 4 + (list.entries.flatMap Entry.bytes).length := by
  rw [payload, List.length_append, length_toLe]

theorem count_lt (list : EntryList) : list.entries.length < 2 ^ 32 := by
  have hpos : ∀ entry ∈ list.entries, entry.bytes ≠ [] := fun entry _ hnil => by
    have hlength := entry.length_bytes
    rw [hnil, Entry.length, List.length_nil] at hlength
    omega
  have hcount := length_le_flatMap hpos
  have hfits := list.fits
  omega

theorem parse_bytes (list : EntryList) : parse list.bytes = ⟨placed 0 list.leaves⟩ := by
  have hpayload : list.payload.length < 2 ^ 32 := list.length_payload ▸ list.fits
  have hcount : fieldCount 0 (toLe 4 list.payload.length ++ 2 :: list.payload) =
      some (list.entries.length, true, list.entries.flatMap Entry.bytes) := by
    have hsize : list.payload.length ≠ 0 := by rw [length_payload]; omega
    rw [fieldCount, if_neg (not_not.mpr rfl), readInt_toLe hpayload]
    simp only [drop_toLe]
    rw [if_neg (by simp [hsize]), payload, readInt_toLe list.count_lt]
    simp only [drop_toLe]
  have hrun := Entry.parseFields_flatMap (parseObject 31) list.entries [] {}
  rw [List.append_nil] at hrun
  rw [parse, parseObject, bytes, readInt_toLe (by decide), drop_toLe]
  dsimp only
  rw [hcount]
  dsimp only
  rw [hrun, foldl_appendLeaf, leaves]

end EntryList

/-! ## The first version

A list of fields is its first field and the list behind it; an object has a list of its own. -/

inductive Fields where
  | nil
  | primitive (type : Primitive) (name : Name) (rest : Fields)
  | string (name : Name) (rest : Fields)
  | object (fields : Fields) (name : Name) (rest : Fields)

namespace Fields

def length : Fields → Nat
  | nil => 0
  | primitive _ _ rest | string _ rest | object _ _ rest => rest.length + 1

def bytes : Fields → List UInt8
  | nil => []
  | primitive type name rest => toLe 4 type.number ++ (name.bytes ++ rest.bytes)
  | string name rest => toLe 4 18 ++ (name.bytes ++ rest.bytes)
  | object fields name rest =>
    toLe 4 1 ++ (toLe 4 fields.length ++ (fields.bytes ++ (name.bytes ++ rest.bytes)))

/-- The fields that are not objects, in order. -/
def leaves : Fields → List Leaf
  | nil => []
  | primitive type name rest => ⟨name, .primitive type⟩ :: rest.leaves
  | string name rest => ⟨name, .string⟩ :: rest.leaves
  | object fields _ rest => fields.leaves ++ rest.leaves

/-- The levels of objects, with that of the list itself. -/
def depth : Fields → Nat
  | nil => 1
  | primitive _ _ rest | string _ rest => rest.depth
  | object fields _ rest => max (fields.depth + 1) rest.depth

theorem depth_pos (fields : Fields) : 1 ≤ fields.depth := by
  induction fields with
  | nil => exact le_refl _
  | primitive type name rest ih => exact ih
  | string name rest ih => exact ih
  | object fields name rest ihFields ihRest => exact le_trans ihRest (le_max_right _ _)

theorem bytes_of_length {fields : Fields} (h : fields.length = 0) : fields.bytes = [] := by
  cases fields with
  | nil => rfl
  | _ => exact absurd h (Nat.succ_ne_zero _)

/-- Every count is a word. -/
def Fits : Fields → Prop
  | nil => True
  | primitive _ _ rest | string _ rest => rest.Fits
  | object fields _ rest => fields.Fits ∧ fields.length < 2 ^ 32 ∧ rest.Fits

instance decidableFits : (fields : Fields) → Decidable fields.Fits
  | nil => .isTrue trivial
  | primitive _ _ rest | string _ rest => decidableFits rest
  | object fields _ rest =>
    have := decidableFits fields
    have := decidableFits rest
    inferInstanceAs (Decidable (_ ∧ _ ∧ _))

/-- What is encoded behind the count of the first object without fields, when the list is
followed by other bytes. -/
def behindEmpty : Fields → List UInt8 → Option (List UInt8)
  | nil, _ => none
  | primitive _ _ rest, tail | string _ rest, tail => rest.behindEmpty tail
  | object fields name rest, tail =>
    let behind := name.bytes ++ (rest.bytes ++ tail)
    if fields.length = 0 then some behind
    else (fields.behindEmpty behind).or (rest.behindEmpty tail)

/-- The leaves in front of the first object without fields, and whether there is such an object. -/
def kept : Fields → List Leaf × Bool
  | nil => ([], false)
  | primitive type name rest => (⟨name, .primitive type⟩ :: rest.kept.1, rest.kept.2)
  | string name rest => (⟨name, .string⟩ :: rest.kept.1, rest.kept.2)
  | object fields _ rest =>
    if fields.length = 0 then ([], true)
    else if fields.kept.2 then fields.kept
    else (fields.kept.1 ++ rest.kept.1, rest.kept.2)

/-- Where there is no object without fields, all leaves are kept. -/
theorem kept_of_not {fields : Fields} (h : fields.kept.2 = false) :
    fields.kept.1 = fields.leaves := by
  induction fields with
  | nil => rfl
  | primitive type name rest ih => exact congrArg _ (ih h)
  | string name rest ih => exact congrArg _ (ih h)
  | object fields name rest ihFields ihRest =>
    rw [kept] at h ⊢
    split_ifs at h ⊢ with hempty hfields
    · rw [hfields] at h
      cases h
    · rw [ihFields (by simpa using hfields), ihRest h, leaves]

theorem kept_inFront (fields : Fields) : fields.kept.1 <+: fields.leaves := by
  induction fields with
  | nil => exact List.prefix_rfl
  | primitive type name rest ih => exact List.cons_prefix_cons.mpr ⟨rfl, ih⟩
  | string name rest ih => exact List.cons_prefix_cons.mpr ⟨rfl, ih⟩
  | object fields name rest ihFields ihRest =>
    rw [kept, leaves]
    split_ifs with hempty hfields
    · exact List.nil_prefix
    · exact ihFields.trans (List.prefix_append _ _)
    · rw [kept_of_not (by simpa using hfields)]
      exact (List.prefix_append_right_inj _).mpr ihRest

theorem behindEmpty_of_not {fields : Fields} (h : fields.kept.2 = false) (tail : List UInt8) :
    fields.behindEmpty tail = none := by
  induction fields generalizing tail with
  | nil => rfl
  | primitive type name rest ih => exact ih h tail
  | string name rest ih => exact ih h tail
  | object fields name rest ihFields ihRest =>
    rw [kept] at h
    split_ifs at h with hempty hfields
    · rw [hfields] at h
      cases h
    · rw [behindEmpty, if_neg hempty, ihFields (by simpa using hfields), ihRest h]
      rfl

/-! ### The loop

It stops where less than a type is left. -/

theorem parseFields_of_short {parseObject : List UInt8 → EventFormat → List UInt8 × EventFormat}
    {bytes : List UInt8} (h : bytes.length < 4) (count : Nat) (format : EventFormat) :
    parseFields parseObject false count bytes format = (bytes, format) := by
  cases count with
  | zero => rfl
  | succ count =>
    have hnone : parseType bytes = none := by
      rw [parseType, readInt, if_pos h]
      rfl
    rw [parseFields, fieldHead, if_neg (by decide)]
    dsimp only
    rw [hnone]

theorem length_readString_le (bytes : List UInt8) :
    (readString bytes).2.length ≤ bytes.length := by
  fun_induction readString bytes with
  | case1 a b rest unit hzero => simp; omega
  | case2 a b rest unit hzero name rest' hread ih =>
    rw [hread] at ih
    have hrest : rest'.length ≤ rest.length := ih
    change rest'.length ≤ (a :: b :: rest).length
    rw [List.length_cons, List.length_cons]
    omega
  | case3 => exact le_refl _

/-- A field that is not an object. -/
theorem parseFields_leaf (parseObject : List UInt8 → EventFormat → List UInt8 × EventFormat)
    {number : Nat} (type : LeafType) (hnumber : number < 2 ^ 32)
    (hlookup : fieldTypes.lookup number = some (type.typeName, type.size))
    (hname : type.typeName ≠ "object" ∧ type.typeName ≠ "array") (name : Name) (count : Nat)
    (rest : List UInt8) (format : EventFormat) :
    parseFields parseObject false (count + 1) (toLe 4 number ++ (name.bytes ++ rest)) format =
      parseFields parseObject false count rest (appendLeaf format ⟨name, type⟩) := by
  rw [parseFields, fieldHead, if_neg (by decide)]
  dsimp only
  rw [parseType_toLe hnumber, hlookup]
  simp only [hname.1, hname.2, ↓reduceIte, drop_toLe, Bool.false_eq_true, Name.readString_bytes,
    Option.getD_none]
  rfl

/-- A field that is an object. -/
theorem parseFields_object (parseObject : List UInt8 → EventFormat → List UInt8 × EventFormat)
    (count : Nat) (rest : List UInt8) (format : EventFormat) :
    parseFields parseObject false (count + 1) (toLe 4 1 ++ rest) format =
      parseFields parseObject false count (readString (parseObject rest format).1).2
        (parseObject rest format).2 := by
  have hlookup : fieldTypes.lookup 1 = some ("object", 0) := by decide
  rw [parseFields, fieldHead, if_neg (by decide)]
  dsimp only
  rw [parseType_toLe (by decide), hlookup]
  simp only [↓reduceIte, drop_toLe, Bool.false_eq_true, Option.getD_none]

/-- An object without fields is taken for the start of the second version. -/
theorem parseObject_empty (levels : Nat) {behind : List UInt8} (htag : behind[4]? ≠ some 2)
    (format : EventFormat) :
    ∃ stop, parseObject (levels + 1) (toLe 4 0 ++ behind) format = (stop, format) ∧
      stop.length < 4 := by
  rw [parseObject, readInt_toLe (by decide), drop_toLe]
  dsimp only
  rw [fieldCount, if_neg (not_not.mpr rfl), readInt]
  by_cases hshort : behind.length < 4
  · rw [if_pos hshort]
    exact ⟨behind, rfl, hshort⟩
  · rw [if_neg hshort]
    dsimp only
    rcases hdrop : behind.drop 4 with _ | ⟨tag, rest⟩
    · exact ⟨[], rfl, by decide⟩
    · have htag' : tag ≠ 2 := by
        rintro rfl
        have hget : (behind.drop 4)[0]? = behind[4]? := List.getElem?_drop
        rw [hdrop] at hget
        exact htag hget.symm
      dsimp only
      rw [if_pos (.inr htag')]
      exact ⟨[], rfl, by decide⟩

/-- **The loop over fields.** It reads all of them, or it stops at an object without fields. -/
theorem parseFields_bytes {fields : Fields} (hfits : fields.Fits) (levels : Nat)
    (hdepth : fields.depth ≤ levels + 1) (tail : List UInt8)
    (htag : ∀ behind, fields.behindEmpty tail = some behind → behind[4]? ≠ some 2)
    (format : EventFormat) :
    ∃ stop, parseFields (parseObject levels) false fields.length (fields.bytes ++ tail) format =
      (if fields.kept.2 then stop else tail, fields.kept.1.foldl appendLeaf format) ∧
      stop.length < 4 := by
  induction fields generalizing levels tail format with
  | nil => exact ⟨[], rfl, by decide⟩
  | primitive type name rest ih =>
    rw [length, bytes, List.append_assoc, List.append_assoc,
      parseFields_leaf _ (.primitive type) type.number_lt type.lookup type.typeName_ne]
    exact ih hfits levels hdepth tail htag _
  | string name rest ih =>
    rw [length, bytes, List.append_assoc, List.append_assoc,
      parseFields_leaf _ .string (by decide) (by decide) (by decide)]
    exact ih hfits levels hdepth tail htag _
  | object fields name rest ihFields ihRest =>
    obtain ⟨hfitsFields, hcount, hfitsRest⟩ := hfits
    have hlevels : fields.depth + 1 ≤ levels + 1 := le_trans (le_max_left _ _) hdepth
    have hrest : rest.depth ≤ levels + 1 := le_trans (le_max_right _ _) hdepth
    have hpos := fields.depth_pos
    obtain ⟨levels, rfl⟩ : ∃ below, levels = below + 1 := ⟨levels - 1, by omega⟩
    have hbytes : bytes (object fields name rest) ++ tail = toLe 4 1 ++ (toLe 4 fields.length ++
        (fields.bytes ++ (name.bytes ++ (rest.bytes ++ tail)))) := by
      simp only [bytes, List.append_assoc]
    rw [length, hbytes, parseFields_object, kept]
    rw [behindEmpty] at htag
    by_cases hempty : fields.length = 0
    · have hnil := bytes_of_length hempty
      rw [if_pos hempty] at htag ⊢
      rw [hempty, hnil, List.nil_append]
      obtain ⟨stop, hobject, hstop⟩ := parseObject_empty levels (htag _ rfl) format
      have hread := length_readString_le stop
      rw [hobject]
      dsimp only
      rw [parseFields_of_short (by omega)]
      exact ⟨_, rfl, by omega⟩
    · rw [if_neg hempty] at htag ⊢
      obtain ⟨stop, hrun, hstop⟩ := ihFields hfitsFields levels
        (Nat.le_of_succ_le_succ hlevels) (name.bytes ++ (rest.bytes ++ tail))
        (fun behind hbehind => htag behind (by rw [hbehind]; rfl)) format
      have hobject : parseObject (levels + 1) (toLe 4 fields.length ++
          (fields.bytes ++ (name.bytes ++ (rest.bytes ++ tail)))) format =
          parseFields (parseObject levels) false fields.length
            (fields.bytes ++ (name.bytes ++ (rest.bytes ++ tail))) format := by
        rw [parseObject, readInt_toLe hcount, drop_toLe]
        dsimp only
        rw [fieldCount, if_pos hempty]
      rw [hobject, hrun]
      dsimp only
      by_cases hfields : fields.kept.2 = true
      · have hread := length_readString_le stop
        rw [if_pos hfields, if_pos hfields, parseFields_of_short (by omega)]
        refine ⟨(readString stop).2, ?_, by omega⟩
        rw [if_pos hfields]
      · have hnot : fields.kept.2 = false := by simpa using hfields
        rw [behindEmpty_of_not hnot] at htag
        rw [if_neg hfields, if_neg hfields, Name.readString_bytes, List.foldl_append]
        exact ihRest hfitsRest _ hrest _ htag _

end Fields

/-- A list of the first version, in objects of as many levels as are parsed. -/
structure ObjectList where
  fields : Fields
  fits : fields.Fits
  count : fields.length < 2 ^ 32
  levels : fields.depth ≤ 32

namespace ObjectList

def bytes (list : ObjectList) : List UInt8 :=
  toLe 4 list.fields.length ++ list.fields.bytes

/-- Behind the first object without fields there is no byte that starts the second version. -/
def TagClear (list : ObjectList) : Prop :=
  ∀ behind, list.fields.behindEmpty [] = some behind → behind[4]? ≠ some 2

theorem parse_bytes (list : ObjectList) (htag : list.TagClear) :
    parse list.bytes = ⟨placed 0 list.fields.kept.1⟩ := by
  obtain ⟨stop, hrun, -⟩ := Fields.parseFields_bytes list.fits 31 list.levels [] htag {}
  rw [List.append_nil] at hrun
  by_cases hempty : list.fields.length = 0
  · have hnil : list.fields = .nil := by
      cases hfields : list.fields with
      | nil => rfl
      | _ =>
        rw [hfields] at hempty
        exact absurd hempty (Nat.succ_ne_zero _)
    rw [bytes, hnil]
    rfl
  · rw [parse, parseObject, bytes, readInt_toLe list.count, drop_toLe]
    dsimp only
    rw [fieldCount, if_pos hempty]
    dsimp only
    rw [hrun, foldl_appendLeaf]

end ObjectList

/-! ## Both versions -/

inductive FieldList where
  | v1 (list : ObjectList)
  | v2 (list : EntryList)

namespace FieldList

def bytes : FieldList → List UInt8
  | v1 list => list.bytes
  | v2 list => list.bytes

def leaves : FieldList → List Leaf
  | v1 list => list.fields.leaves
  | v2 list => list.leaves

/-- The leaves are parsed in order, each behind the one before it. -/
def Decodes (list : FieldList) : Prop := (parse list.bytes).fields = placed 0 list.leaves

/-- Behind the first object without fields there is no byte that starts the second version. -/
def TagClear : FieldList → Prop
  | v1 list => list.TagClear
  | v2 _ => True

/-- All leaves are in front of the first object without fields. -/
def LeavesInFront : FieldList → Prop
  | v1 list => list.fields.kept.1 = list.fields.leaves
  | v2 _ => True

theorem decodes_iff {list : FieldList} (htag : list.TagClear) :
    list.Decodes ↔ list.LeavesInFront := by
  cases list with
  | v1 list =>
    have hparse : (parse list.bytes).fields = placed 0 list.fields.kept.1 := by
      rw [list.parse_bytes htag]
    constructor
    · intro hdecodes
      have hlength := congrArg List.length (hparse.symm.trans hdecodes)
      rw [length_placed, length_placed] at hlength
      exact list.fields.kept_inFront.eq_of_length hlength
    · intro hfront
      exact hparse.trans (congrArg _ hfront)
  | v2 list => exact iff_of_true (by rw [Decodes, bytes, list.parse_bytes]; rfl) trivial

/-- **Lists of fields are decoded.** A list is decoded where all its leaves are in front of its
first object without fields, and not where one is behind it, as long as what is behind it does not
start the second version. -/
theorem decodes_of_leavesInFront (list : FieldList) :
    (list.TagClear ∧ list.LeavesInFront → list.Decodes) ∧
      (list.TagClear → list.Decodes → list.LeavesInFront) :=
  ⟨fun ⟨htag, hfront⟩ => (decodes_iff htag).mpr hfront, fun htag => (decodes_iff htag).mp⟩

/-- An object with a number in it, and a string. -/
def pair : FieldList :=
  .v1 ⟨.object (.primitive .int64 ⟨['n'], by decide, by decide⟩ .nil) ⟨['o'], by decide, by decide⟩
    (.string ⟨['s'], by decide, by decide⟩ .nil), by decide, by decide, by decide⟩

theorem decodes_pair : pair.Decodes :=
  (decodes_of_leavesInFront pair).1
    ⟨fun behind h => absurd h.symm (Option.some_ne_none behind), rfl⟩

/-- An object without fields, and a number. -/
def behindObject : FieldList :=
  .v1 ⟨.object .nil ⟨['o'], by decide, by decide⟩
    (.primitive .uint32 ⟨['n'], by decide, by decide⟩ .nil), by decide, by decide, by decide⟩

/-- The number is not parsed. -/
theorem not_decodes_behindObject : ¬ behindObject.Decodes := by
  unfold Decodes
  decide +kernel

end FieldList

end FieldsParserV5

end OneCollect.Dotnet
