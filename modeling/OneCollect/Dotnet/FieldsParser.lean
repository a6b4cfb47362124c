import Mathlib.Data.List.Basic
import OneCollect.Event.Format
import OneCollect.Theory.Utf16

/-! The fields of an event that a .NET runtime describes (`helpers/dotnet/nettrace.rs`,
`FieldsParserV5`). Each field is appended behind the last, so that the offset of a field is the
size of all before it. -/

namespace OneCollect.Dotnet
open Theory EventFormat

namespace FieldsParserV5

/-- The numbers of the types, with the name and the size that a field of the type has. -/
def fieldTypes : List (Nat × String × Nat) :=
  [(1, "object", 0), (3, "u32", 4), (4, "u16", 2), (5, "s8", 1), (6, "u8", 1), (7, "s16", 2),
    (8, "u16", 2), (9, "s32", 4), (10, "u32", 4), (11, "s64", 8), (12, "u64", 8), (13, "float", 4),
    (14, "double", 8), (16, "u8", 16), (17, "u8", 16), (18, "string", 0), (19, "array", 0)]

def readInt (bytes : List UInt8) : Option Nat :=
  if bytes.length < 4 then none else some (fromLe (bytes.take 4))

/-- A code unit on its own; halves of a pair are unknown. -/
def unitChar (unit : Nat) : Char :=
  if h : unit.isValidChar then Char.ofNatAux unit h else '?'

def readString : List UInt8 → List Char × List UInt8
  | a :: b :: rest =>
    let unit := fromLe [a, b]
    if unit = 0 then ([], rest)
    else
      let (name, rest) := readString rest
      (unitChar unit :: name, rest)
  | rest => ([], rest)

def appendField (format : EventFormat) (fieldName fieldType : String) (size : Nat) :
    EventFormat :=
  let offset := match format.fields.getLast? with
    | some field => field.offset + field.size
    | none => 0
  let location : LocationType :=
    if fieldType = "string" then .staticUTF16String
    else if "__dyn_array".toList.isPrefixOf fieldType.toList then .staticLenPrefixArray
    else .static
  { format with
    fields := format.fields ++ [⟨fieldName, fieldType, location, offset, size⟩] }

def parseType (bytes : List UInt8) : Option (String × Nat) := do
  let ftype ← readInt bytes
  fieldTypes.lookup ftype

/-- The name in front of a field, and where the next field is, for the second version of the
fields. -/
def fieldHead (v2 : Bool) (bytes : List UInt8) :
    Option (Option (List UInt8) × List Char × List UInt8) :=
  if v2 then
    match readInt bytes with
    | none => none
    | some size =>
      if size > bytes.length then none
      else some (some (bytes.drop size), readString (bytes.drop 4))
  else some (none, [], bytes)

/-- The loop over the fields of an object. -/
def parseFields (parseObject : List UInt8 → EventFormat → List UInt8 × EventFormat) (v2 : Bool) :
    Nat → List UInt8 → EventFormat → List UInt8 × EventFormat
  | 0, bytes, format => (bytes, format)
  | count + 1, bytes, format =>
    match fieldHead v2 bytes with
    | none => (bytes, format)
    | some (next, name, bytes) =>
      match parseType bytes with
      | none => (bytes, format)
      | some (typeName, size) =>
        let bytes := bytes.drop 4
        if typeName = "object" then
          let (bytes, format) := parseObject bytes format
          let bytes := if v2 then bytes else (readString bytes).2
          parseFields parseObject v2 count (next.getD bytes) format
        else if typeName = "array" then
          match parseType bytes with
          | none => (bytes, format)
          | some (elementName, _) =>
            let bytes := bytes.drop 4
            if elementName = "object" ∨ elementName = "array" then ([], format)
            else
              let format := appendField format (String.ofList name)
                ("__dyn_array " ++ elementName) 0
              parseFields parseObject v2 count (next.getD bytes) format
        else
          let (name, bytes) := if v2 then (name, bytes) else readString bytes
          let format := appendField format (String.ofList name) typeName size
          parseFields parseObject v2 count (next.getD bytes) format

/-- The count, and whether it is that of the second version; `none` where nothing is parsed. -/
def fieldCount (count : Nat) (bytes : List UInt8) : Option (Nat × Bool × List UInt8) :=
  if count ≠ 0 then some (count, false, bytes)
  else
    match readInt bytes with
    | none => some (0, false, bytes)
    | some size =>
      match bytes.drop 4 with
      | [] => none
      | tag :: bytes =>
        if size = 0 ∨ tag ≠ 2 then none
        else
          match readInt bytes with
          | none => some (0, false, bytes)
          | some count => some (count, true, bytes.drop 4)

/-- An object, with objects in it for so many levels. -/
def parseObject : Nat → List UInt8 → EventFormat → List UInt8 × EventFormat
  | 0, _, format => ([], format)
  | levels + 1, bytes, format =>
    match readInt bytes with
    | none => ([], format)
    | some count =>
      match fieldCount count (bytes.drop 4) with
      | none => ([], format)
      | some (count, v2, bytes) => parseFields (parseObject levels) v2 count bytes format

def parse (bytes : List UInt8) : EventFormat := (parseObject 32 bytes {}).2

/-! ## Names -/

/-- A name of characters that are one code unit each, without a null. -/
structure Name where
  chars : List Char
  single : ∀ c ∈ chars, c.toNat < 2 ^ 16
  noNull : ∀ c ∈ chars, c ≠ '\x00'

/-- The code units of a name, and a null. -/
def Name.bytes (name : Name) : List UInt8 := unitBytes (name.chars.flatMap encodeUtf16) ++ [0, 0]

theorem unitChar_toNat (c : Char) : unitChar c.toNat = c := by
  have hvalid : c.toNat.isValidChar := c.valid
  rw [unitChar, dif_pos hvalid]
  exact Char.ext (UInt32.ofNatLT_toNat ..)

theorem map_unitChar (chars : List Char) : (chars.map Char.toNat).map unitChar = chars := by
  rw [List.map_map]
  exact (List.map_congr_left fun c _ => unitChar_toNat c).trans (List.map_id chars)

theorem Name.units_eq (name : Name) :
    name.chars.flatMap encodeUtf16 = name.chars.map Char.toNat := by
  rw [List.map_eq_flatMap]
  exact List.flatMap_congr fun c hc => encodeUtf16_of_lt (name.single c hc)

/-- Units of a name are neither nulls nor too large. -/
theorem Name.unit_bounds (name : Name) {unit : Nat} (h : unit ∈ name.chars.map Char.toNat) :
    unit < 2 ^ 16 ∧ unit ≠ 0 := by
  obtain ⟨c, hc, rfl⟩ := List.mem_map.mp h
  exact ⟨name.single c hc, fun hzero => name.noNull c hc (Char.ext (UInt32.toNat_inj.mp hzero))⟩

theorem readString_unit {unit : Nat} (hlt : unit < 2 ^ 16) (hne : unit ≠ 0) (rest : List UInt8) :
    readString (toLe 2 unit ++ rest) =
      (unitChar unit :: (readString rest).1, (readString rest).2) := by
  have hvalue : fromLe (toLe 2 unit) = unit := fromLe_toLe_of_lt hlt
  change (if fromLe (toLe 2 unit) = 0 then ([], rest)
    else (unitChar (fromLe (toLe 2 unit)) :: (readString rest).1, (readString rest).2)) = _
  rw [hvalue, if_neg hne]

theorem readString_unitBytes {units : List Nat} (h : ∀ unit ∈ units, unit < 2 ^ 16 ∧ unit ≠ 0)
    (rest : List UInt8) :
    readString (unitBytes units ++ 0 :: 0 :: rest) = (units.map unitChar, rest) := by
  induction units with
  | nil => rfl
  | cons unit units ih =>
    obtain ⟨⟨hlt, hne⟩, h⟩ := List.forall_mem_cons.mp h
    have hunits : unitBytes (unit :: units) = toLe 2 unit ++ unitBytes units := rfl
    rw [hunits, List.append_assoc, readString_unit hlt hne, ih h, List.map_cons]

theorem Name.readString_bytes (name : Name) (rest : List UInt8) :
    readString (name.bytes ++ rest) = (name.chars, rest) := by
  have hback : name.bytes ++ rest = unitBytes (name.chars.map Char.toNat) ++ 0 :: 0 :: rest := by
    rw [Name.bytes, name.units_eq, List.append_assoc]
    rfl
  rw [hback, readString_unitBytes fun unit => name.unit_bounds, map_unitChar]

/-! ## What is parsed -/

/-- Each field is behind all before it, and has no size where its length is in the data. -/
structure WellFormed (format : EventFormat) : Prop where
  kept : ∀ field ∈ format.fields, SizeKept field
  offset : ∀ before field after, format.fields = before ++ field :: after →
    field.offset = (before.map (·.size)).sum

theorem wellFormed_empty : WellFormed {} where
  kept field hfield := absurd hfield List.not_mem_nil
  offset before field after h := by simp at h

theorem WellFormed.appendField {format : EventFormat} (h : WellFormed format)
    (fieldName : String) {fieldType : String} {size : Nat}
    (hsize : fieldType = "string" ∨ "__dyn_array".toList.isPrefixOf fieldType.toList = true →
      size = 0) :
    WellFormed (appendField format fieldName fieldType size) where
  kept field hfield := by
    rcases List.mem_append.mp hfield with hfield | hfield
    · exact h.kept field hfield
    · obtain rfl := List.mem_singleton.mp hfield
      intro hloc
      dsimp only at hloc
      split at hloc
      · exact hsize (.inl ‹_›)
      · split at hloc
        · exact hsize (.inr ‹_›)
        · exact absurd hloc (by decide)
  offset before field after heq := by
    have heq : format.fields ++ [_] = before ++ field :: after := heq
    rcases List.eq_nil_or_concat' after with rfl | ⟨after, last, rfl⟩
    · obtain ⟨rfl, hfield⟩ := List.append_inj' heq rfl
      obtain rfl := List.singleton_inj.mp hfield
      dsimp only
      rcases List.eq_nil_or_concat' format.fields with hnil | ⟨before, last, hlast⟩
      · rw [hnil]
        rfl
      · have hoffset := h.offset before last [] hlast
        rw [hlast, List.getLast?_concat, List.map_append, List.sum_append, ← hoffset,
          List.map_singleton, List.sum_singleton]
    · rw [← List.cons_append, ← List.append_assoc] at heq
      obtain ⟨hfields, -⟩ := List.append_inj' heq rfl
      exact h.offset before field after hfields

/-- Only strings have the name of one, and they have no size. -/
theorem size_of_parseType {bytes : List UInt8} {typeName : String} {size : Nat}
    (h : parseType bytes = some (typeName, size))
    (hname : typeName = "string" ∨ "__dyn_array".toList.isPrefixOf typeName.toList = true) :
    size = 0 := by
  obtain ⟨ftype, -, hlookup⟩ := Option.bind_eq_some_iff.mp h
  obtain ⟨before, after, htypes, -⟩ := List.lookup_eq_some_iff.mp hlookup
  have hmem : (ftype, typeName, size) ∈ fieldTypes := by
    rw [htypes]
    exact List.mem_append_right _ List.mem_cons_self
  have hall : ∀ entry ∈ fieldTypes, entry.2.1 = "string" ∨
      "__dyn_array".toList.isPrefixOf entry.2.1.toList = true → entry.2.2 = 0 := by decide
  exact hall _ hmem hname

theorem WellFormed.parseFields
    {parseObject : List UInt8 → EventFormat → List UInt8 × EventFormat}
    (hobject : ∀ bytes format, WellFormed format → WellFormed (parseObject bytes format).2)
    (v2 : Bool) (count : Nat) (bytes : List UInt8) {format : EventFormat} (h : WellFormed format) :
    WellFormed (parseFields parseObject v2 count bytes format).2 := by
  induction count generalizing bytes format with
  | zero => exact h
  | succ count ih =>
    rw [FieldsParserV5.parseFields]
    split
    · exact h
    · rename_i next name rest _
      split
      · exact h
      · rename_i typeName size htype
        dsimp only
        split
        · exact ih _ (hobject _ _ h)
        · split
          · split
            · exact h
            · split
              · exact h
              · exact ih _ (h.appendField _ fun _ => rfl)
          · exact ih _ (h.appendField _ (size_of_parseType htype))

theorem WellFormed.parseObject (levels : Nat) (bytes : List UInt8) {format : EventFormat}
    (h : WellFormed format) : WellFormed (parseObject levels bytes format).2 := by
  induction levels generalizing bytes format with
  | zero => exact h
  | succ levels ih =>
    rw [FieldsParserV5.parseObject]
    split
    · exact h
    · split
      · exact h
      · exact WellFormed.parseFields (fun bytes format h => ih bytes h) _ _ _ h

/-- Whatever the bytes, the fields are one behind the other. -/
theorem wellFormed_parse (bytes : List UInt8) : WellFormed (parse bytes) :=
  wellFormed_empty.parseObject 32 bytes

end FieldsParserV5

end OneCollect.Dotnet
