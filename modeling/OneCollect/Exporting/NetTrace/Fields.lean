import Mathlib.Data.List.TakeWhile
import OneCollect.Dotnet.FieldsParser
import OneCollect.Event.Position
import OneCollect.Exporting.NetTrace.Framing
import OneCollect.Theory.Parser

/-! The fields that the metadata declares for a record type. A reader of a NetTrace file takes
them one after another, each by its own width; the event format has an offset or skips for each.
`fields_locate_iff` says for which formats both find the same bytes. -/

namespace OneCollect.Exporting
open Theory Theory.Parser EventFormat

/-! ## The reader -/

def typeWidths : List (Nat × Nat) :=
  [(TypeId.byte, 1), (TypeId.int16, 2), (TypeId.uint16, 2), (TypeId.int32, 4), (TypeId.uint32, 4),
    (TypeId.int64, 8), (TypeId.uint64, 8), (TypeId.single, 4), (TypeId.double, 8)]

def typeWidth (typeId : Nat) : Option Nat := typeWidths.lookup typeId

/-- A string up to its zero, or to the end of the data. -/
def utf16 : Parser (List UInt8) := fun bytes =>
  some (utf16Bytes bytes, bytes.drop (utf16Skip bytes))

def readItem (typeId : Nat) : Parser (List UInt8) :=
  if typeId = TypeId.nullUtf16String then utf16
  else
    match typeWidth typeId with
    | some width => take width
    | none => failure

/-- The bytes of a field; an array has its count in front. -/
def readField (field : NetTraceField) : Parser (List UInt8) :=
  if field.typeId = TypeId.array then do
    let count ← word 2
    let items ← Parser.replicate (readItem (field.elementTypeId.getD 0)) count
    return items.flatten
  else readItem field.typeId

def readFields : List NetTraceField → Parser Unit
  | [] => return ()
  | field :: fields => do
    let _ ← readField field
    readFields fields

/-- The bytes of the field with this index; `none` where the data ends before. -/
def fieldData (fields : List NetTraceField) (i : Nat) (data : List UInt8) :
    Option (List UInt8) := do
  let field ← fields[i]?
  let (_, rest) ← (readFields (fields.take i)).run data
  let (bytes, _) ← (readField field).run rest
  return bytes

theorem readFields_append (fields more : List NetTraceField) (data : List UInt8) :
    (readFields (fields ++ more)).run data =
      ((readFields fields).run data).bind fun (_, rest) => (readFields more).run rest := by
  induction fields generalizing data with
  | nil => rfl
  | cons field fields ih =>
    change ((readField field).run data).bind
        (fun (_, rest) => (readFields (fields ++ more)).run rest) =
      (((readField field).run data).bind fun (_, rest) => (readFields fields).run rest).bind _
    rw [Option.bind_assoc]
    exact congrArg _ (funext fun (_, rest) => ih rest)

theorem run_take (n : Nat) (bytes : List UInt8) :
    (take n).run bytes = if n ≤ bytes.length then some (bytes.take n, bytes.drop n) else none :=
  rfl

/-- Items of one width are as good as one item. -/
theorem replicate_take (width n : Nat) (bytes : List UInt8) :
    ((Parser.replicate (take width) n).run bytes).map (fun r => (r.1.flatten, r.2)) =
      (take (n * width)).run bytes := by
  induction n generalizing bytes with
  | zero =>
    rw [Nat.zero_mul]
    rfl
  | succ n ih =>
    have hstep : (Parser.replicate (take width) (n + 1)).run bytes =
        ((take width).run bytes).bind fun r =>
          ((Parser.replicate (take width) n).run r.2).map fun q => (r.1 :: q.1, q.2) := by
      refine congrArg (Option.bind _) (funext fun r => ?_)
      exact Option.map_eq_bind.symm
    have hmul : (n + 1) * width = width + n * width := by rw [Nat.succ_mul, Nat.add_comm]
    rw [hstep, run_take, run_take, hmul]
    by_cases hwidth : width ≤ bytes.length
    · have htail := ih (bytes.drop width)
      let flat : List (List UInt8) × List UInt8 → List UInt8 × List UInt8 :=
        fun r => (r.1.flatten, r.2)
      have hcomp : (flat ∘ fun q => (bytes.take width :: q.1, q.2)) =
          (fun r => (bytes.take width ++ r.1, r.2)) ∘ flat := rfl
      rw [run_take, List.length_drop] at htail
      rw [if_pos hwidth, Option.bind_some, Option.map_map, hcomp, ← Option.map_map, htail]
      by_cases hall : width + n * width ≤ bytes.length
      · rw [if_pos hall, if_pos (by omega), Option.map_some, List.drop_drop, List.take_add]
      · rw [if_neg hall, if_neg (by omega), Option.map_none]
    · rw [if_neg hwidth, if_neg (by omega)]
      rfl

theorem run_word (width : Nat) (bytes : List UInt8) :
    (word width).run bytes =
      if width ≤ bytes.length then some (fromLe (bytes.take width), bytes.drop width) else none := by
  change ((take width).run bytes).bind _ = _
  rw [run_take]
  by_cases h : width ≤ bytes.length
  · rw [if_pos h, if_pos h]
    rfl
  · rw [if_neg h, if_neg h]
    rfl

/-! ## What is declared -/

def declarable (field : EventField) : Bool := (eventFieldToType field).isSome

/-- The entry of a field that can be declared. -/
def declaredField (field : EventField) : NetTraceField where
  typeId := (eventFieldToType field).getD 0
  elementTypeId :=
    if (eventFieldToType field).getD 0 = TypeId.array then eventFieldToElementType field else none
  name := field.name

/-- The fields up to the first that cannot be declared. -/
theorem recordFields_eq (fields : List EventField) :
    recordFields fields = (fields.takeWhile declarable).map declaredField := by
  induction fields with
  | nil => rfl
  | cons field fields ih =>
    rw [recordFields, List.takeWhile_cons]
    unfold declarable
    cases htype : eventFieldToType field with
    | none => rfl
    | some typeId =>
      have hfield : declaredField field =
          { typeId
            elementTypeId :=
              if typeId = TypeId.array then eventFieldToElementType field else none
            name := field.name } := by
        rw [declaredField, htype]
        rfl
      rw [ih, if_pos Option.isSome_some, List.map_cons, hfield]
      rfl

/-- The word of a type that names what a field, or an element of it, is. -/
def typeWord (field : EventField) : String := (typeWords field.typeName).headD ""

/-- The bytes that a word stands for. -/
def wordWidth : String → Option Nat
  | "u8" | "s8" | "char" => some 1
  | "u16" | "s16" | "short" => some 2
  | "u32" | "s32" | "int" | "float" | "__rel_loc" | "__data_loc" => some 4
  | "u64" | "s64" | "long" | "double" => some 8
  | _ => none

theorem typeWord_eq (field : EventField) :
    (if String.ofList ((splitWhitespace field.typeName.toList).headD []) = "__dyn_array" then
      String.ofList ((splitWhitespace field.typeName.toList).tail.headD [])
    else String.ofList ((splitWhitespace field.typeName.toList).headD [])) = typeWord field := by
  unfold typeWord typeWords
  cases splitWhitespace field.typeName.toList with
  | nil => rfl
  | cons first words =>
    by_cases hfirst : String.ofList first = "__dyn_array"
    · cases words with
      | nil => simp [hfirst]
      | cons second words => simp [hfirst]
    · simp [hfirst]

theorem typeWidth_unsigned {typeId size width : Nat} (h : typeWidth typeId = some size)
    (hsize : size ∈ [1, 2, 4, 8]) :
    typeWidth typeId = some width ↔ wordWidth "unsigned" = some width ∨
      "unsigned" = "unsigned" ∧ size = width ∧ width ∈ [1, 2, 4, 8] := by
  rw [h]
  constructor
  · intro heq
    obtain rfl := Option.some.inj heq
    exact .inr ⟨rfl, rfl, hsize⟩
  · rintro (hword | ⟨-, rfl, -⟩)
    · cases hword
    · rfl

/-- A type with a width is that of a word with this width, or the size decides. -/
theorem typeWidth_iff {field : EventField} {typeId width : Nat}
    (h : eventFieldToElementType field = some typeId) :
    typeWidth typeId = some width ↔ wordWidth (typeWord field) = some width ∨
      typeWord field = "unsigned" ∧ field.size = width ∧ width ∈ [1, 2, 4, 8] := by
  unfold eventFieldToElementType at h
  dsimp only at h
  rw [typeWord_eq] at h
  generalize typeWord field = word at h ⊢
  split at h
  case h_15 =>
    split at h
    all_goals
      first
      | cases h
        rename_i hsize
        rw [hsize]
        exact typeWidth_unsigned rfl (by decide)
      | cases h
  all_goals
    first
    | cases h
      exact ⟨Or.inl, fun h => h.elim id fun h => absurd h.1 (by decide)⟩
    | cases h

/-- The type of a string is that of one word. -/
theorem nullUtf16String_iff {field : EventField} {typeId : Nat}
    (h : eventFieldToElementType field = some typeId) :
    typeWidth typeId = none ↔ typeId = TypeId.nullUtf16String := by
  unfold eventFieldToElementType at h
  dsimp only at h
  rw [typeWord_eq] at h
  split at h
  case h_15 =>
    split at h
    all_goals
      first
      | cases h
        decide
      | cases h
  all_goals
    first
    | cases h
      decide
    | cases h

/-- The words of whole numbers. -/
def integerWords : List String :=
  ["u8", "s8", "char", "u16", "s16", "short", "u32", "s32", "int", "u64", "s64", "long"]

/-- The type of a field says how many bytes the field has: a number of the size of the field, a
string, or an array of whole numbers. -/
def FieldFits (field : EventField) : Prop :=
  match field.location with
  | .static => wordWidth (typeWord field) = some field.size ∨
      typeWord field = "unsigned" ∧ field.size ∈ [1, 2, 4, 8]
  | .staticUTF16String => True
  | .staticLenPrefixArray => typeWord field ∈ integerWords
  | _ => False

instance (field : EventField) : Decidable (FieldFits field) := by
  unfold FieldFits
  split <;> infer_instance

theorem tryGetElementSize_of_word {field : EventField} (h : typeWord field ∈ integerWords) :
    tryGetElementSize field.typeName = wordWidth (typeWord field) := by
  unfold typeWord at h ⊢
  unfold tryGetElementSize
  cases hwords : typeWords field.typeName with
  | nil =>
    rw [hwords] at h
    exact absurd h (by decide)
  | cons word words =>
    rw [hwords, List.headD_cons] at h
    rw [List.headD_cons]
    simp only [integerWords, List.mem_cons, List.not_mem_nil, or_false] at h
    rcases h with rfl | rfl | rfl | rfl | rfl | rfl | rfl | rfl | rfl | rfl | rfl | rfl
    all_goals rfl

theorem elementType_of_word {field : EventField} (h : typeWord field ∈ integerWords) :
    (eventFieldToElementType field).bind typeWidth = wordWidth (typeWord field) := by
  unfold eventFieldToElementType
  dsimp only
  rw [typeWord_eq]
  simp only [integerWords, List.mem_cons, List.not_mem_nil, or_false] at h
  rcases h with h | h | h | h | h | h | h | h | h | h | h | h
  all_goals
    rw [h]
    rfl

theorem wordWidth_pos {word : String} {width : Nat} (h : wordWidth word = some width) :
    0 < width := by
  unfold wordWidth at h
  split at h
  all_goals
    cases h
    try decide

theorem wordWidth_of_integer {word : String} (h : word ∈ integerWords) :
    ∃ width, wordWidth word = some width := by
  simp only [integerWords, List.mem_cons, List.not_mem_nil, or_false] at h
  rcases h with rfl | rfl | rfl | rfl | rfl | rfl | rfl | rfl | rfl | rfl | rfl | rfl
  all_goals exact ⟨_, rfl⟩

/-! ## A field that fits -/

theorem readItem_of_width {typeId width : Nat} (h : typeWidth typeId = some width) :
    readItem typeId = take width := by
  have hstring : typeId ≠ TypeId.nullUtf16String := by
    rintro rfl
    cases h
  rw [readItem, if_neg hstring, h]

section Fits

variable {field : EventField}

/-- The type of a static field is that of its word. -/
theorem elementType_of_static (hstatic : field.location ≠ .staticUTF16String)
    (harray : field.location ≠ .staticLenPrefixArray) {typeId : Nat}
    (htype : eventFieldToType field = some typeId) :
    eventFieldToElementType field = some typeId := by
  unfold eventFieldToType at htype
  rw [if_neg hstatic, if_neg harray] at htype
  split at htype
  · cases htype
  · exact htype

theorem readField_of_width {typeId width : Nat} (htype : eventFieldToType field = some typeId)
    (hwidth : typeWidth typeId = some width) : readField (declaredField field) = take width := by
  have harray : typeId ≠ TypeId.array := by
    rintro rfl
    cases hwidth
  have hdeclared : (declaredField field).typeId = typeId := by
    rw [declaredField, htype]
    rfl
  rw [readField, hdeclared, if_neg harray, readItem_of_width hwidth]

theorem readField_of_string (htype : eventFieldToType field = some TypeId.nullUtf16String) :
    readField (declaredField field) = utf16 := by
  have hdeclared : (declaredField field).typeId = TypeId.nullUtf16String := by
    rw [declaredField, htype]
    rfl
  rw [readField, hdeclared, if_neg (by decide), readItem, if_pos rfl]

theorem type_of_utf16 (h : field.location = .staticUTF16String) :
    eventFieldToType field = some TypeId.nullUtf16String := by
  rw [eventFieldToType, if_pos h]

theorem type_of_array (h : field.location = .staticLenPrefixArray) :
    eventFieldToType field = some TypeId.array := by
  rw [eventFieldToType, if_neg (by rw [h]; decide), if_pos h]

/-- A count and the items. -/
theorem readField_of_array (h : field.location = .staticLenPrefixArray) :
    readField (declaredField field) = do
      let count ← word 2
      let items ← Parser.replicate (readItem ((eventFieldToElementType field).getD 0)) count
      return items.flatten := by
  have hdeclared : (declaredField field).typeId = TypeId.array := by
    rw [declaredField, type_of_array h]
    rfl
  have helement : (declaredField field).elementTypeId = eventFieldToElementType field := by
    rw [declaredField, type_of_array h]
    rfl
  rw [readField, hdeclared, if_pos rfl, helement]

theorem run_array {width : Nat} (h : field.location = .staticLenPrefixArray)
    (hwidth : (eventFieldToElementType field).bind typeWidth = some width) (bytes : List UInt8) :
    (readField (declaredField field)).run bytes =
      if 2 + width * fromLe (bytes.take 2) ≤ bytes.length then
        some ((bytes.drop 2).take (fromLe (bytes.take 2) * width),
          bytes.drop (2 + width * fromLe (bytes.take 2)))
      else none := by
  obtain ⟨typeId, htype, hwidth⟩ := Option.bind_eq_some_iff.mp hwidth
  rw [readField_of_array h, htype, Option.getD_some, readItem_of_width hwidth]
  change ((word 2).run bytes).bind (fun r => ((Parser.replicate (take width) r.1).run r.2).bind
    fun q => some (q.1.flatten, q.2)) = _
  have hitems : ∀ r : Nat × List UInt8, (((Parser.replicate (take width) r.1).run r.2).bind
      fun q => some (q.1.flatten, q.2)) = (take (r.1 * width)).run r.2 := by
    intro r
    rw [← replicate_take, Option.map_eq_bind]
    rfl
  rw [run_word, funext hitems]
  by_cases hcount : 2 ≤ bytes.length
  · rw [if_pos hcount, Option.bind_some, run_take, List.length_drop, Nat.mul_comm _ width,
      List.drop_drop]
    dsimp only
    by_cases hall : 2 + width * fromLe (bytes.take 2) ≤ bytes.length
    · rw [if_pos hall, if_pos (by omega)]
    · rw [if_neg hall, if_neg (by omega)]
  · rw [if_neg hcount, if_neg (by omega)]
    rfl

/-- What a fitting field is read as, and the size that its closure goes by. -/
theorem readField_eq (hfits : FieldFits field) (hdeclarable : declarable field = true)
    (hkept : SizeKept field) :
    ∃ size, closureSize field = some size ∧ ∀ (data : List UInt8) (p : Nat), p ≤ data.length →
      (((readField (declaredField field)).run (data.drop p)).map Prod.fst).getD [] =
        getDataWithOffsetDirect size field.location p data := by
  obtain ⟨typeId, htype⟩ := Option.isSome_iff_exists.mp hdeclarable
  unfold FieldFits at hfits
  split at hfits
  case h_1 hloc =>
    have hne : field.location ≠ .staticUTF16String ∧ field.location ≠ .staticLenPrefixArray := by
      rw [hloc]
      decide
    have helement := elementType_of_static hne.1 hne.2 htype
    have hwidth : typeWidth typeId = some field.size := by
      rw [typeWidth_iff helement]
      exact hfits.imp id fun h => ⟨h.1, rfl, h.2⟩
    refine ⟨field.size, if_neg fun h => hne.2 h.2, fun data p hp => ?_⟩
    rw [readField_of_width htype hwidth, run_take, hloc, getDataWithOffsetDirect,
      List.length_drop]
    by_cases hall : p + field.size ≤ data.length
    · rw [if_pos (by omega), if_neg (not_lt.mpr hall)]
      rfl
    · rw [if_neg (by omega), if_pos (not_le.mp hall)]
      rfl
  case h_2 hloc =>
    refine ⟨field.size, if_neg fun h => absurd (hloc.symm.trans h.2) (by decide), ?_⟩
    intro data p hp
    rw [readField_of_string (type_of_utf16 hloc), hloc, getDataWithOffsetDirect,
      if_neg (not_lt.mpr hp)]
    rfl
  case h_3 hloc =>
    have hzero : field.size = 0 := hkept (by rw [hloc]; decide)
    have hsize := tryGetElementSize_of_word hfits
    have hwidth := elementType_of_word hfits
    obtain ⟨width, hword⟩ := wordWidth_of_integer hfits
    have hpos := wordWidth_pos hword
    refine ⟨width, by rw [closureSize, if_pos ⟨hzero, hloc⟩, hsize, hword], fun data p hp => ?_⟩
    rw [run_array hloc (hwidth.trans hword), hloc, getDataWithOffsetDirect,
      if_neg (not_lt.mpr hp), if_neg (Nat.pos_iff_ne_zero.mp hpos)]
    dsimp only
    rw [Nat.mul_comm width]
    by_cases hcount : 2 ≤ (data.drop p).length
    · rw [if_neg (not_lt.mpr hcount)]
      by_cases hall : 2 + fromLe ((data.drop p).take 2) * width ≤ (data.drop p).length
      · rw [if_pos hall, if_neg (not_lt.mpr hall)]
        rfl
      · rw [if_neg hall, if_pos (not_le.mp hall)]
        rfl
    · rw [if_neg (by omega), if_pos (not_le.mp hcount)]
      rfl
  case h_4 => exact absurd hfits id

/-- The closure passes a fitting field as the reader does. -/
theorem passField_eq (hfits : FieldFits field) (hdeclarable : declarable field = true)
    (hkept : SizeKept field) (offset : Nat) (skips : List FieldSkip) :
    ∃ skips', passField (offset, skips) field = some (offset + field.size, skips') ∧
      (skips' = [] ↔ skips = [] ∧ field.size ≠ 0) ∧ ∀ data : List UInt8,
        ((position (offset, skips) data).bind fun p =>
          (readField (declaredField field)).run (data.drop p)).map Prod.snd =
        (position (offset + field.size, skips') data).map fun p => data.drop p := by
  obtain ⟨typeId, htype⟩ := Option.isSome_iff_exists.mp hdeclarable
  unfold FieldFits at hfits
  split at hfits
  case h_1 hloc =>
    have hne : field.location ≠ .staticUTF16String ∧ field.location ≠ .staticLenPrefixArray := by
      rw [hloc]
      decide
    have helement := elementType_of_static hne.1 hne.2 htype
    have hwidth : typeWidth typeId = some field.size := by
      rw [typeWidth_iff helement]
      exact hfits.imp id fun h => ⟨h.1, rfl, h.2⟩
    have hpos : field.size ≠ 0 := by
      rcases hfits with hword | ⟨-, hsize⟩
      · exact Nat.pos_iff_ne_zero.mp (wordWidth_pos hword)
      · intro hzero
        rw [hzero] at hsize
        exact absurd hsize (by decide)
    refine ⟨skips, by rw [passField, if_pos hpos]; rfl, by simp [hpos], fun data => ?_⟩
    rw [position_static, readField_of_width htype hwidth]
    cases hp : position (offset, skips) data with
    | none => rfl
    | some p =>
      have hle := position_le hp
      rw [Option.bind_some, Option.bind_some, run_take, List.length_drop, List.drop_drop]
      by_cases hall : p + field.size ≤ data.length
      · rw [if_pos hall, if_pos (by omega)]
        rfl
      · rw [if_neg hall, if_neg (by omega)]
        rfl
  case h_2 hloc =>
    have hzero : field.size = 0 := hkept (by rw [hloc]; decide)
    refine ⟨skips ++ [⟨field.location, none, offset⟩], ?_, by simp [hzero], fun data => ?_⟩
    · rw [passField, if_neg (not_not.mpr hzero), hzero, hloc]
      rfl
    · rw [hzero, Nat.add_zero, hloc, position_utf16, readField_of_string (type_of_utf16 hloc)]
      cases position (offset, skips) data with
      | none => rfl
      | some p =>
        change some ((data.drop p).drop _) = some _
        rw [List.drop_drop]
  case h_3 hloc =>
    have hzero : field.size = 0 := hkept (by rw [hloc]; decide)
    have hsize := tryGetElementSize_of_word hfits
    have hwidth := elementType_of_word hfits
    obtain ⟨width, hword⟩ := wordWidth_of_integer hfits
    refine ⟨skips ++ [⟨field.location, some width, offset⟩], ?_, by simp [hzero], fun data => ?_⟩
    · rw [passField, if_neg (not_not.mpr hzero), hzero, hloc]
      dsimp only
      rw [hsize, hword]
      rfl
    · rw [hzero, Nat.add_zero, hloc, position_array]
      cases hp : position (offset, skips) data with
      | none => rfl
      | some p =>
        have hle := position_le hp
        rw [Option.bind_some, Option.bind_some, run_array hloc (hwidth.trans hword),
          List.length_drop]
        by_cases hall : p + 2 + width * fromLe ((data.drop p).take 2) ≤ data.length
        · rw [if_pos hall, if_pos (by omega), Option.map_some, Option.map_some, Nat.add_assoc]
          change some ((data.drop p).drop _) = some _
          rw [List.drop_drop]
        · rw [if_neg hall, if_neg (by omega)]
          rfl
  case h_4 => exact absurd hfits id

end Fits

/-! ## All fields -/

/-- A field that fits and is declared. -/
structure Passable (field : EventField) : Prop where
  fits : FieldFits field
  declarable : declarable field = true
  kept : SizeKept field

/-- **The fields before.** Reader and closure pass them to the same position. -/
theorem readFields_eq {before : List EventField} (h : ∀ field ∈ before, Passable field) :
    ∃ skips, before.foldlM passField (0, []) = some ((before.map (·.size)).sum, skips) ∧
      (skips = [] ↔ ∀ field ∈ before, field.size ≠ 0) ∧ ∀ data : List UInt8,
        ((readFields (before.map declaredField)).run data).map Prod.snd =
          (position ((before.map (·.size)).sum, skips) data).map fun p => data.drop p := by
  induction before using List.reverseRecOn with
  | nil => exact ⟨[], rfl, by simp, fun _ => rfl⟩
  | append_singleton before field ih =>
    obtain ⟨hbefore, hfield⟩ := List.forall_mem_append.mp h
    obtain ⟨skips, hpassed, hskips, hrun⟩ := ih hbefore
    obtain ⟨hfits, hdeclarable, hkept⟩ := List.forall_mem_singleton.mp hfield
    obtain ⟨skips', hpass, hskips', hread⟩ :=
      passField_eq hfits hdeclarable hkept (before.map (·.size)).sum skips
    have hsum : ((before ++ [field]).map (·.size)).sum = (before.map (·.size)).sum + field.size := by
      rw [List.map_append, List.sum_append, List.map_singleton, List.sum_singleton]
    refine ⟨skips', ?_, ?_, fun data => ?_⟩
    · rw [List.foldlM_append, hpassed, hsum]
      change (passField _ field).bind _ = _
      rw [hpass]
      rfl
    · rw [hskips', hskips, List.forall_mem_append, List.forall_mem_singleton]
    · have hrest : ((readFields (before.map declaredField)).run data).bind
          (fun r => (readField (declaredField field)).run r.2) =
          (position ((before.map (·.size)).sum, skips) data).bind fun p =>
            (readField (declaredField field)).run (data.drop p) := by
        have hmap := congrArg (Option.bind · (readField (declaredField field)).run) (hrun data)
        simp only [Option.bind_map] at hmap
        exact hmap
      rw [hsum, ← hread, ← hrest, List.map_append, readFields_append, List.map_singleton]
      rw [Option.map_bind, Option.map_bind]
      refine congrArg _ (funext fun r => ?_)
      change (((readField (declaredField field)).run r.2).bind fun q => some ((), q.2)).map
        Prod.snd = _
      rw [Option.map_bind]
      exact Option.map_eq_bind.symm

theorem takeWhile_append {α : Type} {p : α → Bool} {before after : List α} {x : α}
    (h : before.length < ((before ++ x :: after).takeWhile p).length) :
    (∀ y ∈ before, p y = true) ∧ p x = true ∧
      (before ++ x :: after).takeWhile p = before ++ x :: after.takeWhile p := by
  induction before with
  | nil =>
    rw [List.nil_append, List.takeWhile_cons] at h
    have hx : p x = true := by
      by_contra hx
      rw [if_neg hx] at h
      exact absurd h (Nat.lt_irrefl 0)
    refine ⟨fun y hy => absurd hy List.not_mem_nil, hx, ?_⟩
    rw [List.nil_append, List.takeWhile_cons, if_pos hx]
    rfl
  | cons y before ih =>
    rw [List.cons_append, List.takeWhile_cons] at h
    have hy : p y = true := by
      by_contra hy
      rw [if_neg hy] at h
      exact absurd h (Nat.not_lt_zero _)
    rw [if_pos hy] at h
    obtain ⟨hbefore, hx, heq⟩ := ih (Nat.lt_of_succ_lt_succ h)
    refine ⟨List.forall_mem_cons.mpr ⟨hy, hbefore⟩, hx, ?_⟩
    rw [List.cons_append, List.takeWhile_cons, if_pos hy, heq]
    rfl

/-- The data of a field that is declared: what is read behind the fields before it. -/
theorem fieldData_eq {before after : List EventField} {field : EventField}
    (h : before.length < (recordFields (before ++ field :: after)).length) :
    (∀ other ∈ before, declarable other = true) ∧ declarable field = true ∧
      ∀ data, fieldData (recordFields (before ++ field :: after)) before.length data =
        ((readFields (before.map declaredField)).run data).bind fun r =>
          ((readField (declaredField field)).run r.2).map Prod.fst := by
  rw [recordFields_eq, List.length_map] at h
  obtain ⟨hbefore, hfield, heq⟩ := takeWhile_append h
  refine ⟨hbefore, hfield, fun data => ?_⟩
  have htake : (before.map declaredField ++ declaredField field ::
      (after.takeWhile declarable).map declaredField).take before.length =
      before.map declaredField := List.take_left' (List.length_map _)
  have hget : (before.map declaredField ++ declaredField field ::
      (after.takeWhile declarable).map declaredField)[before.length]? =
      some (declaredField field) := by
    rw [List.getElem?_append_right (le_of_eq (List.length_map _)), List.length_map, Nat.sub_self]
    rfl
  rw [recordFields_eq, heq, List.map_append, List.map_cons, fieldData, hget, htake]
  change ((readFields (before.map declaredField)).run data).bind _ = _
  refine congrArg _ (funext fun r => ?_)
  exact Option.map_eq_bind.symm

/-- The bytes that are read for a field at the start of some data; none where the data ends. -/
def fieldBytes (field : EventField) (bytes : List UInt8) : List UInt8 :=
  (((readField (declaredField field)).run bytes).map Prod.fst).getD []

/-- A field behind fitting ones: what is read, at the position of the closure. -/
theorem fieldBytes_eq {before : List EventField} (h : ∀ field ∈ before, Passable field)
    (field : EventField) :
    ∃ skips, before.foldlM passField (0, []) = some ((before.map (·.size)).sum, skips) ∧
      (skips = [] ↔ ∀ field ∈ before, field.size ≠ 0) ∧ ∀ data : List UInt8,
        (((readFields (before.map declaredField)).run data).bind fun r =>
          ((readField (declaredField field)).run r.2).map Prod.fst).getD [] =
        ((position ((before.map (·.size)).sum, skips) data).map fun p =>
          fieldBytes field (data.drop p)).getD [] := by
  obtain ⟨skips, hpassed, hskips, hrun⟩ := readFields_eq h
  refine ⟨skips, hpassed, hskips, fun data => ?_⟩
  have hmap := congrArg (Option.bind · fun rest =>
    ((readField (declaredField field)).run rest).map Prod.fst) (hrun data)
  simp only [Option.bind_map] at hmap
  change Option.getD (Option.bind _ _) [] = _
  rw [show (fun r : Unit × List UInt8 => ((readField (declaredField field)).run r.2).map Prod.fst) =
    (fun rest => ((readField (declaredField field)).run rest).map Prod.fst) ∘ Prod.snd from rfl,
    hmap]
  cases position ((before.map (·.size)).sum, skips) data with
  | none => rfl
  | some p => rfl

/-- **Fields that fit.** A declared field that fits, behind fields that fit, has the bytes that
the format says. -/
theorem closure_of_fits {before : List EventField} (h : ∀ field ∈ before, Passable field)
    {field : EventField} (hfield : Passable field)
    (hoffset : (∀ other ∈ before, other.size ≠ 0) → field.offset = (before.map (·.size)).sum) :
    ∃ closure, closureBehind before field = some closure ∧ ∀ data,
      (((readFields (before.map declaredField)).run data).bind fun r =>
        ((readField (declaredField field)).run r.2).map Prod.fst).getD [] = closure data := by
  obtain ⟨skips, hpassed, hskips, hread⟩ := fieldBytes_eq h field
  obtain ⟨size, hsize, heq⟩ := readField_eq hfield.fits hfield.declarable hfield.kept
  rw [closureBehind_eq hpassed, hsize]
  refine ⟨_, rfl, fun data => ?_⟩
  have hsame : (position ((before.map (·.size)).sum, skips) data).map (fun p =>
      fieldBytes field (data.drop p)) =
      (position ((before.map (·.size)).sum, skips) data).map fun p =>
        getDataWithOffsetDirect size field.location p data := by
    cases hp : position ((before.map (·.size)).sum, skips) data with
    | none => rfl
    | some p => exact congrArg some (heq data p (position_le hp))
  rw [hread, hsame, ← getFieldDataClosure_eq]
  cases skips with
  | nil =>
    change _ = getDataWithOffsetDirect size field.location field.offset data
    rw [hoffset (hskips.mp rfl)]
    rfl
  | cons skip skips => rfl

/-! ## A field that does not fit

Data that is zero but for one byte tells positions and widths apart. -/

def zeros (n : Nat) : List UInt8 := List.replicate n 0

theorem zeros_append (m n : Nat) : zeros m ++ zeros n = zeros (m + n) :=
  List.replicate_append_replicate

theorem drop_zeros_append {p q : Nat} (h : q ≤ p) (tail : List UInt8) :
    (zeros p ++ tail).drop q = zeros (p - q) ++ tail := by
  rw [List.drop_append_of_le_length (by rw [zeros, List.length_replicate]; exact h), zeros,
    List.drop_replicate]
  rfl

theorem drop_spike {p q : Nat} (h : p < q) (byte : UInt8) (n : Nat) :
    (zeros p ++ byte :: zeros n).drop q = zeros (n - (q - (p + 1))) := by
  have hsplit : zeros p ++ byte :: zeros n = (zeros p ++ [byte]) ++ zeros n := by simp
  have hlen : (zeros p ++ [byte]).length = p + 1 := by simp [zeros]
  rw [hsplit, List.drop_append, List.drop_of_length_le (by omega), List.nil_append, hlen, zeros,
    List.drop_replicate]
  rfl

/-- The one byte is found at its place only. -/
theorem eq_of_spike {p q n : Nat} (h : (zeros p ++ 1 :: zeros n)[q]? = some 1) : q = p := by
  rcases Nat.lt_trichotomy q p with hlt | heq | hgt
  · rw [List.getElem?_append_left (by rw [zeros, List.length_replicate]; exact hlt), zeros,
      List.getElem?_replicate, if_pos hlt] at h
    cases h
  · exact heq
  · have hget : ((zeros p ++ 1 :: zeros n).drop q)[0]? = some 1 := by
      rw [List.getElem?_drop]
      exact h
    rw [drop_spike hgt, zeros, List.getElem?_replicate] at hget
    split at hget
    · cases hget
    · cases hget

/-- The first two bytes from a place on, as a count. -/
theorem count_spike (p q n : Nat) :
    fromLe (((zeros p ++ 1 :: zeros (n + 1)).drop q).take 2) = 1 ∧ q = p ∨
      fromLe (((zeros p ++ 1 :: zeros (n + 1)).drop q).take 2) ∈ [0, 256] ∧ q ≠ p := by
  rcases Nat.lt_trichotomy q p with hlt | rfl | hgt
  · rw [drop_zeros_append (le_of_lt hlt)]
    refine .inr ⟨?_, Nat.ne_of_lt hlt⟩
    obtain ⟨k, hk⟩ := Nat.exists_eq_succ_of_ne_zero (Nat.sub_ne_zero_of_lt hlt)
    rw [hk]
    cases k with
    | zero => exact List.mem_cons_of_mem _ List.mem_cons_self
    | succ k => exact List.mem_cons_self
  · rw [drop_zeros_append (le_refl q), Nat.sub_self]
    exact .inl ⟨rfl, rfl⟩
  · rw [drop_spike hgt]
    refine .inr ⟨?_, Nat.ne_of_gt hgt⟩
    rw [zeros, List.take_replicate, fromLe_replicate]
    exact List.mem_cons_self

section Misfits

variable {field : EventField} {typeId p q : Nat}

theorem fieldBytes_of_width {width : Nat} (htype : eventFieldToType field = some typeId)
    (hwidth : typeWidth typeId = some width) {bytes : List UInt8} (h : width ≤ bytes.length) :
    fieldBytes field bytes = bytes.take width := by
  rw [fieldBytes, readField_of_width htype hwidth, run_take, if_pos h]
  rfl

theorem fieldBytes_of_string (htype : eventFieldToType field = some TypeId.nullUtf16String)
    (bytes : List UInt8) : fieldBytes field bytes = utf16Bytes bytes := by
  rw [fieldBytes, readField_of_string htype]
  rfl

theorem typeWidth_pos {width : Nat} (h : typeWidth typeId = some width) : 0 < width := by
  obtain ⟨before, after, hwidths, -⟩ := List.lookup_eq_some_iff.mp h
  have hmem : (typeId, width) ∈ typeWidths := by
    rw [hwidths]
    exact List.mem_append_right _ List.mem_cons_self
  have hall : ∀ entry ∈ typeWidths, 0 < entry.2 := by decide
  exact hall _ hmem

theorem utf16Bytes_zeros (n : Nat) : utf16Bytes (zeros n) = [] := by
  match n with
  | 0 => rfl
  | 1 => rfl
  | n + 2 => rfl

theorem utf16Bytes_spike (n : Nat) : utf16Bytes (1 :: zeros (n + 3)) = [1, 0] := rfl

/-- A static field of a number is read right only at its place and with its size. -/
theorem static_of_reads (hloc : field.location = .static)
    (htype : eventFieldToType field = some typeId)
    (h : ∀ tail, fieldBytes field tail =
      getDataWithOffsetDirect field.size .static q (zeros p ++ tail)) :
    FieldFits field ∧ q = p := by
  have hne : field.location ≠ .staticUTF16String ∧ field.location ≠ .staticLenPrefixArray := by
    rw [hloc]
    decide
  have helement := elementType_of_static hne.1 hne.2 htype
  have hdirect : ∀ tail : List UInt8, q + field.size ≤ tail.length →
      getDataWithOffsetDirect field.size .static q (zeros p ++ tail) =
        ((zeros p ++ tail).drop q).take field.size := by
    intro tail hle
    rw [getDataWithOffsetDirect, if_neg]
    rw [List.length_append]
    omega
  have hlength : ∀ tail : List UInt8, q + field.size ≤ tail.length →
      (((zeros p ++ tail).drop q).take field.size).length = field.size := by
    intro tail hle
    rw [List.length_take, List.length_drop, List.length_append]
    omega
  cases hwidth : typeWidth typeId with
  | none =>
    obtain rfl := (nullUtf16String_iff helement).mp hwidth
    have hle : q + field.size ≤ (zeros (q + field.size)).length := by
      rw [zeros, List.length_replicate]
    have hle' : q + field.size ≤ (1 :: zeros (q + field.size + 3)).length := by
      rw [List.length_cons, zeros, List.length_replicate]
      omega
    have hflat := h (zeros (q + field.size))
    have hspike := h (1 :: zeros (q + field.size + 3))
    rw [hdirect _ hle, fieldBytes_of_string htype, utf16Bytes_zeros] at hflat
    rw [hdirect _ hle', fieldBytes_of_string htype, utf16Bytes_spike] at hspike
    have hzero := hlength _ hle
    have htwo := hlength _ hle'
    rw [← hflat] at hzero
    rw [← hspike, ← hzero] at htwo
    cases htwo
  | some width =>
    have hpos := typeWidth_pos hwidth
    have hle : q + field.size ≤ (zeros (q + field.size + width)).length := by
      rw [zeros, List.length_replicate]
      omega
    have hle' : q + field.size ≤ (1 :: zeros (q + field.size + width)).length := by
      rw [List.length_cons, zeros, List.length_replicate]
      omega
    have hflat := h (zeros (q + field.size + width))
    have hspike := h (1 :: zeros (q + field.size + width))
    rw [hdirect _ hle, fieldBytes_of_width htype hwidth
      (by rw [zeros, List.length_replicate]; omega)] at hflat
    rw [hdirect _ hle', fieldBytes_of_width htype hwidth
      (by rw [List.length_cons, zeros, List.length_replicate]; omega)] at hspike
    have hsize := hlength _ hle
    rw [← hflat, List.length_take, zeros, List.length_replicate] at hsize
    obtain rfl : width = field.size := by omega
    have hat : (zeros p ++ 1 :: zeros (q + field.size + field.size))[q]? = some 1 := by
      have hget := congrArg (·[0]?) hspike
      rw [List.getElem?_take_of_lt hpos, List.getElem?_take_of_lt hpos, List.getElem?_drop] at hget
      exact hget.symm
    refine ⟨?_, eq_of_spike hat⟩
    unfold FieldFits
    rw [hloc]
    exact ((typeWidth_iff helement).mp hwidth).imp id fun h => ⟨h.1, h.2.2⟩

/-- A field of a text is not read as a type has it. -/
theorem not_staticString (hloc : field.location = .staticString) {size : Nat}
    (htype : eventFieldToType field = some typeId)
    (h : ∀ tail, fieldBytes field tail =
      getDataWithOffsetDirect size .staticString q (zeros p ++ tail)) : False := by
  have hne : field.location ≠ .staticUTF16String ∧ field.location ≠ .staticLenPrefixArray := by
    rw [hloc]
    decide
  have helement := elementType_of_static hne.1 hne.2 htype
  have hnonzero : ∀ tail : List UInt8, (0 : UInt8) ∉ fieldBytes field tail := by
    intro tail hmem
    rw [h, getDataWithOffsetDirect] at hmem
    split at hmem
    · exact absurd hmem List.not_mem_nil
    · have hne := List.mem_takeWhile_imp hmem
      exact absurd hne (by decide)
  cases hwidth : typeWidth typeId with
  | none =>
    obtain rfl := (nullUtf16String_iff helement).mp hwidth
    refine hnonzero (1 :: zeros 3) ?_
    rw [fieldBytes_of_string htype]
    decide
  | some width =>
    have hpos := typeWidth_pos hwidth
    refine hnonzero (zeros width) ?_
    rw [fieldBytes_of_width htype hwidth (by rw [zeros, List.length_replicate]), zeros,
      List.take_replicate, Nat.min_self]
    exact List.mem_replicate.mpr ⟨Nat.ne_of_gt hpos, rfl⟩

theorem utf16Bytes_ones (n : Nat) :
    (utf16Bytes (List.replicate (2 * n) 1)).length = 2 * n := by
  induction n with
  | zero => rfl
  | succ n ih =>
    change (utf16Bytes (1 :: 1 :: List.replicate (2 * n) 1)).length = _
    rw [utf16Bytes, if_neg (by decide), List.length_cons, List.length_cons, ih]
    rfl

/-- A descriptor has 16 bits for the length. -/
theorem length_dynData_lt (base offset : Nat) (data : List UInt8) :
    (dynData base offset data).length < 2 ^ 16 := by
  unfold dynData
  have hdesc := fromLe_lt ((data.drop offset).take 4)
  have hlen : ((data.drop offset).take 4).length ≤ 4 := List.length_take_le _ _
  have hmax : 256 ^ ((data.drop offset).take 4).length ≤ 2 ^ 32 :=
    Nat.pow_le_pow_right (by decide) hlen
  dsimp only
  split
  · exact Nat.two_pow_pos 16
  · rw [List.length_take]
    omega

theorem dynData_zeros (base offset n : Nat) : dynData base offset (zeros n) = [] := by
  unfold dynData
  rw [zeros, List.drop_replicate, List.take_replicate, fromLe_replicate]
  dsimp only
  split
  · rfl
  · rw [Nat.zero_mod, Nat.zero_div, Nat.add_zero, Nat.sub_self, List.take_zero]

/-- Nor is one that is pointed at. -/
theorem not_dynamic {base : Nat} (hstatic : field.location ≠ .staticUTF16String)
    (harray : field.location ≠ .staticLenPrefixArray) (htype : eventFieldToType field = some typeId)
    (h : ∀ tail, fieldBytes field tail =
      if q + 4 > (zeros p ++ tail).length then [] else dynData base q (zeros p ++ tail)) :
    False := by
  have helement := elementType_of_static hstatic harray htype
  cases hwidth : typeWidth typeId with
  | none =>
    obtain rfl := (nullUtf16String_iff helement).mp hwidth
    -- a string may be longer than a descriptor can say
    have hlong := congrArg List.length (h (List.replicate (2 * 2 ^ 16) 1))
    rw [fieldBytes_of_string htype, utf16Bytes_ones] at hlong
    split at hlong
    · cases hlong
    · have hlt := length_dynData_lt base q (zeros p ++ List.replicate (2 * 2 ^ 16) 1)
      omega
  | some width =>
    have hflat := h (zeros width)
    rw [fieldBytes_of_width htype hwidth (by rw [zeros, List.length_replicate]), zeros_append,
      dynData_zeros, ite_self, zeros, List.take_replicate, Nat.min_self] at hflat
    exact Nat.ne_of_gt (typeWidth_pos hwidth) ((List.replicate_eq_nil_iff 0).mp hflat)

theorem getElem?_of_utf16Bytes {a : UInt8} {rest bytes : List UInt8}
    (h : utf16Bytes bytes = a :: rest) : bytes[0]? = some a := by
  match bytes with
  | [] => cases h
  | [_] => cases h
  | a' :: b' :: bytes =>
    rw [utf16Bytes] at h
    split at h
    · cases h
    · cases h
      rfl

/-- A string is read right only at its place. -/
theorem utf16_of_reads (hloc : field.location = .staticUTF16String) {size : Nat}
    (h : ∀ tail, fieldBytes field tail =
      getDataWithOffsetDirect size .staticUTF16String q (zeros p ++ tail)) : q = p := by
  have hspike := h (1 :: zeros 3)
  rw [fieldBytes_of_string (type_of_utf16 hloc), utf16Bytes_spike 0, getDataWithOffsetDirect]
    at hspike
  split at hspike
  · cases hspike
  · have hget := getElem?_of_utf16Bytes hspike.symm
    rw [List.getElem?_drop] at hget
    exact eq_of_spike hget

/-- A word with a width and an element size is one of a whole number. -/
theorem integer_of_sizes {size width : Nat} (hzero : field.size = 0)
    (hsize : tryGetElementSize field.typeName = some size)
    (hwidth : (eventFieldToElementType field).bind typeWidth = some width) :
    typeWord field ∈ integerWords := by
  obtain ⟨typeId, helement, hwidth⟩ := Option.bind_eq_some_iff.mp hwidth
  rcases (typeWidth_iff helement).mp hwidth with hword | ⟨-, heq, hmem⟩
  · unfold typeWord at hword ⊢
    unfold tryGetElementSize at hsize
    split at hsize
    · cases hsize
    · rename_i first rest hwords
      rw [hwords, List.headD_cons] at hword ⊢
      unfold wordWidth at hword
      split at hword
      all_goals
        first
        | decide
        | cases hsize
        | cases hword
  · rw [← heq, hzero] at hmem
    exact absurd hmem (by decide)

theorem fieldBytes_of_array (hloc : field.location = .staticLenPrefixArray) {width : Nat}
    (hwidth : (eventFieldToElementType field).bind typeWidth = some width) {bytes : List UInt8}
    (h : 2 + width * fromLe (bytes.take 2) ≤ bytes.length) :
    fieldBytes field bytes = (bytes.drop 2).take (fromLe (bytes.take 2) * width) := by
  rw [fieldBytes, run_array hloc hwidth, if_pos h]
  rfl

/-- Items without a width are not there, or empty when all is zero. -/
theorem items_zeros (h : typeWidth typeId = none) (count n : Nat) :
    (((Parser.replicate (readItem typeId) count).run (zeros n)).map (·.1.flatten)).getD [] = [] := by
  have hitem : (readItem typeId).run (zeros n) = none ∨
      ∀ n, ∃ m, (readItem typeId).run (zeros n) = some ([], zeros m) := by
    unfold readItem
    split
    · refine .inr fun n => ⟨n - utf16Skip (zeros n), ?_⟩
      change some (utf16Bytes (zeros n), (zeros n).drop (utf16Skip (zeros n))) = _
      rw [utf16Bytes_zeros]
      congr 2
      exact List.drop_replicate
    · rw [h]
      exact .inl rfl
  cases count with
  | zero => rfl
  | succ count =>
    rcases hitem with hitem | hitem
    · change (Option.map _ (((readItem typeId).run (zeros n)).bind _)).getD [] = []
      rw [hitem]
      rfl
    · have hall : ∀ count n, ∃ values rest, (Parser.replicate (readItem typeId) count).run (zeros n) =
          some (values, rest) ∧ values.flatten = [] := by
        intro count
        induction count with
        | zero => exact fun n => ⟨[], zeros n, rfl, rfl⟩
        | succ count ih =>
          intro n
          obtain ⟨m, hm⟩ := hitem n
          obtain ⟨values, rest, hrest, hflat⟩ := ih m
          refine ⟨[] :: values, rest, ?_, hflat⟩
          change ((readItem typeId).run (zeros n)).bind (fun r =>
            ((Parser.replicate (readItem typeId) count).run r.2).bind fun q =>
              some (r.1 :: q.1, q.2)) = _
          rw [hm, Option.bind_some, hrest]
          rfl
      obtain ⟨values, rest, hrest, hflat⟩ := hall (count + 1) n
      rw [hrest]
      exact hflat

/-- An array of items without a width is empty, when nothing but zeros is behind its count. -/
theorem fieldBytes_of_items (hloc : field.location = .staticLenPrefixArray)
    (hwidth : (eventFieldToElementType field).bind typeWidth = none) {bytes : List UInt8}
    (h : fromLe (bytes.take 2) = 0 ∨ ∃ n, bytes.drop 2 = zeros n) : fieldBytes field bytes = [] := by
  have htype : typeWidth ((eventFieldToElementType field).getD 0) = none := by
    cases helement : eventFieldToElementType field with
    | none => rfl
    | some typeId =>
      rw [helement] at hwidth
      exact hwidth
  rw [fieldBytes, readField_of_array hloc]
  change ((((word 2).run bytes).bind fun r =>
    ((Parser.replicate (readItem ((eventFieldToElementType field).getD 0)) r.1).run r.2).bind
      fun q => some (q.1.flatten, q.2)).map Prod.fst).getD [] = []
  rw [run_word]
  by_cases hcount : 2 ≤ bytes.length
  · rw [if_pos hcount, Option.bind_some]
    dsimp only
    rcases h with hzero | ⟨n, hn⟩
    · rw [hzero]
      rfl
    · have hitems := items_zeros htype (fromLe (bytes.take 2)) n
      rw [hn]
      rw [Option.map_bind]
      rw [Option.map_eq_bind] at hitems
      exact hitems
  · rw [if_neg hcount]
    rfl

theorem typeWidth_le {width : Nat} (h : typeWidth typeId = some width) : width ≤ 8 := by
  obtain ⟨before, after, hwidths, -⟩ := List.lookup_eq_some_iff.mp h
  have hmem : (typeId, width) ∈ typeWidths := by
    rw [hwidths]
    exact List.mem_append_right _ List.mem_cons_self
  have hall : ∀ entry ∈ typeWidths, entry.2 ≤ 8 := by decide
  exact hall _ hmem

/-- How many bytes the format has for an array. -/
theorem length_array {size : Nat} (hsize : 0 < size) (q : Nat) (data : List UInt8) :
    (getDataWithOffsetDirect size .staticLenPrefixArray q data).length =
      if q + 2 + fromLe ((data.drop q).take 2) * size ≤ data.length then
        fromLe ((data.drop q).take 2) * size
      else 0 := by
  rw [getDataWithOffsetDirect]
  dsimp only
  rw [if_neg (Nat.ne_of_gt hsize)]
  split
  · rw [if_neg (by omega)]
    rfl
  · split
    · rename_i hcount
      rw [List.length_drop] at hcount
      rw [if_neg (by omega)]
      rfl
    · split
      · rename_i hall
        rw [List.length_drop] at hall
        rw [if_neg (by omega)]
        rfl
      · rename_i hall
        rw [List.length_drop] at hall
        rw [if_pos (by omega), List.length_take, List.length_drop, List.length_drop]
        omega

theorem length_spike (p n : Nat) : (zeros p ++ 1 :: zeros n).length = p + n + 1 := by
  simp [zeros, Nat.add_assoc]

/-- The count alone, or an item too many, is not what a reader finds. -/
theorem array_of_width (hloc : field.location = .staticLenPrefixArray) {size width : Nat}
    (hsize : 0 < size) (hwidth : (eventFieldToElementType field).bind typeWidth = some width)
    (h : ∀ tail, fieldBytes field tail =
      getDataWithOffsetDirect size .staticLenPrefixArray q (zeros p ++ tail)) : q = p := by
  obtain ⟨typeId, -, htype⟩ := Option.bind_eq_some_iff.mp hwidth
  have hpos := typeWidth_pos htype
  have hsmall := typeWidth_le htype
  have hcount : fromLe ((1 :: zeros (q + 256 * size + width + 1)).take 2) = 1 := rfl
  have hread : (fieldBytes field (1 :: zeros (q + 256 * size + width + 1))).length = width := by
    rw [fieldBytes_of_array hloc hwidth, hcount, List.length_take, Nat.one_mul]
    · rw [List.drop_succ_cons, zeros, List.drop_replicate, List.length_replicate]
      omega
    · rw [hcount, List.length_cons, zeros, List.length_replicate]
      omega
  rw [h, length_array hsize, length_spike] at hread
  rcases count_spike p q (q + 256 * size + width) with ⟨-, heq⟩ | ⟨hcount, -⟩
  · exact heq
  · rcases List.mem_pair.mp hcount with hcount | hcount
    · rw [hcount, Nat.zero_mul, ite_self] at hread
      omega
    · rw [hcount] at hread
      split at hread
      all_goals omega

/-- An array is read right only at its place, and with items of the size that it has. -/
theorem array_of_reads (hloc : field.location = .staticLenPrefixArray) (hzero : field.size = 0)
    {size : Nat} (hsize : tryGetElementSize field.typeName = some size)
    (h : ∀ data : List UInt8, p ≤ data.length → (q = p → data.take p = zeros p) →
      fieldBytes field (data.drop p) =
        getDataWithOffsetDirect size .staticLenPrefixArray q data) :
    FieldFits field ∧ q = p := by
  have hpos := tryGetElementSize_pos hsize
  cases hwidth : (eventFieldToElementType field).bind typeWidth with
  | some width =>
    refine ⟨?_, array_of_width hloc hpos hwidth fun tail => ?_⟩
    · unfold FieldFits
      rw [hloc]
      exact integer_of_sizes hzero hsize hwidth
    · have hlen : (zeros p).length = p := List.length_replicate
      have hread := h (zeros p ++ tail) (by rw [List.length_append]; omega)
        fun _ => List.take_left' hlen
      rw [List.drop_left' hlen] at hread
      exact hread
  | none =>
    -- a count of one where the format looks for it
    have hread := h (zeros q ++ 1 :: zeros (p + size + 1)) (by rw [length_spike]; omega) fun heq =>
      heq ▸ List.take_left' List.length_replicate
    have hempty : fieldBytes field ((zeros q ++ 1 :: zeros (p + size + 1)).drop p) = [] := by
      refine fieldBytes_of_items hloc hwidth ?_
      by_cases hnear : q < p + 2
      · exact .inr ⟨_, List.drop_drop.trans (drop_spike hnear 1 (p + size + 1))⟩
      · refine .inl ?_
        rcases count_spike q p (p + size) with ⟨-, heq⟩ | ⟨hcount, -⟩
        · omega
        · rw [drop_zeros_append (by omega), zeros, List.take_append_of_le_length
            (by rw [List.length_replicate]; omega), List.take_replicate, fromLe_replicate]
    have hlength := congrArg List.length hread
    rw [hempty, length_array hpos, length_spike] at hlength
    rcases count_spike q q (p + size) with ⟨hcount, -⟩ | ⟨-, hne⟩
    · rw [hcount, if_pos (by omega)] at hlength
      rw [List.length_nil] at hlength
      omega
    · exact absurd rfl hne

/-- **A misfit shows.** A field of which a reader finds, behind `p` bytes, what the format has at
`q` is a fitting one, and at its place. -/
theorem fits_of_reads (hdeclarable : declarable field = true) (hkept : SizeKept field) {size : Nat}
    (hsize : closureSize field = some size)
    (h : ∀ data : List UInt8, p ≤ data.length → (q = p → data.take p = zeros p) →
      fieldBytes field (data.drop p) = getDataWithOffsetDirect size field.location q data) :
    FieldFits field ∧ q = p := by
  obtain ⟨typeId, htype⟩ := Option.isSome_iff_exists.mp hdeclarable
  have hlen : (zeros p).length = p := List.length_replicate
  have htail : ∀ tail, fieldBytes field tail =
      getDataWithOffsetDirect size field.location q (zeros p ++ tail) := by
    intro tail
    have hread := h (zeros p ++ tail) (by rw [List.length_append]; omega)
      fun _ => List.take_left' hlen
    rw [List.drop_left' hlen] at hread
    exact hread
  unfold closureSize at hsize
  cases hloc : field.location with
  | static =>
    rw [hloc] at htail hsize
    rw [if_neg fun h => absurd h.2 (by decide)] at hsize
    cases hsize
    exact static_of_reads hloc htype htail
  | staticString =>
    rw [hloc] at htail
    exact (not_staticString hloc htype htail).elim
  | dynRelative =>
    rw [hloc] at htail
    exact (not_dynamic (by rw [hloc]; decide) (by rw [hloc]; decide) htype htail).elim
  | dynAbsolute =>
    rw [hloc] at htail
    exact (not_dynamic (by rw [hloc]; decide) (by rw [hloc]; decide) htype htail).elim
  | staticLenPrefixArray =>
    have hzero : field.size = 0 := hkept (by rw [hloc]; decide)
    rw [if_pos ⟨hzero, hloc⟩] at hsize
    rw [hloc] at h
    exact array_of_reads hloc hzero hsize h
  | staticUTF16String =>
    rw [hloc] at htail
    refine ⟨?_, utf16_of_reads hloc htail⟩
    unfold FieldFits
    rw [hloc]
    trivial

end Misfits

/-! ## Which formats -/

theorem readField_zeros {field : EventField} (h : Passable field) :
    ∃ n, ∃ bytes, ∀ tail : List UInt8,
      (readField (declaredField field)).run (zeros n ++ tail) = some (bytes, tail) := by
  obtain ⟨typeId, htype⟩ := Option.isSome_iff_exists.mp h.declarable
  have hfits := h.fits
  have hlen : ∀ n, (zeros n).length = n := fun n => List.length_replicate
  unfold FieldFits at hfits
  split at hfits
  case h_1 hloc =>
    have helement := elementType_of_static (by rw [hloc]; decide) (by rw [hloc]; decide) htype
    have hwidth : typeWidth typeId = some field.size := by
      rw [typeWidth_iff helement]
      exact hfits.imp id fun h => ⟨h.1, rfl, h.2⟩
    refine ⟨field.size, zeros field.size, fun tail => ?_⟩
    rw [readField_of_width htype hwidth, run_take, List.take_left' (hlen _),
      List.drop_left' (hlen _), if_pos (by rw [List.length_append, hlen]; omega)]
  case h_2 hloc =>
    refine ⟨2, [], fun tail => ?_⟩
    rw [readField_of_string (type_of_utf16 hloc)]
    rfl
  case h_3 hloc =>
    obtain ⟨width, hword⟩ := wordWidth_of_integer hfits
    refine ⟨2, [], fun tail => ?_⟩
    have hcount : fromLe ((zeros 2 ++ tail).take 2) = 0 := rfl
    rw [run_array hloc ((elementType_of_word hfits).trans hword), hcount,
      if_pos (by rw [List.length_append, hlen]; omega), Nat.zero_mul, List.take_zero]
    rfl
  case h_4 => exact absurd hfits id

/-- Fitting fields are passed over zeros. -/
theorem readFields_zeros {before : List EventField} (h : ∀ field ∈ before, Passable field) :
    ∃ n, ∀ tail : List UInt8,
      (readFields (before.map declaredField)).run (zeros n ++ tail) = some ((), tail) := by
  induction before with
  | nil => exact ⟨0, fun _ => rfl⟩
  | cons field before ih =>
    obtain ⟨hfield, hbefore⟩ := List.forall_mem_cons.mp h
    obtain ⟨n, hn⟩ := ih hbefore
    obtain ⟨m, bytes, hm⟩ := readField_zeros hfield
    refine ⟨m + n, fun tail => ?_⟩
    rw [← zeros_append, List.append_assoc]
    change ((readField (declaredField field)).run (zeros m ++ (zeros n ++ tail))).bind
      (fun r => (readFields (before.map declaredField)).run r.2) = _
    rw [hm, Option.bind_some, hn]

/-- The position behind fitting fields that are all zero. -/
theorem position_zeros {before : List EventField} (h : ∀ field ∈ before, Passable field)
    {skips : List FieldSkip}
    (hpassed : before.foldlM passField (0, []) = some ((before.map (·.size)).sum, skips)) :
    ∃ p, ∀ tail : List UInt8,
      position ((before.map (·.size)).sum, skips) (zeros p ++ tail) = some p := by
  obtain ⟨skips', hpassed', -, hrun⟩ := readFields_eq h
  obtain rfl : skips' = skips := congrArg Prod.snd (Option.some.inj (hpassed'.symm.trans hpassed))
  obtain ⟨p, hp⟩ := readFields_zeros h
  refine ⟨p, fun tail => ?_⟩
  have hread := hrun (zeros p ++ tail)
  rw [hp, Option.map_some] at hread
  obtain ⟨p', hp', htail⟩ := Option.map_eq_some_iff.mp hread.symm
  have hle := position_le hp'
  have hlen := congrArg List.length htail
  rw [List.length_append, zeros, List.length_replicate] at hle
  rw [List.length_drop, List.length_append, zeros, List.length_replicate] at hlen
  change p + tail.length - p' = tail.length at hlen
  rw [hp']
  congr 1
  omega

/-- Behind fields that fit, only a field that fits is found, at its place. -/
theorem fits_of_closure {before : List EventField} (h : ∀ field ∈ before, Passable field)
    {field : EventField} (hdeclarable : declarable field = true) (hkept : SizeKept field)
    {closure : List UInt8 → List UInt8} (hclosure : closureBehind before field = some closure)
    (hread : ∀ data, (((readFields (before.map declaredField)).run data).bind fun r =>
      ((readField (declaredField field)).run r.2).map Prod.fst).getD [] = closure data) :
    FieldFits field ∧
      ((∀ other ∈ before, other.size ≠ 0) → field.offset = (before.map (·.size)).sum) := by
  obtain ⟨skips, hpassed, hskips, hbytes⟩ := fieldBytes_eq h field
  rw [closureBehind_eq hpassed] at hclosure
  obtain ⟨size, hsize, rfl⟩ := Option.map_eq_some_iff.mp hclosure
  have hfound := fun data => (hbytes data).symm.trans (hread data)
  cases skips with
  | nil =>
    obtain ⟨hfits, heq⟩ := fits_of_reads (p := (before.map (·.size)).sum) (q := field.offset)
      hdeclarable hkept hsize fun data hle _ => by
        have hpos : position ((before.map (·.size)).sum, []) data =
            some (before.map (·.size)).sum := if_pos hle
        have hdata := hfound data
        rw [hpos] at hdata
        exact hdata
    exact ⟨hfits, fun _ => heq⟩
  | cons skip skips =>
    obtain ⟨p, hp⟩ := position_zeros h hpassed
    have hfits := fits_of_reads hdeclarable hkept hsize fun data (hle : p ≤ data.length) hzeros => by
      have hpos := hp (data.drop p)
      rw [← hzeros rfl, List.take_append_drop] at hpos
      have hdata := hfound data
      change _ = getFieldDataClosure _ size field.location (skip :: skips) data at hdata
      rw [getFieldDataClosure_eq, hpos] at hdata
      exact hdata
    refine ⟨hfits.1, fun hall => ?_⟩
    cases hskips.mpr hall

/-- Reading the declared fields of the data finds what the format has for each of them. -/
def FieldsLocated (declared : List NetTraceField) (fields : List EventField) : Prop :=
  ∀ before field after, fields = before ++ field :: after → before.length < declared.length →
    ∃ closure, closureBehind before field = some closure ∧
      ∀ data, (fieldData declared before.length data).getD [] = closure data

/-- The fields that can be declared fit; and before the first string or array, the offset of each
is the size of those before it. -/
def FormatFits (fields : List EventField) : Prop :=
  ∀ before field after, fields = before ++ field :: after →
    (∀ other ∈ before, declarable other = true) → declarable field = true →
      FieldFits field ∧
        ((∀ other ∈ before, other.size ≠ 0) → field.offset = (before.map (·.size)).sum)

theorem length_lt_recordFields {before : List EventField} {field : EventField}
    (after : List EventField)
    (hbefore : ∀ other ∈ before, declarable other = true) (hfield : declarable field = true) :
    before.length < (recordFields (before ++ field :: after)).length := by
  rw [recordFields_eq, List.length_map, List.takeWhile_append_of_pos hbefore,
    List.takeWhile_cons_of_pos hfield, List.length_append, List.length_cons]
  omega

/-- The fields before one that is declared fit as well. -/
theorem passable_of_fits {fields before after : List EventField} {field : EventField}
    (hsplit : fields = before ++ field :: after) (hkept : ∀ field ∈ fields, SizeKept field)
    (hbefore : ∀ other ∈ before, declarable other = true)
    (hfits : ∀ front other back, before = front ++ other :: back → FieldFits other) :
    ∀ other ∈ before, Passable other := by
  intro other hother
  obtain ⟨front, back, heq⟩ := List.append_of_mem hother
  refine ⟨hfits front other back heq, hbefore other hother, hkept other ?_⟩
  rw [hsplit]
  exact List.mem_append_left _ hother

/-- **Located fields.** The declared fields of a format are found exactly when they fit. -/
theorem fieldsLocated_iff {fields : List EventField} (hkept : ∀ field ∈ fields, SizeKept field) :
    FieldsLocated (recordFields fields) fields ↔ FormatFits fields := by
  constructor
  · intro hlocated before
    -- the fields before a field fit, as they are found too
    induction hn : before.length using Nat.strong_induction_on generalizing before with
    | _ n ih =>
      intro field after hsplit hbefore hdeclarable
      have hpassable := passable_of_fits hsplit hkept hbefore fun front other back heq => by
        have hall := heq ▸ hbefore
        refine (ih front.length ?_ front rfl other (back ++ field :: after) ?_ ?_ ?_).1
        · rw [← hn, heq, List.length_append, List.length_cons]
          omega
        · rw [hsplit, heq, List.append_assoc, List.cons_append]
        · exact fun y hy => hall y (List.mem_append_left _ hy)
        · exact hall other (List.mem_append_right _ List.mem_cons_self)
      have hfield : SizeKept field :=
        hkept field (hsplit ▸ List.mem_append_right _ List.mem_cons_self)
      have hlt := length_lt_recordFields after hbefore hdeclarable
      obtain ⟨closure, hclosure, hread⟩ := hlocated before field after hsplit (hsplit ▸ hlt)
      refine fits_of_closure hpassable hdeclarable hfield hclosure fun data => ?_
      rw [← hread, hsplit, (fieldData_eq hlt).2.2]
  · intro hfits before field after hsplit hlt
    rw [hsplit] at hlt
    obtain ⟨hbefore, hdeclarable, hdata⟩ := fieldData_eq hlt
    have hpassable := passable_of_fits hsplit hkept hbefore fun front other back heq => by
      have hall := heq ▸ hbefore
      refine (hfits front other (back ++ field :: after) ?_ ?_ ?_).1
      · rw [hsplit, heq, List.append_assoc, List.cons_append]
      · exact fun y hy => hall y (List.mem_append_left _ hy)
      · exact hall other (List.mem_append_right _ List.mem_cons_self)
    obtain ⟨hfield, hoffset⟩ := hfits before field after hsplit hbefore hdeclarable
    have hkept : SizeKept field :=
      hkept field (hsplit ▸ List.mem_append_right _ List.mem_cons_self)
    obtain ⟨closure, hclosure, hread⟩ :=
      closure_of_fits hpassable ⟨hfield, hdeclarable, hkept⟩ hoffset
    exact ⟨closure, hclosure, fun data => by rw [hsplit, hdata, hread]⟩

/-- The fields of a .NET event have no gaps, so their types decide. -/
theorem parsed_fieldsLocated_iff (bytes : List UInt8) :
    FieldsLocated (recordFields (Dotnet.FieldsParserV5.parse bytes).fields)
        (Dotnet.FieldsParserV5.parse bytes).fields ↔
      ∀ field ∈ (Dotnet.FieldsParserV5.parse bytes).fields.takeWhile declarable,
        FieldFits field := by
  have hformed := Dotnet.FieldsParserV5.wellFormed_parse bytes
  rw [fieldsLocated_iff hformed.kept]
  constructor
  · intro hfits field hfield
    obtain ⟨before, after, hsplit⟩ := List.append_of_mem hfield
    have hall := List.takeWhile_append_dropWhile (p := declarable)
      (l := (Dotnet.FieldsParserV5.parse bytes).fields)
    have hdeclarable : ∀ other ∈ before ++ field :: after, declarable other = true := fun other h =>
      List.mem_takeWhile_imp (hsplit ▸ h)
    rw [hsplit, List.append_assoc] at hall
    exact (hfits before field _ hall.symm
      (fun other h => hdeclarable other (List.mem_append_left _ h))
      (hdeclarable field (List.mem_append_right _ List.mem_cons_self))).1
  · intro hfits before field after hsplit hbefore hdeclarable
    refine ⟨hfits field ?_, fun _ => hformed.offset before field after hsplit⟩
    rw [hsplit, List.takeWhile_append_of_pos hbefore, List.takeWhile_cons_of_pos hdeclarable]
    exact List.mem_append_right _ List.mem_cons_self

/-- **The declared fields.** Those of a record type with original data are found in its data
exactly when they fit. -/
theorem ExportRecordType.fields_locate_iff (recordType : ExportRecordType) (metaId : Nat)
    (hdata : recordType.isOriginalData = true)
    (hkept : ∀ field ∈ recordType.format.fields, SizeKept field) :
    FieldsLocated (NetTraceWriter.recordEntry recordType metaId).fields recordType.format.fields ↔
      FormatFits recordType.format.fields := by
  rw [NetTraceWriter.recordEntry, if_pos hdata]
  exact fieldsLocated_iff hkept

def shortRecord : ExportRecordType where
  kind := 0
  id := 7
  name := "Provider/Short"
  isOriginalData := true
  format := ⟨[⟨"id", "u32", .static, 0, 4⟩, ⟨"name", "string", .staticUTF16String, 4, 0⟩,
    ⟨"values", "__dyn_array u16", .staticLenPrefixArray, 4, 0⟩]⟩

theorem shortRecord_fields_locate :
    FieldsLocated (NetTraceWriter.recordEntry shortRecord 1).fields shortRecord.format.fields := by
  refine (shortRecord.fields_locate_iff 1 rfl (by decide)).mpr fun before field after hsplit _ _ => ?_
  rcases before with _ | ⟨first, _ | ⟨second, _ | ⟨third, before⟩⟩⟩
  · cases hsplit
    exact ⟨by decide, by decide⟩
  · cases hsplit
    exact ⟨by decide, by decide⟩
  · cases hsplit
    exact ⟨by decide, by decide⟩
  · cases before <;> cases hsplit

/-- The bytes of the fields `id`, a GUID, and `n`, a number. -/
def guidFields : List UInt8 :=
  [2, 0, 0, 0, 17, 0, 0, 0, 105, 0, 100, 0, 0, 0, 10, 0, 0, 0, 110, 0, 0, 0]

def guidRecord : ExportRecordType where
  kind := 0
  id := 7
  name := "Provider/Guid"
  isOriginalData := true
  format := Dotnet.FieldsParserV5.parse guidFields

/-- A GUID is declared as one byte, so that the number is read from within it. -/
theorem guidRecord_fields_misplaced :
    guidRecord.isOriginalData = true ∧
      guidRecord.format = Dotnet.FieldsParserV5.parse guidFields ∧
      ¬ FieldsLocated (NetTraceWriter.recordEntry guidRecord 1).fields guidRecord.format.fields := by
  refine ⟨rfl, rfl, fun h => ?_⟩
  have hfields : guidRecord.format.fields =
      [⟨"id", "u8", .static, 0, 16⟩] ++ ⟨"n", "u32", .static, 16, 4⟩ :: [] := by decide
  obtain ⟨closure, hclosure, hread⟩ := h _ _ _ hfields (by decide)
  obtain rfl : getDataWithOffsetDirect 4 .static 16 = closure := Option.some.inj hclosure
  exact absurd (hread ((List.range 20).map (·.toUInt8))) (by decide)

end OneCollect.Exporting
