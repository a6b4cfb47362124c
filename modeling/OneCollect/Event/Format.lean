import OneCollect.Theory.Bytes
import OneCollect.Theory.Text

/-! Event formats (`event/mod.rs`): the fields of an event, where they are, and how the bytes of a
field are found in the data of an event. Fields behind one of a length of its own are found by
skipping over it. -/

namespace OneCollect
open Theory

inductive LocationType where
  | static
  | staticString
  | dynRelative
  | dynAbsolute
  | staticLenPrefixArray
  | staticUTF16String
  deriving DecidableEq, Repr

structure EventField where
  name : String
  typeName : String
  location : LocationType
  offset : Nat
  size : Nat
  deriving DecidableEq, Repr

structure EventFormat where
  fields : List EventField := []
  deriving DecidableEq, Repr

structure Event where
  id : Nat
  name : String
  format : EventFormat := {}
  deriving DecidableEq, Repr

namespace EventFormat

def getField (self : EventFormat) (name : String) : Option EventField :=
  self.fields.find? (·.name = name)

def addField (self : EventFormat) (field : EventField) : EventFormat :=
  ⟨self.fields ++ [field]⟩

/-- Where the last field ends. -/
def nextOffset (self : EventFormat) : Nat :=
  match self.fields.getLast? with
  | some last => last.offset + last.size
  | none => 0

/-- The pairs of bytes before a pair of zeros; an odd byte at the end is left out. -/
def utf16Bytes : List UInt8 → List UInt8
  | a :: b :: rest => if a = 0 ∧ b = 0 then [] else a :: b :: utf16Bytes rest
  | _ => []

/-- Behind the pairs and the pair of zeros. -/
def utf16Skip : List UInt8 → Nat
  | a :: b :: rest => if a = 0 ∧ b = 0 then 2 else utf16Skip rest + 2
  | _ => 0

def stringSkip : List UInt8 → Nat
  | [] => 0
  | byte :: rest => if byte = 0 then 1 else stringSkip rest + 1

/-- What a descriptor at `offset` points at, from a base. -/
def dynData (base offset : Nat) (data : List UInt8) : List UInt8 :=
  let desc := fromLe ((data.drop offset).take 4)
  let start := base + desc % 2 ^ 16
  let stop := start + desc / 2 ^ 16
  if stop > data.length then [] else (data.drop start).take (stop - start)

def getDataWithOffsetDirect (size : Nat) (location : LocationType) (offset : Nat)
    (data : List UInt8) : List UInt8 :=
  match location with
  | .static => if offset + size > data.length then [] else (data.drop offset).take size
  | .staticString =>
    if offset > data.length then [] else (data.drop offset).takeWhile (· ≠ 0)
  | .staticUTF16String => if offset > data.length then [] else utf16Bytes (data.drop offset)
  | .staticLenPrefixArray =>
    if offset > data.length then []
    else
      let slice := data.drop offset
      if slice.length < 2 then []
      else
        let len := fromLe (slice.take 2)
        -- without a size the length counts bytes
        let elementSize := if size = 0 then 1 else size
        let bytes := len * elementSize
        if 2 + bytes > slice.length then [] else (slice.drop 2).take bytes
  | .dynRelative => if offset + 4 > data.length then [] else dynData (offset + 4) offset data
  | .dynAbsolute => if offset + 4 > data.length then [] else dynData 0 offset data

structure FieldSkip where
  location : LocationType
  size : Option Nat
  offset : Nat
  deriving DecidableEq, Repr

/-- One turn of the loop over the skips; `none` where it returns without data. -/
def skipField (data : List UInt8) (skipOffset : Nat) (skip : FieldSkip) : Option Nat :=
  let start := skipOffset + skip.offset
  if start > data.length then none
  else
    let slice := data.drop start
    match skip.location with
    | .staticString => some (skipOffset + stringSkip slice)
    | .staticUTF16String => some (skipOffset + utf16Skip slice)
    | .staticLenPrefixArray =>
      if slice.length < 2 then none
      else some (skipOffset + 2 + skip.size.getD 0 * fromLe (slice.take 2))
    | _ => none

def getFieldDataClosure (offset size : Nat) (location : LocationType) (skips : List FieldSkip)
    (data : List UInt8) : List UInt8 :=
  match skips.foldlM (skipField data) 0 with
  | none => []
  | some skipOffset => getDataWithOffsetDirect size location (offset + skipOffset) data

/-- The words of a type, without the mark of an array in front. -/
def typeWords (typeName : String) : List String :=
  let words := (splitWhitespace typeName.toList).map String.ofList
  if words.headD "" = "__dyn_array" then words.tail else words

def tryGetElementSize (typeName : String) : Option Nat :=
  match typeWords typeName with
  | [] => none
  | first :: rest =>
    let typeName := if first = "unsigned" then rest.headD "" else first
    match typeName with
    | "u8" | "s8" | "char" | "counted_string" | "counted_wstring" | "string" | "wstring" => some 1
    | "u16" | "s16" | "short" => some 2
    | "u32" | "s32" | "int" => some 4
    | "u64" | "s64" | "long" => some 8
    | _ => none

theorem tryGetElementSize_pos {typeName : String} {size : Nat}
    (h : tryGetElementSize typeName = some size) : 0 < size := by
  unfold tryGetElementSize at h
  split at h
  · cases h
  · dsimp only at h
    split at h <;> cases h <;> decide

/-- The loop's way past a field: the offset and the skips behind it. -/
def passField (passed : Nat × List FieldSkip) (field : EventField) :
    Option (Nat × List FieldSkip) := do
  let (offset, skips) := passed
  if field.size ≠ 0 then return (offset + field.size, skips)
  else
    match field.location with
    | .staticString | .staticUTF16String =>
      return (offset, skips ++ [⟨field.location, none, offset⟩])
    | .staticLenPrefixArray =>
      let elementSize ← tryGetElementSize field.typeName
      return (offset, skips ++ [⟨field.location, some elementSize, offset⟩])
    | _ => none

/-- The size that the closure of a field goes by. -/
def closureSize (field : EventField) : Option Nat :=
  if field.size = 0 ∧ field.location = .staticLenPrefixArray then tryGetElementSize field.typeName
  else some field.size

/-- The closure for a field that the loop has come to. -/
def fieldClosure (passed : Nat × List FieldSkip) (field : EventField) :
    Option (List UInt8 → List UInt8) := do
  let (offset, skips) := passed
  let size ← closureSize field
  -- the offset of the field allows for gaps
  if skips.isEmpty then return getDataWithOffsetDirect size field.location field.offset
  else return getFieldDataClosure offset size field.location skips

/-- The loop over the fields, up to the one with the name. -/
def closureLoop (name : String) :
    Nat × List FieldSkip → List EventField → Option (List UInt8 → List UInt8)
  | _, [] => none
  | passed, field :: fields =>
    if field.name = name then fieldClosure passed field
    else do
      let passed ← passField passed field
      closureLoop name passed fields

def tryGetFieldDataClosure (self : EventFormat) (name : String) :
    Option (List UInt8 → List UInt8) :=
  closureLoop name (0, []) self.fields

/-- The closure for a field behind others. -/
def closureBehind (before : List EventField) (field : EventField) :
    Option (List UInt8 → List UInt8) := do
  let passed ← before.foldlM passField (0, [])
  fieldClosure passed field

theorem closureLoop_append {name : String} {before after : List EventField} {field : EventField}
    (hname : field.name = name) (hbefore : ∀ other ∈ before, other.name ≠ name)
    (passed : Nat × List FieldSkip) :
    closureLoop name passed (before ++ field :: after) =
      (before.foldlM passField passed).bind fun passed => fieldClosure passed field := by
  induction before generalizing passed with
  | nil =>
    rw [List.nil_append, closureLoop, if_pos hname]
    rfl
  | cons other before ih =>
    obtain ⟨hother, hbefore⟩ := List.forall_mem_cons.mp hbefore
    rw [List.cons_append, closureLoop, if_neg hother, List.foldlM_cons]
    change (passField passed other).bind _ = ((passField passed other).bind _).bind _
    rw [Option.bind_assoc]
    exact congrArg _ (funext fun passed => ih hbefore passed)

/-- A field is found by its name, behind the fields with other names. -/
theorem tryGetFieldDataClosure_eq {self : EventFormat} {before after : List EventField}
    {field : EventField} (h : self.fields = before ++ field :: after)
    (hbefore : ∀ other ∈ before, other.name ≠ field.name) :
    self.tryGetFieldDataClosure field.name = closureBehind before field := by
  rw [tryGetFieldDataClosure, h, closureLoop_append rfl hbefore]
  rfl

/-- Fields whose length is in the data have no size of their own. -/
def SizeKept (field : EventField) : Prop :=
  field.location ∈ [.staticString, .staticUTF16String, .staticLenPrefixArray] → field.size = 0

instance (field : EventField) : Decidable (SizeKept field) := by
  unfold SizeKept
  infer_instance

end EventFormat

end OneCollect
