import OneCollect.Event.Position

/-! Schemas of TraceLogging events (`etw/tdh.rs`). `walkProperties` flattens the properties that
TDH describes into the fields of an event format. It keeps a running offset up to the first field
of a length of its own; a property that the format cannot size gets a field of size zero. The
properties come as TDH's slice of them, each with the name that its offset leads to. -/

namespace OneCollect.Tdh
open EventFormat

namespace InType

def unicodeString : Nat := 1
def ansiString : Nat := 2
def int8 : Nat := 3
def uint8 : Nat := 4
def int16 : Nat := 5
def uint16 : Nat := 6
def int32 : Nat := 7
def uint32 : Nat := 8
def int64 : Nat := 9
def uint64 : Nat := 10
def float : Nat := 11
def double : Nat := 12
def boolean : Nat := 13
def binary : Nat := 14
def guid : Nat := 15
def pointer : Nat := 16
def fileTime : Nat := 17
def systemTime : Nat := 18
def sid : Nat := 19
def hexInt32 : Nat := 20
def hexInt64 : Nat := 21
def countedString : Nat := 300
def countedAnsiString : Nat := 301
def reversedCountedString : Nat := 302
def reversedCountedAnsiString : Nat := 303
def nonNullTerminatedString : Nat := 304
def nonNullTerminatedAnsiString : Nat := 305

end InType

def propertyStruct : Nat := 1
def propertyParamLength : Nat := 2
def propertyParamCount : Nat := 4

/-- The two words of the first union hold the in-type, or where the members of a struct start and
how many there are. `count` and `length` are numbers, or with their flags indices of properties. -/
structure EventPropertyInfo where
  name : String
  flags : Nat
  word0 : Nat
  word1 : Nat := 0
  count : Nat := 1
  length : Nat := 0
  deriving DecidableEq, Repr

namespace EventPropertyInfo

def inType (prop : EventPropertyInfo) : Nat := prop.word0

def structStartIndex (prop : EventPropertyInfo) : Nat := prop.word0

def numOfStructMembers (prop : EventPropertyInfo) : Nat := prop.word1

def members (prop : EventPropertyInfo) : List Nat :=
  List.range' prop.structStartIndex prop.numOfStructMembers

def has (prop : EventPropertyInfo) (flag : Nat) : Prop := prop.flags &&& flag ≠ 0

instance (prop : EventPropertyInfo) (flag : Nat) : Decidable (prop.has flag) :=
  inferInstanceAs (Decidable (_ ≠ _))

end EventPropertyInfo

structure TraceEventInfo where
  eventName : String
  topLevelPropertyCount : Nat
  properties : List EventPropertyInfo
  deriving DecidableEq, Repr

structure CachedSchema where
  eventName : String
  format : EventFormat
  schemaId : Nat
  deriving DecidableEq, Repr

inductive TdhDecodeError where
  | malformed (message : String)
  deriving DecidableEq, Repr

/-! ## The fields -/

def fieldInfos (is32Bit : Bool) : List (Nat × String × LocationType × Nat) :=
  [(InType.int8, "s8", .static, 1), (InType.uint8, "u8", .static, 1),
    (InType.int16, "s16", .static, 2), (InType.uint16, "u16", .static, 2),
    (InType.int32, "s32", .static, 4), (InType.hexInt32, "s32", .static, 4),
    (InType.uint32, "u32", .static, 4),
    (InType.boolean, "u32", .static, 4),
    (InType.int64, "s64", .static, 8), (InType.hexInt64, "s64", .static, 8),
    (InType.uint64, "u64", .static, 8),
    (InType.float, "float", .static, 4), (InType.double, "double", .static, 8),
    (InType.pointer, "pointer", .static, if is32Bit then 4 else 8),
    (InType.fileTime, "filetime", .static, 8), (InType.systemTime, "systemtime", .static, 16),
    (InType.guid, "guid", .static, 16),
    (InType.ansiString, "string", .staticString, 0),
    (InType.unicodeString, "wstring", .staticUTF16String, 0),
    (InType.countedString, "counted_wstring", .staticLenPrefixArray, 0),
    (InType.countedAnsiString, "counted_string", .staticLenPrefixArray, 0),
    -- these two have their length at the end; a zero is looked for instead
    (InType.reversedCountedString, "wstring", .staticUTF16String, 0),
    (InType.reversedCountedAnsiString, "string", .staticString, 0),
    (InType.nonNullTerminatedString, "wstring", .staticUTF16String, 0),
    (InType.nonNullTerminatedAnsiString, "string", .staticString, 0),
    (InType.sid, "binary", .static, 0), (InType.binary, "binary", .static, 0)]

def intypeToFieldInfo (inType : Nat) (is32Bit : Bool) : String × LocationType × Nat :=
  ((fieldInfos is32Bit).lookup inType).getD ("unsupported", .static, 0)

def intypeToTypeName (inType : Nat) : String := (intypeToFieldInfo inType false).1

def variableIntypes : List Nat :=
  [InType.unicodeString, InType.ansiString, InType.countedString, InType.countedAnsiString,
    InType.reversedCountedString, InType.reversedCountedAnsiString,
    InType.nonNullTerminatedString, InType.nonNullTerminatedAnsiString]

def explicitLen (prop : EventPropertyInfo) : Option Nat :=
  if prop.inType ∈ variableIntypes then none
  else if ¬ prop.has propertyParamLength then
    if prop.length > 0 then some prop.length else none
  else none

/-- What the walk carries along. -/
structure Walk where
  format : EventFormat := {}
  runningOffset : Nat := 0
  -- behind a field of a length of its own the offsets are zero
  seenVariable : Bool := false
  deriving DecidableEq, Repr

/-- The walk over a property that is no struct. -/
def walkLeaf (is32Bit : Bool) (qualifiedName : String) (prop : EventPropertyInfo) (walk : Walk) :
    Walk :=
  let offset := if walk.seenVariable then 0 else walk.runningOffset
  if prop.has propertyParamCount ∧ prop.count ≠ 1 then
    { walk with
      format := walk.format.addField ⟨qualifiedName, "unsupported", .static, offset, 0⟩
      seenVariable := true }
  else
    match explicitLen prop with
    | some len =>
      { walk with
        format := walk.format.addField
          ⟨qualifiedName, intypeToTypeName prop.inType, .static, offset, len⟩
        runningOffset := if walk.seenVariable then walk.runningOffset
          else walk.runningOffset + len }
    | none =>
      let (typeName, loc, size) := intypeToFieldInfo prop.inType is32Bit
      let format := walk.format.addField ⟨qualifiedName, typeName, loc, offset, size⟩
      if size = 0 then { walk with format, seenVariable := true }
      else
        { walk with
          format
          runningOffset := if walk.seenVariable then walk.runningOffset
            else walk.runningOffset + size }

/-! ## The walk -/

def qualifiedName (namePrefix : String) (i : Nat) (prop : EventPropertyInfo) : String :=
  let name := if prop.name.isEmpty then "field" ++ toString i else prop.name
  if namePrefix.isEmpty then name else namePrefix ++ "." ++ name

section Walk

variable (properties : List EventPropertyInfo) (is32Bit : Bool)

/-- One turn of the loop; `nested` walks the members of a struct. -/
def walkProperty (nested : String → List Nat → Walk → Except TdhDecodeError Walk)
    (namePrefix : String) (walk : Walk) (i : Nat) : Except TdhDecodeError Walk :=
  match properties[i]? with
  | none => .error (.malformed "property index out of bounds")
  | some prop =>
    let qualifiedName := qualifiedName namePrefix i prop
    if prop.has propertyStruct then nested qualifiedName prop.members walk
    else .ok (walkLeaf is32Bit qualifiedName prop walk)

/-- The walk, with the number of structs it may still go into. -/
def walkProperties : Nat → String → List Nat → Walk → Except TdhDecodeError Walk
  | 0, namePrefix, range, walk =>
    range.foldlM
      (walkProperty properties is32Bit
        (fun _ _ _ => .error (.malformed "struct nesting depth exceeded")) namePrefix) walk
  | depthLeft + 1, namePrefix, range, walk =>
    range.foldlM (walkProperty properties is32Bit (walkProperties depthLeft) namePrefix) walk

end Walk

def maxStructDepth : Nat := 8

def buildCachedSchema (tei : TraceEventInfo) (is32Bit : Bool) :
    Except TdhDecodeError CachedSchema :=
  if tei.properties.length = 0 then .ok ⟨tei.eventName, {}, 0⟩
  else do
    let walk ← walkProperties tei.properties is32Bit maxStructDepth ""
      (List.range tei.topLevelPropertyCount) {}
    return ⟨tei.eventName, walk.format, 0⟩

/-! ## Leaves -/

/-- How the field of a leaf is sized and where its data is, whichever branch adds it. -/
def leafInfo (is32Bit : Bool) (prop : EventPropertyInfo) : String × LocationType × Nat :=
  if prop.has propertyParamCount ∧ prop.count ≠ 1 then ("unsupported", .static, 0)
  else
    match explicitLen prop with
    | some len => (intypeToTypeName prop.inType, .static, len)
    | none => intypeToFieldInfo prop.inType is32Bit

def Walk.add (walk : Walk) (name : String) (info : String × LocationType × Nat) : Walk where
  format := walk.format.addField
    ⟨name, info.1, info.2.1, if walk.seenVariable then 0 else walk.runningOffset, info.2.2⟩
  runningOffset := if walk.seenVariable then walk.runningOffset else walk.runningOffset + info.2.2
  seenVariable := walk.seenVariable || info.2.2 == 0

theorem explicitLen_pos {prop : EventPropertyInfo} {len : Nat} (h : explicitLen prop = some len) :
    0 < len := by
  unfold explicitLen at h
  split_ifs at h with hvariable hparam hlen
  cases h
  exact hlen

/-- A leaf adds one field. -/
theorem walkLeaf_eq (is32Bit : Bool) (name : String) (prop : EventPropertyInfo) (walk : Walk) :
    walkLeaf is32Bit name prop walk = walk.add name (leafInfo is32Bit prop) := by
  unfold walkLeaf leafInfo Walk.add
  by_cases harray : prop.has propertyParamCount ∧ prop.count ≠ 1
  · simp only [if_pos harray, Nat.add_zero, ite_self, beq_self_eq_true, Bool.or_true]
  · simp only [if_neg harray]
    cases hlen : explicitLen prop with
    | some len =>
      have hpos : (len == 0) = false := beq_false_of_ne (explicitLen_pos hlen).ne'
      simp only [hpos, Bool.or_false]
    | none =>
      obtain ⟨typeName, loc, size⟩ := intypeToFieldInfo prop.inType is32Bit
      dsimp only
      by_cases hsize : size = 0
      · subst hsize
        simp only [↓reduceIte, Nat.add_zero, ite_self, beq_self_eq_true, Bool.or_true]
      · have hbeq : (size == 0) = false := beq_false_of_ne hsize
        simp only [if_neg hsize, hbeq, Bool.or_false]

end OneCollect.Tdh
