import OneCollect.Event.Format

/-! Filters on a field of an event (`try_get_field_filter_closure`): a comparison with a number, or
one with a text. Only a search for an empty text panics, as there are no windows of length 0
(`filter_ok`). -/

namespace OneCollect.EventFormat
open Theory

/-! ## Numbers -/

structure IntType where
  signed : Bool
  width : Nat
  deriving DecidableEq, Repr

namespace IntType

def ofName : String → Option IntType
  | "u8" => some ⟨false, 1⟩
  | "s8" => some ⟨true, 1⟩
  | "u16" | "unsigned short" => some ⟨false, 2⟩
  | "s16" | "short" => some ⟨true, 2⟩
  | "u32" | "unsigned int" => some ⟨false, 4⟩
  | "s32" | "int" => some ⟨true, 4⟩
  | "u64" | "unsigned long" => some ⟨false, 8⟩
  | "s64" | "long" => some ⟨true, 8⟩
  | _ => none

def digits (text : List Char) : Option Nat :=
  if text = [] then none
  else text.foldlM (fun n c => (decimalDigit c).map (10 * n + ·)) 0

def inRange (self : IntType) (n : Int) : Bool :=
  if self.signed then -2 ^ (8 * self.width - 1) ≤ n && n < 2 ^ (8 * self.width - 1)
  else 0 ≤ n && n < 2 ^ (8 * self.width)

/-- `parse` of the type. -/
def parse (self : IntType) (text : List Char) : Option Int :=
  let value := match text with
    | '+' :: text => (digits text).map Int.ofNat
    | '-' :: text => if self.signed then (digits text).map fun n => -Int.ofNat n else none
    | text => (digits text).map Int.ofNat
  value.filter self.inRange

/-- `from_ne_bytes` of the type. -/
def fromBytes (self : IntType) (bytes : List UInt8) : Int :=
  let n := fromLe bytes
  if self.signed && 2 ^ (8 * self.width - 1) ≤ n then n - 2 ^ (8 * self.width) else n

end IntType

def compareInt : String → Option (Int → Int → Bool)
  | ">" => some fun a b => a > b
  | ">=" => some fun a b => a ≥ b
  | "==" => some fun a b => a = b
  | "!=" => some fun a b => a ≠ b
  | "<" => some fun a b => a < b
  | "<=" => some fun a b => a ≤ b
  | _ => none

def numericFilter (typeName value : String) (compare : Int → Int → Bool) :
    Option (List UInt8 → Bool) := do
  let type ← IntType.ofName typeName
  let value ← type.parse value.toList
  some fun data => data.length = type.width && compare (type.fromBytes data) value

/-! ## Texts -/

def isStringType (typeName : String) : Bool :=
  typeName ∈ ["char", "unsigned char", "string", "wstring", "wchar"]

/-- Numeric operations on texts are taken as those on texts. -/
def swapOperation (operation typeName : String) : String :=
  match operation with
  | "==" => if isStringType typeName then "equals" else operation
  | "!=" => if isStringType typeName then "not_equals" else operation
  | _ => operation

/-- The bytes of a value as a field of the type has them, and whether they are UTF-16; a character
beyond 16 bits is cut. -/
def valueBytes (typeName value : String) : Option (List UInt8 × Bool) :=
  match typeName with
  | "char" | "unsigned char" | "string" => some (encodeUtf8 value.toList, false)
  | "wchar" | "wstring" => some (value.toList.flatMap fun c => toLe 2 c.toNat, true)
  | _ => none

def trimUtf16 : List UInt8 → List UInt8
  | a :: b :: rest => if a = 0 ∧ b = 0 then [] else a :: b :: trimUtf16 rest
  | rest => rest

/-- Up to the first null. -/
def trimNull (utf16 : Bool) (data : List UInt8) : List UInt8 :=
  if utf16 then trimUtf16 data else data.takeWhile (· ≠ 0)

/-- `windows`, which panics for a length of 0. -/
def windows (data : List UInt8) (len : Nat) : Exec (List (List UInt8)) :=
  if len = 0 then panicked
  else .ok ((List.range (data.length + 1 - len)).map fun i => (data.drop i).take len)

def stringFilter (operation : String) (bytes : List UInt8) (utf16 : Bool) :
    Option (List UInt8 → Exec Bool) :=
  match operation with
  | "contains" => some fun data => (windows data bytes.length).map (·.contains bytes)
  | "not_contains" => some fun data => (windows data bytes.length).map fun all =>
      !all.contains bytes
  | "starts_with" => some fun data => .ok (bytes.isPrefixOf data)
  | "ends_with" => some fun data => .ok (bytes.isSuffixOf (trimNull utf16 data))
  | "equals" => some fun data => .ok (bytes = trimNull utf16 data)
  | "not_equals" => some fun data => .ok (bytes ≠ trimNull utf16 data)
  | _ => none

/-! ## The filter -/

def tryGetFieldFilterClosure (self : EventFormat) (fieldName operation value : String) :
    Option (List UInt8 → Exec Bool) := do
  let dataClosure ← self.tryGetFieldDataClosure fieldName
  let field ← self.getField fieldName
  let operation := swapOperation operation field.typeName
  match compareInt operation with
  | some compare => do
    let filter ← numericFilter field.typeName value compare
    some fun data => .ok (filter (dataClosure data))
  | none => do
    let (bytes, utf16) ← valueBytes field.typeName value
    let filter ← stringFilter operation bytes utf16
    some fun data => filter (dataClosure data)

theorem valueBytes_ne_nil {typeName value : String} {bytes : List UInt8} {utf16 : Bool}
    (h : valueBytes typeName value = some (bytes, utf16)) (hvalue : value ≠ "") : bytes ≠ [] := by
  have hlist : value.toList ≠ [] := fun hnil => hvalue (String.toList_eq_nil_iff.mp hnil)
  have hwide : value.toList.flatMap (fun c => toLe 2 c.toNat) ≠ [] := by
    intro hnil
    cases htext : value.toList with
    | nil => exact hlist htext
    | cons c text =>
      rw [htext, List.flatMap_cons, toLe] at hnil
      exact absurd hnil (List.cons_ne_nil _ _)
  unfold valueBytes at h
  split at h
  · cases h
    exact fun hnil => hlist (encodeUtf8_eq_nil.mp hnil)
  · cases h
    exact fun hnil => hlist (encodeUtf8_eq_nil.mp hnil)
  · cases h
    exact fun hnil => hlist (encodeUtf8_eq_nil.mp hnil)
  · cases h
    exact hwide
  · cases h
    exact hwide
  · cases h

/-- A search for an empty text. -/
def EmptySearch (operation value : String) : Prop :=
  operation ∈ ["contains", "not_contains"] ∧ value = ""

instance (operation value : String) : Decidable (EmptySearch operation value) :=
  inferInstanceAs (Decidable (_ ∧ _))

theorem swapOperation_search {operation typeName : String}
    (h : swapOperation operation typeName ∈ ["contains", "not_contains"]) :
    operation ∈ ["contains", "not_contains"] := by
  unfold swapOperation at h
  split at h
  · split at h
    · exact absurd h (by decide)
    · exact h
  · split at h
    · exact absurd h (by decide)
    · exact h
  · exact h

/-- Only the searches use windows. -/
theorem stringFilter_ok {operation : String} {bytes : List UInt8} {utf16 : Bool}
    {filter : List UInt8 → Exec Bool} (h : stringFilter operation bytes utf16 = some filter)
    (hbytes : operation ∈ ["contains", "not_contains"] → bytes ≠ []) (data : List UInt8) :
    ∃ accepted, filter data = .ok accepted := by
  have hwindows : bytes ≠ [] → ∃ all, windows data bytes.length = .ok all := fun hne =>
    ⟨_, if_neg (List.length_eq_zero_iff.not.mpr hne)⟩
  unfold stringFilter at h
  split at h
  · cases h
    obtain ⟨all, hall⟩ := hwindows (hbytes (by decide))
    exact ⟨_, congrArg (Except.map _) hall⟩
  · cases h
    obtain ⟨all, hall⟩ := hwindows (hbytes (by decide))
    exact ⟨_, congrArg (Except.map _) hall⟩
  · cases h
    exact ⟨_, rfl⟩
  · cases h
    exact ⟨_, rfl⟩
  · cases h
    exact ⟨_, rfl⟩
  · cases h
    exact ⟨_, rfl⟩
  · exact (nomatch h)

/-- **Filters** do not panic, unless they search for an empty text. -/
theorem filter_ok {self : EventFormat} {fieldName operation value : String}
    {closure : List UInt8 → Exec Bool}
    (h : self.tryGetFieldFilterClosure fieldName operation value = some closure)
    (hsearch : ¬ EmptySearch operation value) (data : List UInt8) :
    ∃ accepted, closure data = .ok accepted := by
  unfold tryGetFieldFilterClosure at h
  obtain ⟨dataClosure, -, h⟩ := Option.bind_eq_some_iff.mp h
  obtain ⟨field, -, h⟩ := Option.bind_eq_some_iff.mp h
  dsimp only at h
  split at h
  · obtain ⟨filter, -, h⟩ := Option.bind_eq_some_iff.mp h
    cases h
    exact ⟨_, rfl⟩
  · obtain ⟨⟨bytes, utf16⟩, hbytes, h⟩ := Option.bind_eq_some_iff.mp h
    obtain ⟨filter, hfilter, h⟩ := Option.bind_eq_some_iff.mp h
    cases h
    refine stringFilter_ok hfilter (fun hop => valueBytes_ne_nil hbytes fun hvalue => ?_) _
    exact hsearch ⟨swapOperation_search hop, hvalue⟩

end OneCollect.EventFormat
