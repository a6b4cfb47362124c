import OneCollect.Event.Format

/-! Decoding the fields of an event by their names (`event/mod.rs`). -/

namespace OneCollect.EventFormat
open Theory

/-- The data of the field with a name, which the format has. -/
def getData (self : EventFormat) (name : String) (data : List UInt8) : Exec (List UInt8) :=
  match self.fields.find? (·.name = name) with
  | some field => .ok (getDataWithOffsetDirect field.size field.location field.offset data)
  | none => panicked

def getU8 (self : EventFormat) (name : String) (data : List UInt8) : Exec Nat := do
  let slice ← self.getData name data
  if slice.length < 1 then fail "Not enough data." else .ok (fromLe (slice.take 1))

def getU16 (self : EventFormat) (name : String) (data : List UInt8) : Exec Nat := do
  let slice ← self.getData name data
  if slice.length < 2 then fail "Not enough data." else .ok (fromLe (slice.take 2))

def getU64 (self : EventFormat) (name : String) (data : List UInt8) : Exec Nat := do
  let slice ← self.getData name data
  if slice.length < 8 then fail "Not enough data." else .ok (fromLe (slice.take 8))

def getU32 (self : EventFormat) (name : String) (data : List UInt8) : Exec Nat := do
  let slice ← self.getData name data
  if slice.length < 4 then fail "Not enough data." else .ok (fromLe (slice.take 4))

def getStr (self : EventFormat) (name : String) (data : List UInt8) : Exec String := do
  let slice ← self.getData name data
  if slice.isEmpty then .ok ""
  else
    match decodeUtf8 slice with
    | some text => .ok text
    | none => fail "invalid utf-8 sequence"

/-- The range that a descriptor points at, from behind itself. -/
def getRelLoc (self : EventFormat) (name : String) (data : List UInt8) : Exec (Nat × Nat) :=
  match self.fields.find? (·.name = name) with
  | none => panicked
  | some field =>
    if field.size ≠ 4 then fail "Field size must be 4"
    else if data.length < field.offset + 4 then fail "Not enough data."
    else
      let relLoc := fromLe ((data.drop field.offset).take 4)
      let start := field.offset + 4 + relLoc % 2 ^ 16
      let stop := start + relLoc / 2 ^ 16
      if data.length < stop then fail "Not enough data." else .ok (start, stop)

end OneCollect.EventFormat
