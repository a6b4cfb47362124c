import OneCollect.Theory.Parser
import OneCollect.Theory.Pointwise

/-! Messages in the wire format of protocol buffers: numbered fields, each a varint or bytes
behind their length. `readMessage_flatMap` reads a message back; `varints` and `lens` are its
fields of one number, and `scalar` the one value of a field that is not repeated. -/

namespace OneCollect.Theory.Wire
open OneCollect.Theory.Parser

inductive Payload where
  | varint (n : Nat)
  | bytes (bytes : List UInt8)
  deriving DecidableEq, Repr

structure Field where
  number : Nat
  payload : Payload
  deriving DecidableEq, Repr

/-! ## Writing -/

/-- The number of a field with its wire type: 0 for a varint, 2 for bytes. -/
def writeTag (number wireType : Nat) : List UInt8 := toUleb (number * 8 + wireType)

def writeUint64 (number value : Nat) : List UInt8 := writeTag number 0 ++ toUleb value

/-- A signed word is written as the unsigned word of its bits. -/
def writeInt64 (number : Nat) (value : Int) : List UInt8 := writeUint64 number (toU64 value)

def writeBool (number : Nat) (value : Bool) : List UInt8 := writeUint64 number value.toNat

def writeBytes (number : Nat) (bytes : List UInt8) : List UInt8 :=
  writeTag number 2 ++ (toUleb bytes.length ++ bytes)

/-- Nothing is written for no values. -/
def writeRepeatedPackedUint64 (number : Nat) (values : List Nat) : List UInt8 :=
  if values = [] then [] else writeBytes number (values.flatMap toUleb)

def Field.encode (self : Field) : List UInt8 :=
  match self.payload with
  | .varint n => writeUint64 self.number n
  | .bytes bytes => writeBytes self.number bytes

/-! ## Reading -/

def field : Parser Field := do
  let tag ← varint
  if tag % 8 = 0 then
    let n ← varint
    return ⟨tag / 8, .varint n⟩
  else if tag % 8 = 2 then
    let len ← varint
    let bytes ← take len
    return ⟨tag / 8, .bytes bytes⟩
  else failure

def readMessage (bytes : List UInt8) : Option (List Field) := many field bytes.length bytes

def readPacked (bytes : List UInt8) : Option (List Nat) := many varint bytes.length bytes

theorem toUleb_ne_nil (n : Nat) : toUleb n ≠ [] := by
  unfold toUleb
  cases n with
  | zero => exact List.cons_ne_nil _ _
  | succ n =>
    rw [ulebBytes]
    split <;> exact List.cons_ne_nil _ _

theorem encode_ne_nil (self : Field) : self.encode ≠ [] := by
  unfold Field.encode
  split
  · exact List.append_ne_nil_of_left_ne_nil (toUleb_ne_nil _) _
  · exact List.append_ne_nil_of_left_ne_nil (toUleb_ne_nil _) _

theorem parses_field (self : Field) : Parses field self.encode self := by
  obtain ⟨number, payload⟩ := self
  cases payload with
  | varint n =>
    have hmod : (number * 8 + 0) % 8 = 0 := by omega
    have hdiv : (number * 8 + 0) / 8 = number := by omega
    refine (parses_varint (number * 8 + 0)).bind ?_
    rw [if_pos hmod, hdiv]
    exact (parses_varint n).map
  | bytes bytes =>
    have hmod : (number * 8 + 2) % 8 = 2 := by omega
    have hdiv : (number * 8 + 2) / 8 = number := by omega
    refine (parses_varint (number * 8 + 2)).bind ?_
    rw [if_neg (by omega), if_pos hmod, hdiv]
    exact (parses_varint bytes.length).bind (parses_take bytes).map

/-- **Messages.** The fields of a message are read back. -/
theorem readMessage_flatMap (fields : List Field) :
    readMessage (fields.flatMap Field.encode) = some fields :=
  many_flatMap fields (fun self _ => parses_field self) (fun self _ => encode_ne_nil self)
    (length_le_flatMap fun self _ => encode_ne_nil self)

theorem readPacked_flatMap (values : List Nat) :
    readPacked (values.flatMap toUleb) = some values :=
  many_flatMap values (fun n _ => parses_varint n) (fun n _ => toUleb_ne_nil n)
    (length_le_flatMap fun n _ => toUleb_ne_nil n)

/-! ## Fields of one number -/

def Field.varint? (number : Nat) (self : Field) : Option Nat :=
  match self.payload with
  | .varint n => if self.number = number then some n else none
  | .bytes _ => none

def Field.bytes? (number : Nat) (self : Field) : Option (List UInt8) :=
  match self.payload with
  | .varint _ => none
  | .bytes bytes => if self.number = number then some bytes else none

def varints (number : Nat) (fields : List Field) : List Nat :=
  fields.filterMap (Field.varint? number)

def lens (number : Nat) (fields : List Field) : List (List UInt8) :=
  fields.filterMap (Field.bytes? number)

/-- The last value counts, and 0 without one. -/
def scalar (number : Nat) (fields : List Field) : Nat :=
  (varints number fields).getLast?.getD 0

@[simp] theorem lens_append (number : Nat) (xs ys : List Field) :
    lens number (xs ++ ys) = lens number xs ++ lens number ys :=
  List.filterMap_append

section Repeated

variable {α : Type}

/-- A repeated field of the number. -/
def repeated (number : Nat) (encode : α → List UInt8) (xs : List α) : List Field :=
  xs.map fun x => ⟨number, .bytes (encode x)⟩

theorem encode_repeated (number : Nat) (encode : α → List UInt8) (xs : List α) :
    (repeated number encode xs).flatMap Field.encode =
      xs.flatMap fun x => writeBytes number (encode x) := by
  unfold repeated
  rw [List.flatMap_map]
  rfl

theorem lens_repeated (number : Nat) (encode : α → List UInt8) (xs : List α) :
    lens number (repeated number encode xs) = xs.map encode := by
  induction xs with
  | nil => rfl
  | cons x xs ih =>
    have hhead : Field.bytes? number ⟨number, .bytes (encode x)⟩ = some (encode x) := if_pos rfl
    rw [repeated, List.map_cons, lens, List.filterMap_cons, hhead, List.map_cons]
    exact congrArg (encode x :: ·) ih

theorem lens_repeated_of_ne {number other : Nat} (h : other ≠ number) (encode : α → List UInt8)
    (xs : List α) : lens number (repeated other encode xs) = [] := by
  unfold lens repeated
  rw [List.filterMap_map]
  refine List.filterMap_eq_nil_iff.mpr fun x _ => ?_
  exact if_neg h

end Repeated

/-- Parts that are read back one by one. -/
theorem mapM_map_eq {α β : Type} {encode : α → List UInt8} {read : List UInt8 → Option β}
    {shown : α → β} (h : ∀ x, read (encode x) = some (shown x)) (xs : List α) :
    (xs.map encode).mapM read = some (xs.map shown) := by
  rw [List.mapM_map]
  exact mapM_eq_some_map fun x _ => h x

end OneCollect.Theory.Wire
