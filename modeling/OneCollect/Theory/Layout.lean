import Mathlib.Data.List.Basic

/-! Optional parts laid out one behind the other. A part is its own bytes between a lead (a
count, a size) and a trail (padding); a part that is absent has no bytes. `layOut_split` puts
each part at its `position`. -/

namespace OneCollect.Theory

structure Part where
  present : Bool := true
  lead : List UInt8 := []
  own : List UInt8 := []
  trail : List UInt8 := []
  deriving DecidableEq, Repr

namespace Part

def bytes (part : Part) : List UInt8 :=
  if part.present then part.lead ++ part.own ++ part.trail else []

def layOut (parts : List Part) : List UInt8 := parts.flatMap bytes

/-- Where a part starts. -/
def position (parts : List Part) (k : Nat) : Nat := (layOut (parts.take k)).length

variable {parts : List Part} {part : Part} {k : Nat}

theorem layOut_split (h : parts[k]? = some part) :
    layOut parts = layOut (parts.take k) ++ part.bytes ++ layOut (parts.drop (k + 1)) := by
  obtain ⟨hlt, rfl⟩ := List.getElem?_eq_some_iff.mp h
  unfold layOut
  conv_lhs => rw [← List.take_append_drop k parts, List.drop_eq_getElem_cons hlt]
  rw [List.flatMap_append, List.flatMap_cons, List.append_assoc]

theorem position_succ (h : parts[k]? = some part) :
    position parts (k + 1) = position parts k + part.bytes.length := by
  obtain ⟨hlt, rfl⟩ := List.getElem?_eq_some_iff.mp h
  rw [position, position, List.take_succ_eq_append_getElem hlt, layOut, layOut,
    List.flatMap_append, List.length_append, List.flatMap_singleton]

/-- A part ends within the layout. -/
theorem position_le (h : parts[k]? = some part) :
    position parts k + part.bytes.length ≤ (layOut parts).length := by
  rw [layOut_split h, List.length_append, List.length_append, position]
  omega

end Part

end OneCollect.Theory
