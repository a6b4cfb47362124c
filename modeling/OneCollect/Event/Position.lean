import Mathlib.Data.List.TakeWhile
import OneCollect.Event.Format

/-! Where the closure of a field reads. `position` is where the data goes on behind the fields
that were passed: one lemma says how each kind of field moves it, and `closure_reads` that the
closure reads there. -/

namespace OneCollect.EventFormat
open Theory

/-- The position behind the fields that were passed, when the data reaches that far. -/
def position (passed : Nat × List FieldSkip) (data : List UInt8) : Option Nat :=
  (passed.2.foldlM (skipField data) 0).bind fun skip =>
    if passed.1 + skip ≤ data.length then some (passed.1 + skip) else none

section Position

variable {offset : Nat} {skips : List FieldSkip} {data : List UInt8}

theorem position_le {passed : Nat × List FieldSkip} {p : Nat} (h : position passed data = some p) :
    p ≤ data.length := by
  obtain ⟨skip, -, h⟩ := Option.bind_eq_some_iff.mp h
  split at h
  · cases h
    assumption
  · cases h

theorem position_static (size : Nat) :
    position (offset + size, skips) data =
      (position (offset, skips) data).bind fun p =>
        if p + size ≤ data.length then some (p + size) else none := by
  unfold position
  rw [Option.bind_assoc]
  refine congrArg _ (funext fun skip => ?_)
  dsimp only
  by_cases h : offset + skip ≤ data.length
  · rw [if_pos h, Option.bind_some, Nat.add_right_comm]
  · rw [if_neg h, if_neg (by omega), Option.bind_none]

theorem utf16Skip_le (bytes : List UInt8) : utf16Skip bytes ≤ bytes.length := by
  fun_induction utf16Skip bytes with
  | case1 a b rest h => exact Nat.le_add_left _ _
  | case2 a b rest h ih => exact Nat.add_le_add_right ih 2
  | case3 bytes h => exact Nat.zero_le _

theorem stringSkip_le (bytes : List UInt8) : stringSkip bytes ≤ bytes.length := by
  fun_induction stringSkip bytes with
  | case1 => exact le_refl 0
  | case2 rest => exact Nat.le_add_left _ _
  | case3 byte rest h ih => exact Nat.add_le_add_right ih 1

/-- A string ends at its zero byte. -/
theorem takeWhile_string {content : List UInt8} (h : 0 ∉ content) (rest : List UInt8) :
    (content ++ [0] ++ rest).takeWhile (· ≠ 0) = content ∧
      stringSkip (content ++ [0] ++ rest) = (content ++ [0]).length := by
  induction content with
  | nil => exact ⟨rfl, rfl⟩
  | cons byte content ih =>
    have hbyte : byte ≠ 0 := fun hzero => h (hzero ▸ List.mem_cons_self)
    obtain ⟨htake, hskip⟩ := ih (fun hmem => h (List.mem_cons_of_mem _ hmem))
    simp only [List.cons_append]
    constructor
    · rw [List.takeWhile_cons_of_pos (by simpa using hbyte), htake]
    · rw [stringSkip, if_neg hbyte, hskip]
      rfl

/-- A skip that stays in the data, whatever is there, moves the position by as much. -/
theorem position_skip {location : LocationType} {skipLength : List UInt8 → Nat}
    (hskip : ∀ skipOffset, skipField data skipOffset ⟨location, none, offset⟩ =
      if skipOffset + offset > data.length then none
      else some (skipOffset + skipLength (data.drop (skipOffset + offset))))
    (hle : ∀ bytes, skipLength bytes ≤ bytes.length) :
    position (offset, skips ++ [⟨location, none, offset⟩]) data =
      (position (offset, skips) data).map fun p => p + skipLength (data.drop p) := by
  unfold position
  rw [List.foldlM_append]
  change ((skips.foldlM (skipField data) 0).bind fun skip =>
    [_].foldlM (skipField data) skip).bind _ = _
  rw [Option.bind_assoc, Option.map_bind]
  refine congrArg _ (funext fun skip => ?_)
  rw [List.foldlM_cons, hskip]
  dsimp only [Function.comp]
  rw [Nat.add_comm offset skip]
  by_cases h : skip + offset ≤ data.length
  · have hle := hle (data.drop (skip + offset))
    rw [List.length_drop] at hle
    rw [if_neg (not_lt.mpr h), if_pos h]
    change (if offset + (skip + _) ≤ data.length then some (offset + (skip + _)) else none) = _
    rw [if_pos (by omega), Option.map_some]
    congr 1
    omega
  · rw [if_pos (not_le.mp h), if_neg h]
    rfl

theorem position_string :
    position (offset, skips ++ [⟨.staticString, none, offset⟩]) data =
      (position (offset, skips) data).map fun p => p + stringSkip (data.drop p) :=
  position_skip (fun _ => rfl) stringSkip_le

theorem position_utf16 :
    position (offset, skips ++ [⟨.staticUTF16String, none, offset⟩]) data =
      (position (offset, skips) data).map fun p => p + utf16Skip (data.drop p) :=
  position_skip (fun _ => rfl) utf16Skip_le

theorem position_array (elementSize : Nat) :
    position (offset, skips ++ [⟨.staticLenPrefixArray, some elementSize, offset⟩]) data =
      (position (offset, skips) data).bind fun p =>
        if p + 2 + elementSize * fromLe ((data.drop p).take 2) ≤ data.length then
          some (p + 2 + elementSize * fromLe ((data.drop p).take 2))
        else none := by
  unfold position
  rw [List.foldlM_append]
  change ((skips.foldlM (skipField data) 0).bind fun skip =>
    [_].foldlM (skipField data) skip).bind _ = _
  rw [Option.bind_assoc, Option.bind_assoc]
  refine congrArg _ (funext fun skip => ?_)
  rw [List.foldlM_cons, Nat.add_comm offset skip]
  unfold skipField
  dsimp only
  by_cases h : skip + offset ≤ data.length
  · rw [if_neg (not_lt.mpr h), if_pos h, Option.bind_some]
    by_cases hcount : 2 ≤ (data.drop (skip + offset)).length
    · rw [if_neg (not_lt.mpr hcount)]
      change (if offset + (skip + 2 + _) ≤ data.length then some (offset + (skip + 2 + _))
        else none) = _
      have hsum : ∀ n, offset + (skip + 2 + n) = skip + offset + 2 + n := fun n => by omega
      rw [hsum]
      rfl
    · rw [List.length_drop] at hcount
      rw [if_pos (by rw [List.length_drop]; omega), if_neg (by omega)]
      rfl
  · rw [if_pos (not_le.mp h), if_neg h]
    rfl

end Position

/-! ## Closures -/

/-- What the closure of a field behind others does. -/
theorem closureBehind_eq {before : List EventField} {field : EventField} {offset : Nat}
    {skips : List FieldSkip} (h : before.foldlM passField (0, []) = some (offset, skips)) :
    closureBehind before field = (closureSize field).map fun size =>
      if skips.isEmpty then getDataWithOffsetDirect size field.location field.offset
      else getFieldDataClosure offset size field.location skips := by
  rw [closureBehind, h]
  change (closureSize field).bind _ = _
  rw [Option.map_eq_bind]
  refine congrArg _ (funext fun size => ?_)
  dsimp only [Function.comp]
  split_ifs <;> rfl

theorem getDataWithOffsetDirect_of_lt {size offset : Nat} {location : LocationType}
    {data : List UInt8} (h : data.length < offset) :
    getDataWithOffsetDirect size location offset data = [] := by
  unfold getDataWithOffsetDirect
  cases location with
  | static => exact if_pos (by omega)
  | staticString => exact if_pos h
  | dynRelative => exact if_pos (by omega)
  | dynAbsolute => exact if_pos (by omega)
  | staticLenPrefixArray => exact if_pos h
  | staticUTF16String => exact if_pos h

/-- The closure with skips looks at the position, where there is one. -/
theorem getFieldDataClosure_eq (offset size : Nat) (location : LocationType)
    (skips : List FieldSkip) (data : List UInt8) :
    getFieldDataClosure offset size location skips data =
      ((position (offset, skips) data).map fun p =>
        getDataWithOffsetDirect size location p data).getD [] := by
  unfold getFieldDataClosure position
  cases skips.foldlM (skipField data) 0 with
  | none => rfl
  | some skip =>
    rw [Option.bind_some]
    by_cases h : offset + skip ≤ data.length
    · rw [if_pos h]
      rfl
    · rw [if_neg h]
      exact getDataWithOffsetDirect_of_lt (not_le.mp h)
/-- Where the closure of the field with this name reads, if its data reaches that far. -/
def readOffset (self : EventFormat) (name : String) (data : List UInt8) : Option Nat := do
  let field ← self.getField name
  let (offset, skips) ← (self.fields.takeWhile (·.name ≠ name)).foldlM passField (0, [])
  position (if skips.isEmpty then field.offset else offset, skips) data

theorem closureLoop_eq (name : String) (passed : Nat × List FieldSkip) (fields : List EventField) :
    closureLoop name passed fields =
      (fields.find? (·.name = name)).bind fun field =>
        ((fields.takeWhile (·.name ≠ name)).foldlM passField passed).bind fun passed =>
          fieldClosure passed field := by
  induction fields generalizing passed with
  | nil => rfl
  | cons field fields ih =>
    by_cases hname : field.name = name
    · rw [closureLoop, if_pos hname, List.find?_cons_of_pos (by simpa using hname),
        List.takeWhile_cons_of_neg (by simpa using hname)]
      rfl
    · rw [closureLoop, if_neg hname, List.find?_cons_of_neg (by simpa using hname),
        List.takeWhile_cons_of_pos (by simpa using hname), List.foldlM_cons]
      change (passField passed field).bind _ = _
      cases hpass : passField passed field with
      | none =>
        cases fields.find? (·.name = name) <;> rfl
      | some passed => exact ih passed

/-- **What a closure reads.** The bytes of the field at `readOffset`, and none without one. -/
theorem closure_reads {self : EventFormat} {name : String} {closure : List UInt8 → List UInt8}
    (h : self.tryGetFieldDataClosure name = some closure) :
    ∃ field, self.getField name = some field ∧ ∃ size, closureSize field = some size ∧
      ∀ data, closure data = ((self.readOffset name data).map fun p =>
        getDataWithOffsetDirect size field.location p data).getD [] := by
  rw [tryGetFieldDataClosure, closureLoop_eq] at h
  obtain ⟨field, hfield, h⟩ := Option.bind_eq_some_iff.mp h
  obtain ⟨⟨offset, skips⟩, hpassed, h⟩ := Option.bind_eq_some_iff.mp h
  obtain ⟨size, hsize, h⟩ := Option.bind_eq_some_iff.mp h
  refine ⟨field, hfield, size, hsize, fun data => ?_⟩
  have hread : self.readOffset name data =
      position (if skips.isEmpty then field.offset else offset, skips) data := by
    rw [readOffset, getField, hfield, Option.bind_eq_bind, Option.bind_some, hpassed]
    rfl
  rw [hread, ← getFieldDataClosure_eq]
  split_ifs at h with hskips
  · cases h
    rw [if_pos hskips, List.isEmpty_iff.mp hskips]
    rfl
  · cases h
    rw [if_neg hskips]

/-- The field behind fields of other names, in an event format. -/
theorem getField_split {self : EventFormat} {before after : List EventField} {field : EventField}
    (h : self.fields = before ++ field :: after)
    (hbefore : ∀ other ∈ before, other.name ≠ field.name) :
    self.getField field.name = some field ∧
      self.fields.takeWhile (·.name ≠ field.name) = before := by
  have hskip : ∀ other ∈ before, decide (other.name ≠ field.name) = true := fun other hother =>
    decide_eq_true (hbefore other hother)
  constructor
  · have hnone : before.find? (·.name = field.name) = none := by
      rw [List.find?_eq_none]
      intro other hother
      simpa using hbefore other hother
    rw [getField, h, List.find?_append, hnone, Option.none_or]
    exact List.find?_cons_of_pos (by simp)
  · rw [h, List.takeWhile_append_of_pos hskip, List.takeWhile_cons_of_neg (by simp),
      List.append_nil]

end OneCollect.EventFormat
