import OneCollect.Event.Access
import OneCollect.Theory.Utf16

/-! Payloads laid out by an event format. Fields lie back to back, those with a length of their own
as the payload says. `closure_decodes` says that the closure of a field gives the content that was
laid out for it. It is found under its name, and behind no field of size 0 that cannot be passed. -/

namespace OneCollect.EventFormat
open Theory

/-- A field, the bytes that stand for it in a payload, and the content that they mean. -/
structure Placed where
  field : EventField
  bytes : List UInt8
  content : List UInt8
  deriving DecidableEq, Repr

/-- The bytes of a field at a position of a payload are an encoding of its content. A descriptor
points at its content, which is anywhere in the payload. -/
inductive Encodes (payload : List UInt8) (position : Nat) : Placed → Prop where
  | static {field : EventField} {content : List UInt8} (hlocation : field.location = .static)
    (hsize : content.length = field.size) : Encodes payload position ⟨field, content, content⟩
  | string {field : EventField} {content : List UInt8} (hlocation : field.location = .staticString)
    (hsize : field.size = 0) (hcontent : 0 ∉ content) :
    Encodes payload position ⟨field, content ++ [0], content⟩
  | wide {field : EventField} {content : List UInt8}
    (hlocation : field.location = .staticUTF16String) (hsize : field.size = 0)
    (heven : content.length % 2 = 0) (hcontent : 0 ∉ codeUnits content) :
    Encodes payload position ⟨field, content ++ [0, 0], content⟩
  | array {field : EventField} {content : List UInt8} {elementSize count : Nat}
    (hlocation : field.location = .staticLenPrefixArray) (hsize : field.size = 0)
    (helement : tryGetElementSize field.typeName = some elementSize) (hcount : count < 2 ^ 16)
    (hcontent : content.length = count * elementSize) :
    Encodes payload position ⟨field, toLe 2 count ++ content, content⟩
  | relative {field : EventField} {start len : Nat} (hlocation : field.location = .dynRelative)
    (hsize : field.size = 4) (hstart : start < 2 ^ 16) (hlen : len < 2 ^ 16)
    (hfits : position + 4 + start + len ≤ payload.length) :
    Encodes payload position ⟨field, toLe 4 (start + 2 ^ 16 * len),
      (payload.drop (position + 4 + start)).take len⟩
  | absolute {field : EventField} {start len : Nat} (hlocation : field.location = .dynAbsolute)
    (hsize : field.size = 4) (hstart : start < 2 ^ 16) (hlen : len < 2 ^ 16)
    (hfits : start + len ≤ payload.length) :
    Encodes payload position ⟨field, toLe 4 (start + 2 ^ 16 * len), (payload.drop start).take len⟩

/-- Fields back to back from an offset, in a payload from a position. -/
def LaidOut (payload : List UInt8) : (offset position : Nat) → List Placed → Prop
  | _, _, [] => True
  | offset, position, placed :: rest =>
    placed.field.offset = offset ∧ Encodes payload position placed ∧
      LaidOut payload (offset + placed.field.size) (position + placed.bytes.length) rest

/-- The closures pass over the field. -/
def Passable (field : EventField) : Prop := field.location = .static → field.size ≠ 0

/-! ## Content -/

section Content

variable {payload rest : List UInt8} {position : Nat}

theorem utf16Bytes_wide {content : List UInt8} (heven : content.length % 2 = 0)
    (h : 0 ∉ codeUnits content) (rest : List UInt8) :
    utf16Bytes (content ++ [0, 0] ++ rest) = content ∧
      utf16Skip (content ++ [0, 0] ++ rest) = (content ++ [0, 0]).length := by
  fun_induction codeUnits content with
  | case1 a b content ih =>
    have hunit : ¬ (a = 0 ∧ b = 0) := fun hzero =>
      h ((fromLe_pair a b).mpr hzero ▸ List.mem_cons_self)
    rw [List.length_cons, List.length_cons] at heven
    obtain ⟨hbytes, hskip⟩ := ih (by omega) (fun hmem => h (List.mem_cons_of_mem _ hmem))
    simp only [List.cons_append]
    constructor
    · rw [utf16Bytes, if_neg hunit, hbytes]
    · rw [utf16Skip, if_neg hunit, hskip]
      rfl
  | case2 content hshort =>
    obtain rfl | ⟨a, rfl⟩ := nil_or_singleton hshort
    · exact ⟨rfl, rfl⟩
    · simp at heven

/-- What a descriptor points at. -/
theorem dynData_eq {base start len : Nat} (hstart : start < 2 ^ 16) (hlen : len < 2 ^ 16)
    (hdrop : payload.drop position = toLe 4 (start + 2 ^ 16 * len) ++ rest)
    (hfits : base + start + len ≤ payload.length) :
    dynData base position payload = (payload.drop (base + start)).take len := by
  have hdesc : fromLe ((payload.drop position).take 4) = start + 2 ^ 16 * len := by
    rw [hdrop, List.take_left' (length_toLe 4 _)]
    exact fromLe_toLe_of_lt (by omega)
  have hlow : (start + 2 ^ 16 * len) % 2 ^ 16 = start := by omega
  have hhigh : (start + 2 ^ 16 * len) / 2 ^ 16 = len := by omega
  unfold dynData
  dsimp only
  rw [hdesc, hlow, hhigh, if_neg (by omega), Nat.add_sub_cancel_left]

theorem length_drop_append {bytes : List UInt8} (hle : position ≤ payload.length)
    (hdrop : payload.drop position = bytes ++ rest) :
    position + bytes.length + rest.length = payload.length := by
  have hlength := congrArg List.length hdrop
  rw [List.length_drop, List.length_append] at hlength
  omega

/-- **The content of a field** at its position. -/
theorem Encodes.getData {placed : Placed} (h : Encodes payload position placed)
    (hle : position ≤ payload.length) (hdrop : payload.drop position = placed.bytes ++ rest) :
    ∃ size, closureSize placed.field = some size ∧
      getDataWithOffsetDirect size placed.field.location position payload = placed.content := by
  have hlength := length_drop_append hle hdrop
  cases h with
  | @static field content hlocation hsize =>
    refine ⟨field.size, if_neg fun harray => ?_, ?_⟩
    · exact absurd (hlocation.symm.trans harray.2) (by decide)
    · dsimp only at hlength hdrop
      rw [hlocation, ← hsize]
      change (if position + content.length > payload.length then [] else _) = _
      rw [if_neg (by omega), hdrop, List.take_left]
  | @string field content hlocation hsize hcontent =>
    refine ⟨field.size, if_neg fun harray => ?_, ?_⟩
    · exact absurd (hlocation.symm.trans harray.2) (by decide)
    · dsimp only at hdrop
      rw [hlocation]
      change (if position > payload.length then [] else _) = _
      rw [if_neg (by omega), hdrop]
      exact (takeWhile_string hcontent rest).1
  | @wide field content hlocation hsize heven hcontent =>
    refine ⟨field.size, if_neg fun harray => ?_, ?_⟩
    · exact absurd (hlocation.symm.trans harray.2) (by decide)
    · dsimp only at hdrop
      rw [hlocation]
      change (if position > payload.length then [] else _) = _
      rw [if_neg (by omega), hdrop]
      exact (utf16Bytes_wide heven hcontent rest).1
  | @array field content elementSize count hlocation hsize helement hcount hcontent =>
    have hcountAt : countAt position payload = count := by
      dsimp only at hdrop
      rw [countAt, hdrop, List.append_assoc, List.take_left' (length_toLe 2 count)]
      exact fromLe_toLe_of_lt hcount
    have hdrop2 : payload.drop (position + 2) = content ++ rest := by
      dsimp only at hdrop
      rw [← List.drop_drop, hdrop, List.append_assoc, List.drop_left' (length_toLe 2 count)]
    refine ⟨elementSize, (if_pos ⟨hsize, hlocation⟩).trans helement, ?_⟩
    rw [List.length_append, length_toLe, hcontent] at hlength
    rw [hlocation, array_eq, if_neg (Nat.ne_of_gt (tryGetElementSize_pos helement)), hcountAt,
      if_pos (by omega), hdrop2, ← hcontent, List.take_left]
  | @relative field start len hlocation hsize hstart hlen hfits =>
    refine ⟨field.size, if_neg fun harray => ?_, ?_⟩
    · exact absurd (hlocation.symm.trans harray.2) (by decide)
    · rw [length_toLe] at hlength
      rw [hlocation]
      change (if position + 4 > payload.length then [] else _) = _
      rw [if_neg (by omega), dynData_eq hstart hlen hdrop hfits]
  | @absolute field start len hlocation hsize hstart hlen hfits =>
    refine ⟨field.size, if_neg fun harray => ?_, ?_⟩
    · exact absurd (hlocation.symm.trans harray.2) (by decide)
    · rw [length_toLe] at hlength
      rw [hlocation]
      change (if position + 4 > payload.length then [] else _) = _
      rw [if_neg (by omega), dynData_eq hstart hlen hdrop (by omega), Nat.zero_add]

end Content

/-! ## Behind other fields -/

section Behind

variable {payload rest : List UInt8} {offset p : Nat} {skips : List FieldSkip}

theorem pass_sized {field : EventField} {bytes : List UInt8} (hsize : bytes.length = field.size)
    (hzero : field.size ≠ 0) (hle : p ≤ payload.length) (hdrop : payload.drop p = bytes ++ rest)
    (hposition : position (offset, skips) payload = some p) :
    ∃ passed, passField (offset, skips) field = some passed ∧ passed.1 = offset + field.size ∧
      position passed payload = some (p + bytes.length) := by
  have hlength := length_drop_append hle hdrop
  refine ⟨(offset + field.size, skips), if_pos hzero, rfl, ?_⟩
  rw [position_static, hposition, Option.bind_some, if_pos (by omega), hsize]

/-- A field is passed by the bytes that stand for it. -/
theorem Encodes.pass {placed : Placed} (h : Encodes payload p placed)
    (hpassable : Passable placed.field) (hle : p ≤ payload.length)
    (hdrop : payload.drop p = placed.bytes ++ rest)
    (hposition : position (offset, skips) payload = some p) :
    ∃ passed, passField (offset, skips) placed.field = some passed ∧
      passed.1 = offset + placed.field.size ∧
      position passed payload = some (p + placed.bytes.length) := by
  cases h with
  | static hlocation hsize => exact pass_sized hsize (hpassable hlocation) hle hdrop hposition
  | @string field content hlocation hsize hcontent =>
    dsimp only at hdrop ⊢
    refine ⟨(offset, skips ++ [⟨.staticString, none, offset⟩]), ?_, ?_, ?_⟩
    · simp [passField, hsize, hlocation]
    · rw [hsize, Nat.add_zero]
    · rw [position_string, hposition, Option.map_some, hdrop, (takeWhile_string hcontent rest).2]
  | @wide field content hlocation hsize heven hcontent =>
    dsimp only at hdrop ⊢
    refine ⟨(offset, skips ++ [⟨.staticUTF16String, none, offset⟩]), ?_, ?_, ?_⟩
    · simp [passField, hsize, hlocation]
    · rw [hsize, Nat.add_zero]
    · rw [position_utf16, hposition, Option.map_some, hdrop,
        (utf16Bytes_wide heven hcontent rest).2]
  | @array field content elementSize count hlocation hsize helement hcount hcontent =>
    have hlength := length_drop_append hle hdrop
    dsimp only at hdrop hlength ⊢
    have hcountAt : fromLe ((payload.drop p).take 2) = count := by
      rw [hdrop, List.append_assoc, List.take_left' (length_toLe 2 count)]
      exact fromLe_toLe_of_lt hcount
    rw [List.length_append, length_toLe, hcontent, Nat.mul_comm count] at hlength
    refine ⟨(offset, skips ++ [⟨.staticLenPrefixArray, some elementSize, offset⟩]), ?_, ?_, ?_⟩
    · simp [passField, hsize, hlocation, helement]
    · rw [hsize, Nat.add_zero]
    · rw [position_array, hposition, Option.bind_some, hcountAt, if_pos (by omega),
        List.length_append, length_toLe, hcontent, Nat.mul_comm count, Nat.add_assoc]
  | relative hlocation hsize =>
    have hzero := hsize.trans_ne (by decide : 4 ≠ 0)
    exact pass_sized ((length_toLe 4 _).trans hsize.symm) hzero hle hdrop hposition
  | absolute hlocation hsize =>
    have hzero := hsize.trans_ne (by decide : 4 ≠ 0)
    exact pass_sized ((length_toLe 4 _).trans hsize.symm) hzero hle hdrop hposition

/-- Fields are passed one after another. -/
theorem LaidOut.pass {before : List Placed} (h : LaidOut payload offset p before)
    (hpassable : ∀ placed ∈ before, Passable placed.field) (hle : p ≤ payload.length)
    (hdrop : payload.drop p = before.flatMap (·.bytes) ++ rest)
    (hposition : position (offset, skips) payload = some p) :
    ∃ passed, (before.map (·.field)).foldlM passField (offset, skips) = some passed ∧
      passed.1 = offset + (before.map (·.field.size)).sum ∧
      position passed payload = some (p + (before.flatMap (·.bytes)).length) := by
  induction before generalizing offset p skips with
  | nil => exact ⟨_, rfl, rfl, hposition⟩
  | cons placed before ih =>
    obtain ⟨-, hencodes, hlaid⟩ := h
    obtain ⟨hplaced, hpassable⟩ := List.forall_mem_cons.mp hpassable
    rw [List.flatMap_cons, List.append_assoc] at hdrop
    obtain ⟨⟨next, skips'⟩, hfield, hnext, hposition'⟩ :=
      hencodes.pass hplaced hle hdrop hposition
    obtain rfl : next = _ := hnext
    have hdrop' : payload.drop (p + placed.bytes.length) = before.flatMap (·.bytes) ++ rest := by
      rw [← List.drop_drop, hdrop, List.drop_left]
    have hle' := position_le hposition'
    obtain ⟨passed, hrun, hoffset, hfinal⟩ := ih hlaid hpassable hle' hdrop' hposition'
    refine ⟨passed, ?_, ?_, ?_⟩
    · rw [List.map_cons, List.foldlM_cons, hfield]
      exact hrun
    · rw [hoffset, List.map_cons, List.sum_cons, Nat.add_assoc]
    · rw [hfinal, List.flatMap_cons, List.length_append, Nat.add_assoc]

theorem laidOut_append {before : List Placed} {placed : Placed} {after : List Placed}
    (h : LaidOut payload offset p (before ++ placed :: after)) :
    LaidOut payload offset p before ∧
      placed.field.offset = offset + (before.map (·.field.size)).sum ∧
      Encodes payload (p + (before.flatMap (·.bytes)).length) placed := by
  induction before generalizing offset p with
  | nil => exact ⟨trivial, h.1, h.2.1⟩
  | cons first before ih =>
    obtain ⟨hoffset, hencodes, hlaid⟩ := h
    obtain ⟨hbefore, hfield, hplaced⟩ := ih hlaid
    refine ⟨⟨hoffset, hencodes, hbefore⟩, ?_, ?_⟩
    · rw [hfield, List.map_cons, List.sum_cons, Nat.add_assoc]
    · rw [List.flatMap_cons, List.length_append, ← Nat.add_assoc]
      exact hplaced

theorem position_nil (offset : Nat) (data : List UInt8) {p : Nat}
    (h : position (offset, []) data = some p) : p = offset := by
  change (if offset + 0 ≤ data.length then some (offset + 0) else none) = some p at h
  split_ifs at h
  exact (Option.some.inj h).symm

/-- **Closures decode the layout.** In a payload laid out by the format, whatever follows it, the
closure that is found under the name of a field gives its content. -/
theorem closure_decodes {self : EventFormat} {before after : List Placed} {placed : Placed}
    {rest : List UInt8} (hfields : self.fields = (before ++ placed :: after).map (·.field))
    (hpayload : payload = (before ++ placed :: after).flatMap (·.bytes) ++ rest)
    (hlaid : LaidOut payload 0 0 (before ++ placed :: after))
    (hname : ∀ other ∈ before, other.field.name ≠ placed.field.name)
    (hpassable : ∀ other ∈ before, Passable other.field) :
    ∃ closure, self.tryGetFieldDataClosure placed.field.name = some closure ∧
      closure payload = placed.content := by
  obtain ⟨hbefore, hoffset, hencodes⟩ := laidOut_append hlaid
  rw [Nat.zero_add] at hencodes hoffset
  have hsplit : payload = before.flatMap (·.bytes) ++
      (placed.bytes ++ (after.flatMap (·.bytes) ++ rest)) := by
    rw [hpayload, List.flatMap_append, List.flatMap_cons, List.append_assoc, List.append_assoc]
  have hstart : position (0, []) payload = some 0 := rfl
  obtain ⟨⟨offset, skips⟩, hrun, hpassed, hposition⟩ :=
    hbefore.pass hpassable (Nat.zero_le _) (by rwa [List.drop_zero]) hstart
  rw [Nat.zero_add] at hpassed hposition
  have hdrop : payload.drop (before.flatMap (·.bytes)).length =
      placed.bytes ++ (after.flatMap (·.bytes) ++ rest) := by
    rw [hsplit, List.drop_left]
  obtain ⟨size, hsize, hcontent⟩ := hencodes.getData (position_le hposition) hdrop
  have hsplitFields : self.fields = before.map (·.field) ++ placed.field :: after.map (·.field) := by
    rw [hfields, List.map_append, List.map_cons]
  have hnames : ∀ other ∈ before.map (·.field), other.name ≠ placed.field.name := by
    intro other hother
    obtain ⟨item, hitem, rfl⟩ := List.mem_map.mp hother
    exact hname item hitem
  rw [tryGetFieldDataClosure_eq hsplitFields hnames, closureBehind_eq hrun, hsize, Option.map_some]
  refine ⟨_, rfl, ?_⟩
  cases skips with
  | nil =>
    have hp := position_nil offset payload hposition
    rw [hp] at hcontent
    have hfield : placed.field.offset = offset := hoffset.trans hpassed.symm
    rw [← hfield] at hcontent
    exact hcontent
  | cons skip skips =>
    change getFieldDataClosure offset size placed.field.location (skip :: skips) payload = _
    rw [getFieldDataClosure_eq, hposition]
    exact hcontent

end Behind

def placedName : Placed where
  field := { name := "name", typeName := "string", location := .staticString, offset := 0, size := 0 }
  bytes := [97, 98, 0]
  content := [97, 98]

def placedIds : Placed where
  field :=
    { name := "ids", typeName := "u16", location := .staticLenPrefixArray, offset := 0, size := 0 }
  bytes := [1, 0, 7, 0]
  content := [7, 0]

def placedByte (name : String) (offset : Nat) (byte : UInt8) : Placed where
  field := { name, typeName := "u8", location := .static, offset, size := 1 }
  bytes := [byte]
  content := [byte]

def placedFormat : EventFormat :=
  ⟨[placedName.field, placedIds.field, (placedByte "last" 0 9).field]⟩

theorem closure_decodes_byte :
    ∃ closure, placedFormat.tryGetFieldDataClosure "last" = some closure ∧
      closure [97, 98, 0, 1, 0, 7, 0, 9] = [9] := by
  have hfields : placedFormat.fields =
      ([placedName, placedIds] ++ placedByte "last" 0 9 :: []).map (·.field) := rfl
  have hpayload : [97, 98, 0, 1, 0, 7, 0, 9] =
      ([placedName, placedIds] ++ placedByte "last" 0 9 :: []).flatMap (·.bytes) ++ [] := rfl
  have hcontent : (0 : UInt8) ∉ [97, 98] := by decide
  have hname : Encodes [97, 98, 0, 1, 0, 7, 0, 9] 0 placedName := .string rfl rfl hcontent
  have hids : Encodes [97, 98, 0, 1, 0, 7, 0, 9] 3 placedIds :=
    @Encodes.array _ _ placedIds.field [7, 0] 2 1 rfl rfl rfl (by decide) rfl
  have hlast : Encodes [97, 98, 0, 1, 0, 7, 0, 9] 7 (placedByte "last" 0 9) := .static rfl rfl
  refine closure_decodes hfields hpayload ⟨rfl, hname, rfl, hids, rfl, hlast, trivial⟩
    (by decide) fun other hother hstatic => ?_
  rcases List.mem_pair.mp hother with rfl | rfl
  · exact absurd hstatic (by decide)
  · exact absurd hstatic (by decide)

/-- The second of two fields with one name has the closure of the first. -/
theorem closure_not_decodes :
    ¬ ∀ (self : EventFormat) (payload rest : List UInt8) (before after : List Placed)
      (placed : Placed), self.fields = (before ++ placed :: after).map (·.field) →
      payload = (before ++ placed :: after).flatMap (·.bytes) ++ rest →
      LaidOut payload 0 0 (before ++ placed :: after) →
      ∃ closure, self.tryGetFieldDataClosure placed.field.name = some closure ∧
        closure payload = placed.content := by
  intro h
  have hfirst : Encodes [1, 2] 0 (placedByte "a" 0 1) := .static rfl rfl
  have hsecond : Encodes [1, 2] 1 (placedByte "a" 1 2) := .static rfl rfl
  obtain ⟨closure, hclosure, hcontent⟩ :=
    h ⟨[(placedByte "a" 0 1).field, (placedByte "a" 1 2).field]⟩ [1, 2] [] [placedByte "a" 0 1] []
      (placedByte "a" 1 2) rfl rfl ⟨rfl, hfirst, rfl, hsecond, trivial⟩
  obtain ⟨found, hfound, hdata⟩ : ∃ found,
      (⟨[(placedByte "a" 0 1).field, (placedByte "a" 1 2).field]⟩ :
        EventFormat).tryGetFieldDataClosure "a" = some found ∧ found [1, 2] = [1] := ⟨_, rfl, rfl⟩
  obtain rfl : found = closure := Option.some.inj (hfound.symm.trans hclosure)
  rw [hdata] at hcontent
  exact absurd hcontent (by decide)

end OneCollect.EventFormat
