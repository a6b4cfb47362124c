import Mathlib.Algebra.Order.BigOperators.Group.List
import OneCollect.Dotnet.EventExtension
import OneCollect.Dotnet.FieldLists

/-! What parsing the fields of an event costs (`nettrace.rs`, `FieldsParserV5`). The parser is here
with every index and slice, and with the turns of its loops counted. It also notes where an entry
of the second version says that the next one starts. As long as this is never in front of what has
been read, no byte is read twice, and each turn has bytes of its own. -/

namespace OneCollect.Dotnet.FieldsParserV5
open Theory EventFormat

/-! ## Turns

`unread` is how many bytes at the end have not been read. -/

/-- From one entry to the next: what is left behind it, and what has not been read. -/
structure Jump where
  next : Nat
  unread : Nat
  deriving DecidableEq, Repr

def Jump.Forward (jump : Jump) : Prop := jump.next ≤ jump.unread

instance (jump : Jump) : Decidable jump.Forward := inferInstanceAs (Decidable (_ ≤ _))

structure Trace where
  format : EventFormat := {}
  turns : Nat := 0
  unread : Nat
  jumps : List Jump := []
  deriving DecidableEq, Repr

namespace Trace

def turn (trace : Trace) : Trace := { trace with turns := trace.turns + 1 }

/-- What is between the two has been read. -/
def reads (before after : List UInt8) (trace : Trace) : Trace :=
  if after.length < before.length then { trace with unread := min trace.unread after.length }
  else trace

def append (fieldName fieldType : String) (size : Nat) (trace : Trace) : Trace :=
  { trace with format := appendField trace.format fieldName fieldType size }

/-- The loop goes on at the next entry, if there is one. -/
def resume (next : Option (List UInt8)) (trace : Trace) : Trace :=
  match next with
  | none => trace
  | some next => { trace with jumps := trace.jumps ++ [⟨next.length, trace.unread⟩] }

/-- No entry starts in front of what has been read. -/
def Forward (trace : Trace) : Prop := ∀ jump ∈ trace.jumps, jump.Forward

instance (trace : Trace) : Decidable trace.Forward :=
  inferInstanceAs (Decidable (∀ jump ∈ trace.jumps, jump.Forward))

end Trace

namespace Turns

/-- The loop of `read_string`: the name, and the offset behind it. -/
def stringUnits : List (List UInt8) → Exec (List Char × Nat)
  | [] => .ok ([], 0)
  | chunk :: chunks => do
    let unit ← Sliced.fromLeBytes 2 chunk
    if unit = 0 then .ok ([], 2)
    else
      let (name, offset) ← stringUnits chunks
      .ok (unitChar unit :: name, offset + 2)

def readString (bytes : List UInt8) : Exec (List Char × List UInt8) := do
  let (name, offset) ← stringUnits (Sliced.chunksExact bytes)
  let rest ← slice bytes offset bytes.length
  .ok (name, rest)

def parseType (bytes : List UInt8) : Exec (Option (String × Nat)) := do
  let ftype ← Sliced.readWord 4 bytes
  .ok (ftype.bind fun ftype => fieldTypes.lookup ftype)

def fieldHead (v2 : Bool) (bytes : List UInt8) :
    Exec (Option (Option (List UInt8) × List Char × List UInt8)) :=
  if v2 then do
    let size ← Sliced.readWord 4 bytes
    match size with
    | none => .ok none
    | some size =>
      if size > bytes.length then .ok none
      else
        let next ← slice bytes size bytes.length
        let bytes ← slice bytes 4 bytes.length
        let (name, bytes) ← readString bytes
        .ok (some (some next, name, bytes))
  else .ok (some (none, [], bytes))

def parseFields (parseObject : List UInt8 → Trace → Exec (List UInt8 × Trace)) (v2 : Bool) :
    Nat → List UInt8 → Trace → Exec (List UInt8 × Trace)
  | 0, bytes, trace => .ok (bytes, trace)
  | count + 1, bytes, trace => do
    let trace := trace.turn
    let head ← fieldHead v2 bytes
    match head with
    | none => .ok (bytes, trace)
    | some (next, name, behindName) =>
      let trace := trace.reads bytes behindName
      let type ← parseType behindName
      match type with
      | none => .ok (behindName, trace)
      | some (typeName, size) =>
        let fields ← slice behindName 4 behindName.length
        let trace := trace.reads behindName fields
        if typeName = "object" then
          let (fields, trace) ← parseObject fields trace
          if v2 then parseFields parseObject v2 count (next.getD fields) (trace.resume next)
          else
            let (_, rest) ← readString fields
            parseFields parseObject v2 count (next.getD rest)
              ((trace.reads fields rest).resume next)
        else if typeName = "array" then
          let element ← parseType fields
          match element with
          | none => .ok (fields, trace)
          | some (elementName, _) =>
            let rest ← slice fields 4 fields.length
            let trace := trace.reads fields rest
            if elementName = "object" ∨ elementName = "array" then .ok ([], trace)
            else
              parseFields parseObject v2 count (next.getD rest)
                ((trace.append (String.ofList name) ("__dyn_array " ++ elementName) 0).resume next)
        else if v2 then
          parseFields parseObject v2 count (next.getD fields)
            ((trace.append (String.ofList name) typeName size).resume next)
        else
          let (name, rest) ← readString fields
          parseFields parseObject v2 count (next.getD rest)
            (((trace.reads fields rest).append (String.ofList name) typeName size).resume next)

/-- The count and whether it is that of the second version, as in `fieldCount`. -/
def fieldCount (count : Nat) (bytes : List UInt8) : Exec (Option (Nat × Bool × List UInt8)) :=
  if count ≠ 0 then .ok (some (count, false, bytes))
  else do
    let size ← Sliced.readWord 4 bytes
    match size with
    | none => .ok (some (0, false, bytes))
    | some size =>
      let fields ← slice bytes 4 bytes.length
      if size = 0 ∨ fields.length = 0 then .ok none
      else
        let tag ← getAt fields 0
        let fields ← slice fields 1 fields.length
        if tag ≠ 2 then .ok none
        else
          let count ← Sliced.readWord 4 fields
          match count with
          | none => .ok (some (0, false, fields))
          | some count =>
            let fields ← slice fields 4 fields.length
            .ok (some (count, true, fields))

def parseObject : Nat → List UInt8 → Trace → Exec (List UInt8 × Trace)
  | 0, _, trace => .ok ([], trace)
  | levels + 1, bytes, trace => do
    let count ← Sliced.readWord 4 bytes
    match count with
    | none => .ok ([], trace)
    | some count =>
      let behindCount ← slice bytes 4 bytes.length
      let trace := trace.reads bytes behindCount
      let counted ← fieldCount count behindCount
      match counted with
      | none => .ok ([], trace)
      | some (count, v2, fields) =>
        parseFields (parseObject levels) v2 count fields (trace.reads behindCount fields)

def parse (bytes : List UInt8) : Exec Trace := do
  let (_, trace) ← parseObject 32 bytes { unread := bytes.length }
  .ok trace

/-! ### What the parts come to -/

theorem stringUnits_eq (bytes : List UInt8) :
    ∃ offset, stringUnits (Sliced.chunksExact bytes) =
      .ok ((FieldsParserV5.readString bytes).1, offset) ∧ offset ≤ bytes.length ∧
      bytes.drop offset = (FieldsParserV5.readString bytes).2 := by
  fun_induction FieldsParserV5.readString bytes with
  | case1 a b rest unit hzero =>
    have hunit : Sliced.fromLeBytes 2 [a, b] = .ok unit := rfl
    refine ⟨2, ?_, by simp, rfl⟩
    rw [Sliced.chunksExact, stringUnits, hunit, ok_bind, if_pos hzero]
  | case2 a b rest unit hzero name behind hread ih =>
    have hunit : Sliced.fromLeBytes 2 [a, b] = .ok unit := rfl
    rw [hread] at ih
    obtain ⟨offset, hunits, hle, hdrop⟩ := ih
    refine ⟨offset + 2, ?_, by simpa using hle, hdrop⟩
    rw [Sliced.chunksExact, stringUnits, hunit, ok_bind, if_neg hzero, hunits]
    rfl
  | case3 bytes hshort =>
    refine ⟨0, ?_, Nat.zero_le _, rfl⟩
    have hchunks : Sliced.chunksExact bytes = [] := by
      obtain rfl | ⟨a, rfl⟩ := nil_or_singleton hshort
      · rfl
      · rfl
    rw [hchunks]
    rfl

theorem readString_eq (bytes : List UInt8) :
    readString bytes = .ok (FieldsParserV5.readString bytes) := by
  obtain ⟨offset, hunits, hle, hdrop⟩ := stringUnits_eq bytes
  rw [readString, hunits, ok_bind]
  dsimp only
  rw [Sliced.slice_back hle, ok_bind, hdrop]

theorem readWord_eq (bytes : List UInt8) :
    Sliced.readWord 4 bytes = .ok (FieldsParserV5.readInt bytes) :=
  Sliced.readWord_eq 4 bytes

theorem parseType_eq (bytes : List UInt8) :
    parseType bytes = .ok (FieldsParserV5.parseType bytes) := by
  rw [parseType, readWord_eq]
  rfl

theorem le_of_readInt {bytes : List UInt8} {n : Nat} (h : readInt bytes = some n) :
    4 ≤ bytes.length := by
  rw [readInt] at h
  split_ifs at h with hshort
  exact Nat.not_lt.mp hshort

theorem le_of_parseType {bytes : List UInt8} {type : String × Nat}
    (h : FieldsParserV5.parseType bytes = some type) : 4 ≤ bytes.length := by
  obtain ⟨n, hn, -⟩ := Option.bind_eq_some_iff.mp h
  exact le_of_readInt hn

theorem fieldHead_eq (v2 : Bool) (bytes : List UInt8) :
    fieldHead v2 bytes = .ok (FieldsParserV5.fieldHead v2 bytes) := by
  cases v2 with
  | false => rfl
  | true =>
    rw [fieldHead, FieldsParserV5.fieldHead, if_pos rfl, if_pos rfl, readWord_eq, ok_bind]
    cases hsize : readInt bytes with
    | none => rfl
    | some size =>
      dsimp only
      split
      · rfl
      · rename_i hle
        rw [Sliced.slice_back (Nat.not_lt.mp hle), ok_bind,
          Sliced.slice_back (le_of_readInt hsize), ok_bind, readString_eq, ok_bind]

theorem fieldCount_eq (count : Nat) (bytes : List UInt8) :
    fieldCount count bytes = .ok (FieldsParserV5.fieldCount count bytes) := by
  rw [fieldCount, FieldsParserV5.fieldCount]
  split
  · rfl
  · rw [readWord_eq, ok_bind]
    cases hsize : readInt bytes with
    | none => rfl
    | some size =>
      dsimp only
      rw [Sliced.slice_back (le_of_readInt hsize), ok_bind]
      cases bytes.drop 4 with
      | nil => rw [if_pos (.inr rfl)]
      | cons tag fields =>
        have htag : getAt (tag :: fields) 0 = .ok tag := rfl
        have htail : slice (tag :: fields) 1 (tag :: fields).length = .ok fields :=
          Sliced.slice_back (Nat.succ_le_succ (Nat.zero_le _))
        by_cases hzero : size = 0
        · rw [if_pos (.inl hzero)]
          dsimp only
          rw [if_pos (.inl hzero)]
        · rw [if_neg (by simp [hzero]), htag, ok_bind, htail, ok_bind]
          dsimp only
          by_cases htwo : tag ≠ 2
          · rw [if_pos htwo, if_pos (.inr htwo)]
          · rw [if_neg htwo, if_neg (by simp [hzero, htwo]), readWord_eq, ok_bind]
            cases hcount : readInt fields with
            | none => rfl
            | some count =>
              dsimp only
              rw [Sliced.slice_back (le_of_readInt hcount), ok_bind]

end Turns

/-! ## What a run costs

Turns are paid for with bytes that have not been read before. -/

/-- From some bytes to others: how many turns there are more than bytes that are read. -/
structure Costs (turns : Int) (bytes : List UInt8) (trace : Trace) (rest : List UInt8)
    (trace' : Trace) : Prop where
  jumps : trace.jumps ⊆ trace'.jumps
  fields : trace'.format.fields.length + trace.turns ≤ trace.format.fields.length + trace'.turns
  sizes : (∀ field ∈ trace.format.fields, field.size ≤ 16) →
    ∀ field ∈ trace'.format.fields, field.size ≤ 16
  forward : trace'.Forward → bytes.length ≤ trace.unread → rest.length ≤ trace'.unread ∧
    (trace'.turns + trace'.unread : Int) ≤ trace.turns + trace.unread + turns

namespace Costs

variable {turns more : Int} {bytes middle rest : List UInt8} {trace between trace' : Trace}

theorem refl (bytes : List UInt8) (trace : Trace) : Costs 0 bytes trace bytes trace where
  jumps := List.Subset.refl _
  fields := le_refl _
  sizes := id
  forward _ hle := ⟨hle, by omega⟩

theorem trans (h : Costs turns bytes trace middle between)
    (h' : Costs more middle between rest trace') : Costs (turns + more) bytes trace rest trace' where
  jumps := List.Subset.trans h.jumps h'.jumps
  fields := by
    have hfirst := h.fields
    have hsecond := h'.fields
    omega
  sizes hsizes := h'.sizes (h.sizes hsizes)
  forward hforward hle := by
    obtain ⟨hmiddle, hfirst⟩ := h.forward (fun jump hjump => hforward jump (h'.jumps hjump)) hle
    obtain ⟨hrest, hsecond⟩ := h'.forward hforward hmiddle
    exact ⟨hrest, by omega⟩

theorem mono (h : Costs turns bytes trace rest trace') (hle : turns ≤ more) :
    Costs more bytes trace rest trace' where
  jumps := h.jumps
  fields := h.fields
  sizes := h.sizes
  forward hforward hbytes := by
    obtain ⟨hrest, hturns⟩ := h.forward hforward hbytes
    exact ⟨hrest, by omega⟩

/-- Nothing more is read. -/
theorem stop (h : Costs turns bytes trace rest trace') : Costs turns bytes trace [] trace' where
  jumps := h.jumps
  fields := h.fields
  sizes := h.sizes
  forward hforward hbytes := ⟨Nat.zero_le _, (h.forward hforward hbytes).2⟩

/-- The next entry is in what has not been read. -/
theorem resume (h : Costs turns bytes trace rest trace') (next : Option (List UInt8)) :
    Costs turns bytes trace (next.getD rest) (trace'.resume next) := by
  cases next with
  | none => exact h
  | some next =>
    have hmem : ∀ jump ∈ trace'.jumps, jump ∈ (trace'.resume (some next)).jumps :=
      fun jump hjump => List.mem_append_left _ hjump
    exact
      { jumps := fun jump hjump => hmem jump (h.jumps hjump)
        fields := h.fields
        sizes := h.sizes
        forward hforward hbytes := by
          have hnext := hforward ⟨next.length, trace'.unread⟩
            (List.mem_append_right _ List.mem_cons_self)
          have hbefore := h.forward (fun jump hjump => hforward jump (hmem jump hjump)) hbytes
          exact ⟨hnext, hbefore.2⟩ }

/-- A reader moves on. -/
theorem reads (trace : Trace) (h : rest.length ≤ bytes.length) :
    Costs (rest.length - bytes.length) bytes trace rest (trace.reads bytes rest) := by
  unfold Trace.reads
  split
  · exact
      { jumps := List.Subset.refl _
        fields := le_refl _
        sizes := id
        forward _ hle := ⟨by dsimp only; omega, by dsimp only; omega⟩ }
  · exact
      { jumps := List.Subset.refl _
        fields := le_refl _
        sizes := id
        forward _ hle := ⟨by omega, by omega⟩ }

theorem reads_drop (trace : Trace) (bytes : List UInt8) (n : Nat) :
    Costs ((bytes.drop n).length - bytes.length) bytes trace (bytes.drop n)
      (trace.reads bytes (bytes.drop n)) :=
  reads trace (by rw [List.length_drop]; omega)

theorem turn (h : Costs turns bytes trace.turn rest trace') :
    Costs (turns + 1) bytes trace rest trace' where
  jumps := h.jumps
  fields := by
    have hfields : trace'.format.fields.length + (trace.turns + 1) ≤
        trace.format.fields.length + trace'.turns := h.fields
    omega
  sizes := h.sizes
  forward hforward hbytes := by
    obtain ⟨hrest, hturns⟩ := h.forward hforward hbytes
    have hturn : trace.turn.turns = trace.turns + 1 := rfl
    have hunread : trace.turn.unread = trace.unread := rfl
    exact ⟨hrest, by omega⟩

/-- A field for a turn. -/
theorem turn_append (h : Costs turns bytes trace.turn rest trace') (fieldName fieldType : String)
    {size : Nat} (hsize : size ≤ 16) :
    Costs (turns + 1) bytes trace rest (trace'.append fieldName fieldType size) where
  jumps := h.jumps
  fields := by
    have hfields : trace'.format.fields.length + (trace.turns + 1) ≤
        trace.format.fields.length + trace'.turns := h.fields
    have hlength : (trace'.append fieldName fieldType size).format.fields.length =
        trace'.format.fields.length + 1 := List.length_append
    have hturns : (trace'.append fieldName fieldType size).turns = trace'.turns := rfl
    omega
  sizes hsizes field hfield := by
    rcases List.mem_append.mp hfield with hfield | hfield
    · exact h.sizes hsizes field hfield
    · rw [List.mem_singleton.mp hfield]
      exact hsize
  forward := h.turn.forward

end Costs

/-- A run ends in a value of the parser, and it costs so many turns. -/
def Runs (turns : Int) (bytes : List UInt8) (trace : Trace) (run : Exec (List UInt8 × Trace))
    (value : List UInt8 × EventFormat) : Prop :=
  ∃ trace', run = .ok (value.1, trace') ∧ trace'.format = value.2 ∧
    Costs turns bytes trace value.1 trace'

theorem Runs.after {turns more : Int} {bytes middle : List UInt8} {trace between : Trace}
    {run : Exec (List UInt8 × Trace)} {value : List UInt8 × EventFormat}
    (hrun : Runs more middle between run value) (h : Costs turns bytes trace middle between) :
    Runs (turns + more) bytes trace run value := by
  obtain ⟨trace', hrun, hformat, hcosts⟩ := hrun
  exact ⟨trace', hrun, hformat, h.trans hcosts⟩

theorem Runs.mono {turns more : Int} {bytes : List UInt8} {trace : Trace}
    {run : Exec (List UInt8 × Trace)} {value : List UInt8 × EventFormat}
    (hrun : Runs turns bytes trace run value) (hle : turns ≤ more) :
    Runs more bytes trace run value := by
  obtain ⟨trace', hrun, hformat, hcosts⟩ := hrun
  exact ⟨trace', hrun, hformat, hcosts.mono hle⟩

theorem length_fieldHead {v2 : Bool} {bytes : List UInt8} {next : Option (List UInt8)}
    {name : List Char} {behindName : List UInt8}
    (h : fieldHead v2 bytes = some (next, name, behindName)) :
    behindName.length ≤ bytes.length := by
  rw [fieldHead] at h
  split_ifs at h with hv2
  · cases hsize : readInt bytes with
    | none =>
      rw [hsize] at h
      cases h
    | some size =>
      rw [hsize] at h
      dsimp only at h
      split_ifs at h with hle
      have hbehind : (readString (bytes.drop 4)).2 = behindName := by
        simp only [Option.some.injEq, Prod.mk.injEq] at h
        rw [h.2]
      have hstring := Fields.length_readString_le (bytes.drop 4)
      rw [hbehind, List.length_drop] at hstring
      omega
  · cases h
    exact le_refl _

theorem size_le_of_parseType {bytes : List UInt8} {typeName : String} {size : Nat}
    (h : parseType bytes = some (typeName, size)) : size ≤ 16 := by
  obtain ⟨ftype, -, hlookup⟩ := Option.bind_eq_some_iff.mp h
  obtain ⟨before, after, htypes, -⟩ := List.lookup_eq_some_iff.mp hlookup
  have hmem : (ftype, typeName, size) ∈ fieldTypes := by
    rw [htypes]
    exact List.mem_append_right _ List.mem_cons_self
  have hall : ∀ entry ∈ fieldTypes, entry.2.2 ≤ 16 := by decide
  exact hall _ hmem

@[simp] theorem format_reads (before after : List UInt8) (trace : Trace) :
    (trace.reads before after).format = trace.format := by
  unfold Trace.reads
  split <;> rfl

@[simp] theorem format_resume (next : Option (List UInt8)) (trace : Trace) :
    (trace.resume next).format = trace.format := by
  cases next <;> rfl

@[simp] theorem format_append (fieldName fieldType : String) (size : Nat) (trace : Trace) :
    (trace.append fieldName fieldType size).format =
      appendField trace.format fieldName fieldType size := rfl

@[simp] theorem format_turn (trace : Trace) : trace.turn.format = trace.format := rfl

/-- **The loop over fields.** Each turn has bytes of its own, all but the last. -/
theorem runs_parseFields {parseTurns : List UInt8 → Trace → Exec (List UInt8 × Trace)}
    {parseObject : List UInt8 → EventFormat → List UInt8 × EventFormat}
    (hobject : ∀ bytes trace,
      Runs 0 bytes trace (parseTurns bytes trace) (parseObject bytes trace.format))
    (v2 : Bool) (count : Nat) (bytes : List UInt8) (trace : Trace) :
    Runs 1 bytes trace (Turns.parseFields parseTurns v2 count bytes trace)
      (parseFields parseObject v2 count bytes trace.format) := by
  induction count generalizing bytes trace with
  | zero => exact ⟨trace, rfl, rfl, (Costs.refl _ _).mono (by decide)⟩
  | succ count ih =>
    rw [Turns.parseFields, parseFields, Turns.fieldHead_eq, ok_bind]
    rcases hhead : fieldHead v2 bytes with _ | ⟨next, name, behindName⟩
    · exact ⟨trace.turn, rfl, rfl, (Costs.refl _ _).turn⟩
    have hname := Costs.reads trace.turn (length_fieldHead hhead)
    dsimp only
    rw [Turns.parseType_eq, ok_bind]
    rcases htype : parseType behindName with _ | ⟨typeName, size⟩
    · exact ⟨_, rfl, by simp, hname.turn.mono (by have := length_fieldHead hhead; omega)⟩
    have hfour := Turns.le_of_parseType htype
    have htypeRead := Costs.reads_drop (trace.turn.reads bytes behindName) behindName 4
    have hboth : Costs (-4) bytes trace.turn (behindName.drop 4) _ := (hname.trans htypeRead).mono
      (by have := length_fieldHead hhead; rw [List.length_drop]; omega)
    generalize hbetween : (trace.turn.reads bytes behindName).reads behindName
      (behindName.drop 4) = between at hboth
    have hformat : between.format = trace.format := by simp [← hbetween]
    dsimp only
    rw [Sliced.slice_back hfour, ok_bind, hbetween]
    generalize behindName.drop 4 = fields at hboth ⊢
    by_cases hobjectType : typeName = "object"
    · rw [if_pos hobjectType, if_pos hobjectType]
      obtain ⟨trace', hrun, hformat', hcosts⟩ := hobject fields between
      rw [hrun, ok_bind, ← hformat]
      generalize parseObject fields between.format = value at hformat' hcosts ⊢
      have hturn := (hboth.trans hcosts).turn
      cases v2 with
      | true =>
        have hrest := (ih (next.getD value.1) (trace'.resume next)).after (hturn.resume next)
        rw [format_resume, hformat'] at hrest
        exact hrest.mono (by decide)
      | false =>
        have hstring := Costs.reads trace' (Fields.length_readString_le value.1)
        have hfree : Costs 0 bytes trace (readString value.1).2 _ := (hturn.trans hstring).mono
          (by have := Fields.length_readString_le value.1; omega)
        have hrest := (ih (next.getD (readString value.1).2) _).after (hfree.resume next)
        rw [format_resume, format_reads, hformat'] at hrest
        dsimp only
        rw [if_neg (by decide), Turns.readString_eq, ok_bind]
        exact hrest.mono (by decide)
    rw [if_neg hobjectType, if_neg hobjectType]
    by_cases harrayType : typeName = "array"
    · rw [if_pos harrayType, if_pos harrayType, Turns.parseType_eq, ok_bind]
      rcases helement : parseType fields with _ | ⟨elementName, elementSize⟩
      · exact ⟨between, rfl, hformat, hboth.turn.mono (by decide)⟩
      have harray : Costs (-4) bytes trace.turn (fields.drop 4) _ :=
        (hboth.trans (Costs.reads_drop between fields 4)).mono (by rw [List.length_drop]; omega)
      dsimp only
      rw [Sliced.slice_back (Turns.le_of_parseType helement), ok_bind]
      split
      · exact ⟨_, rfl, by simp [hformat], harray.stop.turn.mono (by decide)⟩
      · have happend := harray.turn_append (String.ofList name) ("__dyn_array " ++ elementName)
          (Nat.zero_le 16)
        have hrest := (ih (next.getD (fields.drop 4)) _).after (happend.resume next)
        rw [format_resume, format_append, format_reads, hformat] at hrest
        exact hrest.mono (by decide)
    · rw [if_neg harrayType, if_neg harrayType]
      have hsize := size_le_of_parseType htype
      cases v2 with
      | true =>
        have happend := hboth.turn_append (String.ofList name) typeName hsize
        have hrest := (ih (next.getD fields) _).after (happend.resume next)
        rw [format_resume, format_append, hformat] at hrest
        exact hrest.mono (by decide)
      | false =>
        have hstring := Costs.reads between (Fields.length_readString_le fields)
        have happend := (hboth.trans hstring).turn_append (String.ofList (readString fields).1)
          typeName hsize
        have hfree : Costs 0 bytes trace (readString fields).2 _ := happend.mono
          (by have := Fields.length_readString_le fields; omega)
        have hrest := (ih (next.getD (readString fields).2) _).after (hfree.resume next)
        rw [format_resume, format_append, format_reads, hformat] at hrest
        rw [if_neg (by decide), Turns.readString_eq, ok_bind]
        exact hrest.mono (by decide)

theorem length_fieldCount {count count' : Nat} {v2 : Bool} {bytes fields : List UInt8}
    (h : fieldCount count bytes = some (count', v2, fields)) : fields.length ≤ bytes.length := by
  rw [fieldCount] at h
  split_ifs at h with hcount
  · cases h
    exact le_refl _
  · cases hsize : readInt bytes with
    | none =>
      rw [hsize] at h
      cases h
      exact le_refl _
    | some size =>
      rw [hsize] at h
      have hdrop : (bytes.drop 4).length ≤ bytes.length := by simp
      rcases hbehind : bytes.drop 4 with _ | ⟨tag, behind⟩
      · rw [hbehind] at h
        cases h
      rw [hbehind, List.length_cons] at hdrop
      rw [hbehind] at h
      dsimp only at h
      split_ifs at h
      cases hnext : readInt behind with
      | none =>
        rw [hnext] at h
        cases h
        omega
      | some next =>
        rw [hnext] at h
        cases h
        rw [List.length_drop]
        omega

/-- **An object.** The bytes of its count pay for the last turn of its loop. -/
theorem runs_parseObject (levels : Nat) (bytes : List UInt8) (trace : Trace) :
    Runs 0 bytes trace (Turns.parseObject levels bytes trace)
      (parseObject levels bytes trace.format) := by
  induction levels generalizing bytes trace with
  | zero => exact ⟨trace, rfl, rfl, (Costs.refl _ _).stop⟩
  | succ levels ih =>
    rw [Turns.parseObject, parseObject, Turns.readWord_eq, ok_bind]
    cases hcount : readInt bytes with
    | none => exact ⟨trace, rfl, rfl, (Costs.refl _ _).stop⟩
    | some count =>
      have hfour := Turns.le_of_readInt hcount
      have hread := Costs.reads_drop trace bytes 4
      dsimp only
      rw [Sliced.slice_back hfour, ok_bind, Turns.fieldCount_eq, ok_bind]
      rcases hfields : fieldCount count (bytes.drop 4) with _ | ⟨count, v2, fields⟩
      · refine ⟨_, rfl, by simp, (hread.mono ?_).stop⟩
        rw [List.length_drop]
        omega
      · have hle := length_fieldCount hfields
        have hheader := hread.trans (Costs.reads _ hle)
        have hrun := (runs_parseFields ih v2 count fields _).after hheader
        rw [format_reads, format_reads] at hrun
        refine hrun.mono ?_
        rw [List.length_drop] at hle
        omega

/-- Sums of offset and size are those of sizes. -/
theorem WellFormed.end_le {format : EventFormat} (h : WellFormed format)
    (hsizes : ∀ field ∈ format.fields, field.size ≤ 16) {field : EventField}
    (hfield : field ∈ format.fields) : field.offset + field.size ≤ 16 * format.fields.length := by
  obtain ⟨before, after, hsplit⟩ := List.append_of_mem hfield
  have hsum : ((before ++ [field]).map (·.size)).sum ≤ 16 * (before ++ [field]).length := by
    have hall : ∀ size ∈ (before ++ [field]).map (·.size), size ≤ 16 := by
      intro size hsize
      obtain ⟨other, hother, rfl⟩ := List.mem_map.mp hsize
      refine hsizes other (hsplit ▸ ?_)
      rw [List.append_cons]
      exact List.mem_append_left _ hother
    have hbound := List.sum_le_card_nsmul _ _ hall
    rwa [List.length_map, nsmul_eq_mul, Nat.cast_id, Nat.mul_comm] at hbound
  rw [h.offset before field after hsplit, hsplit]
  simp only [List.map_append, List.sum_append, List.map_cons, List.map_nil, List.sum_cons,
    List.sum_nil, List.length_append, List.length_cons, List.length_nil] at hsum ⊢
  omega

/-- **Parsing is paid for.** No index and no slice is out of range, whatever the bytes. As long as
no entry starts in front of what has been read, there are no more turns and no more fields than
bytes, and no offset is too large. -/
theorem parse_paid (bytes : List UInt8) :
    ∃ trace, Turns.parse bytes = .ok trace ∧ trace.format = parse bytes ∧
      (trace.Forward → trace.turns ≤ bytes.length ∧ trace.format.fields.length ≤ bytes.length ∧
        (bytes.length < 2 ^ 60 →
          ∀ field ∈ trace.format.fields, field.offset + field.size < 2 ^ 64)) := by
  obtain ⟨trace, hrun, hformat, hcosts⟩ := runs_parseObject 32 bytes { unread := bytes.length }
  refine ⟨trace, ?_, hformat, fun hforward => ?_⟩
  · rw [Turns.parse, hrun, ok_bind]
  · obtain ⟨-, hturns⟩ := hcosts.forward hforward (le_refl _)
    have hfields := hcosts.fields
    simp only [List.length_nil] at hturns hfields
    have hbound : trace.format.fields.length ≤ bytes.length := by omega
    refine ⟨by omega, hbound, fun hlength field hfield => ?_⟩
    have hsizes := hcosts.sizes fun field hfield => absurd hfield List.not_mem_nil
    have hwell : WellFormed trace.format := hformat ▸ wellFormed_parse bytes
    have hend := hwell.end_le hsizes hfield
    omega

/-- Two numbers in a list of the second version. -/
def twoEntries : List UInt8 :=
  [0, 0, 0, 0, 28, 0, 0, 0, 2, 2, 0, 0, 0] ++
    [12, 0, 0, 0, 97, 0, 0, 0, 10, 0, 0, 0] ++ [12, 0, 0, 0, 98, 0, 0, 0, 12, 0, 0, 0]

theorem parse_paid_twoEntries : ∃ trace, Turns.parse twoEntries = .ok trace ∧
    trace.turns ≤ 37 ∧ trace.format.fields.length ≤ 37 := by
  obtain ⟨trace, hrun, -, hpaid⟩ := parse_paid twoEntries
  have hall : (match Turns.parse twoEntries with
      | .ok trace => decide trace.Forward
      | .error _ => false) = true := by decide +kernel
  rw [hrun] at hall
  obtain ⟨hturns, hfields, -⟩ := hpaid (of_decide_eq_true hall)
  exact ⟨trace, hrun, hturns, hfields⟩

/-! ### Entries without a length -/

/-- An entry that says that the next one starts where it starts itself. -/
theorem parseFields_of_stuck (parseObject : List UInt8 → EventFormat → List UInt8 × EventFormat)
    {bytes behindName : List UInt8} {name : List Char}
    (hhead : fieldHead true bytes = some (some bytes, name, behindName))
    (htype : parseType behindName = some ("u8", 1)) (count : Nat) (format : EventFormat) :
    (parseFields parseObject true count bytes format).2.fields.length =
      format.fields.length + count := by
  induction count generalizing format with
  | zero => rfl
  | succ count ih =>
    rw [parseFields, hhead]
    dsimp only
    rw [htype]
    simp only [String.reduceEq, ↓reduceIte, Option.getD_some]
    rw [ih, appendField, Nat.add_comm count 1, ← Nat.add_assoc]
    exact congrArg (· + count) List.length_append

/-- A list of a number of entries, with one entry that has no length. -/
def stuck (count : Nat) : List UInt8 :=
  toLe 4 0 ++ (toLe 4 10 ++ 2 :: (toLe 4 count ++ [0, 0, 0, 0, 0, 0, 6, 0, 0, 0]))

/-- As many fields as are asked for, of 23 bytes. -/
theorem length_parse_stuck {count : Nat} (h : count < 2 ^ 32) :
    (parse (stuck count)).fields.length = count := by
  have hcount : fieldCount 0 (toLe 4 10 ++ 2 :: (toLe 4 count ++ [0, 0, 0, 0, 0, 0, 6, 0, 0, 0])) =
      some (count, true, [0, 0, 0, 0, 0, 0, 6, 0, 0, 0]) := by
    rw [fieldCount, if_neg (not_not.mpr rfl), readInt_toLe (by decide)]
    simp only [drop_toLe]
    rw [if_neg (by decide), readInt_toLe h]
  rw [parse, parseObject, stuck, readInt_toLe (by decide), drop_toLe]
  dsimp only
  rw [hcount]
  have hhead : fieldHead true [0, 0, 0, 0, 0, 0, 6, 0, 0, 0] =
      some (some [0, 0, 0, 0, 0, 0, 6, 0, 0, 0], [], [6, 0, 0, 0]) := by decide
  exact (parseFields_of_stuck _ hhead (by decide) count {}).trans (Nat.zero_add count)

/-- Of 23 bytes there are more than four thousand million fields. -/
theorem parse_not_paid : (stuck (2 ^ 32 - 1)).length = 23 ∧
    (parse (stuck (2 ^ 32 - 1))).fields.length = 2 ^ 32 - 1 :=
  ⟨rfl, length_parse_stuck (by decide)⟩

end OneCollect.Dotnet.FieldsParserV5
