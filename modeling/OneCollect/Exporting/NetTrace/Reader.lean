import OneCollect.Exporting.NetTrace.Framing
import OneCollect.Theory.Parser

/-! A reader of NetTrace files, after the compressed format: the blocks behind their headers, the
tables of stacks, threads and labels, and the events that refer to them. Each reader takes exactly
what the writer writes for its value. -/

namespace OneCollect.Exporting
open Theory Theory.Parser

/-! ## Labels -/

/-- A part of a label. The kinds of an id are those of activities, traces and spans. -/
inductive LabelPart where
  | id (kind : Nat) (bytes : List UInt8)
  | text (name value : List UInt8)
  | number (name : List UInt8) (value : Nat)
  | byte (kind value : Nat)
  deriving DecidableEq, Repr

def sized (bytes : List UInt8) : List UInt8 := toUleb bytes.length ++ bytes

def sizedBytes : Parser (List UInt8) := do
  let n ← varint
  take n

theorem parses_sizedBytes (bytes : List UInt8) : Parses sizedBytes (sized bytes) bytes :=
  (parses_varint _).bind (parses_take bytes)

namespace LabelPart

open NetTraceWriter

def bytes (isLast : Bool) : LabelPart → List UInt8
  | id kind bytes => labelKind isLast kind ++ bytes
  | text name value => labelKind isLast 5 ++ (sized name ++ sized value)
  | number name value => labelKind isLast 6 ++ (sized name ++ toUleb value)
  | byte kind value => labelKind isLast kind ++ toLe 1 value

/-- A part behind its kind. -/
def read (kind : Nat) : Parser LabelPart :=
  match kind with
  | 1 | 2 | 3 => do
    let bytes ← take 16
    return id kind bytes
  | 4 => do
    let bytes ← take 8
    return id kind bytes
  | 5 => do
    let name ← sizedBytes
    let value ← sizedBytes
    return text name value
  | 6 => do
    let name ← sizedBytes
    let value ← varint
    return number name value
  | 7 | 10 => do
    let value ← word 1
    return byte kind value
  | _ => failure

/-- A part, and whether it is the last of its label. -/
def reader : Parser (Bool × LabelPart) := do
  let tag ← word 1
  let part ← read (tag % 128)
  return (decide (128 ≤ tag), part)

/-- The ids have the length that goes with their kind. -/
def WellFormed : LabelPart → Prop
  | id kind bytes => kind ∈ [1, 2, 3] ∧ bytes.length = 16 ∨ kind = 4 ∧ bytes.length = 8
  | text _ _ => True
  | number _ _ => True
  | byte kind value => kind ∈ [7, 10] ∧ value < 256

theorem parses_reader_of_read {kind : Nat} (hkind : kind < 128) {rest : List UInt8}
    {part : LabelPart} (h : Parses (read kind) rest part) (isLast : Bool) :
    Parses reader (labelKind isLast kind ++ rest) (isLast, part) := by
  have hor : 128 ||| kind = 128 + kind := by
    have hadd := Nat.two_pow_add_eq_or_of_lt (i := 7) hkind 1
    rw [Nat.mul_one] at hadd
    exact hadd.symm
  cases isLast with
  | false =>
    have htag : labelKind false kind = toLe 1 kind := by
      rw [labelKind, if_neg Bool.false_ne_true, Nat.zero_or]
      rfl
    rw [htag]
    refine (parses_word (by omega)).bind ?_
    rw [Nat.mod_eq_of_lt hkind]
    have hlast : decide (128 ≤ kind) = false := decide_eq_false (not_le.mpr hkind)
    rw [hlast]
    exact h.map
  | true =>
    have htag : labelKind true kind = toLe 1 (128 + kind) := by
      rw [labelKind, if_pos rfl, hor]
      rfl
    rw [htag]
    refine (parses_word (by omega)).bind ?_
    rw [Nat.add_mod_left, Nat.mod_eq_of_lt hkind]
    have hlast : decide (128 ≤ 128 + kind) = true := decide_eq_true (Nat.le_add_right _ _)
    rw [hlast]
    exact h.map

/-- A part of a label is read back with its mark. -/
theorem parses_reader {part : LabelPart} (h : part.WellFormed) (isLast : Bool) :
    Parses reader (part.bytes isLast) (isLast, part) := by
  cases part with
  | id kind bytes =>
    have hread : kind < 128 ∧ Parses (read kind) bytes (id kind bytes) := by
      rcases h with ⟨hkind, hlen⟩ | ⟨rfl, hlen⟩
      · simp only [List.mem_cons, List.not_mem_nil, or_false] at hkind
        rcases hkind with rfl | rfl | rfl
        all_goals exact ⟨by decide, (parses_take_of_length hlen).map⟩
      · exact ⟨by decide, (parses_take_of_length hlen).map⟩
    exact parses_reader_of_read hread.1 hread.2 isLast
  | text name value =>
    refine parses_reader_of_read (by decide) ?_ isLast
    exact (parses_sizedBytes name).bind (parses_sizedBytes value).map
  | number name value =>
    refine parses_reader_of_read (by decide) ?_ isLast
    exact (parses_sizedBytes name).bind (parses_varint value).map
  | byte kind value =>
    have hread : kind < 128 ∧ Parses (read kind) (toLe 1 value) (byte kind value) := by
      obtain ⟨hkind, hvalue⟩ := h
      simp only [List.mem_cons, List.not_mem_nil, or_false] at hkind
      rcases hkind with rfl | rfl
      all_goals exact ⟨by decide, (parses_word hvalue).map⟩
    exact parses_reader_of_read hread.1 hread.2 isLast

end LabelPart

/-! ## Tables -/

/-- Items with ids from `first` on; the id 0 stands for none. -/
structure IdTable (α : Type) where
  first : Nat := 1
  items : List α := []

def IdTable.get {α : Type} (self : IdTable α) (id : Nat) : Option (Option α) :=
  if id = 0 then some none
  else if self.first ≤ id then self.items[id - self.first]?.map some
  else none

/-- What the events of a block refer to; a thread is its pid and tid under its index. -/
structure Tables where
  callstacks : IdTable (Nat × List Nat) := {}
  threads : List (Nat × Nat × Nat) := []
  labels : IdTable (List LabelPart) := {}

def idTable {α : Type} (item : Parser α) : Parser (IdTable α) := do
  let first ← word 4
  let count ← word 4
  let items ← Parser.replicate item count
  return ⟨first, items⟩

/-- The instruction pointer and the frames. -/
def callstack : Parser (Nat × List Nat) := do
  let size ← word 4
  within size do
    let ip ← word 8
    let frames ← Parser.replicate (word 8) (size / 8 - 1)
    return (ip, frames)

def thread : Parser (Nat × Nat × Nat) := do
  let size ← word 2
  within size do
    let index ← varint
    expect 2 (word 1)
    let pid ← varint
    expect 3 (word 1)
    let tid ← varint
    return (index, pid, tid)

theorem parses_idTable {α : Type} {item : Parser α} {encode : α → List UInt8} {items : List α}
    (h : ∀ x ∈ items, Parses item (encode x) x) (hcount : items.length < 2 ^ 32) :
    Parses (idTable item) (NetTraceWriter.tableBody items (items.flatMap encode)) ⟨1, items⟩ := by
  unfold NetTraceWriter.tableBody
  rw [List.append_assoc]
  refine (parses_word (by decide)).bind ?_
  refine (parses_word (lt_of_lt_of_eq hcount (by decide))).bind ?_
  exact (parses_replicate items h).map

/-- The bytes of a stack. -/
def callstackText (item : Nat × List Nat) : List UInt8 :=
  toLe 4 ((item.2.length + 1) * 8) ++ (toLe 8 item.1 ++ item.2.flatMap (toLe 8))

theorem parses_callstack {item : Nat × List Nat} (hip : item.1 < 2 ^ 64)
    (hframes : ∀ frame ∈ item.2, frame < 2 ^ 64) (hsize : (item.2.length + 1) * 8 < 2 ^ 32) :
    Parses callstack (callstackText item) item := by
  have hwords : (256 : Nat) ^ 8 = 2 ^ 64 := by decide
  refine (parses_word (lt_of_lt_of_eq hsize (by decide))).bind (Parses.within ?_ ?_)
  · refine (parses_word (lt_of_lt_of_eq hip hwords.symm)).bind ?_
    rw [Nat.mul_div_cancel _ (by decide), Nat.add_sub_cancel]
    exact (parses_replicate item.2 fun frame hframe =>
      parses_word (lt_of_lt_of_eq (hframes frame hframe) hwords.symm)).map
  · rw [List.length_append, length_toLe, length_flatMap_toLe]
    omega

/-- A thread is read back when its size fits in its word. -/
theorem parses_thread (key : SavedPidTidKey) (id : Nat)
    (hsize : sizeVarint key.pid + sizeVarint key.tid + sizeVarint id + 2 < 2 ^ 16) :
    Parses thread (NetTraceWriter.threadBytes (key, id)) (id, key.pid, key.tid) := by
  unfold NetTraceWriter.threadBytes
  simp only [List.append_assoc]
  refine (parses_word (lt_of_lt_of_eq hsize (by decide))).bind (Parses.within ?_ ?_)
  · refine (parses_varint id).bind ?_
    refine (parses_expect (@parses_word 1 2 (by decide))).bind ?_
    refine (parses_varint key.pid).bind ?_
    refine (parses_expect (@parses_word 1 3 (by decide))).bind ?_
    exact (parses_varint key.tid).map
  · simp only [List.length_append, NetTraceWriter.length_toUleb, List.length_singleton]
    omega

/-- A label is not longer than its block. -/
def label (block : List UInt8) : Parser (List LabelPart) := untilLast LabelPart.reader block.length

theorem LabelPart.bytes_ne_nil (isLast : Bool) (part : LabelPart) : part.bytes isLast ≠ [] := by
  cases part
  all_goals exact List.cons_ne_nil _ _

/-! The blocks of the tables. A block that fits has few items, and small ones. -/

theorem tableBody_congr {α β : Type} {items : List α} {items' : List β}
    (h : items.length = items'.length) (text : List UInt8) :
    NetTraceWriter.tableBody items text = NetTraceWriter.tableBody items' text := by
  rw [NetTraceWriter.tableBody, h, NetTraceWriter.tableBody]

theorem readAll_idTable {α : Type} {item : Parser α} {encode : α → List UInt8} {items : List α}
    (h : ∀ x ∈ items, Parses item (encode x) x) (hpos : ∀ x ∈ items, encode x ≠ [])
    (hfits : (NetTraceWriter.tableBody items (items.flatMap encode)).length < 2 ^ 24) :
    readAll (idTable item) (NetTraceWriter.tableBody items (items.flatMap encode)) =
      some ⟨1, items⟩ := by
  have hcount := length_le_flatMap hpos
  rw [NetTraceWriter.length_tableBody] at hfits
  exact (parses_idTable h (by omega)).readAll

theorem readAll_callstacks {items : List (Nat × List Nat)}
    (hvalid : ∀ item ∈ items, item.1 < 2 ^ 64 ∧ ∀ frame ∈ item.2, frame < 2 ^ 64)
    (hfits : (NetTraceWriter.tableBody items (items.flatMap callstackText)).length < 2 ^ 24) :
    readAll (idTable callstack)
        (NetTraceWriter.tableBody items (items.flatMap callstackText)) = some ⟨1, items⟩ := by
  refine readAll_idTable (fun item hitem => ?_) (fun _ _ => List.cons_ne_nil _ _) hfits
  obtain ⟨hip, hframes⟩ := hvalid item hitem
  have hlen := @length_le_length_flatMap_of_mem _ callstackText _ _ hitem
  have hitem : (callstackText item).length = 12 + 8 * item.2.length := by
    rw [callstackText, List.length_append, List.length_append, length_toLe, length_toLe,
      length_flatMap_toLe]
    omega
  rw [NetTraceWriter.length_tableBody] at hfits
  exact parses_callstack hip hframes (by omega)

theorem readAll_labels {items : List (List LabelPart)}
    (hvalid : ∀ parts ∈ items, parts ≠ [] ∧ ∀ part ∈ parts, part.WellFormed)
    (hfits : (NetTraceWriter.tableBody items
      (items.flatMap (markLast LabelPart.bytes))).length < 2 ^ 24) :
    readAll
        (idTable (label (NetTraceWriter.tableBody items
          (items.flatMap (markLast LabelPart.bytes)))))
        (NetTraceWriter.tableBody items (items.flatMap (markLast LabelPart.bytes))) =
      some ⟨1, items⟩ := by
  have hcount : ∀ parts : List LabelPart,
      parts.length ≤ (markLast LabelPart.bytes parts).length :=
    length_le_markLast LabelPart.bytes_ne_nil
  refine readAll_idTable (fun parts hparts => ?_) (fun parts hparts hnil => ?_) hfits
  · obtain ⟨hne, hwell⟩ := hvalid parts hparts
    have hlen := @length_le_length_flatMap_of_mem _ (markLast LabelPart.bytes) _ _ hparts
    have hle := hcount parts
    refine parses_untilLast parts (fun part hpart => LabelPart.parses_reader (hwell part hpart))
      hne ?_
    rw [NetTraceWriter.length_tableBody]
    omega
  · have hle := hcount parts
    rw [hnil] at hle
    exact (hvalid parts hparts).1 (List.length_eq_zero_iff.mp (Nat.le_zero.mp hle))

theorem many_threads {entries : Saved SavedPidTidKey}
    (hsize : ∀ entry ∈ entries,
      sizeVarint entry.1.pid + sizeVarint entry.1.tid + sizeVarint entry.2 + 2 < 2 ^ 16) :
    many thread (entries.flatMap NetTraceWriter.threadBytes).length
        (entries.flatMap NetTraceWriter.threadBytes) =
      some (entries.map fun entry => (entry.2, entry.1.pid, entry.1.tid)) := by
  let encode : Nat × Nat × Nat → List UInt8 := fun (index, pid, tid) =>
    NetTraceWriter.threadBytes (⟨pid, tid⟩, index)
  have htext : entries.flatMap NetTraceWriter.threadBytes =
      (entries.map fun entry => (entry.2, entry.1.pid, entry.1.tid)).flatMap encode := by
    rw [List.flatMap_map]
  rw [htext]
  refine many_flatMap _ (fun item hitem => ?_) (fun _ _ => List.cons_ne_nil _ _)
    (length_le_flatMap fun _ _ => List.cons_ne_nil _ _)
  obtain ⟨entry, hentry, rfl⟩ := List.mem_map.mp hitem
  exact parses_thread entry.1 entry.2 (hsize entry hentry)

/-! ## Events -/

/-- An event as it stands in its block. -/
structure RawEvent where
  metaId : Nat
  cpu : Nat
  threadId : Nat
  stackId : Nat
  delta : Nat
  labelId : Nat
  payload : List UInt8

def RawEvent.bytes (self : RawEvent) : List UInt8 :=
  [223] ++ (toUleb self.metaId ++ (toUleb 0 ++ (toUleb 0 ++ (toUleb self.cpu ++
    (toUleb self.threadId ++ (toUleb self.stackId ++ (toUleb self.delta ++
      (toUleb self.labelId ++ sized self.payload))))))))

/-- The flags say that each field is there. -/
def rawEvent : Parser RawEvent := do
  expect 223 (word 1)
  let metaId ← varint
  let _ ← varint
  let _ ← varint
  let cpu ← varint
  let threadId ← varint
  let stackId ← varint
  let delta ← varint
  let labelId ← varint
  let payload ← sizedBytes
  return { metaId, cpu, threadId, stackId, delta, labelId, payload }

theorem parses_rawEvent (raw : RawEvent) : Parses rawEvent raw.bytes raw := by
  refine (parses_expect (@parses_word 1 223 (by decide))).bind ?_
  refine (parses_varint raw.metaId).bind ((parses_varint 0).bind ((parses_varint 0).bind ?_))
  refine (parses_varint raw.cpu).bind ((parses_varint raw.threadId).bind ?_)
  refine (parses_varint raw.stackId).bind ((parses_varint raw.delta).bind ?_)
  exact (parses_varint raw.labelId).bind (parses_sizedBytes raw.payload).map

/-- An event with what it refers to. -/
structure DecodedEvent where
  metaId : Nat
  cpu : Nat
  pid : Nat
  tid : Nat
  stack : Option (Nat × List Nat)
  label : Option (List LabelPart)
  payload : List UInt8
  time : Nat
  deriving DecidableEq, Repr

/-- One more event, after the time and the events before it. -/
def Tables.event (self : Tables) (before : Nat × List DecodedEvent) (raw : RawEvent) :
    Option (Nat × List DecodedEvent) := do
  let (pid, tid) ← self.threads.lookup raw.threadId
  let stack ← self.callstacks.get raw.stackId
  let label ← self.labels.get raw.labelId
  let time := before.1 + raw.delta
  return (time, before.2 ++
    [{ metaId := raw.metaId, cpu := raw.cpu, pid, tid, stack, label, payload := raw.payload, time }])

structure EventBlock where
  minTime : Nat
  maxTime : Nat
  events : List DecodedEvent
  deriving DecidableEq, Repr

/-- The size of the header, the flag for compressed events, and the two times. -/
def eventHeader : Parser (Nat × Nat) := do
  expect 20 (word 2)
  expect 1 (word 2)
  let minTime ← word 8
  let maxTime ← word 8
  return (minTime, maxTime)

def Tables.eventBlock (self : Tables) (body : List UInt8) : Option EventBlock := do
  let ((minTime, maxTime), rest) ← eventHeader.run body
  let raws ← many rawEvent rest.length rest
  let (_, events) ← raws.foldlM self.event (0, [])
  return { minTime, maxTime, events }

theorem eventBlock_eq (tables : Tables) {minTime maxTime time : Nat} (hmin : minTime < 2 ^ 64)
    (hmax : maxTime < 2 ^ 64) {raws : List RawEvent} {events : List DecodedEvent}
    (h : raws.foldlM tables.event (0, []) = some (time, events)) :
    tables.eventBlock (NetTraceWriter.eventBody minTime maxTime (raws.flatMap RawEvent.bytes)) =
      some ⟨minTime, maxTime, events⟩ := by
  have hwords : (256 : Nat) ^ 8 = 2 ^ 64 := by decide
  have hheader : Parses eventHeader
      (toLe 2 20 ++ (toLe 2 1 ++ (toLe 8 minTime ++ toLe 8 maxTime))) (minTime, maxTime) := by
    refine (parses_expect (parses_word (by decide))).bind ?_
    refine (parses_expect (parses_word (by decide))).bind ?_
    refine (parses_word (lt_of_lt_of_eq hmin hwords.symm)).bind ?_
    exact (parses_word (lt_of_lt_of_eq hmax hwords.symm)).map
  have hevents : many rawEvent (raws.flatMap RawEvent.bytes).length
      (raws.flatMap RawEvent.bytes) = some raws :=
    many_flatMap raws (fun raw _ => parses_rawEvent raw) (fun raw _ => List.cons_ne_nil _ _)
      (length_le_flatMap fun raw _ => List.cons_ne_nil _ _)
  have hrun := hheader (raws.flatMap RawEvent.bytes)
  simp only [List.append_assoc] at hrun
  unfold Tables.eventBlock NetTraceWriter.eventBody
  simp only [List.append_assoc]
  rw [hrun]
  dsimp only [Option.bind_eq_bind, Option.bind_some]
  rw [hevents, Option.bind_some, h]
  rfl

/-! ## The file -/

/-- What was read so far: the tables that hold, and the blocks of events. -/
structure Reading where
  tables : Tables := {}
  blocks : List EventBlock := []

/-- One more block; a sequence block ends what the tables hold. -/
def Reading.block (self : Reading) (block : Block) : Option Reading :=
  match block.kind with
  | 1 | 3 => some self
  | 2 => do
    let events ← self.tables.eventBlock block.body
    return { self with blocks := self.blocks ++ [events] }
  | 4 => some { self with tables := {} }
  | 5 => do
    let callstacks ← readAll (idTable callstack) block.body
    return { self with tables := { self.tables with callstacks } }
  | 6 => do
    let threads ← many thread block.body.length block.body
    return { self with tables := { self.tables with threads } }
  | 8 => do
    let labels ← readAll (idTable (label block.body)) block.body
    return { self with tables := { self.tables with labels } }
  | _ => none

/-- The blocks of events of a file. -/
def readNetTrace (bytes : List UInt8) : Option (List EventBlock) := do
  let blocks ← netTraceFraming.visit (bytes.length + 1)
    (bytes.drop ExportContent.fileHeader.length)
  let reading ← blocks.foldlM Reading.block {}
  return reading.blocks

end OneCollect.Exporting
