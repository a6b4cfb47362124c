import OneCollect.Exporting.NetTrace.Reader
import OneCollect.Theory.Pointwise

/-! The stream of events of a NetTrace file. Each event is written with ids of its stack, thread
and label; the tables behind the ids are written when the events are flushed. `events_readable`
says that a reader gets the events back from any sequence of writes. -/

namespace OneCollect.Exporting
open Theory Theory.Parser

/-! ## Saved keys -/

theorem lookup_of_mem {α β : Type} [DecidableEq α] {entries : List (α × β)}
    (hnodup : (entries.map (·.1)).Nodup) {key : α} {value : β} (h : (key, value) ∈ entries) :
    entries.lookup key = some value := by
  obtain ⟨before, after, rfl⟩ := List.append_of_mem h
  refine List.lookup_eq_some_iff.mpr ⟨before, after, rfl, fun entry hentry => ?_⟩
  rw [List.map_append, List.map_cons] at hnodup
  have hdisjoint := List.disjoint_of_nodup_append hnodup (List.mem_map_of_mem hentry)
  exact bne_iff_ne.mpr fun hkey => hdisjoint (hkey ▸ List.mem_cons_self)

namespace Saved

variable {κ : Type}

/-- The ids count the keys, and each key is a valid one. -/
structure Numbered (valid : κ → Prop) (saved : Saved κ) : Prop where
  ids : saved.map (·.2) = List.range saved.length
  valid : ∀ entry ∈ saved, valid entry.1

section

variable {valid : κ → Prop} {saved : Saved κ}

theorem numbered_nil : Numbered valid [] := ⟨rfl, fun _ h => absurd h List.not_mem_nil⟩

theorem Numbered.snoc (h : Numbered valid saved) {key : κ} (hkey : valid key) :
    Numbered valid (saved ++ [(key, saved.length)]) := by
  constructor
  · rw [List.map_append, h.ids, List.length_append, List.length_singleton, List.range_succ]
    rfl
  · exact List.forall_mem_append.mpr ⟨h.valid, List.forall_mem_singleton.mpr hkey⟩

/-- The ids are distinct. -/
theorem Numbered.nodup (h : Numbered valid saved) : (saved.map (·.2)).Nodup := by
  rw [h.ids]
  exact List.nodup_range

variable [DecidableEq κ]

/-- The key of an id stands at its place. -/
theorem Numbered.getElem?_of_lookup (h : Numbered valid saved) {key : κ} {id : Nat}
    (hid : saved.lookup key = some id) : (saved.map (·.1))[id]? = some key := by
  obtain ⟨before, after, hsaved, -⟩ := List.lookup_eq_some_iff.mp hid
  have hat : saved[before.length]? = some (key, id) := by
    rw [hsaved, List.getElem?_append_right (le_refl _), Nat.sub_self]
    rfl
  have hlt : before.length < saved.length := (List.getElem?_eq_some_iff.mp hat).1
  have hid' : (saved.map (·.2))[before.length]? = some id := by
    rw [List.getElem?_map, hat]
    rfl
  rw [h.ids, List.getElem?_range hlt] at hid'
  cases hid'
  rw [List.getElem?_map, hat]
  rfl

/-- What an entry does: it has an id for the key, and keeps the ids that are there. -/
theorem Numbered.entry (h : Numbered valid saved) {key : κ} (hkey : valid key) :
    Numbered valid (saved.entry key).2 ∧
      (saved.entry key).2.lookup key = some (saved.entry key).1 ∧
      ∀ k id, saved.lookup k = some id → (saved.entry key).2.lookup k = some id := by
  unfold Saved.entry
  cases hfound : saved.lookup key with
  | some id => exact ⟨h, hfound, fun _ _ hk => hk⟩
  | none =>
    refine ⟨h.snoc hkey, ?_, fun k id hk => ?_⟩
    · rw [List.lookup_append, hfound, Option.none_or, List.lookup_cons_self]
    · rw [List.lookup_append, hk, Option.some_or]

end

/-- The keys come out in the order of their ids, in whatever order the map is drained. -/
theorem takeSaved_eq {valid : κ → Prop} {saved : Saved κ} (h : Numbered valid saved)
    (order : DrainOrder) : takeSaved order saved = saved.map (·.1) := by
  have hperm := (List.perm_insertionSort (fun a b : κ × Nat => a.2 ≤ b.2)
    (order.iter κ saved)).trans (order.perm κ saved)
  have hsorted : saved.Pairwise fun a b => a.2 ≤ b.2 := by
    rw [← List.pairwise_map (f := fun entry : κ × Nat => entry.2) (R := (· ≤ ·)), h.ids]
    exact List.pairwise_le_range
  have hdrained := Cursor.ascending_insertionSort (fun entry : κ × Nat => entry.2)
    (order.iter κ saved)
  have heq := List.Perm.eq_of_pairwise (fun a b ha hb hab hba => by
    have hsame := Nat.le_antisymm hab hba
    exact List.inj_on_of_nodup_map h.nodup (hperm.subset ha) hb hsame) hdrained hsorted hperm
  rw [takeSaved, heq]

end Saved

namespace NetTraceWriter

/-! ## What a key stands for -/

section Keys

variable (machine : ExportContent)

def labelPart (pair : ExportAttributePair) : LabelPart :=
  let name := utf8 ((machine.strings.fromId pair.name).getD "???")
  match pair.value with
  | .label id => .text name (utf8 ((machine.strings.fromId id).getD "???"))
  | .value value =>
    if pair.name = nameId machine "OpCode" then .byte 7 (value % 256)
    else if pair.name = nameId machine "Version" then .byte 10 (value % 256)
    else .number name value
  | .record id =>
    let record := (machine.tryGetRecordData id).getD []
    if record.length = 16 ∧ pair.name = nameId machine "ActivityId" then .id 1 record
    else if record.length = 16 ∧ pair.name = nameId machine "RelatedActivityId" then .id 2 record
    else if record.length = 16 ∧ pair.name = nameId machine "TraceId" then .id 3 record
    else if record.length = 8 ∧ pair.name = nameId machine "SpanId" then .id 4 record
    else .text (utf8 "Error") (utf8 "Unknown Record Attribute")

/-- The label of attributes: a part for each that is supported. -/
def labelParts (attributesId : Nat) : Exec (List LabelPart) := do
  let attributes ← walkAttributes (supported machine) machine.attributes attributesId
  if attributes.isEmpty then .ok [.text (utf8 "Error") (utf8 "Expected actual values")]
  else .ok (attributes.map (labelPart machine))

/-- The instruction pointer and the frames of a sample. -/
def callstackItem (key : SavedCallstackKey) : Nat × List Nat :=
  (key.ip, (machine.callstacks.fromId key.sampleId).getD [])

def CallstackValid (key : SavedCallstackKey) : Prop :=
  ∃ frames, machine.callstacks.fromId key.sampleId = some frames ∧ key.ip < 2 ^ 64 ∧
    ∀ frame ∈ frames, frame < 2 ^ 64

def LabelValid (key : SavedLabelKey) : Prop :=
  ∃ parts, labelParts machine key.attributesId = .ok parts

def labelItem (key : SavedLabelKey) : List LabelPart :=
  (labelParts machine key.attributesId).toOption.getD []

end Keys

def ThreadValid (key : SavedPidTidKey) : Prop := key.pid < 2 ^ 32 ∧ key.tid < 2 ^ 32

section

variable {machine : ExportContent}

theorem attributeBytes_eq (isLast : Bool) (pair : ExportAttributePair) :
    attributeBytes machine isLast pair = (labelPart machine pair).bytes isLast := by
  unfold attributeBytes labelPart
  cases pair.value with
  | label id => exact List.append_assoc _ _ _
  | value value =>
    have hbyte : [UInt8.ofNat value] = toLe 1 (value % 256) := by
      have hmod : UInt8.ofNat (value % 256) = UInt8.ofNat value := by
        refine UInt8.toNat_inj.mp ?_
        rw [UInt8.toNat_ofNat', UInt8.toNat_ofNat']
        omega
      rw [toLe, hmod]
      rfl
    dsimp only
    split_ifs
    · rw [hbyte]
      rfl
    · rw [hbyte]
      rfl
    · exact List.append_assoc _ _ _
  | record id =>
    dsimp only
    split_ifs
    all_goals rfl

theorem wellFormed_labelPart (pair : ExportAttributePair) :
    (labelPart machine pair).WellFormed := by
  unfold labelPart
  cases pair.value with
  | label id => trivial
  | value value =>
    dsimp only
    have hbyte : value % 256 < 256 := Nat.mod_lt _ (by decide)
    split_ifs
    · exact ⟨by decide, hbyte⟩
    · exact ⟨by decide, hbyte⟩
    · trivial
  | record id =>
    dsimp only
    split_ifs with hactivity hrelated htrace hspan
    · exact .inl ⟨by decide, hactivity.1⟩
    · exact .inl ⟨by decide, hrelated.1⟩
    · exact .inl ⟨by decide, htrace.1⟩
    · exact .inr ⟨rfl, hspan.1⟩
    · trivial

theorem attributesBytes_eq (pairs : List ExportAttributePair) :
    attributesBytes machine pairs = markLast LabelPart.bytes (pairs.map (labelPart machine)) := by
  induction pairs with
  | nil => rfl
  | cons pair pairs ih =>
    rw [attributesBytes, attributeBytes_eq, ih, List.map_cons, markLast, List.isEmpty_map]

/-- A label is written as its parts, of which there is one at least. -/
theorem labelBytes_eq {key : SavedLabelKey} (h : LabelValid machine key) :
    labelBytes machine key = .ok (markLast LabelPart.bytes (labelItem machine key)) ∧
      labelItem machine key ≠ [] ∧ ∀ part ∈ labelItem machine key, part.WellFormed := by
  obtain ⟨parts, hparts⟩ := h
  have hitem : labelItem machine key = parts := by
    rw [labelItem, hparts]
    rfl
  rw [hitem]
  obtain ⟨pairs, hpairs, hparts⟩ := bind_eq_ok.mp hparts
  rw [labelBytes, hpairs, ok_bind]
  cases pairs with
  | nil =>
    cases hparts
    refine ⟨congrArg Except.ok ?_, List.cons_ne_nil _ _, List.forall_mem_singleton.mpr trivial⟩
    rw [markLast, markLast, List.append_nil, List.append_assoc]
    rfl
  | cons pair pairs =>
    cases hparts
    refine ⟨congrArg Except.ok (attributesBytes_eq _), List.cons_ne_nil _ _, fun part hpart => ?_⟩
    obtain ⟨pair, -, rfl⟩ := List.mem_map.mp hpart
    exact wellFormed_labelPart pair

theorem callstackBytes_eq {key : SavedCallstackKey} (h : CallstackValid machine key) :
    callstackBytes machine key = .ok (callstackText (callstackItem machine key)) := by
  obtain ⟨frames, hframes, -⟩ := h
  rw [callstackBytes, callstackItem, hframes, callstackText]
  exact congrArg Except.ok (List.append_assoc _ _ _)

theorem concatBytes_eq_ok {α β : Type} {bytes : α → Exec (List UInt8)} {item : α → β}
    {encode : β → List UInt8} {xs : List α} (h : ∀ x ∈ xs, bytes x = .ok (encode (item x))) :
    concatBytes bytes xs = .ok ((xs.map item).flatMap encode) := by
  induction xs with
  | nil => rfl
  | cons x xs ih =>
    obtain ⟨hx, hxs⟩ := List.forall_mem_cons.mp h
    rw [concatBytes, hx, ok_bind, ih hxs]
    rfl

/-! ## Flush -/

/-- The saved keys are numbered, and each stands for something that can be written. -/
structure Saving (machine : ExportContent) (writer : NetTraceWriter) : Prop where
  callstacks : Saved.Numbered (CallstackValid machine) writer.savedCallstacks
  threads : Saved.Numbered ThreadValid writer.savedPidTids
  labels : Saved.Numbered (LabelValid machine) writer.savedLabels

/-- What a reader has in its tables after a flush. -/
def tables (order : DrainOrder) (machine : ExportContent) (self : NetTraceWriter) : Tables where
  callstacks := ⟨1, (self.savedCallstacks.map (·.1)).map (callstackItem machine)⟩
  threads := (order.iter SavedPidTidKey self.savedPidTids).map fun entry =>
    (entry.2, entry.1.pid, entry.1.tid)
  labels := ⟨1, (self.savedLabels.map (·.1)).map (labelItem machine)⟩

variable {order : DrainOrder} {writer : NetTraceWriter}

theorem Saving.callstackTexts (h : Saving machine writer) :
    concatBytes (callstackBytes machine) (takeSaved order writer.savedCallstacks) =
      .ok ((writer.tables order machine).callstacks.items.flatMap callstackText) := by
  rw [Saved.takeSaved_eq h.callstacks]
  refine concatBytes_eq_ok fun key hkey => ?_
  obtain ⟨entry, hentry, rfl⟩ := List.mem_map.mp hkey
  exact callstackBytes_eq (h.callstacks.valid entry hentry)

theorem Saving.labelTexts (h : Saving machine writer) :
    concatBytes (labelBytes machine) (takeSaved order writer.savedLabels) =
      .ok ((writer.tables order machine).labels.items.flatMap (markLast LabelPart.bytes)) := by
  rw [Saved.takeSaved_eq h.labels]
  refine concatBytes_eq_ok fun key hkey => ?_
  obtain ⟨entry, hentry, rfl⟩ := List.mem_map.mp hkey
  exact (labelBytes_eq (h.labels.valid entry hentry)).1

/-- A flush of valid keys goes through. -/
theorem Saving.flush (h : Saving machine writer) (order : DrainOrder) (endTime : Nat) :
    writer.flushEventBlock order machine writer.flushTime endTime =
      .ok ((writer.flushed endTime).emitAll (blocksOf order machine (writer, endTime))) := by
  rw [flushEventBlock_eq, h.callstackTexts, ok_bind, h.labelTexts, ok_bind, blocksOf,
    h.callstackTexts, h.labelTexts]

theorem Saving.blocksOf_eq (h : Saving machine writer) (endTime : Nat) :
    blocksOf order machine (writer, endTime) =
      [⟨4, seqBody writer.flushTime⟩,
       ⟨5, tableBody (writer.tables order machine).callstacks.items
         ((writer.tables order machine).callstacks.items.flatMap callstackText)⟩,
       ⟨6, (order.iter SavedPidTidKey writer.savedPidTids).flatMap threadBytes⟩,
       ⟨8, tableBody (writer.tables order machine).labels.items
         ((writer.tables order machine).labels.items.flatMap (markLast LabelPart.bytes))⟩,
       ⟨2, eventBody writer.flushTime endTime writer.eventBlock⟩] := by
  rw [blocksOf, h.callstackTexts, h.labelTexts]
  dsimp only
  rw [flushBlocks, Saved.takeSaved_eq h.callstacks, Saved.takeSaved_eq h.labels,
    @tableBody_congr _ _ _ (writer.tables order machine).callstacks.items
      (List.length_map _).symm,
    @tableBody_congr _ _ _ (writer.tables order machine).labels.items
      (List.length_map _).symm]

theorem Saving.threadSize_lt (h : Saving machine writer) (order : DrainOrder)
    (hfits : (writer.savedPidTids.map threadSize).sum < 2 ^ 24) :
    ∀ entry ∈ order.iter SavedPidTidKey writer.savedPidTids,
      sizeVarint entry.1.pid + sizeVarint entry.1.tid + sizeVarint entry.2 + 2 < 2 ^ 16 := by
  intro entry hentry
  have hmem := (order.perm _ _).subset hentry
  have hid : entry.2 < 128 ^ 4 := by
    have hcount : (writer.savedPidTids.map threadSize).length ≤
        (writer.savedPidTids.map threadSize).sum := by
      refine List.length_le_sum_of_one_le _ fun size hsize => ?_
      obtain ⟨thread, -, rfl⟩ := List.mem_map.mp hsize
      unfold threadSize
      omega
    have hrange : entry.2 ∈ List.range writer.savedPidTids.length := by
      rw [← h.threads.ids]
      exact List.mem_map_of_mem hmem
    rw [List.length_map] at hcount
    rw [List.mem_range] at hrange
    omega
  obtain ⟨hpid, htid⟩ := h.threads.valid entry hmem
  have hidSize := length_toUleb_le (by decide) hid
  have hpidSize := length_toUleb_le (k := 5) (by decide) (lt_trans hpid (by decide))
  have htidSize := length_toUleb_le (k := 5) (by decide) (lt_trans htid (by decide))
  rw [length_toUleb] at hidSize hpidSize htidSize
  omega

/-- **One flush.** A reader of its blocks has the tables and the events. -/
theorem Saving.reads_flush (h : Saving machine writer) (hfits : writer.Fits machine)
    {endTime : Nat} (hmin : writer.flushTime < 2 ^ 64) (hmax : endTime < 2 ^ 64)
    {raws : List RawEvent} {time : Nat} {events : List DecodedEvent}
    (hblock : writer.eventBlock = raws.flatMap RawEvent.bytes)
    (hevents : raws.foldlM (writer.tables order machine).event (0, []) = some (time, events))
    (reading : Reading) :
    (blocksOf order machine (writer, endTime)).foldlM Reading.block reading =
      some ⟨writer.tables order machine,
        reading.blocks ++ [⟨writer.flushTime, endTime, events⟩]⟩ := by
  have hall := (flush_eq_ok (h.flush order endTime)).2.mpr hfits
  rw [h.blocksOf_eq] at hall ⊢
  obtain ⟨-, hcallstacks, -, hlabels, -⟩ := by simpa only [List.forall_mem_cons] using hall
  have hstack := readAll_callstacks (fun item hitem => by
    obtain ⟨key, hkey, rfl⟩ := List.mem_map.mp hitem
    obtain ⟨entry, hentry, rfl⟩ := List.mem_map.mp hkey
    obtain ⟨frames, hframes, hip, hall⟩ := h.callstacks.valid entry hentry
    refine ⟨hip, ?_⟩
    rw [callstackItem, hframes]
    exact hall) hcallstacks
  have hlabel := readAll_labels (fun parts hparts => by
    obtain ⟨key, hkey, rfl⟩ := List.mem_map.mp hparts
    obtain ⟨entry, hentry, rfl⟩ := List.mem_map.mp hkey
    exact (labelBytes_eq (h.labels.valid entry hentry)).2) hlabels
  have hthread := many_threads (h.threadSize_lt order hfits.threads)
  have hevent := eventBlock_eq (writer.tables order machine) hmin hmax hevents
  rw [← hblock] at hevent
  simp only [List.foldlM_cons, List.foldlM_nil, Reading.block, hstack, hthread, hlabel,
    Option.bind_eq_bind, Option.bind_some, Option.pure_def]
  change (((writer.tables order machine).eventBlock _).bind _).bind _ = _
  rw [hevent]
  rfl

/-- The tables have what each saved key stands for, under its id. -/
structure Represents (machine : ExportContent) (writer : NetTraceWriter) (tables : Tables) :
    Prop where
  callstacks : ∀ key id, writer.savedCallstacks.lookup key = some id →
    tables.callstacks.get (id + 1) = some (some (callstackItem machine key))
  threads : ∀ key id, writer.savedPidTids.lookup key = some id →
    tables.threads.lookup id = some (key.pid, key.tid)
  labels : ∀ key id, writer.savedLabels.lookup key = some id →
    tables.labels.get (id + 1) = some (some (labelItem machine key))

theorem get_succ {α : Type} (items : List α) (id : Nat) :
    IdTable.get ⟨1, items⟩ (id + 1) = items[id]?.map some := by
  rw [IdTable.get, if_neg (Nat.succ_ne_zero _), if_pos (Nat.le_add_left _ _), Nat.add_sub_cancel]

/-- The tables of a flush represent the keys that were saved. -/
theorem Saving.represents (h : Saving machine writer) :
    Represents machine writer (writer.tables order machine) := by
  constructor
  · intro key id hid
    rw [tables, get_succ, List.getElem?_map, h.callstacks.getElem?_of_lookup hid]
    rfl
  · intro key id hid
    obtain ⟨before, after, hsaved, -⟩ := List.lookup_eq_some_iff.mp hid
    have hmem : (key, id) ∈ writer.savedPidTids := by
      rw [hsaved]
      exact List.mem_append_right _ List.mem_cons_self
    refine lookup_of_mem ?_ ?_
    · rw [tables, List.map_map]
      exact ((order.perm _ _).map _).nodup_iff.mpr h.threads.nodup
    · exact List.mem_map.mpr ⟨(key, id), (order.perm _ _).mem_iff.mpr hmem, rfl⟩
  · intro key id hid
    rw [tables, get_succ, List.getElem?_map, h.labels.getElem?_of_lookup hid]
    rfl

/-- Ids keep what they stand for when more keys are saved. -/
theorem Represents.of_grown {writer' : NetTraceWriter} {tables : Tables}
    (h : Represents machine writer' tables)
    (hcallstacks : ∀ key id, writer.savedCallstacks.lookup key = some id →
      writer'.savedCallstacks.lookup key = some id)
    (hthreads : ∀ key id, writer.savedPidTids.lookup key = some id →
      writer'.savedPidTids.lookup key = some id)
    (hlabels : ∀ key id, writer.savedLabels.lookup key = some id →
      writer'.savedLabels.lookup key = some id) : Represents machine writer tables :=
  ⟨fun key id hid => h.callstacks key id (hcallstacks key id hid),
    fun key id hid => h.threads key id (hthreads key id hid),
    fun key id hid => h.labels key id (hlabels key id hid)⟩

end

/-! ## Writes -/

/-- One call of the writer: with a payload of its own, or for a sample. -/
inductive EventWrite where
  | blob (buffer : List UInt8) (metaId cpu : Nat) (replay : ExportProcessReplay)
  | sample (replay : ExportProcessReplay) (sample : ExportProcessSample)

def EventWrite.replay : EventWrite → ExportProcessReplay
  | blob _ _ _ replay => replay
  | sample replay _ => replay

/-- The key of the thread of an event. -/
def threadKey (replay : ExportProcessReplay) : SavedPidTidKey where
  pid := replay.process.pid
  tid := match replay.sampleEvent with
    | some sample => sample.tid
    | none => 0

section Writes

variable (order : DrainOrder) (machine : ExportContent)

def writeEvent (self : NetTraceWriter) : EventWrite → Exec NetTraceWriter
  | .blob buffer metaId cpu replay =>
    self.writeEventBlobFromBuffer order machine buffer metaId cpu none none replay
  | .sample replay sample => self.writeSampleReplayEvent order machine replay sample

def writeEvents (self : NetTraceWriter) (writes : List EventWrite) : Exec NetTraceWriter :=
  writes.foldlM (fun self write => self.writeEvent order machine write) self

/-- The event that a write is about. It fails where the call stack, the attributes or the record
of a sample are not there. -/
def eventOf (self : NetTraceWriter) : EventWrite → Exec DecodedEvent
  | .blob buffer metaId cpu replay =>
    .ok {
      metaId
      cpu
      pid := (threadKey replay).pid
      tid := (threadKey replay).tid
      stack := none
      label := none
      payload := buffer
      time := max replay.time self.syncTime }
  | .sample replay sample => do
    let value ← machine.convert sample.value
    let (metaId, payload) ← self.samplePayload machine sample value
    match machine.callstacks.fromId sample.callstackId with
    | none => fail "ID not found."
    | some frames =>
      let parts ← labelParts machine sample.attributesId
      .ok {
        metaId
        cpu := sample.cpu
        pid := (threadKey replay).pid
        tid := (threadKey replay).tid
        stack := some (sample.ip, frames)
        label := some parts
        payload
        time := max replay.time self.syncTime }

end Writes

/-- The words of a write are those of the machine. -/
structure EventWrite.Typed (write : EventWrite) : Prop where
  time : write.replay.time < 2 ^ 64
  thread : ThreadValid (threadKey write.replay)
  ip : ∀ replay sample, write = .sample replay sample → sample.ip < 2 ^ 64

/-- The writer between two writes, with the events that it holds: those that a reader gets from
the block with whatever tables represent the saved keys. -/
structure Streaming (machine : ExportContent) (start writer : NetTraceWriter) (now : Nat)
    (events : List DecodedEvent) : Prop where
  saving : Saving machine writer
  ids : writer.ids = start.ids
  syncTime : writer.syncTime = start.syncTime
  now_lt : now < 2 ^ 64
  lastTime_le : writer.lastTime ≤ now
  flushTime_le : writer.flushTime ≤ now
  within : ∀ event ∈ events, writer.flushTime ≤ event.time ∧ event.time ≤ now
  raws : ∃ raws : List RawEvent, writer.eventBlock = raws.flatMap RawEvent.bytes ∧
    raws.length = events.length ∧ ∀ tables, Represents machine writer tables →
      raws.foldlM tables.event (0, []) = some (writer.lastTime, events)

/-- The id as it stands in an event. -/
def optionId : Option Nat → Nat
  | some id => id + 1
  | none => 0

/-- An event as it is added to the block. -/
def nextRaw (self : NetTraceWriter) (buffer : List UInt8) (metaId cpu : Nat)
    (stackId labelId : Option Nat) (replay : ExportProcessReplay) : RawEvent where
  metaId := metaId
  cpu := cpu
  threadId := (self.savedPidTids.entry (threadKey replay)).1
  stackId := optionId stackId
  delta := max replay.time self.syncTime - self.lastTime
  labelId := optionId labelId
  payload := buffer

section Steps

variable {order : DrainOrder} {machine : ExportContent} {start writer : NetTraceWriter}
  {now : Nat} {events : List DecodedEvent} {replay : ExportProcessReplay}

theorem writeEventTimestamp_eq {time : Nat} (h : writer.lastTime ≤ max time writer.syncTime) :
    writer.writeEventTimestamp time =
      { writer with lastTime := max time writer.syncTime }.putEvent
        (toUleb (max time writer.syncTime - writer.lastTime)) := by
  have hsync : (if time < writer.syncTime then writer.syncTime else time) =
      max time writer.syncTime := by
    split_ifs with hlt
    · exact (max_eq_right (le_of_lt hlt)).symm
    · exact (max_eq_left (not_lt.mp hlt)).symm
  unfold writeEventTimestamp
  dsimp only
  rw [hsync, if_neg (not_lt.mpr h)]

theorem appendEventBlob_eq {buffer : List UInt8} {metaId cpu : Nat} {stackId labelId : Option Nat}
    (h : writer.lastTime ≤ max replay.time writer.syncTime) :
    writer.appendEventBlob buffer metaId cpu stackId labelId replay =
      { writer with
        savedPidTids := (writer.savedPidTids.entry (threadKey replay)).2
        lastTime := max replay.time writer.syncTime
        eventBlock := writer.eventBlock ++
          (writer.nextRaw buffer metaId cpu stackId labelId replay).bytes } := by
  have hstamp : ∀ writer' : NetTraceWriter, writer'.lastTime = writer.lastTime →
      writer'.syncTime = writer.syncTime → writer'.writeEventTimestamp replay.time =
        { writer' with lastTime := max replay.time writer.syncTime }.putEvent
          (toUleb (max replay.time writer.syncTime - writer.lastTime)) := by
    intro writer' hlast hsync
    rw [writeEventTimestamp_eq (by rwa [hlast, hsync]), hlast, hsync]
  unfold appendEventBlob
  dsimp only
  rw [hstamp (((writer.getPidTidId replay).2.putEvent _).putEvent _) rfl rfl]
  simp only [putEvent, getPidTidId, nextRaw, RawEvent.bytes, sized, List.append_assoc,
    List.cons_append, List.nil_append]
  rfl

theorem event_eq_some {tables : Tables} {before : Nat × List DecodedEvent} {raw : RawEvent}
    {pid tid : Nat} {stack : Option (Nat × List Nat)} {label : Option (List LabelPart)}
    (hthread : tables.threads.lookup raw.threadId = some (pid, tid))
    (hstack : tables.callstacks.get raw.stackId = some stack)
    (hlabel : tables.labels.get raw.labelId = some label) :
    tables.event before raw = some (before.1 + raw.delta, before.2 ++
      [{ metaId := raw.metaId, cpu := raw.cpu, pid, tid, stack, label, payload := raw.payload,
         time := before.1 + raw.delta }]) := by
  unfold Tables.event
  rw [hthread, hstack, hlabel]
  rfl

/-- **One event.** What is added is read as the event, after those before it. -/
theorem Streaming.append (h : Streaming machine start writer now events) (buffer : List UInt8)
    (metaId cpu : Nat) (stackId labelId : Option Nat) {stack : Option (Nat × List Nat)}
    {label : Option (List LabelPart)} (hthread : ThreadValid (threadKey replay))
    (htime : max replay.time start.syncTime < 2 ^ 64)
    (hnow : now ≤ max replay.time start.syncTime)
    (hstack : ∀ tables, Represents machine writer tables →
      tables.callstacks.get (optionId stackId) = some stack)
    (hlabel : ∀ tables, Represents machine writer tables →
      tables.labels.get (optionId labelId) = some label) :
    Streaming machine start (writer.appendEventBlob buffer metaId cpu stackId labelId replay)
      (max replay.time start.syncTime)
      (events ++
        [{ metaId, cpu, pid := (threadKey replay).pid, tid := (threadKey replay).tid, stack, label,
           payload := buffer, time := max replay.time start.syncTime }]) := by
  have hlast : writer.lastTime ≤ max replay.time writer.syncTime := by
    rw [h.syncTime]
    exact h.lastTime_le.trans hnow
  obtain ⟨hthreads, hlookup, hgrown⟩ := h.saving.threads.entry hthread
  obtain ⟨raws, hblock, hcount, hraws⟩ := h.raws
  rw [appendEventBlob_eq hlast]
  constructor
  · exact ⟨h.saving.callstacks, hthreads, h.saving.labels⟩
  · exact h.ids
  · exact h.syncTime
  · exact htime
  · exact le_of_eq (by rw [h.syncTime])
  · exact h.flushTime_le.trans hnow
  · intro event hevent
    rcases List.mem_append.mp hevent with hevent | hevent
    · exact ⟨(h.within event hevent).1, (h.within event hevent).2.trans hnow⟩
    · obtain rfl := List.mem_singleton.mp hevent
      exact ⟨h.flushTime_le.trans hnow, le_refl _⟩
  · refine ⟨raws ++ [writer.nextRaw buffer metaId cpu stackId labelId replay], ?_, ?_, ?_⟩
    · rw [List.flatMap_append, List.flatMap_singleton, ← hblock]
    · rw [List.length_append, List.length_append, hcount]
      rfl
    · intro tables htables
      have hbefore : Represents machine writer tables :=
        htables.of_grown (fun _ _ hk => hk) hgrown (fun _ _ hk => hk)
      have hdelta : writer.lastTime + (max replay.time start.syncTime - writer.lastTime) =
          max replay.time start.syncTime := by
        rw [← h.syncTime, Nat.add_sub_cancel' hlast]
      rw [List.foldlM_append, hraws tables hbefore]
      change (List.foldlM tables.event (writer.lastTime, events) [_]) = _
      rw [List.foldlM_cons, event_eq_some (htables.threads _ _ hlookup) (hstack tables hbefore)
        (hlabel tables hbefore)]
      simp only [nextRaw, h.syncTime, hdelta]
      rfl

theorem Streaming.lastTime_append (h : Streaming machine start writer now events)
    (hnow : now ≤ max replay.time start.syncTime) (buffer : List UInt8) (metaId cpu : Nat)
    (stackId labelId : Option Nat) :
    (writer.appendEventBlob buffer metaId cpu stackId labelId replay).lastTime =
      max replay.time start.syncTime := by
  have hlast : writer.lastTime ≤ max replay.time writer.syncTime := by
    rw [h.syncTime]
    exact h.lastTime_le.trans hnow
  rw [appendEventBlob_eq hlast]
  exact congrArg (max replay.time) h.syncTime

/-- Saving the keys of a sample. -/
theorem Streaming.saveSample (h : Streaming machine start writer now events)
    {sample : ExportProcessSample}
    (hcallstack : CallstackValid machine ⟨sample.ip, sample.callstackId⟩)
    (hlabel : LabelValid machine ⟨sample.attributesId⟩) :
    Streaming machine start (writer.saveSample sample).2.2 now events ∧
      (writer.saveSample sample).2.2.savedCallstacks.lookup ⟨sample.ip, sample.callstackId⟩ =
        some (writer.saveSample sample).1 ∧
      (writer.saveSample sample).2.2.savedLabels.lookup ⟨sample.attributesId⟩ =
        some (writer.saveSample sample).2.1 := by
  obtain ⟨hcallstacks, hstackId, hstacksGrown⟩ := h.saving.callstacks.entry hcallstack
  obtain ⟨hlabels, hlabelId, hlabelsGrown⟩ := h.saving.labels.entry hlabel
  obtain ⟨raws, hblock, hcount, hraws⟩ := h.raws
  refine ⟨⟨⟨hcallstacks, h.saving.threads, hlabels⟩, h.ids, h.syncTime, h.now_lt, h.lastTime_le,
    h.flushTime_le, h.within, raws, hblock, hcount, fun tables htables => ?_⟩, hstackId, hlabelId⟩
  exact hraws tables (htables.of_grown hstacksGrown (fun _ _ hk => hk) hlabelsGrown)

theorem samplePayload_of_ids (h : writer.ids = start.ids) (sample : ExportProcessSample)
    (value : Nat) :
    writer.samplePayload machine sample value = start.samplePayload machine sample value := by
  unfold samplePayload
  rw [h]

/-- The words in the tables of the machine are of 64 bits. -/
structure Typed (machine : ExportContent) : Prop where
  frames : ∀ frames ∈ machine.callstacks.frames, ∀ frame ∈ frames, frame < 2 ^ 64
  startQpc : ∀ time ∈ machine.startQpc, time < 2 ^ 64
  endQpc : ∀ time ∈ machine.endQpc, time < 2 ^ 64

/-- What a write leaves before it may be flushed. -/
structure Adds (machine : ExportContent) (start writer writer' : NetTraceWriter)
    (events : List DecodedEvent) (event : DecodedEvent) : Prop where
  streaming : Streaming machine start writer' event.time (events ++ [event])
  lastTime : writer'.lastTime = event.time
  output : writer'.output = writer.output

/-- **One write.** It adds its event, and flushes when the block is full. -/
theorem Streaming.writeEvent (h : Streaming machine start writer now events)
    (order : DrainOrder) (hmachine : Typed machine) {write : EventWrite} (htyped : write.Typed)
    {event : DecodedEvent} (hevent : start.eventOf machine write = .ok event)
    (hsync : start.syncTime < 2 ^ 64) (hnow : now ≤ event.time) :
    ∃ writer', Adds machine start writer writer' events event ∧
      writer.writeEvent order machine write =
        if writer'.eventBlock.length ≥ flushSize then
          writer'.flushEventBlock order machine writer'.flushTime writer'.lastTime
        else .ok writer' := by
  have htime : max write.replay.time start.syncTime < 2 ^ 64 := max_lt htyped.time hsync
  cases write with
  | blob buffer metaId cpu replay =>
    cases hevent
    have hstream := h.append buffer metaId cpu none none htyped.thread htime hnow
      (fun _ _ => rfl) (fun _ _ => rfl)
    exact ⟨_, ⟨hstream, h.lastTime_append hnow _ _ _ _ _, rfl⟩, rfl⟩
  | sample replay sample =>
    obtain ⟨value, hvalue, hevent⟩ := bind_eq_ok.mp hevent
    obtain ⟨⟨metaId, payload⟩, hpayload, hevent⟩ := bind_eq_ok.mp hevent
    dsimp only at hevent
    cases hframes : machine.callstacks.fromId sample.callstackId with
    | none =>
      rw [hframes] at hevent
      exact absurd hevent (fail_ne_ok _ _)
    | some frames =>
      rw [hframes] at hevent
      obtain ⟨parts, hparts, hevent⟩ := bind_eq_ok.mp hevent
      cases hevent
      have hcallstack : CallstackValid machine ⟨sample.ip, sample.callstackId⟩ :=
        ⟨frames, hframes, htyped.ip replay sample rfl,
          hmachine.frames frames (List.mem_of_getElem? hframes)⟩
      have hstackItem : callstackItem machine ⟨sample.ip, sample.callstackId⟩ =
          (sample.ip, frames) := by
        rw [callstackItem, hframes]
        rfl
      have hlabelItem : labelItem machine ⟨sample.attributesId⟩ = parts := by
        rw [labelItem, hparts]
        rfl
      obtain ⟨hsaved, hstackId, hlabelId⟩ := h.saveSample hcallstack ⟨parts, hparts⟩
      have hstack : ∀ tables, Represents machine (writer.saveSample sample).2.2 tables →
          tables.callstacks.get (optionId (some (writer.saveSample sample).1)) =
            some (some (sample.ip, frames)) :=
        fun tables htables => hstackItem ▸ htables.callstacks _ _ hstackId
      have hlabel : ∀ tables, Represents machine (writer.saveSample sample).2.2 tables →
          tables.labels.get (optionId (some (writer.saveSample sample).2.1)) =
            some (some parts) :=
        fun tables htables => hlabelItem ▸ htables.labels _ _ hlabelId
      have hstream := hsaved.append payload metaId sample.cpu _ _ htyped.thread htime hnow hstack
        hlabel
      refine ⟨_, ⟨hstream, hsaved.lastTime_append hnow _ _ _ _ _, rfl⟩, ?_⟩
      rw [← samplePayload_of_ids hsaved.ids] at hpayload
      change writer.writeSampleReplayEvent order machine replay sample = _
      unfold writeSampleReplayEvent
      dsimp only
      rw [hvalue, ok_bind, hpayload, ok_bind]
      rfl

theorem Streaming.reads (h : Streaming machine start writer now events)
    (hfits : writer.Fits machine) {endTime : Nat} (hend : endTime < 2 ^ 64) (reading : Reading) :
    (blocksOf order machine (writer, endTime)).foldlM Reading.block reading =
      some ⟨writer.tables order machine,
        reading.blocks ++ [⟨writer.flushTime, endTime, events⟩]⟩ := by
  obtain ⟨raws, hblock, -, hraws⟩ := h.raws
  exact h.saving.reads_flush hfits (lt_of_le_of_lt h.flushTime_le h.now_lt) hend hblock
    (hraws _ h.saving.represents) reading

theorem numbered_initThreads : Saved.Numbered ThreadValid [(⟨0, 0⟩, 0)] :=
  ⟨rfl, List.forall_mem_singleton.mpr ⟨by decide, by decide⟩⟩

/-- The writer with nothing in its block. -/
theorem streaming_nil (hcallstacks : writer.savedCallstacks = []) (hlabels : writer.savedLabels = [])
    (hthreads : writer.savedPidTids = [(⟨0, 0⟩, 0)]) (hids : writer.ids = start.ids)
    (hsync : writer.syncTime = start.syncTime) (hlast : writer.lastTime = 0)
    (hblock : writer.eventBlock = []) (hflush : writer.flushTime ≤ now) (hnow : now < 2 ^ 64) :
    Streaming machine start writer now [] where
  saving := by
    refine ⟨?_, ?_, ?_⟩
    · rw [hcallstacks]
      exact Saved.numbered_nil
    · rw [hthreads]
      exact numbered_initThreads
    · rw [hlabels]
      exact Saved.numbered_nil
  ids := hids
  syncTime := hsync
  now_lt := hnow
  lastTime_le := by
    rw [hlast]
    exact Nat.zero_le _
  flushTime_le := hflush
  within := fun _ hevent => absurd hevent List.not_mem_nil
  raws := ⟨[], hblock, rfl, fun _ _ => by rw [hlast]; rfl⟩

/-- Nothing in the block, nothing held. -/
theorem Streaming.events_eq_nil (h : Streaming machine start writer now events)
    (hblock : writer.eventBlock = []) : events = [] := by
  obtain ⟨raws, hraws, hcount, -⟩ := h.raws
  have hle := @length_le_flatMap _ RawEvent.bytes raws (fun _ _ => List.cons_ne_nil _ _)
  rw [← hraws, hblock, List.length_nil, hcount] at hle
  exact List.length_eq_zero_iff.mp (Nat.le_zero.mp hle)

end Steps

/-! ## Runs -/

/-- Events at times between those of the header. -/
def Covers (block : EventBlock) : Prop :=
  ∀ event ∈ block.events, block.minTime ≤ event.time ∧ event.time ≤ block.maxTime

/-- A run so far: what was flushed is read as blocks of events, the rest is held. -/
structure Streamed (order : DrainOrder) (machine : ExportContent) (start : NetTraceWriter)
    (flushes : List (NetTraceWriter × Nat)) (writer : NetTraceWriter) (now : Nat)
    (blocks : List EventBlock) (held : List DecodedEvent) : Prop where
  run : Flushes order machine start flushes writer
  streaming : Streaming machine start writer now held
  covers : ∀ block ∈ blocks, Covers block
  reads : (∀ flush ∈ flushes, flush.1.Fits machine) → ∃ tables,
    (flushes.flatMap (blocksOf order machine)).foldlM Reading.block {} = some ⟨tables, blocks⟩

section Runs

variable {order : DrainOrder} {machine : ExportContent} {start writer : NetTraceWriter}
  {flushes : List (NetTraceWriter × Nat)} {now : Nat} {blocks : List EventBlock}
  {held : List DecodedEvent}

/-- A flush at the end of a run. -/
theorem Streamed.reads_flush (h : Streamed order machine start flushes writer now blocks held)
    {endTime : Nat} (hend : endTime < 2 ^ 64)
    (hfits : ∀ flush ∈ flushes ++ [(writer, endTime)], flush.1.Fits machine) :
    ∃ tables, ((flushes ++ [(writer, endTime)]).flatMap (blocksOf order machine)).foldlM
      Reading.block {} = some ⟨tables, blocks ++ [⟨writer.flushTime, endTime, held⟩]⟩ := by
  obtain ⟨hbefore, hlast⟩ := List.forall_mem_append.mp hfits
  obtain ⟨tables, hreads⟩ := h.reads hbefore
  refine ⟨writer.tables order machine, ?_⟩
  rw [List.flatMap_append, List.flatMap_singleton, List.foldlM_append, hreads]
  exact h.streaming.reads (hlast (writer, endTime) (List.mem_singleton_self _)) hend _

/-- **One write of a run.** -/
theorem Streamed.writeEvent (h : Streamed order machine start flushes writer now blocks held)
    (hmachine : Typed machine) (hsync : start.syncTime < 2 ^ 64) {write : EventWrite}
    (htyped : write.Typed) {event : DecodedEvent}
    (hevent : start.eventOf machine write = .ok event) (hnow : now ≤ event.time) :
    ∃ flushes' writer' blocks' held', writer.writeEvent order machine write = .ok writer' ∧
      Streamed order machine start flushes' writer' event.time blocks' held' ∧
      blocks'.flatMap (·.events) ++ held' = blocks.flatMap (·.events) ++ (held ++ [event]) := by
  obtain ⟨writer', hadds, hwrite⟩ :=
    h.streaming.writeEvent order hmachine htyped hevent hsync hnow
  have hkept : Streamed order machine start flushes writer' event.time blocks (held ++ [event]) :=
    ⟨h.run.keep hadds.output, hadds.streaming, h.covers, h.reads⟩
  rw [hwrite]
  by_cases hfull : writer'.eventBlock.length ≥ flushSize
  · rw [if_pos hfull, hadds.streaming.saving.flush]
    have htime : writer'.lastTime < 2 ^ 64 := by
      rw [hadds.lastTime]
      exact hadds.streaming.now_lt
    refine ⟨flushes ++ [(writer', writer'.lastTime)], _,
      blocks ++ [⟨writer'.flushTime, writer'.lastTime, held ++ [event]⟩], [], rfl, ⟨?_, ?_, ?_, ?_⟩, ?_⟩
    · exact hkept.run.flush (hadds.streaming.saving.flush order _)
    · exact streaming_nil rfl rfl rfl hadds.streaming.ids hadds.streaming.syncTime rfl rfl
        (le_of_eq hadds.lastTime) hadds.streaming.now_lt
    · refine List.forall_mem_append.mpr ⟨h.covers, List.forall_mem_singleton.mpr ?_⟩
      intro e he
      dsimp only
      rw [hadds.lastTime]
      exact hadds.streaming.within e he
    · exact hkept.reads_flush htime
    · rw [List.flatMap_append, List.flatMap_singleton, List.append_nil]
  · rw [if_neg hfull]
    exact ⟨flushes, writer', blocks, held ++ [event], rfl, hkept, rfl⟩

/-- **A run of writes.** -/
theorem Streamed.writeEvents (h : Streamed order machine start flushes writer now blocks held)
    (hmachine : Typed machine) (hsync : start.syncTime < 2 ^ 64) {writes : List EventWrite}
    (htyped : ∀ write ∈ writes, write.Typed) {events : List DecodedEvent}
    (hevents : List.Forall₂ (fun write event => start.eventOf machine write = .ok event)
      writes events)
    (hnow : ∀ event ∈ events, now ≤ event.time)
    (hsorted : events.Pairwise fun a b => a.time ≤ b.time) :
    ∃ flushes' writer' now' blocks' held', writer.writeEvents order machine writes = .ok writer' ∧
      Streamed order machine start flushes' writer' now' blocks' held' ∧
      blocks'.flatMap (·.events) ++ held' = blocks.flatMap (·.events) ++ (held ++ events) := by
  induction hevents generalizing flushes writer now blocks held with
  | nil => exact ⟨flushes, writer, now, blocks, held, rfl, h, by rw [List.append_nil]⟩
  | @cons write event writes events hevent hevents ih =>
    obtain ⟨hwrite, htyped⟩ := List.forall_mem_cons.mp htyped
    obtain ⟨hnow, -⟩ := List.forall_mem_cons.mp hnow
    obtain ⟨hle, hsorted⟩ := List.pairwise_cons.mp hsorted
    obtain ⟨flushes₁, writer₁, blocks₁, held₁, hwritten, h₁, heq₁⟩ :=
      h.writeEvent hmachine hsync hwrite hevent hnow
    obtain ⟨flushes', writer', now', blocks', held', hwrittenAll, h', heq'⟩ :=
      ih h₁ htyped hle hsorted
    refine ⟨flushes', writer', now', blocks', held', ?_, h', ?_⟩
    · unfold NetTraceWriter.writeEvents
      rw [List.foldlM_cons, hwritten]
      exact hwrittenAll
    · rw [heq', ← List.append_assoc, heq₁, List.append_assoc, List.append_assoc]
      rfl

/-- **The end of a run.** What is held is flushed; its block ends at the end of the export. -/
theorem Streamed.finish (h : Streamed order machine start flushes writer now blocks held)
    (hmachine : Typed machine) :
    ∃ flushes' last blocks' writer', writer.finish order machine = .ok writer' ∧
      writer'.output = last.output ++
        (netTraceFraming.frame ⟨4, seqBody (machine.endQpc.getD u64Max)⟩ ++
          netTraceFraming.zeroWord) ∧
      Flushes order machine start flushes' last ∧
      blocks'.flatMap (·.events) = blocks.flatMap (·.events) ++ held ∧
      (∀ block ∈ blocks', (∀ event ∈ block.events, event.time ≤ machine.endQpc.getD u64Max) →
        Covers block) ∧
      ((∀ flush ∈ flushes', flush.1.Fits machine) → ∃ tables,
        (flushes'.flatMap (blocksOf order machine)).foldlM Reading.block {} =
          some ⟨tables, blocks'⟩) := by
  have hend : machine.endQpc.getD u64Max < 2 ^ 64 := by
    cases hqpc : machine.endQpc with
    | none => decide
    | some time => exact hmachine.endQpc time hqpc
  unfold NetTraceWriter.finish
  dsimp only
  by_cases hblock : writer.eventBlock = []
  · have hheld := h.streaming.events_eq_nil hblock
    rw [decide_eq_false (not_not.mpr hblock), onFlag, if_neg Bool.false_ne_true, ok_bind,
      writeSeqBlock_eq]
    refine ⟨flushes, writer, blocks, _, rfl, List.append_assoc _ _ _, h.run, ?_, ?_, h.reads⟩
    · rw [hheld, List.append_nil]
    · exact fun block hmem _ => h.covers block hmem
  · rw [decide_eq_true hblock, onFlag, if_pos rfl, h.streaming.saving.flush, ok_bind,
      writeSeqBlock_eq]
    refine ⟨flushes ++ [(writer, machine.endQpc.getD u64Max)], _,
      blocks ++ [⟨writer.flushTime, machine.endQpc.getD u64Max, held⟩], _, rfl,
      List.append_assoc _ _ _, h.run.flush (h.streaming.saving.flush order _), ?_, ?_,
      h.reads_flush hend⟩
    · rw [List.flatMap_append, List.flatMap_singleton]
    · intro block hmem hle
      rcases List.mem_append.mp hmem with hmem | hmem
      · exact h.covers block hmem
      · obtain rfl := List.mem_singleton.mp hmem
        exact fun event hevent =>
          ⟨(h.streaming.within event hevent).1, hle event hevent⟩

theorem time_eventOf {write : EventWrite} {event : DecodedEvent}
    (h : writer.eventOf machine write = .ok event) :
    event.time = max write.replay.time writer.syncTime := by
  cases write with
  | blob buffer metaId cpu replay =>
    cases h
    rfl
  | sample replay sample =>
    obtain ⟨value, -, h⟩ := bind_eq_ok.mp h
    obtain ⟨⟨metaId, payload⟩, -, h⟩ := bind_eq_ok.mp h
    dsimp only at h
    split at h
    · exact absurd h (fail_ne_ok _ _)
    · obtain ⟨parts, -, h⟩ := bind_eq_ok.mp h
      cases h
      rfl

/-- Writes in order of time are about events in order of time. -/
theorem ascending_events {writes : List EventWrite} {events : List DecodedEvent}
    (hevents : List.Forall₂ (fun write event => writer.eventOf machine write = .ok event)
      writes events)
    (hsorted : writes.Pairwise fun a b => a.replay.time ≤ b.replay.time) :
    events.Pairwise fun a b => a.time ≤ b.time := by
  induction hevents with
  | nil => exact List.Pairwise.nil
  | @cons write event writes events hevent hevents ih =>
    obtain ⟨hle, hsorted⟩ := List.pairwise_cons.mp hsorted
    refine List.pairwise_cons.mpr ⟨fun later hlater => ?_, ih hsorted⟩
    obtain ⟨laterWrite, hmem, hlaterEvent⟩ := forall₂_mem_right hevents hlater
    rw [time_eventOf hevent, time_eventOf hlaterEvent]
    exact max_le_max_right _ (hle laterWrite hmem)

end Runs

end NetTraceWriter

open NetTraceWriter

namespace ExportContent

variable {self : ExportContent} {order : DrainOrder} {system : SystemInfo}

theorem streamed_start (order : DrainOrder) (hmachine : Typed self) {start : NetTraceWriter}
    (h : self.startNetTrace system = .ok start) :
    start.syncTime < 2 ^ 64 ∧ Streamed order self start [] start start.syncTime [] [] := by
  have hstate : ∃ (info : TraceInfo) (bytes : List UInt8),
      (∃ time ∈ self.startQpc, info.syncTimeQpc = time) ∧
      start = { NetTraceWriter.new with
        syncTime := info.syncTimeQpc
        flushTime := info.syncTimeQpc
        ids := NetTraceWriter.new.metadataIds self.kinds self.recordTypes
        output := bytes } := by
    unfold startNetTrace at h
    split at h
    · exact absurd h (fail_ne_ok _ _)
    · exact absurd h (fail_ne_ok _ _)
    · rename_i syncTime syncTimeQpc hdate hqpc
      obtain ⟨traced, htrace, h⟩ := bind_eq_ok.mp h
      obtain ⟨-, rfl⟩ := writeTraceObject_eq_ok.mp htrace
      rw [writeMetadataObject_eq] at h
      cases h
      exact ⟨system.toTraceInfo syncTime syncTimeQpc, _, ⟨syncTimeQpc, hqpc, rfl⟩, rfl⟩
  obtain ⟨info, bytes, ⟨time, htime, hinfo⟩, rfl⟩ := hstate
  have hlt : info.syncTimeQpc < 2 ^ 64 := hinfo ▸ hmachine.startQpc time htime
  refine ⟨hlt, .refl, ?_, fun _ hmem => absurd hmem List.not_mem_nil, fun _ => ⟨{}, rfl⟩⟩
  exact streaming_nil rfl rfl rfl rfl rfl rfl rfl (le_refl _) hlt

/-- The bytes of a file with these writes. -/
def writeNetTrace (self : ExportContent) (order : DrainOrder) (system : SystemInfo)
    (writes : List EventWrite) : Exec (List UInt8) := do
  let writer ← self.startNetTrace system
  let writer ← writer.writeEvents order self writes
  let writer ← writer.finish order self
  .ok writer.output

/-- A reader of the whole file, when its blocks fit. -/
theorem readNetTrace_eq {start last : NetTraceWriter} {flushes : List (NetTraceWriter × Nat)}
    {tables : Tables} {blocks : List EventBlock} (hstart : self.startNetTrace system = .ok start)
    (hflushes : Flushes order self start flushes last)
    (hmetadata : metadataSize self.kinds self.recordTypes < 2 ^ 24)
    (hfits : ∀ flush ∈ flushes, flush.1.Fits self)
    (hreads : (flushes.flatMap (blocksOf order self)).foldlM Reading.block {} =
      some ⟨tables, blocks⟩) :
    readNetTrace (last.output ++
      (netTraceFraming.frame ⟨4, seqBody (self.endQpc.getD u64Max)⟩ ++
        netTraceFraming.zeroWord)) = some blocks := by
  obtain ⟨syncTime, syncTimeQpc, hdate, hqpc, houtput⟩ := startNetTrace_output hstart
  have hall := (length_fileBlocks_iff hstart hflushes).mpr ⟨hmetadata, hfits⟩
  have hkinds := @kindFits_fileBlocks self order system flushes
  have hbytes : last.output ++
      (netTraceFraming.frame ⟨4, seqBody (self.endQpc.getD u64Max)⟩ ++
        netTraceFraming.zeroWord) =
      fileHeader ++ ((self.fileBlocks order system flushes).flatMap netTraceFraming.frame ++
        (netTraceFraming.zeroWord ++ [])) := by
    rw [hflushes.output, houtput, fileBlocks, hdate, hqpc]
    simp only [List.flatMap_cons, List.flatMap_append, List.flatMap_nil, List.append_nil,
      List.append_assoc]
  have hfuel : (self.fileBlocks order system flushes).length <
      (fileHeader ++ ((self.fileBlocks order system flushes).flatMap netTraceFraming.frame ++
        (netTraceFraming.zeroWord ++ []))).length + 1 := by
    have hle := @length_le_flatMap _ netTraceFraming.frame
      (self.fileBlocks order system flushes) (fun _ _ => List.cons_ne_nil _ _)
    simp only [List.length_append]
    omega
  rw [hbytes, readNetTrace, List.drop_left, Framing.visit_frames hkinds hall hfuel]
  have hread : (self.fileBlocks order system flushes).foldlM Reading.block {} =
      some ⟨{}, blocks⟩ := by
    rw [fileBlocks, hdate, hqpc]
    dsimp only
    rw [List.foldlM_cons]
    change List.foldlM Reading.block {} (_ :: _) = _
    rw [List.foldlM_cons]
    change ((flushes.flatMap (blocksOf order self)) ++ [_]).foldlM Reading.block {} = _
    rw [List.foldlM_append, hreads]
    rfl
  change (List.foldlM Reading.block {} _ >>= _) = _
  rw [hread]
  rfl

/-- **Events.** The writes of events in order of time give a file; the reader has each event with
its thread, its call stack and its label, as long as the metadata, and the tables and events of
each flush, take less than 16 MB each. -/
theorem events_readable (hmachine : Typed self) {start : NetTraceWriter}
    (hstart : self.startNetTrace system = .ok start) {writes : List EventWrite}
    (htyped : ∀ write ∈ writes, write.Typed)
    (hsorted : writes.Pairwise fun a b => a.replay.time ≤ b.replay.time)
    {events : List DecodedEvent}
    (hevents : List.Forall₂ (fun write event => start.eventOf self write = .ok event)
      writes events) :
    ∃ bytes flushes last, self.writeNetTrace order system writes = .ok bytes ∧
      Flushes order self start flushes last ∧
      bytes = last.output ++ (netTraceFraming.frame ⟨4, seqBody (self.endQpc.getD u64Max)⟩ ++
        netTraceFraming.zeroWord) ∧
      (metadataSize self.kinds self.recordTypes < 2 ^ 24 →
        (∀ flush ∈ flushes, flush.1.Fits self) →
        ∃ blocks, readNetTrace bytes = some blocks ∧
          blocks.flatMap (·.events) = events ∧
          (events.Pairwise fun a b => a.time ≤ b.time) ∧
          ((∀ event ∈ events, event.time ≤ self.endQpc.getD u64Max) →
            ∀ block ∈ blocks, Covers block)) := by
  have hascending := ascending_events hevents hsorted
  obtain ⟨hsync, hbegin⟩ := streamed_start order hmachine hstart
  have hnow : ∀ event ∈ events, start.syncTime ≤ event.time := by
    intro event hevent
    obtain ⟨write, -, hwrite⟩ := forall₂_mem_right hevents hevent
    rw [time_eventOf hwrite]
    exact le_max_right _ _
  obtain ⟨flushes', writer', now', blocks', held', hwritten, hrun, hall⟩ :=
    hbegin.writeEvents hmachine hsync htyped hevents hnow hascending
  obtain ⟨flushes, last, blocks, writer, hfinish, houtput, hflushes, hblocks, hcovers, hreads⟩ :=
    hrun.finish hmachine
  refine ⟨writer.output, flushes, last, ?_, hflushes, houtput, fun hmetadata hfits => ?_⟩
  · unfold writeNetTrace
    rw [hstart, ok_bind, hwritten, ok_bind, hfinish, ok_bind]
  · obtain ⟨tables, hfile⟩ := hreads hfits
    have hsame : blocks.flatMap (·.events) = events := by
      rw [hblocks, hall]
      rfl
    refine ⟨blocks, ?_, hsame, hascending, fun hend block hmem => ?_⟩
    · rw [houtput]
      exact readNetTrace_eq hstart hflushes hmetadata hfits hfile
    · refine hcovers block hmem fun event hevent => hend event ?_
      rw [← hsame]
      exact List.mem_flatMap.mpr ⟨block, hmem, hevent⟩

/-- A write with a payload and one for a sample are read back. -/
theorem shortStream_readable :
    let sample : ExportProcessSample := { time := 5, tid := 9, ip := 0x1000 }
    let content : ExportContent :=
      { callstacks := ⟨[[0x1000, 0x2000]]⟩
        attributes := [{}]
        kinds := ["cpu"]
        startDate := some ⟨2024, 1, 1, 1, 0, 0, 0, 0⟩
        startQpc := some 3 }
    let replay : ExportProcessReplay :=
      { process := { pid := 7, samples := [sample] }, currentTime := 5 }
    let order : DrainOrder := ⟨fun _ saved => saved, fun _ _ => .refl _⟩
    let system : SystemInfo :=
      { qpcFreq := 1, cpuCount := 1, cpuFreq := 1000, systemPageSize := 4096 }
    ∃ start bytes, ∃ flushes : List (NetTraceWriter × Nat),
      content.startNetTrace system = .ok start ∧
      content.writeNetTrace order system [.blob [1, 2] 4 0 replay, .sample replay sample] =
        .ok bytes ∧
      (metadataSize content.kinds content.recordTypes < 2 ^ 24 →
        (∀ flush ∈ flushes, Fits content flush.1) →
        ∃ blocks, readNetTrace bytes = some blocks ∧ blocks.flatMap (·.events) =
          [⟨4, 0, 7, 9, none, none, [1, 2], 5⟩,
            ⟨1, 0, 7, 9, some (0x1000, [0x1000, 0x2000]),
              some [.text (utf8 "Error") (utf8 "Expected actual values")], [0], 5⟩]) := by
  intro sample content replay order system
  obtain ⟨start, hstart⟩ : ∃ start, content.startNetTrace system = .ok start := ⟨_, rfl⟩
  have hmachine : Typed content :=
    ⟨by decide, by decide, fun _ h => absurd h (Option.not_mem_none _)⟩
  have htyped : ∀ write ∈ [EventWrite.blob [1, 2] 4 0 replay, .sample replay sample],
      write.Typed := by
    have hthread : ThreadValid (threadKey replay) := ⟨by decide, by decide⟩
    refine List.forall_mem_cons.mpr ⟨⟨by decide, hthread, ?_⟩,
      List.forall_mem_singleton.mpr ⟨by decide, hthread, ?_⟩⟩
    · intro _ _ hsample
      cases hsample
    · intro _ _ hsample
      cases hsample
      decide
  have hsorted : [EventWrite.blob [1, 2] 4 0 replay, .sample replay sample].Pairwise
      fun a b => a.replay.time ≤ b.replay.time :=
    .cons (List.forall_mem_singleton.mpr (le_refl 5)) (List.pairwise_singleton _ _)
  have hevents : List.Forall₂ (fun write event => start.eventOf content write = .ok event)
      [.blob [1, 2] 4 0 replay, .sample replay sample]
      [⟨4, 0, 7, 9, none, none, [1, 2], 5⟩,
        ⟨1, 0, 7, 9, some (0x1000, [0x1000, 0x2000]),
          some [.text (utf8 "Error") (utf8 "Expected actual values")], [0], 5⟩] := by
    cases hstart
    exact .cons rfl (.cons rfl .nil)
  obtain ⟨bytes, flushes, _, hbytes, -, -, hread⟩ :=
    @events_readable content order system hmachine start hstart _ htyped hsorted _ hevents
  refine ⟨start, bytes, flushes, hstart, hbytes, fun hmetadata hfits => ?_⟩
  obtain ⟨blocks, hblocks, hsame, -⟩ := hread hmetadata hfits
  exact ⟨blocks, hblocks, hsame⟩

/-- A stack that does not fit in its block: the reader takes the start of the block for all of
it. -/
theorem deepCallstack_unreadable :
    let frames := List.replicate (2 ^ 21) 0x401000
    let sample : ExportProcessSample := { time := 5, ip := 0x401000 }
    let content : ExportContent :=
      { callstacks := ⟨[frames]⟩
        attributes := [{}]
        kinds := ["cpu"]
        startDate := some ⟨2024, 1, 1, 1, 0, 0, 0, 0⟩
        startQpc := some 0 }
    let replay : ExportProcessReplay :=
      { process := { pid := 7, samples := [sample] }, currentTime := 5 }
    let order : DrainOrder := ⟨fun _ saved => saved, fun _ _ => .refl _⟩
    let system : SystemInfo :=
      { qpcFreq := 1, cpuCount := 1, cpuFreq := 1000, systemPageSize := 4096 }
    ∃ start bytes event, content.startNetTrace system = .ok start ∧
      start.eventOf content (.sample replay sample) = .ok event ∧
      content.writeNetTrace order system [.sample replay sample] = .ok bytes ∧
      readNetTrace bytes = none := by
  intro frames sample content replay order system
  obtain ⟨start, hstart⟩ : ∃ start, content.startNetTrace system = .ok start := ⟨_, rfl⟩
  obtain ⟨syncTime, syncTimeQpc, hdate, hqpc, houtput⟩ := startNetTrace_output hstart
  obtain ⟨event, hevent⟩ : ∃ event, start.eventOf content (.sample replay sample) = .ok event := by
    cases hstart
    exact ⟨_, rfl⟩
  obtain ⟨writer, hwritten, hcallstacks, hlabels, hsame, hblock⟩ :
      ∃ writer, start.writeEvents order content [.sample replay sample] = .ok writer ∧
        writer.savedCallstacks = [(⟨0x401000, 0⟩, 0)] ∧ writer.savedLabels = [(⟨0⟩, 0)] ∧
        writer.output = start.output ∧ writer.eventBlock.isEmpty = false := by
    cases hstart
    exact ⟨_, rfl, rfl, rfl, rfl, rfl⟩
  have hstackText : concatBytes (callstackBytes content) (takeSaved order writer.savedCallstacks) =
      .ok (callstackText (0x401000, frames)) := by
    rw [hcallstacks]
    have htext := @concatBytes_eq_ok SavedCallstackKey _ (callstackBytes content)
      (fun _ => (0x401000, frames)) callstackText [⟨0x401000, 0⟩]
      (List.forall_mem_singleton.mpr (congrArg Except.ok (List.append_assoc _ _ _)))
    rwa [List.map_singleton, List.flatMap_singleton] at htext
  obtain ⟨labelText, hlabelText⟩ : ∃ labelText,
      concatBytes (labelBytes content) (takeSaved order writer.savedLabels) = .ok labelText := by
    rw [hlabels]
    exact ⟨_, rfl⟩
  obtain ⟨last, rest, hfinish, hlast⟩ : ∃ last rest, writer.finish order content = .ok last ∧
      last.output = start.output ++ (netTraceFraming.frame ⟨4, seqBody writer.flushTime⟩ ++
        (netTraceFraming.frame ⟨5, tableBody (takeSaved order writer.savedCallstacks)
          (callstackText (0x401000, frames))⟩ ++ rest)) := by
    have hne : writer.eventBlock ≠ [] := by
      intro hnil
      rw [hnil] at hblock
      exact absurd hblock (by decide)
    unfold NetTraceWriter.finish
    dsimp only
    rw [decide_eq_true hne, onFlag, if_pos rfl, flushEventBlock_eq, hstackText, ok_bind,
      hlabelText, ok_bind, ok_bind, writeSeqBlock_eq]
    let after := (writer.flushBlocks order writer.flushTime u64Max
      (callstackText (0x401000, frames)) labelText).drop 2
    refine ⟨_, after.flatMap netTraceFraming.frame ++
      (netTraceFraming.frame ⟨4, seqBody u64Max⟩ ++ toLe 4 0), rfl, ?_⟩
    simp only [emit, emitAll, put, flushed, after, flushBlocks, hsame, List.flatMap_cons,
      List.drop_succ_cons, List.drop_zero, List.append_assoc]
    rfl
  have hwords : (frames.flatMap (toLe 8)).length = 2 ^ 24 := by
    rw [length_flatMap_toLe, List.length_replicate]
    rfl
  obtain ⟨front, hfrontEq⟩ : ∃ front,
    front = toLe 4 1 ++ (toLe 4 1 ++ (toLe 4 ((2 ^ 21 + 1) * 8) ++ toLe 8 0x401000)) := ⟨_, rfl⟩
  have hfront : front.length = 20 := by
    rw [hfrontEq]
    rfl
  have hbody : tableBody (takeSaved order writer.savedCallstacks) (callstackText (0x401000, frames)) =
      front ++ frames.flatMap (toLe 8) := by
    rw [hcallstacks, tableBody, callstackText, List.length_replicate]
    simp only [hfrontEq, List.append_assoc]
    rfl
  have hframe : netTraceFraming.frame ⟨5, front ++ frames.flatMap (toLe 8)⟩ =
      toLe 4 (5 * 2 ^ 24 + 20) ++ (front ++ frames.flatMap (toLe 8)) := by
    have hheader : netTraceFraming.header ⟨5, front ++ frames.flatMap (toLe 8)⟩ =
        5 * 2 ^ 24 + 20 := by
      have hor : (20 + 2 ^ 24) % 256 ^ 4 ||| 5 <<< 24 = 5 * 2 ^ 24 + 20 := by decide
      rw [Framing.header, List.length_append, hwords, hfront]
      exact hor
    rw [Framing.frame, hheader]
    rfl
  refine ⟨start, last.output, event, hstart, hevent, ?_, ?_⟩
  · unfold writeNetTrace
    rw [hstart, ok_bind, hwritten, ok_bind, hfinish, ok_bind]
  · have hbytes : last.output.drop fileHeader.length =
        netTraceFraming.frame ⟨1, traceBody (system.toTraceInfo syncTime syncTimeQpc)⟩ ++
          (netTraceFraming.frame ⟨3, metadataBody content.kinds content.recordTypes⟩ ++
            (netTraceFraming.frame ⟨4, seqBody writer.flushTime⟩ ++
              (toLe 4 (5 * 2 ^ 24 + 20) ++ (front ++ (frames.flatMap (toLe 8) ++ rest))))) := by
      rw [hlast, houtput, List.append_assoc, List.drop_left, hbody, hframe]
      simp only [List.flatMap_cons, List.flatMap_nil, List.append_nil, List.append_assoc]
    obtain ⟨fuel, hfuel⟩ : ∃ fuel, last.output.length + 1 = fuel + 4 := by
      have hlen := congrArg List.length hbytes
      simp only [List.length_drop, List.length_append, length_toLe] at hlen
      exact ⟨last.output.length - 3, by omega⟩
    have htrace := length_traceBody_lt system syncTime syncTimeQpc
    have hmetadata : (metadataBody content.kinds content.recordTypes).length < 2 ^ 24 := by
      rw [length_metadataBody]
      decide
    have hseq : (seqBody writer.flushTime).length < 2 ^ 24 := by
      simp only [seqBody, List.length_append, length_toLe]
      decide
    have hkinds : ∀ kind ∈ [1, 3, 4], netTraceFraming.KindFits kind := by decide
    have hlen : (5 * 2 ^ 24 + 20) % 2 ^ netTraceFraming.bits = front.length := by
      rw [hfront]
      decide
    have hheader := @Framing.visit_header netTraceFraming (5 * 2 ^ 24 + 20) (by decide) (by decide)
      (front ++ (frames.flatMap (toLe 8) ++ rest))
      (by rw [hlen, List.length_append]; exact Nat.le_add_right _ _) fuel
    rw [hlen, List.take_left] at hheader
    rw [readNetTrace, hfuel, hbytes, Framing.visit_frame (hkinds 1 (by decide)) htrace,
      Framing.visit_frame (hkinds 3 (by decide)) hmetadata,
      Framing.visit_frame (hkinds 4 (by decide)) hseq]
    have hread : ∀ tables blocks, Reading.block ⟨tables, blocks⟩ ⟨5, front⟩ = none := by
      intro tables blocks
      rw [hfrontEq]
      rfl
    change (Option.map _ (Option.map _ (Option.map _
      (netTraceFraming.visit (fuel + 1) (toLe netTraceFraming.width (5 * 2 ^ 24 + 20) ++ _)))) >>=
        _) = _
    rw [hheader]
    cases netTraceFraming.visit fuel (List.drop front.length
      (front ++ (frames.flatMap (toLe 8) ++ rest))) with
    | none => rfl
    | some blocks =>
      change ((Reading.block _ ⟨5, front⟩ >>= fun reading => blocks.foldlM Reading.block reading) >>=
        _) = _
      rw [hread]
      rfl

end ExportContent

end OneCollect.Exporting
