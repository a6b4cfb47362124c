import OneCollect.Exporting.NetTrace.Framing
import OneCollect.Theory.Parser

/-! The system events: processes, mappings and symbols. A reader decodes a payload with the fields
that the metadata declares for its event. `systemEvents_decode_iff` says which payloads give back
what was written, and that an id of metadata is written once before it is referred to. -/

namespace OneCollect.Exporting
open Theory Theory.Parser

/-! ## Values of fields -/

inductive FieldValue where
  | number (n : Nat)
  | text (bytes : List UInt8)
  deriving DecidableEq, Repr

namespace FieldValue

def bytes : FieldValue → List UInt8
  | number n => toUleb n
  | text bytes => toLe 2 bytes.length ++ bytes

/-- The value is one for the field. -/
def Of : FieldValue → NetTraceField → Prop
  | number _, field => field.typeId = TypeId.varuint
  | text _, field => field.typeId = TypeId.utf8

/-- The length of a text fits in its word. -/
def Short : FieldValue → Prop
  | number _ => True
  | text bytes => bytes.length < 2 ^ 16

end FieldValue

def readValue (field : NetTraceField) : Parser FieldValue :=
  if field.typeId = TypeId.varuint then do
    let n ← varint
    return .number n
  else if field.typeId = TypeId.utf8 then do
    let len ← word 2
    let bytes ← take len
    return .text bytes
  else failure

def readValues : List NetTraceField → Parser (List FieldValue)
  | [] => return []
  | field :: fields => do
    let value ← readValue field
    let values ← readValues fields
    return value :: values

section Values

variable {field : NetTraceField} {value : FieldValue} {fields : List NetTraceField}
  {values : List FieldValue} {rest rest' : List UInt8}

theorem readValue_number (h : field.typeId = TypeId.varuint) :
    readValue field = varint >>= fun n => pure (.number n) :=
  if_pos h

theorem readValue_text (h : field.typeId = TypeId.utf8) :
    readValue field =
      word 2 >>= fun len => take len >>= fun bytes => pure (.text bytes) := by
  have hne : field.typeId ≠ TypeId.varuint := by
    rw [h]
    decide
  rw [readValue, if_neg hne]
  exact if_pos h

theorem parses_readValue (h : value.Of field) (hshort : value.Short) :
    Parses (readValue field) value.bytes value := by
  cases value with
  | number n =>
    rw [readValue_number h]
    exact (parses_varint n).map
  | text bytes =>
    rw [readValue_text h]
    exact (parses_word hshort).bind (parses_take bytes).map

theorem length_of_take {n : Nat} {bytes taken : List UInt8}
    (h : (take n).run bytes = some (taken, rest)) : taken.length = n := by
  change (if n ≤ bytes.length then some (bytes.take n, bytes.drop n) else none) = _ at h
  split_ifs at h with hle
  cases h
  rw [List.length_take, Nat.min_eq_left hle]

theorem word_lt {width n : Nat} {bytes : List UInt8}
    (h : (word width).run bytes = some (n, rest)) : n < 256 ^ width := by
  obtain ⟨⟨taken, after⟩, htake, h⟩ := Option.bind_eq_some_iff.mp h
  cases h
  exact lt_of_lt_of_eq (fromLe_lt taken) (congrArg _ (length_of_take htake))

/-- A text that is read back fits in its word. -/
theorem short_of_readValue (h : value.Of field)
    (hrun : (readValue field).run (value.bytes ++ rest) = some (value, rest')) :
    value.Short ∧ rest' = rest := by
  have hshort : value.Short := by
    cases value with
    | number n => trivial
    | text bytes =>
      rw [readValue_text h, StateT.run_bind] at hrun
      obtain ⟨⟨len, after⟩, hlen, hrun⟩ := Option.bind_eq_some_iff.mp hrun
      obtain ⟨⟨taken, after'⟩, htake, hrun⟩ := Option.bind_eq_some_iff.mp hrun
      cases hrun
      exact lt_of_eq_of_lt (length_of_take htake) (word_lt hlen)
  refine ⟨hshort, ?_⟩
  rw [parses_readValue h hshort rest] at hrun
  cases hrun
  rfl

theorem parses_readValues (h : List.Forall₂ FieldValue.Of values fields)
    (hshort : ∀ value ∈ values, value.Short) :
    Parses (readValues fields) (values.flatMap FieldValue.bytes) values := by
  induction h with
  | nil => exact parses_pure []
  | cons hvalue hvalues ih =>
    obtain ⟨hfirst, hshort⟩ := List.forall_mem_cons.mp hshort
    exact (parses_readValue hvalue hfirst).bind (ih hshort).map

/-- **Values that are read back.** Their texts fit in their words, and the reader stops behind
them. -/
theorem short_of_readValues (h : List.Forall₂ FieldValue.Of values fields)
    (hrun : (readValues fields).run (values.flatMap FieldValue.bytes ++ rest) =
      some (values, rest')) : (∀ value ∈ values, value.Short) ∧ rest' = rest := by
  induction h with
  | nil =>
    cases hrun
    exact ⟨fun _ h => (List.not_mem_nil h).elim, rfl⟩
  | cons hvalue hvalues ih =>
    rw [List.flatMap_cons, List.append_assoc, readValues, StateT.run_bind] at hrun
    obtain ⟨⟨first, after⟩, hfirst, hrun⟩ := Option.bind_eq_some_iff.mp hrun
    obtain ⟨⟨later, after'⟩, hlater, hrun⟩ := Option.bind_eq_some_iff.mp hrun
    cases hrun
    obtain ⟨hshort, rfl⟩ := short_of_readValue hvalue hfirst
    obtain ⟨hshorts, rfl⟩ := ih hlater
    exact ⟨List.forall_mem_cons.mpr ⟨hshort, hshorts⟩, rfl⟩

/-- **Decoding.** All of the bytes give back the values if and only if nothing follows these and
each text fits in its word. -/
theorem readAll_readValues_iff (h : List.Forall₂ FieldValue.Of values fields)
    (rest : List UInt8) :
    readAll (readValues fields) (values.flatMap FieldValue.bytes ++ rest) = some values ↔
      (∀ value ∈ values, value.Short) ∧ rest = [] := by
  constructor
  · intro hread
    unfold readAll at hread
    split at hread
    · rename_i found hrun
      cases hread
      obtain ⟨hshort, hrest⟩ := short_of_readValues h hrun
      exact ⟨hshort, hrest.symm⟩
    · cases hread
  · rintro ⟨hshort, rfl⟩
    rw [List.append_nil]
    exact (parses_readValues h hshort).readAll

end Values

/-! ## The events -/

/-- What a system event is about: the values that are written for it. -/
inductive SystemEvent where
  | created (nsPid : Nat) (name : String)
  | exited
  | metadata (id : Nat) (texts : ModuleMetadata)
  | mapping (mapping : ProcessMapping) (name : String) (metaId : Nat) (texts : ModuleMetadata)
  | symbol (symId : Nat) (mapping : ProcessMapping) (symbol : ExportSymbol) (name : String)
  deriving DecidableEq, Repr

namespace SystemEvent

/-- The values of the fields that are declared. -/
def values : SystemEvent → List FieldValue
  | created nsPid name => [.number nsPid, .text (utf8 name), .text (utf8 "Unknown")]
  | exited => []
  | metadata id texts =>
    [.number id, .text (utf8 texts.toSymbolMetadata), .text (utf8 texts.toVersionMetadata)]
  | mapping m name metaId _ =>
    [.number m.id, .number m.start, .number m.stop, .number m.fileOffset, .text (utf8 name),
      .number metaId]
  | symbol symId m s name =>
    [.number symId, .number m.id, .number s.start, .number s.stop, .text (utf8 name)]

/-- What the payload has behind these values: a mapping has the texts of its metadata once more. -/
def extra : SystemEvent → List UInt8
  | mapping _ _ _ texts => shortUtf8 texts.toSymbolMetadata ++ shortUtf8 texts.toVersionMetadata
  | _ => []

def payload (event : SystemEvent) : List UInt8 :=
  event.values.flatMap FieldValue.bytes ++ event.extra

/-- The fields of the event in the list of its kind. -/
def fields : SystemEvent → List NetTraceField
  | created _ _ => processCreateFields
  | exited => processExitFields
  | metadata _ _ => processMappingMetaFields
  | mapping _ _ _ _ => processMappingFields
  | symbol _ _ _ _ => processSymbolFields

/-- The texts are shorter than `2 ^ 16` bytes; and the event is not that of a mapping. -/
def Fits : SystemEvent → Prop
  | created _ name => (utf8 name).length < 2 ^ 16
  | exited => True
  | metadata _ texts =>
    (utf8 texts.toSymbolMetadata).length < 2 ^ 16 ∧ (utf8 texts.toVersionMetadata).length < 2 ^ 16
  | mapping _ _ _ _ => False
  | symbol _ _ _ name => (utf8 name).length < 2 ^ 16

instance (event : SystemEvent) : Decidable event.Fits := by
  cases event
  all_goals
    unfold Fits
    infer_instance

/-- The id of the metadata that the event is. -/
def definedId : SystemEvent → Option Nat
  | metadata id _ => some id
  | _ => none

/-! The payloads with their parts in the order of the source. -/

theorem payload_created (nsPid : Nat) (name : String) :
    (created nsPid name).payload = toUleb nsPid ++ shortUtf8 name ++ shortUtf8 "Unknown" := by
  simp [payload, values, extra, FieldValue.bytes, shortUtf8]

theorem payload_metadata (id : Nat) (texts : ModuleMetadata) :
    (metadata id texts).payload =
      toUleb id ++ (shortUtf8 texts.toSymbolMetadata ++ shortUtf8 texts.toVersionMetadata) := by
  simp [payload, values, extra, FieldValue.bytes, shortUtf8]

theorem payload_mapping (m : ProcessMapping) (name : String) (metaId : Nat)
    (texts : ModuleMetadata) :
    (mapping m name metaId texts).payload =
      toUleb m.id ++ toUleb m.start ++ toUleb m.stop ++ toUleb m.fileOffset ++ shortUtf8 name ++
        toUleb metaId ++
        (shortUtf8 texts.toSymbolMetadata ++ shortUtf8 texts.toVersionMetadata) := by
  simp [payload, values, extra, FieldValue.bytes, shortUtf8]

theorem payload_symbol (symId : Nat) (m : ProcessMapping) (s : ExportSymbol) (name : String) :
    (symbol symId m s name).payload =
      toUleb symId ++ toUleb m.id ++ toUleb s.start ++ toUleb s.stop ++ shortUtf8 name := by
  simp [payload, values, extra, FieldValue.bytes, shortUtf8]

theorem values_of_fields (event : SystemEvent) :
    List.Forall₂ FieldValue.Of event.values event.fields := by
  cases event with
  | created => exact .cons rfl (.cons rfl (.cons rfl .nil))
  | exited => exact .nil
  | metadata => exact .cons rfl (.cons rfl (.cons rfl .nil))
  | mapping =>
    exact .cons rfl (.cons rfl (.cons rfl (.cons rfl (.cons rfl (.cons rfl .nil)))))
  | symbol => exact .cons rfl (.cons rfl (.cons rfl (.cons rfl (.cons rfl .nil))))

/-- **One event.** -/
theorem readAll_payload_iff (event : SystemEvent) :
    readAll (readValues event.fields) event.payload = some event.values ↔ event.Fits := by
  have hunknown : (utf8 "Unknown").length < 65536 := by decide
  rw [payload, readAll_readValues_iff event.values_of_fields]
  cases event with
  | created nsPid name => simp [values, extra, FieldValue.Short, Fits, hunknown]
  | exited => simp [values, extra, Fits]
  | metadata id texts => simp [values, extra, FieldValue.Short, Fits]
  | mapping mapping name metaId texts => simp [values, extra, Fits, shortUtf8, toLe]
  | symbol symId mapping symbol name => simp [values, extra, FieldValue.Short, Fits]

end SystemEvent

/-! ## The calls -/

/-- A call for a part of the replay. -/
inductive ReplayCall where
  | sample (replay : ExportProcessReplay) (sample : ExportProcessSample)
  | created (replay : ExportProcessReplay)
  | exited (replay : ExportProcessReplay)
  | mapping (replay : ExportProcessReplay) (mapping : ProcessMapping)
  | symbol (replay : ExportProcessReplay) (mapping : ProcessMapping) (symbol : ExportSymbol)

/-- A system event that was written under the id of an entry of the metadata. -/
structure WrittenEvent where
  metaId : Nat
  event : SystemEvent
  deriving DecidableEq, Repr

namespace ReplayCall

def replay : ReplayCall → ExportProcessReplay
  | sample replay _ => replay
  | created replay => replay
  | exited replay => replay
  | mapping replay _ => replay
  | symbol replay _ _ => replay

section Calls

variable (order : DrainOrder) (machine : ExportContent)

def run : ReplayCall → NetTraceWriter → Exec NetTraceWriter
  | sample replay s, writer => writer.writeSampleReplayEvent order machine replay s
  | created replay, writer => writer.writeCreatedReplayEvent order machine replay
  | exited replay, writer => writer.writeExitedReplayEvent order machine replay
  | mapping replay m, writer => writer.writeMappingReplayEvent order machine replay m
  | symbol replay m s, writer => writer.writeMappingSymbolReplayEvent order machine replay m s

/-- The texts of the metadata of a mapping; empty ones without metadata. -/
def textsOf (mapping : ProcessMapping) : ModuleMetadata :=
  (machine.getMappingMetadata mapping).getD ⟨"", ""⟩

/-- The metadata of a mapping, when its id is a new one. -/
def metadataEvents (mapping : ProcessMapping) (writer : NetTraceWriter) : List WrittenEvent :=
  if (writer.metadataId mapping).2.1 then []
  else
    [⟨writer.ids.mappingMetaEventId,
      .metadata (writer.metadataId mapping).1 (textsOf machine mapping)⟩]

/-- The system events that a call writes. -/
def events : ReplayCall → NetTraceWriter → List WrittenEvent
  | sample _ _, _ => []
  | created replay, writer =>
    [⟨if replay.time < writer.syncTime then writer.ids.existingEventId
        else writer.ids.createEventId,
      .created (replay.process.nsPid.getD 0)
        (match replay.process.commId with
          | some id => (machine.strings.fromId id).getD "Unknown"
          | none => "Unknown")⟩]
  | exited _, writer => [⟨writer.ids.exitEventId, .exited⟩]
  | mapping _ m, writer =>
    metadataEvents machine m writer ++
      [⟨writer.ids.mappingEventId,
        .mapping m ((machine.strings.fromId m.filenameId).getD "Unknown")
          (writer.metadataId m).1 (textsOf machine m)⟩]
  | symbol _ m s, writer =>
    [⟨writer.ids.symbolEventId,
      .symbol writer.symId m s ((machine.strings.fromId s.nameId).getD "Unknown")⟩]

/-- The writer with the ids that a call takes. -/
def numbered : ReplayCall → NetTraceWriter → NetTraceWriter
  | mapping _ m, writer => (writer.metadataId m).2.2
  | symbol _ _ _, writer => writer.nextSymId
  | _, writer => writer

end Calls

section Events

variable {order : DrainOrder} {machine : ExportContent}

theorem metadataTexts_eq (mapping : ProcessMapping) :
    NetTraceWriter.metadataTexts machine mapping =
      shortUtf8 (textsOf machine mapping).toSymbolMetadata ++
        shortUtf8 (textsOf machine mapping).toVersionMetadata := by
  unfold NetTraceWriter.metadataTexts textsOf
  cases machine.getMappingMetadata mapping <;> rfl

/-- Events are written one after another. -/
def writeAll (order : DrainOrder) (machine : ExportContent) (replay : ExportProcessReplay)
    (events : List WrittenEvent) (writer : NetTraceWriter) : Exec NetTraceWriter :=
  events.foldlM (fun writer written =>
    writer.writeEventBlobFromBuffer order machine written.event.payload written.metaId 0 none none
      replay) writer

theorem writeAll_singleton (replay : ExportProcessReplay) (written : WrittenEvent)
    (writer : NetTraceWriter) :
    writeAll order machine replay [written] writer =
      writer.writeEventBlobFromBuffer order machine written.event.payload written.metaId 0 none none
        replay := by
  rw [writeAll, List.foldlM_cons]
  exact bind_pure _

theorem ids_metadataId (m : ProcessMapping) (writer : NetTraceWriter) :
    (writer.metadataId m).2.2.ids = writer.ids := by
  unfold NetTraceWriter.metadataId
  split
  · split <;> rfl
  · rfl

theorem writeMappingMetadataEvent_eq (replay : ExportProcessReplay) (m : ProcessMapping)
    (writer : NetTraceWriter) :
    writer.writeMappingMetadataEvent order machine replay m =
      writeAll order machine replay (metadataEvents machine m writer) (writer.metadataId m).2.2 >>=
        fun writer' => .ok ((writer.metadataId m).1, writer') := by
  unfold NetTraceWriter.writeMappingMetadataEvent metadataEvents
  have hids := ids_metadataId m writer
  generalize writer.metadataId m = taken at hids ⊢
  obtain ⟨id, existing, writer'⟩ := taken
  dsimp only at hids ⊢
  cases existing with
  | true => rfl
  | false =>
    rw [if_neg Bool.false_ne_true, if_neg Bool.false_ne_true, writeAll_singleton,
      SystemEvent.payload_metadata, metadataTexts_eq, ← hids]

theorem writeAll_append (replay : ExportProcessReplay) (first later : List WrittenEvent)
    (writer : NetTraceWriter) :
    writeAll order machine replay (first ++ later) writer =
      writeAll order machine replay first writer >>= writeAll order machine replay later :=
  List.foldlM_append ..

/-- The ids of events, and those of metadata, are not touched by writing. -/
structure Kept (writer writer' : NetTraceWriter) : Prop where
  ids : writer'.ids = writer.ids
  savedMetaIds : writer'.savedMetaIds = writer.savedMetaIds

theorem Kept.refl (writer : NetTraceWriter) : Kept writer writer := ⟨rfl, rfl⟩

theorem Kept.trans {writer writer' writer'' : NetTraceWriter} (h : Kept writer writer')
    (h' : Kept writer' writer'') : Kept writer writer'' :=
  ⟨h'.ids.trans h.ids, h'.savedMetaIds.trans h.savedMetaIds⟩

theorem kept_writeEventBlob {buffer : List UInt8} {metaId cpu : Nat} {stackId labelId : Option Nat}
    {replay : ExportProcessReplay} {writer writer' : NetTraceWriter}
    (h : writer.writeEventBlobFromBuffer order machine buffer metaId cpu stackId labelId replay =
      .ok writer') : Kept writer writer' := by
  have happend : Kept writer (writer.appendEventBlob buffer metaId cpu stackId labelId replay) :=
    ⟨rfl, rfl⟩
  unfold NetTraceWriter.writeEventBlobFromBuffer at h
  dsimp only at h
  split at h
  · obtain ⟨rfl, -⟩ := NetTraceWriter.flush_eq_ok h
    exact happend.trans ⟨rfl, rfl⟩
  · cases h
    exact happend

theorem kept_writeAll {replay : ExportProcessReplay} {events : List WrittenEvent}
    {writer writer' : NetTraceWriter}
    (h : writeAll order machine replay events writer = .ok writer') : Kept writer writer' := by
  induction events generalizing writer with
  | nil =>
    cases h
    exact .refl _
  | cons written events ih =>
    obtain ⟨next, hnext, h⟩ := bind_eq_ok.mp h
    exact (kept_writeEventBlob hnext).trans (ih h)

/-- **What a call writes.** The payloads of its events, and nothing else. -/
theorem run_eq (call : ReplayCall) (writer : NetTraceWriter)
    (hsample : ∀ replay s, call ≠ .sample replay s) :
    call.run order machine writer =
      writeAll order machine call.replay (call.events machine writer) (call.numbered writer) := by
  cases call with
  | sample replay s => exact absurd rfl (hsample replay s)
  | created replay =>
    rw [events, writeAll_singleton, SystemEvent.payload_created]
    rfl
  | exited replay =>
    rw [events, writeAll_singleton]
    rfl
  | mapping replay m =>
    rw [run, NetTraceWriter.writeMappingReplayEvent, writeMappingMetadataEvent_eq, events,
      writeAll_append, numbered]
    change _ = writeAll order machine replay (metadataEvents machine m writer) _ >>= _
    cases hmetadata : writeAll order machine replay (metadataEvents machine m writer)
        (writer.metadataId m).2.2 with
    | error e => rfl
    | ok writer' =>
      have hids := (kept_writeAll hmetadata).ids.trans (ids_metadataId m writer)
      rw [ok_bind, ok_bind, ok_bind]
      change _ = writeAll order machine replay [_] writer'
      rw [writeAll_singleton, SystemEvent.payload_mapping, ← metadataTexts_eq, ← hids]
  | symbol replay m s =>
    rw [events, writeAll_singleton, SystemEvent.payload_symbol]
    rfl

end Events

end ReplayCall

/-! ## Declared fields -/

/-- The fields that the metadata declares for the events with this id. -/
def ExportContent.declaredFields (self : ExportContent) (metaId : Nat) :
    Option (List NetTraceField) :=
  ((NetTraceWriter.metadataEntries self.kinds self.recordTypes).find? (·.metaId = metaId)).map
    (·.fields)

namespace NetTraceWriter

theorem metaIds_stackEntries (kinds : List String) (metaId : Nat) :
    (stackEntries kinds metaId).map (·.metaId) = List.range' metaId kinds.length := by
  induction kinds generalizing metaId with
  | nil => rfl
  | cons kind kinds ih =>
    rw [stackEntries, List.map_cons, ih]
    rfl

theorem metaIds_recordEntries (recordTypes : List ExportRecordType) (metaId : Nat) :
    (recordEntries recordTypes metaId).map (·.metaId) =
      List.range' metaId recordTypes.length := by
  induction recordTypes generalizing metaId with
  | nil => rfl
  | cons recordType recordTypes ih =>
    have hid : (recordEntry recordType metaId).metaId = metaId := by
      unfold recordEntry
      dsimp only
      split <;> rfl
    rw [recordEntries, List.map_cons, ih, hid]
    rfl

/-- Each entry of the metadata has an id of its own. -/
theorem nodup_metadataEntries (kinds : List String) (recordTypes : List ExportRecordType) :
    ((metadataEntries kinds recordTypes).map (·.metaId)).Nodup := by
  have hsystem : ∀ metaId, (systemEntries metaId).map (·.metaId) = List.range' metaId 6 :=
    fun _ => rfl
  rw [metadataEntries, List.map_append, List.map_append, metaIds_stackEntries,
    metaIds_recordEntries, hsystem, List.range'_append_1, Nat.add_assoc, List.range'_append_1]
  exact List.nodup_range'

end NetTraceWriter

theorem declaredFields_of_mem {machine : ExportContent} {entry : NetTraceWriter.MetadataEntry}
    (h : entry ∈ NetTraceWriter.metadataEntries machine.kinds machine.recordTypes) :
    machine.declaredFields entry.metaId = some entry.fields := by
  have hnodup := NetTraceWriter.nodup_metadataEntries machine.kinds machine.recordTypes
  obtain ⟨before, after, hsplit⟩ := List.append_of_mem h
  rw [hsplit, List.map_append, List.map_cons] at hnodup
  obtain ⟨-, -, hne⟩ := List.nodup_append.mp hnodup
  have hnone : before.find? (·.metaId = entry.metaId) = none := by
    rw [List.find?_eq_none]
    intro other hother
    simpa using hne _ (List.mem_map_of_mem hother) _ List.mem_cons_self
  rw [ExportContent.declaredFields, hsplit, List.find?_append, hnone, Option.none_or,
    List.find?_cons_of_pos (by simp)]
  rfl

/-! ## Runs -/

section Runs

variable (order : DrainOrder) (machine : ExportContent)

/-- A run of calls, with the system events that were written. -/
def runCalls : List ReplayCall → NetTraceWriter → Exec (NetTraceWriter × List WrittenEvent)
  | [], writer => .ok (writer, [])
  | call :: calls, writer => do
    let next ← call.run order machine writer
    let (last, events) ← runCalls calls next
    .ok (last, call.events machine writer ++ events)

/-- The calls for one event of the replay. -/
def replayCalls (replay : ExportProcessReplay) : List ReplayCall :=
  (replay.sampleEvent.map (.sample replay)).toList ++
    (if replay.createdEvent then [.created replay] else []) ++
    (if replay.exitedEvent then [.exited replay] else []) ++
    match replay.mappingEvent with
    | some m => .mapping replay m :: m.symbols.map (.symbol replay m)
    | none => []

end Runs

section Runs

variable {order : DrainOrder} {machine : ExportContent}

/-- **The replay is a run of calls.** -/
theorem writeReplayEvent_eq (replay : ExportProcessReplay) (writer : NetTraceWriter) :
    writer.writeReplayEvent order machine replay =
      (replayCalls replay).foldlM (fun writer call => call.run order machine writer) writer := by
  have hone : ∀ (call : ReplayCall) (writer : NetTraceWriter),
      [call].foldlM (fun writer call => call.run order machine writer) writer =
        call.run order machine writer := by
    intro call writer
    rw [List.foldlM_cons]
    exact bind_pure _
  rw [replayCalls, List.foldlM_append, List.foldlM_append, List.foldlM_append, bind_assoc,
    bind_assoc]
  unfold NetTraceWriter.writeReplayEvent
  congr 1
  · cases replay.sampleEvent with
    | none => rfl
    | some s => exact (hone (.sample replay s) writer).symm
  · refine funext fun writer => congrArg₂ _ ?_ (funext fun writer => congrArg₂ _ ?_
      (funext fun writer => ?_))
    · cases replay.createdEvent with
      | false => rfl
      | true => exact (hone (.created replay) writer).symm
    · cases replay.exitedEvent with
      | false => rfl
      | true => exact (hone (.exited replay) writer).symm
    · cases replay.mappingEvent with
      | none => rfl
      | some m =>
        dsimp only [NetTraceWriter.onSome]
        rw [List.foldlM_cons]
        refine congrArg _ (funext fun writer => ?_)
        rw [List.foldlM_map]
        rfl

/-- The texts of the metadata under a node. -/
def nodeTexts (machine : ExportContent) (node : ExportDevNode) : ModuleMetadata :=
  (machine.moduleMetadata node).getD ⟨"", ""⟩

/-- The metadata events with this id. -/
def defined (events : List WrittenEvent) (id : Nat) : List WrittenEvent :=
  events.filter (·.event.definedId = some id)

/-- A mapping is written behind the one event with its metadata. -/
def Refers (before : List WrittenEvent) (event : SystemEvent) : Prop :=
  ∀ m name metaId texts, event = .mapping m name metaId texts → metaId ≠ 0 →
    ∃ first, defined before metaId = [first] ∧ first.event = .metadata metaId texts

/-- The event is one of those that its id is declared for. -/
def Declared (machine : ExportContent) (written : WrittenEvent) : Prop :=
  machine.declaredFields written.metaId = some written.event.fields

/-- A run so far: the ids count the metadata events, one for each node. -/
structure Issued (machine : ExportContent) (writer : NetTraceWriter)
    (events : List WrittenEvent) : Prop where
  ids : ∃ blank : NetTraceWriter, writer.ids = blank.metadataIds machine.kinds machine.recordTypes
  fresh : ∀ written ∈ events, ∀ id, written.event.definedId = some id →
    id ≤ writer.savedMetaIds.length
  saved : ∀ node id, writer.savedMetaIds.lookup node = some id → id ≠ 0 ∧
    id ≤ writer.savedMetaIds.length ∧
    ∃ first, defined events id = [first] ∧ first.event = .metadata id (nodeTexts machine node)
  declared : ∀ written ∈ events, Declared machine written
  refers : ∀ before written later, events = before ++ written :: later →
    Refers before written.event

theorem defined_append (events later : List WrittenEvent) (id : Nat) :
    defined (events ++ later) id = defined events id ++ defined later id :=
  List.filter_append ..

variable {writer writer' : NetTraceWriter} {events : List WrittenEvent}

/-- Writing keeps the numbers. -/
theorem Issued.kept (h : Issued machine writer events) (hkept : ReplayCall.Kept writer writer') :
    Issued machine writer' events where
  ids := by
    rw [hkept.ids]
    exact h.ids
  fresh := by
    rw [hkept.savedMetaIds]
    exact h.fresh
  saved := by
    rw [hkept.savedMetaIds]
    exact h.saved
  declared := h.declared
  refers := h.refers

/-- An element of a list with one more behind is that one, or one of the list. -/
theorem split_concat {α : Type} {xs before later : List α} {last x : α}
    (h : xs ++ [last] = before ++ x :: later) :
    before = xs ∧ x = last ∨ ∃ later', xs = before ++ x :: later' := by
  rcases List.eq_nil_or_concat later with rfl | ⟨later', y, rfl⟩
  · obtain ⟨rfl, hx⟩ := List.append_inj' h rfl
    exact Or.inl ⟨rfl, (List.singleton_inj.mp hx).symm⟩
  · rw [List.concat_eq_append, ← List.cons_append, ← List.append_assoc] at h
    exact Or.inr ⟨later', (List.append_inj' h rfl).1⟩

theorem Issued.refers_add (h : Issued machine writer events) {written : WrittenEvent}
    (hrefers : Refers events written.event) : ∀ before other later,
    events ++ [written] = before ++ other :: later → Refers before other.event := by
  intro before other later hsplit
  rcases split_concat hsplit with ⟨rfl, rfl⟩ | ⟨later', hsplit⟩
  · exact hrefers
  · exact h.refers before other later' hsplit

/-- One more event that is no metadata. -/
theorem Issued.add (h : Issued machine writer events) {written : WrittenEvent}
    (hdefined : written.event.definedId = none) (hdeclared : Declared machine written)
    (hrefers : Refers events written.event) : Issued machine writer (events ++ [written]) := by
  have hsame : ∀ id, defined (events ++ [written]) id = defined events id := by
    intro id
    rw [defined_append]
    simp [defined, hdefined]
  refine ⟨h.ids, ?_, ?_, ?_, ?_⟩
  · intro other hother id hid
    rcases List.mem_append.mp hother with hother | hother
    · exact h.fresh other hother id hid
    · rw [List.mem_singleton.mp hother, hdefined] at hid
      cases hid
  · intro node id hid
    rw [hsame]
    exact h.saved node id hid
  · intro other hother
    rcases List.mem_append.mp hother with hother | hother
    · exact h.declared other hother
    · rw [List.mem_singleton.mp hother]
      exact hdeclared
  · exact h.refers_add hrefers

/-- The metadata of a node that had none. -/
theorem Issued.define (h : Issued machine writer events) {node : ExportDevNode}
    (hnode : writer.savedMetaIds.lookup node = none) {metaId : Nat}
    (hdeclared : machine.declaredFields metaId = some processMappingMetaFields) :
    Issued machine
      { writer with
        savedMetaIds := writer.savedMetaIds ++ [(node, writer.savedMetaIds.length + 1)] }
      (events ++
        [⟨metaId, .metadata (writer.savedMetaIds.length + 1) (nodeTexts machine node)⟩]) := by
  have hlength : (writer.savedMetaIds ++ [(node, writer.savedMetaIds.length + 1)]).length =
      writer.savedMetaIds.length + 1 := by simp
  refine ⟨h.ids, ?_, ?_, ?_, ?_⟩
  · intro other hother id hid
    rw [hlength]
    rcases List.mem_append.mp hother with hother | hother
    · exact Nat.le_succ_of_le (h.fresh other hother id hid)
    · rw [List.mem_singleton.mp hother] at hid
      cases hid
      exact le_refl _
  · intro other id hid
    rw [hlength]
    dsimp only at hid
    rw [List.lookup_append] at hid
    cases hlookup : writer.savedMetaIds.lookup other with
    | some id' =>
      rw [hlookup] at hid
      cases hid
      obtain ⟨hpos, hle, first, hfirst, hevent⟩ := h.saved other id hlookup
      refine ⟨hpos, Nat.le_succ_of_le hle, first, ?_, hevent⟩
      have hne : writer.savedMetaIds.length + 1 ≠ id := by omega
      rw [defined_append, hfirst]
      simp [defined, SystemEvent.definedId, hne]
    | none =>
      rw [hlookup, Option.none_or] at hid
      obtain ⟨rfl, rfl⟩ : other = node ∧ id = writer.savedMetaIds.length + 1 := by
        by_cases hsame : other = node
        · subst hsame
          rw [List.lookup_cons_self] at hid
          exact ⟨rfl, (Option.some.inj hid).symm⟩
        · have hbeq : (other == node) = false := beq_false_of_ne hsame
          rw [List.lookup_cons, hbeq] at hid
          cases hid
      refine ⟨Nat.succ_ne_zero _, le_refl _,
        ⟨metaId, .metadata (writer.savedMetaIds.length + 1) (nodeTexts machine other)⟩, ?_, rfl⟩
      have hnone : defined events (writer.savedMetaIds.length + 1) = [] := by
        refine List.filter_eq_nil_iff.mpr fun written hwritten hid => ?_
        have hle := h.fresh written hwritten _ (of_decide_eq_true hid)
        omega
      rw [defined_append, hnone]
      simp [defined, SystemEvent.definedId]
  · intro other hother
    rcases List.mem_append.mp hother with hother | hother
    · exact h.declared other hother
    · rw [List.mem_singleton.mp hother]
      exact hdeclared
  · refine h.refers_add fun _ _ _ _ hevent => ?_
    cases hevent

/-- The ids of the system events are declared with the fields of these. -/
theorem Issued.declares (h : Issued machine writer events) :
    machine.declaredFields writer.ids.existingEventId = some processCreateFields ∧
    machine.declaredFields writer.ids.createEventId = some processCreateFields ∧
    machine.declaredFields writer.ids.exitEventId = some processExitFields ∧
    machine.declaredFields writer.ids.mappingEventId = some processMappingFields ∧
    machine.declaredFields writer.ids.symbolEventId = some processSymbolFields ∧
    machine.declaredFields writer.ids.mappingMetaEventId = some processMappingMetaFields := by
  obtain ⟨blank, hids⟩ := h.ids
  have hentry : ∀ entry ∈ NetTraceWriter.systemEntries
      (1 + machine.kinds.length + machine.recordTypes.length),
      machine.declaredFields entry.metaId = some entry.fields := fun entry hentry =>
    declaredFields_of_mem (List.mem_append_right _ hentry)
  simp only [NetTraceWriter.systemEntries, List.forall_mem_cons] at hentry
  obtain ⟨hexisting, hcreate, hexit, hmapping, hsymbol, hmetadata, -⟩ := hentry
  rw [hids]
  exact ⟨hexisting, hcreate, hexit, hmapping, hsymbol, hmetadata⟩

theorem metadataId_old {m : ProcessMapping} {node : ExportDevNode} {id : Nat}
    (hnode : m.node = some node) (hlookup : writer.savedMetaIds.lookup node = some id) :
    writer.metadataId m = (id, true, writer) := by
  unfold NetTraceWriter.metadataId
  rw [hnode]
  dsimp only
  rw [hlookup]

theorem metadataId_new {m : ProcessMapping} {node : ExportDevNode}
    (hnode : m.node = some node) (hlookup : writer.savedMetaIds.lookup node = none) :
    writer.metadataId m = (writer.savedMetaIds.length + 1, false,
      { writer with
        savedMetaIds := writer.savedMetaIds ++ [(node, writer.savedMetaIds.length + 1)] }) := by
  unfold NetTraceWriter.metadataId
  rw [hnode]
  dsimp only
  rw [hlookup]

/-- The metadata of a mapping is written, unless it was before. -/
theorem Issued.metadata (h : Issued machine writer events) (m : ProcessMapping) :
    Issued machine (writer.metadataId m).2.2
      (events ++ ReplayCall.metadataEvents machine m writer) ∧
    ((writer.metadataId m).1 ≠ 0 →
      ∃ first, defined (events ++ ReplayCall.metadataEvents machine m writer)
        (writer.metadataId m).1 = [first] ∧
        first.event = .metadata (writer.metadataId m).1 (ReplayCall.textsOf machine m)) := by
  unfold ReplayCall.metadataEvents
  cases hnode : m.node with
  | none =>
    have hid : writer.metadataId m = (0, true, writer) := by
      unfold NetTraceWriter.metadataId
      rw [hnode]
    rw [hid, if_pos rfl, List.append_nil]
    exact ⟨h, fun hne => absurd rfl hne⟩
  | some node =>
    have htexts : ReplayCall.textsOf machine m = nodeTexts machine node := by
      unfold ReplayCall.textsOf ExportContent.getMappingMetadata
      rw [hnode]
      rfl
    cases hlookup : writer.savedMetaIds.lookup node with
    | some id =>
      rw [metadataId_old hnode hlookup, if_pos rfl, List.append_nil, htexts]
      exact ⟨h, fun _ => (h.saved node id hlookup).2.2⟩
    | none =>
      rw [metadataId_new hnode hlookup, if_neg Bool.false_ne_true, htexts]
      have hdefine := h.define hlookup h.declares.2.2.2.2.2
      have hself : (writer.savedMetaIds ++ [(node, writer.savedMetaIds.length + 1)]).lookup node =
          some (writer.savedMetaIds.length + 1) := by
        rw [List.lookup_append, hlookup, List.lookup_cons_self]
        rfl
      exact ⟨hdefine, fun _ => (hdefine.saved node _ hself).2.2⟩

theorem kept_writeSample {replay : ExportProcessReplay} {sample : ExportProcessSample}
    (h : writer.writeSampleReplayEvent order machine replay sample = .ok writer') :
    ReplayCall.Kept writer writer' := by
  obtain ⟨value, -, h⟩ := bind_eq_ok.mp h
  obtain ⟨⟨eventId, buffer⟩, -, h⟩ := bind_eq_ok.mp h
  have hsave : ReplayCall.Kept writer (writer.saveSample sample).2.2 := ⟨rfl, rfl⟩
  exact hsave.trans (ReplayCall.kept_writeEventBlob h)

/-- **One call.** -/
theorem Issued.call (h : Issued machine writer events) {call : ReplayCall}
    (hrun : call.run order machine writer = .ok writer') :
    Issued machine writer' (events ++ call.events machine writer) := by
  obtain ⟨hexisting, hcreate, hexit, hmapping, hsymbol, -⟩ := h.declares
  cases call with
  | sample replay s =>
    rw [ReplayCall.events, List.append_nil]
    exact h.kept (kept_writeSample hrun)
  | created replay =>
    rw [ReplayCall.run_eq _ _ (fun _ _ h => by cases h)] at hrun
    have hdeclared : machine.declaredFields (if replay.time < writer.syncTime
        then writer.ids.existingEventId else writer.ids.createEventId) =
        some processCreateFields := by
      split_ifs
      · exact hexisting
      · exact hcreate
    exact Issued.kept (Issued.add h rfl hdeclared fun _ _ _ _ hevent => (by cases hevent))
      (ReplayCall.kept_writeAll hrun)
  | exited replay =>
    rw [ReplayCall.run_eq _ _ (fun _ _ h => by cases h)] at hrun
    exact Issued.kept (Issued.add h rfl hexit fun _ _ _ _ hevent => (by cases hevent))
      (ReplayCall.kept_writeAll hrun)
  | mapping replay m =>
    rw [ReplayCall.run_eq _ _ (fun _ _ h => by cases h)] at hrun
    obtain ⟨hmetadata, hfirst⟩ := h.metadata m
    rw [ReplayCall.events, ← List.append_assoc]
    refine Issued.kept (Issued.add hmetadata rfl hmapping ?_) (ReplayCall.kept_writeAll hrun)
    rintro m' name metaId texts hevent hne
    cases hevent
    exact hfirst hne
  | symbol replay m s =>
    rw [ReplayCall.run_eq _ _ (fun _ _ h => by cases h)] at hrun
    have hnext : ReplayCall.Kept writer writer.nextSymId := ⟨rfl, rfl⟩
    exact Issued.kept (Issued.add h rfl hsymbol fun _ _ _ _ hevent => (by cases hevent))
      (hnext.trans (ReplayCall.kept_writeAll hrun))

/-- **A run.** -/
theorem Issued.run (h : Issued machine writer events) {calls : List ReplayCall}
    {written : List WrittenEvent} (hrun : runCalls order machine calls writer = .ok (writer', written)) :
    Issued machine writer' (events ++ written) := by
  induction calls generalizing writer events written with
  | nil =>
    cases hrun
    rwa [List.append_nil]
  | cons call calls ih =>
    obtain ⟨next, hnext, hrun⟩ := bind_eq_ok.mp hrun
    obtain ⟨⟨last, later⟩, hlater, hrun⟩ := bind_eq_ok.mp hrun
    cases hrun
    rw [← List.append_assoc]
    exact ih (h.call hnext) hlater

/-- The writer before the replay has written no event. -/
theorem issued_start {system : SystemInfo} {start : NetTraceWriter}
    (h : machine.startNetTrace system = .ok start) : Issued machine start [] := by
  unfold ExportContent.startNetTrace at h
  split at h
  · cases h
  · cases h
  · obtain ⟨traced, htrace, h⟩ := bind_eq_ok.mp h
    obtain ⟨-, rfl⟩ := NetTraceWriter.writeTraceObject_eq_ok.mp htrace
    cases h
    rw [NetTraceWriter.writeMetadataObject_eq]
    refine ⟨⟨_, rfl⟩, fun _ h => (List.not_mem_nil h).elim, fun node id h => (by cases h),
      fun _ h => (List.not_mem_nil h).elim, fun before written later h => ?_⟩
    exact absurd h.symm (by simp)

/-- Nothing is saved that a flush could fail at. -/
structure Quiet (writer : NetTraceWriter) : Prop where
  savedCallstacks : writer.savedCallstacks = []
  savedLabels : writer.savedLabels = []

theorem takeSaved_nil {κ : Type} (order : DrainOrder) :
    takeSaved order ([] : Saved κ) = [] := by
  rw [takeSaved, List.Perm.eq_nil (order.perm κ [])]
  rfl

/-- An event that saves nothing goes through. -/
theorem Quiet.writeEventBlob (h : Quiet writer) (order : DrainOrder) (buffer : List UInt8)
    (metaId : Nat) (replay : ExportProcessReplay) :
    ∃ writer', writer.writeEventBlobFromBuffer order machine buffer metaId 0 none none replay =
      .ok writer' ∧ Quiet writer' := by
  have hcallstacks : (writer.appendEventBlob buffer metaId 0 none none replay).savedCallstacks =
      [] := h.savedCallstacks
  have hlabels : (writer.appendEventBlob buffer metaId 0 none none replay).savedLabels = [] :=
    h.savedLabels
  unfold NetTraceWriter.writeEventBlobFromBuffer
  dsimp only
  split
  · rw [NetTraceWriter.flushEventBlock_eq, hcallstacks, hlabels, takeSaved_nil, takeSaved_nil]
    exact ⟨_, rfl, rfl, rfl⟩
  · exact ⟨_, rfl, hcallstacks, hlabels⟩

theorem Quiet.writeAll (h : Quiet writer) (order : DrainOrder) (replay : ExportProcessReplay)
    (events : List WrittenEvent) :
    ∃ writer', ReplayCall.writeAll order machine replay events writer = .ok writer' ∧
      Quiet writer' := by
  induction events generalizing writer with
  | nil => exact ⟨writer, rfl, h⟩
  | cons written events ih =>
    obtain ⟨next, hnext, hquiet⟩ :=
      @Quiet.writeEventBlob machine writer h order written.event.payload written.metaId replay
    obtain ⟨writer', hrest, hquiet'⟩ := ih hquiet
    refine ⟨writer', ?_, hquiet'⟩
    rw [← hrest, ReplayCall.writeAll, List.foldlM_cons, hnext]
    rfl

/-- A call that is for no sample goes through. -/
theorem Quiet.runCall (h : Quiet writer) (order : DrainOrder) {call : ReplayCall}
    (hsample : ∀ replay s, call ≠ .sample replay s) :
    ∃ writer', runCalls order machine [call] writer =
      .ok (writer', call.events machine writer) := by
  have hnumbered : Quiet (call.numbered writer) := by
    cases call with
    | mapping replay m =>
      change Quiet (writer.metadataId m).2.2
      unfold NetTraceWriter.metadataId
      split
      · split
        · exact h
        · exact ⟨h.savedCallstacks, h.savedLabels⟩
      · exact h
    | symbol replay m s => exact ⟨h.savedCallstacks, h.savedLabels⟩
    | sample replay s => exact h
    | created replay => exact h
    | exited replay => exact h
  obtain ⟨writer', hrun, -⟩ :=
    @Quiet.writeAll machine _ hnumbered order call.replay (call.events machine writer)
  refine ⟨writer', ?_⟩
  rw [runCalls, ReplayCall.run_eq call writer hsample, hrun, ok_bind]
  exact congrArg (fun events => Except.ok (writer', events)) (List.append_nil _)

theorem quiet_start {system : SystemInfo} {start : NetTraceWriter}
    (h : machine.startNetTrace system = .ok start) : Quiet start := by
  unfold ExportContent.startNetTrace at h
  split at h
  · cases h
  · cases h
  · obtain ⟨traced, htrace, h⟩ := bind_eq_ok.mp h
    obtain ⟨-, rfl⟩ := NetTraceWriter.writeTraceObject_eq_ok.mp htrace
    cases h
    rw [NetTraceWriter.writeMetadataObject_eq]
    exact ⟨rfl, rfl⟩

/-- **System events.** In a run of an export a payload gives back what was written, with nothing
left over, if and only if its texts are shorter than `2 ^ 16` bytes and it is not that of a
mapping. A mapping with an id of metadata comes behind the one event with this metadata. -/
theorem systemEvents_decode_iff {order : DrainOrder} {machine : ExportContent}
    {system : SystemInfo} {start writer : NetTraceWriter} {calls : List ReplayCall}
    {events : List WrittenEvent} (hstart : machine.startNetTrace system = .ok start)
    (hrun : runCalls order machine calls start = .ok (writer, events)) :
    (∀ written ∈ events, (∃ fields, machine.declaredFields written.metaId = some fields ∧
        readAll (readValues fields) written.event.payload = some written.event.values) ↔
      written.event.Fits) ∧
    ∀ before written later, events = before ++ written :: later →
      Refers before written.event := by
  have hissued := (issued_start hstart).run hrun
  rw [List.nil_append] at hissued
  refine ⟨fun written hwritten => ?_, hissued.refers⟩
  have hdeclared : machine.declaredFields written.metaId = some written.event.fields :=
    hissued.declared written hwritten
  rw [← written.event.readAll_payload_iff]
  constructor
  · rintro ⟨fields, hfields, hread⟩
    rw [hdeclared] at hfields
    cases hfields
    exact hread
  · exact fun hread => ⟨_, hdeclared, hread⟩

end Runs

/-- A machine with one name, whose collection was started. -/
def namedMachine : ExportContent where
  strings := ⟨["app"]⟩
  procs := []
  nodup := List.nodup_nil
  startDate := some ⟨2024, 1, 1, 1, 0, 0, 0, 0⟩
  startQpc := some 3

/-- The creation of a process is read back. -/
theorem created_decodes :
    let order : DrainOrder := ⟨fun _ saved => saved, fun _ _ => .refl _⟩
    let system : SystemInfo :=
      { qpcFreq := 1, cpuCount := 1, cpuFreq := 1000, systemPageSize := 4096 }
    let replay : ExportProcessReplay :=
      { process := { pid := 7, commId := some 0, nsPid := some 1 }, currentTime := 5 }
    ∃ start writer metaId, namedMachine.startNetTrace system = .ok start ∧
      runCalls order namedMachine [.created replay] start =
        .ok (writer, [⟨metaId, .created 1 "app"⟩]) ∧
      ∃ fields, namedMachine.declaredFields metaId = some fields ∧
        readAll (readValues fields) (SystemEvent.created 1 "app").payload =
          some [.number 1, .text (utf8 "app"), .text (utf8 "Unknown")] := by
  intro order system replay
  obtain ⟨start, hstart⟩ : ∃ start, namedMachine.startNetTrace system = .ok start := ⟨_, rfl⟩
  have hcall : ∀ replay' s, ReplayCall.created replay ≠ .sample replay' s := fun _ _ h => by cases h
  obtain ⟨writer, hrun⟩ := (quiet_start hstart).runCall order hcall
  refine ⟨start, writer, _, hstart, hrun, ?_⟩
  obtain ⟨hdecodes, -⟩ := systemEvents_decode_iff hstart hrun
  refine (hdecodes _ List.mem_cons_self).mpr ?_
  change (utf8 "app").length < 2 ^ 16
  decide

/-- The payload of a mapping has the texts of its metadata behind the declared fields. -/
theorem mapping_leftover : ¬ ∀ (order : DrainOrder) (machine : ExportContent)
    (system : SystemInfo) (start writer : NetTraceWriter) (calls : List ReplayCall)
    (events : List WrittenEvent), machine.startNetTrace system = .ok start →
    runCalls order machine calls start = .ok (writer, events) → ∀ written ∈ events,
      ∃ fields, machine.declaredFields written.metaId = some fields ∧
        readAll (readValues fields) written.event.payload = some written.event.values := by
  intro h
  let order : DrainOrder := ⟨fun _ saved => saved, fun _ _ => .refl _⟩
  let system : SystemInfo :=
    { qpcFreq := 1, cpuCount := 1, cpuFreq := 1000, systemPageSize := 4096 }
  let m : ProcessMapping := { start := 16, stop := 32, time := 5 }
  let replay : ExportProcessReplay := { process := { pid := 7 }, currentTime := 5 }
  obtain ⟨start, hstart⟩ : ∃ start, namedMachine.startNetTrace system = .ok start := ⟨_, rfl⟩
  have hcall : ∀ replay' s, ReplayCall.mapping replay m ≠ .sample replay' s := fun _ _ h => by
    cases h
  obtain ⟨writer, hrun⟩ := (quiet_start hstart).runCall order hcall
  obtain ⟨fields, hfields, hread⟩ := h order namedMachine system start writer _ _ hstart hrun _
    List.mem_cons_self
  obtain ⟨-, -, -, hmapping, -⟩ := (issued_start hstart).declares
  cases hmapping.symm.trans hfields
  exact (SystemEvent.readAll_payload_iff (.mapping m "app" 0 ⟨"", ""⟩)).mp hread

end OneCollect.Exporting
