import OneCollect.Event.Format
import OneCollect.Exporting.Attributes
import OneCollect.Exporting.Replay
import OneCollect.Theory.Leb128

/-! The NetTrace writer (`nettrace.rs`). Events are collected in a block; once it has a megabyte
it is flushed, with the stacks, threads and labels its events refer to in blocks before it. -/

namespace OneCollect.Exporting
open Theory

/-! ## What is exported -/

structure ExportRecordType where
  kind : Nat
  id : Nat
  name : String
  format : EventFormat := {}
  isOriginalData : Bool := false
  deriving DecidableEq, Repr

/-- A record with its part of `record_data`. -/
structure ExportRecord where
  recordType : Nat
  data : List UInt8
  deriving DecidableEq, Repr

structure ExportSpan where
  startTime : Nat
  endTime : Nat
  deriving DecidableEq, Repr

/-- The metadata of a module as its two texts. -/
structure ModuleMetadata where
  toSymbolMetadata : String
  toVersionMetadata : String
  deriving DecidableEq, Repr

/-- The date of `mark_start`, with the fields that are written. -/
structure SyncTime where
  year : Nat
  month : Nat
  weekday : Nat
  day : Nat
  hour : Nat
  minute : Nat
  second : Nat
  nanosecond : Nat
  deriving DecidableEq, Repr

/-- A machine with all that an export reads. -/
structure ExportContent extends ExportMachine where
  kinds : List String := []
  recordTypes : List ExportRecordType := []
  records : List ExportRecord := []
  attributes : List ExportAttributes := []
  spans : List ExportSpan := []
  moduleMetadata : ExportDevNode → Option ModuleMetadata := fun _ => none
  startDate : Option SyncTime := none
  startQpc : Option Nat := none
  endQpc : Option Nat := none

namespace ExportContent

def spanFromValue (self : ExportContent) : MetricValue → Option ExportSpan
  | .span id => self.spans[id]?
  | _ => none

/-- `DefaultExportGraphMetricValueConverter`. -/
def convert (self : ExportContent) (value : MetricValue) : Exec Nat :=
  match value with
  | .count n => .ok n
  | .bytes n => .ok n
  | .duration n => .ok n
  | .span _ =>
    match self.spanFromValue value with
    | some span => subU64 span.endTime span.startTime
    | none => .ok 0

def getMappingMetadata (self : ExportContent) (mapping : ProcessMapping) :
    Option ModuleMetadata :=
  mapping.node.bind self.moduleMetadata

def tryGetRecordData (self : ExportContent) (recordId : Nat) : Option (List UInt8) :=
  self.records[recordId]?.map (·.data)

end ExportContent

def InternedStrings.findId (self : InternedStrings) (string : String) : Option Nat :=
  self.strings.findIdx? (· = string)

/-! ## Payloads -/

def utf8 (value : String) : List UInt8 := value.toUTF8.data.toList

def shortUtf8 (value : String) : List UInt8 := toLe 2 (utf8 value).length ++ utf8 value

def varUtf8 (value : String) : List UInt8 := toUleb (utf8 value).length ++ utf8 value

/-- The loop of `size_varint`, for as many turns. -/
def sizeVarintLoop : (fuel value size : Nat) → Nat
  | 0, _, size => size
  | fuel + 1, value, size =>
    if value ≥ 128 then sizeVarintLoop fuel (value / 128) (size + 1) else size

def sizeVarint (value : Nat) : Nat := sizeVarintLoop value value 1

def sizeUtf8 (value : String) : Nat := (utf8 value).length + sizeVarint (utf8 value).length

/-! ## Fields -/

structure NetTraceField where
  typeId : Nat
  elementTypeId : Option Nat := none
  name : String
  deriving DecidableEq, Repr

namespace TypeId

def byte : Nat := 6
def int16 : Nat := 7
def uint16 : Nat := 8
def int32 : Nat := 9
def uint32 : Nat := 10
def int64 : Nat := 11
def uint64 : Nat := 12
def single : Nat := 13
def double : Nat := 14
def nullUtf16String : Nat := 18
def array : Nat := 19
def varuint : Nat := 21
def utf8 : Nat := 23

end TypeId

def valueField : NetTraceField := { typeId := TypeId.varuint, name := "Value" }
def idField : NetTraceField := { typeId := TypeId.varuint, name := "Id" }
def nameField : NetTraceField := { typeId := TypeId.utf8, name := "Name" }
def namespaceNameField : NetTraceField := { typeId := TypeId.utf8, name := "NamespaceName" }
def fileNameField : NetTraceField := { typeId := TypeId.utf8, name := "FileName" }
def symbolMetaField : NetTraceField := { typeId := TypeId.utf8, name := "SymbolMetadata" }
def versionMetaField : NetTraceField := { typeId := TypeId.utf8, name := "VersionMetadata" }
def namespaceIdField : NetTraceField := { typeId := TypeId.varuint, name := "NamespaceId" }
def mappingIdField : NetTraceField := { typeId := TypeId.varuint, name := "MappingId" }
def metaIdField : NetTraceField := { typeId := TypeId.varuint, name := "MetadataId" }
def startAddressField : NetTraceField := { typeId := TypeId.varuint, name := "StartAddress" }
def endAddressField : NetTraceField := { typeId := TypeId.varuint, name := "EndAddress" }
def fileOffsetField : NetTraceField := { typeId := TypeId.varuint, name := "FileOffset" }

def stackEventFields : List NetTraceField := [valueField]

def processCreateFields : List NetTraceField := [namespaceIdField, nameField, namespaceNameField]

def processExitFields : List NetTraceField := []

def processMappingFields : List NetTraceField :=
  [idField, startAddressField, endAddressField, fileOffsetField, fileNameField, metaIdField]

def processMappingMetaFields : List NetTraceField := [idField, symbolMetaField, versionMetaField]

def processSymbolFields : List NetTraceField :=
  [idField, mappingIdField, startAddressField, endAddressField, nameField]

def eventFieldToElementType (field : EventField) : Option Nat :=
  let words := splitWhitespace field.typeName.toList
  let first := String.ofList (words.headD [])
  let first :=
    if first = "__dyn_array" then String.ofList (words.tail.headD []) else first
  match first with
  | "u8" => some TypeId.byte
  | "s8" => some TypeId.byte
  | "char" => some TypeId.byte
  | "u16" => some TypeId.uint16
  | "s16" => some TypeId.int16
  | "short" => some TypeId.int16
  | "u32" => some TypeId.uint32
  | "s32" => some TypeId.int32
  | "int" => some TypeId.int32
  | "u64" => some TypeId.uint64
  | "s64" => some TypeId.int64
  | "long" => some TypeId.int64
  | "float" => some TypeId.single
  | "double" => some TypeId.double
  | "unsigned" =>
    -- ambiguous, so the size decides
    match field.size with
    | 1 => some TypeId.byte
    | 2 => some TypeId.uint16
    | 4 => some TypeId.uint32
    | 8 => some TypeId.uint64
    | _ => none
  | "__rel_loc" => some TypeId.uint32
  | "__data_loc" => some TypeId.uint32
  | "string" => some TypeId.nullUtf16String
  | _ => none

/-- The type ends with `]`, and the last `[` is not right before it. -/
def staticSized (typeName : List Char) : Bool :=
  match typeName.reverse with
  | ']' :: rest => rest.contains '[' && rest.head? != some '['
  | _ => false

def eventFieldToType (field : EventField) : Option Nat :=
  if field.location = .staticUTF16String then some TypeId.nullUtf16String
  else if field.location = .staticLenPrefixArray then some TypeId.array
  else if staticSized field.typeName.toList then none
  else eventFieldToElementType field

/-- The loop over the fields of a record type, up to the first that is not supported. -/
def recordFields : List EventField → List NetTraceField
  | [] => []
  | field :: fields =>
    match eventFieldToType field with
    | some typeId =>
      let elementTypeId :=
        if typeId = TypeId.array then eventFieldToElementType field else none
      { typeId, elementTypeId, name := field.name } :: recordFields fields
    | none => []

/-! ## Metadata of an event -/

/-- `Guid::from_u128`, as it is written. -/
def guidBytes (uuid : Nat) : List UInt8 :=
  toLe 4 (uuid / 2 ^ 96) ++ toLe 2 (uuid / 2 ^ 80) ++ toLe 2 (uuid / 2 ^ 64) ++
    (toLe 8 uuid).reverse

/-- The provider with the guid behind its colon. -/
def splitProvider (provider : String) : String × Option Nat :=
  match cutAt ':' provider.toList with
  | (name, some guid) =>
    (String.ofList name,
      fromHex 128 (trim (guid.filter fun c => c ≠ '{' ∧ c ≠ '}' ∧ c ≠ '-')))
  | (_, none) => (provider, none)

def fieldMetadata (field : NetTraceField) : List UInt8 :=
  let size := sizeUtf8 field.name + 1
  let size := if field.typeId = TypeId.array then size + 1 else size
  toLe 2 size ++ varUtf8 field.name ++ [UInt8.ofNat field.typeId] ++
    if field.typeId = TypeId.array then [UInt8.ofNat (field.elementTypeId.getD 0)] else []

/-- The bytes of `write_event_metadata`. -/
def eventMetadata (metaId : Nat) (provider : String) (eventId : Nat) (eventName : String)
    (fields : List NetTraceField) : List UInt8 :=
  let (provider, guid) := splitProvider provider
  let payload := toUleb metaId ++ varUtf8 provider ++ toUleb eventId ++ varUtf8 eventName ++
    toLe 2 fields.length ++ fields.flatMap fieldMetadata ++
    match guid with
    | some guid => toLe 2 17 ++ [7] ++ guidBytes guid
    | none => toLe 2 0
  toLe 2 payload.length ++ payload

/-- Provider and event name of a record type with original data. -/
def originalNames (name : String) : String × String :=
  match cutAt '/' name.toList with
  | (provider, some event) => (String.ofList provider, String.ofList event)
  | (_, none) => ("Universal.Events", name)

def recordMetadata (recordType : ExportRecordType) (metaId : Nat) : List UInt8 :=
  let fields := recordFields recordType.format.fields
  if recordType.isOriginalData then
    let (providerName, eventName) := originalNames recordType.name
    eventMetadata metaId providerName recordType.id eventName fields
  else eventMetadata metaId "Universal.Events" metaId recordType.name (valueField :: fields)

/-! ## The writer -/

structure SavedCallstackKey where
  ip : Nat
  sampleId : Nat
  deriving DecidableEq, Repr

structure SavedPidTidKey where
  pid : Nat
  tid : Nat
  deriving DecidableEq, Repr

structure SavedLabelKey where
  attributesId : Nat
  deriving DecidableEq, Repr

/-- A map from keys to the ids they were given; a block has far fewer than `2 ^ 32` of them. -/
abbrev Saved (κ : Type) := List (κ × Nat)

/-- `*saved.entry(key).or_insert(saved.len())`. -/
def Saved.entry {κ : Type} [DecidableEq κ] (saved : Saved κ) (key : κ) : Nat × Saved κ :=
  match saved.lookup key with
  | some id => (id, saved)
  | none => (saved.length, saved ++ [(key, saved.length)])

/-- The order in which a map is drained: any order. -/
structure DrainOrder where
  iter : (κ : Type) → Saved κ → Saved κ
  perm : ∀ κ saved, (iter κ saved).Perm saved

/-- The keys sorted by the ids they were given. -/
def takeSaved {κ : Type} (order : DrainOrder) (saved : Saved κ) : List κ :=
  ((order.iter κ saved).insertionSort fun a b => a.2 ≤ b.2).map (·.1)

/-- The ids of the metadata that the replay refers to. -/
structure MetaIds where
  recordIdOffset : Nat := 0
  existingEventId : Nat := 0
  createEventId : Nat := 0
  exitEventId : Nat := 0
  mappingEventId : Nat := 0
  symbolEventId : Nat := 0
  mappingMetaEventId : Nat := 0
  originalMetaEventIds : List Nat := []
  deriving DecidableEq, Repr

structure NetTraceWriter where
  output : List UInt8 := []
  eventBlock : List UInt8 := []
  ids : MetaIds := {}
  lastTime : Nat := 0
  syncTime : Nat := 0
  flushTime : Nat := 0
  symId : Nat := 0
  savedLabels : Saved SavedLabelKey := []
  savedCallstacks : Saved SavedCallstackKey := []
  savedPidTids : Saved SavedPidTidKey := []
  savedMetaIds : Saved ExportDevNode := []
  deriving DecidableEq, Repr

namespace NetTraceWriter

/-! ### Blocks -/

def put (self : NetTraceWriter) (bytes : List UInt8) : NetTraceWriter :=
  { self with output := self.output ++ bytes }

/-- The position behind the word that is reserved. -/
def reserveU32 (self : NetTraceWriter) : Nat × NetTraceWriter :=
  let self := self.put (toLe 4 0)
  (self.output.length, self)

def updateU32 (self : NetTraceWriter) (value reservedAt : Nat) : NetTraceWriter :=
  { self with
    output := self.output.take (reservedAt - 4) ++ toLe 4 value ++ self.output.drop reservedAt }

def writeStartBlock (self : NetTraceWriter) : Nat × NetTraceWriter := self.reserveU32

def writeEndBlock (self : NetTraceWriter) (blockStart kind : Nat) : NetTraceWriter :=
  let totalSize := self.output.length - blockStart
  let header := toU32 totalSize ||| kind <<< 24
  self.updateU32 header blockStart

def initThreads (self : NetTraceWriter) : NetTraceWriter :=
  { self with savedPidTids := [(⟨0, 0⟩, 0)] }

def init (self : NetTraceWriter) : NetTraceWriter :=
  let self := self.initThreads
  self.put (utf8 "Nettrace" ++ toLe 4 0 ++ toLe 4 6 ++ toLe 4 0)

def new : NetTraceWriter := init {}

/-- What `write_trace_object` is called with. -/
structure TraceInfo where
  syncTime : SyncTime
  syncTimeQpc : Nat
  qpcFreq : Nat
  numOfCpus : Nat
  sampleFreq : Nat
  systemPageSize : Nat

def writeTraceObject (self : NetTraceWriter) (info : TraceInfo) : Exec NetTraceWriter := do
  -- a frequency of zero divides by it
  let nanosBetweenSamples ←
    if info.sampleFreq = 0 then panicked else .ok (1000000000 / info.sampleFreq)
  let milliSecs := info.syncTime.nanosecond / 1000000
  let self := { self with syncTime := info.syncTimeQpc, flushTime := info.syncTimeQpc }
  let (blockStart, self) := self.writeStartBlock
  let self := self.put (toLe 2 info.syncTime.year ++ toLe 2 info.syncTime.month ++
    toLe 2 info.syncTime.weekday ++ toLe 2 info.syncTime.day ++ toLe 2 info.syncTime.hour ++
    toLe 2 info.syncTime.minute ++ toLe 2 info.syncTime.second ++ toLe 2 milliSecs ++
    toLe 8 info.syncTimeQpc ++ toLe 8 info.qpcFreq ++ toLe 4 8)
  let self := self.put (toLe 4 3 ++ varUtf8 "HardwareThreadCount" ++
    varUtf8 (toString info.numOfCpus) ++ varUtf8 "ExpectedCPUSamplingRate" ++
    varUtf8 (toString nanosBetweenSamples) ++ varUtf8 "SystemPageSize" ++
    varUtf8 (toString info.systemPageSize))
  .ok (self.writeEndBlock blockStart 1)

/-- The loop over the sample kinds. -/
def writeStackMetadata : List String → Nat → NetTraceWriter → Nat × NetTraceWriter
  | [], metaId, self => (metaId, self)
  | kind :: kinds, metaId, self =>
    writeStackMetadata kinds (metaId + 1)
      (self.put (eventMetadata metaId "Universal.Events" metaId kind stackEventFields))

/-- The loop over the record types. -/
def writeRecordMetadata : List ExportRecordType → Nat → NetTraceWriter → Nat × NetTraceWriter
  | [], metaId, self => (metaId, self)
  | recordType :: recordTypes, metaId, self =>
    let originals := self.ids.originalMetaEventIds
    let originals := if recordType.isOriginalData then metaId :: originals else originals
    let self := { self with ids := { self.ids with originalMetaEventIds := originals } }
    writeRecordMetadata recordTypes (metaId + 1) (self.put (recordMetadata recordType metaId))

/-- One of the system events, by its stable id. -/
def systemMetadata (metaId eventId : Nat) (eventName : String) (fields : List NetTraceField) :
    List UInt8 :=
  eventMetadata metaId "Universal.System" eventId eventName fields

/-- The system metadata from `metaId` on; the ids are saved for the replay. -/
def writeSystemMetadata (self : NetTraceWriter) (metaId : Nat) : NetTraceWriter :=
  let self := { self with
    ids := { self.ids with
      existingEventId := metaId
      createEventId := metaId + 1
      exitEventId := metaId + 2
      mappingEventId := metaId + 3
      symbolEventId := metaId + 4
      mappingMetaEventId := metaId + 5 } }
  self.put (systemMetadata metaId 0 "ExistingProcess" processCreateFields ++
    systemMetadata (metaId + 1) 1 "ProcessCreate" processCreateFields ++
    systemMetadata (metaId + 2) 2 "ProcessExit" processExitFields ++
    systemMetadata (metaId + 3) 3 "ProcessMapping" processMappingFields ++
    systemMetadata (metaId + 4) 4 "ProcessSymbol" processSymbolFields ++
    systemMetadata (metaId + 5) 5 "ProcessMappingMetadata" processMappingMetaFields)

def writeMetadataObject (self : NetTraceWriter) (stackKinds : List String)
    (recordTypes : List ExportRecordType) : NetTraceWriter :=
  let (blockStart, self) := self.writeStartBlock
  let self := self.put (toLe 2 0)
  let (metaId, self) := writeStackMetadata stackKinds 1 self
  let self := { self with ids := { self.ids with recordIdOffset := metaId } }
  let (metaId, self) := writeRecordMetadata recordTypes metaId self
  let self := self.writeSystemMetadata metaId
  self.writeEndBlock blockStart 3

def writeSeqBlock (self : NetTraceWriter) (timeQpc : Nat) : NetTraceWriter :=
  let (blockStart, self) := self.writeStartBlock
  let self := self.put (toLe 8 timeQpc ++ toLe 4 1 ++ toLe 4 0)
  self.writeEndBlock blockStart 4

/-! ### Flush -/

section Flush

variable (order : DrainOrder) (machine : ExportContent)

/-- One stack: its size, the instruction pointer and the frames. -/
def callstackBytes (callstack : SavedCallstackKey) : Exec (List UInt8) :=
  match machine.callstacks.fromId callstack.sampleId with
  | some ips =>
    let size := (ips.length + 1) * 8
    .ok (toLe 4 size ++ toLe 8 callstack.ip ++ ips.flatMap (toLe 8))
  | none => fail "ID not found."

def putCallstacks : List SavedCallstackKey → NetTraceWriter → Exec NetTraceWriter
  | [], self => .ok self
  | callstack :: callstacks, self => do
    let bytes ← callstackBytes machine callstack
    putCallstacks callstacks (self.put bytes)

def writeCallstacks (self : NetTraceWriter) : Exec NetTraceWriter := do
  let (blockStart, self) := self.writeStartBlock
  let callstacks := takeSaved order self.savedCallstacks
  let self := { self with savedCallstacks := [] }
  let self := self.put (toLe 4 1 ++ toLe 4 callstacks.length)
  let self ← putCallstacks machine callstacks self
  .ok (self.writeEndBlock blockStart 5)

/-- One thread: the size of what follows, its index, and the tagged pid and tid. -/
def threadBytes (thread : SavedPidTidKey × Nat) : List UInt8 :=
  let len := sizeVarint thread.1.pid + sizeVarint thread.1.tid + sizeVarint thread.2 + 2
  toLe 2 len ++ toUleb thread.2 ++ [2] ++ toUleb thread.1.pid ++ [3] ++ toUleb thread.1.tid

def writeThreads (self : NetTraceWriter) : NetTraceWriter :=
  let (blockStart, self) := self.writeStartBlock
  let threads := order.iter SavedPidTidKey self.savedPidTids
  let self := self.put (threads.flatMap threadBytes)
  let self := self.initThreads
  self.writeEndBlock blockStart 6

/-- The ids of the names with a meaning of their own; 0 for those that do not occur. -/
def nameId (name : String) : Nat := (machine.strings.findId name).getD 0

/-- The filter of the walker: only keep supported attributes. -/
def supported (pair : ExportAttributePair) : Bool :=
  match pair.value with
  | .label _ => true
  | .value _ => true
  | .record _ =>
    if pair.name = 0 then false
    else pair.name = nameId machine "ActivityId" ||
      pair.name = nameId machine "RelatedActivityId" ||
      pair.name = nameId machine "TraceId" || pair.name = nameId machine "SpanId"

/-- The kind of a part of a label, with the high bit for the last. -/
def labelKind (isLast : Bool) (kind : Nat) : List UInt8 :=
  [UInt8.ofNat ((if isLast then 128 else 0) ||| kind)]

def attributeBytes (isLast : Bool) (pair : ExportAttributePair) : List UInt8 :=
  let name := (machine.strings.fromId pair.name).getD "???"
  match pair.value with
  | .label id =>
    let value := (machine.strings.fromId id).getD "???"
    labelKind isLast 5 ++ varUtf8 name ++ varUtf8 value
  | .value value =>
    if pair.name = nameId machine "OpCode" then labelKind isLast 7 ++ [UInt8.ofNat value]
    else if pair.name = nameId machine "Version" then
      labelKind isLast 10 ++ [UInt8.ofNat value]
    else labelKind isLast 6 ++ varUtf8 name ++ toUleb value
  | .record id =>
    let record := (machine.tryGetRecordData id).getD []
    if record.length = 16 ∧ pair.name = nameId machine "ActivityId" then
      labelKind isLast 1 ++ record
    else if record.length = 16 ∧ pair.name = nameId machine "RelatedActivityId" then
      labelKind isLast 2 ++ record
    else if record.length = 16 ∧ pair.name = nameId machine "TraceId" then
      labelKind isLast 3 ++ record
    else if record.length = 8 ∧ pair.name = nameId machine "SpanId" then
      labelKind isLast 4 ++ record
    else labelKind isLast 5 ++ varUtf8 "Error" ++ varUtf8 "Unknown Record Attribute"

def attributesBytes : List ExportAttributePair → List UInt8
  | [] => []
  | pair :: pairs =>
    attributeBytes machine pairs.isEmpty pair ++ attributesBytes pairs

def labelBytes (key : SavedLabelKey) : Exec (List UInt8) := do
  let attributes ← walkAttributes (supported machine) machine.attributes key.attributesId
  if attributes.isEmpty then
    .ok (labelKind true 5 ++ varUtf8 "Error" ++ varUtf8 "Expected actual values")
  else .ok (attributesBytes machine attributes)

def putLabels : List SavedLabelKey → NetTraceWriter → Exec NetTraceWriter
  | [], self => .ok self
  | key :: keys, self => do
    let bytes ← labelBytes machine key
    putLabels keys (self.put bytes)

def writeLabels (self : NetTraceWriter) : Exec NetTraceWriter := do
  let (blockStart, self) := self.writeStartBlock
  let labels := takeSaved order self.savedLabels
  let self := { self with savedLabels := [] }
  let self := self.put (toLe 4 1 ++ toLe 4 labels.length)
  let self ← putLabels machine labels self
  .ok (self.writeEndBlock blockStart 8)

def writeEventblockStart (self : NetTraceWriter) (minTime maxTime : Nat) :
    Nat × NetTraceWriter :=
  let (blockStart, self) := self.writeStartBlock
  (blockStart, self.put (toLe 2 20 ++ toLe 2 1 ++ toLe 8 minTime ++ toLe 8 maxTime))

def writeEventblockEnd (self : NetTraceWriter) (blockStart : Nat) : NetTraceWriter :=
  self.writeEndBlock blockStart 2

def flushEventBlock (self : NetTraceWriter) (startTime endTime : Nat) : Exec NetTraceWriter := do
  let self := self.writeSeqBlock startTime
  let self ← self.writeCallstacks order machine
  let self := self.writeThreads order
  let self ← self.writeLabels order machine
  let (blockStart, self) := self.writeEventblockStart startTime endTime
  let self := self.put self.eventBlock
  let self := self.writeEventblockEnd blockStart
  .ok { self with eventBlock := [], flushTime := endTime, lastTime := 0 }

end Flush

/-! ### Events -/

def putEvent (self : NetTraceWriter) (bytes : List UInt8) : NetTraceWriter :=
  { self with eventBlock := self.eventBlock ++ bytes }

def writeEventTimestamp (self : NetTraceWriter) (time : Nat) : NetTraceWriter :=
  let time := if time < self.syncTime then self.syncTime else time
  let time := if time < self.lastTime then self.lastTime else time
  let delta := time - self.lastTime
  { self with lastTime := time }.putEvent (toUleb delta)

def getPidTidId (self : NetTraceWriter) (replay : ExportProcessReplay) : Nat × NetTraceWriter :=
  let tid := match replay.sampleEvent with
    | some sample => sample.tid
    | none => 0
  let (id, savedPidTids) := self.savedPidTids.entry ⟨replay.process.pid, tid⟩
  (id, { self with savedPidTids })

/-- `write_event_blob_from_buffer` up to the flush; `buffer` is the payload. -/
def appendEventBlob (self : NetTraceWriter) (buffer : List UInt8) (metaId cpu : Nat)
    (stackId labelId : Option Nat) (replay : ExportProcessReplay) : NetTraceWriter :=
  let (threadId, self) := self.getPidTidId replay
  let self := self.putEvent ([223] ++ toUleb metaId ++ toUleb 0 ++ toUleb 0 ++ toUleb cpu ++
    toUleb threadId)
  let stackId := match stackId with
    | some stackId => stackId + 1
    | none => 0
  let self := self.putEvent (toUleb stackId)
  let self := self.writeEventTimestamp replay.time
  let labelId := match labelId with
    | some labelId => labelId + 1
    | none => 0
  let self := self.putEvent (toUleb labelId)
  self.putEvent (toUleb buffer.length ++ buffer)

/-- We flush every 1 MB. -/
def flushSize : Nat := 1048576

section Events

variable (order : DrainOrder) (machine : ExportContent)

def writeEventBlobFromBuffer (self : NetTraceWriter) (buffer : List UInt8) (metaId cpu : Nat)
    (stackId labelId : Option Nat) (replay : ExportProcessReplay) : Exec NetTraceWriter :=
  let self := self.appendEventBlob buffer metaId cpu stackId labelId replay
  if self.eventBlock.length ≥ flushSize then
    self.flushEventBlock order machine self.flushTime self.lastTime
  else .ok self

def writeCreatedReplayEvent (self : NetTraceWriter) (replay : ExportProcessReplay) :
    Exec NetTraceWriter :=
  let nsPid := replay.process.nsPid.getD 0
  let name := match replay.process.commId with
    | some id => (machine.strings.fromId id).getD "Unknown"
    | none => "Unknown"
  let buffer := toUleb nsPid ++ shortUtf8 name ++ shortUtf8 "Unknown"
  let id := if replay.time < self.syncTime then self.ids.existingEventId else self.ids.createEventId
  self.writeEventBlobFromBuffer order machine buffer id 0 none none replay

def writeExitedReplayEvent (self : NetTraceWriter) (replay : ExportProcessReplay) :
    Exec NetTraceWriter :=
  self.writeEventBlobFromBuffer order machine [] self.ids.exitEventId 0 none none replay

/-- The event id and the payload of a sample with this value. -/
def samplePayload (self : NetTraceWriter) (sample : ExportProcessSample) (value : Nat) :
    Exec (Nat × List UInt8) :=
  let buffer := toUleb value
  if sample.recordId ≠ 0 then do
    let record ← getAt machine.records sample.recordId
    -- the record type is looked up as well
    let _ ← getAt machine.recordTypes record.recordType
    let eventId := self.ids.recordIdOffset + record.recordType
    let buffer := if eventId ∈ self.ids.originalMetaEventIds then [] else buffer
    .ok (eventId, buffer ++ record.data)
  else .ok (sample.kind + 1, buffer)

/-- Save the call stack and the label for later writing. -/
def saveSample (self : NetTraceWriter) (sample : ExportProcessSample) :
    Nat × Nat × NetTraceWriter :=
  let (callstackId, savedCallstacks) := self.savedCallstacks.entry ⟨sample.ip, sample.callstackId⟩
  let (labelId, savedLabels) := self.savedLabels.entry ⟨sample.attributesId⟩
  (callstackId, labelId, { self with savedCallstacks, savedLabels })

def writeSampleReplayEvent (self : NetTraceWriter) (replay : ExportProcessReplay)
    (sample : ExportProcessSample) : Exec NetTraceWriter := do
  let (callstackId, labelId, self) := self.saveSample sample
  let value ← machine.convert sample.value
  let (eventId, buffer) ← self.samplePayload machine sample value
  self.writeEventBlobFromBuffer order machine buffer eventId sample.cpu (some callstackId)
    (some labelId) replay

/-- The id of the metadata, whether it was written before, and the ids with it. -/
def metadataId (self : NetTraceWriter) (mapping : ProcessMapping) : Nat × Bool × NetTraceWriter :=
  match mapping.node with
  | some node =>
    match self.savedMetaIds.lookup node with
    | some id => (id, true, self)
    | none =>
      let id := self.savedMetaIds.length + 1
      (id, false, { self with savedMetaIds := self.savedMetaIds ++ [(node, id)] })
  | none => (0, true, self)

/-- The two texts of the metadata, empty when there is none. -/
def metadataTexts (mapping : ProcessMapping) : List UInt8 :=
  match machine.getMappingMetadata mapping with
  | some metadata => shortUtf8 metadata.toSymbolMetadata ++ shortUtf8 metadata.toVersionMetadata
  | none => shortUtf8 "" ++ shortUtf8 ""

def writeMappingMetadataEvent (self : NetTraceWriter) (replay : ExportProcessReplay)
    (mapping : ProcessMapping) : Exec (Nat × NetTraceWriter) := do
  let (id, existing, self) := self.metadataId mapping
  if existing then .ok (id, self)
  else do
    let buffer := toUleb id ++ metadataTexts machine mapping
    let self ←
      self.writeEventBlobFromBuffer order machine buffer self.ids.mappingMetaEventId 0 none none replay
    .ok (id, self)

def writeMappingReplayEvent (self : NetTraceWriter) (replay : ExportProcessReplay)
    (mapping : ProcessMapping) : Exec NetTraceWriter := do
  let (metaId, self) ← self.writeMappingMetadataEvent order machine replay mapping
  let name := (machine.strings.fromId mapping.filenameId).getD "Unknown"
  let buffer := toUleb mapping.id ++ toUleb mapping.start ++ toUleb mapping.stop ++
    toUleb mapping.fileOffset ++ shortUtf8 name ++ toUleb metaId ++ metadataTexts machine mapping
  self.writeEventBlobFromBuffer order machine buffer self.ids.mappingEventId 0 none none replay

def nextSymId (self : NetTraceWriter) : NetTraceWriter := { self with symId := self.symId + 1 }

def writeMappingSymbolReplayEvent (self : NetTraceWriter) (replay : ExportProcessReplay)
    (mapping : ProcessMapping) (symbol : ExportSymbol) : Exec NetTraceWriter :=
  let name := (machine.strings.fromId symbol.nameId).getD "Unknown"
  let buffer := toUleb self.symId ++ toUleb mapping.id ++ toUleb symbol.start ++
    toUleb symbol.stop ++ shortUtf8 name
  let self := self.nextSymId
  self.writeEventBlobFromBuffer order machine buffer self.ids.symbolEventId 0 none none replay

/-- `if let Some(x) = ... { write }`. -/
def onSome {α : Type} (x : Option α) (write : α → NetTraceWriter → Exec NetTraceWriter)
    (self : NetTraceWriter) : Exec NetTraceWriter :=
  match x with
  | some a => write a self
  | none => .ok self

def onFlag (flag : Bool) (write : NetTraceWriter → Exec NetTraceWriter) (self : NetTraceWriter) :
    Exec NetTraceWriter :=
  if flag then write self else .ok self

def writeReplayEvent (replay : ExportProcessReplay) (self : NetTraceWriter) :
    Exec NetTraceWriter := do
  let self ← onSome replay.sampleEvent
    (fun sample self => self.writeSampleReplayEvent order machine replay sample) self
  let self ← onFlag replay.createdEvent
    (fun self => self.writeCreatedReplayEvent order machine replay) self
  let self ← onFlag replay.exitedEvent
    (fun self => self.writeExitedReplayEvent order machine replay) self
  onSome replay.mappingEvent (fun mapping self => do
    let self ← self.writeMappingReplayEvent order machine replay mapping
    mapping.symbols.foldlM (fun self symbol =>
      self.writeMappingSymbolReplayEvent order machine replay mapping symbol) self) self

def finish (self : NetTraceWriter) : Exec NetTraceWriter := do
  let endTime := machine.endQpc.getD u64Max
  let self ← onFlag (self.eventBlock ≠ [])
    (fun self => self.flushEventBlock order machine self.flushTime endTime) self
  let self := self.writeSeqBlock endTime
  -- the end of the stream
  .ok (self.put (toLe 4 0))

end Events

end NetTraceWriter

/-! ## Export -/

/-- What the system says about itself. -/
structure SystemInfo where
  qpcFreq : Nat
  cpuCount : Nat
  cpuFreq : Nat
  systemPageSize : Nat
  cpuCount_lt : cpuCount < 2 ^ 32 := by decide
  systemPageSize_lt : systemPageSize < 2 ^ 64 := by decide

/-- What the trace object is written with. -/
def SystemInfo.toTraceInfo (self : SystemInfo) (syncTime : SyncTime) (syncTimeQpc : Nat) :
    NetTraceWriter.TraceInfo where
  syncTime := syncTime
  syncTimeQpc := syncTimeQpc
  qpcFreq := self.qpcFreq
  numOfCpus := self.cpuCount
  sampleFreq := self.cpuFreq
  systemPageSize := self.systemPageSize

/-- The writer before the replay. -/
def ExportContent.startNetTrace (self : ExportContent) (system : SystemInfo) :
    Exec NetTraceWriter := do
  match self.startDate, self.startQpc with
  | none, _ => fail "No start date saved, invoke mark_start()."
  | _, none => fail "No start qpc saved, invoke mark_start()."
  | some syncTime, some syncTimeQpc =>
    let writer ← NetTraceWriter.new.writeTraceObject (system.toTraceInfo syncTime syncTimeQpc)
    .ok (writer.writeMetadataObject self.kinds self.recordTypes)

/-- `to_net_trace`: the bytes of the file. The replay may have `fuel` rounds. -/
def ExportContent.toNetTrace (self : ExportContent) (order : DrainOrder) (system : SystemInfo)
    (predicate : ExportProcess → Bool) (fuel : Nat) : Option (Exec (List UInt8)) :=
  match self.startNetTrace system with
  | .error e => some (.error e)
  | .ok writer =>
    (self.replayByTime predicate
      (fun _ replay writer => writer.writeReplayEvent order self replay) fuel writer).map
      fun result => do
        let writer ← result
        let writer ← writer.finish order self
        .ok writer.output

end OneCollect.Exporting
