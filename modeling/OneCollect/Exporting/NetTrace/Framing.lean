import OneCollect.Exporting.NetTrace.Writer
import OneCollect.Theory.Framing

/-! The blocks of a NetTrace file. The header of a block is patched in once its length is known,
with the length in the low 24 bits. `netTrace_framed_iff` says for which exports a reader that
goes by the headers sees the blocks that were written. -/

namespace OneCollect.Exporting
open Theory

def netTraceFraming : Framing := ⟨24, 4, by decide⟩

namespace NetTraceWriter

/-- What a block adds to the output. -/
def emit (self : NetTraceWriter) (block : Block) : NetTraceWriter :=
  self.put (netTraceFraming.frame block)

def emitAll (self : NetTraceWriter) (blocks : List Block) : NetTraceWriter :=
  self.put (blocks.flatMap netTraceFraming.frame)

theorem put_put (self : NetTraceWriter) (xs ys : List UInt8) :
    (self.put xs).put ys = self.put (xs ++ ys) := by
  rw [put, put, put, List.append_assoc]

/-- **Patching.** A block that was started, filled and ended is a frame of what it was filled
with. -/
theorem writeEndBlock_eq (self : NetTraceWriter) (before body : List UInt8) (kind : Nat)
    (h : self.output = before ++ toLe 4 0 ++ body) :
    self.writeEndBlock (before.length + 4) kind =
      { self with output := before ++ netTraceFraming.frame ⟨kind, body⟩ } := by
  have hlen : self.output.length - (before.length + 4) = body.length := by
    rw [h, List.length_append, List.length_append, length_toLe]
    omega
  have hbefore : self.output.take (before.length + 4 - 4) = before := by
    rw [h, Nat.add_sub_cancel, List.append_assoc, List.take_left]
  have hbody : self.output.drop (before.length + 4) = body := by
    have hreserved : (before ++ toLe 4 0).length = before.length + 4 := by
      rw [List.length_append, length_toLe]
    rw [h, ← hreserved, List.drop_left]
  unfold writeEndBlock updateU32
  dsimp only
  rw [hlen, hbefore, hbody, List.append_assoc]
  rfl

/-- A block that is filled with one text. -/
theorem writeBlock_eq (self : NetTraceWriter) (body : List UInt8) (kind : Nat) :
    (self.writeStartBlock.2.put body).writeEndBlock self.writeStartBlock.1 kind =
      self.emit ⟨kind, body⟩ := by
  have hstart : self.writeStartBlock.1 = self.output.length + 4 := by
    change (self.output ++ toLe 4 0).length = _
    rw [List.length_append, length_toLe]
  rw [hstart, writeEndBlock_eq _ self.output body kind rfl]
  rfl

/-- The body of a sequence block. -/
def seqBody (timeQpc : Nat) : List UInt8 := toLe 8 timeQpc ++ toLe 4 1 ++ toLe 4 0

theorem writeSeqBlock_eq (self : NetTraceWriter) (timeQpc : Nat) :
    self.writeSeqBlock timeQpc = self.emit ⟨4, seqBody timeQpc⟩ :=
  self.writeBlock_eq _ 4

/-- The bytes of some items one after another. -/
def concatBytes {α : Type} (bytes : α → Exec (List UInt8)) : List α → Exec (List UInt8)
  | [] => .ok []
  | item :: items => do
    let first ← bytes item
    let rest ← concatBytes bytes items
    .ok (first ++ rest)

theorem length_concatBytes {α : Type} {bytes : α → Exec (List UInt8)} {size : α → Nat}
    (h : ∀ item text, bytes item = .ok text → text.length = size item) {items : List α}
    {text : List UInt8} (htext : concatBytes bytes items = .ok text) :
    text.length = (items.map size).sum := by
  induction items generalizing text with
  | nil =>
    cases htext
    rfl
  | cons item items ih =>
    obtain ⟨first, hfirst, htext⟩ := bind_eq_ok.mp htext
    obtain ⟨rest, hrest, htext⟩ := bind_eq_ok.mp htext
    cases htext
    rw [List.length_append, h item first hfirst, ih hrest, List.map_cons, List.sum_cons]

section Flush

variable (order : DrainOrder) (machine : ExportContent)

/-- A loop that puts one item after another puts their bytes. -/
theorem putAll_eq {α : Type} {bytesOf : α → Exec (List UInt8)}
    {putAll : List α → NetTraceWriter → Exec NetTraceWriter}
    (hnil : ∀ self, putAll [] self = .ok self)
    (hcons : ∀ item items self,
      putAll (item :: items) self = bytesOf item >>= fun bytes => putAll items (self.put bytes))
    (items : List α) (self : NetTraceWriter) :
    putAll items self = (concatBytes bytesOf items >>= fun bytes => .ok (self.put bytes)) := by
  induction items generalizing self with
  | nil =>
    rw [hnil, concatBytes, ok_bind, put, List.append_nil]
  | cons item items ih =>
    rw [hcons, concatBytes]
    cases bytesOf item with
    | error e => rfl
    | ok first =>
      rw [ok_bind, ok_bind, ih]
      cases concatBytes bytesOf items with
      | error e => rfl
      | ok rest => rw [ok_bind, ok_bind, ok_bind, put_put]

theorem putCallstacks_eq (callstacks : List SavedCallstackKey) (self : NetTraceWriter) :
    putCallstacks machine callstacks self =
      (concatBytes (callstackBytes machine) callstacks >>= fun bytes => .ok (self.put bytes)) :=
  putAll_eq (fun _ => rfl) (fun _ _ _ => rfl) callstacks self

theorem putLabels_eq (keys : List SavedLabelKey) (self : NetTraceWriter) :
    putLabels machine keys self =
      (concatBytes (labelBytes machine) keys >>= fun bytes => .ok (self.put bytes)) :=
  putAll_eq (fun _ => rfl) (fun _ _ _ => rfl) keys self

/-- The body of a stack or a label block: the first id, the count, and the items. -/
def tableBody {α : Type} (items : List α) (text : List UInt8) : List UInt8 :=
  toLe 4 1 ++ toLe 4 items.length ++ text

theorem writeCallstacks_eq (self : NetTraceWriter) :
    self.writeCallstacks order machine =
      (concatBytes (callstackBytes machine) (takeSaved order self.savedCallstacks) >>=
        fun text => .ok ({ self with savedCallstacks := [] }.emit
          ⟨5, tableBody (takeSaved order self.savedCallstacks) text⟩)) := by
  have hsaved : self.writeStartBlock.2.savedCallstacks = self.savedCallstacks := rfl
  unfold writeCallstacks
  dsimp only
  rw [putCallstacks_eq, hsaved]
  cases concatBytes (callstackBytes machine) (takeSaved order self.savedCallstacks) with
  | error e => rfl
  | ok text =>
    rw [ok_bind, ok_bind, ok_bind, put_put]
    exact congrArg _ (writeBlock_eq { self with savedCallstacks := [] } _ 5)

theorem writeThreads_eq (self : NetTraceWriter) :
    self.writeThreads order =
      self.initThreads.emit
        ⟨6, (order.iter SavedPidTidKey self.savedPidTids).flatMap threadBytes⟩ :=
  writeBlock_eq self.initThreads _ 6

theorem writeLabels_eq (self : NetTraceWriter) :
    self.writeLabels order machine =
      (concatBytes (labelBytes machine) (takeSaved order self.savedLabels) >>=
        fun text => .ok ({ self with savedLabels := [] }.emit
          ⟨8, tableBody (takeSaved order self.savedLabels) text⟩)) := by
  have hsaved : self.writeStartBlock.2.savedLabels = self.savedLabels := rfl
  unfold writeLabels
  dsimp only
  rw [putLabels_eq, hsaved]
  cases concatBytes (labelBytes machine) (takeSaved order self.savedLabels) with
  | error e => rfl
  | ok text =>
    rw [ok_bind, ok_bind, ok_bind, put_put]
    exact congrArg _ (writeBlock_eq { self with savedLabels := [] } _ 8)

/-- The body of an event block. -/
def eventBody (minTime maxTime : Nat) (events : List UInt8) : List UInt8 :=
  toLe 2 20 ++ toLe 2 1 ++ toLe 8 minTime ++ toLe 8 maxTime ++ events

theorem writeEventblock_eq (self : NetTraceWriter) (minTime maxTime : Nat) (events : List UInt8) :
    ((self.writeEventblockStart minTime maxTime).2.put events).writeEventblockEnd
        (self.writeEventblockStart minTime maxTime).1 =
      self.emit ⟨2, eventBody minTime maxTime events⟩ := by
  unfold writeEventblockStart writeEventblockEnd
  dsimp only
  rw [put_put]
  exact self.writeBlock_eq _ 2

/-- The blocks of a flush, given the texts of the stacks and the labels. -/
def flushBlocks (self : NetTraceWriter) (startTime endTime : Nat)
    (stackText labelText : List UInt8) : List Block :=
  [⟨4, seqBody startTime⟩,
   ⟨5, tableBody (takeSaved order self.savedCallstacks) stackText⟩,
   ⟨6, (order.iter SavedPidTidKey self.savedPidTids).flatMap threadBytes⟩,
   ⟨8, tableBody (takeSaved order self.savedLabels) labelText⟩,
   ⟨2, eventBody startTime endTime self.eventBlock⟩]

/-- The writer after a flush, but for the output. -/
def flushed (self : NetTraceWriter) (endTime : Nat) : NetTraceWriter :=
  { self with
    eventBlock := []
    lastTime := 0
    flushTime := endTime
    savedLabels := []
    savedCallstacks := []
    savedPidTids := [(⟨0, 0⟩, 0)] }

/-- **Flush.** -/
theorem flushEventBlock_eq (self : NetTraceWriter) (startTime endTime : Nat) :
    self.flushEventBlock order machine startTime endTime =
      (concatBytes (callstackBytes machine) (takeSaved order self.savedCallstacks) >>=
        fun stackText =>
      concatBytes (labelBytes machine) (takeSaved order self.savedLabels) >>= fun labelText =>
        .ok ((self.flushed endTime).emitAll
          (self.flushBlocks order startTime endTime stackText labelText))) := by
  have hstacks : (self.emit ⟨4, seqBody startTime⟩).savedCallstacks = self.savedCallstacks := rfl
  unfold flushEventBlock
  dsimp only
  rw [writeSeqBlock_eq, writeCallstacks_eq, hstacks]
  cases concatBytes (callstackBytes machine) (takeSaved order self.savedCallstacks) with
  | error e => rfl
  | ok stackText =>
    rw [ok_bind, ok_bind, ok_bind, writeThreads_eq, writeLabels_eq]
    change (concatBytes (labelBytes machine) (takeSaved order self.savedLabels) >>= _) >>= _ = _
    cases concatBytes (labelBytes machine) (takeSaved order self.savedLabels) with
    | error e => rfl
    | ok labelText =>
      rw [ok_bind, ok_bind, ok_bind, writeEventblock_eq]
      simp only [emit, emitAll, put, initThreads, flushed, flushBlocks, List.flatMap_cons,
        List.flatMap_nil, List.append_nil, List.append_assoc]
      rfl

end Flush

/-! ## The two blocks before the replay -/

/-- The body of the trace block. -/
def traceBody (info : TraceInfo) : List UInt8 :=
  toLe 2 info.syncTime.year ++ toLe 2 info.syncTime.month ++ toLe 2 info.syncTime.weekday ++
    toLe 2 info.syncTime.day ++ toLe 2 info.syncTime.hour ++ toLe 2 info.syncTime.minute ++
    toLe 2 info.syncTime.second ++ toLe 2 (info.syncTime.nanosecond / 1000000) ++
    toLe 8 info.syncTimeQpc ++ toLe 8 info.qpcFreq ++ toLe 4 8 ++
    (toLe 4 3 ++ varUtf8 "HardwareThreadCount" ++ varUtf8 (toString info.numOfCpus) ++
      varUtf8 "ExpectedCPUSamplingRate" ++ varUtf8 (toString (1000000000 / info.sampleFreq)) ++
      varUtf8 "SystemPageSize" ++ varUtf8 (toString info.systemPageSize))

theorem writeTraceObject_eq_ok {self self' : NetTraceWriter} {info : TraceInfo} :
    self.writeTraceObject info = .ok self' ↔
      info.sampleFreq ≠ 0 ∧
        self' = { self with syncTime := info.syncTimeQpc, flushTime := info.syncTimeQpc }.emit
          ⟨1, traceBody info⟩ := by
  unfold writeTraceObject
  by_cases h : info.sampleFreq = 0
  · rw [if_pos h]
    exact ⟨fun hok => absurd hok (panicked_ne_ok _), fun hok => absurd h hok.1⟩
  · rw [if_neg h, ok_bind]
    dsimp only
    rw [put_put, writeBlock_eq, Except.ok.injEq]
    exact ⟨fun heq => ⟨h, heq.symm⟩, fun heq => heq.2.symm⟩

/-- What one entry of the metadata is written from. -/
structure MetadataEntry where
  metaId : Nat
  provider : String
  eventId : Nat
  eventName : String
  fields : List NetTraceField

def MetadataEntry.bytes (entry : MetadataEntry) : List UInt8 :=
  eventMetadata entry.metaId entry.provider entry.eventId entry.eventName entry.fields

/-- The entries of the sample kinds, numbered from `metaId`. -/
def stackEntries : List String → Nat → List MetadataEntry
  | [], _ => []
  | kind :: kinds, metaId =>
    ⟨metaId, "Universal.Events", metaId, kind, stackEventFields⟩ :: stackEntries kinds (metaId + 1)

def recordEntry (recordType : ExportRecordType) (metaId : Nat) : MetadataEntry :=
  let fields := recordFields recordType.format.fields
  if recordType.isOriginalData then
    ⟨metaId, (originalNames recordType.name).1, recordType.id,
      (originalNames recordType.name).2, fields⟩
  else ⟨metaId, "Universal.Events", metaId, recordType.name, valueField :: fields⟩

def recordEntries : List ExportRecordType → Nat → List MetadataEntry
  | [], _ => []
  | recordType :: recordTypes, metaId =>
    recordEntry recordType metaId :: recordEntries recordTypes (metaId + 1)

/-- The event ids of the record types with original data, the last one first. -/
def originalIds : List ExportRecordType → Nat → List Nat
  | [], _ => []
  | recordType :: recordTypes, metaId =>
    originalIds recordTypes (metaId + 1) ++ if recordType.isOriginalData then [metaId] else []

def systemEntries (metaId : Nat) : List MetadataEntry :=
  [⟨metaId, "Universal.System", 0, "ExistingProcess", processCreateFields⟩,
   ⟨metaId + 1, "Universal.System", 1, "ProcessCreate", processCreateFields⟩,
   ⟨metaId + 2, "Universal.System", 2, "ProcessExit", processExitFields⟩,
   ⟨metaId + 3, "Universal.System", 3, "ProcessMapping", processMappingFields⟩,
   ⟨metaId + 4, "Universal.System", 4, "ProcessSymbol", processSymbolFields⟩,
   ⟨metaId + 5, "Universal.System", 5, "ProcessMappingMetadata", processMappingMetaFields⟩]

/-- All entries of the metadata block. -/
def metadataEntries (kinds : List String) (recordTypes : List ExportRecordType) :
    List MetadataEntry :=
  stackEntries kinds 1 ++ recordEntries recordTypes (1 + kinds.length) ++
    systemEntries (1 + kinds.length + recordTypes.length)

/-- The body of the metadata block. -/
def metadataBody (kinds : List String) (recordTypes : List ExportRecordType) : List UInt8 :=
  toLe 2 0 ++ (metadataEntries kinds recordTypes).flatMap MetadataEntry.bytes

theorem recordMetadata_eq (recordType : ExportRecordType) (metaId : Nat) :
    recordMetadata recordType metaId = (recordEntry recordType metaId).bytes := by
  unfold recordMetadata recordEntry
  by_cases h : recordType.isOriginalData = true
  · simp only [if_pos h]
    rfl
  · simp only [if_neg h]
    rfl

theorem writeStackMetadata_eq (kinds : List String) (metaId : Nat) (self : NetTraceWriter) :
    writeStackMetadata kinds metaId self =
      (metaId + kinds.length,
        self.put ((stackEntries kinds metaId).flatMap MetadataEntry.bytes)) := by
  induction kinds generalizing metaId self with
  | nil =>
    rw [writeStackMetadata, stackEntries, List.flatMap_nil, put, List.append_nil]
    rfl
  | cons kind kinds ih =>
    rw [writeStackMetadata, ih, stackEntries, List.flatMap_cons, put_put, List.length_cons]
    congr 1
    omega

theorem writeRecordMetadata_eq (recordTypes : List ExportRecordType) (metaId : Nat)
    (self : NetTraceWriter) :
    writeRecordMetadata recordTypes metaId self =
      (metaId + recordTypes.length,
        { self with ids := { self.ids with
            originalMetaEventIds :=
              originalIds recordTypes metaId ++ self.ids.originalMetaEventIds } }.put
          ((recordEntries recordTypes metaId).flatMap MetadataEntry.bytes)) := by
  induction recordTypes generalizing metaId self with
  | nil =>
    rw [writeRecordMetadata, recordEntries, List.flatMap_nil, put, List.append_nil]
    rfl
  | cons recordType recordTypes ih =>
    rw [writeRecordMetadata]
    dsimp only
    rw [ih, recordEntries, List.flatMap_cons, ← recordMetadata_eq, originalIds, List.length_cons,
      Nat.add_comm recordTypes.length, ← Nat.add_assoc]
    cases recordType.isOriginalData with
    | false => simp [put]
    | true => simp [put]

/-- The ids that the replay uses, once the metadata is written. -/
def metadataIds (self : NetTraceWriter) (kinds : List String)
    (recordTypes : List ExportRecordType) : MetaIds where
  recordIdOffset := 1 + kinds.length
  existingEventId := 1 + kinds.length + recordTypes.length
  createEventId := 1 + kinds.length + recordTypes.length + 1
  exitEventId := 1 + kinds.length + recordTypes.length + 2
  mappingEventId := 1 + kinds.length + recordTypes.length + 3
  symbolEventId := 1 + kinds.length + recordTypes.length + 4
  mappingMetaEventId := 1 + kinds.length + recordTypes.length + 5
  originalMetaEventIds :=
    originalIds recordTypes (1 + kinds.length) ++ self.ids.originalMetaEventIds

theorem writeMetadataObject_eq (self : NetTraceWriter) (kinds : List String)
    (recordTypes : List ExportRecordType) :
    self.writeMetadataObject kinds recordTypes =
      { self with ids := self.metadataIds kinds recordTypes }.emit
        ⟨3, metadataBody kinds recordTypes⟩ := by
  unfold writeMetadataObject
  dsimp only
  rw [writeStackMetadata_eq]
  dsimp only
  rw [writeRecordMetadata_eq]
  dsimp only
  rw [← writeBlock_eq]
  refine congrArg (fun writer => writeEndBlock writer self.writeStartBlock.1 3) ?_
  simp only [writeSystemMetadata, put, writeStartBlock, reserveU32, metadataIds, metadataBody,
    metadataEntries, systemEntries, systemMetadata, MetadataEntry.bytes, List.flatMap_append,
    List.flatMap_cons, List.flatMap_nil, List.append_nil, List.append_assoc]

/-! ## Runs -/

/-- How the writer gets from one state to another: the flushes on the way, each with the state
before it and its end time. Between them the output stays as it is. -/
inductive Flushes (order : DrainOrder) (machine : ExportContent) (start : NetTraceWriter) :
    List (NetTraceWriter × Nat) → NetTraceWriter → Prop
  | refl : Flushes order machine start [] start
  | keep {flushes : List (NetTraceWriter × Nat)} {writer writer' : NetTraceWriter} :
      Flushes order machine start flushes writer → writer'.output = writer.output →
      Flushes order machine start flushes writer'
  | flush {flushes : List (NetTraceWriter × Nat)} {writer writer' : NetTraceWriter}
      {endTime : Nat} :
      Flushes order machine start flushes writer →
      writer.flushEventBlock order machine writer.flushTime endTime = .ok writer' →
      Flushes order machine start (flushes ++ [(writer, endTime)]) writer'

/-- Some flushes lead from one state to the other. -/
def Leads (order : DrainOrder) (machine : ExportContent) (writer writer' : NetTraceWriter) : Prop :=
  ∃ flushes, Flushes order machine writer flushes writer'

section Runs

variable {order : DrainOrder} {machine : ExportContent} {self self' : NetTraceWriter}
  {start writer writer' : NetTraceWriter} {flushes flushes' : List (NetTraceWriter × Nat)}

theorem Flushes.trans (h : Flushes order machine start flushes writer)
    (h' : Flushes order machine writer flushes' writer') :
    Flushes order machine start (flushes ++ flushes') writer' := by
  induction h' with
  | refl => rwa [List.append_nil]
  | keep _ hsame ih => exact ih.keep hsame
  | flush _ hflush ih =>
    rw [← List.append_assoc]
    exact ih.flush hflush

theorem Leads.refl : Leads order machine self self := ⟨[], .refl⟩

theorem Leads.trans (h : Leads order machine start writer)
    (h' : Leads order machine writer writer') : Leads order machine start writer' := by
  obtain ⟨flushes, h⟩ := h
  obtain ⟨flushes', h'⟩ := h'
  exact ⟨flushes ++ flushes', h.trans h'⟩

theorem leads_keep (h : self'.output = self.output) : Leads order machine self self' :=
  ⟨[], .keep .refl h⟩

theorem leads_flush {endTime : Nat}
    (h : self.flushEventBlock order machine self.flushTime endTime = .ok self') :
    Leads order machine self self' :=
  ⟨[] ++ [(self, endTime)], .flush .refl h⟩

/-! Each part of the replay leads from the writer before it to the one after it. -/

theorem leads_writeEventBlob {buffer : List UInt8} {metaId cpu : Nat}
    {stackId labelId : Option Nat} {replay : ExportProcessReplay}
    (h : self.writeEventBlobFromBuffer order machine buffer metaId cpu stackId labelId replay =
      .ok self') : Leads order machine self self' := by
  have hkeep : Leads order machine self
      (self.appendEventBlob buffer metaId cpu stackId labelId replay) := leads_keep rfl
  unfold writeEventBlobFromBuffer at h
  dsimp only at h
  split at h
  · exact hkeep.trans (leads_flush h)
  · cases h
    exact hkeep

theorem leads_writeSample {replay : ExportProcessReplay} {sample : ExportProcessSample}
    (h : self.writeSampleReplayEvent order machine replay sample = .ok self') :
    Leads order machine self self' := by
  obtain ⟨value, -, h⟩ := bind_eq_ok.mp h
  obtain ⟨⟨eventId, buffer⟩, -, h⟩ := bind_eq_ok.mp h
  have hkeep : Leads order machine self (self.saveSample sample).2.2 := leads_keep rfl
  exact hkeep.trans (leads_writeEventBlob h)

theorem leads_writeSymbol {replay : ExportProcessReplay} {mapping : ProcessMapping}
    {symbol : ExportSymbol}
    (h : self.writeMappingSymbolReplayEvent order machine replay mapping symbol = .ok self') :
    Leads order machine self self' := by
  have hkeep : Leads order machine self self.nextSymId := leads_keep rfl
  exact hkeep.trans (leads_writeEventBlob h)

theorem leads_writeMappingMetadata {replay : ExportProcessReplay} {mapping : ProcessMapping}
    {id : Nat}
    (h : self.writeMappingMetadataEvent order machine replay mapping = .ok (id, self')) :
    Leads order machine self self' := by
  have hkeep : Leads order machine self (self.metadataId mapping).2.2 := by
    refine leads_keep ?_
    unfold metadataId
    split
    · split <;> rfl
    · rfl
  unfold writeMappingMetadataEvent at h
  dsimp only at h
  split at h
  · cases h
    exact hkeep
  · obtain ⟨writer, hwrite, h⟩ := bind_eq_ok.mp h
    cases h
    exact hkeep.trans (leads_writeEventBlob hwrite)

theorem leads_writeMapping {replay : ExportProcessReplay} {mapping : ProcessMapping}
    (h : self.writeMappingReplayEvent order machine replay mapping = .ok self') :
    Leads order machine self self' := by
  obtain ⟨⟨id, writer⟩, hmetadata, h⟩ := bind_eq_ok.mp h
  exact (leads_writeMappingMetadata hmetadata).trans (leads_writeEventBlob h)

/-- A loop leads where its turns do. -/
theorem leads_foldlM {α : Type} {step : NetTraceWriter → α → Exec NetTraceWriter}
    (hstep : ∀ writer writer' item, step writer item = .ok writer' →
      Leads order machine writer writer') {items : List α}
    (h : items.foldlM step self = .ok self') : Leads order machine self self' := by
  induction items generalizing self with
  | nil =>
    cases h
    exact .refl
  | cons item items ih =>
    rw [List.foldlM_cons] at h
    obtain ⟨writer, hitem, h⟩ := bind_eq_ok.mp h
    exact (hstep _ _ _ hitem).trans (ih h)

theorem leads_onSome {α : Type} {x : Option α}
    {write : α → NetTraceWriter → Exec NetTraceWriter}
    (hwrite : ∀ a writer writer', write a writer = .ok writer' →
      Leads order machine writer writer') (h : onSome x write self = .ok self') :
    Leads order machine self self' := by
  cases x with
  | none =>
    cases h
    exact .refl
  | some a => exact hwrite a self self' h

theorem leads_onFlag {flag : Bool} {write : NetTraceWriter → Exec NetTraceWriter}
    (hwrite : ∀ writer writer', write writer = .ok writer' →
      Leads order machine writer writer') (h : onFlag flag write self = .ok self') :
    Leads order machine self self' := by
  cases flag with
  | false =>
    cases h
    exact .refl
  | true => exact hwrite self self' h

theorem leads_writeReplayEvent {replay : ExportProcessReplay}
    (h : self.writeReplayEvent order machine replay = .ok self') :
    Leads order machine self self' := by
  obtain ⟨writer₁, hsample, h⟩ := bind_eq_ok.mp h
  obtain ⟨writer₂, hcreated, h⟩ := bind_eq_ok.mp h
  obtain ⟨writer₃, hexited, h⟩ := bind_eq_ok.mp h
  have h₁ : Leads order machine self writer₁ :=
    leads_onSome (fun _ _ _ h => leads_writeSample h) hsample
  have h₂ : Leads order machine writer₁ writer₂ :=
    leads_onFlag (fun _ _ h => leads_writeEventBlob h) hcreated
  have h₃ : Leads order machine writer₂ writer₃ :=
    leads_onFlag (fun _ _ h => leads_writeEventBlob h) hexited
  have h₄ : Leads order machine writer₃ self' := by
    refine leads_onSome (fun mapping writer writer' h => ?_) h
    obtain ⟨writer₄, hmapping, h⟩ := bind_eq_ok.mp h
    exact (leads_writeMapping hmapping).trans
      (leads_foldlM (fun _ _ _ hsymbol => leads_writeSymbol hsymbol) h)
  exact h₁.trans (h₂.trans (h₃.trans h₄))

end Runs

/-! ## Sizes -/

theorem sizeVarintLoop_eq (fuel value size : Nat) :
    sizeVarintLoop fuel value size + 1 = size + (ulebBytes fuel value).length := by
  induction fuel generalizing value size with
  | zero => rfl
  | succ fuel ih =>
    rw [sizeVarintLoop, ulebBytes]
    by_cases h : value < 128
    · rw [if_neg (not_le.mpr h), if_pos h]
      rfl
    · rw [if_pos (not_lt.mp h), if_neg h, ih, List.length_cons]
      omega

/-- `size_varint` is the length of what `write_varint` writes. -/
theorem length_toUleb (value : Nat) : (toUleb value).length = sizeVarint value := by
  have hloop := sizeVarintLoop_eq value value 1
  unfold toUleb sizeVarint
  omega

theorem length_varUtf8 (value : String) : (varUtf8 value).length = sizeUtf8 value := by
  rw [varUtf8, List.length_append, length_toUleb, sizeUtf8, Nat.add_comm]

/-- The size of one stack in its block. -/
def callstackSize (machine : ExportContent) (callstack : SavedCallstackKey) : Nat :=
  12 + 8 * ((machine.callstacks.fromId callstack.sampleId).getD []).length

def threadSize (thread : SavedPidTidKey × Nat) : Nat :=
  4 + sizeVarint thread.2 + sizeVarint thread.1.pid + sizeVarint thread.1.tid

def attributeSize (machine : ExportContent) (pair : ExportAttributePair) : Nat :=
  let name := (machine.strings.fromId pair.name).getD "???"
  match pair.value with
  | .label id => 1 + sizeUtf8 name + sizeUtf8 ((machine.strings.fromId id).getD "???")
  | .value value =>
    if pair.name = nameId machine "OpCode" ∨ pair.name = nameId machine "Version" then 2
    else 1 + sizeUtf8 name + sizeVarint value
  | .record id =>
    let length := ((machine.tryGetRecordData id).getD []).length
    if length = 16 ∧ (pair.name = nameId machine "ActivityId" ∨
        pair.name = nameId machine "RelatedActivityId" ∨ pair.name = nameId machine "TraceId") then
      17
    else if length = 8 ∧ pair.name = nameId machine "SpanId" then 9
    else 1 + sizeUtf8 "Error" + sizeUtf8 "Unknown Record Attribute"

/-- The size of one label: that of its attributes, or of the error in their place. -/
def labelSize (machine : ExportContent) (key : SavedLabelKey) : Nat :=
  match walkAttributes (supported machine) machine.attributes key.attributesId with
  | .ok [] => 1 + sizeUtf8 "Error" + sizeUtf8 "Expected actual values"
  | .ok pairs => (pairs.map (attributeSize machine)).sum
  | .error _ => 0

section Sizes

variable {machine : ExportContent}

theorem length_callstackBytes (callstack : SavedCallstackKey) (text : List UInt8)
    (h : callstackBytes machine callstack = .ok text) :
    text.length = callstackSize machine callstack := by
  unfold callstackBytes at h
  unfold callstackSize
  cases hips : machine.callstacks.fromId callstack.sampleId with
  | none =>
    rw [hips] at h
    exact absurd h (fail_ne_ok _ _)
  | some ips =>
    rw [hips] at h
    cases h
    rw [List.length_append, List.length_append, length_toLe, length_toLe, length_flatMap_toLe]
    rfl

theorem length_threadBytes (thread : SavedPidTidKey × Nat) :
    (threadBytes thread).length = threadSize thread := by
  simp only [threadBytes, threadSize, List.length_append, length_toLe, length_toUleb,
    List.length_singleton]
  omega

theorem length_labelKind (isLast : Bool) (kind : Nat) : (labelKind isLast kind).length = 1 := rfl

theorem length_attributeBytes (isLast : Bool) (pair : ExportAttributePair) :
    (attributeBytes machine isLast pair).length = attributeSize machine pair := by
  unfold attributeBytes attributeSize
  cases hvalue : pair.value with
  | label id =>
    simp only [List.length_append, length_labelKind, length_varUtf8]
  | value value =>
    dsimp only
    by_cases hop : pair.name = nameId machine "OpCode"
    · rw [if_pos hop, if_pos (.inl hop)]
      rfl
    · by_cases hversion : pair.name = nameId machine "Version"
      · rw [if_neg hop, if_pos hversion, if_pos (.inr hversion)]
        rfl
      · rw [if_neg hop, if_neg hversion, if_neg (not_or.mpr ⟨hop, hversion⟩)]
        simp only [List.length_append, length_labelKind, length_varUtf8, length_toUleb]
  | record id =>
    dsimp only
    split_ifs <;> simp only [List.length_append, length_labelKind, length_varUtf8] <;> grind

theorem length_attributesBytes (pairs : List ExportAttributePair) :
    (attributesBytes machine pairs).length = (pairs.map (attributeSize machine)).sum := by
  induction pairs with
  | nil => rfl
  | cons pair pairs ih =>
    rw [attributesBytes, List.length_append, length_attributeBytes, ih, List.map_cons,
      List.sum_cons]

theorem length_labelBytes (key : SavedLabelKey) (text : List UInt8)
    (h : labelBytes machine key = .ok text) : text.length = labelSize machine key := by
  obtain ⟨pairs, hpairs, h⟩ := bind_eq_ok.mp h
  unfold labelSize
  rw [hpairs]
  cases pairs with
  | nil =>
    cases h
    simp only [List.length_append, length_labelKind, length_varUtf8]
  | cons pair pairs =>
    cases h
    exact length_attributesBytes (pair :: pairs)

/-- The sizes do not depend on the order in which the keys are drained. -/
theorem sum_takeSaved {κ : Type} (order : DrainOrder) (saved : Saved κ) (size : κ → Nat) :
    ((takeSaved order saved).map size).sum = (saved.map fun entry => size entry.1).sum := by
  have hperm := (List.perm_insertionSort (fun a b : κ × Nat => a.2 ≤ b.2)
    (order.iter κ saved)).trans (order.perm κ saved)
  rw [takeSaved, List.map_map]
  exact (hperm.map _).sum_eq

/-- What a flush writes fits in the lengths of its blocks. -/
structure Fits (machine : ExportContent) (writer : NetTraceWriter) : Prop where
  callstacks :
    8 + (writer.savedCallstacks.map fun entry => callstackSize machine entry.1).sum < 2 ^ 24
  threads : (writer.savedPidTids.map threadSize).sum < 2 ^ 24
  labels : 8 + (writer.savedLabels.map fun entry => labelSize machine entry.1).sum < 2 ^ 24
  events : 20 + writer.eventBlock.length < 2 ^ 24

theorem length_tableBody {α : Type} (items : List α) (text : List UInt8) :
    (tableBody items text).length = 8 + text.length := by
  rw [tableBody, List.length_append, List.length_append, length_toLe, length_toLe]

/-- **One flush.** -/
theorem flushBlocks_iff {order : DrainOrder} {writer : NetTraceWriter} {startTime endTime : Nat}
    {stackText labelText : List UInt8}
    (hstacks : concatBytes (callstackBytes machine) (takeSaved order writer.savedCallstacks) =
      .ok stackText)
    (hlabels : concatBytes (labelBytes machine) (takeSaved order writer.savedLabels) =
      .ok labelText) :
    (∀ b ∈ writer.flushBlocks order startTime endTime stackText labelText,
      b.body.length < 2 ^ 24) ↔ writer.Fits machine := by
  have hstack := length_concatBytes length_callstackBytes hstacks
  have hlabel := length_concatBytes length_labelBytes hlabels
  have hthreads : ((order.iter SavedPidTidKey writer.savedPidTids).flatMap threadBytes).length =
      (writer.savedPidTids.map threadSize).sum := by
    rw [List.length_flatMap, ((order.perm _ _).map _).sum_eq]
    simp only [length_threadBytes]
  rw [sum_takeSaved] at hstack hlabel
  simp only [flushBlocks, List.forall_mem_cons, length_tableBody, hstack, hlabel, hthreads,
    seqBody, eventBody, List.length_append, length_toLe]
  constructor
  · rintro ⟨-, hstacks, hthreads, hlabels, hevents, -⟩
    exact ⟨hstacks, hthreads, hlabels, by omega⟩
  · rintro ⟨hstacks, hthreads, hlabels, hevents⟩
    exact ⟨by decide, hstacks, hthreads, hlabels, by omega, fun _ h => absurd h List.not_mem_nil⟩

end Sizes

def fieldSize (field : NetTraceField) : Nat :=
  3 + sizeUtf8 field.name + if field.typeId = TypeId.array then 1 else 0

/-- The size of an entry of the metadata: its ids, names and fields, and the guid that may stand
behind the provider. -/
def MetadataEntry.size (entry : MetadataEntry) : Nat :=
  let provider := splitProvider entry.provider
  4 + sizeVarint entry.metaId + sizeUtf8 provider.1 + sizeVarint entry.eventId +
    sizeUtf8 entry.eventName + (entry.fields.map fieldSize).sum +
    if provider.2.isSome then 19 else 2

def metadataSize (kinds : List String) (recordTypes : List ExportRecordType) : Nat :=
  2 + ((metadataEntries kinds recordTypes).map MetadataEntry.size).sum

/-- A name of a sample kind counts in full. -/
theorem sizeUtf8_le_metadataSize (kind : String) (kinds : List String)
    (recordTypes : List ExportRecordType) :
    sizeUtf8 kind ≤ metadataSize (kind :: kinds) recordTypes := by
  unfold metadataSize metadataEntries
  rw [stackEntries, List.cons_append, List.cons_append, List.map_cons, List.sum_cons]
  simp only [MetadataEntry.size]
  omega

theorem length_fieldMetadata (field : NetTraceField) :
    (fieldMetadata field).length = fieldSize field := by
  unfold fieldMetadata fieldSize
  simp only [List.length_append, length_toLe, length_varUtf8]
  split_ifs
  · simp only [List.length_singleton]
    omega
  · simp only [List.length_singleton, List.length_nil]
    omega

theorem length_guidBytes (uuid : Nat) : (guidBytes uuid).length = 16 := by
  simp only [guidBytes, List.length_append, length_toLe, List.length_reverse]

theorem MetadataEntry.length_bytes (entry : MetadataEntry) : entry.bytes.length = entry.size := by
  have hfields : (entry.fields.flatMap fieldMetadata).length =
      (entry.fields.map fieldSize).sum := by
    rw [List.length_flatMap]
    simp only [length_fieldMetadata]
  unfold MetadataEntry.bytes MetadataEntry.size eventMetadata
  dsimp only
  simp only [List.length_append, length_toLe, length_varUtf8, length_toUleb, hfields]
  cases (splitProvider entry.provider).2 with
  | none =>
    simp only [length_toLe, Option.isSome_none, Bool.false_eq_true, if_false]
    omega
  | some guid =>
    simp only [List.length_append, length_toLe, length_guidBytes, List.length_singleton,
      Option.isSome_some, if_true]
    omega

theorem length_metadataBody (kinds : List String) (recordTypes : List ExportRecordType) :
    (metadataBody kinds recordTypes).length = metadataSize kinds recordTypes := by
  rw [metadataBody, List.length_append, length_toLe, List.length_flatMap, metadataSize]
  simp only [MetadataEntry.length_bytes]

theorem sizeVarint_of_lt {n : Nat} (h : n < 128) : sizeVarint n = 1 := by
  unfold sizeVarint
  cases n with
  | zero => rfl
  | succ n => rw [sizeVarintLoop, if_neg (not_le.mpr h)]

theorem length_utf8_ofList (text : List Char) :
    (utf8 (String.ofList text)).length = (text.flatMap String.utf8EncodeChar).length := by
  simp [utf8, List.utf8Encode]

theorem length_utf8_ofList_le (text : List Char) :
    (utf8 (String.ofList text)).length ≤ 4 * text.length := by
  rw [length_utf8_ofList]
  induction text with
  | nil => exact Nat.zero_le _
  | cons c text ih =>
    have hc := c.utf8Size_le_four
    rw [List.flatMap_cons, List.length_append, String.length_utf8EncodeChar, List.length_cons]
    omega

theorem le_length_utf8_ofList (text : List Char) :
    text.length ≤ (utf8 (String.ofList text)).length := by
  rw [length_utf8_ofList]
  induction text with
  | nil => exact Nat.zero_le _
  | cons c text ih =>
    have hc := c.utf8Size_pos
    rw [List.flatMap_cons, List.length_append, String.length_utf8EncodeChar, List.length_cons]
    omega

/-- The digits of a number take few bytes. -/
theorem sizeUtf8_toString_le {n : Nat} (h : n < 10 ^ 20) : sizeUtf8 (toString n) ≤ 81 := by
  have hdigits := (Nat.length_toDigits_le_iff (b := 10) (k := 20) (by decide) (by decide)).mpr h
  have hbytes := length_utf8_ofList_le (Nat.toDigits 10 n)
  rw [Nat.toString_eq_ofList_toDigits, sizeUtf8, sizeVarint_of_lt (by omega)]
  omega

/-- The trace block is always small. -/
theorem length_traceBody_lt (system : SystemInfo) (syncTime : SyncTime) (syncTimeQpc : Nat) :
    (traceBody (system.toTraceInfo syncTime syncTimeQpc)).length < 2 ^ 24 := by
  have hcpus := @sizeUtf8_toString_le system.cpuCount
    (lt_of_lt_of_le system.cpuCount_lt (by decide))
  have hpages := @sizeUtf8_toString_le system.systemPageSize
    (lt_of_lt_of_le system.systemPageSize_lt (by decide))
  have hnanos := @sizeUtf8_toString_le (1000000000 / system.cpuFreq)
    (lt_of_le_of_lt (Nat.div_le_self _ _) (by decide))
  have hnames : sizeUtf8 "HardwareThreadCount" + sizeUtf8 "ExpectedCPUSamplingRate" +
      sizeUtf8 "SystemPageSize" ≤ 100 := by decide
  simp only [traceBody, SystemInfo.toTraceInfo, List.length_append, length_toLe, length_varUtf8]
  omega

/-! ## The file -/

/-- The blocks of one flush of a run. -/
def blocksOf (order : DrainOrder) (machine : ExportContent) (flush : NetTraceWriter × Nat) :
    List Block :=
  match concatBytes (callstackBytes machine) (takeSaved order flush.1.savedCallstacks),
    concatBytes (labelBytes machine) (takeSaved order flush.1.savedLabels) with
  | .ok stackText, .ok labelText =>
    flush.1.flushBlocks order flush.1.flushTime flush.2 stackText labelText
  | _, _ => []

section File

variable {order : DrainOrder} {machine : ExportContent} {start writer writer' : NetTraceWriter}
  {flushes : List (NetTraceWriter × Nat)}

theorem flush_eq_ok {endTime : Nat}
    (h : writer.flushEventBlock order machine writer.flushTime endTime = .ok writer') :
    writer' = (writer.flushed endTime).emitAll (blocksOf order machine (writer, endTime)) ∧
      ((∀ b ∈ blocksOf order machine (writer, endTime), b.body.length < 2 ^ 24) ↔
        writer.Fits machine) := by
  rw [flushEventBlock_eq] at h
  obtain ⟨stackText, hstacks, h⟩ := bind_eq_ok.mp h
  obtain ⟨labelText, hlabels, h⟩ := bind_eq_ok.mp h
  have hblocks : blocksOf order machine (writer, endTime) =
      writer.flushBlocks order writer.flushTime endTime stackText labelText := by
    unfold blocksOf
    simp only [hstacks, hlabels]
  rw [hblocks]
  exact ⟨(Except.ok.inj h).symm, flushBlocks_iff hstacks hlabels⟩

theorem Flushes.output (h : Flushes order machine start flushes writer) :
    writer.output = start.output ++
      (flushes.flatMap (blocksOf order machine)).flatMap netTraceFraming.frame := by
  induction h with
  | refl => exact (List.append_nil _).symm
  | keep _ hsame ih => rw [hsame, ih]
  | flush _ hflush ih =>
    obtain ⟨rfl, -⟩ := flush_eq_ok hflush
    rw [List.flatMap_append, List.flatMap_append, ← List.append_assoc, ← ih,
      List.flatMap_singleton]
    rfl

theorem Flushes.fits_iff (h : Flushes order machine start flushes writer) :
    (∀ b ∈ flushes.flatMap (blocksOf order machine), b.body.length < 2 ^ 24) ↔
      ∀ flush ∈ flushes, flush.1.Fits machine := by
  induction h with
  | refl => simp
  | keep _ _ ih => exact ih
  | flush _ hflush ih =>
    rw [List.flatMap_append, List.forall_mem_append, List.forall_mem_append, ih,
      List.flatMap_singleton, (flush_eq_ok hflush).2, List.forall_mem_singleton]

end File

end NetTraceWriter

open NetTraceWriter

namespace ExportContent

variable {self : ExportContent} {order : DrainOrder} {system : SystemInfo}

/-- The blocks of a file, in the order they are written. -/
def fileBlocks (self : ExportContent) (order : DrainOrder) (system : SystemInfo)
    (flushes : List (NetTraceWriter × Nat)) : List Block :=
  match self.startDate, self.startQpc with
  | some syncTime, some syncTimeQpc =>
    ⟨1, traceBody (system.toTraceInfo syncTime syncTimeQpc)⟩ ::
      ⟨3, metadataBody self.kinds self.recordTypes⟩ ::
      (flushes.flatMap (blocksOf order self) ++ [⟨4, seqBody (self.endQpc.getD u64Max)⟩])
  | _, _ => []

/-- The bytes before the first block. -/
def fileHeader : List UInt8 := utf8 "Nettrace" ++ toLe 4 0 ++ toLe 4 6 ++ toLe 4 0

theorem startNetTrace_output {writer : NetTraceWriter}
    (h : self.startNetTrace system = .ok writer) :
    ∃ syncTime syncTimeQpc, self.startDate = some syncTime ∧ self.startQpc = some syncTimeQpc ∧
      writer.output = fileHeader ++
        [(⟨1, traceBody (system.toTraceInfo syncTime syncTimeQpc)⟩ : Block),
          ⟨3, metadataBody self.kinds self.recordTypes⟩].flatMap netTraceFraming.frame := by
  unfold startNetTrace at h
  cases hdate : self.startDate with
  | none =>
    rw [hdate] at h
    cases h
  | some syncTime =>
    cases hqpc : self.startQpc with
    | none =>
      rw [hdate, hqpc] at h
      cases h
    | some syncTimeQpc =>
      rw [hdate, hqpc] at h
      dsimp only at h
      obtain ⟨traced, htrace, h⟩ := bind_eq_ok.mp h
      obtain ⟨-, rfl⟩ := writeTraceObject_eq_ok.mp htrace
      cases h
      refine ⟨syncTime, syncTimeQpc, rfl, rfl, ?_⟩
      rw [writeMetadataObject_eq]
      simp only [emit, put, new, init, initThreads, fileHeader, List.nil_append, List.flatMap_cons,
        List.flatMap_nil, List.append_nil, List.append_assoc]

theorem finish_output {writer writer' : NetTraceWriter}
    (h : writer.finish order self = .ok writer') :
    ∃ flushes last, Flushes order self writer flushes last ∧
      writer'.output = last.output ++
        (netTraceFraming.frame ⟨4, seqBody (self.endQpc.getD u64Max)⟩ ++
          netTraceFraming.zeroWord) := by
  obtain ⟨last, hflush, h⟩ := bind_eq_ok.mp h
  have hlast : Leads order self writer last :=
    leads_onFlag (fun _ _ h => leads_flush h) hflush
  obtain ⟨flushes, hflushes⟩ := hlast
  refine ⟨flushes, last, hflushes, ?_⟩
  dsimp only at h
  rw [writeSeqBlock_eq] at h
  cases h
  exact List.append_assoc _ _ _

/-- An export is a start, some flushes, and the end. -/
theorem toNetTrace_eq_ok {predicate : ExportProcess → Bool} {fuel : Nat} {bytes : List UInt8}
    (h : self.toNetTrace order system predicate fuel = some (.ok bytes)) :
    ∃ writer flushes last, self.startNetTrace system = .ok writer ∧
      Flushes order self writer flushes last ∧
      bytes = fileHeader ++ ((self.fileBlocks order system flushes).flatMap netTraceFraming.frame ++
        (netTraceFraming.zeroWord ++ [])) := by
  unfold toNetTrace at h
  cases hstart : self.startNetTrace system with
  | error e =>
    rw [hstart] at h
    cases h
  | ok writer =>
    rw [hstart] at h
    obtain ⟨result, hreplay, h⟩ := Option.map_eq_some_iff.mp h
    obtain ⟨replayed, rfl, h⟩ := bind_eq_ok.mp h
    have hend : (replayed.finish order self >>= fun writer => .ok writer.output) =
      (.ok bytes : Exec (List UInt8)) := h
    obtain ⟨finished, hfinish, hbytes⟩ := bind_eq_ok.mp hend
    cases hbytes
    have hleads : Leads order self writer replayed :=
      replayLoop_relates (R := Leads order self) (fun _ => .refl) (fun _ _ _ h h' => h.trans h')
        (fun _ _ _ h => leads_writeReplayEvent h) hreplay
    obtain ⟨flushes, hflushes⟩ := hleads
    obtain ⟨flushes', last, hflushes', houtput⟩ := finish_output hfinish
    obtain ⟨syncTime, syncTimeQpc, hdate, hqpc, hstarted⟩ := startNetTrace_output hstart
    refine ⟨writer, flushes ++ flushes', last, rfl, hflushes.trans hflushes', ?_⟩
    rw [houtput, (hflushes.trans hflushes').output, hstarted, fileBlocks, hdate, hqpc]
    simp only [List.flatMap_cons, List.flatMap_append, List.flatMap_nil, List.append_nil,
      List.append_assoc]

/-- Each header is right, and the reader that skips by them sees the blocks and then the end. -/
structure Framed (bytes : List UInt8) (blocks : List Block) : Prop where
  headers : ∀ b ∈ blocks, netTraceFraming.HeaderRight b
  visited : netTraceFraming.visit (blocks.length + 1) (bytes.drop fileHeader.length) = some blocks

theorem kindFits_blocksOf (flush : NetTraceWriter × Nat) :
    ∀ b ∈ blocksOf order self flush, netTraceFraming.KindFits b.kind := by
  unfold blocksOf
  split
  · simp only [flushBlocks, List.forall_mem_cons]
    exact ⟨by decide, by decide, by decide, by decide, by decide,
      fun _ h => absurd h List.not_mem_nil⟩
  · exact fun _ h => absurd h List.not_mem_nil

theorem kindFits_fileBlocks (flushes : List (NetTraceWriter × Nat)) :
    ∀ b ∈ self.fileBlocks order system flushes, netTraceFraming.KindFits b.kind := by
  have hflushes : ∀ b ∈ flushes.flatMap (blocksOf order self),
      netTraceFraming.KindFits b.kind := by
    intro b hb
    obtain ⟨flush, -, hb⟩ := List.mem_flatMap.mp hb
    exact kindFits_blocksOf flush b hb
  unfold fileBlocks
  split
  · simp only [List.forall_mem_cons, List.forall_mem_append]
    exact ⟨by decide, by decide, hflushes, by decide, fun _ h => absurd h List.not_mem_nil⟩
  · exact fun _ h => absurd h List.not_mem_nil

theorem length_fileBlocks_iff {writer last : NetTraceWriter}
    {flushes : List (NetTraceWriter × Nat)} (hstart : self.startNetTrace system = .ok writer)
    (hflushes : Flushes order self writer flushes last) :
    (∀ b ∈ self.fileBlocks order system flushes, b.body.length < 2 ^ 24) ↔
      metadataSize self.kinds self.recordTypes < 2 ^ 24 ∧
        ∀ flush ∈ flushes, flush.1.Fits self := by
  obtain ⟨syncTime, syncTimeQpc, hdate, hqpc, -⟩ := startNetTrace_output hstart
  rw [fileBlocks, hdate, hqpc]
  simp only [List.forall_mem_cons, List.forall_mem_append, length_metadataBody,
    hflushes.fits_iff]
  constructor
  · rintro ⟨-, hmetadata, hfits, -⟩
    exact ⟨hmetadata, hfits⟩
  · rintro ⟨hmetadata, hfits⟩
    refine ⟨length_traceBody_lt system syncTime syncTimeQpc, hmetadata, hfits, ?_,
      fun _ h => absurd h List.not_mem_nil⟩
    simp only [seqBody, List.length_append, length_toLe]
    decide

/-- **Framing.** An export is the header and the blocks as they were written. A reader that goes
by the lengths sees them if and only if the metadata, and the stacks, threads, labels and events
of each flush, take less than 16 MB each. -/
theorem netTrace_framed_iff {predicate : ExportProcess → Bool} {fuel : Nat} {bytes : List UInt8}
    (h : self.toNetTrace order system predicate fuel = some (.ok bytes)) :
    ∃ writer flushes last, self.startNetTrace system = .ok writer ∧
      Flushes order self writer flushes last ∧
      bytes = fileHeader ++ ((self.fileBlocks order system flushes).flatMap netTraceFraming.frame ++
        (netTraceFraming.zeroWord ++ [])) ∧
      (Framed bytes (self.fileBlocks order system flushes) ↔
        metadataSize self.kinds self.recordTypes < 2 ^ 24 ∧
          ∀ flush ∈ flushes, flush.1.Fits self) := by
  obtain ⟨writer, flushes, last, hstart, hflushes, hbytes⟩ := toNetTrace_eq_ok h
  refine ⟨writer, flushes, last, hstart, hflushes, hbytes, ?_⟩
  have hvisit := @Framing.visit_iff netTraceFraming (self.fileBlocks order system flushes)
    (kindFits_fileBlocks flushes) []
  rw [← length_fileBlocks_iff hstart hflushes]
  constructor
  · intro hframed b hb
    exact Framing.headerRight_iff.mp (hframed.headers b hb)
  · intro hall
    refine ⟨fun b hb => Framing.headerRight_iff.mpr (hall b hb), ?_⟩
    rw [hbytes, List.drop_left]
    exact hvisit.mpr hall

/-- A sample kind with a long name: the length of the metadata runs into the kind. -/
theorem longMetadata_misframed :
    let name := String.ofList (List.replicate (2 ^ 24) 'a')
    let content : ExportContent :=
      { kinds := [name], startDate := some ⟨2024, 1, 1, 1, 0, 0, 0, 0⟩, startQpc := some 0 }
    let order : DrainOrder := ⟨fun _ saved => saved, fun _ _ => .refl _⟩
    let system : SystemInfo :=
      { qpcFreq := 1, cpuCount := 1, cpuFreq := 1000, systemPageSize := 4096 }
    ∃ bytes, content.toNetTrace order system (fun _ => true) 1 = some (.ok bytes) ∧
      ∀ flushes, ∃ b ∈ content.fileBlocks order system flushes, ¬ netTraceFraming.HeaderRight b := by
  intro name content order system
  refine ⟨_, rfl, fun flushes => ⟨⟨3, metadataBody content.kinds content.recordTypes⟩, ?_, ?_⟩⟩
  · exact List.mem_cons_of_mem _ List.mem_cons_self
  · have hsize : 2 ^ 24 ≤ (utf8 name).length := by
      have hle := le_length_utf8_ofList (List.replicate (2 ^ 24) 'a')
      rwa [List.length_replicate] at hle
    have hmetadata := sizeUtf8_le_metadataSize name [] content.recordTypes
    rw [Framing.headerRight_iff, length_metadataBody, not_lt]
    exact (hsize.trans (Nat.le_add_right _ _)).trans hmetadata

/-- A file with one event is framed. -/
theorem shortExport_framed :
    let content : ExportContent :=
      { procs := [{ pid := 7, samples := [{ time := 5, ip := 0x1000 }] }]
        callstacks := ⟨[[0x1000, 0x2000]]⟩
        attributes := [{}]
        kinds := ["cpu"]
        startDate := some ⟨2024, 1, 1, 1, 0, 0, 0, 0⟩
        startQpc := some 0 }
    let order : DrainOrder := ⟨fun _ saved => saved, fun _ _ => .refl _⟩
    let system : SystemInfo :=
      { qpcFreq := 1, cpuCount := 1, cpuFreq := 1000, systemPageSize := 4096 }
    ∃ bytes flushes, content.toNetTrace order system (fun _ => true) 2 = some (.ok bytes) ∧
      (Framed bytes (content.fileBlocks order system flushes) ↔
        metadataSize content.kinds content.recordTypes < 2 ^ 24 ∧
          ∀ flush ∈ flushes, flush.1.Fits content) := by
  intro content order system
  obtain ⟨bytes, hrun⟩ : ∃ bytes, content.toNetTrace order system (fun _ => true) 2 =
    some (.ok bytes) := ⟨_, rfl⟩
  obtain ⟨_, flushes, _, -, -, -, hiff⟩ := netTrace_framed_iff hrun
  exact ⟨bytes, flushes, hrun, hiff⟩

end ExportContent

end OneCollect.Exporting
