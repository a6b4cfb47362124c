import OneCollect.Exporting.Recording

/-! The records of a machine (`mod.rs`, `record.rs`): a table of triples of a record type, an offset
and a length, over one vector of bytes that all records share.

`RecordingMachine` has the bytes of a record in the record; here they are in the shared vector, and
`toRecording` reads them back. Record types and kinds are numbered by 16 bits and the record of a
sample by 32. -/

namespace OneCollect.Exporting
open Theory

/-- `ExportRecord`, with the part of `record_data` that is its own. -/
structure RecordEntry where
  recordType : Nat := 0
  offset : Nat := 0
  length : Nat := 0
  deriving DecidableEq, Repr

def RecordEntry.start (self : RecordEntry) : Nat := self.offset

def RecordEntry.stop (self : RecordEntry) : Nat := self.offset + self.length

structure ExportRecordData where
  recordTypeId : Nat
  recordType : ExportRecordType
  recordData : List UInt8
  deriving DecidableEq, Repr

/-- What the machine keeps records in, and what it reads when it adds one. -/
structure RecordStore extends ExportMachine where
  kinds : List String := []
  recordTypes : List ExportRecordType := []
  records : List RecordEntry := []
  recordData : List UInt8 := []
  attributes : List ExportAttributes := []
  spans : List ExportSpan := []
  sampleHooks : List (ExportSampleFilterContext → ExportFilterAction) := []

/-- `ExportRecordType::default`. -/
def defaultRecordType : ExportRecordType := ⟨0, 0, "", {}, false⟩

namespace RecordStore

/-- `ExportMachine::new`. -/
def new (sampleHooks : List (ExportSampleFilterContext → ExportFilterAction)) : RecordStore :=
  { strings := ⟨[""]⟩
    procs := []
    nodup := List.nodup_nil
    records := [{}]
    recordTypes := [defaultRecordType]
    attributes := [{}]
    sampleHooks }

def insert (self : RecordStore) (process : ExportProcess) : RecordStore :=
  { self with toExportMachine := self.toExportMachine.insert process }

/-- The macro `create_record`. -/
def createRecord (self : RecordStore) (recordType : Nat) (data : List UInt8) :
    Nat × RecordStore :=
  let entry : RecordEntry :=
    { recordType, offset := self.recordData.length, length := toU32 data.length }
  (self.records.length, { self with
    records := self.records ++ [entry]
    recordData := self.recordData ++ data })

def recordType (self : RecordStore) (recordType : ExportRecordType) : Nat × RecordStore :=
  let recordTypes := insertNew self.recordTypes recordType
  (toU16 (numberOf recordTypes recordType), { self with recordTypes })

def sampleKind (self : RecordStore) (name : String) : Nat × RecordStore :=
  let kinds := insertNew self.kinds name
  (toU16 (numberOf kinds name), { self with kinds })

def intern (self : RecordStore) (value : String) : Nat × RecordStore :=
  let (id, strings) := self.strings.toId value
  (id, { self with strings })

def labelAttribute (self : RecordStore) (name label : String) :
    ExportAttributePair × RecordStore :=
  let (name, self) := self.intern name
  let (label, self) := self.intern label
  (⟨name, .label label⟩, self)

/-- The record of an attribute is of the record type 0. -/
def recordAttribute (self : RecordStore) (name : String) (data : List UInt8) :
    ExportAttributePair × RecordStore :=
  let (recordId, self) := self.createRecord 0 data
  let (name, self) := self.intern name
  (⟨name, .record recordId⟩, self)

def makeSample (self : RecordStore) (time : Nat) (value : MetricValue)
    (tid cpu kind : Nat) (frames : List Nat) : ExportProcessSample × RecordStore :=
  let frames := if frames.isEmpty then [0] else frames
  let (callstackId, callstacks) := self.callstacks.toId frames.tail
  ({ time, value, cpu, kind, tid, ip := frames.headD 0, callstackId := toU32 callstackId },
    { self with callstacks })

/-- `filter_sample_ret_on_drop`: the sample goes on. -/
def keeps (self : RecordStore) (proc : ExportProcess) (sample : ExportProcessSample)
    (recordTypeId : Nat) (recordData : Option (List UInt8)) : Bool :=
  ExportSampleFilterContext.runHooks
    { kinds := self.kinds, spans := self.spans, recordTypes := self.recordTypes, recordTypeId,
      recordData, strings := self.strings, attributes := self.attributes, proc, sample }
    self.sampleHooks

def attachRecordToSample (self : RecordStore) (pid : Nat) (sample : ExportProcessSample)
    (recordType : Nat) (recordData : List UInt8) : Exec RecordStore :=
  if sample.hasRecord then fail "Record is already attached."
  else
    let self := self.insert (self.process pid)
    let proc := self.process pid
    if self.keeps proc sample recordType (some recordData) then
      let (recordId, self) := self.createRecord recordType recordData
      .ok (self.insert (proc.addSample (sample.attachRecord recordId)))
    else .ok self

def addSampleWithRecord (self : RecordStore) (time : Nat) (value : MetricValue)
    (pid tid cpu kind recordType : Nat) (recordData : List UInt8) (frames : List Nat) :
    Exec RecordStore :=
  let (sample, self) := self.makeSample time value tid cpu kind frames
  self.attachRecordToSample pid sample recordType recordData

def tryGetRecordData (self : RecordStore) (recordId : Nat) : Exec (Option (List UInt8)) :=
  if self.records.length ≤ recordId then .ok none
  else do
    let record ← getAt self.records recordId
    let data ← slice self.recordData record.start record.stop
    .ok (some data)

def sampleRecordData (self : RecordStore) (sample : ExportProcessSample) :
    Exec ExportRecordData := do
  let record ← getAt self.records sample.recordId
  let recordType ← getAt self.recordTypes record.recordType
  let data ← slice self.recordData record.start record.stop
  .ok ⟨record.recordType, recordType, data⟩

/-! ## Records read back -/

/-- The record of an entry with its bytes. -/
def recordOf (self : RecordStore) (entry : RecordEntry) : ExportRecord :=
  ⟨entry.recordType, (self.recordData.drop entry.offset).take entry.length⟩

/-- The machine with the bytes of each record in the record. -/
def toRecording (self : RecordStore) : RecordingMachine :=
  { toExportMachine := self.toExportMachine
    kinds := self.kinds
    recordTypes := self.recordTypes
    records := self.records.map self.recordOf
    attributes := self.attributes
    spans := self.spans
    sampleHooks := self.sampleHooks }

/-- Every entry lies inside the vector. -/
def Stored (self : RecordStore) : Prop :=
  ∀ entry ∈ self.records, entry.stop ≤ self.recordData.length

variable {self : RecordStore}

theorem slice_recordData (h : self.Stored) {entry : RecordEntry} (hentry : entry ∈ self.records) :
    slice self.recordData entry.start entry.stop = .ok (self.recordOf entry).data := by
  rw [slice_eq_ok]
  refine ⟨⟨Nat.le_add_right .., h entry hentry⟩, ?_⟩
  unfold RecordEntry.stop RecordEntry.start
  rw [Nat.add_sub_cancel_left]
  rfl

/-- Both levels read the record of a sample alike. -/
theorem sampleRecordData_eq (h : self.Stored) (sample : ExportProcessSample) :
    self.sampleRecordData sample = (do
      let record ← getAt self.toRecording.records sample.recordId
      let recordType ← getAt self.recordTypes record.recordType
      (.ok ⟨record.recordType, recordType, record.data⟩ : Exec ExportRecordData)) := by
  have hrecords : self.toRecording.records[sample.recordId]? =
      self.records[sample.recordId]?.map self.recordOf := List.getElem?_map
  unfold sampleRecordData getAt
  rw [hrecords]
  cases hentry : self.records[sample.recordId]? with
  | none => rfl
  | some entry =>
    have hslice := slice_recordData h (List.mem_of_getElem? hentry)
    show (do
      let recordType ← getAt self.recordTypes entry.recordType
      let data ← slice self.recordData entry.start entry.stop
      (.ok ⟨entry.recordType, recordType, data⟩ : Exec ExportRecordData)) = _
    rw [hslice]
    rfl

theorem stored_new (hooks : List (ExportSampleFilterContext → ExportFilterAction)) :
    (new hooks).Stored := by
  intro entry hentry
  rw [List.mem_singleton.mp hentry]
  exact Nat.le_refl 0

/-- Bytes at the end of the vector belong to no entry before them. -/
theorem recordOf_append (h : self.Stored) {entry : RecordEntry} (hentry : entry ∈ self.records)
    (data : List UInt8) :
    { self with recordData := self.recordData ++ data }.recordOf entry = self.recordOf entry := by
  have hstop := h entry hentry
  unfold RecordEntry.stop at hstop
  unfold recordOf
  rw [List.drop_append_of_le_length (by omega), List.take_append_of_le_length]
  rw [List.length_drop]
  omega

theorem createRecord_records (h : self.Stored) (recordType : Nat) {data : List UInt8}
    (hdata : data.length < 2 ^ 32) :
    (self.createRecord recordType data).2.toRecording.records =
      self.toRecording.records ++ [⟨recordType, data⟩] := by
  show List.map _ (self.records ++ [_]) = _
  rw [List.map_append]
  refine congr (congrArg _ (List.map_congr_left fun entry hentry => ?_)) ?_
  · exact recordOf_append h hentry data
  · have hlength : toU32 data.length = data.length := Nat.mod_eq_of_lt hdata
    rw [List.map_cons, List.map_nil]
    unfold recordOf
    rw [hlength]
    simp [createRecord]

theorem stored_createRecord (h : self.Stored) (recordType : Nat) (data : List UInt8) :
    (self.createRecord recordType data).2.Stored := by
  intro entry hentry
  show entry.stop ≤ (self.recordData ++ data).length
  rw [List.length_append]
  rcases List.mem_append.mp hentry with hold | hnew
  · exact (h entry hold).trans (Nat.le_add_right ..)
  · rw [List.mem_singleton.mp hnew]
    exact Nat.add_le_add_left (Nat.mod_le ..) _

/-- **Refinement.** A record that is created in the shared vector is created in the machine that
keeps the bytes in the records. -/
theorem toRecording_createRecord (h : self.Stored) (recordType : Nat) {data : List UInt8}
    (hdata : data.length < 2 ^ 32) :
    (self.createRecord recordType data).2.toRecording =
      (self.toRecording.createRecord recordType data).2 := by
  have hrecords := createRecord_records h recordType hdata
  show { self.toRecording with
    records := (self.createRecord recordType data).2.toRecording.records } = _
  rw [hrecords]
  rfl

end RecordStore

/-! ## Calls -/

/-- The arguments of `add_sample_with_record`. -/
structure SampleCall where
  time : Nat
  value : MetricValue
  pid : Nat
  tid : Nat
  cpu : Nat
  kind : Nat
  recordType : Nat
  recordData : List UInt8
  frames : List Nat
  deriving DecidableEq, Repr

inductive StoreCall where
  | recordType (recordType : ExportRecordType)
  | sampleKind (name : String)
  | recordData (recordType : Nat) (data : List UInt8)
  | labelAttribute (name label : String)
  | recordAttribute (name : String) (data : List UInt8)
  | addSampleWithRecord (sample : SampleCall)
  deriving DecidableEq, Repr

namespace SampleCall

/-- The sample that is offered to the hooks, and the machine with its call stack. -/
def made (self : SampleCall) (store : RecordStore) : ExportProcessSample × RecordStore :=
  store.makeSample self.time self.value self.tid self.cpu self.kind self.frames

def add (self : SampleCall) (store : RecordStore) : Exec RecordStore :=
  store.addSampleWithRecord self.time self.value self.pid self.tid self.cpu self.kind
    self.recordType self.recordData self.frames

/-- The hooks let the sample go on. -/
def kept (self : SampleCall) (store : RecordStore) : Bool :=
  store.keeps (store.process self.pid) (self.made store).1 self.recordType (some self.recordData)

def record (self : SampleCall) : ExportRecord := ⟨self.recordType, self.recordData⟩

end SampleCall

namespace StoreCall

/-- An `Err` goes to the caller. -/
def run (store : RecordStore) : StoreCall → RecordStore
  | .recordType newType => (store.recordType newType).2
  | .sampleKind name => (store.sampleKind name).2
  | .recordData typeId data => (store.createRecord typeId data).2
  | .labelAttribute name label => (store.labelAttribute name label).2
  | .recordAttribute name data => (store.recordAttribute name data).2
  | .addSampleWithRecord sample => (sample.add store).toOption.getD store

/-- The bytes of a call. -/
def payload : StoreCall → List UInt8
  | .recordData _ data => data
  | .recordAttribute _ data => data
  | .addSampleWithRecord sample => sample.recordData
  | _ => []

def recordTypes : StoreCall → List ExportRecordType
  | .recordType newType => [newType]
  | _ => []

def kinds : StoreCall → List String
  | .sampleKind name => [name]
  | _ => []

/-- The records that a call creates. -/
def records (store : RecordStore) : StoreCall → List ExportRecord
  | .recordData typeId data => [⟨typeId, data⟩]
  | .recordAttribute _ data => [⟨0, data⟩]
  | .addSampleWithRecord sample => if sample.kept store then [sample.record] else []
  | _ => []

/-- The records that a call adds to a process with their samples. -/
def recordsOf (pid : Nat) (store : RecordStore) : StoreCall → List ExportRecord
  | .addSampleWithRecord sample =>
    if sample.pid = pid ∧ sample.kept store then [sample.record] else []
  | _ => []

/-- The samples that a call adds to a process. -/
def samplesOf (pid : Nat) (store : RecordStore) : StoreCall → List ExportProcessSample
  | .addSampleWithRecord sample =>
    if sample.pid = pid ∧ sample.kept store then
      [(sample.made store).1.attachRecord store.records.length] else []
  | _ => []

end StoreCall

/-- What a call leaves. -/
structure StoreCall.Leaves (call : StoreCall) (store after : RecordStore) : Prop where
  stored : after.Stored
  recordTypes : after.recordTypes = call.recordTypes.foldl insertNew store.recordTypes
  kinds : after.kinds = call.kinds.foldl insertNew store.kinds
  records : after.toRecording.records = store.toRecording.records ++ call.records store
  samples : ∀ pid,
    (after.process pid).samples = (store.process pid).samples ++ call.samplesOf pid store

namespace RecordStore

variable {self : RecordStore}

theorem process_insert (self : RecordStore) (process : ExportProcess) (pid : Nat) :
    (self.insert process).process pid =
      if pid = process.pid then process else self.process pid :=
  self.toExportMachine.process_insert process pid

theorem process_insert_self (self : RecordStore) (pid q : Nat) :
    (self.insert (self.process pid)).process q = self.process q := by
  rw [process_insert, self.process_pid]
  split
  · rename_i hq
    rw [hq]
  · rfl

/-- A new sample has no record yet, so the call ends well. -/
theorem addSampleWithRecord_eq (self : RecordStore) (call : SampleCall) :
    call.add self = .ok (
      let added := (call.made self).2.insert (self.process call.pid)
      if call.kept self then
        (added.createRecord call.recordType call.recordData).2.insert
          ((self.process call.pid).addSample
            ((call.made self).1.attachRecord self.records.length))
      else added) := by
  have hprocess := (call.made self).2.process_insert_self call.pid call.pid
  have hnew : (call.made self).1.hasRecord = false := rfl
  have hkept : ∀ proc, ((call.made self).2.insert (self.process call.pid)).keeps proc
      (call.made self).1 call.recordType (some call.recordData) =
        self.keeps proc (call.made self).1 call.recordType (some call.recordData) := fun _ => rfl
  show (call.made self).2.attachRecordToSample call.pid (call.made self).1 call.recordType
    call.recordData = _
  unfold attachRecordToSample
  rw [hnew, if_neg Bool.false_ne_true]
  dsimp only
  rw [hprocess]
  unfold SampleCall.kept
  have hsame : (call.made self).2.process call.pid = self.process call.pid := rfl
  rw [hsame, hkept]
  split <;> rfl

theorem process_addTo (self : RecordStore) (pid : Nat) (sample : ExportProcessSample) (q : Nat) :
    ((self.insert ((self.process pid).addSample sample)).process q).samples =
      (self.process q).samples ++ if pid = q then [sample] else [] := by
  have hpid : ((self.process pid).addSample sample).pid = pid := self.process_pid pid
  rw [process_insert, hpid]
  by_cases hq : q = pid
  · rw [if_pos hq, if_pos hq.symm, hq]
    rfl
  · rw [if_neg hq, if_neg (Ne.symm hq), List.append_nil]

theorem run_addSample (self : RecordStore) (call : SampleCall) :
    (StoreCall.addSampleWithRecord call).run self =
      if call.kept self then
        (((call.made self).2.insert (self.process call.pid)).createRecord call.recordType
          call.recordData).2.insert ((self.process call.pid).addSample
            ((call.made self).1.attachRecord self.records.length))
      else (call.made self).2.insert (self.process call.pid) := by
  show (call.add self).toOption.getD self = _
  rw [self.addSampleWithRecord_eq call]
  rfl

/-- The call with a sample. -/
theorem leaves_addSample (h : self.Stored) (call : SampleCall)
    (hdata : call.recordData.length < 2 ^ 32) :
    (StoreCall.addSampleWithRecord call).Leaves self
      ((StoreCall.addSampleWithRecord call).run self) := by
  let added := (call.made self).2.insert (self.process call.pid)
  have hstored : added.Stored := h
  have hsame : ∀ q, added.process q = self.process q :=
    (call.made self).2.process_insert_self call.pid
  rw [self.run_addSample call]
  by_cases hkept : call.kept self = true
  · rw [if_pos hkept]
    refine ⟨stored_createRecord hstored call.recordType call.recordData, rfl, rfl, ?_, ?_⟩
    · show _ = self.toRecording.records ++ if call.kept self = true then [call.record] else []
      rw [if_pos hkept]
      exact createRecord_records hstored call.recordType hdata
    · intro q
      let sample := (call.made self).1.attachRecord self.records.length
      have hcreated : ∀ q, (added.createRecord call.recordType call.recordData).2.process q =
          self.process q := hsame
      have hprocess := (added.createRecord call.recordType call.recordData).2.process_addTo
        call.pid sample q
      rw [hcreated, hcreated] at hprocess
      rw [hprocess]
      simp [StoreCall.samplesOf, hkept, sample]
  · rw [if_neg hkept]
    refine ⟨hstored, rfl, rfl, ?_, fun q => ?_⟩
    · show _ = self.toRecording.records ++ if call.kept self = true then [call.record] else []
      rw [if_neg hkept, List.append_nil]
      rfl
    · rw [hsame]
      simp [StoreCall.samplesOf, hkept]

/-- **One call.** -/
theorem leaves_run (h : self.Stored) (call : StoreCall) (hdata : call.payload.length < 2 ^ 32) :
    call.Leaves self (call.run self) := by
  cases call with
  | recordType newType =>
    exact ⟨h, rfl, rfl, (List.append_nil _).symm, fun _ => (List.append_nil _).symm⟩
  | sampleKind name =>
    exact ⟨h, rfl, rfl, (List.append_nil _).symm, fun _ => (List.append_nil _).symm⟩
  | recordData typeId data =>
    exact ⟨stored_createRecord h typeId data, rfl, rfl, createRecord_records h typeId hdata,
      fun _ => (List.append_nil _).symm⟩
  | labelAttribute name label =>
    exact ⟨h, rfl, rfl, (List.append_nil _).symm, fun _ => (List.append_nil _).symm⟩
  | recordAttribute name data =>
    exact ⟨stored_createRecord h 0 data, rfl, rfl, createRecord_records h 0 hdata,
      fun _ => (List.append_nil _).symm⟩
  | addSampleWithRecord call => exact leaves_addSample h call hdata

/-! ## Runs -/

def runCalls (self : RecordStore) (calls : List StoreCall) : RecordStore :=
  calls.foldl (fun store call => call.run store) self

theorem runCalls_concat (self : RecordStore) (calls : List StoreCall) (call : StoreCall) :
    self.runCalls (calls ++ [call]) = call.run (self.runCalls calls) := by
  unfold runCalls
  rw [List.foldl_append]
  rfl

theorem runCalls_append (self : RecordStore) (calls more : List StoreCall) :
    self.runCalls (calls ++ more) = (self.runCalls calls).runCalls more :=
  List.foldl_append

/-- What stays as it is while more comes. -/
structure Extends (store later : RecordStore) : Prop where
  recordTypes : store.recordTypes <+: later.recordTypes
  kinds : store.kinds <+: later.kinds
  records : store.toRecording.records <+: later.toRecording.records

theorem Extends.refl (store : RecordStore) : store.Extends store :=
  ⟨List.prefix_refl _, List.prefix_refl _, List.prefix_refl _⟩

theorem Extends.trans {store next later : RecordStore} (h : store.Extends next)
    (h' : next.Extends later) : store.Extends later :=
  ⟨h.recordTypes.trans h'.recordTypes, h.kinds.trans h'.kinds, h.records.trans h'.records⟩

theorem extends_of_leaves {call : StoreCall} {after : RecordStore}
    (h : call.Leaves self after) : self.Extends after where
  recordTypes := h.recordTypes ▸ prefix_foldl_insertNew _ _
  kinds := h.kinds ▸ prefix_foldl_insertNew _ _
  records := h.records ▸ List.prefix_append _ _

/-- **Run.** The tables are the distinct types and kinds of the calls, and what was there stays. -/
theorem runCalls_tables (h : self.Stored) {calls : List StoreCall}
    (hdata : ∀ call ∈ calls, call.payload.length < 2 ^ 32) :
    (self.runCalls calls).Stored ∧ self.Extends (self.runCalls calls) ∧
      (self.runCalls calls).recordTypes =
        (calls.flatMap (·.recordTypes)).foldl insertNew self.recordTypes ∧
      (self.runCalls calls).kinds = (calls.flatMap (·.kinds)).foldl insertNew self.kinds := by
  induction calls generalizing self with
  | nil => exact ⟨h, .refl self, rfl, rfl⟩
  | cons call calls ih =>
    have hstep := leaves_run h call (hdata call List.mem_cons_self)
    obtain ⟨hstored, hextends, htypes, hkinds⟩ := ih hstep.stored
      fun c hc => hdata c (List.mem_cons_of_mem _ hc)
    refine ⟨hstored, (extends_of_leaves hstep).trans hextends, ?_, ?_⟩
    · rw [List.flatMap_cons, List.foldl_append, ← hstep.recordTypes]
      exact htypes
    · rw [List.flatMap_cons, List.foldl_append, ← hstep.kinds]
      exact hkinds

/-! ## Records of samples -/

/-- The record of a sample is read without a panic, and it is `record`. -/
def Reads (self : RecordStore) (sample : ExportProcessSample) (record : ExportRecord) : Prop :=
  ∃ recordType, self.recordTypes[record.recordType]? = some recordType ∧
    self.sampleRecordData sample = .ok ⟨record.recordType, recordType, record.data⟩

theorem reads_iff (h : self.Stored) {sample : ExportProcessSample} {record : ExportRecord} :
    self.Reads sample record ↔
      self.toRecording.records[sample.recordId]? = some record ∧
        record.recordType < self.recordTypes.length := by
  unfold Reads
  rw [sampleRecordData_eq h]
  constructor
  · rintro ⟨recordType, htype, hdata⟩
    obtain ⟨typeId, data⟩ := record
    obtain ⟨⟨storedId, storedData⟩, hstored, hdata⟩ := bind_eq_ok.mp hdata
    obtain ⟨storedType, -, hdata⟩ := bind_eq_ok.mp hdata
    cases hdata
    exact ⟨getAt_eq_ok.mp hstored, (List.getElem?_eq_some_iff.mp htype).1⟩
  · rintro ⟨hrecord, hlt⟩
    have htype := List.getElem?_eq_getElem hlt
    refine ⟨_, htype, ?_⟩
    rw [getAt_eq_ok.mpr hrecord, ok_bind, getAt_eq_ok.mpr htype, ok_bind]

theorem getElem?_of_extends {α : Type} {items later : List α} {i : Nat} {x : α}
    (h : items <+: later) (hx : items[i]? = some x) : later[i]? = some x := by
  obtain ⟨rest, rfl⟩ := h
  rw [List.getElem?_append_left (List.getElem?_eq_some_iff.mp hx).1]
  exact hx

theorem Reads.later {later : RecordStore} {sample : ExportProcessSample} {record : ExportRecord}
    (hreads : self.Reads sample record) (h : self.Stored) (hextends : self.Extends later)
    (hlater : later.Stored) : later.Reads sample record := by
  obtain ⟨hrecord, hlt⟩ := (reads_iff h).mp hreads
  exact (reads_iff hlater).mpr ⟨getElem?_of_extends hextends.records hrecord,
    Nat.lt_of_lt_of_le hlt hextends.recordTypes.length_le⟩

/-- The record that is numbered next is read back under its 32 bits. -/
def FitsNext (self : RecordStore) (record : ExportRecord) : Prop :=
  self.records.length < 2 ^ 32 ∨
    self.toRecording.records[toU32 self.records.length]? = some record

theorem fitsNext_iff {self : RecordStore} {record : ExportRecord} :
    self.FitsNext record ↔
      (self.toRecording.records ++ [record])[toU32 self.records.length]? = some record := by
  have hlength : self.toRecording.records.length = self.records.length := List.length_map _
  unfold FitsNext toU32
  by_cases hlt : self.records.length < 2 ^ 32
  · rw [Nat.mod_eq_of_lt hlt, List.getElem?_append_right (by omega), hlength, Nat.sub_self]
    exact ⟨fun _ => rfl, fun _ => .inl hlt⟩
  · have hmod := Nat.mod_lt self.records.length (Nat.two_pow_pos 32)
    rw [List.getElem?_append_left (by omega)]
    exact ⟨fun h => h.resolve_left hlt, .inr⟩

/-- The records that come to a process with samples, in a sequence of calls. -/
def recordsAdded (pid : Nat) : RecordStore → List StoreCall → List ExportRecord
  | _, [] => []
  | self, call :: calls => call.recordsOf pid self ++ recordsAdded pid (call.run self) calls

theorem recordsAdded_concat (pid : Nat) (self : RecordStore) (calls : List StoreCall)
    (call : StoreCall) :
    recordsAdded pid self (calls ++ [call]) =
      recordsAdded pid self calls ++ call.recordsOf pid (self.runCalls calls) := by
  induction calls generalizing self with
  | nil => exact List.append_nil _
  | cons first calls ih =>
    rw [List.cons_append, recordsAdded, recordsAdded, ih, List.append_assoc]
    rfl

/-- Each sample of a process reads one of the records that came to it, in their order. -/
def ReadsAll (self : RecordStore) (pid : Nat) (records : List ExportRecord) : Prop :=
  List.Forall₂ self.Reads (self.process pid).samples records

end RecordStore

/-! ## The property -/

section Property

variable (hooks : List (ExportSampleFilterContext → ExportFilterAction)) (calls : List StoreCall)

/-- The machine after some calls. -/
def storeAfter (calls : List StoreCall) : RecordStore := (RecordStore.new hooks).runCalls calls

/-- Ids give back what they were given for, at every later time, and samples their records. -/
structure KeepsRecords : Prop where
  recordTypes : ∀ before newType after, before ++ .recordType newType :: after <+: calls →
    (storeAfter hooks (before ++ .recordType newType :: after)).recordTypes[
      ((storeAfter hooks before).recordType newType).1]? = some newType
  recordTypeIds : ∀ before newType before' newType', before ++ [.recordType newType] <+: calls →
    before' ++ [.recordType newType'] <+: calls →
    (((storeAfter hooks before).recordType newType).1 =
      ((storeAfter hooks before').recordType newType').1 ↔ newType = newType')
  kinds : ∀ before name after, before ++ .sampleKind name :: after <+: calls →
    (storeAfter hooks (before ++ .sampleKind name :: after)).kinds[
      ((storeAfter hooks before).sampleKind name).1]? = some name
  kindIds : ∀ before name before' name', before ++ [.sampleKind name] <+: calls →
    before' ++ [.sampleKind name'] <+: calls →
    (((storeAfter hooks before).sampleKind name).1 =
      ((storeAfter hooks before').sampleKind name').1 ↔ name = name')
  samples : ∀ before pid, before <+: calls →
    (storeAfter hooks before).ReadsAll pid (RecordStore.recordsAdded pid (.new hooks) before)

/-- The ids have room: record types and kinds in 16 bits, and every record of a sample in 32
bits, unless the record under its 32 bits is an equal one. -/
structure WithinIds : Prop where
  recordTypes : (distinct (defaultRecordType :: calls.flatMap (·.recordTypes))).length ≤ 2 ^ 16
  kinds : (distinct (calls.flatMap (·.kinds))).length ≤ 2 ^ 16
  records : ∀ before sample, before ++ [.addSampleWithRecord sample] <+: calls →
    sample.kept (storeAfter hooks before) →
    (storeAfter hooks before).FitsNext sample.record

/-- Samples come with record types that `record_type` gave out, or with the type 0. -/
def GivenTypes : Prop :=
  ∀ before sample, before ++ [.addSampleWithRecord sample] <+: calls →
    sample.recordType = 0 ∨ ∃ earlier newType, earlier ++ [.recordType newType] <+: before ∧
      sample.recordType = ((storeAfter hooks earlier).recordType newType).1

end Property

/-! ## When it holds -/

section Proof

variable (hooks : List (ExportSampleFilterContext → ExportFilterAction)) {calls : List StoreCall}

theorem storeAfter_tables (hdata : ∀ call ∈ calls, call.payload.length < 2 ^ 32) :
    (storeAfter hooks calls).Stored ∧
      (storeAfter hooks calls).recordTypes =
        distinct (defaultRecordType :: calls.flatMap (·.recordTypes)) ∧
      (storeAfter hooks calls).kinds = distinct (calls.flatMap (·.kinds)) := by
  obtain ⟨hstored, -, htypes, hkinds⟩ :=
    RecordStore.runCalls_tables (RecordStore.stored_new hooks) hdata
  exact ⟨hstored, htypes, hkinds⟩

theorem payloads_of_part {before : List StoreCall} (h : before <+: calls)
    (hdata : ∀ call ∈ calls, call.payload.length < 2 ^ 32) :
    ∀ call ∈ before, call.payload.length < 2 ^ 32 :=
  fun call hcall => hdata call (h.subset hcall)

theorem storeAfter_extends {before later : List StoreCall} (h : before <+: later)
    (hdata : ∀ call ∈ later, call.payload.length < 2 ^ 32) :
    (storeAfter hooks before).Extends (storeAfter hooks later) := by
  obtain ⟨rest, rfl⟩ := h
  have hbefore := (storeAfter_tables hooks fun call hcall =>
    hdata call (List.mem_append_left rest hcall)).1
  unfold storeAfter
  rw [RecordStore.runCalls_append]
  exact (RecordStore.runCalls_tables hbefore fun call hcall =>
    hdata call (List.mem_append_right before hcall)).2.1

/-! The ids that are given out. -/

theorem part_of_concat {before after : List StoreCall} {call : StoreCall} :
    before ++ [call] <+: before ++ call :: after := ⟨after, by simp⟩

section Ids

variable {α : Type} [DecidableEq α] {items : List α} {x y : α}

theorem getElem?_shortId (hle : items.length ≤ 2 ^ 16) (hx : x ∈ items) :
    items[toU16 (numberOf items x)]? = some x := by
  unfold toU16
  rw [numberOf_mod hle hx]
  exact getElem?_numberOf hx

theorem shortId_inj (hle : items.length ≤ 2 ^ 16) (hx : x ∈ items) (hy : y ∈ items) :
    toU16 (numberOf items x) = toU16 (numberOf items y) ↔ x = y := by
  unfold toU16
  rw [numberOf_mod hle hx, numberOf_mod hle hy]
  exact numberOf_inj hx hy

/-- An item that was inserted keeps its id, whatever comes behind it. -/
theorem shortId_extend {later : List α} (h : insertNew items x <+: later) :
    x ∈ later ∧ toU16 (numberOf (insertNew items x) x) = toU16 (numberOf later x) := by
  have hmem : x ∈ insertNew items x := mem_insertNew.mpr (.inr rfl)
  exact ⟨h.subset hmem, congrArg toU16 (numberOf_extend h hmem).symm⟩

end Ids

/-- The id of a record type is its number at any later time, in 16 bits. -/
theorem recordType_id {before later : List StoreCall} {newType : ExportRecordType}
    (h : before ++ [.recordType newType] <+: later)
    (hdata : ∀ call ∈ later, call.payload.length < 2 ^ 32) :
    newType ∈ (storeAfter hooks later).recordTypes ∧
      ((storeAfter hooks before).recordType newType).1 =
        toU16 (numberOf (storeAfter hooks later).recordTypes newType) := by
  have hextends := storeAfter_extends hooks h hdata
  unfold storeAfter at hextends ⊢
  rw [RecordStore.runCalls_concat] at hextends
  exact shortId_extend hextends.recordTypes

theorem sampleKind_id {before later : List StoreCall} {name : String}
    (h : before ++ [.sampleKind name] <+: later)
    (hdata : ∀ call ∈ later, call.payload.length < 2 ^ 32) :
    name ∈ (storeAfter hooks later).kinds ∧
      ((storeAfter hooks before).sampleKind name).1 =
        toU16 (numberOf (storeAfter hooks later).kinds name) := by
  have hextends := storeAfter_extends hooks h hdata
  unfold storeAfter at hextends ⊢
  rw [RecordStore.runCalls_concat] at hextends
  exact shortId_extend hextends.kinds

variable {hooks}

theorem recordTypes_part {before : List StoreCall} (h : before <+: calls)
    (hdata : ∀ call ∈ calls, call.payload.length < 2 ^ 32) (within : WithinIds hooks calls) :
    (storeAfter hooks before).recordTypes.length ≤ 2 ^ 16 := by
  have hle := (storeAfter_extends hooks h hdata).recordTypes.length_le
  rw [(storeAfter_tables hooks hdata).2.1] at hle
  exact hle.trans within.recordTypes

theorem kinds_part {before : List StoreCall} (h : before <+: calls)
    (hdata : ∀ call ∈ calls, call.payload.length < 2 ^ 32) (within : WithinIds hooks calls) :
    (storeAfter hooks before).kinds.length ≤ 2 ^ 16 := by
  have hle := (storeAfter_extends hooks h hdata).kinds.length_le
  rw [(storeAfter_tables hooks hdata).2.2] at hle
  exact hle.trans within.kinds

/-- Were there more record types, the one numbered `2 ^ 16` would not be given back. -/
theorem recordTypes_within (hdata : ∀ call ∈ calls, call.payload.length < 2 ^ 32)
    (h : KeepsRecords hooks calls) :
    (distinct (defaultRecordType :: calls.flatMap (·.recordTypes))).length ≤ 2 ^ 16 := by
  let items := distinct (defaultRecordType :: calls.flatMap (·.recordTypes))
  have htypes : (storeAfter hooks calls).recordTypes = items :=
    (storeAfter_tables hooks hdata).2.1
  have hnodup : items.Nodup := nodup_distinct _
  have hfirst : items[0]? = some defaultRecordType :=
    RecordStore.getElem?_of_extends (prefix_foldl_insertNew _ [defaultRecordType]) rfl
  refine length_le_of_numberOf_mod hnodup (Nat.two_pow_pos 16) fun newType hlast => ?_
  rcases List.mem_cons.mp (mem_distinct.mp (List.mem_of_getElem? hlast)) with rfl | hmem
  · rw [numberOf_eq hnodup hfirst]
    exact hfirst
  · obtain ⟨call, hcall, hmem⟩ := List.mem_flatMap.mp hmem
    cases call with
    | recordType called =>
      cases List.mem_singleton.mp hmem
      obtain ⟨before, after, rfl⟩ := List.append_of_mem hcall
      have hback := h.recordTypes before newType after (List.prefix_refl _)
      rw [(recordType_id hooks part_of_concat hdata).2, htypes] at hback
      exact hback
    | _ => cases hmem

theorem kinds_within (hdata : ∀ call ∈ calls, call.payload.length < 2 ^ 32)
    (h : KeepsRecords hooks calls) :
    (distinct (calls.flatMap (·.kinds))).length ≤ 2 ^ 16 := by
  have hkinds : (storeAfter hooks calls).kinds = distinct (calls.flatMap (·.kinds)) :=
    (storeAfter_tables hooks hdata).2.2
  refine length_le_of_numberOf_mod (nodup_distinct _) (Nat.two_pow_pos 16) fun name hlast => ?_
  obtain ⟨call, hcall, hmem⟩ :=
    List.mem_flatMap.mp (mem_distinct.mp (List.mem_of_getElem? hlast))
  cases call with
  | sampleKind called =>
    cases List.mem_singleton.mp hmem
    obtain ⟨before, after, rfl⟩ := List.append_of_mem hcall
    have hback := h.kinds before name after (List.prefix_refl _)
    rw [(sampleKind_id hooks part_of_concat hdata).2, hkinds] at hback
    exact hback
  | _ => cases hmem

/-! Samples and their records. -/

/-- The sample that a call adds reads its record if the record fits. -/
theorem reads_added {store : RecordStore} {call : SampleCall} (h : store.Stored)
    (hdata : call.recordData.length < 2 ^ 32) (hkept : call.kept store) :
    ((StoreCall.addSampleWithRecord call).run store).Reads
        ((call.made store).1.attachRecord store.records.length) call.record ↔
      store.FitsNext call.record ∧ call.recordType < store.recordTypes.length := by
  have hleaves := RecordStore.leaves_addSample h call hdata
  have hrecords : (StoreCall.addSampleWithRecord call).records store = [call.record] :=
    if_pos hkept
  have htypes : ((StoreCall.addSampleWithRecord call).run store).recordTypes =
      store.recordTypes := hleaves.recordTypes
  rw [RecordStore.reads_iff hleaves.stored, hleaves.records, hrecords, htypes,
    RecordStore.fitsNext_iff]
  exact Iff.rfl

/-- **One call.** The samples of a process keep reading their records, and a new one reads its own
if the record fits. -/
theorem readsAll_run {store : RecordStore} {pid : Nat} {records : List ExportRecord}
    (h : store.Stored) (hreads : store.ReadsAll pid records) (call : StoreCall)
    (hdata : call.payload.length < 2 ^ 32) :
    (call.run store).ReadsAll pid (records ++ call.recordsOf pid store) ↔
      ∀ sample, call = .addSampleWithRecord sample → sample.pid = pid ∧ sample.kept store →
        store.FitsNext sample.record ∧ sample.recordType < store.recordTypes.length := by
  have hleaves := RecordStore.leaves_run h call hdata
  have hold : List.Forall₂ (call.run store).Reads (store.process pid).samples records :=
    hreads.imp fun _ _ hread =>
      hread.later h (RecordStore.extends_of_leaves hleaves) hleaves.stored
  have hnew : (call.run store).ReadsAll pid (records ++ call.recordsOf pid store) ↔
      List.Forall₂ (call.run store).Reads (call.samplesOf pid store)
        (call.recordsOf pid store) := by
    unfold RecordStore.ReadsAll
    rw [hleaves.samples]
    constructor
    · intro hall
      have hdrop := List.forall₂_drop_append _ _ _ hall
      rw [← hreads.length_eq, List.drop_left] at hdrop
      exact hdrop
    · intro hadded
      exact List.rel_append hold hadded
  rw [hnew]
  cases call with
  | addSampleWithRecord call =>
    by_cases hkept : call.pid = pid ∧ call.kept store = true
    · have hsamples : (StoreCall.addSampleWithRecord call).samplesOf pid store =
          [(call.made store).1.attachRecord store.records.length] := if_pos hkept
      have hrecords : (StoreCall.addSampleWithRecord call).recordsOf pid store =
          [call.record] := if_pos hkept
      rw [hsamples, hrecords, List.forall₂_cons, reads_added h hdata hkept.2]
      constructor
      · rintro ⟨hfits, -⟩ sample hsame -
        cases hsame
        exact hfits
      · intro hall
        exact ⟨hall call rfl hkept, .nil⟩
    · have hsamples : (StoreCall.addSampleWithRecord call).samplesOf pid store = [] :=
        if_neg hkept
      have hrecords : (StoreCall.addSampleWithRecord call).recordsOf pid store = [] :=
        if_neg hkept
      rw [hsamples, hrecords]
      refine ⟨fun _ sample hsame hand => absurd ?_ hkept, fun _ => .nil⟩
      cases hsame
      exact hand
  | _ => exact ⟨fun _ sample hsame => (by cases hsame), fun _ => .nil⟩

/-- A record type that was given out is in the table. -/
theorem recordType_lt (hdata : ∀ call ∈ calls, call.payload.length < 2 ^ 32)
    (hgiven : GivenTypes hooks calls) {before : List StoreCall} {sample : SampleCall}
    (h : before ++ [.addSampleWithRecord sample] <+: calls) :
    sample.recordType < (storeAfter hooks before).recordTypes.length := by
  have hbefore : before <+: calls := (List.prefix_append _ _).trans h
  have hextends : (RecordStore.new hooks).Extends (storeAfter hooks before) :=
    storeAfter_extends hooks List.nil_prefix (payloads_of_part hbefore hdata)
  rcases hgiven before sample h with h0 | ⟨earlier, newType, hearlier, hid⟩
  · rw [h0]
    exact hextends.recordTypes.length_le
  · obtain ⟨hmem, hnumber⟩ :=
      recordType_id hooks hearlier (payloads_of_part hbefore hdata)
    rw [hid, hnumber]
    exact Nat.lt_of_le_of_lt (Nat.mod_le ..) (numberOf_lt hmem)

/-- **Run.** All samples read their records at all times exactly when each record fits. -/
theorem samples_iff (hdata : ∀ call ∈ calls, call.payload.length < 2 ^ 32)
    (hgiven : GivenTypes hooks calls) :
    (∀ before pid, before <+: calls →
      (storeAfter hooks before).ReadsAll pid (RecordStore.recordsAdded pid (.new hooks) before)) ↔
    ∀ before sample, before ++ [.addSampleWithRecord sample] <+: calls →
      sample.kept (storeAfter hooks before) →
      (storeAfter hooks before).FitsNext sample.record := by
  have hstep : ∀ before call pid, before ++ [call] <+: calls →
      (storeAfter hooks before).ReadsAll pid (RecordStore.recordsAdded pid (.new hooks) before) →
      ((storeAfter hooks (before ++ [call])).ReadsAll pid
        (RecordStore.recordsAdded pid (.new hooks) (before ++ [call])) ↔
      ∀ sample, call = .addSampleWithRecord sample →
        sample.pid = pid ∧ sample.kept (storeAfter hooks before) →
        (storeAfter hooks before).FitsNext sample.record ∧
          sample.recordType < (storeAfter hooks before).recordTypes.length) := by
    intro before call pid hpart hreads
    have hbefore : before <+: calls := (List.prefix_append _ _).trans hpart
    have hstored := (storeAfter_tables hooks (payloads_of_part hbefore hdata)).1
    have hcall : call ∈ calls := hpart.subset (List.mem_append_right _ List.mem_cons_self)
    have h := readsAll_run hstored hreads call (hdata call hcall)
    unfold storeAfter at h ⊢
    rw [RecordStore.recordsAdded_concat, RecordStore.runCalls_concat]
    exact h
  constructor
  · intro hall before sample hpart hkept
    have hbefore : before <+: calls := (List.prefix_append _ _).trans hpart
    exact ((hstep before _ sample.pid hpart (hall before _ hbefore)).mp (hall _ _ hpart)
      sample rfl ⟨rfl, hkept⟩).1
  · intro hfits before
    induction before using List.reverseRecOn with
    | nil => exact fun pid _ => List.Forall₂.nil
    | append_singleton before call ih =>
      intro pid hpart
      have hbefore : before <+: calls := (List.prefix_append _ _).trans hpart
      refine (hstep before call pid hpart (ih pid hbefore)).mpr fun sample hsame hkept => ?_
      subst hsame
      exact ⟨hfits before sample hpart hkept.2, recordType_lt hdata hgiven hpart⟩

/-- **Record store.** Ids are given back and samples read their records, at every time, exactly
when the record types and kinds fit in 16 bits and the records of samples in 32. -/
theorem keepsRecords_iff (hdata : ∀ call ∈ calls, call.payload.length < 2 ^ 32)
    (hgiven : GivenTypes hooks calls) :
    KeepsRecords hooks calls ↔ WithinIds hooks calls := by
  constructor
  · intro h
    exact ⟨recordTypes_within hdata h, kinds_within hdata h,
      (samples_iff hdata hgiven).mp h.samples⟩
  · intro h
    have hle := recordTypes_part (List.prefix_refl calls) hdata h
    have hkinds := kinds_part (List.prefix_refl calls) hdata h
    refine ⟨fun before newType after hpart => ?_, fun before t before' t' hpart hpart' => ?_,
      fun before name after hpart => ?_, fun before n before' n' hpart hpart' => ?_,
      (samples_iff hdata hgiven).mpr h.records⟩
    · obtain ⟨hmem, hid⟩ := recordType_id hooks part_of_concat
        (payloads_of_part hpart hdata)
      rw [hid]
      exact getElem?_shortId (recordTypes_part hpart hdata h) hmem
    · obtain ⟨hmem, hid⟩ := recordType_id hooks hpart hdata
      obtain ⟨hmem', hid'⟩ := recordType_id hooks hpart' hdata
      rw [hid, hid']
      exact shortId_inj hle hmem hmem'
    · obtain ⟨hmem, hid⟩ := sampleKind_id hooks part_of_concat
        (payloads_of_part hpart hdata)
      rw [hid]
      exact getElem?_shortId (kinds_part hpart hdata h) hmem
    · obtain ⟨hmem, hid⟩ := sampleKind_id hooks hpart hdata
      obtain ⟨hmem', hid'⟩ := sampleKind_id hooks hpart' hdata
      rw [hid, hid']
      exact shortId_inj hkinds hmem hmem'

end Proof

/-- A record type and a sample with it. -/
theorem keepsRecords_pair :
    KeepsRecords [] [.recordType ⟨1, 7, "event", {}, true⟩,
      .addSampleWithRecord ⟨10, .count 1, 3, 4, 0, 1, 1, [0xAB, 0xCD], [0x1000]⟩] := by
  have hbefore : ∀ {before : List StoreCall} {sample : SampleCall},
      before ++ [.addSampleWithRecord sample] <+:
        [.recordType ⟨1, 7, "event", {}, true⟩,
          .addSampleWithRecord ⟨10, .count 1, 3, 4, 0, 1, 1, [0xAB, 0xCD], [0x1000]⟩] →
      before = [.recordType ⟨1, 7, "event", {}, true⟩] ∧ sample.recordType = 1 := by
    intro before sample hpart
    obtain ⟨after, hafter⟩ := hpart
    rcases before with _ | ⟨first, _ | ⟨second, before⟩⟩
    · simp at hafter
    · simp only [List.cons_append, List.nil_append, List.cons.injEq,
        StoreCall.addSampleWithRecord.injEq] at hafter
      obtain ⟨rfl, rfl, -⟩ := hafter
      exact ⟨rfl, rfl⟩
    · simp at hafter
  refine (keepsRecords_iff (by decide) fun before sample hpart => ?_).mpr
    ⟨by decide, by decide, fun before sample hpart _ => ?_⟩
  · obtain ⟨rfl, htype⟩ := hbefore hpart
    exact .inr ⟨[], ⟨1, 7, "event", {}, true⟩, List.prefix_refl _, htype⟩
  · obtain ⟨rfl, -⟩ := hbefore hpart
    exact .inl (by decide)

/-- `ExportRecordType`s that differ in their ids. -/
def numberedType (id : Nat) : ExportRecordType := ⟨0, id, "", {}, false⟩

def numberedCalls (count : Nat) : List StoreCall :=
  (List.range count).map fun i => .recordType (numberedType (i + 1))

/-- The id of the record type after `2 ^ 16` others is 0, and that is the default type. -/
theorem recordType_wraps : ¬ KeepsRecords [] (numberedCalls (2 ^ 16)) := by
  intro h
  have hdata : ∀ call ∈ numberedCalls (2 ^ 16), call.payload.length < 2 ^ 32 := by
    intro call hcall
    obtain ⟨i, -, rfl⟩ := List.mem_map.mp hcall
    exact Nat.two_pow_pos 32
  have hle := recordTypes_within hdata h
  have hcalled : (numberedCalls (2 ^ 16)).flatMap (·.recordTypes) =
      (List.range (2 ^ 16)).map fun i => numberedType (i + 1) := by
    unfold numberedCalls
    rw [List.flatMap_map]
    exact List.map_eq_flatMap.symm
  have htypes : defaultRecordType :: (numberedCalls (2 ^ 16)).flatMap (·.recordTypes) =
      (List.range (2 ^ 16 + 1)).map numberedType := by
    rw [hcalled, List.range_succ_eq_map, List.map_cons, List.map_map]
    rfl
  have hinj : Function.Injective numberedType :=
    fun i j hij => congrArg (fun t : ExportRecordType => t.id) hij
  rw [htypes, distinct_of_nodup (List.nodup_range.map hinj), List.length_map,
    List.length_range] at hle
  omega

end OneCollect.Exporting
