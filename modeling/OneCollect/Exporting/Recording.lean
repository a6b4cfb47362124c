import OneCollect.Exporting.NetTrace.Writer
import Mathlib.Logic.Function.Basic

/-! Recording into the machine (`mod.rs`, `os/linux.rs`): the calls by which the records of a
session reach its processes.

Every call reads one process and puts it back (`ExportMachine.insert`), so what a call does is
said by the processes it inserts. -/

namespace OneCollect.Exporting
open Theory

structure ExportCSwitch where
  startTime : Nat := 0
  sample : Option ExportProcessSample := none
  deriving DecidableEq, Repr

/-- The maps of the Linux side; `devNodes` says which descriptors are kept. -/
structure OSExportMachine where
  cswitches : Nat → Option ExportCSwitch := fun _ => none
  devNodes : ExportDevNode → Bool := fun _ => false
  vaOffsets : ExportDevNode → Option Nat := fun _ => none

inductive ExportFilterAction where
  | keep
  | drop
  deriving DecidableEq, Repr

structure ExportSampleFilterContext where
  kinds : List String
  spans : List ExportSpan
  recordTypes : List ExportRecordType
  recordTypeId : Nat
  recordData : Option (List UInt8)
  strings : InternedStrings
  attributes : List ExportAttributes
  proc : ExportProcess
  sample : ExportProcessSample

def ExportSampleFilterContext.runHooks (self : ExportSampleFilterContext)
    (hooks : List (ExportSampleFilterContext → ExportFilterAction)) : Bool :=
  hooks.all fun hook => hook self = .keep

/-- A machine with what only recording needs. -/
structure RecordingMachine extends ExportContent where
  sampleHooks : List (ExportSampleFilterContext → ExportFilterAction) := []
  os : OSExportMachine := {}

/-- The program header of a file that decides its `va_offset`. -/
structure LoadHeader where
  pVaddr : Nat
  pOffset : Nat
  deriving DecidableEq, Repr

/-- A file that could be opened, with its header if that can be read. -/
structure OpenedFile where
  loadHeader : Option LoadHeader
  deriving DecidableEq, Repr

def OpenedFile.vaOffset (self : OpenedFile) : Nat :=
  match self.loadHeader with
  | some header => header.pVaddr - header.pOffset
  | none => 0

/-! ## Processes -/

namespace ExportProcess

def addSample (self : ExportProcess) (sample : ExportProcessSample) : ExportProcess :=
  { self with samples := self.samples ++ [sample] }

def addMapping (self : ExportProcess) (mapping : ProcessMapping) : ExportProcess :=
  { self with mappings := self.mappings ++ [mapping] }

def fork (self : ExportProcess) (pid : Nat) : ExportProcess :=
  { pid, commId := self.commId, mappings := self.mappings }

end ExportProcess

def ExportProcessSample.hasRecord (self : ExportProcessSample) : Bool := self.recordId ≠ 0

def ExportProcessSample.attachRecord (self : ExportProcessSample) (recordId : Nat) :
    ExportProcessSample :=
  { self with recordId := toU32 recordId }

/-- `starts_with` and `ends_with`. -/
def startsWith (text start : String) : Bool := start.toList.isPrefixOf text.toList

def endsWith (text stop : String) : Bool := stop.toList.isSuffixOf text.toList

/-! What a mapping is, by its filename. -/

def isAnon (filename : String) : Bool :=
  filename.toList.isEmpty || startsWith filename "[" || startsWith filename "/memfd:" ||
    startsWith filename "//anon"

def isPe (filename : String) : Bool := endsWith filename ".dll" || endsWith filename ".exe"

def ExportDevNode.fromParts (devMaj devMin ino : Nat) : ExportDevNode :=
  ⟨devMaj <<< 8 ||| devMin, ino⟩

namespace RecordingMachine

/-- `ExportMachine::new`: the id 0 of each table is taken by an empty entry. -/
def new (sampleHooks : List (ExportSampleFilterContext → ExportFilterAction)) :
    RecordingMachine :=
  { strings := ⟨[""]⟩
    records := [⟨0, []⟩]
    recordTypes := [⟨0, 0, "", {}, false⟩]
    attributes := [{}]
    sampleHooks }

def insert (self : RecordingMachine) (process : ExportProcess) : RecordingMachine :=
  { self with toExportMachine := self.toExportMachine.insert process }

/-- A change of one process through `process_mut`. -/
def processMut (self : RecordingMachine) (pid : Nat) (f : ExportProcess → ExportProcess) :
    RecordingMachine :=
  self.insert (f (self.process pid))

theorem findProcess_processMut (self : RecordingMachine) (pid : Nat)
    {f : ExportProcess → ExportProcess} (hpid : ∀ p, (f p).pid = p.pid) (q : Nat) :
    (self.processMut pid f).findProcess q =
      if q = pid then some (f (self.process pid)) else self.findProcess q := by
  have hf : (f (self.process pid)).pid = pid := (hpid _).trans (self.process_pid pid)
  have h := self.toExportMachine.findProcess_insert (f (self.process pid)) q
  rw [hf] at h
  exact h

theorem process_processMut (self : RecordingMachine) (pid : Nat)
    {f : ExportProcess → ExportProcess} (hpid : ∀ p, (f p).pid = p.pid) (q : Nat) :
    (self.processMut pid f).process q =
      if q = pid then f (self.process pid) else self.process q := by
  have hf : (f (self.process pid)).pid = pid := (hpid _).trans (self.process_pid pid)
  have h := self.toExportMachine.process_insert (f (self.process pid)) q
  rw [hf] at h
  exact h

def intern (self : RecordingMachine) (value : String) : Nat × RecordingMachine :=
  let (id, strings) := self.strings.toId value
  (id, { self with strings })

/-! ## Mappings and processes -/

/-- `file` is what `open_file` gives for the process, if it is asked. -/
def osAddMmapExec (self : RecordingMachine) (pid : Nat) (mapping : ProcessMapping)
    (file : Option OpenedFile) : ProcessMapping × RecordingMachine :=
  match mapping.node with
  | none => (mapping, self)
  | some node =>
    let os :=
      if self.os.devNodes node then self.os
      else
        let opened := if (self.findProcess pid).isSome then file else none
        { self.os with
          devNodes := Function.update self.os.devNodes node opened.isSome
          vaOffsets := Function.update self.os.vaOffsets node
            (some ((opened.map OpenedFile.vaOffset).getD 0)) }
    let vaOffset := (os.vaOffsets node).getD 0
    let mapping := if vaOffset ≠ 0 then { mapping with vaOffset } else mapping
    (mapping, { self with os })

/-- The mapping that `add_mmap_exec` makes of a record. -/
def newMapping (checks : OverflowChecks) (filenameId id time addr len pgoffset maj min ino : Nat)
    (filename : String) : Exec ProcessMapping := do
  let anon := isAnon filename
  let unwindType := if anon || isPe filename then .Prolog else .DWARF
  let stop ← checks.addU64 addr len
  let stop ← checks.subU64 stop 1
  .ok { time, filenameId, start := addr, stop, fileOffset := pgoffset, anon, id, unwindType,
        node := if anon then none else some (.fromParts maj min ino) }

/-- A mapping that is complete but for its `va_offset` goes to its process. -/
def addNewMapping (self : RecordingMachine) (pid : Nat) (mapping : ProcessMapping)
    (file : Option OpenedFile) : RecordingMachine :=
  let added := self.osAddMmapExec pid mapping file
  let self := { added.2 with mapIndex := added.2.mapIndex + 1 }
  self.processMut pid (·.addMapping added.1)

def addMmapExec (checks : OverflowChecks) (self : RecordingMachine)
    (time pid addr len pgoffset maj min ino : Nat) (filename : String)
    (file : Option OpenedFile) : Exec RecordingMachine :=
  if pid = 0 then .ok self
  else do
    let interned := self.intern filename
    let mapping ← newMapping checks interned.1 interned.2.mapIndex time addr len pgoffset maj min
      ino filename
    .ok (interned.2.addNewMapping pid mapping file)

/-- `nsPid` is what `procfs::ns_pid` reads. -/
def osAddCommExec (self : RecordingMachine) (pid : Nat) (nsPid : Option Nat) : RecordingMachine :=
  self.processMut pid fun proc => { proc with nsPid }

def addCommExec (self : RecordingMachine) (pid : Nat) (comm : String) (timeQpc : Nat)
    (nsPid : Option Nat) : RecordingMachine :=
  if pid = 0 then self
  else
    let interned := self.intern comm
    let self := interned.2.processMut pid fun proc =>
      { proc with commId := some interned.1, createTimeQpc := some timeQpc }
    self.osAddCommExec pid nsPid

def addCommExit (self : RecordingMachine) (pid timeQpc : Nat) : RecordingMachine :=
  if pid = 0 then self
  else self.processMut pid fun proc => { proc with exitTimeQpc := some timeQpc }

/-- `OSExportMachine::fork_exec`; `process_mut` adds the parent if it is new. -/
def forkExec (self : RecordingMachine) (pid ppid : Nat) : RecordingMachine :=
  let self := self.processMut ppid id
  self.insert ((self.process ppid).fork pid)

/-! What the calls do to the process of a pid. -/

theorem process_osAddMmapExec (self : RecordingMachine) (pid : Nat) (mapping : ProcessMapping)
    (file : Option OpenedFile) : (self.osAddMmapExec pid mapping file).2.procs = self.procs := by
  unfold osAddMmapExec
  split <;> rfl

/-- Only the `va_offset` of the mapping is set. -/
theorem osAddMmapExec_mapping (self : RecordingMachine) (pid : Nat) (mapping : ProcessMapping)
    (file : Option OpenedFile) :
    ∃ vaOffset, (self.osAddMmapExec pid mapping file).1 = { mapping with vaOffset } := by
  have hset : ∀ value : Nat, ∃ vaOffset,
      (if value ≠ 0 then { mapping with vaOffset := value } else mapping) =
        { mapping with vaOffset } := by
    intro value
    split
    · exact ⟨value, rfl⟩
    · exact ⟨mapping.vaOffset, rfl⟩
  unfold osAddMmapExec
  split
  · exact ⟨mapping.vaOffset, rfl⟩
  · exact hset _

theorem process_of_procs {self other : RecordingMachine} (h : self.procs = other.procs) (q : Nat) :
    self.process q = other.process q := by
  rw [ExportMachine.process, ExportMachine.process, ExportMachine.findProcess,
    ExportMachine.findProcess, h]

theorem process_addNewMapping (self : RecordingMachine) (pid : Nat) (mapping : ProcessMapping)
    (file : Option OpenedFile) (q : Nat) :
    (self.addNewMapping pid mapping file).process q =
      if q = pid then (self.process pid).addMapping (self.osAddMmapExec pid mapping file).1
      else self.process q := by
  have hprocs := self.process_osAddMmapExec pid mapping file
  unfold addNewMapping
  dsimp only
  rw [process_processMut]
  · have hprocess : ∀ q, { (self.osAddMmapExec pid mapping file).2 with
        mapIndex := (self.osAddMmapExec pid mapping file).2.mapIndex + 1 }.process q =
          self.process q := process_of_procs hprocs
    rw [hprocess, hprocess]
  · exact fun _ => rfl

theorem process_addCommExec (self : RecordingMachine) {pid : Nat} (h0 : pid ≠ 0) (comm : String)
    (timeQpc : Nat) (nsPid : Option Nat) (q : Nat) :
    (self.addCommExec pid comm timeQpc nsPid).process q =
      if q = pid then
        { self.process pid with
          commId := some (self.intern comm).1, createTimeQpc := some timeQpc, nsPid }
      else self.process q := by
  unfold addCommExec osAddCommExec
  rw [if_neg h0]
  dsimp only
  rw [process_processMut, process_processMut, process_processMut]
  · rw [if_pos rfl]
    split <;> rfl
  all_goals exact fun _ => rfl

theorem process_addCommExit (self : RecordingMachine) {pid : Nat} (h0 : pid ≠ 0) (timeQpc q : Nat) :
    (self.addCommExit pid timeQpc).process q =
      if q = pid then { self.process pid with exitTimeQpc := some timeQpc }
      else self.process q := by
  unfold addCommExit
  rw [if_neg h0, process_processMut]
  exact fun _ => rfl

theorem process_processMut_id (self : RecordingMachine) (ppid q : Nat) :
    (self.processMut ppid id).process q = self.process q := by
  rw [process_processMut]
  · split
    · rename_i hq
      rw [hq, id]
    · rfl
  · exact fun _ => rfl

theorem process_forkExec (self : RecordingMachine) (pid ppid q : Nat) :
    (self.forkExec pid ppid).process q =
      if q = pid then (self.process ppid).fork pid else self.process q := by
  rw [← self.process_processMut_id ppid q, ← self.process_processMut_id ppid ppid]
  exact (self.processMut ppid id).toExportMachine.process_insert
    (((self.processMut ppid id).process ppid).fork pid) q

/-! ## Samples -/

def makeSample (self : RecordingMachine) (time : Nat) (value : MetricValue)
    (tid cpu kind : Nat) (frames : List Nat) : ExportProcessSample × RecordingMachine :=
  let frames := if frames.isEmpty then [0] else frames
  let (callstackId, callstacks) := self.callstacks.toId frames.tail
  ({ time, value, cpu, kind, tid, ip := frames.headD 0, callstackId := toU32 callstackId },
    { self with callstacks })

/-- `filter_sample_ret_on_drop`: the sample goes on. -/
def keeps (self : RecordingMachine) (proc : ExportProcess) (sample : ExportProcessSample)
    (recordTypeId : Nat) (recordData : Option (List UInt8)) : Bool :=
  ExportSampleFilterContext.runHooks
    { kinds := self.kinds, spans := self.spans, recordTypes := self.recordTypes, recordTypeId,
      recordData, strings := self.strings, attributes := self.attributes, proc, sample }
    self.sampleHooks

def addProcessSample (self : RecordingMachine) (pid : Nat) (sample : ExportProcessSample) :
    RecordingMachine :=
  let self := self.processMut pid id
  let proc := self.process pid
  if self.keeps proc sample 0 none then self.insert (proc.addSample sample) else self

def addSample (self : RecordingMachine) (time : Nat) (value : MetricValue)
    (pid tid cpu kind : Nat) (frames : List Nat) : RecordingMachine :=
  let (sample, self) := self.makeSample time value tid cpu kind frames
  let self := self.processMut pid id
  let proc := self.process pid
  if self.keeps proc sample 0 none then self.insert (proc.addSample sample) else self

def createRecord (self : RecordingMachine) (recordType : Nat) (data : List UInt8) :
    Nat × RecordingMachine :=
  (self.records.length, { self with records := self.records ++ [⟨recordType, data⟩] })

def attachRecordToSample (self : RecordingMachine) (pid : Nat) (sample : ExportProcessSample)
    (recordType : Nat) (recordData : List UInt8) : Exec RecordingMachine :=
  if sample.hasRecord then fail "Record is already attached."
  else
    let self := self.processMut pid id
    let proc := self.process pid
    if self.keeps proc sample recordType (some recordData) then
      let (recordId, self) := self.createRecord recordType recordData
      .ok (self.insert (proc.addSample (sample.attachRecord recordId)))
    else .ok self

def addSampleWithRecord (self : RecordingMachine) (time : Nat) (value : MetricValue)
    (pid tid cpu kind recordType : Nat) (recordData : List UInt8) (frames : List Nat) :
    Exec RecordingMachine :=
  let (sample, self) := self.makeSample time value tid cpu kind frames
  self.attachRecordToSample pid sample recordType recordData

end RecordingMachine

end OneCollect.Exporting
