import OneCollect.Exporting.Conserved
import OneCollect.Exporting.Replay
import OneCollect.Theory.Pointwise

/-! A recording as a log of plain values. The machine has its strings, call stacks and records in
tables and numbers in their place, it keeps the file offsets of binaries in a map of its own, and it
puts processes back into a map with every call; `RecordingLog` has none of that.

`readsAs_run` is the step: whatever a call does to the machine, its entry does to the log.
`recording_readsAs` is the refinement along a run, `recording_replayed` what its replay shows. -/

namespace OneCollect.Exporting
open Theory

/-! ## The log -/

/-- A mapping with the name of its file in place of the id. -/
structure LoggedMapping where
  filename : String
  mapping : ProcessMapping

/-- The mapping with the offset of the file of its binary. -/
def ProcessMapping.withFile (self : ProcessMapping) (file : Option OpenedFile) : ProcessMapping :=
  { self with vaOffset := (file.map OpenedFile.vaOffset).getD 0 }

/-- A sample with its frames and its record in place of their ids. -/
structure LoggedSample where
  frames : List Nat
  record : ExportRecord
  sample : ExportProcessSample

structure LoggedProcess where
  comm : Option String := none
  nsPid : Option Nat := none
  createTimeQpc : Option Nat := none
  exitTimeQpc : Option Nat := none
  mappings : List LoggedMapping := []
  samples : List LoggedSample := []

/-- The processes by pid, the file that was first opened for each binary, and the number of mappings
so far. -/
structure RecordingLog where
  processes : Nat → Option LoggedProcess := fun _ => none
  opened : ExportDevNode → Option OpenedFile := fun _ => none
  mapped : Nat := 0

inductive LogEntry where
  | nothing
  | sample (pid : Nat) (sample : LoggedSample)
  /-- A sample that a hook drops; its process is known from then on. -/
  | dropped (pid : Nat)
  | mapping (pid : Nat) (filename : String) (mapping : ProcessMapping) (file : Option OpenedFile)
  | comm (pid : Nat) (comm : String) (timeQpc : Nat) (nsPid : Option Nat)
  | exit (pid timeQpc : Nat)
  | fork (pid ppid : Nat)

namespace RecordingLog

def process (self : RecordingLog) (pid : Nat) : LoggedProcess := (self.processes pid).getD {}

def set (self : RecordingLog) (pid : Nat) (process : LoggedProcess) : RecordingLog :=
  { self with processes := Function.update self.processes pid (some process) }

theorem processes_set (self : RecordingLog) (pid q : Nat) (process : LoggedProcess) :
    (self.set pid process).processes q = if q = pid then some process else self.processes q :=
  Function.update_apply ..

/-- The file of a binary: the one opened first, else the one that a known process opens now. -/
def fileOf (self : RecordingLog) (pid : Nat) (node : ExportDevNode) (file : Option OpenedFile) :
    Option OpenedFile :=
  self.opened node <|> if (self.processes pid).isSome then file else none

/-- A mapping has the number of those before it, and the offset of the file of its binary. -/
def addMapping (self : RecordingLog) (pid : Nat) (filename : String) (mapping : ProcessMapping)
    (file : Option OpenedFile) : RecordingLog :=
  let file := mapping.node.bind fun node => self.fileOf pid node file
  let mapping := { mapping.withFile file with id := self.mapped }
  let process := self.process pid
  { self.set pid { process with mappings := process.mappings ++ [⟨filename, mapping⟩] } with
    opened := (mapping.node.map fun node => Function.update self.opened node file).getD self.opened
    mapped := self.mapped + 1 }

def add (self : RecordingLog) : LogEntry → RecordingLog
  | .nothing => self
  | .sample pid sample =>
    let process := self.process pid
    self.set pid { process with samples := process.samples ++ [sample] }
  | .dropped pid => self.set pid (self.process pid)
  | .mapping pid filename mapping file => self.addMapping pid filename mapping file
  | .comm pid comm timeQpc nsPid =>
    self.set pid { self.process pid with comm := some comm, createTimeQpc := some timeQpc, nsPid }
  | .exit pid timeQpc => self.set pid { self.process pid with exitTimeQpc := some timeQpc }
  | .fork pid ppid =>
    let parent := self.process ppid
    (self.set ppid parent).set pid { comm := parent.comm, mappings := parent.mappings }

end RecordingLog

/-! ## The entry of a call -/

/-- What a sample that is handed over says. -/
def RecordingMachine.logged (self : RecordingMachine) (sample : ExportProcessSample) :
    LoggedSample where
  frames := (self.callstacks.fromId sample.callstackId).getD []
  record := self.records[sample.recordId]?.getD ⟨0, []⟩
  sample := { sample with callstackId := 0, recordId := 0 }

/-- A sample that is made of a time, a value and frames; without frames it is at the address 0. -/
def madeSample (time : Nat) (value : MetricValue) (tid cpu kind : Nat) (frames : List Nat)
    (record : ExportRecord) : LoggedSample where
  frames := frames.tail
  record := record
  sample := { time, value, cpu, kind, tid, ip := frames.headD 0 }

/-- The entry of a call; the hooks see the machine, so they decide here. -/
def RecordingCall.entry (checks : OverflowChecks) (self : RecordingMachine) :
    RecordingCall → LogEntry
  | .addSample time value pid tid cpu kind frames =>
    if self.keeps (self.process pid) (self.makeSample time value tid cpu kind frames).1 0 none then
      .sample pid (madeSample time value tid cpu kind frames ⟨0, []⟩)
    else .dropped pid
  | .addProcessSample pid sample =>
    if self.keeps (self.process pid) sample 0 none then .sample pid (self.logged sample)
    else .dropped pid
  | .addSampleWithRecord time value pid tid cpu kind recordType recordData frames =>
    if self.keeps (self.process pid) (self.makeSample time value tid cpu kind frames).1 recordType
        (some recordData) then
      .sample pid (madeSample time value tid cpu kind frames ⟨recordType, recordData⟩)
    else .dropped pid
  | .addMmapExec time pid addr len pgoffset maj min ino filename file =>
    if pid = 0 then .nothing
    else match RecordingMachine.newMapping checks 0 0 time addr len pgoffset maj min ino filename with
      | .ok mapping => .mapping pid filename mapping file
      | .error _ => .nothing
  | .addCommExec pid comm timeQpc nsPid => if pid = 0 then .nothing else .comm pid comm timeQpc nsPid
  | .addCommExit pid timeQpc => if pid = 0 then .nothing else .exit pid timeQpc
  | .forkExec pid ppid => .fork pid ppid

/-- A sample that is handed over was made by the machine: its ids are from its tables. -/
def RecordingCall.Issued (self : RecordingMachine) : RecordingCall → Prop
  | .addProcessSample _ sample =>
    sample.callstackId < self.callstacks.frames.length ∧ sample.recordId < self.records.length
  | _ => True

/-- There is room for one more id in 32 bits. -/
def RecordingMachine.Room (self : RecordingMachine) : Prop :=
  self.callstacks.frames.length < 2 ^ 32 ∧ self.records.length < 2 ^ 32

/-! ## What the machine says -/

structure ExportProcessSample.ReadsAs (machine : RecordingMachine) (sample : ExportProcessSample)
    (logged : LoggedSample) : Prop where
  frames : machine.callstacks.fromId sample.callstackId = some logged.frames
  record : machine.records[sample.recordId]? = some logged.record
  sample : { sample with callstackId := 0, recordId := 0 } = logged.sample

structure ProcessMapping.ReadsAs (machine : RecordingMachine) (map : ProcessMapping)
    (logged : LoggedMapping) : Prop where
  filename : machine.strings.fromId map.filenameId = some logged.filename
  mapping : { map with filenameId := 0 } = logged.mapping

structure ExportProcess.ReadsAs (machine : RecordingMachine) (process : ExportProcess)
    (logged : LoggedProcess) : Prop where
  comm : Option.Rel (fun id comm => machine.strings.fromId id = some comm) process.commId logged.comm
  nsPid : process.nsPid = logged.nsPid
  createTimeQpc : process.createTimeQpc = logged.createTimeQpc
  exitTimeQpc : process.exitTimeQpc = logged.exitTimeQpc
  mappings : List.Forall₂ (ProcessMapping.ReadsAs machine) process.mappings logged.mappings
  samples : List.Forall₂ (ExportProcessSample.ReadsAs machine) process.samples logged.samples

/-- The maps of binaries have the files that were opened, with their offsets. -/
def OSExportMachine.Remembers (self : OSExportMachine)
    (opened : ExportDevNode → Option OpenedFile) : Prop :=
  ∀ node, self.devNodes node = (opened node).isSome ∧
    ∀ file, opened node = some file → self.vaOffsets node = some file.vaOffset

/-- The machine says what the log says. -/
structure RecordingMachine.ReadsAs (machine : RecordingMachine) (log : RecordingLog) : Prop where
  known : ∀ pid, (machine.findProcess pid).isSome = (log.processes pid).isSome
  processes : ∀ pid, (machine.process pid).ReadsAs machine (log.process pid)
  os : machine.os.Remembers log.opened
  mapped : machine.mapIndex = log.mapped
  noRecord : machine.records[0]? = some ⟨0, []⟩
  noName : machine.strings.fromId 0 = some ""

/-- Ids keep what they stand for. -/
structure RecordingMachine.Grows (machine next : RecordingMachine) : Prop where
  strings : machine.strings.strings <+: next.strings.strings
  callstacks : machine.callstacks.frames <+: next.callstacks.frames
  records : machine.records <+: next.records

theorem getElem?_of_prefix {α : Type} {xs ys : List α} {i : Nat} {x : α} (h : xs <+: ys)
    (hx : xs[i]? = some x) : ys[i]? = some x := by
  obtain ⟨rest, rfl⟩ := h
  obtain ⟨hlt, -⟩ := List.getElem?_eq_some_iff.mp hx
  rwa [List.getElem?_append_left hlt]

section Grow

variable {self next : RecordingMachine} {log : RecordingLog}

theorem ExportProcess.ReadsAs.later {process : ExportProcess} {logged : LoggedProcess}
    (h : process.ReadsAs self logged) (hgrow : self.Grows next) : process.ReadsAs next logged := by
  refine { h with comm := ?_, mappings := h.mappings.imp ?_, samples := h.samples.imp ?_ }
  · have hcomm := h.comm
    generalize process.commId = commId, logged.comm = comm at hcomm ⊢
    cases hcomm with
    | none => exact .none
    | some hcomm => exact .some (InternedStrings.fromId_of_prefix hgrow.strings hcomm)
  · intro mapping logged hread
    exact { hread with
      filename := InternedStrings.fromId_of_prefix hgrow.strings hread.filename }
  · intro sample logged hread
    exact { hread with
      frames := getElem?_of_prefix hgrow.callstacks hread.frames
      record := getElem?_of_prefix hgrow.records hread.record }

/-- Tables that grow. -/
theorem RecordingMachine.ReadsAs.later (h : self.ReadsAs log) (hgrow : self.Grows next)
    (hprocs : next.procs = self.procs) (hos : next.os = self.os)
    (hmapped : next.mapIndex = self.mapIndex) : next.ReadsAs log where
  known pid := by
    rw [ExportMachine.findProcess, hprocs]
    exact h.known pid
  processes pid := by
    rw [RecordingMachine.process_of_procs hprocs]
    exact (h.processes pid).later hgrow
  os := hos ▸ h.os
  mapped := hmapped.trans h.mapped
  noRecord := getElem?_of_prefix hgrow.records h.noRecord
  noName := InternedStrings.fromId_of_prefix hgrow.strings h.noName

/-- **A process that is put back.** -/
theorem RecordingMachine.ReadsAs.insert (h : self.ReadsAs log) {process : ExportProcess}
    {logged : LoggedProcess} (hread : process.ReadsAs self logged) :
    (self.insert process).ReadsAs (log.set process.pid logged) where
  known pid := by
    have hfind := self.toExportMachine.findProcess_insert process pid
    show ((self.toExportMachine.insert process).findProcess pid).isSome = _
    rw [hfind, RecordingLog.processes_set]
    split
    · rfl
    · exact h.known pid
  processes pid := by
    have hprocess := self.toExportMachine.process_insert process pid
    show ((self.toExportMachine.insert process).process pid).ReadsAs _ _
    rw [hprocess, RecordingLog.process, RecordingLog.processes_set]
    have hsame : self.Grows (self.insert process) :=
      ⟨List.prefix_rfl, List.prefix_rfl, List.prefix_rfl⟩
    split
    · exact hread.later hsame
    · exact (h.processes pid).later hsame
  os := h.os
  mapped := h.mapped
  noRecord := h.noRecord
  noName := h.noName

theorem RecordingMachine.ReadsAs.processMut (h : self.ReadsAs log) (pid : Nat)
    {f : ExportProcess → ExportProcess} (logged : LoggedProcess) (hpid : ∀ p, (f p).pid = p.pid)
    (hread : (f (self.process pid)).ReadsAs self logged) :
    (self.processMut pid f).ReadsAs (log.set pid logged) := by
  have hf : (f (self.process pid)).pid = pid := (hpid _).trans (self.process_pid pid)
  have hinsert := h.insert hread
  rwa [hf] at hinsert

theorem RecordingLog.process_set (pid : Nat) (process : LoggedProcess) :
    (log.set pid process).process pid = process := by
  simp [RecordingLog.process, RecordingLog.processes_set]

theorem RecordingLog.set_set (pid : Nat) (process process' : LoggedProcess) :
    (log.set pid process).set pid process' = log.set pid process' := by
  simp [RecordingLog.set]

end Grow

/-! ## Calls -/

section Calls

variable {self : RecordingMachine} {log : RecordingLog}

theorem RecordingMachine.ReadsAs.dropped (h : self.ReadsAs log) (pid : Nat) :
    (self.processMut pid id).ReadsAs (log.add (.dropped pid)) :=
  h.processMut pid _ (fun _ => rfl) (h.processes pid)

/-- A sample joins those of its process. -/
theorem RecordingMachine.ReadsAs.addTo (h : self.ReadsAs log) (pid : Nat)
    {sample : ExportProcessSample} {logged : LoggedSample} (hread : sample.ReadsAs self logged) :
    ((self.processMut pid id).insert ((self.process pid).addSample sample)).ReadsAs
      (log.add (.sample pid logged)) := by
  have hprocess := h.processes pid
  have hadded : ((self.process pid).addSample sample).ReadsAs self
      { log.process pid with samples := (log.process pid).samples ++ [logged] } :=
    { hprocess with samples := List.rel_append hprocess.samples (.cons hread .nil) }
  have hinsert := (h.dropped pid).insert
    (hadded.later ⟨List.prefix_rfl, List.prefix_rfl, List.prefix_rfl⟩)
  have hpid : ((self.process pid).addSample sample).pid = pid := self.process_pid pid
  rw [hpid, RecordingLog.add, RecordingLog.set_set] at hinsert
  exact hinsert

theorem RecordingMachine.ReadsAs.addProcessSample (h : self.ReadsAs log) (pid : Nat)
    {sample : ExportProcessSample} {logged : LoggedSample} (hread : sample.ReadsAs self logged) :
    (self.addProcessSample pid sample).ReadsAs (log.add
      (if self.keeps (self.process pid) sample 0 none then .sample pid logged
      else .dropped pid)) := by
  have hkeeps : (self.processMut pid id).keeps (self.process pid) sample 0 none =
      self.keeps (self.process pid) sample 0 none := rfl
  unfold RecordingMachine.addProcessSample
  simp only [self.process_processMut_id pid pid, hkeeps]
  split
  · exact h.addTo pid hread
  · exact h.dropped pid

/-- A sample that gets a record of its own. -/
theorem RecordingMachine.ReadsAs.attachRecord (h : self.ReadsAs log) {after : RecordingMachine}
    {pid recordType : Nat} {recordData : List UInt8} {sample : ExportProcessSample}
    {logged : LoggedSample} (hread : sample.ReadsAs self logged)
    (hroom : self.records.length < 2 ^ 32)
    (hrun : self.attachRecordToSample pid sample recordType recordData = .ok after) :
    after.ReadsAs (log.add
      (if self.keeps (self.process pid) sample recordType (some recordData) then
        .sample pid { logged with record := ⟨recordType, recordData⟩ }
      else .dropped pid)) := by
  have hkeeps : (self.processMut pid id).keeps (self.process pid) sample recordType
      (some recordData) = self.keeps (self.process pid) sample recordType (some recordData) := rfl
  unfold RecordingMachine.attachRecordToSample at hrun
  split at hrun
  · exact absurd hrun (fail_ne_ok _ _)
  simp only [self.process_processMut_id pid pid, hkeeps] at hrun
  split at hrun
  · rename_i hkeep
    cases hrun
    rw [if_pos hkeep]
    let next : RecordingMachine := { self with records := self.records ++ [⟨recordType, recordData⟩] }
    have hgrow : self.Grows next := ⟨List.prefix_rfl, List.prefix_rfl, List.prefix_append ..⟩
    have hid : toU32 self.records.length = self.records.length := Nat.mod_eq_of_lt hroom
    have hattached : (sample.attachRecord self.records.length).ReadsAs next
        { logged with record := ⟨recordType, recordData⟩ } := by
      refine ⟨hread.frames, ?_, hread.sample⟩
      simp [next, ExportProcessSample.attachRecord, hid]
    exact (h.later hgrow rfl rfl rfl).addTo pid hattached
  · rename_i hdrop
    cases hrun
    rw [if_neg hdrop]
    exact h.dropped pid

/-- A sample that is made has the frames in the table. -/
theorem RecordingMachine.ReadsAs.makeSample (h : self.ReadsAs log) (time : Nat)
    (value : MetricValue) (tid cpu kind : Nat) (frames : List Nat)
    (hroom : self.callstacks.frames.length < 2 ^ 32) :
    (self.makeSample time value tid cpu kind frames).2.ReadsAs log ∧
      (self.makeSample time value tid cpu kind frames).1.ReadsAs
        (self.makeSample time value tid cpu kind frames).2
        (madeSample time value tid cpu kind frames ⟨0, []⟩) := by
  let some := if frames.isEmpty then [0] else frames
  have hsome : some.tail = frames.tail ∧ some.headD 0 = frames.headD 0 := by
    cases frames <;> exact ⟨rfl, rfl⟩
  let items := insertNew self.callstacks.frames some.tail
  have hmem : some.tail ∈ items := mem_insertNew.mpr (.inr rfl)
  have hlen : items.length ≤ 2 ^ 32 := by
    show (insertNew _ _).length ≤ _
    unfold insertNew
    split
    · omega
    · simp only [List.length_append, List.length_singleton]
      omega
  have hid : toU32 (numberOf items some.tail) = numberOf items some.tail :=
    Nat.mod_eq_of_lt ((numberOf_lt hmem).trans_le hlen)
  have hgrow : self.Grows (self.makeSample time value tid cpu kind frames).2 :=
    ⟨List.prefix_rfl, prefix_insertNew _ _, List.prefix_rfl⟩
  refine ⟨h.later hgrow rfl rfl rfl, ?_, h.noRecord, ?_⟩
  · show items[toU32 (numberOf items some.tail)]? = _
    rw [hid, getElem?_numberOf hmem, hsome.1]
    rfl
  · show (⟨time, value, cpu, kind, tid, some.headD 0, 0, 0, 0⟩ : ExportProcessSample) = _
    rw [hsome.2]
    rfl

/-- The ids of a new mapping are as they are given. -/
theorem newMapping_ids {checks : OverflowChecks}
    {filenameId id time addr len pgoffset maj min ino : Nat} {filename : String}
    {mapping : ProcessMapping}
    (h : RecordingMachine.newMapping checks filenameId id time addr len pgoffset maj min ino
      filename = .ok mapping) :
    mapping.vaOffset = 0 ∧
      RecordingMachine.newMapping checks 0 0 time addr len pgoffset maj min ino filename =
        .ok { mapping with filenameId := 0, id := 0 } ∧
      mapping.filenameId = filenameId ∧ mapping.id = id := by
  obtain ⟨stop, hstop, h⟩ := bind_eq_ok.mp h
  obtain ⟨stop', hstop', h⟩ := bind_eq_ok.mp h
  cases h
  refine ⟨rfl, ?_, rfl, rfl⟩
  simp only [RecordingMachine.newMapping, hstop, hstop', ok_bind]

theorem OSExportMachine.Remembers.open {os : OSExportMachine}
    {opened : ExportDevNode → Option OpenedFile} (h : os.Remembers opened) (node : ExportDevNode)
    (file : Option OpenedFile) :
    OSExportMachine.Remembers { os with
      devNodes := Function.update os.devNodes node file.isSome
      vaOffsets := Function.update os.vaOffsets node
        (some ((file.map OpenedFile.vaOffset).getD 0)) } (Function.update opened node file) := by
  intro n
  by_cases hn : n = node
  · subst hn
    cases file <;> simp
  · simpa [hn] using h n

/-- A new mapping gets the offset of the file that was first opened for its binary. -/
theorem RecordingMachine.ReadsAs.osAddMmapExec (h : self.ReadsAs log) (pid : Nat)
    {mapping : ProcessMapping} (file : Option OpenedFile) (hva : mapping.vaOffset = 0) :
    let opened := mapping.node.bind fun node => log.fileOf pid node file
    (self.osAddMmapExec pid mapping file).1 = mapping.withFile opened ∧
      (self.osAddMmapExec pid mapping file).2.ReadsAs { log with
        opened := (mapping.node.map fun node => Function.update log.opened node opened).getD
          log.opened } := by
  have hset (value : Nat) (first : Option OpenedFile)
      (hvalue : (first.map OpenedFile.vaOffset).getD 0 = value) :
      (if value ≠ 0 then { mapping with vaOffset := value } else mapping) =
        mapping.withFile first := by
    subst hvalue
    split
    · rfl
    · rename_i hzero
      rw [ProcessMapping.withFile, Classical.not_not.mp hzero, ← hva]
  unfold RecordingMachine.osAddMmapExec
  cases hnode : mapping.node with
  | none => exact ⟨hset 0 none rfl, { h with }⟩
  | some node =>
    obtain ⟨hdev, hoffset⟩ := h.os node
    simp only [Option.bind_some, Option.map_some, Option.getD_some]
    cases hopened : log.opened node with
    | some first =>
      -- the binary has its file
      have hfile : log.fileOf pid node file = some first := by
        rw [RecordingLog.fileOf, hopened]
        rfl
      rw [hopened, Option.isSome_some] at hdev
      rw [if_pos hdev, hoffset first hopened, hfile, ← hopened, Function.update_eq_self]
      exact ⟨by rw [← hnode, hopened]; exact hset _ _ rfl, { h with }⟩
    | none =>
      have hfile : log.fileOf pid node file =
          if (self.findProcess pid).isSome then file else none := by
        rw [RecordingLog.fileOf, hopened, h.known]
        rfl
      have hnot : ¬ self.os.devNodes node = true := by simp [hdev, hopened]
      rw [if_neg hnot, hfile]
      simp only [Function.update_self, Option.getD_some]
      exact ⟨by rw [← hnode]; exact hset _ _ rfl, { h with
        os := h.os.open node _
        processes := fun q =>
          (h.processes q).later ⟨List.prefix_rfl, List.prefix_rfl, List.prefix_rfl⟩ }⟩

theorem RecordingMachine.ReadsAs.addNewMapping (h : self.ReadsAs log) (pid : Nat)
    {mapping : ProcessMapping} {filename : String} (file : Option OpenedFile)
    (hfilename : self.strings.fromId mapping.filenameId = some filename)
    (hid : mapping.id = self.mapIndex) (hva : mapping.vaOffset = 0) :
    (self.addNewMapping pid mapping file).ReadsAs
      (log.addMapping pid filename { mapping with filenameId := 0, id := 0 } file) := by
  obtain ⟨hmapping, hread⟩ := h.osAddMmapExec pid file hva
  have htables : (self.osAddMmapExec pid mapping file).2.strings = self.strings ∧
      (self.osAddMmapExec pid mapping file).2.mapIndex = self.mapIndex := by
    unfold RecordingMachine.osAddMmapExec
    split <;> exact ⟨rfl, rfl⟩
  let opened := mapping.node.bind fun node => log.fileOf pid node file
  let next : RecordingMachine := { (self.osAddMmapExec pid mapping file).2 with
    mapIndex := (self.osAddMmapExec pid mapping file).2.mapIndex + 1 }
  have hgrow : (self.osAddMmapExec pid mapping file).2.Grows next :=
    ⟨List.prefix_rfl, List.prefix_rfl, List.prefix_rfl⟩
  have hnext : next.ReadsAs { log with
      opened := (mapping.node.map fun node => Function.update log.opened node opened).getD log.opened
      mapped := log.mapped + 1 } :=
    { hread with
      processes := fun q => (hread.processes q).later hgrow
      mapped := congrArg (· + 1) hread.mapped }
  have hprocess := hnext.processes pid
  have hnew : (mapping.withFile opened).ReadsAs next ⟨filename,
      { mapping.withFile opened with filenameId := 0, id := log.mapped }⟩ := by
    refine ⟨?_, ?_⟩
    · show (self.osAddMmapExec pid mapping file).2.strings.fromId mapping.filenameId = _
      rw [htables.1]
      exact hfilename
    · rw [← h.mapped, ← hid]
      rfl
  have hadded : ((next.process pid).addMapping (self.osAddMmapExec pid mapping file).1).ReadsAs next
      { log.process pid with mappings := (log.process pid).mappings ++ [⟨filename,
        { mapping.withFile opened with filenameId := 0, id := log.mapped }⟩] } :=
    { hprocess with
      mappings := List.rel_append hprocess.mappings (.cons (hmapping ▸ hnew) .nil) }
  exact hnext.processMut pid (f := (·.addMapping (self.osAddMmapExec pid mapping file).1)) _
    (fun _ => rfl) hadded

theorem RecordingMachine.ReadsAs.intern (h : self.ReadsAs log) (value : String) :
    (self.intern value).2.ReadsAs log :=
  h.later ⟨self.strings.prefix_toId value, List.prefix_rfl, List.prefix_rfl⟩ rfl rfl rfl

end Calls

/-- **One call.** What a call does to the machine, its entry does to the log. -/
theorem readsAs_run {checks : OverflowChecks} {self after : RecordingMachine} {log : RecordingLog}
    {call : RecordingCall} (h : self.ReadsAs log) (hroom : self.Room) (hissued : call.Issued self)
    (hrun : call.run checks self = .ok after) :
    after.ReadsAs (log.add (call.entry checks self)) := by
  cases call with
  | addSample time value pid tid cpu kind frames =>
    cases hrun
    obtain ⟨hmade, hsample⟩ := h.makeSample time value tid cpu kind frames hroom.1
    exact hmade.addProcessSample pid hsample
  | addProcessSample pid sample =>
    cases hrun
    refine h.addProcessSample pid ⟨?_, ?_, rfl⟩
    · show self.callstacks.frames[sample.callstackId]? =
        some ((self.callstacks.frames[sample.callstackId]?).getD [])
      rw [List.getElem?_eq_getElem hissued.1, Option.getD_some]
    · show _ = some (self.records[sample.recordId]?.getD ⟨0, []⟩)
      rw [List.getElem?_eq_getElem hissued.2, Option.getD_some]
  | addSampleWithRecord time value pid tid cpu kind recordType recordData frames =>
    obtain ⟨hmade, hsample⟩ := h.makeSample time value tid cpu kind frames hroom.1
    exact hmade.attachRecord hsample hroom.2 hrun
  | addMmapExec time pid addr len pgoffset maj min ino filename file =>
    have hcall : self.addMmapExec checks time pid addr len pgoffset maj min ino filename file =
      .ok after := hrun
    unfold RecordingMachine.addMmapExec at hcall
    dsimp only [RecordingCall.entry]
    by_cases hpid : pid = 0
    · rw [if_pos hpid] at hcall ⊢
      cases hcall
      exact h
    · rw [if_neg hpid] at hcall ⊢
      obtain ⟨mapping, hmapping, hcall⟩ := bind_eq_ok.mp hcall
      cases hcall
      obtain ⟨hva, hplain, hfilename, hid⟩ := newMapping_ids hmapping
      rw [hplain]
      refine (h.intern filename).addNewMapping pid file ?_ hid hva
      rw [hfilename]
      exact self.strings.fromId_toId filename List.prefix_rfl
  | addCommExec pid comm timeQpc nsPid =>
    cases hrun
    dsimp only [RecordingMachine.addCommExec, RecordingCall.entry]
    split
    · exact h
    · have hinterned := h.intern comm
      have hcomm : Option.Rel (fun id c => (self.intern comm).2.strings.fromId id = some c)
          (some (self.intern comm).1) (some comm) :=
        .some (self.strings.fromId_toId comm List.prefix_rfl)
      have hfirst := hinterned.processMut pid
        (f := fun proc => { proc with
          commId := some (self.intern comm).1, createTimeQpc := some timeQpc })
        { log.process pid with comm := some comm, createTimeQpc := some timeQpc }
        (fun _ => rfl) { hinterned.processes pid with comm := hcomm, createTimeQpc := rfl }
      have hprocess := hfirst.processes pid
      rw [RecordingLog.process_set] at hprocess
      have hsecond := hfirst.processMut pid (f := fun proc => { proc with nsPid })
        { log.process pid with comm := some comm, createTimeQpc := some timeQpc, nsPid }
        (fun _ => rfl) { hprocess with nsPid := rfl }
      rw [RecordingLog.set_set] at hsecond
      exact hsecond
  | addCommExit pid timeQpc =>
    cases hrun
    dsimp only [RecordingMachine.addCommExit, RecordingCall.entry]
    split
    · exact h
    · exact h.processMut pid _ (fun _ => rfl) { h.processes pid with exitTimeQpc := rfl }
  | forkExec pid ppid =>
    cases hrun
    have hparent := h.dropped ppid
    have hprocess := hparent.processes ppid
    rw [RecordingLog.add, RecordingLog.process_set] at hprocess
    have hchild : (((self.processMut ppid id).process ppid).fork pid).ReadsAs
        (self.processMut ppid id)
        { comm := (log.process ppid).comm, mappings := (log.process ppid).mappings } :=
      { comm := hprocess.comm, mappings := hprocess.mappings, samples := .nil, nsPid := rfl,
        createTimeQpc := rfl, exitTimeQpc := rfl }
    exact hparent.insert hchild

/-! ## Runs -/

structure LoggedRecording where
  machine : RecordingMachine
  log : RecordingLog := {}

def LoggedRecording.run (checks : OverflowChecks) (self : LoggedRecording) (call : RecordingCall) :
    Exec LoggedRecording := do
  let machine ← call.run checks self.machine
  .ok ⟨machine, self.log.add (call.entry checks self.machine)⟩

section Recordings

variable (checks : OverflowChecks) (hooks : List (ExportSampleFilterContext → ExportFilterAction))

/-- The recordings whose calls find room for an id and hand over samples of the machine. -/
def loggedSystem : System LoggedRecording RecordingCall :=
  (System.ofExec (fun s => s = ⟨.new hooks, {}⟩) (LoggedRecording.run checks)).restrict
    fun s call => s.machine.Room ∧ call.Issued s.machine

theorem readsAs_new : (RecordingMachine.new hooks).ReadsAs {} where
  known _ := rfl
  processes _ := ⟨.none, rfl, rfl, rfl, .nil, .nil⟩
  os _ := ⟨rfl, fun _ h => nomatch h⟩
  mapped := rfl
  noRecord := rfl
  noName := rfl

variable {checks hooks} {t : LoggedRecording}

theorem readsAs_of_reachable (h : (loggedSystem checks hooks).Reachable t) :
    t.machine.ReadsAs t.log := by
  refine System.restrict_invariant (I := fun t : LoggedRecording => t.machine.ReadsAs t.log)
    (fun s hs => ?_) (fun s call t hs hcond hrun => ?_) h
  · obtain rfl : s = ⟨.new hooks, {}⟩ := hs
    exact readsAs_new hooks
  · obtain ⟨machine, hcall, hrun⟩ := bind_eq_ok.mp hrun
    cases hrun
    exact readsAs_run hs hcond.1 hcond.2 hcall

/-- **The recording refines its log.** In every state of a recording whose calls find room for an
id in 32 bits, the machine has exactly the processes of the log; each reads back with the name,
times, mappings and samples of the log, in their order: file names, frames and records as they were
given, every mapping with a number of its own and the offset of the file that was first opened for
its binary. -/
theorem recording_readsAs (h : (loggedSystem checks hooks).Reachable t) :
    t.machine.ReadsAs t.log :=
  readsAs_of_reachable h

/-- The process is not known when its first mapping comes, so no file is opened for that. -/
def mapApp (time addr : Nat) : RecordingCall :=
  .addMmapExec time 7 addr 0x1000 0x1000 8 1 5 "/bin/app" (some ⟨some ⟨0x2000, 0x1000⟩⟩)

def LoggedRecording.next (self : LoggedRecording) (call : RecordingCall) : LoggedRecording :=
  (self.run .on call).toOption.getD self

def mappedApp : LoggedRecording := (LoggedRecording.mk (.new []) {}).next (mapApp 2 0x400000)

def twiceMapped : LoggedRecording := mappedApp.next (mapApp 1 0x500000)

theorem reachable_mappedApp : (loggedSystem .on []).Reachable mappedApp :=
  (System.reachable_init rfl).next (mapApp 2 0x400000) ⟨⟨⟨by decide, by decide⟩, trivial⟩, rfl⟩

theorem reachable_twiceMapped : (loggedSystem .on []).Reachable twiceMapped :=
  reachable_mappedApp.next (mapApp 1 0x500000) ⟨⟨⟨by decide, by decide⟩, trivial⟩, rfl⟩

theorem recording_readsAs_twiceMapped : twiceMapped.machine.ReadsAs twiceMapped.log ∧
    ((twiceMapped.log.process 7).mappings.map fun m => m.mapping.vaOffset) = [0, 0x1000] :=
  ⟨recording_readsAs reachable_twiceMapped, by decide⟩

/-! ## Replay -/

open ExportProcessReplay

/-- The samples and mappings in order of time, those of one time as they were recorded. -/
def LoggedProcess.sorted (self : LoggedProcess) : LoggedProcess :=
  { self with
    mappings := self.mappings.insertionSort fun a b => a.mapping.time ≤ b.mapping.time
    samples := self.samples.insertionSort fun a b => a.sample.time ≤ b.sample.time }

theorem ExportProcess.ReadsAs.sorted {machine : RecordingMachine} {process : ExportProcess}
    {logged : LoggedProcess} (h : process.ReadsAs machine logged) :
    process.sorted.ReadsAs machine logged.sorted :=
  { h with
    mappings := forall₂_insertionSort (fun _ _ h => congrArg (·.time) h.mapping) h.mappings
    samples := forall₂_insertionSort (fun _ _ h => congrArg (·.time) h.sample) h.samples }

/-- **What is recorded is replayed.** With times before the end of time, the replay of a recording
ends and goes on in order of time. It shows the samples and mappings of every process of the log that
is selected, each once, in order of time and those of one time as they were recorded, and nothing of
any other process. -/
theorem recording_replayed (h : (loggedSystem checks hooks).Reachable t)
    (predicate : ExportProcess → Bool)
    (htimes : ∀ p ∈ t.machine.procs, (∀ s ∈ p.samples, s.time < u64Max) ∧
      ∀ m ∈ p.mappings, m.time < u64Max) :
    ∃ rounds calls,
      (∀ fuel ≥ rounds, t.machine.toExportMachine.calls predicate fuel = some calls) ∧
      calls.Pairwise (fun a b => a.time ≤ b.time) ∧
      ∀ pid, (t.log.processes pid).isSome →
        let shown := callsOf (t.machine.process pid) calls
        (Selected predicate (t.machine.process pid) →
          List.Forall₂ (ExportProcessSample.ReadsAs t.machine) (shown.filterMap (·.sampleEvent))
              (t.log.process pid).sorted.samples ∧
            List.Forall₂ (ProcessMapping.ReadsAs t.machine) (shown.filterMap (·.mappingEvent))
              (t.log.process pid).sorted.mappings) ∧
        (¬ Selected predicate (t.machine.process pid) → shown = []) := by
  have hread := readsAs_of_reachable h
  let machine := t.machine.toExportMachine
  have hvalid := @settled_replays machine predicate
  obtain ⟨rounds, calls, hcalls⟩ : ∃ rounds calls,
      replayTimeline.rounds rounds (machine.replays predicate) = some calls :=
    ⟨_, Timeline.rounds_total hvalid (Nat.lt_succ_self _)⟩
  have hrun := (calls_eq machine predicate _).trans hcalls
  refine ⟨rounds, calls, fun fuel hfuel => ?_, (Timeline.rounds_ascending hvalid hcalls).1,
    fun pid hpid => ?_⟩
  · exact (calls_eq machine predicate fuel).trans (Timeline.rounds_mono hcalls hfuel)
  · obtain ⟨process, hfind⟩ := Option.isSome_iff_exists.mp ((hread.known pid).trans hpid)
    have hmem : process ∈ machine.procs := List.mem_of_find?_eq_some hfind
    have hlog := (hread.processes pid).sorted
    rw [ExportMachine.process, hfind, Option.getD_some] at hlog ⊢
    refine ⟨fun hselected => ?_, callsOf_rejected hrun hmem⟩
    obtain ⟨hsamples, hmappings⟩ := shown_sorted (htimes process hmem).1 (htimes process hmem).2
    rw [callsOf_selected hrun hmem hselected, hsamples, hmappings]
    exact ⟨hlog.samples, hlog.mappings⟩

theorem recording_replayed_twiceMapped : ∃ calls,
    List.Forall₂ (ProcessMapping.ReadsAs twiceMapped.machine)
      ((callsOf (twiceMapped.machine.process 7) calls).filterMap (·.mappingEvent))
      (twiceMapped.log.process 7).sorted.mappings := by
  obtain ⟨-, calls, -, -, hshown⟩ :=
    recording_replayed reachable_twiceMapped (fun _ => true) (by decide)
  exact ⟨calls, ((hshown 7 rfl).1 ⟨rfl, rfl⟩).2⟩

end Recordings

end OneCollect.Exporting
