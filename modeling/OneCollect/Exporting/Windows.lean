import OneCollect.Callstack.Partial
import OneCollect.Exporting.Conserved

/-! The exporter on Windows (`os/windows.rs`). Events and their callstacks come one by one: an
event is kept until the callstack of its thread and time comes, and only then makes a sample.

The processes of the machine have global pids. A local pid is mapped to the global pid that was
made for it last. -/

namespace OneCollect.Exporting
open Theory Callstack

structure CpuProfileKey where
  time : Nat
  tid : Nat
  deriving DecidableEq, Repr

structure CpuProfile where
  cpu : Nat
  ip : Nat
  deriving DecidableEq, Repr

structure WinCSwitch where
  cpu : Nat := 0
  startTime : Nat := 0
  endTime : Nat := 0
  deriving DecidableEq, Repr

structure WinFault where
  kind : Nat
  cpu : Nat
  time : Nat
  deriving DecidableEq, Repr

/-- A machine with the maps of the Windows side. -/
structure WindowsMachine extends RecordingMachine where
  cswitches : Nat → Option WinCSwitch := fun _ => none
  faults : Nat → Option WinFault := fun _ => none
  pidMapping : Nat → Option Nat := fun _ => none
  cpuSamples : Option (Entries CpuProfileKey CpuProfile) := some ∅
  globalIdlePid : Nat := 0
  pidIndex : Nat := 0

/-- The numbers of the sample kinds. -/
structure WinKinds where
  cpu : Nat := 0
  cswitch : Nat := 1
  deriving DecidableEq, Repr

/-! ## Events -/

structure ProfileEvent where
  time : Nat
  tid : Nat
  cpu : Nat
  ip : Nat
  count : Nat
  deriving DecidableEq, Repr

def ProfileEvent.key (self : ProfileEvent) : CpuProfileKey := ⟨self.time, self.tid⟩

/-- No callstack is expected from the idle thread. -/
def ProfileEvent.Skipped (self : ProfileEvent) : Prop := self.tid = 0 ∧ self.count = 1

instance : DecidablePred ProfileEvent.Skipped := fun _ => inferInstanceAs (Decidable (_ ∧ _))

structure FaultEvent where
  kind : Nat
  time : Nat
  tid : Nat
  cpu : Nat
  deriving DecidableEq, Repr

structure CSwitchEvent where
  time : Nat
  cpu : Nat
  newTid : Nat
  oldTid : Nat
  deriving DecidableEq, Repr

structure ImageLoadEvent where
  time : Nat
  pid : Nat
  addr : Nat
  len : Nat
  filename : String
  deriving DecidableEq, Repr

/-- `comm` is missing when the record has no valid SID or no name. -/
structure ProcessStartEvent where
  time : Nat
  pid : Nat
  existing : Bool
  comm : Option String
  deriving DecidableEq, Repr

structure ProcessEndEvent where
  time : Nat
  pid : Nat
  deriving DecidableEq, Repr

inductive WinEvent where
  | profile (event : ProfileEvent)
  | fault (event : FaultEvent)
  | cswitch (event : CSwitchEvent)
  | imageLoad (event : ImageLoadEvent)
  | processStart (event : ProcessStartEvent)
  | processEnd (event : ProcessEndEvent)
  | callstack (stack : CompletedCallstack)
  deriving DecidableEq, Repr

def WinEvent.time : WinEvent → Nat
  | .profile event => event.time
  | .fault event => event.time
  | .cswitch event => event.time
  | .imageLoad event => event.time
  | .processStart event => event.time
  | .processEnd event => event.time
  | .callstack stack => stack.time

namespace WindowsMachine

/-! ## Global pids -/

/-- The counter is of 32 bits and wraps. -/
def newGlobalPid (self : WindowsMachine) : Nat × WindowsMachine :=
  (self.pidIndex, { self with pidIndex := toU32 (self.pidIndex + 1) })

def allocGlobalPid (self : WindowsMachine) (localPid : Nat) : Nat × WindowsMachine :=
  let (globalPid, self) := self.newGlobalPid
  (globalPid, { self with pidMapping := Function.update self.pidMapping localPid (some globalPid) })

def getOrAllocGlobalPid (self : WindowsMachine) (localPid : Nat) : Nat × WindowsMachine :=
  match self.pidMapping localPid with
  | some globalPid => (globalPid, self)
  | none => self.allocGlobalPid localPid

/-! ## Processes and samples -/

def makeSample (self : WindowsMachine) (time : Nat) (value : MetricValue)
    (tid cpu kind : Nat) (frames : List Nat) : ExportProcessSample × WindowsMachine :=
  let (sample, recording) := self.toRecordingMachine.makeSample time value tid cpu kind frames
  (sample, { self with toRecordingMachine := recording })

def addProcessSample (self : WindowsMachine) (pid : Nat) (sample : ExportProcessSample) :
    WindowsMachine :=
  { self with toRecordingMachine := self.toRecordingMachine.addProcessSample pid sample }

def addSample (self : WindowsMachine) (time : Nat) (value : MetricValue)
    (pid tid cpu kind : Nat) (frames : List Nat) : WindowsMachine :=
  { self with
    toRecordingMachine := self.toRecordingMachine.addSample time value pid tid cpu kind frames }

def processMut (self : WindowsMachine) (pid : Nat) (f : ExportProcess → ExportProcess) :
    WindowsMachine :=
  { self with toRecordingMachine := self.toRecordingMachine.processMut pid f }

def intern (self : WindowsMachine) (value : String) : Nat × WindowsMachine :=
  let (id, recording) := self.toRecordingMachine.intern value
  (id, { self with toRecordingMachine := recording })

def addCommExec (self : WindowsMachine) (pid : Nat) (comm : String) (timeQpc : Nat) :
    WindowsMachine :=
  if pid = 0 then self
  else
    let (commId, self) := self.intern comm
    self.processMut pid fun proc =>
      { proc with commId := some commId, createTimeQpc := some timeQpc }

def addCommExit (self : WindowsMachine) (pid timeQpc : Nat) : WindowsMachine :=
  if pid = 0 then self
  else self.processMut pid fun proc => { proc with exitTimeQpc := some timeQpc }

/-- The end of the mapping wraps. -/
def addMmapExec (self : WindowsMachine) (time pid addr len pgoffset maj min ino : Nat)
    (filename : String) : WindowsMachine :=
  if pid = 0 then self
  else
    let (filenameId, self) := self.intern filename
    let anon := isAnon filename
    let mapping : ProcessMapping :=
      { time, filenameId, start := addr, stop := (addr + len + 2 ^ 64 - 1) % 2 ^ 64,
        fileOffset := pgoffset, anon, id := self.mapIndex,
        unwindType := if anon || isPe filename then .Prolog else .DWARF
        node := if anon then none else some (.fromParts maj min ino) }
    let self := { self with mapIndex := self.mapIndex + 1 }
    self.processMut pid (·.addMapping mapping)

/-- `ExportMachine::new` and `alloc_idle_pid`. -/
def new (sampleHooks : List (ExportSampleFilterContext → ExportFilterAction)) : WindowsMachine :=
  let machine : WindowsMachine := { toRecordingMachine := .new sampleHooks }
  let (globalIdlePid, machine) := machine.allocGlobalPid 0
  { machine with globalIdlePid }.processMut globalIdlePid fun proc => { proc with nsPid := some 0 }

/-! ## Callbacks of the events -/

def hookProfileEvent (self : WindowsMachine) (event : ProfileEvent) : WindowsMachine :=
  if event.Skipped then self
  else
    match self.cpuSamples with
    | some samples =>
      { self with cpuSamples := some (samples.insert event.key ⟨event.cpu, event.ip⟩) }
    | none => self

def hookFaultEvent (self : WindowsMachine) (event : FaultEvent) : WindowsMachine :=
  { self with
    faults := Function.update self.faults event.tid (some ⟨event.kind, event.cpu, event.time⟩) }

/-- The thread that runs again, if there is data for it. -/
def switchIn (self : WindowsMachine) (event : CSwitchEvent) : WindowsMachine :=
  if event.newTid = 0 then self
  else
    match self.cswitches event.newTid with
    | some entry =>
      { self with
        cswitches := Function.update self.cswitches event.newTid
          (some { entry with endTime := event.time }) }
    | none => self

/-- The thread that was interrupted. -/
def switchOut (self : WindowsMachine) (event : CSwitchEvent) : WindowsMachine :=
  if event.oldTid = 0 then self
  else
    { self with
      cswitches := Function.update self.cswitches event.oldTid (some ⟨event.cpu, event.time, 0⟩) }

def hookCSwitchEvent (self : WindowsMachine) (event : CSwitchEvent) : WindowsMachine :=
  (self.switchIn event).switchOut event

/-- The id of the path goes for an inode. -/
def hookMmapEvent (self : WindowsMachine) (event : ImageLoadEvent) : WindowsMachine :=
  let (globalPid, self) := self.getOrAllocGlobalPid event.pid
  let path := "\\\\?\\GlobalRoot" ++ event.filename
  let (inode, self) := self.intern path
  self.addMmapExec event.time globalPid event.addr event.len 0 0 0 inode path

def hookCommEvent (self : WindowsMachine) (event : ProcessStartEvent) : WindowsMachine :=
  let (globalPid, self) := self.allocGlobalPid event.pid
  match event.comm with
  | some comm =>
    let time := if event.existing then 0 else event.time
    (self.addCommExec globalPid comm time).processMut globalPid fun proc =>
      { proc with nsPid := some event.pid }
  | none => self

def hookCommEnd (self : WindowsMachine) (event : ProcessEndEvent) : WindowsMachine :=
  let (globalPid, self) := self.getOrAllocGlobalPid event.pid
  self.addCommExit globalPid event.time

/-! ## Callbacks of the callstacks -/

def cpuCallstack (kind : Nat) (self : WindowsMachine) (stack : CompletedCallstack) :
    WindowsMachine :=
  match self.cpuSamples with
  | some samples =>
    match samples.lookup ⟨stack.time, stack.tid⟩ with
    | some value =>
      let self := { self with cpuSamples := some (samples.erase ⟨stack.time, stack.tid⟩) }
      let (globalPid, self) := self.getOrAllocGlobalPid stack.pid
      self.addSample stack.time (.count 1) globalPid stack.tid (toU16 value.cpu) kind stack.frames
    | none => self
  | none => self

def cswitchCallstack (kind : Nat) (self : WindowsMachine) (stack : CompletedCallstack) :
    WindowsMachine :=
  match self.cswitches stack.tid with
  | some info =>
    -- the time must match, or it is another stack
    if info.endTime = stack.time then
      let self := { self with cswitches := Function.update self.cswitches stack.tid none }
      let (globalPid, self) := self.getOrAllocGlobalPid stack.pid
      if info.startTime < info.endTime then
        let (sample, self) := self.makeSample info.startTime
          (.duration (info.endTime - info.startTime)) stack.tid (toU16 info.cpu) kind stack.frames
        self.addProcessSample globalPid sample
      else self
    else self
  | none => self

def faultCallstack (self : WindowsMachine) (stack : CompletedCallstack) : WindowsMachine :=
  match self.faults stack.tid with
  | some info =>
    if info.time = stack.time then
      let self := { self with faults := Function.update self.faults stack.tid none }
      let (globalPid, self) := self.getOrAllocGlobalPid stack.pid
      let (sample, self) := self.makeSample info.time (.count 1) stack.tid (toU16 info.cpu)
        info.kind stack.frames
      self.addProcessSample globalPid sample
    else self
  | none => self

/-- The callbacks in the order they are added. -/
def hookCallstack (kinds : WinKinds) (self : WindowsMachine) (stack : CompletedCallstack) :
    WindowsMachine :=
  ((self.cpuCallstack kinds.cpu stack).cswitchCallstack kinds.cswitch stack).faultCallstack stack

/-- The samples that are left come to a process of their own, in any order. -/
def hookFlushed (kind : Nat) (order : MapOrder CpuProfileKey) (self : WindowsMachine) :
    WindowsMachine :=
  match self.cpuSamples with
  | some samples =>
    let (globalPid, self) := { self with cpuSamples := none }.newGlobalPid
    let self := self.addCommExec globalPid "Unknown" 0
    (drain order samples).foldl (fun self entry =>
      self.addSample entry.1.time (.count 1) globalPid entry.1.tid (toU16 entry.2.cpu) kind
        [entry.2.ip]) self
  | none => self

/-! ## Events and runs -/

def hook (kinds : WinKinds) (self : WindowsMachine) : WinEvent → WindowsMachine
  | .profile event => self.hookProfileEvent event
  | .fault event => self.hookFaultEvent event
  | .cswitch event => self.hookCSwitchEvent event
  | .imageLoad event => self.hookMmapEvent event
  | .processStart event => self.hookCommEvent event
  | .processEnd event => self.hookCommEnd event
  | .callstack stack => self.hookCallstack kinds stack

def hookAll (kinds : WinKinds) (self : WindowsMachine) (events : List WinEvent) :
    WindowsMachine :=
  events.foldl (hook kinds) self

/-! ## What the callbacks change -/

variable {self : WindowsMachine}

/-- `add_sample` and `make_sample` with `add_process_sample` do the same. -/
theorem addSample_eq (self : WindowsMachine) (time : Nat) (value : MetricValue)
    (pid tid cpu kind : Nat) (frames : List Nat) :
    self.addSample time value pid tid cpu kind frames =
      (self.makeSample time value tid cpu kind frames).2.addProcessSample pid
        (self.makeSample time value tid cpu kind frames).1 := rfl

/-- Looking up a global pid changes nothing but the pids. -/
theorem getOrAllocGlobalPid_eq (self : WindowsMachine) (localPid : Nat) :
    ∃ pidMapping pidIndex,
      (self.getOrAllocGlobalPid localPid).2 = { self with pidMapping, pidIndex } := by
  unfold getOrAllocGlobalPid
  split
  · exact ⟨self.pidMapping, self.pidIndex, rfl⟩
  · exact ⟨_, _, rfl⟩

/-- The frames that `make_sample` puts into a sample: `NO_FRAMES` for none. -/
def framesOrNone (frames : List Nat) : List Nat := if frames.isEmpty then [0] else frames

/-- A sample shows the frames: its callstack id is their number in the table, in 32 bits. -/
def Shows (self : ExportMachine) (sample : ExportProcessSample) (frames : List Nat) : Prop :=
  sample.ip = (framesOrNone frames).headD 0 ∧
    (framesOrNone frames).tail ∈ self.callstacks.frames ∧
    sample.callstackId = toU32 (numberOf self.callstacks.frames (framesOrNone frames).tail)

theorem Shows.later {machine later : ExportMachine} {sample : ExportProcessSample}
    {frames : List Nat} (h : Shows machine sample frames)
    (hlater : machine.callstacks.frames <+: later.callstacks.frames) :
    Shows later sample frames := by
  obtain ⟨hip, hmem, hid⟩ := h
  exact ⟨hip, hlater.subset hmem, by rw [hid, numberOf_extend hlater hmem]⟩

/-- The sample that is made of the frames. -/
theorem makeSample_shows (self : WindowsMachine) (time : Nat) (value : MetricValue)
    (tid cpu kind : Nat) (frames : List Nat) :
    Shows (self.makeSample time value tid cpu kind frames).2.toExportMachine
      (self.makeSample time value tid cpu kind frames).1 frames :=
  ⟨rfl, mem_insertNew.mpr (.inr rfl), rfl⟩

theorem held_addProcessSample (self : WindowsMachine) (hhooks : self.sampleHooks = [])
    (pid : Nat) (sample : ExportProcessSample) :
    (self.addProcessSample pid sample).held = self.held + {(pid, sample)} := by
  have hheld := self.toRecordingMachine.held_addProcessSample pid sample
  have hkeeps : self.toRecordingMachine.keeps (self.process pid) sample 0 none = true := by
    unfold RecordingMachine.keeps ExportSampleFilterContext.runHooks
    rw [hhooks]
    rfl
  rw [RecordingCall.accepted, RecordingCall.offered] at hheld
  simp only [hkeeps, if_true] at hheld
  exact hheld

/-- Adding a sample changes the processes alone. -/
theorem addProcessSample_eq (self : WindowsMachine) (pid : Nat) (sample : ExportProcessSample) :
    (self.addProcessSample pid sample).callstacks = self.callstacks ∧
      (self.addProcessSample pid sample).sampleHooks = self.sampleHooks := by
  unfold addProcessSample RecordingMachine.addProcessSample
  dsimp only
  split <;> exact ⟨rfl, rfl⟩

theorem held_addSample (self : WindowsMachine) (hhooks : self.sampleHooks = []) (time : Nat)
    (value : MetricValue) (pid tid cpu kind : Nat) (frames : List Nat) :
    (self.addSample time value pid tid cpu kind frames).held =
      self.held + {(pid, (self.makeSample time value tid cpu kind frames).1)} := by
  rw [addSample_eq, held_addProcessSample]
  · rfl
  · exact hhooks

theorem callstacks_addSample (self : WindowsMachine) (time : Nat)
    (value : MetricValue) (pid tid cpu kind : Nat) (frames : List Nat) :
    (self.addSample time value pid tid cpu kind frames).callstacks.frames =
      insertNew self.callstacks.frames (framesOrNone frames).tail := by
  rw [addSample_eq, (addProcessSample_eq _ _ _).1]
  rfl

theorem sampleHooks_addSample (self : WindowsMachine) (time : Nat)
    (value : MetricValue) (pid tid cpu kind : Nat) (frames : List Nat) :
    (self.addSample time value pid tid cpu kind frames).sampleHooks = self.sampleHooks := by
  rw [addSample_eq, (addProcessSample_eq _ _ _).2]
  rfl

/-- The sample that is added shows the frames. -/
theorem addSample_shows (self : WindowsMachine) (time : Nat) (value : MetricValue)
    (pid tid cpu kind : Nat) (frames : List Nat) :
    Shows (self.addSample time value pid tid cpu kind frames).toExportMachine
      (self.makeSample time value tid cpu kind frames).1 frames := by
  refine (self.makeSample_shows time value tid cpu kind frames).later ?_
  rw [addSample_eq, (addProcessSample_eq _ _ _).1]

/-- A name for a process changes no sample. -/
theorem addCommExec_samples (self : WindowsMachine) (pid : Nat) (comm : String) (timeQpc : Nat) :
    (self.addCommExec pid comm timeQpc).held = self.held ∧
      (self.addCommExec pid comm timeQpc).callstacks = self.callstacks ∧
      (self.addCommExec pid comm timeQpc).sampleHooks = self.sampleHooks := by
  unfold addCommExec
  split
  · exact ⟨rfl, rfl, rfl⟩
  · exact ⟨RecordingMachine.held_processMut _ _ (fun _ => rfl) (fun _ => rfl), rfl, rfl⟩

/-- The process of the pid has the name. -/
def Named (self : ExportMachine) (pid : Nat) (comm : String) : Prop :=
  ∃ commId, (self.process pid).commId = some commId ∧ self.strings.fromId commId = some comm

theorem named_addCommExec (self : WindowsMachine) {pid : Nat} (h : pid ≠ 0) (comm : String)
    (timeQpc : Nat) : Named (self.addCommExec pid comm timeQpc).toExportMachine pid comm := by
  unfold addCommExec
  rw [if_neg h]
  refine ⟨(self.intern comm).1, ?_, self.strings.fromId_toId comm (List.prefix_refl _)⟩
  have hprocess := (self.intern comm).2.toRecordingMachine.process_processMut pid
    (f := fun proc => { proc with commId := some (self.intern comm).1, createTimeQpc := some timeQpc })
    (fun _ => rfl) pid
  rw [if_pos rfl] at hprocess
  exact congrArg (·.commId) hprocess

theorem Named.addSample {self : WindowsMachine} {q : Nat} {comm : String}
    (h : Named self.toExportMachine q comm) (time : Nat) (value : MetricValue)
    (pid tid cpu kind : Nat) (frames : List Nat) :
    Named (self.addSample time value pid tid cpu kind frames).toExportMachine q comm := by
  obtain ⟨commId, hid, hname⟩ := h
  rw [addSample_eq]
  let made := (self.makeSample time value tid cpu kind frames).2.toRecordingMachine
  have hsame : ∀ q, (made.processMut pid id).process q = self.process q :=
    made.process_processMut_id pid
  unfold addProcessSample RecordingMachine.addProcessSample
  dsimp only
  split
  · refine ⟨commId, ?_, hname⟩
    have hinsert := (made.processMut pid id).toExportMachine.process_insert
      (((made.processMut pid id).process pid).addSample
        (self.makeSample time value tid cpu kind frames).1) q
    refine (congrArg (·.commId) hinsert).trans ?_
    split
    · rename_i hpid
      have hp : (((made.processMut pid id).process pid).addSample
          (self.makeSample time value tid cpu kind frames).1).pid = pid :=
        (made.processMut pid id).process_pid pid
      rw [hp] at hpid
      subst hpid
      show ((made.processMut q id).process q).commId = some commId
      rw [hsame]
      exact hid
    · rw [hsame]
      exact hid
  · exact ⟨commId, (congrArg (·.commId) (hsame q)).trans hid, hname⟩

end WindowsMachine

end OneCollect.Exporting
