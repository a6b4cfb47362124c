import Mathlib.Algebra.BigOperators.Group.Multiset.Basic
import Mathlib.Data.Multiset.OrderedMonoid
import OneCollect.Exporting.Recording

/-! Accepted samples through the calls of a recording.

A call gives up what the process it replaces held and adds what the new one holds
(`held_insert`). Every call but `fork_exec` puts back the samples it found; `fork_exec` puts a
process without samples under the pid of the child, so what a child held before is lost, and
nothing else ever is (`held_run`). -/

namespace OneCollect.Exporting
open Theory

/-! ## The samples of the processes -/

/-- Samples under their pid. -/
def tagged (pid : Nat) (samples : List ExportProcessSample) :
    Multiset (Nat × ExportProcessSample) :=
  samples.map (pid, ·)

def heldBy (procs : List ExportProcess) : Multiset (Nat × ExportProcessSample) :=
  (procs.map fun process => tagged process.pid process.samples).sum

/-- The samples held by all processes, each under its pid. -/
def ExportMachine.held (self : ExportMachine) : Multiset (Nat × ExportProcessSample) :=
  heldBy self.procs

@[simp] theorem tagged_nil (pid : Nat) : tagged pid [] = 0 := rfl

theorem tagged_append (pid : Nat) (xs ys : List ExportProcessSample) :
    tagged pid (xs ++ ys) = tagged pid xs + tagged pid ys := by
  rw [tagged, List.map_append, ← Multiset.coe_add]
  rfl

theorem tagged_eq_zero {pid : Nat} {samples : List ExportProcessSample} :
    tagged pid samples = 0 ↔ samples = [] := by
  simp [tagged]

theorem filter_pid {procs : List ExportProcess} (h : (procs.map (·.pid)).Nodup) (pid : Nat) :
    procs.filter (·.pid = pid) = (procs.find? (·.pid = pid)).toList := by
  induction procs with
  | nil => rfl
  | cons p procs ih =>
    rw [List.map_cons, List.nodup_cons] at h
    by_cases hp : p.pid = pid
    · have hnone : procs.filter (·.pid = pid) = [] := by
        refine List.filter_eq_nil_iff.mpr fun q hq => ?_
        have hmem := List.mem_map_of_mem (f := (·.pid)) hq
        simp only [decide_eq_true_eq]
        rintro rfl
        exact h.1 (hp ▸ hmem)
      simp [hp, hnone]
    · simp [hp, ih h.2]

namespace ExportMachine

/-- What is held is held by the process of a pid or by the others. -/
theorem held_eq (self : ExportMachine) (pid : Nat) :
    self.held = tagged pid (self.process pid).samples + heldBy (self.others pid) := by
  have hperm := List.filter_append_perm (fun p : ExportProcess => decide (p.pid = pid)) self.procs
  have hsum := (hperm.map fun p => tagged p.pid p.samples).sum_eq
  have hothers : self.procs.filter (fun p => !decide (p.pid = pid)) = self.others pid := by
    unfold others
    simp
  rw [List.map_append, List.sum_append, filter_pid self.nodup, hothers] at hsum
  rw [held, heldBy, ← hsum]
  refine congrArg (· + heldBy (self.others pid)) ?_
  unfold ExportMachine.process findProcess
  cases hfind : self.procs.find? (fun p => decide (p.pid = pid)) with
  | none => rfl
  | some p => simp [self.findProcess_pid hfind]

theorem held_insert (self : ExportMachine) (process : ExportProcess) :
    (self.insert process).held =
      tagged process.pid process.samples + heldBy (self.others process.pid) := by
  simp [held, insert, heldBy, add_comm]

/-- Where a process goes in with the samples found under its pid and some more, these more
come to what is held. -/
theorem held_insert_of_samples (self : ExportMachine) (process : ExportProcess)
    (samples : List ExportProcessSample)
    (h : process.samples = (self.process process.pid).samples ++ samples) :
    (self.insert process).held = self.held + tagged process.pid samples := by
  rw [held_insert, h, self.held_eq process.pid, tagged_append, add_right_comm]

end ExportMachine

/-! ## Calls -/

/-- The calls of a recording, with what the file system and `procfs` answer them. -/
inductive RecordingCall where
  | addSample (time : Nat) (value : MetricValue) (pid tid cpu kind : Nat) (frames : List Nat)
  | addProcessSample (pid : Nat) (sample : ExportProcessSample)
  | addSampleWithRecord (time : Nat) (value : MetricValue) (pid tid cpu kind recordType : Nat)
      (recordData : List UInt8) (frames : List Nat)
  | addMmapExec (time pid addr len pgoffset maj min ino : Nat) (filename : String)
      (file : Option OpenedFile)
  | addCommExec (pid : Nat) (comm : String) (timeQpc : Nat) (nsPid : Option Nat)
  | addCommExit (pid timeQpc : Nat)
  | forkExec (pid ppid : Nat)

def RecordingCall.run (checks : OverflowChecks) (self : RecordingMachine) :
    RecordingCall → Exec RecordingMachine
  | .addSample time value pid tid cpu kind frames =>
    .ok (self.addSample time value pid tid cpu kind frames)
  | .addProcessSample pid sample => .ok (self.addProcessSample pid sample)
  | .addSampleWithRecord time value pid tid cpu kind recordType recordData frames =>
    self.addSampleWithRecord time value pid tid cpu kind recordType recordData frames
  | .addMmapExec time pid addr len pgoffset maj min ino filename file =>
    self.addMmapExec checks time pid addr len pgoffset maj min ino filename file
  | .addCommExec pid comm timeQpc nsPid => .ok (self.addCommExec pid comm timeQpc nsPid)
  | .addCommExit pid timeQpc => .ok (self.addCommExit pid timeQpc)
  | .forkExec pid ppid => .ok (self.forkExec pid ppid)

/-- The sample a call hands to the hooks: its pid, itself, its record type and data. -/
def RecordingCall.offered (self : RecordingMachine) :
    RecordingCall → Option (Nat × ExportProcessSample × Nat × Option (List UInt8))
  | .addSample time value pid tid cpu kind frames =>
    some (pid, (self.makeSample time value tid cpu kind frames).1, 0, none)
  | .addProcessSample pid sample => some (pid, sample, 0, none)
  | .addSampleWithRecord time value pid tid cpu kind recordType recordData frames =>
    some (pid, (self.makeSample time value tid cpu kind frames).1, recordType, some recordData)
  | _ => none

/-- A sample that passed the hooks, with its record when it comes with one. -/
def RecordingCall.accepted (self : RecordingMachine) (call : RecordingCall) :
    Multiset (Nat × ExportProcessSample) :=
  match call.offered self with
  | none => 0
  | some (pid, sample, recordType, recordData) =>
    if self.keeps (self.process pid) sample recordType recordData then
      match recordData with
      | none => {(pid, sample)}
      | some _ => {(pid, sample.attachRecord self.records.length)}
    else 0

namespace RecordingMachine

/-- What a call loses: the samples of the child when a process is put in its place. -/
def lost (self : RecordingMachine) : RecordingCall → Multiset (Nat × ExportProcessSample)
  | .forkExec pid _ => tagged pid (self.process pid).samples
  | _ => 0

theorem held_processMut (self : RecordingMachine) (pid : Nat) {f : ExportProcess → ExportProcess}
    (hpid : ∀ p, (f p).pid = p.pid) (hsamples : ∀ p, (f p).samples = p.samples) :
    (self.processMut pid f).held = self.held := by
  have hf : (f (self.process pid)).pid = pid := (hpid _).trans (self.process_pid pid)
  have h := self.toExportMachine.held_insert_of_samples (f (self.process pid)) []
    (by rw [hsamples, hf, List.append_nil])
  rw [tagged_nil, add_zero] at h
  exact h

/-- The step of every sample that goes on: it joins the samples of its process. -/
theorem held_addTo (self : RecordingMachine) (pid : Nat) (sample : ExportProcessSample) :
    ((self.processMut pid id).insert ((self.process pid).addSample sample)).held =
      self.held + {(pid, sample)} := by
  have hmut := self.held_processMut pid (f := id) (fun _ => rfl) (fun _ => rfl)
  have hsame := self.process_processMut_id pid pid
  have hp : ((self.process pid).addSample sample).pid = pid := self.process_pid pid
  have h := (self.processMut pid id).toExportMachine.held_insert_of_samples
    ((self.process pid).addSample sample) [sample]
    (by rw [hp, hsame]; rfl)
  rw [hp, hmut] at h
  exact h

theorem held_forkExec (self : RecordingMachine) (pid ppid : Nat) :
    (self.forkExec pid ppid).held + tagged pid (self.process pid).samples = self.held := by
  have hmut := self.held_processMut ppid (f := id) (fun _ => rfl) (fun _ => rfl)
  have hinsert := (self.processMut ppid id).toExportMachine.held_insert
    (((self.processMut ppid id).process ppid).fork pid)
  have heq := (self.processMut ppid id).toExportMachine.held_eq pid
  rw [self.process_processMut_id ppid pid] at heq
  have hfork : (((self.processMut ppid id).process ppid).fork pid).samples = [] := rfl
  rw [hfork, tagged_nil, zero_add] at hinsert
  rw [← hmut, heq, add_comm]
  exact congrArg (tagged pid (self.process pid).samples + ·) hinsert

end RecordingMachine

namespace RecordingMachine

theorem held_addProcessSample (self : RecordingMachine) (pid : Nat)
    (sample : ExportProcessSample) :
    (self.addProcessSample pid sample).held =
      self.held + (RecordingCall.addProcessSample pid sample).accepted self := by
  have hsame := self.process_processMut_id pid pid
  have hkeeps : (self.processMut pid id).keeps (self.process pid) sample 0 none =
      self.keeps (self.process pid) sample 0 none := rfl
  unfold addProcessSample
  simp only [hsame, hkeeps, RecordingCall.accepted, RecordingCall.offered]
  split
  · exact self.held_addTo pid sample
  · rw [add_zero]
    exact self.held_processMut pid (fun _ => rfl) (fun _ => rfl)

theorem attachRecordToSample_eq {self after : RecordingMachine} {pid : Nat}
    {sample : ExportProcessSample} {recordType : Nat} {recordData : List UInt8}
    (h : self.attachRecordToSample pid sample recordType recordData = .ok after) :
    after.held = self.held +
      if self.keeps (self.process pid) sample recordType (some recordData) then
        {(pid, sample.attachRecord self.records.length)} else 0 := by
  have hsame := self.process_processMut_id pid pid
  have hkeeps : (self.processMut pid id).keeps (self.process pid) sample recordType
      (some recordData) = self.keeps (self.process pid) sample recordType (some recordData) := rfl
  unfold attachRecordToSample at h
  split at h
  · exact absurd h (fail_ne_ok _ _)
  · simp only [hsame, hkeeps] at h
    split at h
    · rename_i hkeep
      cases h
      rw [if_pos hkeep]
      exact self.held_addTo pid (sample.attachRecord self.records.length)
    · rename_i hdrop
      cases h
      rw [if_neg hdrop, add_zero]
      exact self.held_processMut pid (fun _ => rfl) (fun _ => rfl)

theorem held_addNewMapping (self : RecordingMachine) (pid : Nat) (mapping : ProcessMapping)
    (file : Option OpenedFile) : (self.addNewMapping pid mapping file).held = self.held := by
  refine (held_processMut _ pid (f := (·.addMapping _)) (fun _ => rfl) (fun _ => rfl)).trans ?_
  exact congrArg heldBy (self.process_osAddMmapExec pid mapping file)

theorem held_addMmapExec {checks : OverflowChecks} {self after : RecordingMachine}
    {time pid addr len pgoffset maj min ino : Nat} {filename : String} {file : Option OpenedFile}
    (h : self.addMmapExec checks time pid addr len pgoffset maj min ino filename file =
      .ok after) : after.held = self.held := by
  unfold addMmapExec at h
  split at h
  · cases h
    rfl
  · obtain ⟨mapping, -, h⟩ := bind_eq_ok.mp h
    cases h
    exact held_addNewMapping (self.intern filename).2 pid mapping file

theorem held_addCommExec (self : RecordingMachine) (pid : Nat) (comm : String) (timeQpc : Nat)
    (nsPid : Option Nat) : (self.addCommExec pid comm timeQpc nsPid).held = self.held := by
  unfold addCommExec osAddCommExec
  split
  · rfl
  · refine (held_processMut _ pid (f := fun proc => { proc with nsPid }) (fun _ => rfl)
      (fun _ => rfl)).trans ?_
    exact held_processMut (self.intern comm).2 pid (fun _ => rfl) (fun _ => rfl)

theorem held_addCommExit (self : RecordingMachine) (pid timeQpc : Nat) :
    (self.addCommExit pid timeQpc).held = self.held := by
  unfold addCommExit
  split
  · rfl
  · exact self.held_processMut pid (fun _ => rfl) (fun _ => rfl)

end RecordingMachine

/-- **One call.** What is held and what the call loses is what was held and what it accepts. -/
theorem held_run {checks : OverflowChecks} {self after : RecordingMachine} {call : RecordingCall}
    (h : call.run checks self = .ok after) :
    after.held + self.lost call = self.held + call.accepted self := by
  cases call with
  | addSample time value pid tid cpu kind frames =>
    cases h
    refine (add_zero _).trans ?_
    exact RecordingMachine.held_addProcessSample
      (self.makeSample time value tid cpu kind frames).2 pid _
  | addProcessSample pid sample =>
    cases h
    refine (add_zero _).trans ?_
    exact self.held_addProcessSample pid sample
  | addSampleWithRecord time value pid tid cpu kind recordType recordData frames =>
    refine (add_zero _).trans ?_
    let sampled := (self.makeSample time value tid cpu kind frames).2
    have hattach : sampled.attachRecordToSample pid
        (self.makeSample time value tid cpu kind frames).1 recordType recordData = .ok after := h
    have heq := RecordingMachine.attachRecordToSample_eq hattach
    exact heq
  | addMmapExec time pid addr len pgoffset maj min ino filename file =>
    exact congrArg (· + 0) (RecordingMachine.held_addMmapExec h)
  | addCommExec pid comm timeQpc nsPid =>
    cases h
    exact congrArg (· + 0) (self.held_addCommExec pid comm timeQpc nsPid)
  | addCommExit pid timeQpc =>
    cases h
    exact congrArg (· + 0) (self.held_addCommExit pid timeQpc)
  | forkExec pid ppid =>
    cases h
    exact (self.held_forkExec pid ppid).trans (add_zero _).symm

/-! ## Runs -/

/-- A recording so far: the machine, and the samples that passed the hooks. -/
structure Recording where
  machine : RecordingMachine
  accepted : Multiset (Nat × ExportProcessSample) := 0

def Recording.run (checks : OverflowChecks) (self : Recording) (call : RecordingCall) :
    Exec Recording := do
  let machine ← call.run checks self.machine
  .ok ⟨machine, self.accepted + call.accepted self.machine⟩

def recordingSystem (checks : OverflowChecks)
    (hooks : List (ExportSampleFilterContext → ExportFilterAction)) :
    System Recording RecordingCall :=
  .ofExec (fun s => s = ⟨.new hooks, 0⟩) (Recording.run checks)

/-- Nothing is lost: what is held is what was accepted. -/
def Recording.Conserved (self : Recording) : Prop := self.machine.held = self.accepted

/-- A fork is to a pid under which no samples are held. -/
def RecordingCall.ForksFresh (self : Recording) : RecordingCall → Prop
  | .forkExec pid _ => (self.machine.process pid).samples = []
  | _ => True

theorem lost_eq_zero_iff (self : Recording) (call : RecordingCall) :
    self.machine.lost call = 0 ↔ call.ForksFresh self := by
  cases call with
  | forkExec pid ppid => exact tagged_eq_zero
  | _ => exact ⟨fun _ => trivial, fun _ => rfl⟩

theorem run_conserved_iff {checks : OverflowChecks} {self after : Recording} {call : RecordingCall}
    (hle : self.machine.held ≤ self.accepted) (h : self.run checks call = .ok after) :
    after.machine.held ≤ after.accepted ∧
      (after.Conserved ↔ self.Conserved ∧ call.ForksFresh self) := by
  obtain ⟨machine, hrun, h⟩ := bind_eq_ok.mp h
  cases h
  have hheld := held_run hrun
  obtain ⟨missing, hmissing⟩ := le_iff_exists_add.mp hle
  have hsum : self.accepted + call.accepted self.machine =
      machine.held + (missing + self.machine.lost call) := by
    rw [hmissing, add_right_comm, ← hheld, add_assoc, add_comm (self.machine.lost call)]
  refine ⟨le_iff_exists_add.mpr ⟨_, hsum⟩, ?_⟩
  rw [← lost_eq_zero_iff, Recording.Conserved, Recording.Conserved, hsum, hmissing, left_eq_add,
    left_eq_add, add_eq_zero]

/-- **Accepted samples.** After any calls the processes hold exactly the samples that passed
the hooks, each under its pid, exactly when every fork was to a pid that held none. -/
theorem conserved_iff (checks : OverflowChecks)
    (hooks : List (ExportSampleFilterContext → ExportFilterAction)) {calls : List RecordingCall}
    {t : Recording} (h : (recordingSystem checks hooks).Runs ⟨.new hooks, 0⟩ calls t) :
    t.Conserved ↔
      ((recordingSystem checks hooks).restrict RecordingCall.ForksFresh).Runs
        ⟨.new hooks, 0⟩ calls t :=
  System.runs_good_iff (fun s => s.machine.held ≤ s.accepted) Recording.Conserved
    (le_refl _) rfl (fun _ _ _ hle hrun => (run_conserved_iff hle hrun).1)
    (fun _ _ _ hle hrun => (run_conserved_iff hle hrun).2) h

/-- A fork to a pid that holds nothing keeps the samples of the parent. -/
theorem conserved_of_fresh_fork :
    (⟨((RecordingMachine.new []).addProcessSample 1 { time := 1 }).forkExec 7 1,
      {(1, { time := 1 })}⟩ : Recording).Conserved := by
  let sampled : RecordingMachine := (RecordingMachine.new []).addProcessSample 1 { time := 1 }
  have hsample : ((recordingSystem .on []).restrict RecordingCall.ForksFresh).step
      ⟨.new [], 0⟩ (.addProcessSample 1 { time := 1 }) ⟨sampled, {(1, { time := 1 })}⟩ :=
    ⟨trivial, rfl⟩
  have hfork : ((recordingSystem .on []).restrict RecordingCall.ForksFresh).step
      ⟨sampled, {(1, { time := 1 })}⟩ (.forkExec 7 1)
      ⟨sampled.forkExec 7 1, {(1, { time := 1 })}⟩ :=
    ⟨rfl, rfl⟩
  have hrun := (System.Runs.refl.snoc hsample).snoc hfork
  exact (conserved_iff .on [] hrun.of_restrict).mpr hrun

/-- A sample arrives for a pid before the fork that announces its process. -/
theorem conserved_sample_then_fork :
    ¬ ∀ (checks : OverflowChecks)
      (hooks : List (ExportSampleFilterContext → ExportFilterAction)) (calls : List RecordingCall)
      (t : Recording), (recordingSystem checks hooks).Runs ⟨.new hooks, 0⟩ calls t →
        t.Conserved := by
  intro h
  let sampled : RecordingMachine := (RecordingMachine.new []).addProcessSample 7 { time := 1 }
  have hsample : (recordingSystem .on []).step ⟨.new [], 0⟩ (.addProcessSample 7 { time := 1 })
      ⟨sampled, {(7, { time := 1 })}⟩ := rfl
  have hfork : (recordingSystem .on []).step ⟨sampled, {(7, { time := 1 })}⟩ (.forkExec 7 1)
      ⟨sampled.forkExec 7 1, {(7, { time := 1 })}⟩ := rfl
  have hlost := h .on [] _ _ ((System.Runs.refl.snoc hsample).snoc hfork)
  exact absurd (congrArg Multiset.card hlost) (by decide)

end OneCollect.Exporting
