import OneCollect.Callstack.MachineState

/-! Comm, fork, mmap and exit records through the hooks of the callstack helper and of the
exporter. Every record carries a pid and a tid; the two differ for a thread that is not the
leader of its process.

The comm and fork hooks of both sides pass such records over. The exit hooks do not look at
the tid: the exit of any thread ends its process. -/

namespace OneCollect.Callstack
open Theory Ruwind Exporting

/-- A record with its fields, and with what the file system and `procfs` answer the hooks. -/
inductive TaskRecord where
  | comm (pid tid : Nat) (comm : String) (time : Nat) (nsPid : Option Nat)
  | fork (pid ppid tid : Nat)
  | mmap (time pid tid addr len pgoffset maj min ino prot : Nat) (filename : String)
      (file openedFile : Option OpenedFile)
  | exit (pid tid time : Nat)

namespace TaskRecord

def pid : TaskRecord → Nat
  | comm pid .. | fork pid .. | exit pid .. => pid
  | mmap _ pid .. => pid

def tid : TaskRecord → Nat
  | comm _ tid .. | fork _ _ tid | exit _ tid _ => tid
  | mmap _ _ tid .. => tid

def isMmap : TaskRecord → Bool
  | mmap .. => true
  | _ => false

end TaskRecord

def protExec : Nat := 4

/-- The hooks of the callstack helper. -/
def MachineState.hook (checks : OverflowChecks) (self : MachineState) :
    TaskRecord → Exec MachineState
  | .comm pid tid .. => .ok (if pid ≠ tid then self else self.addCommExec pid)
  | .fork pid ppid tid => .ok (if pid ≠ tid then self else self.fork pid ppid)
  | .mmap _ pid _ addr len pgoffset maj min ino prot filename file _ =>
    if prot &&& protExec ≠ protExec then .ok self
    else self.addMmapExec checks pid addr len pgoffset maj min ino filename file
  | .exit pid _ _ => .ok (self.exit pid)

end OneCollect.Callstack

namespace OneCollect.Exporting
open Theory Callstack

/-- The hooks of the exporter. -/
def RecordingMachine.hook (checks : OverflowChecks) (self : RecordingMachine) :
    TaskRecord → Exec RecordingMachine
  | .comm pid tid comm time nsPid =>
    .ok (if pid ≠ tid then self else self.addCommExec pid comm time nsPid)
  | .fork pid ppid tid => .ok (if pid ≠ tid then self else self.forkExec pid ppid)
  | .mmap time pid _ addr len pgoffset maj min ino prot filename _ openedFile =>
    if prot &&& protExec ≠ protExec then .ok self
    else self.addMmapExec checks time pid addr len pgoffset maj min ino filename openedFile
  | .exit pid _ time => .ok (self.addCommExit pid time)

end OneCollect.Exporting

namespace OneCollect.Callstack
open Theory Ruwind Exporting

/-- The two sides that follow the records of one session. -/
structure Trackers where
  callstack : MachineState
  exporter : RecordingMachine

def Trackers.hook (checks : OverflowChecks) (self : Trackers) (record : TaskRecord) :
    Exec Trackers := do
  let callstack ← self.callstack.hook checks record
  let exporter ← self.exporter.hook checks record
  .ok ⟨callstack, exporter⟩

def trackers (checks : OverflowChecks) : System Trackers TaskRecord :=
  .ofExec (fun s => s.callstack = {} ∧ ∃ hooks, s.exporter = .new hooks) (Trackers.hook checks)

theorem hook_eq_ok {checks : OverflowChecks} {s t : Trackers} {record : TaskRecord} :
    s.hook checks record = .ok t ↔
      s.callstack.hook checks record = .ok t.callstack ∧
        s.exporter.hook checks record = .ok t.exporter := by
  unfold Trackers.hook
  constructor
  · intro h
    obtain ⟨callstack, hc, h⟩ := bind_eq_ok.mp h
    obtain ⟨exporter, he, h⟩ := bind_eq_ok.mp h
    cases h
    exact ⟨hc, he⟩
  · rintro ⟨hc, he⟩
    rw [hc, ok_bind, he, ok_bind]

/-! ## What a thread record may not do -/

/-- The processes and modules that are tracked stay, and so do the processes that are exported,
their names and exit times. -/
structure Unchanged (s t : Trackers) : Prop where
  tracked : t.callstack.machine = s.callstack.machine
  exported : ∀ pid, (t.exporter.findProcess pid).map (fun p => (p.commId, p.exitTimeQpc)) =
    (s.exporter.findProcess pid).map (fun p => (p.commId, p.exitTimeQpc))

/-- The record of a thread other than the leader leaves everything as it is, unless it is an
mmap record. -/
def PassedOver (checks : OverflowChecks) (s : Trackers) (record : TaskRecord) : Prop :=
  record.tid ≠ record.pid → record.isMmap = false →
    ∀ t, s.hook checks record = .ok t → Unchanged s t

/-- An exit record is one of the leader, or there is nothing it could end: its process is not
tracked, and not exported under a pid or exported with this exit time already. -/
def Harmless (s : Trackers) : TaskRecord → Prop
  | .exit pid tid time =>
    tid = pid ∨ s.callstack.machine.processes pid = none ∧
      (pid = 0 ∨ ∃ p, s.exporter.findProcess pid = some p ∧ p.exitTimeQpc = some time)
  | _ => True

/-- The exit hook of the exporter changes nothing exactly for pid 0 and for a process that has
the exit time already. -/
theorem addCommExit_unchanged_iff (self : RecordingMachine) (pid time : Nat) :
    (∀ q, ((self.addCommExit pid time).findProcess q).map
        (fun p => (p.commId, p.exitTimeQpc)) =
      (self.findProcess q).map (fun p => (p.commId, p.exitTimeQpc))) ↔
      pid = 0 ∨ ∃ p, self.findProcess pid = some p ∧ p.exitTimeQpc = some time := by
  unfold RecordingMachine.addCommExit
  split
  · rename_i h0
    exact ⟨fun _ => Or.inl h0, fun _ _ => rfl⟩
  · rename_i h0
    have hfind := self.findProcess_processMut pid
      (f := fun p => { p with exitTimeQpc := some time }) (fun _ => rfl)
    constructor
    · intro h
      have hpid := h pid
      rw [hfind, if_pos rfl] at hpid
      cases hp : self.findProcess pid with
      | none => rw [hp] at hpid; exact absurd hpid (by simp)
      | some p =>
        refine Or.inr ⟨p, rfl, ?_⟩
        rw [hp] at hpid
        simpa using (congrArg (Option.map Prod.snd) hpid).symm
    · rintro (h | ⟨p, hp, hexit⟩) q
      · exact absurd h h0
      · rw [hfind]
        split
        · rename_i hq
          subst hq
          simp [hp, ExportMachine.process, hexit]
        · rfl

/-- A record that neither side acts on. -/
theorem unchanged_of_hook {checks : OverflowChecks} {s t : Trackers} {record : TaskRecord}
    (hcallstack : s.callstack.hook checks record = .ok s.callstack)
    (hexporter : s.exporter.hook checks record = .ok s.exporter)
    (h : s.hook checks record = .ok t) : Unchanged s t := by
  obtain ⟨hc, he⟩ := hook_eq_ok.mp h
  have hsameCallstack := Except.ok.inj (hcallstack.symm.trans hc)
  have hsameExporter := Except.ok.inj (hexporter.symm.trans he)
  exact ⟨by rw [← hsameCallstack], fun pid => by rw [← hsameExporter]⟩

/-- **One record.** A thread record is passed over exactly when it is harmless. -/
theorem passedOver_iff (checks : OverflowChecks) (s : Trackers) (record : TaskRecord) :
    PassedOver checks s record ↔ Harmless s record := by
  cases record with
  | comm pid tid comm time nsPid =>
    refine ⟨fun _ => trivial, fun _ hne _ t ht => ?_⟩
    have hne : pid ≠ tid := Ne.symm hne
    refine unchanged_of_hook ?_ ?_ ht
    · exact congrArg Except.ok (if_pos hne)
    · exact congrArg Except.ok (if_pos hne)
  | fork pid ppid tid =>
    refine ⟨fun _ => trivial, fun _ hne _ t ht => ?_⟩
    have hne : pid ≠ tid := Ne.symm hne
    refine unchanged_of_hook ?_ ?_ ht
    · exact congrArg Except.ok (if_pos hne)
    · exact congrArg Except.ok (if_pos hne)
  | mmap => exact ⟨fun _ => trivial, fun _ _ hmmap => absurd hmmap (by simp [TaskRecord.isMmap])⟩
  | exit pid tid time =>
    have htracked : (s.callstack.exit pid).machine = s.callstack.machine ↔
        s.callstack.machine.processes pid = none := by
      unfold MachineState.exit Machine.removeProcess
      constructor
      · intro h
        rw [← h]
        exact Function.update_self ..
      · intro h
        cases hm : s.callstack.machine with
        | mk processes =>
          rw [hm] at h
          exact congrArg Machine.mk (h ▸ Function.update_eq_self pid processes)
    constructor
    · intro h
      by_cases heq : tid = pid
      · exact Or.inl heq
      · have hu := h heq rfl ⟨s.callstack.exit pid, s.exporter.addCommExit pid time⟩ rfl
        exact Or.inr ⟨htracked.mp hu.tracked, (addCommExit_unchanged_iff _ _ _).mp hu.exported⟩
    · rintro (heq | ⟨hnone, hexit⟩) hne - t ht
      · exact absurd heq hne
      · cases ht
        exact ⟨htracked.mpr hnone, (addCommExit_unchanged_iff _ _ _).mpr hexit⟩

/-! ## Modules and exit times -/

/-- The exit of a leader ends the process of `pid`. -/
def TaskRecord.EndsProcess (pid : Nat) : TaskRecord → Prop
  | exit p tid _ => p = pid ∧ tid = pid
  | _ => False

/-- The modules of a tracked process, in the order they were added. -/
def modulesOf (s : Trackers) (pid : Nat) : Option (List Module) :=
  (s.callstack.machine.processes pid).map (·.mods)

/-- A process that is tracked with some modules is still tracked, with these and maybe more. -/
def Keeps (s t : Trackers) (pid : Nat) : Prop :=
  ∀ mods, modulesOf s pid = some mods → ∃ more, modulesOf t pid = some (mods ++ more)

theorem Keeps.of_machine {s t : Trackers} {pid : Nat}
    (h : t.callstack.machine.processes pid = s.callstack.machine.processes pid) :
    Keeps s t pid := by
  intro mods hmods
  refine ⟨[], ?_⟩
  rw [List.append_nil, ← hmods, modulesOf, modulesOf, h]

theorem Keeps.trans {s t u : Trackers} {pid : Nat} (h : Keeps s t pid) (h' : Keeps t u pid) :
    Keeps s u pid := by
  intro mods hmods
  obtain ⟨more, hmore⟩ := h mods hmods
  obtain ⟨rest, hrest⟩ := h' _ hmore
  exact ⟨more ++ rest, by rw [← List.append_assoc]; exact hrest⟩

/-- Adding a process leaves those that are there. -/
theorem addProcess_keeps (self : Machine) (pid : Nat) (process : Process) {q : Nat}
    {p : Process} (h : self.processes q = some p) :
    (self.addProcess pid process).2.processes q = some p := by
  unfold Machine.addProcess
  cases hpid : self.processes pid with
  | some _ => exact h
  | none =>
    have hne : q ≠ pid := by
      rintro rfl
      rw [h] at hpid
      cases hpid
    exact (Function.update_of_ne hne _ _).trans h

theorem forkProcess_keeps (self : Machine) (pid ppid : Nat) {q : Nat} {p : Process}
    (h : self.processes q = some p) : (self.forkProcess pid ppid).2.processes q = some p := by
  unfold Machine.forkProcess
  split
  · exact addProcess_keeps self pid _ h
  · exact h

theorem addMmapExec_keeps {checks : OverflowChecks} {self after : MachineState}
    {pid addr len offset maj min ino : Nat} {filename : String} {file : Option OpenedFile}
    (h : self.addMmapExec checks pid addr len offset maj min ino filename file = .ok after)
    {q : Nat} {p : Process} (hp : self.machine.processes q = some p) :
    ∃ p' more, after.machine.processes q = some p' ∧ p'.mods = p.mods ++ more := by
  unfold MachineState.addMmapExec at h
  split at h
  · cases h
    exact ⟨p, [], hp, (List.append_nil _).symm⟩
  · rename_i process hprocess
    obtain ⟨⟨module, modules⟩, -, h⟩ := bind_eq_ok.mp h
    cases h
    by_cases hq : q = pid
    · subst hq
      obtain rfl : process = p := Option.some.inj (hprocess.symm.trans hp)
      exact ⟨_, [module], Function.update_self .., rfl⟩
    · exact ⟨p, [], (Function.update_of_ne hq _ _).trans hp, (List.append_nil _).symm⟩

theorem hook_keeps {checks : OverflowChecks} {s t : Trackers} {record : TaskRecord} {pid : Nat}
    (hh : Harmless s record) (hends : ¬ record.EndsProcess pid)
    (h : s.hook checks record = .ok t) : Keeps s t pid := by
  obtain ⟨hc, -⟩ := hook_eq_ok.mp h
  intro mods hmods
  obtain ⟨p, hp, rfl⟩ := Option.map_eq_some_iff.mp hmods
  have hstays : t.callstack.machine.processes pid = some p →
      ∃ more, modulesOf t pid = some (p.mods ++ more) := fun ht =>
    ⟨[], by rw [modulesOf, ht, List.append_nil]; rfl⟩
  cases record with
  | comm p' tid comm time nsPid =>
    refine hstays ?_
    simp only [MachineState.hook, Except.ok.injEq] at hc
    rw [← hc]
    split
    · exact hp
    · exact addProcess_keeps _ _ _ hp
  | fork p' ppid tid =>
    refine hstays ?_
    simp only [MachineState.hook, Except.ok.injEq] at hc
    rw [← hc]
    split
    · exact hp
    · exact forkProcess_keeps _ _ _ hp
  | mmap time p' tid addr len pgoffset maj min ino prot filename file openedFile =>
    simp only [MachineState.hook] at hc
    split at hc
    · exact hstays (by rw [← Except.ok.inj hc]; exact hp)
    · obtain ⟨p'', more, hp'', hmore⟩ := addMmapExec_keeps hc hp
      exact ⟨more, by rw [modulesOf, hp'', ← hmore]; rfl⟩
  | exit p' tid time =>
    refine hstays ?_
    simp only [MachineState.hook, Except.ok.injEq] at hc
    rw [← hc]
    have hne : pid ≠ p' := by
      rintro rfl
      rcases hh with heq | ⟨hnone, -⟩
      · exact hends ⟨rfl, heq⟩
      · rw [hnone] at hp
        cases hp
    exact (Function.update_of_ne hne _ _).trans hp

/-- What a record does to the exit time of a process, when only leaders end processes. The
exporter leaves pid 0 alone, and a fork starts the process afresh. -/
def exitTimeAfter (pid : Nat) (exitTime : Option Nat) : TaskRecord → Option Nat
  | .exit p tid time => if p = pid ∧ tid = pid ∧ pid ≠ 0 then some time else exitTime
  | .fork p _ tid => if p = pid ∧ tid = pid then none else exitTime
  | _ => exitTime

/-- The time at which the leader of `pid` exited, since its process was last forked. -/
def leaderExit (records : List TaskRecord) (pid : Nat) : Option Nat :=
  records.foldl (exitTimeAfter pid) none

theorem exitTime_addMmapExec {checks : OverflowChecks} {self after : RecordingMachine}
    {time pid addr len pgoffset maj min ino : Nat} {filename : String} {file : Option OpenedFile}
    (h : self.addMmapExec checks time pid addr len pgoffset maj min ino filename file =
      .ok after) (q : Nat) : (after.process q).exitTimeQpc = (self.process q).exitTimeQpc := by
  unfold RecordingMachine.addMmapExec at h
  split at h
  · cases h
    rfl
  · obtain ⟨mapping, -, h⟩ := bind_eq_ok.mp h
    cases h
    rw [RecordingMachine.process_addNewMapping]
    split
    · rename_i hq
      rw [hq]
      rfl
    · rfl

theorem exitTime_addCommExec (self : RecordingMachine) (pid : Nat) (comm : String)
    (timeQpc : Nat) (nsPid : Option Nat) (q : Nat) :
    ((self.addCommExec pid comm timeQpc nsPid).process q).exitTimeQpc =
      (self.process q).exitTimeQpc := by
  by_cases h0 : pid = 0
  · rw [RecordingMachine.addCommExec, if_pos h0]
  · rw [self.process_addCommExec h0]
    split
    · rename_i hq
      rw [hq]
    · rfl

theorem hook_exitTime {checks : OverflowChecks} {s t : Trackers} {record : TaskRecord}
    (hh : Harmless s record) (h : s.hook checks record = .ok t) (pid : Nat) :
    (t.exporter.process pid).exitTimeQpc =
      exitTimeAfter pid (s.exporter.process pid).exitTimeQpc record := by
  obtain ⟨-, he⟩ := hook_eq_ok.mp h
  cases record with
  | comm p tid comm time nsPid =>
    simp only [RecordingMachine.hook, Except.ok.injEq] at he
    rw [← he]
    split
    · rfl
    · exact exitTime_addCommExec ..
  | fork p ppid tid =>
    simp only [RecordingMachine.hook, Except.ok.injEq] at he
    rw [← he, exitTimeAfter]
    by_cases htid : p = tid
    · rw [if_neg (not_not.mpr htid), RecordingMachine.process_forkExec]
      by_cases hp : pid = p
      · rw [if_pos hp, if_pos ⟨hp.symm, htid.symm.trans hp.symm⟩]
        rfl
      · rw [if_neg hp, if_neg fun h => hp h.1.symm]
    · rw [if_pos htid, if_neg fun h => htid (h.1.trans h.2.symm)]
  | mmap time p tid addr len pgoffset maj min ino prot filename file openedFile =>
    simp only [RecordingMachine.hook] at he
    split at he
    · rw [← Except.ok.inj he]
      rfl
    · exact exitTime_addMmapExec he pid
  | exit p tid time =>
    simp only [RecordingMachine.hook, Except.ok.injEq] at he
    rw [← he, exitTimeAfter]
    by_cases h0 : p = 0
    · rw [RecordingMachine.addCommExit, if_pos h0,
        if_neg fun h => h.2.2 (h.1.symm.trans h0)]
    · rw [s.exporter.process_addCommExit h0]
      by_cases hp : pid = p
      · subst hp
        rw [if_pos rfl]
        rcases hh with htid | ⟨-, hzero | ⟨process, hprocess, hexit⟩⟩
        · rw [if_pos ⟨rfl, htid, h0⟩]
        · exact absurd hzero h0
        · have hsame : (s.exporter.process pid).exitTimeQpc = some time := by
            rw [ExportMachine.process, hprocess, Option.getD_some, hexit]
          split
          · rfl
          · exact hsame.symm
      · rw [if_neg hp, if_neg fun h => hp h.1.symm]

/-! ## Runs -/

section Runs

variable {checks : OverflowChecks} {records : List TaskRecord} {s t : Trackers}

theorem runs_keeps (h : ((trackers checks).restrict Harmless).Runs s records t) {pid : Nat}
    (hends : ∀ record ∈ records, ¬ record.EndsProcess pid) : Keeps s t pid := by
  induction h with
  | refl => exact .of_machine rfl
  | snoc _ hstep ih =>
    refine (ih fun r hr => hends r (by simp [hr])).trans ?_
    exact hook_keeps hstep.1 (hends _ (by simp)) hstep.2

theorem runs_exitTime (h : ((trackers checks).restrict Harmless).Runs s records t) (pid : Nat) :
    (t.exporter.process pid).exitTimeQpc =
      records.foldl (exitTimeAfter pid) (s.exporter.process pid).exitTimeQpc := by
  induction h with
  | refl => rfl
  | snoc _ hstep ih =>
    rw [List.foldl_append, List.foldl_cons, List.foldl_nil, ← ih]
    exact hook_exitTime hstep.1 hstep.2 pid

/-- Thread records do not end a process in a run from `s` to `t`. -/
structure ThreadsPassOver (checks : OverflowChecks) (s : Trackers) (records : List TaskRecord)
    (t : Trackers) : Prop where
  /-- No thread record changes anything, mmap records aside. -/
  passed : ((trackers checks).restrict (PassedOver checks)).Runs s records t
  /-- A tracked process keeps its modules until its leader exits. -/
  kept : ∀ (before after : List TaskRecord) (u : Trackers), records = before ++ after →
    (trackers checks).Runs s before u → ∀ pid, (∀ record ∈ after, ¬ record.EndsProcess pid) →
      Keeps u t pid
  /-- The exit time of a process is that of its leader. -/
  exited : ∀ pid, (t.exporter.process pid).exitTimeQpc = leaderExit records pid

/-- **Thread records.** After any run of comm, fork, mmap and exit records, thread records have
left the processes alone, modules have stayed and exit times are those of the leaders exactly
when every exit record was harmless. -/
theorem threadsPassOver_iff (hs : (trackers checks).init s)
    (h : (trackers checks).Runs s records t) :
    ThreadsPassOver checks s records t ↔
      ((trackers checks).restrict Harmless).Runs s records t := by
  have hrestrict := System.restrict_congr (S := trackers checks) (passedOver_iff checks)
  constructor
  · intro hover
    exact hrestrict ▸ hover.passed
  · intro hrun
    refine ⟨hrestrict ▸ hrun, ?_, fun pid => ?_⟩
    · rintro before after u rfl hu pid hends
      obtain ⟨v, hv, hafter⟩ := System.runs_append.mp hrun
      obtain rfl := System.runs_ofExec_unique hu hv.of_restrict
      exact runs_keeps hafter hends
    · obtain ⟨-, hooks, hexporter⟩ := hs
      have hnone : (s.exporter.process pid).exitTimeQpc = none := by
        rw [hexporter]
        rfl
      rw [runs_exitTime hrun, hnone]
      rfl

end Runs

/-- Before any record. -/
def untracked : Trackers := ⟨{}, .new []⟩

/-- Process 7 has started. -/
def started : Trackers :=
  ⟨untracked.callstack.addCommExec 7, untracked.exporter.addCommExec 7 "a" 1 none⟩

theorem init_untracked (checks : OverflowChecks) : (trackers checks).init untracked :=
  ⟨rfl, [], rfl⟩

/-- A thread is named and the leader exits. -/
theorem threadsPassOver_leader :
    ThreadsPassOver .on untracked
      [.comm 7 7 "a" 1 none, .comm 7 8 "b" 2 none, .exit 7 7 9]
      ⟨started.callstack.exit 7, started.exporter.addCommExit 7 9⟩ := by
  have hstart : ((trackers .on).restrict Harmless).step untracked (.comm 7 7 "a" 1 none) started :=
    ⟨trivial, rfl⟩
  have hthread : ((trackers .on).restrict Harmless).step started (.comm 7 8 "b" 2 none) started :=
    ⟨trivial, rfl⟩
  have hexit : ((trackers .on).restrict Harmless).step started (.exit 7 7 9)
      ⟨started.callstack.exit 7, started.exporter.addCommExit 7 9⟩ := ⟨Or.inl rfl, rfl⟩
  have hrun := ((System.Runs.refl.snoc hstart).snoc hthread).snoc hexit
  exact (threadsPassOver_iff (init_untracked .on) hrun.of_restrict).mpr hrun

/-- Thread 8 of process 7 exits, and with it the process. -/
theorem thread_exit_ends_process :
    ¬ ∀ (checks : OverflowChecks) (s : Trackers) (records : List TaskRecord) (t : Trackers),
      (trackers checks).init s → (trackers checks).Runs s records t →
        ThreadsPassOver checks s records t := by
  intro h
  have hstart : (trackers .on).step untracked (.comm 7 7 "a" 1 none) started := rfl
  have hexit : (trackers .on).step started (.exit 7 8 9)
      ⟨started.callstack.exit 7, started.exporter.addCommExit 7 9⟩ := rfl
  have hover := h .on untracked _ _ (init_untracked .on) ((System.Runs.refl.snoc hstart).snoc hexit)
  exact absurd (hover.exited 7) (by decide)

end OneCollect.Callstack
