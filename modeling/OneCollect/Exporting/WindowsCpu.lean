import Mathlib.Data.Multiset.ZeroCons
import OneCollect.Exporting.Windows

/-! CPU samples on Windows. A profile event waits under its time and thread until a callstack with
the same comes, and at the flush what still waits becomes samples of one frame.

An event that is put where another one waits takes its place. So as many samples are missing in
the end as there were such events (`card_finish`), and without them samples and events correspond
one to one (`rel_finish`). -/

namespace OneCollect.Exporting
open Theory Callstack

inductive CpuInput where
  | profile (event : ProfileEvent)
  | callstack (stack : CompletedCallstack)
  deriving DecidableEq, Repr

def CpuInput.toEvent : CpuInput → WinEvent
  | .profile event => .profile event
  | .callstack stack => .callstack stack

/-- The key under which a callstack looks for its event. -/
def cpuKey (stack : CompletedCallstack) : CpuProfileKey := ⟨stack.time, stack.tid⟩

/-- The callstacks of a time and thread. -/
def stacksFor (key : CpuProfileKey) : List CpuInput → List CompletedCallstack
  | [] => []
  | .profile _ :: inputs => stacksFor key inputs
  | .callstack stack :: inputs =>
    if cpuKey stack = key then stack :: stacksFor key inputs else stacksFor key inputs

/-- A profile event that is kept, with the callstacks of its time and thread that come after it. -/
structure Awaited where
  key : CpuProfileKey
  value : CpuProfile
  later : List CompletedCallstack
  deriving DecidableEq, Repr

def ProfileEvent.value (self : ProfileEvent) : CpuProfile := ⟨self.cpu, self.ip⟩

/-- The profile events but for those that are skipped. -/
def profiled : List CpuInput → List Awaited
  | [] => []
  | .profile event :: inputs =>
    if event.Skipped then profiled inputs
    else ⟨event.key, event.value, stacksFor event.key inputs⟩ :: profiled inputs
  | .callstack _ :: inputs => profiled inputs

/-- A sample of a process is that of an event: it has the frames of a callstack that came after
the event, or, if none came, that of the event alone in the process `unknown`. -/
structure SampleOf (machine : ExportMachine) (kind unknown : Nat) (awaited : Awaited)
    (held : Nat × ExportProcessSample) : Prop where
  time : held.2.time = awaited.key.time
  tid : held.2.tid = awaited.key.tid
  cpu : held.2.cpu = awaited.value.cpu
  kind : held.2.kind = kind
  value : held.2.value = .count 1
  frames : if awaited.later = [] then
      held.1 = unknown ∧ WindowsMachine.Shows machine held.2 [awaited.value.ip]
    else ∃ stack ∈ awaited.later, WindowsMachine.Shows machine held.2 stack.frames

section Runs

variable (kinds : WinKinds) (order : MapOrder CpuProfileKey)

/-- The machine after the inputs, before the flush. -/
def afterInputs (inputs : List CpuInput) : WindowsMachine :=
  (WindowsMachine.new []).hookAll kinds (inputs.map CpuInput.toEvent)

/-- The samples of the exporter are in one-to-one correspondence with the profile events, and the
process of those without a callstack is named `Unknown` (but for the pid 0, which has no name). -/
def CpuConserved (inputs : List CpuInput) : Prop :=
  let machine := (afterInputs kinds inputs).hookFlushed kinds.cpu order
  let unknown := (afterInputs kinds inputs).newGlobalPid.1
  Multiset.Rel (SampleOf machine.toExportMachine kinds.cpu unknown) (profiled inputs)
      machine.held ∧
    (unknown ≠ 0 → WindowsMachine.Named machine.toExportMachine unknown "Unknown")

end Runs

/-- A profile event of the key came and no callstack of it since. -/
def PendingIn (key : CpuProfileKey) (inputs : List CpuInput) : Prop :=
  ∃ before event after, inputs = before ++ .profile event :: after ∧ ¬ event.Skipped ∧
    event.key = key ∧ stacksFor key after = []

/-- No profile event comes while one of its time and thread is pending. -/
def Unshared (inputs : List CpuInput) : Prop :=
  ∀ before event after, inputs = before ++ .profile event :: after → ¬ event.Skipped →
    ¬ PendingIn event.key before

/-! ## The map of pending events -/

abbrev CpuSamples := Entries CpuProfileKey CpuProfile

/-- The map after one input. -/
def CpuInput.act (samples : CpuSamples) : CpuInput → CpuSamples
  | .profile event => if event.Skipped then samples else samples.insert event.key event.value
  | .callstack stack => samples.erase (cpuKey stack)

/-- The inputs that take the place of a pending event. -/
def overwritten : CpuSamples → List CpuInput → Nat
  | _, [] => 0
  | samples, input :: inputs =>
    (match input with
      | .profile event => if ¬ event.Skipped ∧ event.key ∈ samples then 1 else 0
      | .callstack _ => 0) + overwritten (input.act samples) inputs

/-- What still waits, with the callstacks to come. -/
def waitingFor (samples : CpuSamples) (inputs : List CpuInput) : Multiset Awaited :=
  (samples.entries : Multiset (Σ _ : CpuProfileKey, CpuProfile)).map fun entry =>
    ⟨entry.1, entry.2, stacksFor entry.1 inputs⟩

section Steps

variable {kinds : WinKinds} {order : MapOrder CpuProfileKey} {machine : WindowsMachine}
  {samples : CpuSamples}

/-- Only profile events wait, and no hook is installed. -/
structure CpuState (machine : WindowsMachine) (samples : CpuSamples) : Prop where
  cpuSamples : machine.cpuSamples = some samples
  cswitches : machine.cswitches = fun _ => none
  faults : machine.faults = fun _ => none
  hooks : machine.sampleHooks = []

theorem CpuState.profile (kinds : WinKinds) (h : CpuState machine samples) (event : ProfileEvent) :
    CpuState (machine.hook kinds (.profile event)) ((CpuInput.profile event).act samples) := by
  show CpuState (machine.hookProfileEvent event) (if event.Skipped then samples else _)
  unfold WindowsMachine.hookProfileEvent
  split
  · exact h
  · rw [h.cpuSamples]
    exact ⟨rfl, h.cswitches, h.faults, h.hooks⟩

/-- A profile event makes no sample. -/
theorem profile_recording (kinds : WinKinds) (machine : WindowsMachine) (event : ProfileEvent) :
    (machine.hook kinds (.profile event)).toRecordingMachine = machine.toRecordingMachine := by
  show (machine.hookProfileEvent event).toRecordingMachine = _
  unfold WindowsMachine.hookProfileEvent
  split
  · rfl
  · split <;> rfl

/-- Without faults and switches a callstack is for the profile events alone. -/
theorem CpuState.hookCallstack (h : CpuState machine samples) (stack : CompletedCallstack) :
    machine.hook kinds (.callstack stack) = machine.cpuCallstack kinds.cpu stack := by
  have hcpu : (machine.cpuCallstack kinds.cpu stack).cswitches = machine.cswitches ∧
      (machine.cpuCallstack kinds.cpu stack).faults = machine.faults := by
    unfold WindowsMachine.cpuCallstack
    rw [h.cpuSamples]
    dsimp only
    split
    · obtain ⟨pidMapping, pidIndex, hpid⟩ := WindowsMachine.getOrAllocGlobalPid_eq
        { machine with cpuSamples := some (samples.erase ⟨stack.time, stack.tid⟩) } stack.pid
      rw [hpid]
      exact ⟨rfl, rfl⟩
    · exact ⟨rfl, rfl⟩
  have hcswitch : (machine.cpuCallstack kinds.cpu stack).cswitchCallstack kinds.cswitch stack =
      machine.cpuCallstack kinds.cpu stack := by
    unfold WindowsMachine.cswitchCallstack
    rw [hcpu.1, h.cswitches]
  have hfault : (machine.cpuCallstack kinds.cpu stack).faultCallstack stack =
      machine.cpuCallstack kinds.cpu stack := by
    unfold WindowsMachine.faultCallstack
    rw [hcpu.2, h.faults]
  show WindowsMachine.faultCallstack (WindowsMachine.cswitchCallstack _ _ stack) stack = _
  rw [hcswitch, hfault]

/-- A callstack for which no event waits. -/
theorem CpuState.callstack_none (h : CpuState machine samples) {stack : CompletedCallstack}
    (hnone : samples.lookup (cpuKey stack) = none) :
    machine.hook kinds (.callstack stack) = machine := by
  rw [h.hookCallstack]
  unfold WindowsMachine.cpuCallstack
  rw [h.cpuSamples]
  dsimp only
  rw [show samples.lookup ⟨stack.time, stack.tid⟩ = none from hnone]

/-- A callstack for which an event waits makes the sample of the event. -/
theorem CpuState.callstack_some (kinds : WinKinds) (h : CpuState machine samples)
    {stack : CompletedCallstack} {value : CpuProfile} (hsome : samples.lookup (cpuKey stack) = some value) :
    ∃ pid pidMapping pidIndex, machine.hook kinds (.callstack stack) =
      { machine with
        cpuSamples := some (samples.erase (cpuKey stack)), pidMapping, pidIndex }.addSample
          stack.time (.count 1) pid stack.tid (toU16 value.cpu) kinds.cpu stack.frames := by
  obtain ⟨pidMapping, pidIndex, hpid⟩ := WindowsMachine.getOrAllocGlobalPid_eq
    { machine with cpuSamples := some (samples.erase (cpuKey stack)) } stack.pid
  refine ⟨({ machine with
    cpuSamples := some (samples.erase (cpuKey stack)) }.getOrAllocGlobalPid stack.pid).1,
    pidMapping, pidIndex, ?_⟩
  rw [h.hookCallstack, ← hpid]
  unfold WindowsMachine.cpuCallstack
  rw [h.cpuSamples]
  dsimp only
  rw [show samples.lookup ⟨stack.time, stack.tid⟩ = some value from hsome]
  rfl

/-- What a callstack with a waiting event leaves. -/
theorem CpuState.addSample (h : CpuState machine samples) (stack : CompletedCallstack)
    (pid cpu kind : Nat) (pidMapping : Nat → Option Nat) (pidIndex : Nat) :
    CpuState ({ machine with
      cpuSamples := some (samples.erase (cpuKey stack)), pidMapping, pidIndex }.addSample
        stack.time (.count 1) pid stack.tid cpu kind stack.frames)
      (samples.erase (cpuKey stack)) :=
  ⟨rfl, h.cswitches, h.faults, (WindowsMachine.sampleHooks_addSample _ _ _ _ _ _ _ _).trans h.hooks⟩

/-! ## The flush -/

/-- The flush adds a sample for each entry of the map, and keeps the table of callstacks. -/
theorem flush_entries (kind unknown : Nat) (final : ExportMachine)
    (entries : List (Σ _ : CpuProfileKey, CpuProfile))
    (hcpu : ∀ entry ∈ entries, entry.2.cpu < 2 ^ 16) :
    ∀ machine : WindowsMachine, machine.sampleHooks = [] →
      let after := entries.foldl (fun self entry =>
        self.addSample entry.1.time (.count 1) unknown entry.1.tid (toU16 entry.2.cpu) kind
          [entry.2.ip]) machine
      machine.callstacks.frames <+: after.callstacks.frames ∧
      (after.callstacks.frames <+: final.callstacks.frames →
        ∃ extra, after.held = machine.held + extra ∧
          Multiset.Rel (SampleOf final kind unknown)
            ((entries : Multiset (Σ _ : CpuProfileKey, CpuProfile)).map fun entry =>
              ⟨entry.1, entry.2, []⟩) extra) := by
  induction entries with
  | nil =>
    intro machine _
    exact ⟨List.prefix_refl _, fun _ => ⟨0, (add_zero _).symm, Multiset.Rel.zero⟩⟩
  | cons entry entries ih =>
    intro machine hhooks
    let next := machine.addSample entry.1.time (.count 1) unknown entry.1.tid
      (toU16 entry.2.cpu) kind [entry.2.ip]
    obtain ⟨hkept, hrest⟩ := ih (fun e he => hcpu e (List.mem_cons_of_mem _ he)) next
      ((WindowsMachine.sampleHooks_addSample _ _ _ _ _ _ _ _).trans hhooks)
    have hnext : machine.callstacks.frames <+: next.callstacks.frames := by
      rw [WindowsMachine.callstacks_addSample]
      exact prefix_insertNew _ _
    refine ⟨hnext.trans hkept, fun hfinal => ?_⟩
    obtain ⟨extra, hheld, hrel⟩ := hrest hfinal
    let sample := (machine.makeSample entry.1.time (.count 1) entry.1.tid
      (toU16 entry.2.cpu) kind [entry.2.ip]).1
    have hsample : SampleOf final kind unknown ⟨entry.1, entry.2, []⟩ (unknown, sample) := by
      refine ⟨rfl, rfl, Nat.mod_eq_of_lt (hcpu entry List.mem_cons_self), rfl, rfl, ?_⟩
      rw [if_pos rfl]
      refine ⟨rfl, (machine.makeSample_shows _ _ _ _ _ _).later ?_⟩
      have htable : (machine.makeSample entry.1.time (.count 1) entry.1.tid (toU16 entry.2.cpu)
          kind [entry.2.ip]).2.callstacks.frames = next.callstacks.frames :=
        (machine.callstacks_addSample _ _ _ _ _ _ _).symm
      rw [htable]
      exact hkept.trans hfinal
    refine ⟨(unknown, sample) ::ₘ extra, ?_, Multiset.Rel.cons hsample hrel⟩
    have hadd := machine.held_addSample hhooks entry.1.time (.count 1) unknown entry.1.tid
      (toU16 entry.2.cpu) kind [entry.2.ip]
    rw [List.foldl_cons, hheld, hadd, add_assoc, Multiset.singleton_add]

/-- The flush of a machine where only profile events wait. -/
theorem CpuState.flush (kinds : WinKinds) (order : MapOrder CpuProfileKey)
    (h : CpuState machine samples)
    (hcpu : ∀ entry ∈ samples.entries, entry.2.cpu < 2 ^ 16) :
    let after := machine.hookFlushed kinds.cpu order
    machine.callstacks.frames <+: after.callstacks.frames ∧
      ∃ extra, after.held = machine.held + extra ∧
        Multiset.Rel (SampleOf after.toExportMachine kinds.cpu machine.newGlobalPid.1)
          (waitingFor samples []) extra := by
  let unknown := machine.newGlobalPid.1
  let named := { machine with cpuSamples := none }.newGlobalPid.2.addCommExec unknown "Unknown" 0
  have hafter : machine.hookFlushed kinds.cpu order =
      (drain order samples).foldl (fun self entry =>
        self.addSample entry.1.time (.count 1) unknown entry.1.tid (toU16 entry.2.cpu) kinds.cpu
          [entry.2.ip]) named := by
    unfold WindowsMachine.hookFlushed
    rw [h.cpuSamples]
    rfl
  have hnamed : named.held = machine.held ∧ named.callstacks = machine.callstacks ∧
      named.sampleHooks = machine.sampleHooks :=
    WindowsMachine.addCommExec_samples _ unknown "Unknown" 0
  have hperm := order.perm CpuProfile samples.entries
  obtain ⟨hkept, hrest⟩ := flush_entries kinds.cpu unknown
    (machine.hookFlushed kinds.cpu order).toExportMachine (drain order samples)
    (fun entry he => hcpu entry (hperm.mem_iff.mp he)) named (hnamed.2.2.trans h.hooks)
  obtain ⟨extra, hheld, hrel⟩ := hrest (hafter ▸ List.prefix_refl _)
  dsimp only
  refine ⟨?_, extra, ?_, ?_⟩
  · rw [hafter, ← hnamed.2.1]
    exact hkept
  · rw [hafter, hheld, hnamed.1]
  · have hsame : waitingFor samples [] =
        ((drain order samples : Multiset (Σ _ : CpuProfileKey, CpuProfile)).map fun entry =>
          ⟨entry.1, entry.2, []⟩) := by
      unfold waitingFor
      rw [Multiset.coe_eq_coe.mpr hperm.symm]
      rfl
    rw [hsame]
    exact hrel

/-- The process of the samples that are left is named. -/
theorem CpuState.named_flush (kinds : WinKinds) (order : MapOrder CpuProfileKey)
    (h : CpuState machine samples) (hpid : machine.newGlobalPid.1 ≠ 0) :
    WindowsMachine.Named (machine.hookFlushed kinds.cpu order).toExportMachine
      machine.newGlobalPid.1 "Unknown" := by
  unfold WindowsMachine.hookFlushed
  rw [h.cpuSamples]
  exact List.foldlRecOn (motive := fun after : WindowsMachine =>
      WindowsMachine.Named after.toExportMachine machine.newGlobalPid.1 "Unknown")
    (drain order samples) _
    (WindowsMachine.named_addCommExec _ hpid "Unknown" 0)
    fun _ hnamed _ _ => hnamed.addSample _ _ _ _ _ _ _

/-! ## Inputs and flush -/

/-- The inputs and then the flush. -/
def finish (kinds : WinKinds) (order : MapOrder CpuProfileKey) (machine : WindowsMachine)
    (inputs : List CpuInput) : WindowsMachine :=
  (machine.hookAll kinds (inputs.map CpuInput.toEvent)).hookFlushed kinds.cpu order

/-- The map holds processor numbers of 16 bits. -/
def ShortCpus (samples : CpuSamples) : Prop := ∀ entry ∈ samples.entries, entry.2.cpu < 2 ^ 16

/-- The profile events of the inputs are of processors numbered by 16 bits. -/
def CpusFit (inputs : List CpuInput) : Prop :=
  ∀ event, CpuInput.profile event ∈ inputs → event.cpu < 2 ^ 16

theorem ShortCpus.act (h : ShortCpus samples) {input : CpuInput}
    (hinput : ∀ event, input = .profile event → event.cpu < 2 ^ 16) :
    ShortCpus (input.act samples) := by
  have herase : ∀ key, ShortCpus (samples.erase key) := fun key entry he =>
    h entry ((List.kerase_sublist key samples.entries).subset he)
  cases input with
  | profile event =>
    show ShortCpus (if event.Skipped then samples else samples.insert event.key event.value)
    split
    · exact h
    · intro entry he
      rcases List.mem_cons.mp he with rfl | he
      · exact hinput event rfl
      · exact herase event.key entry he
  | callstack stack => exact herase (cpuKey stack)

/-- A callstack to come changes what is awaited under its own key alone. -/
theorem waitingFor_callstack (stack : CompletedCallstack) (inputs : List CpuInput)
    (hnone : samples.lookup (cpuKey stack) = none) :
    waitingFor samples (.callstack stack :: inputs) = waitingFor samples inputs := by
  refine Multiset.map_congr rfl fun entry hentry => ?_
  have hne : cpuKey stack ≠ entry.1 := by
    intro hsame
    have hmem := AList.mem_lookup_iff.mpr (Multiset.mem_coe.mp hentry)
    rw [← hsame, hnone] at hmem
    cases hmem
  show Awaited.mk _ _ (if cpuKey stack = entry.1 then _ else _) = _
  rw [if_neg hne]

theorem waitingFor_profile (event : ProfileEvent) (inputs : List CpuInput) :
    waitingFor samples (.profile event :: inputs) = waitingFor samples inputs := rfl

theorem waitingFor_insert (event : ProfileEvent) (inputs : List CpuInput)
    (hnone : event.key ∉ samples) :
    waitingFor (samples.insert event.key event.value) inputs =
      ⟨event.key, event.value, stacksFor event.key inputs⟩ ::ₘ waitingFor samples inputs := by
  unfold waitingFor
  rw [AList.entries_insert_of_notMem hnone, ← Multiset.cons_coe, Multiset.map_cons]

theorem waitingFor_erase {key : CpuProfileKey} {value : CpuProfile} (inputs : List CpuInput)
    (hsome : samples.lookup key = some value) :
    waitingFor samples inputs =
      ⟨key, value, stacksFor key inputs⟩ ::ₘ waitingFor (samples.erase key) inputs := by
  unfold waitingFor
  rw [Multiset.coe_eq_coe.mpr (entries_erase hsome), ← Multiset.cons_coe, Multiset.map_cons]

section Finish

variable (kinds order)

/-- **Correspondence.** When no input takes the place of a pending event, the samples that are
made from here on are those of what waits and of the profile events to come. -/
theorem rel_finish (inputs : List CpuInput) :
    ∀ {machine : WindowsMachine} {samples : CpuSamples}, CpuState machine samples →
      ShortCpus samples → CpusFit inputs →
      let after := finish kinds order machine inputs
      machine.callstacks.frames <+: after.callstacks.frames ∧
        (overwritten samples inputs = 0 →
          ∃ extra, after.held = machine.held + extra ∧
            Multiset.Rel (SampleOf after.toExportMachine kinds.cpu
                (machine.hookAll kinds (inputs.map CpuInput.toEvent)).newGlobalPid.1)
              (waitingFor samples inputs + profiled inputs) extra) := by
  induction inputs with
  | nil =>
    intro machine samples h hshort _
    obtain ⟨hkept, extra, hheld, hrel⟩ := h.flush kinds order hshort
    refine ⟨hkept, fun _ => ⟨extra, hheld, ?_⟩⟩
    rw [profiled, Multiset.coe_nil, add_zero]
    exact hrel
  | cons input inputs ih =>
    intro machine samples h hshort hfit
    have hfit' : CpusFit inputs := fun event he => hfit event (List.mem_cons_of_mem _ he)
    have hshort' : ShortCpus (input.act samples) := hshort.act fun event he =>
      hfit event (he ▸ List.mem_cons_self)
    cases input with
    | profile event =>
      obtain ⟨hkept, hrest⟩ := ih (h.profile kinds event) hshort' hfit'
      have hrecording := profile_recording kinds machine event
      rw [hrecording] at hkept hrest
      refine ⟨hkept, fun hfree => ?_⟩
      rw [overwritten, Nat.add_eq_zero_iff] at hfree
      obtain ⟨extra, hheld, hrel⟩ := hrest hfree.2
      refine ⟨extra, hheld, ?_⟩
      have hall : waitingFor samples (.profile event :: inputs) +
          profiled (.profile event :: inputs) =
            waitingFor ((CpuInput.profile event).act samples) inputs + profiled inputs := by
        rw [waitingFor_profile]
        by_cases hskip : event.Skipped
        · have hact : (CpuInput.profile event).act samples = samples := if_pos hskip
          rw [hact, profiled, if_pos hskip]
        · have hact : (CpuInput.profile event).act samples =
              samples.insert event.key event.value := if_neg hskip
          have hnone : event.key ∉ samples := fun hmem => by
            simp [hskip, hmem] at hfree
          rw [hact, waitingFor_insert event inputs hnone, profiled, if_neg hskip,
            ← Multiset.cons_coe, Multiset.add_cons, Multiset.cons_add]
      rw [hall]
      exact hrel
    | callstack stack =>
      cases hlookup : samples.lookup (cpuKey stack) with
      | none =>
        have hact : (CpuInput.callstack stack).act samples = samples :=
          erase_of_lookup_none hlookup
        have hsame : machine.hook kinds (.callstack stack) = machine :=
          h.callstack_none hlookup
        obtain ⟨hkept, hrest⟩ := ih h hshort hfit'
        have hafter : finish kinds order machine (.callstack stack :: inputs) =
            finish kinds order machine inputs := by
          show WindowsMachine.hookFlushed _ _ (WindowsMachine.hookAll _ (machine.hook kinds
            (.callstack stack)) _) = _
          rw [hsame]
          rfl
        have hpid : machine.hookAll kinds ((CpuInput.callstack stack :: inputs).map
            CpuInput.toEvent) = machine.hookAll kinds (inputs.map CpuInput.toEvent) := by
          show WindowsMachine.hookAll _ (machine.hook kinds (.callstack stack)) _ = _
          rw [hsame]
        rw [overwritten, hact, hafter, hpid, waitingFor_callstack stack inputs hlookup]
        exact ⟨hkept, fun hfree => hrest (Nat.add_eq_zero_iff.mp hfree).2⟩
      | some value =>
        obtain ⟨pid, pidMapping, pidIndex, hhook⟩ := h.callstack_some kinds hlookup
        let base : WindowsMachine := { machine with
          cpuSamples := some (samples.erase (cpuKey stack)), pidMapping, pidIndex }
        let next := base.addSample stack.time (.count 1) pid stack.tid (toU16 value.cpu)
          kinds.cpu stack.frames
        have hstate : CpuState next (samples.erase (cpuKey stack)) :=
          h.addSample stack pid (toU16 value.cpu) kinds.cpu pidMapping pidIndex
        obtain ⟨hkept, hrest⟩ := ih hstate hshort' hfit'
        have hafter : finish kinds order machine (.callstack stack :: inputs) =
            finish kinds order next inputs := by
          show WindowsMachine.hookFlushed _ _ (WindowsMachine.hookAll _ (machine.hook kinds
            (.callstack stack)) _) = _
          rw [hhook]
          rfl
        have hpid : machine.hookAll kinds ((CpuInput.callstack stack :: inputs).map
            CpuInput.toEvent) = next.hookAll kinds (inputs.map CpuInput.toEvent) := by
          show WindowsMachine.hookAll _ (machine.hook kinds (.callstack stack)) _ = _
          rw [hhook]
        have htable : next.callstacks.frames =
            insertNew machine.callstacks.frames (WindowsMachine.framesOrNone stack.frames).tail :=
          base.callstacks_addSample _ _ _ _ _ _ _
        have hnext : machine.callstacks.frames <+: next.callstacks.frames :=
          htable ▸ prefix_insertNew _ _
        rw [overwritten, hafter, hpid]
        refine ⟨hnext.trans hkept, fun hfree => ?_⟩
        obtain ⟨extra, hheld, hrel⟩ := hrest (Nat.add_eq_zero_iff.mp hfree).2
        let sample := (base.makeSample stack.time (.count 1) stack.tid (toU16 value.cpu)
          kinds.cpu stack.frames).1
        have hadd : next.held = machine.held + {(pid, sample)} :=
          base.held_addSample h.hooks _ _ _ _ _ _ _
        have hwaiting : waitingFor samples (.callstack stack :: inputs) =
            ⟨cpuKey stack, value, stack :: stacksFor (cpuKey stack) inputs⟩ ::ₘ
              waitingFor (samples.erase (cpuKey stack)) inputs := by
          rw [waitingFor_erase _ hlookup,
            waitingFor_callstack stack inputs (AList.lookup_erase _ _), stacksFor, if_pos rfl]
        have hvalue : value.cpu < 2 ^ 16 :=
          hshort ⟨cpuKey stack, value⟩ (AList.mem_lookup_iff.mp hlookup)
        have hshows : WindowsMachine.Shows next.toExportMachine sample stack.frames :=
          (base.makeSample_shows _ _ _ _ _ _).later (by
            rw [base.callstacks_addSample]
            exact List.prefix_rfl)
        refine ⟨(pid, sample) ::ₘ extra, ?_, ?_⟩
        · rw [hheld, hadd, add_assoc, Multiset.singleton_add]
        · rw [hwaiting, Multiset.cons_add]
          refine Multiset.Rel.cons ⟨rfl, rfl, Nat.mod_eq_of_lt hvalue, rfl, rfl, ?_⟩ hrel
          rw [if_neg (List.cons_ne_nil _ _)]
          exact ⟨stack, List.mem_cons_self, hshows.later hkept⟩

end Finish

theorem length_erase {key : CpuProfileKey} {value : CpuProfile}
    (hsome : samples.lookup key = some value) :
    (samples.erase key).entries.length + 1 = samples.entries.length :=
  (entries_erase hsome).length_eq.symm

theorem length_insert (samples : CpuSamples) (key : CpuProfileKey) (value : CpuProfile) :
    (samples.insert key value).entries.length + (if key ∈ samples then 1 else 0) =
      samples.entries.length + 1 := by
  split
  · rename_i hmem
    obtain ⟨old, hold⟩ := Option.isSome_iff_exists.mp (AList.lookup_isSome.mpr hmem)
    have herase := length_erase hold
    rw [AList.entries_insert]
    exact congrArg (· + 1) herase
  · rename_i hnone
    rw [AList.entries_insert_of_notMem hnone]
    rfl

/-- **Count.** One sample is missing for each input that takes the place of a pending event. -/
theorem card_finish (kinds : WinKinds) (order : MapOrder CpuProfileKey)
    (inputs : List CpuInput) :
    ∀ {machine : WindowsMachine} {samples : CpuSamples}, CpuState machine samples →
      ShortCpus samples → CpusFit inputs →
      (finish kinds order machine inputs).held.card + overwritten samples inputs =
        machine.held.card + samples.entries.length + (profiled inputs).length := by
  induction inputs with
  | nil =>
    intro machine samples h hshort _
    obtain ⟨-, extra, hheld, hrel⟩ := h.flush kinds order hshort
    have hcard := Multiset.card_eq_card_of_rel hrel
    unfold waitingFor at hcard
    rw [Multiset.card_map, Multiset.coe_card] at hcard
    have hfinal : (finish kinds order machine []).held = machine.held + extra := hheld
    rw [hfinal, Multiset.card_add, overwritten, profiled, ← hcard]
    rfl
  | cons input inputs ih =>
    intro machine samples h hshort hfit
    have hfit' : CpusFit inputs := fun event he => hfit event (List.mem_cons_of_mem _ he)
    have hshort' : ShortCpus (input.act samples) := hshort.act fun event he =>
      hfit event (he ▸ List.mem_cons_self)
    cases input with
    | profile event =>
      have hrest := ih (h.profile kinds event) hshort' hfit'
      rw [profile_recording kinds machine event] at hrest
      have hfinal : finish kinds order machine (.profile event :: inputs) =
          finish kinds order (machine.hook kinds (.profile event)) inputs := rfl
      rw [hfinal, overwritten, profiled]
      by_cases hskip : event.Skipped
      · have hact : (CpuInput.profile event).act samples = samples := if_pos hskip
        rw [hact] at hrest ⊢
        rw [if_pos hskip]
        simpa [hskip] using hrest
      · have hact : (CpuInput.profile event).act samples =
            samples.insert event.key event.value := if_neg hskip
        have hlength := length_insert samples event.key event.value
        rw [hact] at hrest ⊢
        simp only [hskip, not_false_eq_true, true_and, if_false, List.length_cons]
        omega
    | callstack stack =>
      have hfinal : finish kinds order machine (.callstack stack :: inputs) =
          finish kinds order (machine.hook kinds (.callstack stack)) inputs := rfl
      rw [hfinal, overwritten, profiled]
      cases hlookup : samples.lookup (cpuKey stack) with
      | none =>
        have hact : (CpuInput.callstack stack).act samples = samples :=
          erase_of_lookup_none hlookup
        have hsame : machine.hook kinds (.callstack stack) = machine :=
          h.callstack_none hlookup
        rw [hsame, hact, Nat.zero_add]
        exact ih h hshort hfit'
      | some value =>
        obtain ⟨pid, pidMapping, pidIndex, hhook⟩ := h.callstack_some kinds hlookup
        have hrest := ih (h.addSample stack pid (toU16 value.cpu) kinds.cpu pidMapping pidIndex)
          hshort' hfit'
        let base : WindowsMachine := { machine with
          cpuSamples := some (samples.erase (cpuKey stack)), pidMapping, pidIndex }
        have hadd := base.held_addSample h.hooks stack.time (.count 1) pid stack.tid
          (toU16 value.cpu) kinds.cpu stack.frames
        have hcard := congrArg Multiset.card hadd
        rw [Multiset.card_add, Multiset.card_singleton] at hcard
        have hbase : base.held = machine.held := rfl
        rw [hbase] at hcard
        rw [hcard] at hrest
        have hlength := length_erase hlookup
        rw [hhook]
        show _ + (0 + overwritten (samples.erase (cpuKey stack)) inputs) = _
        omega

/-! ## Pending events, told by the inputs -/

/-- The map after some inputs. -/
def samplesAfter (samples : CpuSamples) (inputs : List CpuInput) : CpuSamples :=
  inputs.foldl (fun samples input => input.act samples) samples

theorem overwritten_eq_zero (inputs : List CpuInput) :
    ∀ samples : CpuSamples, overwritten samples inputs = 0 ↔
      ∀ before event after, inputs = before ++ .profile event :: after → ¬ event.Skipped →
        event.key ∉ samplesAfter samples before := by
  induction inputs with
  | nil =>
    intro samples
    refine ⟨fun _ before event after h => ?_, fun _ => rfl⟩
    simp at h
  | cons input inputs ih =>
    intro samples
    have hfirst : overwritten samples (input :: inputs) = 0 ↔
        (∀ event, input = .profile event → ¬ event.Skipped → event.key ∉ samples) ∧
          overwritten (input.act samples) inputs = 0 := by
      cases input with
      | profile event =>
        rw [overwritten, Nat.add_eq_zero_iff]
        simp
      | callstack stack =>
        rw [overwritten, Nat.add_eq_zero_iff]
        simp
    rw [hfirst, ih]
    constructor
    · rintro ⟨hnow, hlater⟩ before event after hinputs hskip
      rcases List.cons_eq_append_iff.mp hinputs with ⟨rfl, hhead⟩ | ⟨before, rfl, hrest⟩
      · cases hhead
        exact hnow event rfl hskip
      · exact hlater before event after hrest hskip
    · intro hall
      refine ⟨fun event hinput hskip => ?_, fun before event after hinputs hskip => ?_⟩
      · exact hall [] event inputs (by rw [hinput]; rfl) hskip
      · exact hall (input :: before) event after (by rw [hinputs]; rfl) hskip

theorem stacksFor_append (key : CpuProfileKey) (xs ys : List CpuInput) :
    stacksFor key (xs ++ ys) = stacksFor key xs ++ stacksFor key ys := by
  induction xs with
  | nil => rfl
  | cons x xs ih =>
    cases x with
    | profile event => exact ih
    | callstack stack =>
      rw [List.cons_append, stacksFor, stacksFor, ih]
      split <;> rfl

/-- What one more input does to what is pending. -/
theorem pendingIn_concat {key : CpuProfileKey} {inputs : List CpuInput} {input : CpuInput} :
    PendingIn key (inputs ++ [input]) ↔
      (∃ event, input = .profile event ∧ ¬ event.Skipped ∧ event.key = key) ∨
        (PendingIn key inputs ∧ stacksFor key [input] = []) := by
  constructor
  · rintro ⟨before, event, after, hinputs, hskip, hkey, hnone⟩
    rcases List.eq_nil_or_concat' after with rfl | ⟨after, last, rfl⟩
    · obtain ⟨-, hlast⟩ := List.append_inj' hinputs rfl
      exact .inl ⟨event, by simpa using hlast, hskip, hkey⟩
    · rw [← List.cons_append, ← List.append_assoc] at hinputs
      obtain ⟨hbefore, hlast⟩ := List.append_inj' hinputs rfl
      obtain rfl : input = last := by simpa using hlast
      rw [stacksFor_append, List.append_eq_nil_iff] at hnone
      exact .inr ⟨⟨before, event, after, hbefore, hskip, hkey, hnone.1⟩, hnone.2⟩
  · rintro (⟨event, rfl, hskip, hkey⟩ | ⟨⟨before, event, after, rfl, hskip, hkey, hnone⟩, hlast⟩)
    · exact ⟨inputs, event, [], rfl, hskip, hkey, rfl⟩
    · refine ⟨before, event, after ++ [input], by simp, hskip, hkey, ?_⟩
      rw [stacksFor_append, hnone, hlast]
      rfl

theorem mem_samplesAfter (inputs : List CpuInput) (key : CpuProfileKey) :
    key ∈ samplesAfter ∅ inputs ↔ PendingIn key inputs := by
  induction inputs using List.reverseRecOn with
  | nil =>
    refine ⟨fun h => absurd h (AList.notMem_empty key), ?_⟩
    rintro ⟨before, event, after, h, -⟩
    simp at h
  | append_singleton inputs input ih =>
    have hact : samplesAfter ∅ (inputs ++ [input]) = input.act (samplesAfter ∅ inputs) := by
      unfold samplesAfter
      rw [List.foldl_append]
      rfl
    rw [hact, pendingIn_concat, ← ih]
    cases input with
    | profile event =>
      show key ∈ (if event.Skipped then _ else _) ↔ _
      by_cases hskip : event.Skipped
      · rw [if_pos hskip]
        simp [hskip, stacksFor]
      · rw [if_neg hskip, AList.mem_insert]
        simp [hskip, stacksFor, eq_comm]
    | callstack stack =>
      show key ∈ AList.erase _ _ ↔ _
      rw [AList.mem_erase]
      simp [stacksFor, and_comm, eq_comm]

end Steps

/-! ## Conservation -/

section Conservation

variable (kinds : WinKinds) (order : MapOrder CpuProfileKey) {inputs : List CpuInput}

theorem unshared_iff : Unshared inputs ↔ overwritten ∅ inputs = 0 := by
  rw [overwritten_eq_zero]
  unfold Unshared
  simp only [mem_samplesAfter]

theorem cpuState_new : CpuState (WindowsMachine.new []) ∅ := ⟨rfl, rfl, rfl, rfl⟩

/-- A step keeps the rest of the machine empty. -/
theorem CpuState.hook {machine : WindowsMachine} {samples : CpuSamples}
    (h : CpuState machine samples) (input : CpuInput) :
    CpuState (machine.hook kinds input.toEvent) (input.act samples) := by
  cases input with
  | profile event => exact h.profile kinds event
  | callstack stack =>
    show CpuState (machine.hook kinds (.callstack stack)) (samples.erase (cpuKey stack))
    cases hlookup : samples.lookup (cpuKey stack) with
    | none =>
      rw [h.callstack_none hlookup, erase_of_lookup_none hlookup]
      exact h
    | some value =>
      obtain ⟨pid, pidMapping, pidIndex, hhook⟩ := h.callstack_some kinds hlookup
      rw [hhook]
      exact h.addSample stack pid _ _ pidMapping pidIndex

theorem cpuState_afterInputs (inputs : List CpuInput) :
    ∃ samples, CpuState (afterInputs kinds inputs) samples := by
  unfold afterInputs WindowsMachine.hookAll
  rw [List.foldl_map]
  exact List.foldlRecOn (motive := fun machine => ∃ samples, CpuState machine samples) inputs _
    ⟨∅, cpuState_new⟩ fun _ h input _ => ⟨_, h.choose_spec.hook kinds input⟩

theorem held_new : (WindowsMachine.new []).held = 0 := by decide

theorem overwritten_of_conserved (hfit : CpusFit inputs) (h : CpuConserved kinds order inputs) :
    overwritten ∅ inputs = 0 := by
  have hshort : ShortCpus ∅ := fun entry he => absurd he List.not_mem_nil
  have hcard := Multiset.card_eq_card_of_rel h.1
  have hcount := card_finish kinds order inputs cpuState_new hshort hfit
  rw [held_new, Multiset.card_zero] at hcount
  have hfinal : ((afterInputs kinds inputs).hookFlushed kinds.cpu order).held =
    (finish kinds order (WindowsMachine.new []) inputs).held := rfl
  rw [hfinal, Multiset.coe_card] at hcard
  have hnone : (∅ : CpuSamples).entries.length = 0 := rfl
  omega

/-- **CPU samples.** The samples correspond one to one to the profile events exactly when no
profile event comes while another of its time and thread is pending. -/
theorem cpuConserved_iff (hfit : CpusFit inputs) :
    CpuConserved kinds order inputs ↔ Unshared inputs := by
  rw [unshared_iff]
  constructor
  · exact overwritten_of_conserved kinds order hfit
  · intro hfree
    have hshort : ShortCpus ∅ := fun entry he => absurd he List.not_mem_nil
    obtain ⟨-, hrel⟩ := rel_finish kinds order inputs cpuState_new hshort hfit
    obtain ⟨extra, hheld, hrel⟩ := hrel hfree
    rw [held_new, zero_add] at hheld
    have hwaiting : waitingFor ∅ inputs = 0 := rfl
    rw [hwaiting, zero_add, ← hheld] at hrel
    obtain ⟨samples, hstate⟩ := cpuState_afterInputs kinds inputs
    exact ⟨hrel, hstate.named_flush kinds order⟩

end Conservation

/-- An event with a callstack, and one without. -/
theorem cpuConserved_two : CpuConserved {} (.inserted CpuProfileKey)
    [.profile ⟨10, 7, 0, 0x1000, 1⟩, .callstack ⟨10, 3, 7, [kernelStart, 0x1000]⟩,
      .profile ⟨20, 8, 1, 0x3000, 1⟩] := by
  refine (cpuConserved_iff {} _ fun event he => ?_).mpr (unshared_iff.mpr (by decide))
  simp only [List.mem_cons, CpuInput.profile.injEq, reduceCtorEq, List.not_mem_nil, or_false,
    false_or] at he
  rcases he with rfl | rfl <;> decide

/-- Two processors are idle at the same time, and one of the two events is lost. -/
theorem cpuConserved_idle : ¬ CpuConserved {} (.inserted CpuProfileKey)
    [.profile ⟨10, 0, 0, kernelStart, 2⟩, .profile ⟨10, 0, 1, kernelStart, 2⟩] := by
  intro h
  have hnone := overwritten_of_conserved {} _ (fun event he => by
    simp only [List.mem_cons, CpuInput.profile.injEq, List.not_mem_nil, or_false] at he
    rcases he with rfl | rfl <;> decide) h
  revert hnone
  decide

end OneCollect.Exporting
