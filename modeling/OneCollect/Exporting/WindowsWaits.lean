import OneCollect.Exporting.Windows
import OneCollect.Theory.Place

/-! Samples of faults and waits on Windows. The last fault of a thread, and its last switches, stay
in an entry of the thread until the callstack with their time comes.

An entry is a `Place`: what is in it is told by the events so far. A later fault or switch of the
thread replaces it, so the callstack of the earlier one finds nothing (`WaitsConserved`,
`NotOvertaken`). -/

namespace OneCollect.Exporting
open Theory Callstack

namespace WinEvent

/-- A fault of the thread. -/
def Faults (tid : Nat) : WinEvent → Prop
  | .fault event => event.tid = tid
  | _ => False

/-- The thread runs again. -/
def SwitchesIn (tid : Nat) : WinEvent → Prop
  | .cswitch event => event.newTid = tid
  | _ => False

/-- The thread is interrupted. -/
def SwitchesOut (tid : Nat) : WinEvent → Prop
  | .cswitch event => event.oldTid = tid
  | _ => False

def Switches (tid : Nat) (event : WinEvent) : Prop :=
  event.SwitchesIn tid ∨ event.SwitchesOut tid

/-- A fault or a switch of the thread. -/
def Involves (tid : Nat) (event : WinEvent) : Prop := event.Faults tid ∨ event.Switches tid

/-- The callstack is that of the event: of the fault, or of the thread that runs again. -/
def Awaits (stack : CompletedCallstack) (event : WinEvent) : Prop :=
  event.time = stack.time ∧ (event.Faults stack.tid ∨ event.SwitchesIn stack.tid)

/-- The events of faults and waits. -/
def OfWaits : WinEvent → Prop
  | .fault event => 0 < event.time ∧ event.cpu < 2 ^ 16
  | .cswitch event => 0 < event.time ∧ event.cpu < 2 ^ 16
  | .callstack _ => True
  | _ => False

end WinEvent

/-- The switch that interrupted the thread, after one more event. -/
def outAfter (tid : Nat) (out : Option CSwitchEvent) : WinEvent → Option CSwitchEvent
  | .cswitch switch =>
    if switch.oldTid = tid then some switch else if switch.newTid = tid then none else out
  | _ => out

/-- The switch that interrupted the thread, if it does not run again since. -/
def switchedOut (tid : Nat) (events : List WinEvent) : Option CSwitchEvent :=
  events.foldl (outAfter tid) none

section Spec

variable (events : List WinEvent) (callstackOf : Nat → Nat)

/-- An event between two positions. -/
def Between (p : WinEvent → Prop) (i n : Nat) : Prop :=
  ∃ k event, i < k ∧ k < n ∧ events[k]? = some event ∧ p event

/-- The switch-out of the wait that the event at a position ends. -/
def waitEnded (tid i : Nat) : Option CSwitchEvent :=
  match events[i]? with
  | some (.cswitch switch) =>
    if switch.newTid = tid ∧ tid ≠ 0 then switchedOut tid (events.take i) else none
  | _ => none

/-- The events are faults, switches and their callstacks. The callstack at the position `j` is
that of the event at `callstackOf j`, which has no other. -/
structure Traced : Prop where
  only : ∀ event ∈ events, event.OfWaits
  earlier : ∀ (j : Nat) (stack : CompletedCallstack), events[j]? = some (.callstack stack) →
    callstackOf j < j ∧ ∃ event, events[callstackOf j]? = some event ∧ event.Awaits stack
  once : ∀ (j j' : Nat) (stack stack' : CompletedCallstack),
    events[j]? = some (.callstack stack) → events[j']? = some (.callstack stack') →
    callstackOf j = callstackOf j' → j = j'

/-- The events of a thread have times that increase, but for switches of the idle thread, which
every processor has. A switch is to another thread, and after its first switch-out a thread runs
again only when it does not run. -/
structure Orderly : Prop where
  times : ∀ (i k : Nat) (event event' : WinEvent) (tid : Nat), i < k →
    events[i]? = some event → events[k]? = some event' → event.Involves tid →
    event'.Involves tid → (tid = 0 → event.Faults tid ∨ event'.Faults tid) →
    event.time < event'.time
  other : ∀ switch, .cswitch switch ∈ events → switch.newTid ≠ 0 →
    switch.oldTid ≠ switch.newTid
  alternate : ∀ (a b : Nat) (switch switch' : CSwitchEvent), a < b →
    events[a]? = some (.cswitch switch) → events[b]? = some (.cswitch switch') →
    switch'.newTid ≠ 0 → switch.oldTid = switch'.newTid →
    (switchedOut switch'.newTid (events.take b)).isSome

/-- No fault is followed by another one of its thread before its callstack comes, and no wait by
another switch of its thread. -/
structure NotOvertaken : Prop where
  faults : ∀ (j : Nat) (stack : CompletedCallstack) (event : FaultEvent),
    events[j]? = some (.callstack stack) → events[callstackOf j]? = some (.fault event) →
    ¬ Between events (WinEvent.Faults stack.tid) (callstackOf j) j
  waits : ∀ (j : Nat) (stack : CompletedCallstack), events[j]? = some (.callstack stack) →
    (waitEnded events stack.tid (callstackOf j)).isSome →
    ¬ Between events (WinEvent.Switches stack.tid) (callstackOf j) j

end Spec

/-- The sample of a fault. -/
structure FaultSample (machine : ExportMachine) (event : FaultEvent) (stack : CompletedCallstack)
    (sample : ExportProcessSample) : Prop where
  time : sample.time = event.time
  tid : sample.tid = event.tid
  cpu : sample.cpu = event.cpu
  kind : sample.kind = event.kind
  value : sample.value = .count 1
  frames : WindowsMachine.Shows machine sample stack.frames

/-- The sample of a wait from the switch-out to the time of the callstack. -/
structure WaitSample (machine : ExportMachine) (kind : Nat) (out : CSwitchEvent)
    (stack : CompletedCallstack) (sample : ExportProcessSample) : Prop where
  time : sample.time = out.time
  tid : sample.tid = stack.tid
  cpu : sample.cpu = out.cpu
  kind : sample.kind = kind
  value : sample.value = .duration (stack.time - out.time)
  frames : WindowsMachine.Shows machine sample stack.frames

/-- There is one sample where one is expected, and none otherwise. -/
def OneFor {α : Type} (expected : Option α) (is : α → ExportProcessSample → Prop)
    (samples : Multiset (Nat × ExportProcessSample)) : Prop :=
  match expected with
  | some x => ∃ pid sample, samples = {(pid, sample)} ∧ is x sample
  | none => samples = 0

section Property

variable (kinds : WinKinds) (events : List WinEvent) (callstackOf : Nat → Nat)

/-- The machine before the event at a position. -/
def stateAt (n : Nat) : WindowsMachine := (WindowsMachine.new []).hookAll kinds (events.take n)

/-- The fault at a position. -/
def faultAt (i : Nat) : Option FaultEvent :=
  match events[i]? with
  | some (.fault event) => some event
  | _ => none

/-- A callstack adds the sample of its fault, or of the wait that its switch ended, and no other.
Other events add none. -/
structure WaitsConserved : Prop where
  callstack : ∀ (j : Nat) (stack : CompletedCallstack), events[j]? = some (.callstack stack) →
    ∃ faults waits, (stateAt kinds events (j + 1)).held =
        (stateAt kinds events j).held + waits + faults ∧
      OneFor (faultAt events (callstackOf j))
        (fun event => FaultSample (stateAt kinds events (j + 1)).toExportMachine event stack)
        faults ∧
      OneFor (waitEnded events stack.tid (callstackOf j))
        (fun out => WaitSample (stateAt kinds events (j + 1)).toExportMachine kinds.cswitch out
          stack) waits
  other : ∀ (j : Nat) (event : WinEvent), events[j]? = some event →
    (∀ stack, event ≠ .callstack stack) →
    (stateAt kinds events (j + 1)).held = (stateAt kinds events j).held

end Property

/-! ## What the callbacks do -/

namespace WindowsMachine

variable {self : WindowsMachine} {stack : CompletedCallstack} {kind : Nat}

theorem cswitchCallstack_none
    (h : ∀ info, self.cswitches stack.tid = some info → info.endTime ≠ stack.time) :
    self.cswitchCallstack kind stack = self := by
  unfold cswitchCallstack
  cases hentry : self.cswitches stack.tid with
  | none => rfl
  | some info => exact if_neg (h info hentry)

/-- The callstack of a wait takes the entry out. A wait of no time makes no sample. -/
theorem cswitchCallstack_some (kind : Nat) {info : WinCSwitch}
    (h : self.cswitches stack.tid = some info) (hend : info.endTime = stack.time) :
    ∃ pid pidMapping pidIndex, self.cswitchCallstack kind stack =
      let taken := { self with
        cswitches := Function.update self.cswitches stack.tid none, pidMapping, pidIndex }
      if info.startTime < info.endTime then
        taken.addSample info.startTime (.duration (info.endTime - info.startTime)) pid stack.tid
          (toU16 info.cpu) kind stack.frames
      else taken := by
  let taken : WindowsMachine :=
    { self with cswitches := Function.update self.cswitches stack.tid none }
  obtain ⟨pidMapping, pidIndex, hpid⟩ := taken.getOrAllocGlobalPid_eq stack.pid
  refine ⟨(taken.getOrAllocGlobalPid stack.pid).1, pidMapping, pidIndex, ?_⟩
  show _ = if info.startTime < info.endTime then
    WindowsMachine.addSample { taken with pidMapping, pidIndex } _ _ _ _ _ _ _
    else { taken with pidMapping, pidIndex }
  rw [← hpid]
  unfold cswitchCallstack
  rw [h]
  dsimp only
  rw [if_pos hend]
  rfl

theorem faultCallstack_none
    (h : ∀ info, self.faults stack.tid = some info → info.time ≠ stack.time) :
    self.faultCallstack stack = self := by
  unfold faultCallstack
  cases hentry : self.faults stack.tid with
  | none => rfl
  | some info => exact if_neg (h info hentry)

/-- The callstack of a fault. -/
theorem faultCallstack_some {info : WinFault} (h : self.faults stack.tid = some info)
    (htime : info.time = stack.time) :
    ∃ pid pidMapping pidIndex, self.faultCallstack stack =
      { self with
        faults := Function.update self.faults stack.tid none
        pidMapping, pidIndex }.addSample info.time (.count 1) pid stack.tid (toU16 info.cpu)
          info.kind stack.frames := by
  let taken : WindowsMachine :=
    { self with faults := Function.update self.faults stack.tid none }
  obtain ⟨pidMapping, pidIndex, hpid⟩ := taken.getOrAllocGlobalPid_eq stack.pid
  refine ⟨(taken.getOrAllocGlobalPid stack.pid).1, pidMapping, pidIndex, ?_⟩
  show _ = WindowsMachine.addSample { taken with pidMapping, pidIndex } _ _ _ _ _ _ _
  rw [← hpid]
  unfold faultCallstack
  rw [h]
  dsimp only
  rw [if_pos htime]
  rfl

/-- What the callstack of a switch leaves alone. -/
theorem cswitchCallstack_same (self : WindowsMachine) (stack : CompletedCallstack) (kind : Nat) :
    (self.cswitchCallstack kind stack).faults = self.faults ∧
      (self.cswitchCallstack kind stack).cpuSamples = self.cpuSamples ∧
      (self.cswitchCallstack kind stack).sampleHooks = self.sampleHooks := by
  by_cases hfound : ∃ info, self.cswitches stack.tid = some info ∧ info.endTime = stack.time
  · obtain ⟨info, hentry, hend⟩ := hfound
    obtain ⟨pid, pidMapping, pidIndex, heq⟩ := cswitchCallstack_some kind hentry hend
    rw [heq]
    dsimp only
    split
    · exact ⟨rfl, rfl, sampleHooks_addSample _ _ _ _ _ _ _ _⟩
    · exact ⟨rfl, rfl, rfl⟩
  · rw [cswitchCallstack_none fun info hentry hend => hfound ⟨info, hentry, hend⟩]
    exact ⟨rfl, rfl, rfl⟩

theorem faultCallstack_same (self : WindowsMachine) (stack : CompletedCallstack) :
    (self.faultCallstack stack).cswitches = self.cswitches ∧
      (self.faultCallstack stack).cpuSamples = self.cpuSamples ∧
      (self.faultCallstack stack).sampleHooks = self.sampleHooks := by
  by_cases hfound : ∃ info, self.faults stack.tid = some info ∧ info.time = stack.time
  · obtain ⟨info, hentry, htime⟩ := hfound
    obtain ⟨pid, pidMapping, pidIndex, heq⟩ := faultCallstack_some hentry htime
    rw [heq]
    exact ⟨rfl, rfl, sampleHooks_addSample _ _ _ _ _ _ _ _⟩
  · rw [faultCallstack_none fun info hentry htime => hfound ⟨info, hentry, htime⟩]
    exact ⟨rfl, rfl, rfl⟩

/-- The callstack of a switch takes the entry out that ends at its time. -/
theorem cswitches_cswitchCallstack (self : WindowsMachine) (stack : CompletedCallstack)
    (kind tid : Nat) :
    (self.cswitchCallstack kind stack).cswitches tid =
      (self.cswitches tid).filter fun info =>
        !(decide (stack.tid = tid) && decide (info.endTime = stack.time)) := by
  refine filter_of_update_none (fun info hentry hend => ?_) (fun hnone => ?_) tid
  · obtain ⟨pid, pidMapping, pidIndex, heq⟩ :=
      cswitchCallstack_some kind hentry (of_decide_eq_true hend)
    rw [heq]
    dsimp only
    split <;> rfl
  · rw [cswitchCallstack_none fun info hentry => of_decide_eq_false (hnone info hentry)]

theorem faults_faultCallstack (self : WindowsMachine) (stack : CompletedCallstack) (tid : Nat) :
    (self.faultCallstack stack).faults tid =
      (self.faults tid).filter fun info =>
        !(decide (stack.tid = tid) && decide (info.time = stack.time)) := by
  refine filter_of_update_none (fun info hentry htime => ?_) (fun hnone => ?_) tid
  · obtain ⟨pid, pidMapping, pidIndex, heq⟩ :=
      faultCallstack_some hentry (of_decide_eq_true htime)
    rw [heq]
    rfl
  · rw [faultCallstack_none fun info hentry => of_decide_eq_false (hnone info hentry)]

end WindowsMachine

/-! ## Steps -/

/-- No profile event waits, and no hook is installed. -/
structure WaitState (machine : WindowsMachine) : Prop where
  cpuSamples : machine.cpuSamples = some ∅
  hooks : machine.sampleHooks = []

/-- What an event puts into the fault entry of a thread. -/
def putFault (tid : Nat) : WinEvent → Option WinFault
  | .fault event =>
    if event.tid = tid then some ⟨event.kind, event.cpu, event.time⟩ else none
  | _ => none

/-- A callstack takes out what has its time, from the entries of its thread. -/
def takesOut (tid time : Nat) : WinEvent → Bool
  | .callstack stack => stack.tid = tid && time = stack.time
  | _ => false

/-- What an event puts into the switch entry of a thread. -/
def putWait (tid : Nat) (entry : Option WinCSwitch) : WinEvent → Option WinCSwitch
  | .cswitch event =>
    if tid = 0 then none
    else if event.oldTid = tid then some ⟨event.cpu, event.time, 0⟩
    else if event.newTid = tid then entry.map fun info => { info with endTime := event.time }
    else none
  | _ => none

section Steps

variable {kinds : WinKinds} {machine : WindowsMachine} {event : WinEvent}

/-- Without profile events a callstack is for switches and faults. -/
theorem WaitState.hookCallstack (h : WaitState machine) (stack : CompletedCallstack) :
    machine.hook kinds (.callstack stack) =
      (machine.cswitchCallstack kinds.cswitch stack).faultCallstack stack := by
  have hcpu : machine.cpuCallstack kinds.cpu stack = machine := by
    unfold WindowsMachine.cpuCallstack
    rw [h.cpuSamples]
    rfl
  show WindowsMachine.faultCallstack (WindowsMachine.cswitchCallstack _ (machine.cpuCallstack _ _) _)
    _ = _
  rw [hcpu]

theorem WaitState.hook (h : WaitState machine) (hevent : event.OfWaits) :
    WaitState (machine.hook kinds event) := by
  cases event with
  | fault event => exact ⟨h.cpuSamples, h.hooks⟩
  | cswitch event =>
    show WaitState ((machine.switchIn event).switchOut event)
    unfold WindowsMachine.switchOut WindowsMachine.switchIn
    split <;> split <;> try split
    all_goals exact ⟨h.cpuSamples, h.hooks⟩
  | callstack stack =>
    rw [h.hookCallstack]
    obtain ⟨-, hcpu, hhooks⟩ := machine.cswitchCallstack_same stack kinds.cswitch
    obtain ⟨-, hcpu', hhooks'⟩ :=
      (machine.cswitchCallstack kinds.cswitch stack).faultCallstack_same stack
    exact ⟨hcpu'.trans (hcpu.trans h.cpuSamples), hhooks'.trans (hhooks.trans h.hooks)⟩
  | profile event => exact hevent.elim
  | imageLoad event => exact hevent.elim
  | processStart event => exact hevent.elim
  | processEnd event => exact hevent.elim

/-- What one event does to the fault entry of a thread. -/
theorem WaitState.faults_hook (h : WaitState machine) (hevent : event.OfWaits) (tid : Nat) :
    (machine.hook kinds event).faults tid = (putFault tid event).or
      ((machine.faults tid).filter fun info => !takesOut tid info.time event) := by
  cases event with
  | fault event =>
    show Function.update machine.faults event.tid _ tid = _
    by_cases htid : event.tid = tid
    · subst htid
      rw [Function.update_self, putFault, if_pos rfl, Option.some_or]
    · rw [Function.update_of_ne (Ne.symm htid), putFault, if_neg htid, Option.none_or]
      exact (filter_keep _).symm
  | cswitch event =>
    have hsame : (machine.hook kinds (.cswitch event)).faults = machine.faults := by
      show ((machine.switchIn event).switchOut event).faults = _
      unfold WindowsMachine.switchOut WindowsMachine.switchIn
      split <;> split <;> try split
      all_goals rfl
    rw [hsame]
    exact (filter_keep _).symm
  | callstack stack =>
    rw [h.hookCallstack, WindowsMachine.faults_faultCallstack,
      (machine.cswitchCallstack_same stack kinds.cswitch).1]
    rfl
  | profile event => exact hevent.elim
  | imageLoad event => exact hevent.elim
  | processStart event => exact hevent.elim
  | processEnd event => exact hevent.elim

theorem cswitches_switchIn (machine : WindowsMachine) (event : CSwitchEvent) (tid : Nat) :
    (machine.switchIn event).cswitches tid =
      if event.newTid = tid ∧ tid ≠ 0 then
        (machine.cswitches tid).map fun info => { info with endTime := event.time }
      else machine.cswitches tid := by
  unfold WindowsMachine.switchIn
  by_cases hidle : event.newTid = 0
  · rw [if_pos hidle, if_neg fun h => h.2 (h.1.symm.trans hidle)]
  · rw [if_neg hidle]
    by_cases htid : event.newTid = tid
    · subst htid
      rw [if_pos ⟨rfl, hidle⟩]
      cases hentry : machine.cswitches event.newTid with
      | none => exact hentry
      | some info => exact Function.update_self _ _ _
    · rw [if_neg fun h => htid h.1]
      cases machine.cswitches event.newTid with
      | none => rfl
      | some info => exact Function.update_of_ne (Ne.symm htid) _ _

theorem cswitches_switchOut (machine : WindowsMachine) (event : CSwitchEvent) (tid : Nat) :
    (machine.switchOut event).cswitches tid =
      if event.oldTid = tid ∧ tid ≠ 0 then some ⟨event.cpu, event.time, 0⟩
      else machine.cswitches tid := by
  unfold WindowsMachine.switchOut
  by_cases hidle : event.oldTid = 0
  · rw [if_pos hidle, if_neg fun h => h.2 (h.1.symm.trans hidle)]
  · rw [if_neg hidle]
    by_cases htid : event.oldTid = tid
    · subst htid
      rw [if_pos ⟨rfl, hidle⟩]
      exact Function.update_self _ _ _
    · rw [if_neg fun h => htid h.1]
      exact Function.update_of_ne (Ne.symm htid) _ _

/-- What a switch does to the entry of a thread. -/
theorem cswitches_hookCSwitchEvent (machine : WindowsMachine) (event : CSwitchEvent) (tid : Nat) :
    (machine.hookCSwitchEvent event).cswitches tid =
      (putWait tid (machine.cswitches tid) (.cswitch event)).or (machine.cswitches tid) := by
  unfold WindowsMachine.hookCSwitchEvent putWait
  rw [cswitches_switchOut, cswitches_switchIn]
  by_cases hidle : tid = 0
  · simp [hidle]
  · by_cases hold : event.oldTid = tid
    · simp [hidle, hold]
    · by_cases hnew : event.newTid = tid
      · cases hentry : machine.cswitches tid <;> simp [hidle, hold, hnew]
      · simp [hidle, hold, hnew]

/-- What one event does to the switch entry of a thread. -/
theorem WaitState.cswitches_hook (kinds : WinKinds) (h : WaitState machine)
    (hevent : event.OfWaits) (tid : Nat) :
    (machine.hook kinds event).cswitches tid = (putWait tid (machine.cswitches tid) event).or
      ((machine.cswitches tid).filter fun info => !takesOut tid info.endTime event) := by
  cases event with
  | fault event => exact (filter_keep _).symm
  | cswitch event =>
    refine (cswitches_hookCSwitchEvent machine event tid).trans ?_
    congr 1
    exact (filter_keep _).symm
  | callstack stack =>
    rw [h.hookCallstack, (WindowsMachine.faultCallstack_same _ stack).1,
      WindowsMachine.cswitches_cswitchCallstack]
    rfl
  | profile event => exact hevent.elim
  | imageLoad event => exact hevent.elim
  | processStart event => exact hevent.elim
  | processEnd event => exact hevent.elim

/-- Faults and switches make no sample. -/
theorem held_hook (hevent : event.OfWaits) (hother : ∀ stack, event ≠ .callstack stack) :
    (machine.hook kinds event).held = machine.held := by
  cases event with
  | fault event => rfl
  | cswitch event =>
    show ((machine.switchIn event).switchOut event).held = _
    unfold WindowsMachine.switchOut WindowsMachine.switchIn
    split <;> split <;> try split
    all_goals rfl
  | callstack stack => exact absurd rfl (hother stack)
  | profile event => exact hevent.elim
  | imageLoad event => exact hevent.elim
  | processStart event => exact hevent.elim
  | processEnd event => exact hevent.elim

end Steps

/-! ## Entries along a run -/

section Runs

variable {kinds : WinKinds} {events : List WinEvent} {callstackOf : Nat → Nat}

theorem stateAt_succ (kinds : WinKinds) {n : Nat} {event : WinEvent}
    (h : events[n]? = some event) :
    stateAt kinds events (n + 1) = (stateAt kinds events n).hook kinds event := by
  unfold stateAt WindowsMachine.hookAll
  rw [List.take_add_one, h, List.foldl_append]
  rfl

theorem stateAt_end (kinds : WinKinds) {n : Nat} (h : events[n]? = none) :
    stateAt kinds events (n + 1) = stateAt kinds events n := by
  unfold stateAt
  rw [List.take_add_one, h, Option.toList_none, List.append_nil]

theorem Traced.ofWaits (h : Traced events callstackOf) {n : Nat} {event : WinEvent}
    (hevent : events[n]? = some event) : event.OfWaits :=
  h.only event (List.mem_of_getElem? hevent)

theorem Traced.waitState (h : Traced events callstackOf) (kinds : WinKinds) (n : Nat) :
    WaitState (stateAt kinds events n) := by
  induction n with
  | zero => exact ⟨rfl, rfl⟩
  | succ n ih =>
    cases hevent : events[n]? with
    | none =>
      rw [stateAt_end kinds hevent]
      exact ih
    | some event =>
      rw [stateAt_succ kinds hevent]
      exact ih.hook (h.ofWaits hevent)

/-- The fault entry of a thread is a place. -/
theorem Traced.faultPlace (h : Traced events callstackOf) (kinds : WinKinds) (tid : Nat) :
    Place (fun n => events[n]?.bind (putFault tid))
      (fun n info => events[n]?.any (takesOut tid info.time) = true)
      (fun n => (stateAt kinds events n).faults tid) := by
  refine Place.of_step rfl fun n => ?_
  cases hevent : events[n]? with
  | none =>
    rw [stateAt_end kinds hevent]
    exact (filter_keep _).symm
  | some event =>
    rw [stateAt_succ kinds hevent]
    exact (h.waitState kinds n).faults_hook (h.ofWaits hevent) tid

/-- The switch entry of a thread is a place. -/
theorem Traced.waitPlace (h : Traced events callstackOf) (kinds : WinKinds) (tid : Nat) :
    Place (fun n => events[n]?.bind (putWait tid ((stateAt kinds events n).cswitches tid)))
      (fun n info => events[n]?.any (takesOut tid info.endTime) = true)
      (fun n => (stateAt kinds events n).cswitches tid) := by
  refine Place.of_step rfl fun n => ?_
  cases hevent : events[n]? with
  | none =>
    rw [stateAt_end kinds hevent]
    exact (filter_keep _).symm
  | some event =>
    rw [stateAt_succ kinds hevent]
    exact (h.waitState kinds n).cswitches_hook kinds (h.ofWaits hevent) tid

/-- The time of a callstack is that of a fault or switch, so it is not zero. -/
theorem Traced.time_pos (h : Traced events callstackOf) {j : Nat} {stack : CompletedCallstack}
    (hstack : events[j]? = some (.callstack stack)) : 0 < stack.time := by
  obtain ⟨-, event, hevent, htime, hkind⟩ := h.earlier j stack hstack
  rw [← htime]
  have hof := h.ofWaits hevent
  cases event with
  | fault event => exact hof.1
  | cswitch event => exact hof.1
  | callstack stack => exact (hkind.elim id id).elim
  | profile event => exact hof.elim
  | imageLoad event => exact hof.elim
  | processStart event => exact hof.elim
  | processEnd event => exact hof.elim

/-! ## The wait that a switch ends -/

theorem switchedOut_succ {n : Nat} {event : WinEvent} (tid : Nat) (h : events[n]? = some event) :
    switchedOut tid (events.take (n + 1)) = outAfter tid (switchedOut tid (events.take n)) event := by
  unfold switchedOut
  rw [List.take_add_one, h, List.foldl_append]
  rfl

/-- The switch-out of a wait is an event of the thread. -/
theorem exists_of_switchedOut {n tid : Nat} {out : CSwitchEvent}
    (h : switchedOut tid (events.take n) = some out) :
    ∃ o < n, events[o]? = some (.cswitch out) ∧ out.oldTid = tid := by
  induction n with
  | zero => cases h
  | succ n ih =>
    have hlater : switchedOut tid (events.take n) = some out →
        ∃ o < n + 1, events[o]? = some (.cswitch out) ∧ out.oldTid = tid := by
      intro hout
      obtain ⟨o, ho, hrest⟩ := ih hout
      exact ⟨o, Nat.lt_succ_of_lt ho, hrest⟩
    cases hevent : events[n]? with
    | none =>
      rw [List.take_add_one, hevent, Option.toList_none, List.append_nil] at h
      exact hlater h
    | some event =>
      rw [switchedOut_succ tid hevent] at h
      cases event with
      | cswitch switch =>
        rw [outAfter] at h
        split at h
        · rename_i hold
          cases h
          exact ⟨n, Nat.lt_succ_self n, hevent, hold⟩
        · split at h
          · cases h
          · exact hlater h
      | profile event => exact hlater h
      | fault event => exact hlater h
      | imageLoad event => exact hlater h
      | processStart event => exact hlater h
      | processEnd event => exact hlater h
      | callstack stack => exact hlater h

/-- The entry of a thread that waits is that of its switch-out, and one that was never switched
out has none. -/
theorem Traced.entry_of_switchedOut (h : Traced events callstackOf) (kinds : WinKinds)
    {tid : Nat} (hidle : tid ≠ 0) (n : Nat) :
    (∀ out, switchedOut tid (events.take n) = some out →
      (stateAt kinds events n).cswitches tid = some ⟨out.cpu, out.time, 0⟩) ∧
    ((∀ o < n, ∀ switch, events[o]? = some (.cswitch switch) → switch.oldTid ≠ tid) →
      (stateAt kinds events n).cswitches tid = none) := by
  induction n with
  | zero => exact ⟨fun out hout => (by cases hout), fun _ => rfl⟩
  | succ n ih =>
    have hbefore : (∀ o < n + 1, ∀ switch, events[o]? = some (.cswitch switch) →
        switch.oldTid ≠ tid) → (stateAt kinds events n).cswitches tid = none :=
      fun hnever => ih.2 fun o ho => hnever o (Nat.lt_succ_of_lt ho)
    cases hevent : events[n]? with
    | none =>
      rw [stateAt_end kinds hevent, List.take_add_one, hevent, Option.toList_none,
        List.append_nil]
      exact ⟨ih.1, hbefore⟩
    | some event =>
      have hstep := (h.waitState kinds n).cswitches_hook kinds (h.ofWaits hevent) tid
      rw [stateAt_succ kinds hevent, switchedOut_succ tid hevent, hstep]
      cases event with
      | cswitch switch =>
        rw [outAfter, putWait, if_neg hidle]
        by_cases hold : switch.oldTid = tid
        · rw [if_pos hold, if_pos hold, Option.some_or]
          refine ⟨fun out hout => ?_, fun hnever => ?_⟩
          · obtain rfl := Option.some.inj hout
            rfl
          · exact absurd hold (hnever n (Nat.lt_succ_self n) switch hevent)
        · rw [if_neg hold, if_neg hold]
          by_cases hnew : switch.newTid = tid
          · rw [if_pos hnew, if_pos hnew]
            refine ⟨fun out hout => (by cases hout), fun hnever => ?_⟩
            rw [hbefore hnever]
            rfl
          · rw [if_neg hnew, if_neg hnew, Option.none_or]
            exact ⟨fun out hout => (filter_keep _).trans (ih.1 out hout),
              fun hnever => (filter_keep _).trans (hbefore hnever)⟩
      | callstack stack =>
        -- the entry of a thread that waits has no end, so no callstack takes it out
        refine ⟨fun out hout => ?_, fun hnever => ?_⟩
        · have hpos := h.time_pos hevent
          have hput : ∀ entry, putWait tid entry (.callstack stack) = none := fun _ => rfl
          rw [ih.1 out hout, hput, Option.none_or]
          refine Option.filter_some_pos ?_
          simp only [takesOut, Bool.not_eq_true', Bool.and_eq_false_imp, decide_eq_true_eq,
            decide_eq_false_iff_not]
          intro _
          omega
        · rw [hbefore hnever]
          rfl
      | fault event =>
        exact ⟨fun out hout => (filter_keep _).trans (ih.1 out hout),
          fun hnever => (filter_keep _).trans (hbefore hnever)⟩
      | profile event => exact (h.ofWaits hevent).elim
      | imageLoad event => exact (h.ofWaits hevent).elim
      | processStart event => exact (h.ofWaits hevent).elim
      | processEnd event => exact (h.ofWaits hevent).elim

/-- The entry of a thread when it runs again. -/
theorem Traced.entry_at_in (h : Traced events callstackOf) (horder : Orderly events)
    (kinds : WinKinds) {i : Nat} {switch : CSwitchEvent}
    (hevent : events[i]? = some (.cswitch switch)) (hidle : switch.newTid ≠ 0) :
    (stateAt kinds events i).cswitches switch.newTid =
      (waitEnded events switch.newTid i).map fun out => ⟨out.cpu, out.time, 0⟩ := by
  obtain ⟨hwaiting, hnever⟩ := h.entry_of_switchedOut kinds hidle i
  rw [waitEnded, hevent]
  dsimp only
  rw [if_pos ⟨rfl, hidle⟩]
  cases hout : switchedOut switch.newTid (events.take i) with
  | some out => exact hwaiting out hout
  | none =>
    refine hnever fun o ho first hfirst hold => ?_
    have hsome := horder.alternate o i first switch ho hfirst hevent hidle hold
    rw [hout] at hsome
    cases hsome

/-- What a switch puts into the entry of a thread. -/
theorem Traced.putWait_eq (h : Traced events callstackOf) (horder : Orderly events)
    (kinds : WinKinds) {tid : Nat} (hidle : tid ≠ 0) {i : Nat} {switch : CSwitchEvent}
    (hevent : events[i]? = some (.cswitch switch)) :
    putWait tid ((stateAt kinds events i).cswitches tid) (.cswitch switch) =
      if switch.oldTid = tid then some ⟨switch.cpu, switch.time, 0⟩
      else (waitEnded events tid i).map fun out => ⟨out.cpu, out.time, switch.time⟩ := by
  rw [putWait, if_neg hidle]
  by_cases hold : switch.oldTid = tid
  · rw [if_pos hold, if_pos hold]
  · rw [if_neg hold, if_neg hold]
    by_cases hnew : switch.newTid = tid
    · subst hnew
      rw [if_pos rfl, h.entry_at_in horder kinds hevent hidle, Option.map_map]
      rfl
    · rw [if_neg hnew, waitEnded, hevent]
      dsimp only
      rw [if_neg fun h => hnew h.1]
      rfl

/-! ## What a callstack finds -/

/-- Two events of a thread at one time are the same, but for switches of the idle thread. -/
theorem Orderly.position_eq (horder : Orderly events) {i k tid : Nat} {event event' : WinEvent}
    (hevent : events[i]? = some event) (hevent' : events[k]? = some event')
    (hinvolves : event.Involves tid) (hinvolves' : event'.Involves tid)
    (hidle : tid = 0 → event.Faults tid ∨ event'.Faults tid) (htime : event.time = event'.time) :
    i = k := by
  rcases Nat.lt_trichotomy i k with hlt | heq | hgt
  · have := horder.times i k event event' tid hlt hevent hevent' hinvolves hinvolves' hidle
    omega
  · exact heq
  · have := horder.times k i event' event tid hgt hevent' hevent hinvolves' hinvolves
      fun hzero => (hidle hzero).symm
    omega

theorem WinEvent.Awaits.involves {stack : CompletedCallstack} {event : WinEvent}
    (h : event.Awaits stack) : event.Involves stack.tid :=
  h.2.imp id .inl

/-- No two callstacks of one event come, so before a callstack none of its time and thread came
since its event. -/
theorem Traced.only_callstack (h : Traced events callstackOf) (horder : Orderly events)
    {j k : Nat} {stack stack' : CompletedCallstack} (hstack : events[j]? = some (.callstack stack))
    (hstack' : events[k]? = some (.callstack stack')) (hkj : k < j) (htid : stack'.tid = stack.tid)
    (htime : stack'.time = stack.time)
    (hidle : stack.tid = 0 → ∃ event, events[callstackOf j]? = some event ∧ event.Faults stack.tid) :
    False := by
  obtain ⟨-, event, hevent, hawaits⟩ := h.earlier j stack hstack
  obtain ⟨-, event', hevent', hawaits'⟩ := h.earlier k stack' hstack'
  have hinvolves' : event'.Involves stack.tid := htid ▸ hawaits'.involves
  have hsame : callstackOf j = callstackOf k := by
    refine horder.position_eq hevent hevent' hawaits.involves hinvolves' (fun hzero => ?_) ?_
    · obtain ⟨fault, hfault, hfaults⟩ := hidle hzero
      rw [hevent] at hfault
      obtain rfl := Option.some.inj hfault
      exact .inl hfaults
    · rw [hawaits.1, hawaits'.1, htime]
  exact absurd (h.once j k stack stack' hstack hstack' hsame) (by omega)

theorem bind_putFault_eq_some {n tid : Nat} {info : WinFault} :
    events[n]?.bind (putFault tid) = some info ↔
      ∃ event, events[n]? = some (.fault event) ∧ event.tid = tid ∧
        info = ⟨event.kind, event.cpu, event.time⟩ := by
  rw [Option.bind_eq_some_iff]
  constructor
  · rintro ⟨event, hevent, hput⟩
    cases event with
    | fault event =>
      obtain ⟨htid, hinfo⟩ := Option.ite_none_right_eq_some.mp hput
      exact ⟨event, hevent, htid, (Option.some.inj hinfo).symm⟩
    | profile event => cases hput
    | cswitch event => cases hput
    | imageLoad event => cases hput
    | processStart event => cases hput
    | processEnd event => cases hput
    | callstack stack => cases hput
  · rintro ⟨event, hevent, htid, hinfo⟩
    exact ⟨.fault event, hevent, Option.ite_none_right_eq_some.mpr ⟨htid, congrArg some hinfo.symm⟩⟩

theorem any_takesOut {k tid time : Nat} (h : events[k]?.any (takesOut tid time) = true) :
    ∃ stack, events[k]? = some (.callstack stack) ∧ stack.tid = tid ∧ time = stack.time := by
  cases hevent : events[k]? with
  | none =>
    rw [hevent] at h
    cases h
  | some event =>
    rw [hevent, Option.any_some] at h
    cases event with
    | callstack stack =>
      rw [takesOut, Bool.and_eq_true, decide_eq_true_eq, decide_eq_true_eq] at h
      exact ⟨stack, rfl, h⟩
    | profile event => cases h
    | fault event => cases h
    | cswitch event => cases h
    | imageLoad event => cases h
    | processStart event => cases h
    | processEnd event => cases h

theorem faultAt_eq_some {i : Nat} {event : FaultEvent} :
    faultAt events i = some event ↔ events[i]? = some (.fault event) := by
  unfold faultAt
  split
  · rename_i found hfound
    rw [hfound, Option.some_inj, Option.some_inj, WinEvent.fault.injEq]
  · rename_i hnone
    exact ⟨fun h => (by cases h), fun h => absurd h (hnone event)⟩

/-- No fault of the thread comes between two positions. -/
theorem not_between_faults {tid i j : Nat} :
    ¬ Between events (WinEvent.Faults tid) i j ↔
      ∀ k, i < k → k < j → events[k]?.bind (putFault tid) = none := by
  constructor
  · intro hnot k hik hkj
    rw [Option.eq_none_iff_forall_ne_some]
    intro info hput
    obtain ⟨event, hevent, htid, -⟩ := bind_putFault_eq_some.mp hput
    exact hnot ⟨k, .fault event, hik, hkj, hevent, htid⟩
  · rintro hnone ⟨k, event, hik, hkj, hevent, hfaults⟩
    cases event with
    | fault event =>
      have hput := bind_putFault_eq_some.mpr ⟨event, hevent, hfaults, rfl⟩
      rw [hnone k hik hkj] at hput
      cases hput
    | profile event => exact hfaults
    | cswitch event => exact hfaults
    | imageLoad event => exact hfaults
    | processStart event => exact hfaults
    | processEnd event => exact hfaults
    | callstack stack => exact hfaults

/-- A callstack finds the fault that it belongs to, unless a later one of the thread came. -/
theorem Traced.fault_found (h : Traced events callstackOf) (horder : Orderly events)
    (kinds : WinKinds) {j : Nat} {stack : CompletedCallstack}
    (hstack : events[j]? = some (.callstack stack)) (info : WinFault) :
    (stateAt kinds events j).faults stack.tid = some info ∧ info.time = stack.time ↔
      ∃ event, faultAt events (callstackOf j) = some event ∧
        info = ⟨event.kind, event.cpu, event.time⟩ ∧
        ¬ Between events (WinEvent.Faults stack.tid) (callstackOf j) j := by
  obtain ⟨hearlier, origin, horigin, hawaits⟩ := h.earlier j stack hstack
  have hplace := h.faultPlace kinds stack.tid
  have honly : info.time = stack.time → ∀ i' < j,
      events[i']?.bind (putFault stack.tid) = some info → i' = callstackOf j := by
    intro htime i' _ hput
    obtain ⟨event, hevent, htid, rfl⟩ := bind_putFault_eq_some.mp hput
    exact horder.position_eq hevent horigin (.inl htid) hawaits.involves
      (fun _ => .inl htid) (htime.trans hawaits.1.symm)
  rw [not_between_faults]
  constructor
  · rintro ⟨hentry, htime⟩
    obtain ⟨i', hi', hput, hrest⟩ := hplace.eq_some_iff.mp hentry
    obtain rfl := honly htime i' hi' hput
    obtain ⟨event, hevent, -, hinfo⟩ := bind_putFault_eq_some.mp hput
    exact ⟨event, faultAt_eq_some.mpr hevent, hinfo, fun k hik hkj => (hrest k hik hkj).1⟩
  · rintro ⟨event, hfault, rfl, hnone⟩
    have hevent := faultAt_eq_some.mp hfault
    obtain rfl := Option.some.inj (horigin.symm.trans hevent)
    have htid : event.tid = stack.tid := hawaits.2.elim id False.elim
    refine ⟨(hplace.eq_some_iff_of_only hearlier (honly hawaits.1) fun k hik hkj htakes => ?_).mpr
      ⟨bind_putFault_eq_some.mpr ⟨event, hevent, htid, rfl⟩, hnone⟩, hawaits.1⟩
    obtain ⟨stack', hstack', htid', htime'⟩ := any_takesOut htakes
    exact h.only_callstack horder hstack hstack' hkj htid' (htime'.symm.trans hawaits.1)
      fun _ => ⟨.fault event, hevent, htid⟩

theorem waitEnded_eq_some {tid i : Nat} {out : CSwitchEvent} :
    waitEnded events tid i = some out ↔ ∃ switch, events[i]? = some (.cswitch switch) ∧
      switch.newTid = tid ∧ tid ≠ 0 ∧ switchedOut tid (events.take i) = some out := by
  unfold waitEnded
  split
  · rename_i switch hswitch
    rw [Option.ite_none_right_eq_some, hswitch]
    constructor
    · rintro ⟨⟨hnew, hidle⟩, hout⟩
      exact ⟨switch, rfl, hnew, hidle, hout⟩
    · rintro ⟨found, hfound, hnew, hidle, hout⟩
      obtain rfl := WinEvent.cswitch.inj (Option.some.inj hfound)
      exact ⟨⟨hnew, hidle⟩, hout⟩
  · rename_i hnone
    exact ⟨fun h => (by cases h), fun ⟨switch, hswitch, _⟩ => absurd hswitch (hnone switch)⟩

/-- What is put into the switch entry of a thread: a switch-out, or a wait that ends. -/
theorem Traced.bind_putWait_eq_some (h : Traced events callstackOf) (horder : Orderly events)
    (kinds : WinKinds) {n tid : Nat} {info : WinCSwitch} :
    events[n]?.bind (putWait tid ((stateAt kinds events n).cswitches tid)) = some info ↔
      tid ≠ 0 ∧ ∃ switch, events[n]? = some (.cswitch switch) ∧
        (switch.oldTid = tid ∧ info = ⟨switch.cpu, switch.time, 0⟩ ∨
          ∃ out, waitEnded events tid n = some out ∧
            info = ⟨out.cpu, out.time, switch.time⟩) := by
  by_cases hidle : tid = 0
  · subst hidle
    refine ⟨fun hput => ?_, fun hand => absurd rfl hand.1⟩
    obtain ⟨event, -, hput⟩ := Option.bind_eq_some_iff.mp hput
    cases event <;> cases hput
  rw [Option.bind_eq_some_iff]
  constructor
  · rintro ⟨event, hevent, hput⟩
    cases event with
    | cswitch switch =>
      refine ⟨hidle, switch, hevent, ?_⟩
      rw [h.putWait_eq horder kinds hidle hevent] at hput
      split at hput
      · rename_i hold
        exact .inl ⟨hold, (Option.some.inj hput).symm⟩
      · obtain ⟨out, hout, hinfo⟩ := Option.map_eq_some_iff.mp hput
        exact .inr ⟨out, hout, hinfo.symm⟩
    | profile event => cases hput
    | fault event => cases hput
    | imageLoad event => cases hput
    | processStart event => cases hput
    | processEnd event => cases hput
    | callstack stack => cases hput
  · rintro ⟨-, switch, hswitch, hput⟩
    refine ⟨.cswitch switch, hswitch, ?_⟩
    rw [h.putWait_eq horder kinds hidle hswitch]
    rcases hput with ⟨hold, rfl⟩ | ⟨out, hout, rfl⟩
    · rw [if_pos hold]
    · obtain ⟨found, hfound, hnew, -⟩ := waitEnded_eq_some.mp hout
      obtain rfl := WinEvent.cswitch.inj (Option.some.inj (hswitch.symm.trans hfound))
      have hold : switch.oldTid ≠ tid := by
        rw [← hnew]
        exact horder.other switch (List.mem_of_getElem? hswitch) (hnew ▸ hidle)
      rw [if_neg hold, hout]
      rfl

/-- No switch of a thread comes after the end of its wait and before another position. -/
theorem Traced.not_between_switches (h : Traced events callstackOf) (horder : Orderly events)
    (kinds : WinKinds) {tid i j : Nat} {out : CSwitchEvent}
    (hended : waitEnded events tid i = some out) :
    ¬ Between events (WinEvent.Switches tid) i j ↔ ∀ k, i < k → k < j →
      events[k]?.bind (putWait tid ((stateAt kinds events k).cswitches tid)) = none := by
  obtain ⟨-, -, -, hidle, hout⟩ := waitEnded_eq_some.mp hended
  obtain ⟨o, hoi, hfirst, hold⟩ := exists_of_switchedOut hout
  constructor
  · intro hnot k hik hkj
    rw [Option.eq_none_iff_forall_ne_some]
    intro info hput
    obtain ⟨-, switch, hswitch, hkind⟩ := (h.bind_putWait_eq_some horder kinds).mp hput
    refine hnot ⟨k, .cswitch switch, hik, hkj, hswitch, ?_⟩
    rcases hkind with ⟨hold, -⟩ | ⟨ended, hended, -⟩
    · exact .inr hold
    · obtain ⟨found, hfound, hnew, -⟩ := waitEnded_eq_some.mp hended
      obtain rfl := WinEvent.cswitch.inj (Option.some.inj (hswitch.symm.trans hfound))
      exact .inl hnew
  · rintro hnone ⟨k, event, hik, hkj, hevent, hswitches⟩
    cases event with
    | cswitch switch =>
      have hput : ∃ info,
          events[k]?.bind (putWait tid ((stateAt kinds events k).cswitches tid)) = some info := by
        rcases hswitches with hnew | hold
        · -- the thread was switched out before, so it waits when it runs again
          have hnew : switch.newTid = tid := hnew
          have hsome := horder.alternate o k out switch (by omega) hfirst hevent
            (hnew ▸ hidle) (hold.trans hnew.symm)
          rw [hnew] at hsome
          obtain ⟨ended, hended⟩ := Option.isSome_iff_exists.mp hsome
          exact ⟨_, (h.bind_putWait_eq_some horder kinds).mpr ⟨hidle, switch, hevent,
            .inr ⟨ended, waitEnded_eq_some.mpr ⟨switch, hevent, hnew, hidle, hended⟩, rfl⟩⟩⟩
        · exact ⟨_, (h.bind_putWait_eq_some horder kinds).mpr
            ⟨hidle, switch, hevent, .inl ⟨hold, rfl⟩⟩⟩
      obtain ⟨info, hinfo⟩ := hput
      rw [hnone k hik hkj] at hinfo
      cases hinfo
    | profile event => exact hswitches.elim id id
    | fault event => exact hswitches.elim id id
    | imageLoad event => exact hswitches.elim id id
    | processStart event => exact hswitches.elim id id
    | processEnd event => exact hswitches.elim id id
    | callstack stack => exact hswitches.elim id id

/-- A callstack finds the wait that its switch ended, unless a later switch of the thread came. -/
theorem Traced.wait_found (h : Traced events callstackOf) (horder : Orderly events)
    (kinds : WinKinds) {j : Nat} {stack : CompletedCallstack}
    (hstack : events[j]? = some (.callstack stack)) (info : WinCSwitch) :
    (stateAt kinds events j).cswitches stack.tid = some info ∧ info.endTime = stack.time ↔
      ∃ out, waitEnded events stack.tid (callstackOf j) = some out ∧
        info = ⟨out.cpu, out.time, stack.time⟩ ∧
        ¬ Between events (WinEvent.Switches stack.tid) (callstackOf j) j := by
  obtain ⟨hearlier, origin, horigin, hawaits⟩ := h.earlier j stack hstack
  have hplace := h.waitPlace kinds stack.tid
  have hpos := h.time_pos hstack
  have hended : info.endTime = stack.time → ∀ i' < j,
      events[i']?.bind (putWait stack.tid ((stateAt kinds events i').cswitches stack.tid)) =
        some info →
      i' = callstackOf j ∧ ∃ out, waitEnded events stack.tid i' = some out ∧
        info = ⟨out.cpu, out.time, stack.time⟩ := by
    intro hend i' _ hput
    obtain ⟨hidle, switch, hswitch, ⟨-, rfl⟩ | ⟨out, hout, rfl⟩⟩ :=
      (h.bind_putWait_eq_some horder kinds).mp hput
    · -- a switch-out has no end, and the time is not zero
      exact absurd hend (Nat.ne_of_lt hpos)
    · obtain ⟨found, hfound, hnew, -⟩ := waitEnded_eq_some.mp hout
      obtain rfl := WinEvent.cswitch.inj (Option.some.inj (hswitch.symm.trans hfound))
      have hend : switch.time = stack.time := hend
      refine ⟨?_, out, hout, by rw [hend]⟩
      exact horder.position_eq hswitch horigin (.inr (.inl hnew)) hawaits.involves
        (fun hzero => absurd hzero hidle) (hend.trans hawaits.1.symm)
  constructor
  · rintro ⟨hentry, hend⟩
    obtain ⟨i', hi', hput, hrest⟩ := hplace.eq_some_iff.mp hentry
    obtain ⟨rfl, out, hout, hinfo⟩ := hended hend i' hi' hput
    exact ⟨out, hout, hinfo, (h.not_between_switches horder kinds hout).mpr
      fun k hik hkj => (hrest k hik hkj).1⟩
  · rintro ⟨out, hout, rfl, hnot⟩
    obtain ⟨switch, hswitch, hnew, hidle, -⟩ := waitEnded_eq_some.mp hout
    obtain rfl := Option.some.inj (horigin.symm.trans hswitch)
    refine ⟨(hplace.eq_some_iff_of_only hearlier (fun i' hi' hput => (hended rfl i' hi' hput).1)
      fun k hik hkj htakes => ?_).mpr ⟨?_, ?_⟩, rfl⟩
    · obtain ⟨stack', hstack', htid', htime'⟩ := any_takesOut htakes
      exact h.only_callstack horder hstack hstack' hkj htid' htime'.symm
        fun hzero => absurd hzero hidle
    · have htime : switch.time = stack.time := hawaits.1
      exact (h.bind_putWait_eq_some horder kinds).mpr
        ⟨hidle, switch, hswitch, .inr ⟨out, hout, by rw [htime]⟩⟩
    · exact (h.not_between_switches horder kinds hout).mp hnot

/-! ## Samples of a callstack -/

theorem OneFor.card {α : Type} {expected : Option α} {is : α → ExportProcessSample → Prop}
    {samples : Multiset (Nat × ExportProcessSample)} (h : OneFor expected is samples) :
    Multiset.card samples = if expected.isSome then 1 else 0 := by
  cases expected with
  | none =>
    rw [show samples = 0 from h]
    rfl
  | some x =>
    obtain ⟨pid, sample, rfl, -⟩ := h
    rfl

/-- A callstack that finds nothing changes nothing. -/
theorem Traced.nothing_found (h : Traced events callstackOf) (kinds : WinKinds) {j : Nat}
    {stack : CompletedCallstack} (hstack : events[j]? = some (.callstack stack))
    (hwait : ∀ info, (stateAt kinds events j).cswitches stack.tid = some info →
      info.endTime ≠ stack.time)
    (hfault : ∀ info, (stateAt kinds events j).faults stack.tid = some info →
      info.time ≠ stack.time) :
    stateAt kinds events (j + 1) = stateAt kinds events j := by
  rw [stateAt_succ kinds hstack, (h.waitState kinds j).hookCallstack,
    WindowsMachine.cswitchCallstack_none hwait, WindowsMachine.faultCallstack_none hfault]

/-- A callstack finds a fault or a wait, if its samples are as many as they should be. -/
theorem Traced.found_of_conserved (h : Traced events callstackOf)
    (hconserved : WaitsConserved kinds events callstackOf) {j : Nat} {stack : CompletedCallstack}
    (hstack : events[j]? = some (.callstack stack))
    (hexpected : (faultAt events (callstackOf j)).isSome ∨
      (waitEnded events stack.tid (callstackOf j)).isSome) :
    (∃ info, (stateAt kinds events j).cswitches stack.tid = some info ∧
      info.endTime = stack.time) ∨
    ∃ info, (stateAt kinds events j).faults stack.tid = some info ∧ info.time = stack.time := by
  by_contra hnot
  obtain ⟨hwait, hfault⟩ := not_or.mp hnot
  have hsame := h.nothing_found kinds hstack
    (fun info hentry hend => hwait ⟨info, hentry, hend⟩)
    (fun info hentry htime => hfault ⟨info, hentry, htime⟩)
  obtain ⟨faults, waits, hheld, hfaults, hwaits⟩ := hconserved.callstack j stack hstack
  rw [hsame] at hheld
  have hcard := congrArg Multiset.card hheld
  rw [Multiset.card_add, Multiset.card_add, hfaults.card, hwaits.card] at hcard
  rcases hexpected with hsome | hsome
  · rw [if_pos hsome] at hcard
    omega
  · rw [if_pos hsome] at hcard
    omega

/-- The event of a callstack is not both a fault and a switch. -/
theorem waitEnded_of_faultAt {tid i : Nat} {event : FaultEvent}
    (h : faultAt events i = some event) : waitEnded events tid i = none := by
  rw [Option.eq_none_iff_forall_ne_some]
  intro out hout
  obtain ⟨switch, hswitch, -⟩ := waitEnded_eq_some.mp hout
  rw [faultAt_eq_some.mp h] at hswitch
  cases hswitch

/-- The callstack of a fault adds its sample. -/
theorem Traced.callstack_fault (h : Traced events callstackOf) (horder : Orderly events)
    (hnot : NotOvertaken events callstackOf) (kinds : WinKinds) {j : Nat}
    {stack : CompletedCallstack} {event : FaultEvent}
    (hstack : events[j]? = some (.callstack stack))
    (hevent : faultAt events (callstackOf j) = some event) :
    ∃ pid sample, (stateAt kinds events (j + 1)).held =
        (stateAt kinds events j).held + {(pid, sample)} ∧
      FaultSample (stateAt kinds events (j + 1)).toExportMachine event stack sample := by
  have horigin := faultAt_eq_some.mp hevent
  obtain ⟨hentry, htime⟩ := (h.fault_found horder kinds hstack _).mpr
    ⟨event, hevent, rfl, hnot.faults j stack event hstack horigin⟩
  have hwait : ∀ info, (stateAt kinds events j).cswitches stack.tid = some info →
      info.endTime ≠ stack.time := by
    intro info hinfo hend
    obtain ⟨out, hout, -⟩ := (h.wait_found horder kinds hstack info).mp ⟨hinfo, hend⟩
    rw [waitEnded_of_faultAt hevent] at hout
    cases hout
  obtain ⟨pid, pidMapping, pidIndex, heq⟩ := WindowsMachine.faultCallstack_some hentry htime
  rw [stateAt_succ kinds hstack, (h.waitState kinds j).hookCallstack,
    WindowsMachine.cswitchCallstack_none hwait, heq]
  refine ⟨pid, _, WindowsMachine.held_addSample _ (h.waitState kinds j).hooks _ _ _ _ _ _ _, ?_⟩
  obtain ⟨-, found, hfound, -, hfaults⟩ := h.earlier j stack hstack
  obtain rfl := Option.some.inj (hfound.symm.trans horigin)
  exact ⟨rfl, (hfaults.elim id False.elim : event.tid = stack.tid).symm,
    Nat.mod_eq_of_lt (h.ofWaits horigin).2, rfl, rfl,
    WindowsMachine.addSample_shows _ _ _ _ _ _ _ _⟩

/-- The callstack of a thread that waited adds the sample of the wait. -/
theorem Traced.callstack_wait (h : Traced events callstackOf) (horder : Orderly events)
    (hnot : NotOvertaken events callstackOf) (kinds : WinKinds) {j : Nat}
    {stack : CompletedCallstack} {out : CSwitchEvent}
    (hstack : events[j]? = some (.callstack stack))
    (hout : waitEnded events stack.tid (callstackOf j) = some out) :
    ∃ pid sample, (stateAt kinds events (j + 1)).held =
        (stateAt kinds events j).held + {(pid, sample)} ∧
      WaitSample (stateAt kinds events (j + 1)).toExportMachine kinds.cswitch out stack
        sample := by
  obtain ⟨hentry, hend⟩ := (h.wait_found horder kinds hstack _).mpr ⟨out, hout, rfl,
    hnot.waits j stack hstack (Option.isSome_iff_exists.mpr ⟨out, hout⟩)⟩
  have hfault : ∀ info, (stateAt kinds events j).faults stack.tid = some info →
      info.time ≠ stack.time := by
    intro info hinfo htime
    obtain ⟨event, hevent, -⟩ := (h.fault_found horder kinds hstack info).mp ⟨hinfo, htime⟩
    rw [waitEnded_of_faultAt hevent] at hout
    cases hout
  obtain ⟨switch, hswitch, hnew, hidle, hbefore⟩ := waitEnded_eq_some.mp hout
  obtain ⟨o, ho, hfirst, hold⟩ := exists_of_switchedOut hbefore
  obtain ⟨-, origin, horigin, hawaits⟩ := h.earlier j stack hstack
  have hlt : out.time < stack.time := by
    rw [← hawaits.1]
    exact horder.times o _ _ _ stack.tid ho hfirst horigin (.inr (.inr hold)) hawaits.involves
      fun hzero => absurd hzero hidle
  obtain ⟨pid, pidMapping, pidIndex, heq⟩ :=
    WindowsMachine.cswitchCallstack_some kinds.cswitch hentry hend
  have hsame := ((stateAt kinds events j).cswitchCallstack_same stack kinds.cswitch).1
  rw [stateAt_succ kinds hstack, (h.waitState kinds j).hookCallstack,
    WindowsMachine.faultCallstack_none (hsame ▸ hfault), heq]
  dsimp only
  rw [if_pos hlt]
  exact ⟨pid, _, WindowsMachine.held_addSample _ (h.waitState kinds j).hooks _ _ _ _ _ _ _,
    rfl, rfl, Nat.mod_eq_of_lt (h.ofWaits hfirst).2, rfl, rfl,
    WindowsMachine.addSample_shows _ _ _ _ _ _ _ _⟩

theorem Traced.conserved (h : Traced events callstackOf) (horder : Orderly events)
    (hnot : NotOvertaken events callstackOf) (kinds : WinKinds) :
    WaitsConserved kinds events callstackOf where
  callstack j stack hstack := by
    cases hevent : faultAt events (callstackOf j) with
    | some event =>
      obtain ⟨pid, sample, hheld, hsample⟩ :=
        h.callstack_fault horder hnot kinds hstack hevent
      refine ⟨{(pid, sample)}, 0, ?_, ⟨pid, sample, rfl, hsample⟩, ?_⟩
      · rw [hheld, add_zero]
      · rw [waitEnded_of_faultAt hevent]
        rfl
    | none =>
      cases hout : waitEnded events stack.tid (callstackOf j) with
      | some out =>
        obtain ⟨pid, sample, hheld, hsample⟩ := h.callstack_wait horder hnot kinds hstack hout
        refine ⟨0, {(pid, sample)}, ?_, rfl, ⟨pid, sample, rfl, hsample⟩⟩
        rw [hheld, add_zero]
      | none =>
        refine ⟨0, 0, ?_, rfl, rfl⟩
        rw [add_zero, add_zero, h.nothing_found kinds hstack]
        · intro info hinfo hend
          obtain ⟨out, hfound, -⟩ := (h.wait_found horder kinds hstack info).mp ⟨hinfo, hend⟩
          rw [hout] at hfound
          cases hfound
        · intro info hinfo htime
          obtain ⟨event, hfound, -⟩ := (h.fault_found horder kinds hstack info).mp ⟨hinfo, htime⟩
          rw [hevent] at hfound
          cases hfound
  other j event hevent hother := by
    rw [stateAt_succ kinds hevent]
    exact held_hook (h.ofWaits hevent) hother

end Runs

/-- **Conservation.** Each callstack adds the sample of its fault or of the wait that it ends, if
and only if no later fault or switch of its thread came before it. -/
theorem waitsConserved_iff (kinds : WinKinds) (events : List WinEvent) (callstackOf : Nat → Nat)
    (htraced : Traced events callstackOf) (horder : Orderly events) :
    WaitsConserved kinds events callstackOf ↔ NotOvertaken events callstackOf := by
  refine ⟨fun hconserved => ⟨fun j stack event hstack hevent => ?_, fun j stack hstack hsome => ?_⟩,
    fun hnot => htraced.conserved horder hnot kinds⟩
  · have hfault := faultAt_eq_some.mpr hevent
    rcases htraced.found_of_conserved hconserved hstack
      (.inl (Option.isSome_iff_exists.mpr ⟨event, hfault⟩)) with ⟨info, hinfo⟩ | ⟨info, hinfo⟩
    · obtain ⟨out, hout, -⟩ := (htraced.wait_found horder kinds hstack info).mp hinfo
      rw [waitEnded_of_faultAt hfault] at hout
      cases hout
    · obtain ⟨-, -, -, hnot⟩ := (htraced.fault_found horder kinds hstack info).mp hinfo
      exact hnot
  · rcases htraced.found_of_conserved hconserved hstack (.inr hsome) with
      ⟨info, hinfo⟩ | ⟨info, hinfo⟩
    · obtain ⟨-, -, -, hnot⟩ := (htraced.wait_found horder kinds hstack info).mp hinfo
      exact hnot
    · obtain ⟨event, hevent, -⟩ := (htraced.fault_found horder kinds hstack info).mp hinfo
      rw [waitEnded_of_faultAt hevent] at hsome
      cases hsome

/-- A fault of a thread and then a wait, with their callstacks. -/
def faultThenWait : List WinEvent :=
  [.fault ⟨2, 10, 7, 0⟩, .cswitch ⟨20, 0, 0, 7⟩, .cswitch ⟨30, 1, 7, 0⟩,
    .callstack ⟨10, 3, 7, [0x1000]⟩, .callstack ⟨30, 3, 7, [0x2000]⟩]

theorem faultThenWait_traced : Traced faultThenWait (fun j => if j = 3 then 0 else 2) where
  only := by simp [faultThenWait, WinEvent.OfWaits]
  earlier j stack hstack := by
    rcases j with _ | _ | _ | _ | _ | j
    all_goals simp [faultThenWait] at hstack
    all_goals subst hstack
    · exact ⟨by decide, _, rfl, rfl, .inl rfl⟩
    · exact ⟨by decide, _, rfl, rfl, .inr rfl⟩
  once j j' stack stack' hstack hstack' := by
    rcases j with _ | _ | _ | _ | _ | j
    all_goals simp [faultThenWait] at hstack
    all_goals rcases j' with _ | _ | _ | _ | _ | j'
    all_goals simp [faultThenWait] at hstack' ⊢

theorem faultThenWait_orderly : Orderly faultThenWait where
  times i k event event' tid hik hevent hevent' hinvolves hinvolves' hidle := by
    rcases i with _ | _ | _ | _ | _ | i
    all_goals simp [faultThenWait] at hevent
    all_goals rcases k with _ | _ | _ | _ | _ | k
    all_goals simp [faultThenWait] at hevent' hik
    all_goals subst hevent hevent'
    all_goals simp [WinEvent.time, WinEvent.Involves, WinEvent.Faults, WinEvent.Switches,
      WinEvent.SwitchesIn, WinEvent.SwitchesOut] at hinvolves hinvolves' ⊢
  other switch hmem := by
    simp only [faultThenWait, List.mem_cons, reduceCtorEq, WinEvent.cswitch.injEq, false_or,
      List.not_mem_nil, or_false] at hmem
    rcases hmem with rfl | rfl <;> decide
  alternate a b switch switch' hab ha hb hidle hsame := by
    rcases a with _ | _ | _ | _ | _ | a
    all_goals simp [faultThenWait] at ha
    all_goals rcases b with _ | _ | _ | _ | _ | b
    all_goals simp [faultThenWait] at hb hab
    all_goals subst ha hb
    all_goals simp at hidle hsame
    rfl

/-- Nothing of the thread comes between the switch and its callstack. -/
theorem waitsConserved_faultThenWait :
    WaitsConserved {} faultThenWait (fun j => if j = 3 then 0 else 2) := by
  refine (waitsConserved_iff {} _ _ faultThenWait_traced faultThenWait_orderly).mpr ⟨?_, ?_⟩
  · rintro j stack event hstack hevent ⟨k, other, hik, hkj, hother, hfaults⟩
    rcases j with _ | _ | _ | _ | _ | j
    all_goals simp [faultThenWait] at hstack hevent
    rcases k with _ | _ | _ | k
    all_goals simp [faultThenWait] at hik hkj hother
    all_goals first | (subst hother; exact hfaults) | omega
  · rintro j stack hstack hsome ⟨k, other, hik, hkj, hother, hswitches⟩
    rcases j with _ | _ | _ | _ | _ | j
    all_goals simp [faultThenWait] at hstack
    all_goals subst hstack
    · cases hsome
    · rcases k with _ | _ | _ | _ | k
      all_goals simp [faultThenWait] at hik hkj hother
      all_goals first | (subst hother; exact hswitches.elim id id) | omega

/-- Two faults of a thread before the callstack of the first. -/
def twoFaults : List WinEvent :=
  [.fault ⟨2, 10, 7, 0⟩, .fault ⟨2, 20, 7, 0⟩, .callstack ⟨10, 3, 7, [0x1000]⟩,
    .callstack ⟨20, 3, 7, [0x2000]⟩]

theorem twoFaults_traced : Traced twoFaults (fun j => j - 2) where
  only := by simp [twoFaults, WinEvent.OfWaits]
  earlier j stack hstack := by
    rcases j with _ | _ | _ | _ | j
    all_goals simp [twoFaults] at hstack
    all_goals subst hstack
    all_goals exact ⟨by decide, _, rfl, rfl, .inl rfl⟩
  once j j' stack stack' hstack hstack' := by
    rcases j with _ | _ | _ | _ | j
    all_goals simp [twoFaults] at hstack
    all_goals rcases j' with _ | _ | _ | _ | j'
    all_goals simp [twoFaults] at hstack' ⊢

theorem twoFaults_orderly : Orderly twoFaults where
  times i k event event' tid hik hevent hevent' _ _ _ := by
    rcases i with _ | _ | _ | _ | i
    all_goals simp [twoFaults] at hevent
    all_goals rcases k with _ | _ | _ | _ | k
    all_goals simp [twoFaults] at hevent' hik
    all_goals subst hevent hevent'
    all_goals simp [WinEvent.time, WinEvent.Involves, WinEvent.Faults, WinEvent.Switches,
      WinEvent.SwitchesIn, WinEvent.SwitchesOut] at *
  other switch hmem := by
    simp [twoFaults] at hmem
  alternate a b switch switch' _ ha := by
    rcases a with _ | _ | _ | _ | a
    all_goals simp [twoFaults] at ha

/-- The second fault takes the place of the first, whose callstack then finds nothing. -/
theorem waitsConserved_twoFaults :
    Traced twoFaults (fun j => j - 2) ∧ Orderly twoFaults ∧
      ¬ WaitsConserved {} twoFaults (fun j => j - 2) := by
  refine ⟨twoFaults_traced, twoFaults_orderly, fun hconserved => ?_⟩
  have hstack : twoFaults[2]? = some (.callstack ⟨10, 3, 7, [0x1000]⟩) := rfl
  rcases twoFaults_traced.found_of_conserved hconserved hstack (.inl rfl) with
    ⟨info, hentry, -⟩ | ⟨info, hentry, htime⟩
  · cases hentry
  · obtain rfl := Option.some.inj hentry
    cases htime

end OneCollect.Exporting
