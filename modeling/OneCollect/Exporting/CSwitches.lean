import Mathlib.Data.Set.Function
import OneCollect.Callstack.Records
import OneCollect.Theory.Recent

/-! Context-switch waits (`os/linux.rs`). Callstacks and switch records of a thread meet in the
entry of its tid: a callstack is stashed until the thread is switched in again, a switch-out
leaves its time, and a switch-in that finds both records the wait and clears the entry.

`Pending` says what an entry holds in terms of the events so far: the last callstack of its tid
and the time of the last switch-out. Both may be of an earlier thread with that tid, since
nothing clears the entry when a thread exits. -/

namespace OneCollect.Exporting
open Theory Callstack

def PERF_RECORD_MISC_SWITCH_OUT : Nat := 1 <<< 13

/-- A switch-in: the sample to record, if a switch-out and a callstack came before. -/
def ExportCSwitch.switchIn (checks : OverflowChecks) (self : ExportCSwitch) (time : Nat) :
    Exec (Option ExportProcessSample) :=
  -- the sample is cleared and not recorded
  if self.startTime = 0 then .ok none
  else do
    let duration ← checks.subU64 time self.startTime
    .ok (self.sample.map fun sample =>
      { sample with time := self.startTime, value := .duration duration })

namespace RecordingMachine

def setCSwitch (self : RecordingMachine) (tid : Nat) (entry : ExportCSwitch) : RecordingMachine :=
  { self with
    os := { self.os with cswitches := Function.update self.os.cswitches tid (some entry) } }

/-- The cswitch sample hook. -/
def cswitchProfile (kind : Nat) (self : RecordingMachine) (time pid tid cpu : Nat)
    (frames : List Nat) : RecordingMachine :=
  if pid = 0 ∨ tid = 0 then self
  else
    let made := self.makeSample time (.duration 0) tid cpu kind frames
    let entry := (self.os.cswitches tid).getD {}
    made.2.setCSwitch tid { entry with sample := some made.1 }

/-- The cswitch record hook. -/
def cswitchRecord (checks : OverflowChecks) (self : RecordingMachine) (misc time pid tid : Nat) :
    Exec RecordingMachine :=
  if pid = 0 ∨ tid = 0 then .ok self
  else
    match self.os.cswitches tid with
    | none => .ok self
    | some entry =>
      if misc &&& PERF_RECORD_MISC_SWITCH_OUT = 0 then do
        let wait ← entry.switchIn checks time
        let self := self.setCSwitch tid {}
        match wait with
        | some sample => .ok (self.addProcessSample pid sample)
        | none => .ok self
      else .ok (self.setCSwitch tid { entry with startTime := time })

end RecordingMachine

/-! ## Events -/

/-- A thread; `life` tells threads apart that have the same pid and tid one after the other. -/
structure Thread where
  pid : Nat
  tid : Nat
  life : Nat := 0
  deriving DecidableEq, Repr

/-- Neither of the ids is that of the scheduler. -/
def Thread.Seen (self : Thread) : Prop := ¬ (self.pid = 0 ∨ self.tid = 0)

instance : DecidablePred Thread.Seen := fun _ => inferInstanceAs (Decidable (¬ _))

inductive SwitchEvent where
  | callstack (thread : Thread) (time cpu : Nat) (frames : List Nat)
  | switched (thread : Thread) (misc time : Nat)
  | task (time : Nat) (record : TaskRecord)

namespace SwitchEvent

def time : SwitchEvent → Nat
  | callstack _ time .. => time
  | switched _ _ time => time
  | task time _ => time

def thread : SwitchEvent → Option Thread
  | callstack thread .. => some thread
  | switched thread .. => some thread
  | task .. => none

/-- The event gives a callstack of the thread. -/
def Stacks (thread : Thread) : SwitchEvent → Prop
  | callstack t .. => t = thread
  | _ => False

/-- The event switches the thread out. -/
def Outs (thread : Thread) : SwitchEvent → Prop
  | switched t misc _ => t = thread ∧ misc &&& PERF_RECORD_MISC_SWITCH_OUT ≠ 0
  | _ => False

/-- The event switches the thread in. -/
def Ins (thread : Thread) : SwitchEvent → Prop
  | switched t misc _ => t = thread ∧ misc &&& PERF_RECORD_MISC_SWITCH_OUT = 0
  | _ => False

end SwitchEvent

section Hook

variable (checks : OverflowChecks) (kind : Nat)

def RecordingMachine.switchHook (self : RecordingMachine) : SwitchEvent → Exec RecordingMachine
  | .callstack thread time cpu frames =>
    .ok (self.cswitchProfile kind time thread.pid thread.tid cpu frames)
  | .switched thread misc time => self.cswitchRecord checks misc time thread.pid thread.tid
  | .task _ record => self.hook checks record

/-- The wait that an event records: the pid and the sample handed to `add_process_sample`. -/
def RecordingMachine.wait (self : RecordingMachine) :
    SwitchEvent → Option (Nat × ExportProcessSample)
  | .switched thread misc time =>
    if thread.Seen ∧ misc &&& PERF_RECORD_MISC_SWITCH_OUT = 0 then
      match self.os.cswitches thread.tid with
      | none => none
      | some entry =>
        match entry.switchIn checks time with
        | .ok wait => wait.map (thread.pid, ·)
        | .error _ => none
    else none
  | _ => none

def switches : System RecordingMachine SwitchEvent :=
  .ofExec (fun s => ∃ hooks, s = .new hooks) (RecordingMachine.switchHook checks kind)

end Hook

/-! ## What an event does to the entries -/

namespace RecordingMachine

variable {checks : OverflowChecks} {kind : Nat} {self after : RecordingMachine}

/-- The sample that a callstack is stashed as. -/
def stashed (kind : Nat) (self : RecordingMachine) (thread : Thread) (time cpu : Nat)
    (frames : List Nat) : ExportProcessSample :=
  (self.makeSample time (.duration 0) thread.tid cpu kind frames).1

theorem addProcessSample_os (self : RecordingMachine) (pid : Nat) (sample : ExportProcessSample) :
    (self.addProcessSample pid sample).os = self.os := by
  unfold addProcessSample
  dsimp only
  split <;> rfl

theorem osAddMmapExec_cswitches (self : RecordingMachine) (pid : Nat) (mapping : ProcessMapping)
    (file : Option OpenedFile) :
    (self.osAddMmapExec pid mapping file).2.os.cswitches = self.os.cswitches := by
  unfold osAddMmapExec
  split
  · rfl
  · dsimp only
    split <;> rfl

theorem hook_cswitches {record : TaskRecord} (h : self.hook checks record = .ok after) :
    after.os.cswitches = self.os.cswitches := by
  cases record with
  | comm pid tid comm time nsPid =>
    cases h
    unfold addCommExec
    split
    · rfl
    · split <;> rfl
  | fork pid ppid tid =>
    cases h
    split <;> rfl
  | mmap time pid tid addr len pgoffset maj min ino prot filename file openedFile =>
    simp only [RecordingMachine.hook, addMmapExec] at h
    split at h
    · cases h
      rfl
    · split at h
      · cases h
        rfl
      · obtain ⟨mapping, -, h⟩ := bind_eq_ok.mp h
        cases h
        exact osAddMmapExec_cswitches _ pid mapping openedFile
  | exit pid tid time =>
    cases h
    unfold addCommExit
    split <;> rfl

/-- A switch record of a seen thread whose tid has an entry. -/
theorem switchRecord_cswitches {thread : Thread} {misc time : Nat} {entry : ExportCSwitch}
    (hseen : thread.Seen) (hentry : self.os.cswitches thread.tid = some entry)
    (h : self.switchHook checks kind (.switched thread misc time) = .ok after) :
    after.os.cswitches = Function.update self.os.cswitches thread.tid
      (some (if misc &&& PERF_RECORD_MISC_SWITCH_OUT = 0 then {}
        else { entry with startTime := time })) := by
  simp only [switchHook, cswitchRecord, if_neg hseen, hentry] at h
  split at h
  · rename_i hin
    rw [if_pos hin]
    obtain ⟨wait, -, h⟩ := bind_eq_ok.mp h
    cases wait with
    | none =>
      cases h
      rfl
    | some sample =>
      cases h
      rw [addProcessSample_os]
      rfl
  · rename_i hout
    rw [if_neg hout]
    cases h
    rfl

/-- A switch record of any other thread changes nothing. -/
theorem switchRecord_ignored {thread : Thread} {misc time : Nat}
    (hnone : thread.Seen → self.os.cswitches thread.tid = none)
    (h : self.switchHook checks kind (.switched thread misc time) = .ok after) : after = self := by
  simp only [switchHook, cswitchRecord] at h
  split at h
  · cases h
    rfl
  · rename_i hseen
    rw [hnone hseen] at h
    cases h
    rfl

end RecordingMachine

/-! ## What an entry holds -/

section Pending

variable (checks : OverflowChecks) (kind : Nat) (start : RecordingMachine)

/-- The callstack at position `i` of the events from `start` was stashed as `sample`. -/
def StashedAt (events : List SwitchEvent) (i : Nat) (thread : Thread)
    (sample : ExportProcessSample) : Prop :=
  ∃ time cpu frames s, events[i]? = some (.callstack thread time cpu frames) ∧
    (switches checks kind).Runs start (events.take i) s ∧
    sample = s.stashed kind thread time cpu frames

/-- An event of a seen thread with this tid. -/
def OfTid (tid : Nat) (p : Thread → SwitchEvent → Prop) (event : SwitchEvent) : Prop :=
  ∃ thread : Thread, thread.Seen ∧ thread.tid = tid ∧ p thread event

/-- An entry after the events `before`: its sample is the last callstack of the tid, with no
switch-in behind it, and its time, if it is not zero, that of the last switch-out. -/
structure Pending (before : List SwitchEvent) (tid : Nat) (entry : ExportCSwitch) : Prop where
  sample : ∀ sample, entry.sample = some sample → ∃ i thread,
    LastAt (OfTid tid fun t e => e.Stacks t ∨ e.Ins t) before i ∧ thread.Seen ∧
      thread.tid = tid ∧ StashedAt checks kind start before i thread sample
  startTime : entry.startTime ≠ 0 → ∃ i thread misc,
    LastAt (OfTid tid SwitchEvent.Outs) before i ∧ thread.Seen ∧ thread.tid = tid ∧
      before[i]? = some (.switched thread misc entry.startTime)

variable {checks kind start}

theorem StashedAt.concat {events : List SwitchEvent} {i : Nat} {thread : Thread}
    {sample : ExportProcessSample} (h : StashedAt checks kind start events i thread sample)
    (event : SwitchEvent) : StashedAt checks kind start (events ++ [event]) i thread sample := by
  obtain ⟨time, cpu, frames, s, hi, hrun, hsample⟩ := h
  have hlt := (List.getElem?_eq_some_iff.mp hi).1
  refine ⟨time, cpu, frames, s, by rw [List.getElem?_append_left hlt]; exact hi, ?_, hsample⟩
  rw [List.take_append_of_le_length (by omega)]
  exact hrun

section Concat

variable {before : List SwitchEvent} {tid : Nat} {entry : ExportCSwitch} {event : SwitchEvent}

theorem Pending.keepSample (h : Pending checks kind start before tid entry)
    (hevent : ¬ OfTid tid (fun t e => e.Stacks t ∨ e.Ins t) event) {sample : ExportProcessSample}
    (hsample : entry.sample = some sample) : ∃ i thread,
    LastAt (OfTid tid fun t e => e.Stacks t ∨ e.Ins t) (before ++ [event]) i ∧ thread.Seen ∧
      thread.tid = tid ∧ StashedAt checks kind start (before ++ [event]) i thread sample := by
  obtain ⟨i, thread, hlast, hseen, htid, hstashed⟩ := h.sample sample hsample
  exact ⟨i, thread, hlast.concat hevent, hseen, htid, hstashed.concat event⟩

theorem Pending.keepStart (h : Pending checks kind start before tid entry)
    (hevent : ¬ OfTid tid SwitchEvent.Outs event) (hstart : entry.startTime ≠ 0) :
    ∃ i thread misc, LastAt (OfTid tid SwitchEvent.Outs) (before ++ [event]) i ∧ thread.Seen ∧
      thread.tid = tid ∧
      (before ++ [event])[i]? = some (.switched thread misc entry.startTime) := by
  obtain ⟨i, thread, misc, hlast, hseen, htid, hi⟩ := h.startTime hstart
  have hlt := (List.getElem?_eq_some_iff.mp hi).1
  exact ⟨i, thread, misc, hlast.concat hevent, hseen, htid, by
    rw [List.getElem?_append_left hlt]
    exact hi⟩

theorem Pending.keep (h : Pending checks kind start before tid entry)
    (hstack : ¬ OfTid tid (fun t e => e.Stacks t ∨ e.Ins t) event)
    (hout : ¬ OfTid tid SwitchEvent.Outs event) :
    Pending checks kind start (before ++ [event]) tid entry :=
  ⟨fun _ hsample => h.keepSample hstack hsample, fun hstart => h.keepStart hout hstart⟩

/-- An event of another tid, or of a thread that is not seen. -/
theorem not_ofTid {p : Thread → SwitchEvent → Prop} {thread : Thread}
    (hthread : ∀ t, p t event → t = thread) (hother : ¬ (thread.Seen ∧ thread.tid = tid)) :
    ¬ OfTid tid p event := by
  rintro ⟨t, hseen, htid, hp⟩
  obtain rfl := hthread t hp
  exact hother ⟨hseen, htid⟩

end Concat

/-- The thread that an event is about. -/
theorem SwitchEvent.stacks_or_ins_thread {event : SwitchEvent} {t : Thread}
    (h : event.Stacks t ∨ event.Ins t) : event.thread = some t := by
  cases event with
  | callstack thread time cpu frames =>
    rcases h with rfl | h
    · rfl
    · exact absurd h id
  | switched thread misc time =>
    rcases h with h | ⟨rfl, -⟩
    · exact absurd h id
    · rfl
  | task time record => exact absurd h (by simp [SwitchEvent.Stacks, SwitchEvent.Ins])

theorem SwitchEvent.outs_thread {event : SwitchEvent} {t : Thread} (h : event.Outs t) :
    event.thread = some t := by
  cases event with
  | callstack thread time cpu frames => exact absurd h id
  | switched thread misc time =>
    obtain ⟨rfl, -⟩ := h
    rfl
  | task time record => exact absurd h id

/-- **One event.** Every entry stays what the events so far make it. -/
theorem pending_step {before : List SwitchEvent} {s t : RecordingMachine} {event : SwitchEvent}
    (hrun : (switches checks kind).Runs start before s)
    (hpending : ∀ tid entry, s.os.cswitches tid = some entry →
      Pending checks kind start before tid entry)
    (h : s.switchHook checks kind event = .ok t) (tid : Nat) (entry : ExportCSwitch)
    (hentry : t.os.cswitches tid = some entry) :
    Pending checks kind start (before ++ [event]) tid entry := by
  -- an event that is not about a seen thread with this tid
  have hother : ∀ thread, event.thread = some thread → ¬ (thread.Seen ∧ thread.tid = tid) →
      s.os.cswitches tid = some entry → Pending checks kind start (before ++ [event]) tid entry := by
    intro thread hthread hnot hs
    have hsame : ∀ {u : Thread}, event.thread = some u → u = thread := fun hu =>
      Option.some.inj (hu.symm.trans hthread)
    exact (hpending tid entry hs).keep
      (not_ofTid (fun u hu => hsame (SwitchEvent.stacks_or_ins_thread hu)) hnot)
      (not_ofTid (fun u hu => hsame (SwitchEvent.outs_thread hu)) hnot)
  cases event with
  | task time record =>
    have htask : s.hook checks record = .ok t := h
    have hs : s.os.cswitches tid = some entry :=
      RecordingMachine.hook_cswitches htask ▸ hentry
    refine (hpending tid entry hs).keep ?_ ?_
    · rintro ⟨u, -, -, hu⟩
      exact absurd (SwitchEvent.stacks_or_ins_thread hu) nofun
    · rintro ⟨u, -, -, hu⟩
      exact absurd (SwitchEvent.outs_thread hu) nofun
  | callstack thread time cpu frames =>
    cases h
    by_cases hof : thread.Seen ∧ thread.tid = tid
    · obtain ⟨hseen, rfl⟩ := hof
      have hprofile : (s.cswitchProfile kind time thread.pid thread.tid cpu frames).os.cswitches =
          Function.update s.os.cswitches thread.tid
            (some { (s.os.cswitches thread.tid).getD {} with
              sample := some (s.stashed kind thread time cpu frames) }) := by
        rw [RecordingMachine.cswitchProfile, if_neg hseen]
        rfl
      rw [hprofile, Function.update_self, Option.some.injEq] at hentry
      subst hentry
      constructor
      · intro sample hsample
        obtain rfl := Option.some.inj hsample
        refine ⟨before.length, thread, lastAt_concat ⟨thread, hseen, rfl, Or.inl rfl⟩, hseen, rfl,
          time, cpu, frames, s, by simp, ?_, rfl⟩
        rw [List.take_append_of_le_length (le_refl _), List.take_length]
        exact hrun
      · intro hstart
        cases hold : s.os.cswitches thread.tid with
        | none =>
          rw [hold] at hstart
          exact absurd rfl hstart
        | some old =>
          rw [hold] at hstart
          exact (hpending thread.tid old hold).keepStart (by rintro ⟨u, -, -, hu⟩; exact hu) hstart
    · refine hother thread rfl hof ?_
      rw [← hentry]
      unfold RecordingMachine.cswitchProfile
      by_cases hseen : thread.Seen
      · rw [if_neg hseen]
        exact (Function.update_of_ne (fun h => hof ⟨hseen, h.symm⟩) _ _).symm
      · rw [if_pos (not_not.mp hseen)]
  | switched thread misc time =>
    by_cases hof : thread.Seen ∧ thread.tid = tid
    · obtain ⟨hseen, rfl⟩ := hof
      cases hold : s.os.cswitches thread.tid with
      | none =>
        obtain rfl := RecordingMachine.switchRecord_ignored (fun _ => hold) h
        rw [hold] at hentry
        cases hentry
      | some old =>
        rw [RecordingMachine.switchRecord_cswitches hseen hold h, Function.update_self,
          Option.some.injEq] at hentry
        subst hentry
        split
        · exact ⟨fun _ h => absurd h nofun, fun h => absurd rfl h⟩
        · rename_i hout
          refine ⟨fun sample hsample => ?_, fun hstart => ?_⟩
          · refine (hpending thread.tid old hold).keepSample ?_ hsample
            rintro ⟨u, -, -, hu | ⟨-, hin⟩⟩
            · exact hu
            · exact hout hin
          · exact ⟨before.length, thread, misc, lastAt_concat ⟨thread, hseen, rfl, rfl, hout⟩,
              hseen, rfl, by simp⟩
    · refine hother thread rfl hof ?_
      by_cases hseen : thread.Seen
      · cases hold : s.os.cswitches thread.tid with
        | none =>
          rw [← RecordingMachine.switchRecord_ignored (fun _ => hold) h]
          exact hentry
        | some old =>
          rw [← hentry, RecordingMachine.switchRecord_cswitches hseen hold h]
          exact (Function.update_of_ne (fun h => hof ⟨hseen, h.symm⟩) _ _).symm
      · rw [← RecordingMachine.switchRecord_ignored (fun hs => absurd hs hseen) h]
        exact hentry

theorem runs_pending {events : List SwitchEvent} {s : RecordingMachine}
    (hstart : ∃ hooks, start = .new hooks) (h : (switches checks kind).Runs start events s) :
    ∀ tid entry, s.os.cswitches tid = some entry →
      Pending checks kind start events tid entry := by
  induction h with
  | refl =>
    obtain ⟨hooks, rfl⟩ := hstart
    exact fun tid entry h => absurd h nofun
  | snoc hr hstep ih => exact pending_step hr ih hstep

end Pending

/-! ## Waits -/

/-- A tid names one thread at a time: between two events of a thread there is none of another
thread with its tid. -/
def OneAtATime (events : List SwitchEvent) : Prop :=
  ∀ (i j k : Nat) (x y z : SwitchEvent) (g h : Thread), i < j → j < k →
    events[i]? = some x → events[j]? = some y →
    events[k]? = some z → x.thread = some g → z.thread = some g → y.thread = some h →
      h.tid = g.tid → h = g

structure Timed (events : List SwitchEvent) : Prop where
  ordered : events.Pairwise fun a b => a.time ≤ b.time
  fits : ∀ event ∈ events, event.time < 2 ^ 64

theorem Timed.le_of_lt {events : List SwitchEvent} (h : Timed events) {i n : Nat}
    {x y : SwitchEvent} (hi : events[i]? = some x) (hn : events[n]? = some y) (hlt : i < n) :
    x.time ≤ y.time := by
  obtain ⟨hiLen, rfl⟩ := List.getElem?_eq_some_iff.mp hi
  obtain ⟨hnLen, rfl⟩ := List.getElem?_eq_some_iff.mp hn
  exact List.pairwise_iff_getElem.mp h.ordered i n hiLen hnLen hlt

section Waits

variable (checks : OverflowChecks) (kind : Nat) (start : RecordingMachine)
  (events : List SwitchEvent)

/-- The event at position `n` hands a wait to `add_process_sample`. -/
def RecordsAt (n pid : Nat) (sample : ExportProcessSample) : Prop :=
  ∃ s event, (switches checks kind).Runs start (events.take n) s ∧ events[n]? = some event ∧
    s.wait checks event = some (pid, sample)

/-- The wait that the switch-in of a thread at position `n` records: from the latest switch-out
of this thread, with the callstack that came for it at `origin`. -/
structure WaitOf (n : Nat) (thread : Thread) (time : Nat) (sample : ExportProcessSample)
    (origin : Nat) : Prop where
  latest : ∃ o misc, o < n ∧ events[o]? = some (.switched thread misc sample.time) ∧
    misc &&& PERF_RECORD_MISC_SWITCH_OUT ≠ 0 ∧
    ∀ k x, o < k → k < n → events[k]? = some x → ¬ x.Outs thread
  value : sample.value = .duration (time - sample.time)
  callstack : origin < n ∧ ∃ made, StashedAt checks kind start events origin thread made ∧
    sample = { made with time := sample.time, value := sample.value }
  since : ∀ k x, origin < k → k < n → events[k]? = some x → ¬ x.Ins thread

/-- Every recorded wait is one of a single thread, and no callstack is recorded twice. -/
def WaitsSound : Prop :=
  ∃ origin : Nat → Nat,
    (∀ n pid sample, RecordsAt checks kind start events n pid sample →
      ∃ thread misc time, events[n]? = some (.switched thread misc time) ∧ thread.pid = pid ∧
        misc &&& PERF_RECORD_MISC_SWITCH_OUT = 0 ∧
        WaitOf checks kind start events n thread time sample (origin n)) ∧
    Set.InjOn origin {n | ∃ pid sample, RecordsAt checks kind start events n pid sample}

/-- A thread that is switched in while the entry of its tid holds a time and a callstack has
been switched out itself and has had a callstack itself; the entry is not a leftover of an
earlier thread. -/
def NoLeftovers : Prop :=
  ∀ n thread misc time s entry, events[n]? = some (.switched thread misc time) →
    misc &&& PERF_RECORD_MISC_SWITCH_OUT = 0 → thread.Seen →
    (switches checks kind).Runs start (events.take n) s →
    s.os.cswitches thread.tid = some entry → entry.startTime ≠ 0 → entry.sample ≠ none →
      (∃ o x, o < n ∧ events[o]? = some x ∧ x.Outs thread) ∧
        ∃ c x, c < n ∧ events[c]? = some x ∧ x.Stacks thread

variable {checks kind start events}

theorem switchIn_eq_some {entry : ExportCSwitch} {time : Nat} {sample : ExportProcessSample} :
    entry.switchIn checks time = .ok (some sample) ↔ entry.startTime ≠ 0 ∧ ∃ made duration,
      entry.sample = some made ∧ checks.subU64 time entry.startTime = .ok duration ∧
        sample = { made with time := entry.startTime, value := .duration duration } := by
  unfold ExportCSwitch.switchIn
  by_cases hstart : entry.startTime = 0
  · simp [hstart]
  · rw [if_neg hstart]
    constructor
    · intro h
      obtain ⟨duration, hduration, h⟩ := bind_eq_ok.mp h
      obtain ⟨made, hmade, hsample⟩ := Option.map_eq_some_iff.mp (Except.ok.inj h)
      exact ⟨hstart, made, duration, hmade, hduration, hsample.symm⟩
    · rintro ⟨-, made, duration, hmade, hduration, rfl⟩
      rw [hduration, ok_bind, hmade]
      rfl

theorem wait_eq_some {s : RecordingMachine} {event : SwitchEvent} {pid : Nat}
    {sample : ExportProcessSample} :
    s.wait checks event = some (pid, sample) ↔
      ∃ thread misc time entry, event = .switched thread misc time ∧
        thread.Seen ∧ misc &&& PERF_RECORD_MISC_SWITCH_OUT = 0 ∧ thread.pid = pid ∧
        s.os.cswitches thread.tid = some entry ∧
        entry.switchIn checks time = .ok (some sample) := by
  constructor
  · intro h
    unfold RecordingMachine.wait at h
    split at h
    · rename_i thread misc time
      split at h
      · rename_i hin
        split at h
        · cases h
        · rename_i entry hentry
          split at h
          · rename_i wait hwait
            obtain ⟨sample', rfl, heq⟩ := Option.map_eq_some_iff.mp h
            obtain ⟨hpid, rfl⟩ := Prod.mk.inj heq
            exact ⟨thread, misc, time, entry, rfl, hin.1, hin.2, hpid, hentry, hwait⟩
          · cases h
      · cases h
    · cases h
  · rintro ⟨thread, misc, time, entry, rfl, hseen, hin, rfl, hentry, hwait⟩
    simp only [RecordingMachine.wait, if_pos (And.intro hseen hin), hentry, hwait, Option.map_some]

theorem take_getElem? {i n : Nat} {x : SwitchEvent} (h : (events.take n)[i]? = some x) :
    i < n ∧ events[i]? = some x := by
  rw [List.getElem?_take] at h
  split at h
  · rename_i hlt
    exact ⟨hlt, h⟩
  · cases h

theorem getElem?_take_of {i n : Nat} {x : SwitchEvent} (hlt : i < n) (h : events[i]? = some x) :
    (events.take n)[i]? = some x := by
  rw [List.getElem?_take, if_pos hlt]
  exact h

/-- What was stashed before position `n` was stashed at the same position of all events. -/
theorem StashedAt.of_take {i n : Nat} {thread : Thread} {made : ExportProcessSample}
    (h : StashedAt checks kind start (events.take n) i thread made) :
    i < n ∧ StashedAt checks kind start events i thread made := by
  obtain ⟨time, cpu, frames, s, hi, hrun, hmade⟩ := h
  obtain ⟨hlt, hi⟩ := take_getElem? hi
  rw [List.take_take, Nat.min_eq_left (le_of_lt hlt)] at hrun
  exact ⟨hlt, time, cpu, frames, s, hi, hrun, hmade⟩

/-- The last event of a tid before `n` is one of the thread at `n`, if this thread had such an
event at all. -/
theorem thread_of_lastAt (hone : OneAtATime events) {p : Thread → SwitchEvent → Prop}
    (hp : ∀ {t : Thread} {e : SwitchEvent}, p t e → e.thread = some t) {n i o : Nat}
    {g : Thread} {x z : SwitchEvent} (hseen : g.Seen) (hz : events[n]? = some z)
    (hzg : z.thread = some g) (hlast : LastAt (OfTid g.tid p) (events.take n) i) (ho : o < n)
    (hx : events[o]? = some x) (hown : p g x) {h : Thread} {y : SwitchEvent}
    (hy : events[i]? = some y) (hyh : y.thread = some h) (htid : h.tid = g.tid) : h = g := by
  have hle := hlast.le_of_getElem? (getElem?_take_of ho hx) ⟨g, hseen, rfl, hown⟩
  have hin := hlast.lt
  rw [List.length_take] at hin
  rcases Nat.lt_or_eq_of_le hle with hlt | rfl
  · exact hone o i n x y z g h hlt (by omega) hx hy hz (hp hown) hzg hyh htid
  · rw [hx] at hy
    cases hy
    exact Option.some.inj (hyh.symm.trans (hp hown))

/-- Without leftovers every recorded wait is one of the thread that is switched in. -/
theorem waitOf_of_recordsAt (hstart : ∃ hooks, start = .new hooks) (hone : OneAtATime events)
    (htimed : Timed events) (hleft : NoLeftovers checks kind start events) {n pid : Nat}
    {sample : ExportProcessSample} (h : RecordsAt checks kind start events n pid sample) :
    ∃ origin thread misc time, events[n]? = some (.switched thread misc time) ∧
      thread.pid = pid ∧ misc &&& PERF_RECORD_MISC_SWITCH_OUT = 0 ∧
      WaitOf checks kind start events n thread time sample origin := by
  obtain ⟨s, event, hrun, hn, hwait⟩ := h
  obtain ⟨thread, misc, time, entry, rfl, hseen, hin, hpid, hentry, hswitch⟩ :=
    wait_eq_some.mp hwait
  obtain ⟨hstartTime, made, duration, hmade, hduration, rfl⟩ := switchIn_eq_some.mp hswitch
  obtain ⟨⟨o, x, ho, hx, hown⟩, c, z, hc, hz, hcown⟩ :=
    hleft n thread misc time s entry hn hin hseen hrun hentry hstartTime (by simp [hmade])
  have hpending := runs_pending hstart hrun thread.tid entry hentry
  -- the switch-out whose time the entry holds
  obtain ⟨i, outer, outMisc, hlast, -, houter, hi⟩ := hpending.startTime hstartTime
  obtain ⟨hlt, hi⟩ := take_getElem? hi
  obtain rfl : outer = thread :=
    thread_of_lastAt hone SwitchEvent.outs_thread hseen hn rfl hlast ho hx hown hi rfl houter
  have houts : outMisc &&& PERF_RECORD_MISC_SWITCH_OUT ≠ 0 := by
    obtain ⟨⟨y, hy, u, -, -, hu⟩, -⟩ := hlast
    rw [(take_getElem? hy).2] at hi
    cases hi
    exact hu.2
  -- the callstack that the entry holds
  obtain ⟨origin, stacked, hlastStack, -, hstacked, hstash⟩ := hpending.sample made hmade
  obtain ⟨horigin, hstash⟩ := hstash.of_take
  obtain rfl : stacked = outer := by
    obtain ⟨stackTime, cpu, frames, u, hu, -, -⟩ := hstash
    exact thread_of_lastAt hone SwitchEvent.stacks_or_ins_thread hseen hn rfl hlastStack hc hz
      (Or.inl hcown) hu rfl hstacked
  have hexact : checks.subU64 time entry.startTime = .ok (time - entry.startTime) :=
    checks.subU64_of_le (htimed.le_of_lt hi hn hlt) (htimed.fits _ (List.mem_of_getElem? hn))
  obtain rfl := Except.ok.inj (hexact.symm.trans hduration)
  refine ⟨origin, stacked, misc, time, hn, hpid, hin, ⟨i, outMisc, hlt, hi, houts, ?_⟩, rfl,
    ⟨horigin, made, hstash, rfl⟩, ?_⟩
  · intro k x hik hkn hk hout
    exact hlast.2 k x hik (getElem?_take_of hkn hk) ⟨stacked, hseen, rfl, hout⟩
  · intro k x hik hkn hk hins
    exact hlastStack.2 k x hik (getElem?_take_of hkn hk) ⟨stacked, hseen, rfl, Or.inr hins⟩

theorem recordsAt_unique {n pid pid' : Nat} {sample sample' : ExportProcessSample}
    (h : RecordsAt checks kind start events n pid sample)
    (h' : RecordsAt checks kind start events n pid' sample') : pid = pid' ∧ sample = sample' := by
  obtain ⟨s, event, hrun, hn, hwait⟩ := h
  obtain ⟨s', event', hrun', hn', hwait'⟩ := h'
  obtain rfl := System.runs_ofExec_unique hrun hrun'
  rw [hn] at hn'
  cases hn'
  rw [hwait] at hwait'
  exact Prod.mk.inj (Option.some.inj hwait')

/-- Two waits with one callstack are one: the first would have switched the thread in since. -/
theorem WaitOf.origin_le {n m : Nat} {thread thread' : Thread} {misc time time' : Nat}
    {sample sample' : ExportProcessSample} {origin : Nat}
    (hn : events[n]? = some (.switched thread misc time))
    (hin : misc &&& PERF_RECORD_MISC_SWITCH_OUT = 0)
    (h : WaitOf checks kind start events n thread time sample origin)
    (h' : WaitOf checks kind start events m thread' time' sample' origin) : m ≤ n := by
  refine not_lt.mp fun hlt => ?_
  obtain ⟨horigin, made, ⟨t, cpu, frames, s, hstack, -⟩, -⟩ := h.callstack
  obtain ⟨-, made', ⟨t', cpu', frames', s', hstack', -⟩, -⟩ := h'.callstack
  rw [hstack] at hstack'
  cases hstack'
  exact h'.since n _ horigin hlt hn ⟨rfl, hin⟩

/-- **Context-switch waits.** Over events in order of time, of threads that share a tid only one
after the other, every recorded wait is one of its own thread, and no callstack is recorded
twice, exactly when no switch-in meets leftovers of an earlier thread. -/
theorem waitsSound_iff (hstart : ∃ hooks, start = .new hooks) (hone : OneAtATime events)
    (htimed : Timed events) :
    WaitsSound checks kind start events ↔ NoLeftovers checks kind start events := by
  constructor
  · rintro ⟨origin, hwait, -⟩ n thread misc time s entry hn hin hseen hrun hentry hstartTime hsample
    obtain ⟨made, hmade⟩ := Option.ne_none_iff_exists'.mp hsample
    obtain ⟨i, outer, outMisc, -, -, -, hi⟩ :=
      (runs_pending hstart hrun thread.tid entry hentry).startTime hstartTime
    obtain ⟨hlt, hi⟩ := take_getElem? hi
    have hduration := checks.subU64_of_le (htimed.le_of_lt hi hn hlt)
      (htimed.fits _ (List.mem_of_getElem? hn))
    have hrecords : RecordsAt checks kind start events n thread.pid
        { made with time := entry.startTime, value := .duration (time - entry.startTime) } :=
      ⟨s, _, hrun, hn, wait_eq_some.mpr ⟨thread, misc, time, entry, rfl, hseen, hin, rfl, hentry,
        switchIn_eq_some.mpr ⟨hstartTime, made, _, hmade, hduration, rfl⟩⟩⟩
    obtain ⟨thread', misc', time', hn', -, -, hwaitOf⟩ := hwait n _ _ hrecords
    rw [hn] at hn'
    cases hn'
    obtain ⟨o, outMisc', ho, hoEvent, hout, -⟩ := hwaitOf.latest
    obtain ⟨horigin, made', ⟨t, cpu, frames, u, hstack, -⟩, -⟩ := hwaitOf.callstack
    exact ⟨⟨o, _, ho, hoEvent, rfl, hout⟩, origin n, _, horigin, hstack, rfl⟩
  · intro hleft
    have horigin : ∀ n, ∃ origin, ∀ pid sample,
        RecordsAt checks kind start events n pid sample →
          ∃ thread misc time, events[n]? = some (.switched thread misc time) ∧ thread.pid = pid ∧
            misc &&& PERF_RECORD_MISC_SWITCH_OUT = 0 ∧
            WaitOf checks kind start events n thread time sample origin := by
      intro n
      by_cases hrec : ∃ pid sample, RecordsAt checks kind start events n pid sample
      · obtain ⟨pid, sample, hrec⟩ := hrec
        obtain ⟨origin, hwait⟩ := waitOf_of_recordsAt hstart hone htimed hleft hrec
        refine ⟨origin, fun pid' sample' hrec' => ?_⟩
        obtain ⟨rfl, rfl⟩ := recordsAt_unique hrec hrec'
        exact hwait
      · exact ⟨0, fun pid sample h => absurd ⟨pid, sample, h⟩ hrec⟩
    choose origin hwait using horigin
    refine ⟨origin, hwait, ?_⟩
    rintro n ⟨pid, sample, hn⟩ m ⟨pid', sample', hm⟩ heq
    obtain ⟨thread, misc, time, hnEvent, -, hin, hnWait⟩ := hwait n pid sample hn
    obtain ⟨thread', misc', time', hmEvent, -, hin', hmWait⟩ := hwait m pid' sample' hm
    rw [← heq] at hmWait
    exact le_antisymm (hmWait.origin_le hmEvent hin' hnWait) (hnWait.origin_le hnEvent hin hmWait)

end Waits

/-- A thread, and a later one of another process with its tid. -/
def firstThread : Thread := ⟨7, 7, 0⟩

def laterThread : Thread := ⟨9, 7, 1⟩

/-- The first thread gives a callstack and is switched out and in. -/
def oneWait : List SwitchEvent :=
  [.callstack firstThread 5 0 [1, 2], .switched firstThread PERF_RECORD_MISC_SWITCH_OUT 5,
    .switched firstThread 0 9]

theorem waitsSound_oneWait : WaitsSound .on 0 (.new []) oneWait := by
  have hthread : ∀ (i : Nat) (x : SwitchEvent) (g : Thread), oneWait[i]? = some x →
      x.thread = some g → g = firstThread := by
    intro i x g hi hg
    have hmem := List.mem_of_getElem? hi
    simp only [oneWait, List.mem_cons, List.not_mem_nil, or_false] at hmem
    rcases hmem with rfl | rfl | rfl <;> exact (Option.some.inj hg).symm
  refine (waitsSound_iff ⟨[], rfl⟩ ?_ ⟨by decide, by decide⟩).mpr ?_
  · intro i j k x y z g h _ _ hx hy _ hg _ hh _
    rw [hthread i x g hx hg, hthread j y h hy hh]
  · intro n thread misc time s entry hn hin hseen _ _ _ _
    obtain rfl := hthread n _ thread hn rfl
    match n, hn with
    | 1, hn =>
      cases hn
      exact absurd hin (by decide)
    | 2, hn =>
      cases hn
      exact ⟨⟨1, _, by decide, rfl, rfl, by decide⟩, 0, _, by decide, rfl, rfl⟩

/-- The first thread is switched out for good and exits; a later thread takes its tid. -/
def reusedTid : List SwitchEvent :=
  [.callstack firstThread 5 0 [1, 2], .switched firstThread PERF_RECORD_MISC_SWITCH_OUT 5,
    .task 6 (.exit 7 7 6), .switched laterThread 0 10]

/-- The switch-in of the later thread records the wait that the first one never ended. -/
theorem reusedTid_joins_threads :
    ¬ ∀ (checks : OverflowChecks) (kind : Nat) (start : RecordingMachine)
      (events : List SwitchEvent), (∃ hooks, start = .new hooks) → OneAtATime events →
        Timed events → WaitsSound checks kind start events := by
  intro h
  have hone : OneAtATime reusedTid := by
    -- no thread has an event on either side of another event
    intro i j k x y z g h hij hjk hx _ hz hg hg' _ _
    match k, hz with
    | 0, _ => omega
    | 1, _ => omega
    | 2, hz =>
      cases hz
      cases hg'
    | 3, hz =>
      cases hz
      cases hg'
      match i, hx with
      | 0, hx =>
        cases hx
        cases hg
      | 1, hx =>
        cases hx
        cases hg
      | i + 2, _ => omega
  obtain ⟨origin, hwait, -⟩ := h .on 0 (.new []) reusedTid ⟨[], rfl⟩ hone ⟨by decide, by decide⟩
  let stashed := (RecordingMachine.new []).cswitchProfile 0 5 7 7 0 [1, 2]
  let switchedOut := stashed.setCSwitch 7
    ⟨5, some ((RecordingMachine.new []).stashed 0 firstThread 5 0 [1, 2])⟩
  have hstack : (switches .on 0).step (.new []) (.callstack firstThread 5 0 [1, 2]) stashed := rfl
  have hout : (switches .on 0).step stashed
      (.switched firstThread PERF_RECORD_MISC_SWITCH_OUT 5) switchedOut := rfl
  have hexit : (switches .on 0).step switchedOut (.task 6 (.exit 7 7 6))
      (switchedOut.addCommExit 7 6) := rfl
  have hrun := ((System.Runs.refl.snoc hstack).snoc hout).snoc hexit
  obtain ⟨thread, misc, time, hn, -, -, hwaitOf⟩ := hwait 3 9 _ ⟨_, _, hrun, rfl, rfl⟩
  cases hn
  obtain ⟨o, outMisc, ho, hoEvent, -⟩ := hwaitOf.latest
  match o, ho with
  | 0, _ => cases hoEvent
  | 1, _ => cases hoEvent
  | 2, _ => cases hoEvent

end OneCollect.Exporting
