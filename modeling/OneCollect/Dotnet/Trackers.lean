import Mathlib.Data.List.Induction
import Mathlib.Data.List.Nodup
import Mathlib.Data.List.Count
import Mathlib.Logic.Function.Basic

/-! The two trackers of .NET processes (`UserEventTracker`, `PerfMapTracker`): the session announces
processes by their pids, and a worker thread of each tracker asks them to enable events or perf maps.

A worker keeps the pids that it has enabled and is never told of an exit. So a process whose pid
belonged to an enabled one is passed over, and everything else goes as it should
(`everyAnnounced_iff`). -/

namespace OneCollect.Dotnet

/-! ## Processes -/

/-- A process, by its number in the order of the starts. -/
structure Process where
  number : Nat
  pid : Nat
  perfMapEnviron : Bool
  deriving DecidableEq, Repr

/-- A request on the diagnostic socket of a process. -/
inductive Request where
  | enable (process : Process)
  | disable (process : Process)
  deriving DecidableEq, Repr

/-- A message to a worker. The code has the pid alone; the process is the one it is about. -/
structure Message where
  pid : Nat
  process : Option Process
  deriving DecidableEq, Repr

/-- A tracker with its queue, the pids of its worker with the processes that it has enabled under
them, and the requests that it has sent. -/
structure Tracker where
  queue : List Message := []
  pids : List (Nat × Process) := []
  finished : Bool := false
  requests : List Request := []

namespace Tracker

/-- `track`: pid 0 would stop the worker. -/
def track (self : Tracker) (process : Process) : Tracker :=
  if process.pid = 0 then self
  else { self with queue := self.queue ++ [⟨process.pid, some process⟩] }

/-- `disable`: it returns when the worker has finished. -/
def disable (self : Tracker) : Tracker := { self with queue := self.queue ++ [⟨0, none⟩] }

/-- The process whose message is next. -/
def handles (self : Tracker) : Option Process :=
  if self.finished then none else self.queue.head?.bind (·.process)

def knows (self : Tracker) (pid : Nat) : Bool := self.pids.any (·.1 = pid)

end Tracker

/-! ## Workers -/

/-- One turn of the worker of `UserEventTracker`, with the processes that run and whether they
answer. The sockets of its processes close with the thread. -/
def UserEventTracker.work (self : Tracker) (processes : Nat → Option Process) (answered : Bool) :
    Tracker :=
  if self.finished then self
  else
    match self.queue with
    | [] => self
    | message :: queue =>
      let self := { self with queue }
      if message.pid = 0 then { self with finished := true }
      else if self.knows message.pid then self
      else
        match processes message.pid with
        | none => self
        | some process =>
          if answered then
            { self with
              pids := self.pids ++ [(message.pid, process)]
              requests := self.requests ++ [.enable process] }
          else self

/-- One turn of the worker of `PerfMapTracker`. Perf maps are disabled first in case they were left
on, and at the end for all that were enabled. -/
def PerfMapTracker.work (self : Tracker) (processes : Nat → Option Process) (answered : Bool) :
    Tracker :=
  if self.finished then self
  else
    match self.queue with
    | [] => self
    | message :: queue =>
      let self := { self with queue }
      if message.pid = 0 then
        { self with
          finished := true
          requests := self.requests ++
            self.pids.filterMap fun context => (processes context.1).map .disable }
      else if self.knows message.pid then self
      else
        match processes message.pid with
        | none => self
        | some process =>
          if process.perfMapEnviron then self
          else if answered then
            { self with
              pids := self.pids ++ [(message.pid, process)]
              requests := self.requests ++ [.disable process, .enable process] }
          else self

inductive TrackerKind where
  | userEvents
  | perfMaps
  deriving DecidableEq, Repr

namespace TrackerKind

def work : TrackerKind → Tracker → (Nat → Option Process) → Bool → Tracker
  | userEvents => UserEventTracker.work
  | perfMaps => PerfMapTracker.work

/-- The processes that a tracker is to leave alone. -/
def skips : TrackerKind → Process → Bool
  | userEvents, _ => false
  | perfMaps, process => process.perfMapEnviron

end TrackerKind

/-! ## Hosts -/

/-- The processes that have started and those that run, with the trackers. -/
structure Host where
  started : List Process := []
  processes : Nat → Option Process := fun _ => none
  trackers : TrackerKind → Tracker := fun _ => {}

namespace Host

def setTracker (self : Host) (kind : TrackerKind) (tracker : Tracker) : Host :=
  { self with trackers := Function.update self.trackers kind tracker }

/-- Processes start and exit, the session reads that a process has mapped its memory, and the
workers take their turns. -/
inductive Action where
  | start (pid : Nat) (perfMapEnviron : Bool)
  | exit (pid : Nat)
  | track (number : Nat)
  | disable (kind : TrackerKind)
  | work (kind : TrackerKind) (answered : Bool)
  deriving DecidableEq, Repr

/-- A pid has one process at a time. The record of a mapping may be read when its process has
exited. An action that cannot happen changes nothing. -/
def act (self : Host) : Action → Host
  | .start pid perfMapEnviron =>
    if pid = 0 ∨ self.processes pid ≠ none then self
    else
      let process := ⟨self.started.length, pid, perfMapEnviron⟩
      { self with
        started := self.started ++ [process]
        processes := Function.update self.processes pid (some process) }
  | .exit pid => { self with processes := Function.update self.processes pid none }
  | .track number =>
    match self.started[number]? with
    | some process => { self with trackers := fun kind => (self.trackers kind).track process }
    | none => self
  | .disable kind => self.setTracker kind (self.trackers kind).disable
  | .work kind answered =>
    self.setTracker kind (kind.work (self.trackers kind) self.processes answered)

def run (actions : List Action) : Host := actions.foldl act {}

def Runs (self : Host) (process : Process) : Prop := self.processes process.pid = some process

theorem run_concat (actions : List Action) (action : Action) :
    run (actions ++ [action]) = (run actions).act action := by
  rw [run, List.foldl_append]
  rfl

theorem trackers_work (host : Host) (kind : TrackerKind) (answered : Bool) :
    (host.act (.work kind answered)).trackers kind =
      kind.work (host.trackers kind) host.processes answered := by
  unfold act setTracker
  dsimp only
  rw [Function.update_self]

end Host

/-! ## Turns of a worker -/

namespace Tracker

/-- A tracker has enabled a process under its pid. -/
def Keeps (tracker : Tracker) (process : Process) : Prop := (process.pid, process) ∈ tracker.pids

theorem knows_iff {tracker : Tracker} {pid : Nat} :
    tracker.knows pid = true ↔ ∃ process, (pid, process) ∈ tracker.pids := by
  unfold knows
  rw [List.any_eq_true]
  constructor
  · rintro ⟨⟨pid', process⟩, hmem, hpid⟩
    obtain rfl := of_decide_eq_true hpid
    exact ⟨process, hmem⟩
  · rintro ⟨process, hmem⟩
    exact ⟨(pid, process), hmem, by simp⟩

/-- What a turn does to the pids and the enable requests. -/
inductive Turn (kind : TrackerKind) (processes : Nat → Option Process) (tracker tracker' : Tracker) :
    Prop where
  | idle (pids : tracker'.pids = tracker.pids)
      (enabled : ∀ process, tracker'.requests.count (.enable process) =
        tracker.requests.count (.enable process))
  | enables (process : Process) (pid : Nat) (runs : processes pid = some process)
      (unknown : tracker.knows pid = false) (kept : kind.skips process = false)
      (pids : tracker'.pids = tracker.pids ++ [(pid, process)])
      (enabled : ∀ process', tracker'.requests.count (.enable process') =
        tracker.requests.count (.enable process') + if process' = process then 1 else 0)

theorem count_disables (contexts : List (Nat × Process)) (processes : Nat → Option Process)
    (process : Process) :
    (contexts.filterMap fun context => (processes context.1).map Request.disable).count
      (.enable process) = 0 := by
  refine List.count_eq_zero.mpr fun hmem => ?_
  obtain ⟨context, -, hsome⟩ := List.mem_filterMap.mp hmem
  obtain ⟨process', -, heq⟩ := Option.map_eq_some_iff.mp hsome
  cases heq

theorem count_enable (requests : List Request) (process process' : Process) :
    (requests ++ [Request.enable process]).count (Request.enable process') =
      requests.count (Request.enable process') + if process' = process then 1 else 0 := by
  rw [List.count_append, List.count_singleton]
  by_cases h : process' = process
  · simp [h]
  · simp [h, Ne.symm h]

theorem turn_userEvents (tracker : Tracker) (processes : Nat → Option Process) (answered : Bool) :
    Turn .userEvents processes tracker (UserEventTracker.work tracker processes answered) := by
  unfold UserEventTracker.work
  split
  · exact .idle rfl fun _ => rfl
  · split
    · exact .idle rfl fun _ => rfl
    · rename_i message queue hqueue
      dsimp only
      split
      · exact .idle rfl fun _ => rfl
      · split
        · exact .idle rfl fun _ => rfl
        · rename_i hunknown
          split
          · exact .idle rfl fun _ => rfl
          · rename_i process hruns
            split
            · exact .enables process message.pid hruns (Bool.not_eq_true _ ▸ hunknown) rfl rfl
                (count_enable tracker.requests process)
            · exact .idle rfl fun _ => rfl

theorem turn_perfMaps (tracker : Tracker) (processes : Nat → Option Process) (answered : Bool) :
    Turn .perfMaps processes tracker (PerfMapTracker.work tracker processes answered) := by
  unfold PerfMapTracker.work
  split
  · exact .idle rfl fun _ => rfl
  · split
    · exact .idle rfl fun _ => rfl
    · rename_i message queue hqueue
      dsimp only
      split
      · refine .idle rfl fun process => ?_
        rw [List.count_append, count_disables, Nat.add_zero]
      · split
        · exact .idle rfl fun _ => rfl
        · rename_i hunknown
          split
          · exact .idle rfl fun _ => rfl
          · rename_i process hruns
            split
            · exact .idle rfl fun _ => rfl
            · rename_i hskips
              split
              · refine .enables process message.pid hruns (Bool.not_eq_true _ ▸ hunknown)
                  (Bool.not_eq_true _ ▸ hskips) rfl fun process' => ?_
                have hsplit : tracker.requests ++ [Request.disable process, Request.enable process] =
                    (tracker.requests ++ [Request.disable process]) ++ [Request.enable process] := by
                  rw [List.append_assoc]
                  rfl
                rw [hsplit, count_enable, List.count_append]
                simp
              · exact .idle rfl fun _ => rfl

theorem turn (kind : TrackerKind) (tracker : Tracker) (processes : Nat → Option Process)
    (answered : Bool) : Turn kind processes tracker (kind.work tracker processes answered) := by
  cases kind with
  | userEvents => exact turn_userEvents tracker processes answered
  | perfMaps => exact turn_perfMaps tracker processes answered

/-- The messages of a queue are about processes with their pids. -/
def Addressed (tracker : Tracker) : Prop :=
  ∀ message ∈ tracker.queue, ∀ process, message.process = some process →
    process.pid = message.pid ∧ process.pid ≠ 0

/-- A running process that answers is known behind its message, or enabled by it. -/
theorem work_handles {kind : TrackerKind} {tracker : Tracker} {processes : Nat → Option Process}
    (haddressed : tracker.Addressed) {process : Process} (h : tracker.handles = some process)
    (hruns : processes process.pid = some process) (hskips : kind.skips process = false)
    (hunknown : tracker.knows process.pid = false) :
    (kind.work tracker processes true).Keeps process := by
  unfold handles at h
  split at h
  · cases h
  · rename_i hunfinished
    obtain ⟨message, hhead, hmessage⟩ := Option.bind_eq_some_iff.mp h
    obtain ⟨queue, hqueue⟩ := List.head?_eq_some_iff.mp hhead
    obtain ⟨hpid, hzero⟩ := haddressed message (List.mem_of_mem_head? hhead) process hmessage
    rw [hpid] at hruns hunknown hzero
    have hmem : (process.pid, process) ∈ tracker.pids ++ [(message.pid, process)] := by
      rw [hpid]
      exact List.mem_append_right _ (List.mem_singleton.mpr rfl)
    have hnot : ¬ Tracker.knows { tracker with queue } message.pid = true :=
      (Bool.not_eq_true _).mpr hunknown
    cases kind with
    | userEvents =>
      have hwork : (UserEventTracker.work tracker processes true).pids =
          tracker.pids ++ [(message.pid, process)] := by
        unfold UserEventTracker.work
        rw [if_neg hunfinished, hqueue]
        dsimp only
        rw [if_neg hzero, if_neg hnot, hruns]
        rfl
      change (process.pid, process) ∈ (UserEventTracker.work tracker processes true).pids
      rw [hwork]
      exact hmem
    | perfMaps =>
      have hwork : (PerfMapTracker.work tracker processes true).pids =
          tracker.pids ++ [(message.pid, process)] := by
        have hkept : ¬ process.perfMapEnviron = true := (Bool.not_eq_true _).mpr hskips
        unfold PerfMapTracker.work
        rw [if_neg hunfinished, hqueue]
        dsimp only
        rw [if_neg hzero, if_neg hnot, hruns]
        dsimp only
        rw [if_neg hkept]
        rfl
      change (process.pid, process) ∈ (PerfMapTracker.work tracker processes true).pids
      rw [hwork]
      exact hmem

end Tracker

/-! ## Invariant -/

/-- What a tracker has at any time, by the processes that have started. -/
structure Tracker.Sound (kind : TrackerKind) (started : List Process) (tracker : Tracker) :
    Prop where
  addressed : tracker.Addressed
  kept : ∀ pid process, (pid, process) ∈ tracker.pids →
    process.pid = pid ∧ process ∈ started ∧ kind.skips process = false
  unique : ∀ pid process process', (pid, process) ∈ tracker.pids →
    (pid, process') ∈ tracker.pids → process = process'
  enabled : ∀ process, tracker.requests.count (.enable process) =
    if (process.pid, process) ∈ tracker.pids then 1 else 0

/-- What a host has at any time. -/
structure Host.Sound (host : Host) : Prop where
  started : ∀ (number : Nat) (process : Process), host.started[number]? = some process →
    process.number = number ∧ process.pid ≠ 0
  processes : ∀ pid process, host.processes pid = some process →
    process.pid = pid ∧ process ∈ host.started
  trackers : ∀ kind, (host.trackers kind).Sound kind host.started

namespace Tracker

variable {kind : TrackerKind} {started : List Process} {tracker : Tracker}

/-- More messages, and more processes that have started. -/
theorem Sound.queued (h : tracker.Sound kind started) {queue : List Message}
    (hqueue : ∀ message ∈ queue, ∀ process, message.process = some process →
      process.pid = message.pid ∧ process.pid ≠ 0) {started' : List Process}
    (hstarted : started ⊆ started') :
    Sound kind started' { tracker with queue := tracker.queue ++ queue } where
  addressed message hmem := by
    rcases List.mem_append.mp hmem with hmem | hmem
    · exact h.addressed message hmem
    · exact hqueue message hmem
  kept pid process hmem := by
    obtain ⟨hpid, hprocess, hskips⟩ := h.kept pid process hmem
    exact ⟨hpid, hstarted hprocess, hskips⟩
  unique := h.unique
  enabled := h.enabled

theorem queue_work (kind : TrackerKind) (tracker : Tracker)
    (processes : Nat → Option Process) (answered : Bool) :
    (kind.work tracker processes answered).queue = tracker.queue ∨
      (kind.work tracker processes answered).queue = tracker.queue.tail := by
  cases kind with
  | userEvents =>
    change (UserEventTracker.work tracker processes answered).queue = _ ∨
      (UserEventTracker.work tracker processes answered).queue = _
    unfold UserEventTracker.work
    split
    · exact .inl rfl
    · split
      · exact .inl rfl
      · rename_i message queue hqueue
        refine .inr ?_
        rw [hqueue, List.tail_cons]
        dsimp only
        repeat' split
        all_goals rfl
  | perfMaps =>
    change (PerfMapTracker.work tracker processes answered).queue = _ ∨
      (PerfMapTracker.work tracker processes answered).queue = _
    unfold PerfMapTracker.work
    split
    · exact .inl rfl
    · split
      · exact .inl rfl
      · rename_i message queue hqueue
        refine .inr ?_
        rw [hqueue, List.tail_cons]
        dsimp only
        repeat' split
        all_goals rfl

theorem Sound.work (h : tracker.Sound kind started) {processes : Nat → Option Process}
    (hprocesses : ∀ pid process, processes pid = some process →
      process.pid = pid ∧ process ∈ started) (answered : Bool) :
    (kind.work tracker processes answered).Sound kind started := by
  have haddressed : (kind.work tracker processes answered).Addressed := by
    intro message hmem
    rcases queue_work kind tracker processes answered with hqueue | hqueue
    · exact h.addressed message (hqueue ▸ hmem)
    · exact h.addressed message (List.mem_of_mem_tail (hqueue ▸ hmem))
  rcases turn kind tracker processes answered with ⟨hpids, henabled⟩ |
    ⟨process, pid, hruns, hunknown, hskips, hpids, henabled⟩
  · refine ⟨haddressed, ?_, ?_, fun process => ?_⟩
    · rw [hpids]
      exact h.kept
    · rw [hpids]
      exact h.unique
    · rw [hpids, henabled]
      exact h.enabled process
  · obtain ⟨hpid, hstarted⟩ := hprocesses pid process hruns
    have hnew : ∀ process', (pid, process') ∉ tracker.pids := by
      intro process' hmem
      have hknown := knows_iff.mpr ⟨process', hmem⟩
      rw [hunknown] at hknown
      cases hknown
    refine ⟨haddressed, fun pid' process' hmem => ?_, fun pid' process' process'' hmem hmem' => ?_,
      fun process' => ?_⟩
    · rw [hpids] at hmem
      rcases List.mem_append.mp hmem with hmem | hmem
      · exact h.kept pid' process' hmem
      · cases List.mem_singleton.mp hmem
        exact ⟨hpid, hstarted, hskips⟩
    · rw [hpids] at hmem hmem'
      rcases List.mem_append.mp hmem with hmem | hmem
      · rcases List.mem_append.mp hmem' with hmem' | hmem'
        · exact h.unique pid' process' process'' hmem hmem'
        · cases List.mem_singleton.mp hmem'
          exact absurd hmem (hnew process')
      · cases List.mem_singleton.mp hmem
        rcases List.mem_append.mp hmem' with hmem' | hmem'
        · exact absurd hmem' (hnew process'')
        · cases List.mem_singleton.mp hmem'
          rfl
    · rw [henabled, h.enabled, hpids]
      by_cases hsame : process' = process
      · subst hsame
        rw [if_pos rfl, if_neg (hpid ▸ hnew process'), if_pos (by simp [hpid])]
      · rw [if_neg hsame, Nat.add_zero]
        have hiff : (process'.pid, process') ∈ tracker.pids ++ [(pid, process)] ↔
            (process'.pid, process') ∈ tracker.pids := by
          simp [hsame]
        simp only [hiff]

end Tracker

namespace Host

variable {host : Host}

theorem Sound.setTracker (h : host.Sound) {kind : TrackerKind} {tracker : Tracker}
    (htracker : tracker.Sound kind host.started) : (host.setTracker kind tracker).Sound where
  started := h.started
  processes := h.processes
  trackers kind' := by
    unfold Host.setTracker
    dsimp only
    by_cases hkind : kind' = kind
    · subst hkind
      rw [Function.update_self]
      exact htracker
    · rw [Function.update_of_ne hkind]
      exact h.trackers kind'

/-- One action. -/
theorem Sound.act (h : host.Sound) (action : Action) : (host.act action).Sound := by
  cases action with
  | start pid perfMapEnviron =>
    unfold Host.act
    dsimp only
    split
    · exact h
    · rename_i hfree
      refine ⟨fun number process hget => ?_, fun pid' process hget => ?_, fun kind => ?_⟩
      · by_cases hlt : number < host.started.length
        · rw [List.getElem?_append_left hlt] at hget
          exact h.started number process hget
        · rw [List.getElem?_append_right (Nat.le_of_not_lt hlt)] at hget
          have hmem := List.mem_singleton.mp (List.mem_of_getElem? hget)
          obtain ⟨hone, -⟩ := List.getElem?_eq_some_iff.mp hget
          rw [List.length_singleton] at hone
          subst hmem
          exact ⟨by dsimp only; omega, fun hzero => hfree (.inl hzero)⟩
      · dsimp only at hget
        by_cases hpid : pid' = pid
        · subst hpid
          rw [Function.update_self] at hget
          cases hget
          exact ⟨rfl, List.mem_append_right _ (List.mem_singleton.mpr rfl)⟩
        · rw [Function.update_of_ne hpid] at hget
          obtain ⟨hsame, hmem⟩ := h.processes pid' process hget
          exact ⟨hsame, List.mem_append_left _ hmem⟩
      · have hqueued := @Tracker.Sound.queued _ _ _ (h.trackers kind) [] (by simp) _
          (List.subset_append_left host.started [⟨host.started.length, pid, perfMapEnviron⟩])
        rwa [List.append_nil] at hqueued
  | exit pid =>
    refine ⟨h.started, fun pid' process hget => ?_, h.trackers⟩
    unfold Host.act at hget
    dsimp only at hget
    by_cases hpid : pid' = pid
    · subst hpid
      rw [Function.update_self] at hget
      cases hget
    · rw [Function.update_of_ne hpid] at hget
      exact h.processes pid' process hget
  | track number =>
    unfold Host.act
    dsimp only
    split
    · rename_i process hprocess
      obtain ⟨-, hzero⟩ := h.started number process hprocess
      refine ⟨h.started, h.processes, fun kind => ?_⟩
      dsimp only
      rw [Tracker.track, if_neg hzero]
      refine (h.trackers kind).queued (fun message hmem process' hprocess' => ?_)
        (List.Subset.refl _)
      cases List.mem_singleton.mp hmem
      cases hprocess'
      exact ⟨rfl, hzero⟩
    · exact h
  | disable kind =>
    refine h.setTracker ((h.trackers kind).queued (fun message hmem process hprocess => ?_)
      (List.Subset.refl _))
    cases List.mem_singleton.mp hmem
    cases hprocess
  | work kind answered => exact h.setTracker ((h.trackers kind).work h.processes answered)

theorem sound_run (actions : List Action) : (run actions).Sound := by
  induction actions using List.reverseRecOn with
  | nil =>
    refine ⟨fun _ _ h => absurd h (by simp [run]), fun _ _ h => absurd h (by simp [run]),
      fun kind => ⟨fun _ hmem => (List.not_mem_nil hmem).elim,
        fun _ _ hmem => (List.not_mem_nil hmem).elim,
        fun _ _ _ hmem => (List.not_mem_nil hmem).elim, fun _ => rfl⟩⟩
  | append_singleton actions action ih =>
    rw [run_concat]
    exact ih.act action

/-! ## What holds from one action to the next -/

/-- A process that has exited never runs again. -/
theorem runs_of_act (h : host.Sound) {process : Process} (hstarted : process ∈ host.started)
    (action : Action) (hruns : (host.act action).Runs process) : host.Runs process := by
  unfold Runs at hruns ⊢
  cases action with
  | start pid perfMapEnviron =>
    unfold Host.act at hruns
    dsimp only at hruns
    split at hruns
    · exact hruns
    · dsimp only at hruns
      by_cases hpid : process.pid = pid
      · rw [hpid, Function.update_self] at hruns
        obtain ⟨number, hget⟩ := List.getElem?_of_mem hstarted
        obtain ⟨hlt, -⟩ := List.getElem?_eq_some_iff.mp hget
        have hnumber := (h.started number process hget).1
        have hnew : process.number = host.started.length := by
          rw [← Option.some.inj hruns]
        omega
      · rwa [Function.update_of_ne hpid] at hruns
  | exit pid =>
    unfold Host.act at hruns
    dsimp only at hruns
    by_cases hpid : process.pid = pid
    · rw [hpid, Function.update_self] at hruns
      cases hruns
    · rwa [Function.update_of_ne hpid] at hruns
  | track number =>
    unfold Host.act at hruns
    dsimp only at hruns
    split at hruns
    · exact hruns
    · exact hruns
  | disable kind => exact hruns
  | work kind answered => exact hruns

/-- Pids are kept for good. -/
theorem pids_act (host : Host) (kind : TrackerKind) (action : Action) :
    (host.trackers kind).pids <+: ((host.act action).trackers kind).pids := by
  cases action with
  | start pid perfMapEnviron =>
    unfold Host.act
    dsimp only
    split
    · exact List.prefix_refl _
    · exact List.prefix_refl _
  | exit pid => exact List.prefix_refl _
  | track number =>
    unfold Host.act
    dsimp only
    split
    · dsimp only [Tracker.track]
      split
      · exact List.prefix_refl _
      · exact List.prefix_refl _
    · exact List.prefix_refl _
  | disable kind' =>
    unfold Host.act Host.setTracker
    dsimp only
    by_cases hkind : kind = kind'
    · subst hkind
      rw [Function.update_self]
      exact List.prefix_refl _
    · exact (Function.update_of_ne hkind ..).symm ▸ List.prefix_refl _
  | work kind' answered =>
    unfold Host.act Host.setTracker
    dsimp only
    by_cases hkind : kind = kind'
    · subst hkind
      rw [Function.update_self]
      rcases Tracker.turn kind (host.trackers kind) host.processes answered with ⟨hpids, -⟩ |
        ⟨process, pid, -, -, -, hpids, -⟩
      · exact hpids.symm ▸ List.prefix_refl _
      · rw [hpids]
        exact List.prefix_append ..
    · exact (Function.update_of_ne hkind ..).symm ▸ List.prefix_refl _

theorem pids_run (before after : List Action) (kind : TrackerKind) :
    ((run before).trackers kind).pids <+: ((run (before ++ after)).trackers kind).pids := by
  induction after using List.reverseRecOn with
  | nil => exact (List.append_nil before).symm ▸ List.prefix_refl _
  | append_singleton after action ih =>
    rw [← List.append_assoc, run_concat]
    exact ih.trans (pids_act _ kind action)

/-! ## Announced processes -/

/-- Wherever a worker handles the message of a running process in a run, the process gets one enable
request in all, or none if it is to be left alone. -/
def EveryAnnounced (actions : List Action) : Prop :=
  ∀ before kind answered after, actions = before ++ .work kind answered :: after →
    ∀ process, ((run before).trackers kind).handles = some process → (run before).Runs process →
      ((run actions).trackers kind).requests.count (.enable process) =
        if kind.skips process then 0 else 1

/-- Wherever a worker handles the message of a running process, it has enabled no other process with
the same pid. -/
def NoReuse (actions : List Action) : Prop :=
  ∀ before kind answered after, actions = before ++ .work kind answered :: after →
    ∀ process, ((run before).trackers kind).handles = some process → (run before).Runs process →
      kind.skips process = false →
        ∀ process', .enable process' ∈ ((run before).trackers kind).requests →
          process'.pid = process.pid → process' = process

/-- Every running process with perf maps enabled has got a disable request behind the enable
request. -/
def EveryDisabled (host : Host) : Prop :=
  ∀ process, host.Runs process → .enable process ∈ (host.trackers .perfMaps).requests →
    ∃ before after, (host.trackers .perfMaps).requests = before ++ .enable process :: after ∧
      .disable process ∈ after

/-- The requests for a process come from the pids that are kept. -/
theorem Sound.enable_mem_iff (h : host.Sound) {kind : TrackerKind} {process : Process} :
    .enable process ∈ (host.trackers kind).requests ↔
      (process.pid, process) ∈ (host.trackers kind).pids := by
  rw [← List.count_pos_iff, (h.trackers kind).enabled]
  split
  · rename_i hmem
    exact ⟨fun _ => hmem, fun _ => Nat.one_pos⟩
  · rename_i hmem
    exact ⟨fun hpos => absurd hpos (Nat.lt_irrefl 0), fun hmem' => absurd hmem' hmem⟩

/-- One message. -/
theorem announced_iff {before after : List Action} {kind : TrackerKind} {process : Process}
    (hhandles : ((run before).trackers kind).handles = some process)
    (hruns : (run before).Runs process) :
    (((run (before ++ .work kind true :: after)).trackers kind).requests.count (.enable process) =
        if kind.skips process then 0 else 1) ↔
      (kind.skips process = false →
        ∀ process', .enable process' ∈ ((run before).trackers kind).requests →
          process'.pid = process.pid → process' = process) := by
  have hbefore := sound_run before
  have hfinal := sound_run (before ++ .work kind true :: after)
  have hgrows := pids_run before (.work kind true :: after) kind
  rw [(hfinal.trackers kind).enabled]
  cases hskips : kind.skips process with
  | true =>
    have hnot : (process.pid, process) ∉
        ((run (before ++ .work kind true :: after)).trackers kind).pids := by
      intro hmem
      have hkept := ((hfinal.trackers kind).kept _ _ hmem).2.2
      rw [hskips] at hkept
      cases hkept
    rw [if_neg hnot, if_pos rfl]
    simp
  | false =>
    simp only [Bool.false_eq_true, if_false]
    constructor
    · intro hone _ process' hmem hpid
      have hmem' := hbefore.enable_mem_iff.mp hmem
      rw [hpid] at hmem'
      split at hone
      · rename_i hkept
        exact (hfinal.trackers kind).unique _ _ _ (hgrows.subset hmem') hkept
      · cases hone
    · intro hsame
      refine if_pos ?_
      cases hknown : ((run before).trackers kind).knows process.pid with
      | true =>
        obtain ⟨process', hmem⟩ := Tracker.knows_iff.mp hknown
        have hpid := ((hbefore.trackers kind).kept _ _ hmem).1
        have henabled : .enable process' ∈ ((run before).trackers kind).requests :=
          hbefore.enable_mem_iff.mpr (hpid ▸ hmem)
        obtain rfl := hsame trivial process' henabled hpid
        exact hgrows.subset hmem
      | false =>
        have hkeeps := Tracker.work_handles (hbefore.trackers kind).addressed hhandles hruns hskips
          hknown
        have hnext : (process.pid, process) ∈
            ((run (before ++ [.work kind true])).trackers kind).pids := by
          rw [run_concat, trackers_work]
          exact hkeeps
        have hrest := pids_run (before ++ [.work kind true]) after kind
        rw [List.append_assoc] at hrest
        exact hrest.subset hnext

/-! ## The end of the perf maps -/

end Host

namespace Tracker

/-- The worker finishes with requests to all that it has enabled. -/
theorem finished_work {tracker : Tracker} {processes : Nat → Option Process} {answered : Bool}
    (h : (PerfMapTracker.work tracker processes answered).finished = true) :
    tracker.finished = true ∧ PerfMapTracker.work tracker processes answered = tracker ∨
      (PerfMapTracker.work tracker processes answered).requests = tracker.requests ++
        tracker.pids.filterMap fun context => (processes context.1).map .disable := by
  unfold PerfMapTracker.work at h ⊢
  split
  · rename_i hfinished
    exact .inl ⟨hfinished, rfl⟩
  · rename_i hunfinished
    rw [if_neg hunfinished] at h
    cases hqueue : tracker.queue with
    | nil =>
      rw [hqueue] at h
      exact absurd h hunfinished
    | cons message queue =>
      rw [hqueue] at h
      dsimp only at h ⊢
      by_cases hstop : message.pid = 0
      · rw [if_pos hstop]
        exact .inr rfl
      · rw [if_neg hstop] at h
        refine absurd ?_ hunfinished
        split at h
        · exact h
        · split at h
          · exact h
          · split at h
            · exact h
            · split at h
              · exact h
              · exact h

end Tracker

namespace Host

/-- An action that leaves the requests of the perf maps as they are. -/
theorem everyDisabled_of_same {host : Host} (h : host.Sound) (hdisabled : EveryDisabled host)
    {action : Action}
    (hsame : ((host.act action).trackers .perfMaps).requests =
      (host.trackers .perfMaps).requests) : EveryDisabled (host.act action) := by
  intro process hruns henabled
  rw [hsame] at henabled ⊢
  have hstarted := ((h.trackers .perfMaps).kept _ _ (h.enable_mem_iff.mp henabled)).2.1
  exact hdisabled process (runs_of_act h hstarted action hruns) henabled

/-- What the perf maps have after an action that is not a turn of their worker. -/
theorem perfMaps_act (host : Host) {action : Action}
    (h : ∀ answered, action ≠ .work .perfMaps answered) :
    ((host.act action).trackers .perfMaps).requests = (host.trackers .perfMaps).requests ∧
      ((host.act action).trackers .perfMaps).finished = (host.trackers .perfMaps).finished := by
  cases action with
  | start pid perfMapEnviron =>
    unfold Host.act
    dsimp only
    split
    · exact ⟨rfl, rfl⟩
    · exact ⟨rfl, rfl⟩
  | exit pid => exact ⟨rfl, rfl⟩
  | track number =>
    unfold Host.act
    dsimp only
    split
    · dsimp only [Tracker.track]
      split
      · exact ⟨rfl, rfl⟩
      · exact ⟨rfl, rfl⟩
    · exact ⟨rfl, rfl⟩
  | disable kind =>
    cases kind with
    | userEvents => exact ⟨rfl, rfl⟩
    | perfMaps => exact ⟨rfl, rfl⟩
  | work kind answered =>
    cases kind with
    | userEvents => exact ⟨rfl, rfl⟩
    | perfMaps => exact absurd rfl (h answered)

/-- Once the worker of the perf maps has finished, every running process that it enabled has been
disabled. -/
theorem everyDisabled_run (actions : List Action)
    (h : ((run actions).trackers .perfMaps).finished = true) : EveryDisabled (run actions) := by
  induction actions using List.reverseRecOn with
  | nil => exact absurd h (by simp [run])
  | append_singleton actions action ih =>
    have hsound := sound_run actions
    rw [run_concat] at h ⊢
    by_cases hturn : ∃ answered, action = .work .perfMaps answered
    · obtain ⟨answered, rfl⟩ := hturn
      have hnext : (((run actions).act (.work .perfMaps answered)).trackers .perfMaps) =
          PerfMapTracker.work ((run actions).trackers .perfMaps) (run actions).processes answered :=
        trackers_work ..
      have hfinished := h
      rw [hnext] at hfinished
      rcases Tracker.finished_work hfinished with ⟨hbefore, hsame⟩ | hrequests
      · exact everyDisabled_of_same hsound (ih hbefore) (by rw [hnext, hsame])
      · intro process hruns henabled
        rw [hnext, hrequests] at henabled ⊢
        have hmem : .enable process ∈ ((run actions).trackers .perfMaps).requests := by
          rcases List.mem_append.mp henabled with hmem | hmem
          · exact hmem
          · have hcount := Tracker.count_disables ((run actions).trackers .perfMaps).pids
              (run actions).processes process
            exact absurd hmem (List.count_eq_zero.mp hcount)
        obtain ⟨before, after, hsplit⟩ := List.append_of_mem hmem
        have hruns' : (run actions).processes process.pid = some process := hruns
        have hlast : .disable process ∈ ((run actions).trackers .perfMaps).pids.filterMap
            fun context => ((run actions).processes context.1).map Request.disable :=
          List.mem_filterMap.mpr
            ⟨(process.pid, process), hsound.enable_mem_iff.mp hmem, by rw [hruns']; rfl⟩
        rw [hsplit, List.append_assoc, List.cons_append]
        exact ⟨before, _, rfl, List.mem_append_right _ hlast⟩
    · obtain ⟨hrequests, hfinished⟩ :=
        perfMaps_act (run actions) fun answered heq => hturn ⟨answered, heq⟩
      rw [hfinished] at h
      exact everyDisabled_of_same hsound (ih h) hrequests

end Host

/-- **Trackers.** When all running processes answer, every announced process gets its one request,
and every process with perf maps is disabled in the end, exactly when no worker handles the message
of a running process whose pid belonged to another process that it has enabled. -/
theorem everyAnnounced_iff (actions : List Host.Action)
    (hanswered : ∀ kind, Host.Action.work kind false ∉ actions) :
    (Host.EveryAnnounced actions ∧ ∀ before, before <+: actions →
        ((Host.run before).trackers .perfMaps).finished = true →
          Host.EveryDisabled (Host.run before)) ↔
      Host.NoReuse actions := by
  have hstep : ∀ before kind answered after, actions = before ++ .work kind answered :: after →
      answered = true := by
    intro before kind answered after hsplit
    cases answered with
    | true => rfl
    | false => exact absurd (hsplit ▸ List.mem_append_right _ List.mem_cons_self) (hanswered kind)
  constructor
  · rintro ⟨hannounced, -⟩ before kind answered after hsplit process hhandles hruns
    obtain rfl := hstep before kind answered after hsplit
    have hone := hannounced before kind true after hsplit process hhandles hruns
    rw [hsplit] at hone
    exact (Host.announced_iff hhandles hruns).mp hone
  · intro hreuse
    refine ⟨fun before kind answered after hsplit process hhandles hruns => ?_,
      fun before _ hfinished => Host.everyDisabled_run before hfinished⟩
    obtain rfl := hstep before kind answered after hsplit
    have hone := (@Host.announced_iff before after kind process hhandles hruns).mpr
      (hreuse before kind true after hsplit process hhandles hruns)
    rwa [← hsplit] at hone

/-! ## A pid that is used again -/

/-- A process is enabled and exits, and its pid goes to another. -/
def reusedPid : List Host.Action :=
  [.start 5 false, .track 0, .work .userEvents true, .exit 5, .start 5 false, .track 1,
    .work .userEvents true]

/-- The second process is never enabled. -/
theorem announced_passedOver : ¬ ∀ actions : List Host.Action,
    (∀ kind, Host.Action.work kind false ∉ actions) →
      Host.EveryAnnounced actions ∧ ∀ before, before <+: actions →
        ((Host.run before).trackers .perfMaps).finished = true →
          Host.EveryDisabled (Host.run before) := by
  intro h
  obtain ⟨hannounced, -⟩ := h reusedPid fun kind => by simp [reusedPid]
  have hone := hannounced (reusedPid.take 6) .userEvents true [] rfl ⟨1, 5, false⟩ rfl rfl
  exact absurd hone (by decide)

/-- The first process with a pid. -/
def firstProcess : List Host.Action := [.start 5 false, .track 0, .work .userEvents true]

theorem everyAnnounced_firstProcess : Host.EveryAnnounced firstProcess := by
  refine ((everyAnnounced_iff firstProcess fun kind => by simp [firstProcess]).mpr ?_).1
  intro before kind answered after hsplit process hhandles hruns _ process' hmem
  rcases before with _ | ⟨first, _ | ⟨second, _ | ⟨third, before⟩⟩⟩
  · simp [firstProcess] at hsplit
  · simp [firstProcess] at hsplit
  · simp only [firstProcess, List.cons_append, List.nil_append, List.cons.injEq] at hsplit
    obtain ⟨rfl, rfl, -⟩ := hsplit
    exact absurd hmem (by cases kind <;> exact List.not_mem_nil)
  · simp [firstProcess] at hsplit

end OneCollect.Dotnet
