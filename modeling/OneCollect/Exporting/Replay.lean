import OneCollect.Exporting.Machine

/-! `replay_by_time` of `mod.rs`: the selected processes are sorted, then replayed together in
rounds, and a callback sees each replay at each of its events.

`replayByTime_eq` says that a callback that never fails is called along `calls`, the rounds of
`Theory.Rounds`. From there the main results: each sample and each mapping of a selected
process is shown once (`replayByTime_shows`), while a process state is shown at every step of
its time (`lifeEvents_once_iff`). -/

namespace OneCollect.Exporting
open Theory

namespace ExportMachine

variable (predicate : ExportProcess → Bool)

/-- What the first loop of `replay_by_time` makes of a process. -/
def prepare (process : ExportProcess) : ExportProcess :=
  if predicate process then process.sortSamplesByTime.sortMappingsByTime else process

theorem prepare_pid (process : ExportProcess) : (prepare predicate process).pid = process.pid := by
  unfold prepare
  split <;> rfl

def prepareAll (self : ExportMachine) : ExportMachine where
  procs := self.procs.map (prepare predicate)
  strings := self.strings
  callstacks := self.callstacks
  mapIndex := self.mapIndex
  nodup := by
    have hpid : ((·.pid) : ExportProcess → Nat) ∘ prepare predicate = (·.pid) :=
      funext (prepare_pid predicate)
    rw [List.map_map, hpid]
    exact self.nodup

end ExportMachine

/-! ## The loop -/

/-- The earliest time of the replays that are not done. -/
def findEarliest (replays : List ExportProcessReplay) : Nat :=
  replays.foldl (fun earliest replay =>
    if replay.done then earliest
    else if replay.time < earliest then replay.time else earliest) u64Max

section Loop

variable {σ ε : Type} (callback : ExportMachine → ExportProcessReplay → σ → Except ε σ)
  (machine : ExportMachine)

/-- Emit and advance, in one round. -/
def emitRound (earliest : Nat) :
    List ExportProcessReplay → σ → Except ε (List ExportProcessReplay × σ)
  | [], state => .ok ([], state)
  | replay :: replays, state =>
    if replay.done then do
      let (replays, state) ← emitRound earliest replays state
      .ok (replay :: replays, state)
    else if replay.time = earliest then do
      let state ← callback machine replay state
      let (replays, state) ← emitRound earliest replays state
      .ok (replay.advance :: replays, state)
    else do
      let (replays, state) ← emitRound earliest replays state
      .ok (replay :: replays, state)

/-- The loop, for a number of rounds; `none` when they are not enough. -/
def replayLoop : Nat → List ExportProcessReplay → σ → Option (Except ε σ)
  | 0, _, _ => none
  | fuel + 1, replays, state =>
    let earliest := findEarliest replays
    if earliest = u64Max then some (.ok state)
    else match emitRound callback machine earliest replays state with
      | .error e => some (.error e)
      | .ok (replays, state) => replayLoop fuel replays state

end Loop

section Relation

variable {σ ε : Type} {callback : ExportMachine → ExportProcessReplay → σ → Except ε σ}
  {machine : ExportMachine} {R : σ → σ → Prop}

theorem emitRound_relates (hrefl : ∀ s, R s s) (htrans : ∀ s t u, R s t → R t u → R s u)
    (hcall : ∀ replay s t, callback machine replay s = .ok t → R s t) {earliest : Nat}
    {replays replays' : List ExportProcessReplay} {s t : σ}
    (h : emitRound callback machine earliest replays s = .ok (replays', t)) : R s t := by
  induction replays generalizing replays' s with
  | nil =>
    cases h
    exact hrefl _
  | cons replay replays ih =>
    rw [emitRound] at h
    split at h
    · cases hround : emitRound callback machine earliest replays s with
      | error e => rw [hround] at h; cases h
      | ok result =>
        rw [hround] at h
        cases h
        exact ih hround
    · split at h
      · cases hfirst : callback machine replay s with
        | error e => rw [hfirst] at h; cases h
        | ok u =>
          rw [hfirst] at h
          change (emitRound callback machine earliest replays u >>= _) = _ at h
          cases hround : emitRound callback machine earliest replays u with
          | error e => rw [hround] at h; cases h
          | ok result =>
            rw [hround] at h
            cases h
            exact htrans _ _ _ (hcall replay s u hfirst) (ih hround)
      · cases hround : emitRound callback machine earliest replays s with
        | error e => rw [hround] at h; cases h
        | ok result =>
          rw [hround] at h
          cases h
          exact ih hround

/-- **States of a replay.** What holds of the states before and after each call, and goes on
from one to the next, holds of those before and after the loop. -/
theorem replayLoop_relates (hrefl : ∀ s, R s s) (htrans : ∀ s t u, R s t → R t u → R s u)
    (hcall : ∀ replay s t, callback machine replay s = .ok t → R s t) {fuel : Nat}
    {replays : List ExportProcessReplay} {s t : σ}
    (h : replayLoop callback machine fuel replays s = some (.ok t)) : R s t := by
  induction fuel generalizing replays s with
  | zero => cases h
  | succ fuel ih =>
    rw [replayLoop] at h
    split at h
    · cases h
      exact hrefl _
    · cases hround : emitRound callback machine (findEarliest replays) replays s with
      | error e => rw [hround] at h; cases h
      | ok result =>
        rw [hround] at h
        exact htrans _ _ _ (emitRound_relates hrefl htrans hcall hround) (ih h)

end Relation

/-- `replay_by_time`, with the state of the callback. -/
def ExportMachine.replayByTime {σ ε : Type} (self : ExportMachine)
    (predicate : ExportProcess → Bool)
    (callback : ExportMachine → ExportProcessReplay → σ → Except ε σ) (fuel : Nat) (state : σ) :
    Option (Except ε σ) :=
  let self := self.prepareAll predicate
  replayLoop callback self fuel ((self.procs.filter predicate).map (·.toReplay)) state

/-- The calls of a run, seen by a callback that records them. -/
def ExportMachine.calls (self : ExportMachine) (predicate : ExportProcess → Bool) (fuel : Nat) :
    Option (List ExportProcessReplay) :=
  let record (_ : ExportMachine) (replay : ExportProcessReplay)
      (seen : List ExportProcessReplay) : Except Empty (List ExportProcessReplay) :=
    .ok (seen ++ [replay])
  match self.replayByTime predicate record fuel [] with
  | some (.ok seen) => some seen
  | none => none

/-! ## The loop as rounds -/

open ExportProcessReplay

theorem foldl_findEarliest (replays : List ExportProcessReplay) {earliest : Nat}
    (h : earliest ≤ u64Max) :
    replays.foldl (fun earliest replay =>
      if replay.done then earliest
      else if replay.time < earliest then replay.time else earliest) earliest =
      min earliest (replayTimeline.earliest replays) := by
  induction replays generalizing earliest with
  | nil => exact (min_eq_left h).symm
  | cons r rs ih =>
    have hstep : (if r.done then earliest
        else if r.time < earliest then r.time else earliest) = min earliest r.time := by
      by_cases hdone : r.done = true
      · rw [if_pos hdone, show r.time = u64Max from beq_iff_eq.mp hdone, min_eq_left h]
      · rw [if_neg hdone]
        split
        next hlt => exact (min_eq_right (Nat.le_of_lt hlt)).symm
        next hge => exact (min_eq_left (not_lt.mp hge)).symm
    rw [List.foldl_cons, hstep, ih ((min_le_left _ _).trans h), min_assoc]
    rfl

theorem findEarliest_eq (replays : List ExportProcessReplay) :
    findEarliest replays = replayTimeline.earliest replays := by
  rw [findEarliest, foldl_findEarliest replays (le_refl _)]
  exact min_eq_right Timeline.earliest_le_limit

variable {σ ε : Type} (f : ExportMachine → ExportProcessReplay → σ → σ) (machine : ExportMachine)

/-- One round calls the replays that are due, in order, and steps them. -/
theorem emitRound_eq (replays : List ExportProcessReplay) (state : σ) {earliest : Nat}
    (h : earliest ≠ u64Max) :
    emitRound (fun machine replay state => (.ok (f machine replay state) : Except ε σ)) machine
        earliest replays state =
      .ok (replayTimeline.stepDue earliest replays,
        (replayTimeline.due earliest replays).foldl (fun state r => f machine r state) state) := by
  induction replays generalizing state with
  | nil => rfl
  | cons r rs ih =>
    rw [emitRound]
    by_cases hdone : r.done = true
    · have htime : replayTimeline.time r ≠ earliest := by
        rw [show replayTimeline.time r = u64Max from beq_iff_eq.mp hdone]
        exact h.symm
      rw [if_pos hdone, ih, Timeline.stepDue_cons, Timeline.due_cons, if_neg htime, if_neg htime]
      rfl
    · rw [if_neg hdone]
      by_cases htime : r.time = earliest
      · have hdue : replayTimeline.time r = earliest := htime
        rw [if_pos htime, Timeline.stepDue_cons, Timeline.due_cons, if_pos hdue, if_pos hdue]
        change (emitRound _ machine earliest rs (f machine r state) >>= _) = _
        rw [ih]
        rfl
      · have hdue : ¬ replayTimeline.time r = earliest := htime
        rw [if_neg htime, ih, Timeline.stepDue_cons, Timeline.due_cons, if_neg hdue, if_neg hdue]
        rfl

theorem replayLoop_eq (fuel : Nat) (replays : List ExportProcessReplay) (state : σ) :
    replayLoop (fun machine replay state => (.ok (f machine replay state) : Except ε σ)) machine
        fuel replays state =
      (replayTimeline.rounds fuel replays).map fun calls =>
        .ok (calls.foldl (fun state r => f machine r state) state) := by
  induction fuel generalizing replays state with
  | zero => rfl
  | succ fuel ih =>
    rw [replayLoop, Timeline.rounds, findEarliest_eq]
    by_cases hend : replayTimeline.earliest replays = u64Max
    · rw [if_pos hend, if_pos (show _ = replayTimeline.limit from hend)]
      rfl
    · rw [if_neg hend, if_neg (show ¬ _ = replayTimeline.limit from hend),
        emitRound_eq f machine replays state hend, Option.map_map]
      dsimp only
      rw [ih]
      refine congrArg (Option.map · _) (funext fun calls => ?_)
      rw [Function.comp_apply, List.foldl_append]

/-- The replays a run starts with. -/
def ExportMachine.replays (self : ExportMachine) (predicate : ExportProcess → Bool) :
    List ExportProcessReplay :=
  ((self.prepareAll predicate).procs.filter predicate).map (·.toReplay)

variable (predicate : ExportProcess → Bool)

theorem calls_eq (fuel : Nat) :
    machine.calls predicate fuel = replayTimeline.rounds fuel (machine.replays predicate) := by
  have hrun := @replayLoop_eq (List ExportProcessReplay) Empty (fun _ r seen => seen ++ [r])
    (machine.prepareAll predicate) fuel (machine.replays predicate) []
  have happend : ∀ calls : List ExportProcessReplay,
      calls.foldl (fun seen r => seen ++ [r]) [] = calls := by
    intro calls
    induction calls using List.reverseRecOn with
    | nil => rfl
    | append_singleton calls r ih => rw [List.foldl_append, ih]; rfl
  unfold ExportMachine.calls ExportMachine.replayByTime
  change (match (replayLoop _ _ fuel (machine.replays predicate) [] :
      Option (Except Empty (List ExportProcessReplay))) with
    | some (.ok seen) => some seen
    | none => none) = _
  rw [hrun]
  cases replayTimeline.rounds fuel (machine.replays predicate) with
  | none => rfl
  | some calls => exact congrArg some (happend calls)

/-- **Every callback.** A callback that never fails is called along the calls. -/
theorem replayByTime_eq (fuel : Nat) (state : σ) :
    machine.replayByTime predicate
        (fun machine replay state => (.ok (f machine replay state) : Except ε σ)) fuel state =
      (machine.calls predicate fuel).map fun calls =>
        .ok (calls.foldl (fun state r => f (machine.prepareAll predicate) r state) state) := by
  rw [calls_eq]
  exact replayLoop_eq f _ fuel _ state

/-! ## The calls -/

variable {machine predicate} {process : ExportProcess} {calls : List ExportProcessReplay}
  {fuel : Nat}

/-- The process as it is replayed. -/
def ExportProcess.sorted (process : ExportProcess) : ExportProcess :=
  process.sortSamplesByTime.sortMappingsByTime

/-- The predicate is asked twice, the second time about the sorted process. -/
def Selected (predicate : ExportProcess → Bool) (process : ExportProcess) : Prop :=
  predicate process = true ∧ predicate process.sorted = true

theorem sorted_sorted (process : ExportProcess) : process.sorted.Sorted :=
  ⟨Cursor.ascending_insertionSort _ _, Cursor.ascending_insertionSort _ _⟩

theorem mem_replays {r : ExportProcessReplay} :
    r ∈ machine.replays predicate ↔
      ∃ process ∈ machine.procs, Selected predicate process ∧ r = .new process.sorted := by
  unfold ExportMachine.replays ExportMachine.prepareAll
  rw [List.mem_map]
  constructor
  · rintro ⟨prepared, hmem, rfl⟩
    obtain ⟨hmem, haccept⟩ := List.mem_filter.mp hmem
    obtain ⟨process, hprocess, rfl⟩ := List.mem_map.mp hmem
    unfold ExportMachine.prepare at haccept ⊢
    by_cases h : predicate process = true
    · rw [if_pos h] at haccept ⊢
      exact ⟨process, hprocess, ⟨h, haccept⟩, rfl⟩
    · rw [if_neg h] at haccept
      exact absurd haccept h
  · rintro ⟨process, hprocess, ⟨h, haccept⟩, rfl⟩
    refine ⟨process.sorted, List.mem_filter.mpr ⟨List.mem_map.mpr ⟨process, hprocess, ?_⟩,
      haccept⟩, rfl⟩
    rw [ExportMachine.prepare, if_pos h]
    rfl

theorem new_process (process : ExportProcess) :
    (ExportProcessReplay.new process).process = process := process_advance

/-- The process of a replay is known by its pid. -/
def pidOf (r : ExportProcessReplay) : Nat := r.process.pid

theorem pidOf_new (process : ExportProcess) : pidOf (.new process.sorted) = process.pid := by
  rw [pidOf, new_process]
  rfl

theorem settled_replays : ∀ r ∈ machine.replays predicate, replayTimeline.Valid r := by
  intro r hr
  obtain ⟨process, -, -, rfl⟩ := mem_replays.mp hr
  exact settled_new (sorted_sorted process)

theorem pidOf_advance (r : ExportProcessReplay) : pidOf (replayTimeline.next r) = pidOf r :=
  congrArg ExportProcess.pid process_advance

theorem nodup_replays : ((machine.replays predicate).map pidOf).Nodup := by
  have hpid : pidOf ∘ ExportProcess.toReplay = (·.pid) :=
    funext fun process => congrArg ExportProcess.pid (new_process process)
  rw [ExportMachine.replays, List.map_map, hpid]
  exact (machine.prepareAll predicate).nodup.sublist (List.filter_sublist.map _)

/-- The calls for one process, in order. -/
def callsOf (process : ExportProcess) (calls : List ExportProcessReplay) :
    List ExportProcessReplay :=
  calls.filter fun r => pidOf r = process.pid

/-- A selected process is called at each of its events. -/
theorem callsOf_selected (h : machine.calls predicate fuel = some calls)
    (hp : process ∈ machine.procs) (hselected : Selected predicate process) :
    callsOf process calls = replayTimeline.trace (.new process.sorted) := by
  rw [calls_eq] at h
  have hmem := mem_replays.mpr ⟨process, hp, hselected, rfl⟩
  have hfilter := Timeline.rounds_filter pidOf_advance nodup_replays settled_replays hmem h
  rwa [pidOf_new] at hfilter

/-- Nothing of any other process is shown. -/
theorem callsOf_rejected (h : machine.calls predicate fuel = some calls)
    (hp : process ∈ machine.procs) (hrejected : ¬ Selected predicate process) :
    callsOf process calls = [] := by
  rw [calls_eq] at h
  refine List.filter_eq_nil_iff.mpr fun c hc heq => ?_
  refine Timeline.rounds_absent pidOf_advance (k := process.pid) (fun hmem => ?_) h c hc
    (of_decide_eq_true heq)
  obtain ⟨r, hr, hpid⟩ := List.mem_map.mp hmem
  obtain ⟨other, hother, hselected, rfl⟩ := mem_replays.mp hr
  rw [pidOf_new] at hpid
  rw [List.inj_on_of_nodup_map machine.nodup hother hp hpid] at hselected
  exact hrejected hselected

/-- What is shown at a call has its time. -/
theorem itemAt_time {r : ExportProcessReplay} :
    (∀ s, r.sampleEvent = some s → s.time = r.time) ∧
      ∀ m, r.mappingEvent = some m → m.time = r.time :=
  ⟨fun _ h => (Cursor.itemAt_eq_some.mp h).2, fun _ h => (Cursor.itemAt_eq_some.mp h).2⟩

/-- The replay of a sorted process shows all of it. -/
theorem shown_sorted (hs : ∀ s ∈ process.samples, s.time < u64Max)
    (hm : ∀ m ∈ process.mappings, m.time < u64Max) :
    (replayTimeline.trace (.new process.sorted)).filterMap (·.sampleEvent) =
        process.sorted.samples ∧
      (replayTimeline.trace (.new process.sorted)).filterMap (·.mappingEvent) =
        process.sorted.mappings := by
  have hs' : ∀ s ∈ process.sorted.samples, s.time < u64Max := fun s hmem =>
    hs s ((List.perm_insertionSort _ _).mem_iff.mp hmem)
  have hm' : ∀ m ∈ process.sorted.mappings, m.time < u64Max := fun m hmem =>
    hm m ((List.perm_insertionSort _ _).mem_iff.mp hmem)
  have hsettled := settled_new (sorted_sorted process)
  have hprocess := new_process process.sorted
  have hsampleIndex : (ExportProcessReplay.new process.sorted).sampleIndex = 0 := by
    rw [ExportProcessReplay.new, sampleIndex_advance]
    exact Cursor.pass_of_lt hs'
  have hmappingIndex : (ExportProcessReplay.new process.sorted).mappingIndex = 0 := by
    rw [ExportProcessReplay.new, mappingIndex_advance]
    exact Cursor.pass_of_lt hm'
  constructor
  · rw [filterMap_sampleEvent hsettled (by rwa [hprocess]), hprocess, hsampleIndex]
    rfl
  · rw [filterMap_mappingEvent hsettled (by rwa [hprocess]), hprocess, hmappingIndex]
    rfl

/-- **Replay by time.** With times before the end of time, the loop ends, a callback that never
fails is called in order of time, and each sample and each mapping of a selected process is shown
in one call, at its own time. Nothing of another process is shown. -/
theorem replayByTime_shows (machine : ExportMachine) (predicate : ExportProcess → Bool)
    (hsamples : ∀ p ∈ machine.procs, ∀ s ∈ p.samples, s.time < u64Max)
    (hmappings : ∀ p ∈ machine.procs, ∀ m ∈ p.mappings, m.time < u64Max) :
    ∃ rounds calls,
      (∀ (σ ε : Type) (f : ExportMachine → ExportProcessReplay → σ → σ) (state : σ),
        ∀ fuel ≥ rounds, machine.replayByTime predicate
          (fun machine replay state => (.ok (f machine replay state) : Except ε σ)) fuel state =
        some (.ok (calls.foldl (fun state r => f (machine.prepareAll predicate) r state)
          state))) ∧
      calls.Pairwise (fun a b => a.time ≤ b.time) ∧
      (∀ p ∈ machine.procs, Selected predicate p →
        ((callsOf p calls).filterMap (·.sampleEvent)).Perm p.samples ∧
        ((callsOf p calls).filterMap (·.mappingEvent)).Perm p.mappings) ∧
      (∀ p ∈ machine.procs, ¬ Selected predicate p → callsOf p calls = []) ∧
      ∀ c ∈ calls, (∀ s, c.sampleEvent = some s → s.time = c.time) ∧
        ∀ m, c.mappingEvent = some m → m.time = c.time := by
  have hvalid : ∀ r ∈ machine.replays predicate, replayTimeline.Valid r := settled_replays
  obtain ⟨calls, hcalls⟩ := Timeline.rounds_total hvalid (Nat.lt_succ_self _)
  have hrun := (calls_eq machine predicate _).trans hcalls
  refine ⟨((machine.replays predicate).map replayTimeline.left).sum + 1, calls,
    fun σ ε f state fuel hfuel => ?_,
    (Timeline.rounds_ascending hvalid hcalls).1,
    fun p hp hselected => ?_, fun p hp => callsOf_rejected hrun hp, fun c _ => itemAt_time⟩
  · rw [replayByTime_eq, calls_eq, Timeline.rounds_mono hcalls hfuel]
    rfl
  · obtain ⟨hps, hpm⟩ := shown_sorted (hsamples p hp) (hmappings p hp)
    rw [callsOf_selected hrun hp hselected, hps, hpm]
    exact ⟨List.perm_insertionSort _ _, List.perm_insertionSort _ _⟩

/-- Samples and mappings that share their times, and an exit before them. -/
theorem replayByTime_shows_ties :
    let process : ExportProcess :=
      { pid := 7, exitTimeQpc := some 2
        samples := [{ time := 9 }, { time := 3, cpu := 1 }, { time := 3, cpu := 2 }]
        mappings := [{ time := 3, start := 0x10, stop := 0x1f }] }
    let other : ExportProcess := { pid := 8, samples := [{ time := 3 }] }
    ∃ calls, ((callsOf process calls).filterMap (·.sampleEvent)).Perm process.samples ∧
      callsOf other calls = [] := by
  intro process other
  obtain ⟨-, calls, -, -, hshown, hrejected, -⟩ := replayByTime_shows
    { procs := [process, other] }
    (fun p => p.pid == 7) (by decide) (by decide)
  exact ⟨calls, (hshown process (by decide) ⟨rfl, rfl⟩).1,
    hrejected other (by decide) fun h => absurd h.1 (by decide)⟩

/-! ## Process states -/

/-- The events that `write_replay_event` writes about the process itself. -/
inductive ProcessEvent where
  | existing
  | create
  | exit
  deriving DecidableEq, Repr

def writeProcessEvents (syncTime : Nat) (replay : ExportProcessReplay) : List ProcessEvent :=
  (if replay.createdEvent then [if replay.time < syncTime then .existing else .create] else []) ++
    if replay.exitedEvent then [.exit] else []

/-- A process state with a time is reported at one call and by one event, one without a time
not at all. -/
def ReportedOnce (syncTime : Nat) (process : ExportProcess) (calls : List ExportProcessReplay) :
    Prop :=
  let shown := callsOf process calls
  let written := shown.flatMap (writeProcessEvents syncTime)
  shown.countP (·.createdEvent) = (if process.createTimeQpc.isSome then 1 else 0) ∧
    shown.countP (·.exitedEvent) = (if process.exitTimeQpc.isSome then 1 else 0) ∧
    written.countP (· ≠ .exit) = (if process.createTimeQpc.isSome then 1 else 0) ∧
    written.countP (· = .exit) = if process.exitTimeQpc.isSome then 1 else 0

/-- At most one sample and one mapping have the time. -/
def Alone (process : ExportProcess) (time : Nat) : Prop :=
  process.samples.countP (fun s => s.time == time) ≤ 1 ∧
    process.mappings.countP (fun m => m.time == time) ≤ 1

theorem countP_written (syncTime : Nat) (shown : List ExportProcessReplay) :
    (shown.flatMap (writeProcessEvents syncTime)).countP (· ≠ .exit) =
        shown.countP (·.createdEvent) ∧
      (shown.flatMap (writeProcessEvents syncTime)).countP (· = .exit) =
        shown.countP (·.exitedEvent) := by
  induction shown with
  | nil => exact ⟨rfl, rfl⟩
  | cons r shown ih =>
    rw [List.flatMap_cons, List.countP_append, List.countP_append, ih.1, ih.2, List.countP_cons,
      List.countP_cons, writeProcessEvents]
    have hkind : (if r.time < syncTime then ProcessEvent.existing else .create) ≠ .exit := by
      split <;> decide
    cases r.createdEvent <;> cases r.exitedEvent <;> simp [hkind, Nat.add_comm]

/-- The first state of a replay has every step of a time before it. -/
theorem shownAt_new {life : Life} {c : Nat}
    (hc : (ExportProcessReplay.new process.sorted).lifeTime life = some c) (hlt : c < u64Max) :
    (ExportProcessReplay.new process.sorted).shownAt life c =
      max 1 (max (process.samples.countP fun s => s.time == c)
        (process.mappings.countP fun m => m.time == c)) := by
  have hstart : ({ process := process.sorted } : ExportProcessReplay).lifeTime life = some c :=
    (lifeTime_advance life).symm.trans hc
  have hsteps : (ExportProcessReplay.new process.sorted).stepsAt c =
      max (process.sorted.samples.countP fun s => s.time == c)
        (process.sorted.mappings.countP fun m => m.time == c) :=
    stepsAt_advance_of_ne (Nat.ne_of_gt hlt)
  have hnow : (ExportProcessReplay.new process.sorted).flag life = false ∨
      (ExportProcessReplay.new process.sorted).currentTime = c := by
    rw [ExportProcessReplay.new, flag_advance, currentTime_advance]
    by_cases heq : c = nextTime { process := process.sorted }
    · exact .inr heq.symm
    · refine .inl (Bool.eq_false_iff.mpr fun hset => ?_)
      rcases (nextFlag_eq_true hstart).mp hset with hset | hset
      · cases life <;> cases hset
      · exact heq hset
  have hsamples : process.sorted.samples.Perm process.samples := List.perm_insertionSort _ _
  have hmappings : process.sorted.mappings.Perm process.mappings := List.perm_insertionSort _ _
  rw [shownAt, if_pos hnow, hsteps, hsamples.countP_eq, hmappings.countP_eq]

/-- A process state is shown at every step of its time, and at least once. -/
theorem countP_callsOf (h : machine.calls predicate fuel = some calls)
    (hp : process ∈ machine.procs) (hselected : Selected predicate process) (life : Life)
    {c : Nat} (hc : (ExportProcessReplay.new process.sorted).lifeTime life = some c)
    (hlt : c < u64Max) :
    (callsOf process calls).countP (·.lifeEvent life) =
      max 1 (max (process.samples.countP fun s => s.time == c)
        (process.mappings.countP fun m => m.time == c)) := by
  have hsettled := settled_new (sorted_sorted process)
  rw [callsOf_selected h hp hselected, countP_lifeEvent hsettled hc hlt, shownAt_new hc hlt]

theorem countP_callsOf_none (h : machine.calls predicate fuel = some calls)
    (hp : process ∈ machine.procs) (hselected : Selected predicate process) (life : Life)
    (hnone : (ExportProcessReplay.new process.sorted).lifeTime life = none) :
    (callsOf process calls).countP (·.lifeEvent life) = 0 := by
  rw [callsOf_selected h hp hselected,
    countP_lifeEvent_none (settled_new (sorted_sorted process)) hnone]

theorem countP_eq_iff (h : machine.calls predicate fuel = some calls)
    (hp : process ∈ machine.procs) (hselected : Selected predicate process) (life : Life)
    {time : Option Nat} (htime : (ExportProcessReplay.new process.sorted).lifeTime life = time)
    (hlt : ∀ c, time = some c → c < u64Max) :
    (callsOf process calls).countP (·.lifeEvent life) = (if time.isSome then 1 else 0) ↔
      ∀ c, time = some c → Alone process c := by
  cases time with
  | none =>
    rw [countP_callsOf_none h hp hselected life htime]
    simp
  | some c =>
    rw [countP_callsOf h hp hselected life htime (hlt c rfl), Option.isSome_some, if_pos rfl]
    constructor
    · rintro hmax _ ⟨⟩
      exact ⟨by omega, by omega⟩
    · intro halone
      obtain ⟨hs, hm⟩ := halone c rfl
      omega

/-- **Process states.** In a run that ends, as every run does, a selected process is reported
as created and as exited once if and only if, at either time, it has at most one sample and at
most one mapping. -/
theorem reportedOnce_iff (machine : ExportMachine) (predicate : ExportProcess → Bool)
    (syncTime : Nat) :
    ∃ rounds calls, (∀ fuel ≥ rounds, machine.calls predicate fuel = some calls) ∧
      ∀ p ∈ machine.procs, Selected predicate p →
        (∀ c, p.createTimeQpc = some c → c < u64Max) →
        (∀ c, p.exitTimeQpc = some c → c < u64Max) →
        (ReportedOnce syncTime p calls ↔
          (∀ c, p.createTimeQpc = some c → Alone p c) ∧
            ∀ c, p.exitTimeQpc = some c → Alone p c) := by
  have hvalid : ∀ r ∈ machine.replays predicate, replayTimeline.Valid r := settled_replays
  obtain ⟨calls, hcalls⟩ := Timeline.rounds_total hvalid (Nat.lt_succ_self _)
  refine ⟨((machine.replays predicate).map replayTimeline.left).sum + 1, calls,
    fun fuel hfuel => ?_, fun p hp hselected hcreate hexit => ?_⟩
  · rw [calls_eq, Timeline.rounds_mono hcalls hfuel]
  · have hrun := (calls_eq machine predicate _).trans hcalls
    have hprocess := new_process p.sorted
    have hcreated := countP_eq_iff hrun hp hselected .created
      (congrArg ExportProcess.createTimeQpc hprocess) hcreate
    have hexited := countP_eq_iff hrun hp hselected .exited
      (congrArg ExportProcess.exitTimeQpc hprocess) hexit
    obtain ⟨hcreates, hexits⟩ := countP_written syncTime (callsOf p calls)
    unfold ReportedOnce
    dsimp only
    rw [hcreates, hexits]
    constructor
    · rintro ⟨hc, he, -, -⟩
      exact ⟨hcreated.mp hc, hexited.mp he⟩
    · rintro ⟨hc, he⟩
      have hc := hcreated.mpr hc
      have he := hexited.mpr he
      exact ⟨hc, he, hc, he⟩

/-- A sample and a mapping at the time of the creation, and two samples at another time. -/
theorem reportedOnce_pair :
    let process : ExportProcess :=
      { pid := 7, createTimeQpc := some 5, exitTimeQpc := some 9
        samples := [{ time := 5 }, { time := 8 }, { time := 8 }]
        mappings := [{ time := 5, start := 0x10, stop := 0x1f }] }
    ∃ calls, ReportedOnce 6 process calls := by
  intro process
  obtain ⟨-, calls, -, hiff⟩ := reportedOnce_iff { procs := [process] } (fun _ => true) 6
  refine ⟨calls, (hiff process (by decide) ⟨rfl, rfl⟩ ?_ ?_).mpr ⟨?_, ?_⟩⟩
  · rintro c ⟨⟩
    decide
  · rintro c ⟨⟩
    decide
  · rintro c ⟨⟩
    exact ⟨by decide, by decide⟩
  · rintro c ⟨⟩
    exact ⟨by decide, by decide⟩

/-- Two samples at the time of the creation: it is reported with each of them. -/
theorem created_twice :
    let process : ExportProcess :=
      { pid := 7, createTimeQpc := some 5, samples := [{ time := 5 }, { time := 5, cpu := 1 }] }
    ∃ calls, ({ procs := [process] } : ExportMachine).calls (fun _ => true) 3 = some calls ∧
      (callsOf process calls).countP (·.createdEvent) = 2 ∧
      (callsOf process calls).flatMap (writeProcessEvents 0) = [.create, .create] :=
  ⟨_, rfl, by decide, by decide⟩

end OneCollect.Exporting
