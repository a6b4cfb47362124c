import OneCollect.Exporting.Mappings
import OneCollect.Ruwind.Modules
import OneCollect.Theory.Cursor

/-! A process of an export (`process.rs`) and its replay: a cursor over the samples, one over
the mappings, and the create and exit times, merged by time.

`replayTimeline` makes a replay a `Theory.Timeline`; `filterMap_sampleEvent` and
`filterMap_mappingEvent` say that its trace shows what the cursors have before them, and
`countP_lifeEvent` how often it shows a create or exit event. -/

namespace OneCollect.Exporting
open Theory

inductive MetricValue where
  | count (n : Nat)
  | duration (n : Nat)
  | bytes (n : Nat)
  | span (id : Nat)
  deriving DecidableEq, Repr

structure ExportProcessSample where
  time : Nat
  value : MetricValue := .count 0
  cpu : Nat := 0
  kind : Nat := 0
  tid : Nat := 0
  ip : Nat := 0
  callstackId : Nat := 0
  recordId : Nat := 0
  attributesId : Nat := 0
  deriving DecidableEq, Repr

structure ExportDevNode where
  dev : Nat
  ino : Nat
  deriving DecidableEq, Repr

structure ExportSymbol where
  nameId : Nat
  start : Nat
  stop : Nat
  deriving DecidableEq, Repr

/-- A mapping with the fields that a query does not read. -/
structure ProcessMapping extends ExportMapping where
  filenameId : Nat := 0
  fileOffset : Nat := 0
  vaOffset : Nat := 0
  anon : Bool := false
  id : Nat := 0
  unwindType : Ruwind.UnwindType := .DWARF
  node : Option ExportDevNode := none
  symbols : List ExportSymbol := []
  deriving DecidableEq, Repr

structure ExportProcess where
  pid : Nat
  commId : Option Nat := none
  nsPid : Option Nat := none
  samples : List ExportProcessSample := []
  mappings : List ProcessMapping := []
  createTimeQpc : Option Nat := none
  exitTimeQpc : Option Nat := none
  deriving DecidableEq, Repr

namespace ExportProcess

def sortSamplesByTime (self : ExportProcess) : ExportProcess :=
  { self with samples := self.samples.insertionSort fun a b => a.time ≤ b.time }

def sortMappingsByTime (self : ExportProcess) : ExportProcess :=
  { self with mappings := self.mappings.insertionSort fun a b => a.time ≤ b.time }

/-- Samples and mappings in order of time. -/
def Sorted (process : ExportProcess) : Prop :=
  Cursor.Ascending (·.time) process.samples ∧ Cursor.Ascending (·.time) process.mappings

end ExportProcess

/-! ## The replay -/

/-- The bits of `flags` are kept as `created` and `exited`. -/
structure ExportProcessReplay where
  process : ExportProcess
  currentTime : Nat := u64Max
  sampleIndex : Nat := 0
  mappingIndex : Nat := 0
  created : Bool := false
  exited : Bool := false
  deriving DecidableEq, Repr

namespace ExportProcessReplay

def time (self : ExportProcessReplay) : Nat := self.currentTime

/-- The body of `created_event` and of `exited_event`. -/
def eventAt (lifeTime : Option Nat) (currentTime : Nat) : Bool :=
  match lifeTime with
  | some time => time == currentTime
  | none => false

def createdEvent (self : ExportProcessReplay) : Bool :=
  eventAt self.process.createTimeQpc self.currentTime

def exitedEvent (self : ExportProcessReplay) : Bool :=
  eventAt self.process.exitTimeQpc self.currentTime

def tryGetSample (self : ExportProcessReplay) : Option ExportProcessSample :=
  self.process.samples[self.sampleIndex]?

def tryGetMapping (self : ExportProcessReplay) : Option ProcessMapping :=
  self.process.mappings[self.mappingIndex]?

def sampleEvent (self : ExportProcessReplay) : Option ExportProcessSample :=
  self.tryGetSample.filter fun sample => sample.time == self.currentTime

def mappingEvent (self : ExportProcessReplay) : Option ProcessMapping :=
  self.tryGetMapping.filter fun mapping => mapping.time == self.currentTime

def done (self : ExportProcessReplay) : Bool := self.currentTime == u64Max

/-- `if time < self.current_time { self.current_time = time; }` for a time that may be missing. -/
def lower (self : ExportProcessReplay) (time : Option Nat) : ExportProcessReplay :=
  match time with
  | some time => if time < self.currentTime then { self with currentTime := time } else self
  | none => self

/-- Advance the indexes by time. -/
def passItems (self : ExportProcessReplay) : ExportProcessReplay :=
  let self := if self.sampleEvent.isSome then
    { self with sampleIndex := self.sampleIndex + 1 } else self
  if self.mappingEvent.isSome then { self with mappingIndex := self.mappingIndex + 1 } else self

/-- Reset to find the earliest time among the next items. -/
def lowerToItems (self : ExportProcessReplay) : ExportProcessReplay :=
  let self := { self with currentTime := u64Max }
  let self := self.lower (self.tryGetSample.map (·.time))
  self.lower (self.tryGetMapping.map (·.time))

/-- Take the process states into account; without a time only the flag is set. -/
def lowerToLife (self : ExportProcessReplay) : ExportProcessReplay :=
  let self := if !self.created then
    match self.process.createTimeQpc with
    | some time => self.lower time
    | none => { self with created := true }
    else self
  if !self.exited then
    match self.process.exitTimeQpc with
    | some time => self.lower time
    | none => { self with exited := true }
  else self

/-- Update the flags, late so that an exit before the creation is kept. -/
def setFlags (self : ExportProcessReplay) : ExportProcessReplay :=
  let self := if self.createdEvent then { self with created := true } else self
  if self.exitedEvent then { self with exited := true } else self

def advance (self : ExportProcessReplay) : ExportProcessReplay :=
  self.passItems.lowerToItems.lowerToLife.setFlags

/-- `ExportProcessReplay::new`: the state at the first event. -/
def new (process : ExportProcess) : ExportProcessReplay := advance { process }

end ExportProcessReplay

def ExportProcess.toReplay (self : ExportProcess) : ExportProcessReplay := .new self

/-! ## What one step does -/

/-- The two process states that are reported. -/
inductive Life where
  | created
  | exited
  deriving DecidableEq, Repr

namespace ExportProcessReplay

def lifeTime (self : ExportProcessReplay) : Life → Option Nat
  | .created => self.process.createTimeQpc
  | .exited => self.process.exitTimeQpc

def flag (self : ExportProcessReplay) : Life → Bool
  | .created => self.created
  | .exited => self.exited

def lifeEvent (self : ExportProcessReplay) (life : Life) : Bool :=
  eventAt (self.lifeTime life) self.currentTime

theorem eventAt_eq_true {lifeTime : Option Nat} {currentTime : Nat} :
    eventAt lifeTime currentTime = true ↔ lifeTime = some currentTime := by
  cases lifeTime with
  | none => simp [eventAt]
  | some time => simp [eventAt]

theorem sampleEvent_eq (r : ExportProcessReplay) :
    r.sampleEvent = Cursor.itemAt (·.time) r.process.samples r.sampleIndex r.currentTime := rfl

theorem mappingEvent_eq (r : ExportProcessReplay) :
    r.mappingEvent = Cursor.itemAt (·.time) r.process.mappings r.mappingIndex r.currentTime := rfl

variable (r : ExportProcessReplay)

theorem passItems_eq :
    r.passItems = { r with
      sampleIndex := Cursor.pass (·.time) r.process.samples r.sampleIndex r.currentTime
      mappingIndex := Cursor.pass (·.time) r.process.mappings r.mappingIndex r.currentTime } := by
  unfold passItems Cursor.pass
  rw [← sampleEvent_eq, ← mappingEvent_eq]
  cases hs : r.sampleEvent.isSome
  · simp only [Bool.false_eq_true, if_false]
    split <;> rfl
  · have hm : mappingEvent { r with sampleIndex := r.sampleIndex + 1 } = r.mappingEvent := rfl
    simp only [if_true, hm]
    split <;> rfl

/-- The earlier of a time and one that may be missing. -/
def earlier (now : Nat) : Option Nat → Nat
  | some time => min time now
  | none => now

theorem earlier_le_now (now : Nat) (time : Option Nat) : earlier now time ≤ now := by
  cases time with
  | none => exact le_refl _
  | some time => exact min_le_right _ _

theorem earlier_le {now t : Nat} {time : Option Nat} (h : time = some t) :
    earlier now time ≤ t := by
  rw [h]
  exact min_le_left _ _

theorem earlier_cases (now : Nat) (time : Option Nat) :
    earlier now time = now ∨ time = some (earlier now time) := by
  cases time with
  | none => exact .inl rfl
  | some time =>
    rcases min_choice time now with h | h
    · exact .inr (congrArg some h.symm)
    · exact .inl h

theorem lower_eq (time : Option Nat) :
    r.lower time = { r with currentTime := earlier r.currentTime time } := by
  unfold lower earlier
  cases time with
  | none => rfl
  | some time =>
    by_cases h : time < r.currentTime
    · simp only [if_pos h, min_eq_left (Nat.le_of_lt h)]
    · simp only [if_neg h, min_eq_right (not_lt.mp h)]

/-- The time of a process state, as long as it is not reported. -/
def pendingTime (life : Life) : Option Nat := if r.flag life then none else r.lifeTime life

theorem lowerToLife_eq :
    r.lowerToLife = { r with
      currentTime := earlier (earlier r.currentTime (r.pendingTime .created))
        (r.pendingTime .exited)
      created := r.created || r.process.createTimeQpc.isNone
      exited := r.exited || r.process.exitTimeQpc.isNone } := by
  obtain ⟨process, currentTime, sampleIndex, mappingIndex, created, exited⟩ := r
  cases created <;> cases exited <;> cases hc : process.createTimeQpc <;>
    cases he : process.exitTimeQpc <;>
    simp [lowerToLife, lower_eq, pendingTime, flag, lifeTime, hc, he, earlier]

theorem setFlags_eq :
    r.setFlags = { r with
      created := r.created || r.createdEvent
      exited := r.exited || r.exitedEvent } := by
  have hexited : exitedEvent { r with created := true } = r.exitedEvent := rfl
  unfold setFlags
  cases hc : r.createdEvent <;> cases he : r.exitedEvent <;> simp [he, hexited]

/-- The sample and the mapping under the cursors after a step, and the earliest time then. -/
def nextSample : Option ExportProcessSample :=
  r.process.samples[Cursor.pass (·.time) r.process.samples r.sampleIndex r.currentTime]?

def nextMapping : Option ProcessMapping :=
  r.process.mappings[Cursor.pass (·.time) r.process.mappings r.mappingIndex r.currentTime]?

def nextTime : Nat :=
  earlier (earlier (earlier (earlier u64Max (r.nextSample.map (·.time)))
    (r.nextMapping.map (·.time))) (r.pendingTime .created)) (r.pendingTime .exited)

theorem nextTime_le_max : r.nextTime ≤ u64Max :=
  (earlier_le_now _ _).trans <| (earlier_le_now _ _).trans <| (earlier_le_now _ _).trans <|
    earlier_le_now _ _

theorem nextTime_le_sample {s : ExportProcessSample} (h : r.nextSample = some s) :
    r.nextTime ≤ s.time :=
  (earlier_le_now _ _).trans <| (earlier_le_now _ _).trans <| (earlier_le_now _ _).trans <|
    earlier_le (by rw [h]; rfl)

theorem nextTime_le_mapping {m : ProcessMapping} (h : r.nextMapping = some m) :
    r.nextTime ≤ m.time :=
  (earlier_le_now _ _).trans <| (earlier_le_now _ _).trans <| earlier_le (by rw [h]; rfl)

theorem nextTime_le_pending {life : Life} {c : Nat} (h : r.pendingTime life = some c) :
    r.nextTime ≤ c := by
  cases life with
  | created => exact (earlier_le_now _ _).trans (earlier_le h)
  | exited => exact earlier_le h

/-- Where the next time comes from. -/
theorem nextTime_cases :
    r.nextTime = u64Max ∨ (∃ s, r.nextSample = some s ∧ s.time = r.nextTime) ∨
      (∃ m, r.nextMapping = some m ∧ m.time = r.nextTime) ∨
      ∃ life, r.pendingTime life = some r.nextTime := by
  unfold nextTime
  rcases earlier_cases _ (r.pendingTime .exited) with h | h
  · rw [h]
    rcases earlier_cases _ (r.pendingTime .created) with h | h
    · rw [h]
      rcases earlier_cases _ (r.nextMapping.map (·.time)) with h | h
      · rw [h]
        rcases earlier_cases u64Max (r.nextSample.map (·.time)) with h | h
        · exact .inl h
        · obtain ⟨s, hs, htime⟩ := Option.map_eq_some_iff.mp h
          exact .inr (.inl ⟨s, hs, htime⟩)
      · obtain ⟨m, hm, htime⟩ := Option.map_eq_some_iff.mp h
        exact .inr (.inr (.inl ⟨m, hm, htime⟩))
    · exact .inr (.inr (.inr ⟨.created, h⟩))
  · exact .inr (.inr (.inr ⟨.exited, h⟩))

/-- The flag of a process state after a step. -/
def nextFlag (life : Life) : Bool :=
  r.flag life || (r.lifeTime life).isNone || eventAt (r.lifeTime life) r.nextTime

/-- **One step** of a replay. -/
theorem advance_eq :
    r.advance = {
      process := r.process
      currentTime := r.nextTime
      sampleIndex := Cursor.pass (·.time) r.process.samples r.sampleIndex r.currentTime
      mappingIndex := Cursor.pass (·.time) r.process.mappings r.mappingIndex r.currentTime
      created := r.nextFlag .created
      exited := r.nextFlag .exited } := by
  have hlife := lowerToLife_eq r.passItems.lowerToItems
  have hitems : r.passItems.lowerToItems = { r.passItems with
      currentTime := earlier (earlier u64Max (r.nextSample.map (·.time)))
        (r.nextMapping.map (·.time)) } := by
    unfold lowerToItems
    rw [passItems_eq]
    simp only [lower_eq]
    rfl
  rw [hitems, passItems_eq] at hlife
  rw [advance, hitems, passItems_eq, hlife, setFlags_eq]
  rfl

variable {r}

theorem flag_advance (life : Life) : r.advance.flag life = r.nextFlag life := by
  rw [advance_eq]
  cases life <;> rfl

theorem lifeTime_advance (life : Life) : r.advance.lifeTime life = r.lifeTime life := by
  rw [advance_eq]
  cases life <;> rfl

theorem process_advance : r.advance.process = r.process := by rw [advance_eq]

theorem currentTime_advance : r.advance.currentTime = r.nextTime := by rw [advance_eq]

theorem tryGetSample_advance : r.advance.tryGetSample = r.nextSample := by
  rw [advance_eq]
  rfl

theorem tryGetMapping_advance : r.advance.tryGetMapping = r.nextMapping := by
  rw [advance_eq]
  rfl

theorem sampleIndex_advance : r.advance.sampleIndex =
    Cursor.pass (·.time) r.process.samples r.sampleIndex r.currentTime := by
  rw [advance_eq]

theorem mappingIndex_advance : r.advance.mappingIndex =
    Cursor.pass (·.time) r.process.mappings r.mappingIndex r.currentTime := by
  rw [advance_eq]

/-! ## Invariant -/

/-- What holds of a replay at each of its events: nothing that is left is due before the current
time, and a process state is flagged once its time has come. -/
structure Settled (r : ExportProcessReplay) : Prop where
  sorted : r.process.Sorted
  le_max : r.currentTime ≤ u64Max
  sample : ∀ s, r.tryGetSample = some s → r.currentTime ≤ s.time
  mapping : ∀ m, r.tryGetMapping = some m → r.currentTime ≤ m.time
  pending : ∀ life c, r.lifeTime life = some c → r.flag life = false → r.currentTime < c
  flagged : ∀ life c, r.lifeTime life = some c → r.flag life = true → c ≤ r.currentTime

theorem nextFlag_eq_true {life : Life} {c : Nat} (h : r.lifeTime life = some c) :
    r.nextFlag life = true ↔ r.flag life = true ∨ c = r.nextTime := by
  rw [nextFlag, h, Option.isNone_some, Bool.or_false, Bool.or_eq_true, eventAt_eq_true,
    Option.some.injEq]

theorem pendingTime_eq_some {life : Life} {c : Nat} :
    r.pendingTime life = some c ↔ r.flag life = false ∧ r.lifeTime life = some c := by
  unfold pendingTime
  cases r.flag life <;> simp

/-- A bound of all that is left is a bound of the next time. -/
theorem le_nextTime {t : Nat} (hmax : t ≤ u64Max) (hs : ∀ s, r.nextSample = some s → t ≤ s.time)
    (hm : ∀ m, r.nextMapping = some m → t ≤ m.time)
    (hp : ∀ life c, r.pendingTime life = some c → t ≤ c) : t ≤ r.nextTime := by
  rcases r.nextTime_cases with h | ⟨s, hsome, h⟩ | ⟨m, hsome, h⟩ | ⟨life, h⟩
  · rwa [h]
  · exact h ▸ hs s hsome
  · exact h ▸ hm m hsome
  · exact hp life _ h

theorem Settled.le_next (hr : r.Settled) : r.currentTime ≤ r.nextTime := by
  refine le_nextTime hr.le_max (fun s hs => ?_) (fun m hm => ?_) fun life c hp => ?_
  · exact Cursor.le_of_pass hr.sorted.1 hr.sample hs
  · exact @Cursor.le_of_pass _ (fun m : ProcessMapping => m.time) _ _ _ _ hr.sorted.2
      hr.mapping hm
  · obtain ⟨hflag, htime⟩ := pendingTime_eq_some.mp hp
    exact Nat.le_of_lt (hr.pending life c htime hflag)

/-- Whatever the state was, a step leaves nothing behind. -/
theorem settled_advance_of (hsorted : r.process.Sorted)
    (hflagged : ∀ life c, r.lifeTime life = some c → r.flag life = true → c ≤ r.nextTime) :
    r.advance.Settled := by
  refine ⟨?_, ?_, ?_, ?_, fun life c hc hflag => ?_, fun life c hc hflag => ?_⟩
  · rwa [process_advance]
  · rw [currentTime_advance]
    exact r.nextTime_le_max
  · rw [currentTime_advance, tryGetSample_advance]
    exact fun s => r.nextTime_le_sample
  · rw [currentTime_advance, tryGetMapping_advance]
    exact fun m => r.nextTime_le_mapping
  · rw [currentTime_advance]
    rw [lifeTime_advance] at hc
    rw [flag_advance] at hflag
    have hnot := mt (nextFlag_eq_true hc).mpr (Bool.eq_false_iff.mp hflag)
    rw [not_or, Bool.not_eq_true] at hnot
    have hle := r.nextTime_le_pending (pendingTime_eq_some.mpr ⟨hnot.1, hc⟩)
    exact lt_of_le_of_ne hle fun heq => hnot.2 heq.symm
  · rw [currentTime_advance]
    rw [lifeTime_advance] at hc
    rw [flag_advance, nextFlag_eq_true hc] at hflag
    rcases hflag with hflag | rfl
    · exact hflagged life c hc hflag
    · exact le_refl _

/-- **Invariant of a replay**, kept by each step. -/
theorem Settled.advance (hr : r.Settled) : r.advance.Settled :=
  settled_advance_of hr.sorted fun life c hc hflag =>
    (hr.flagged life c hc hflag).trans hr.le_next

theorem settled_new {process : ExportProcess} (h : process.Sorted) : (new process).Settled := by
  refine settled_advance_of h fun life c _ hflag => ?_
  cases life <;> cases hflag

/-! ## The trace of a replay -/

/-- A process state that is still to be reported. -/
def unreported (flag : Bool) : Nat := if flag then 0 else 1

/-- Neither a sample nor a mapping is shown, only a process state. -/
def OnlyLife (r : ExportProcessReplay) : Prop :=
  r.sampleEvent = none ∧ r.mappingEvent = none ∧ r.currentTime ≠ u64Max

instance : DecidablePred OnlyLife := fun r => by unfold OnlyLife; infer_instance

/-- The items and process states left, and the state that is only shown now. -/
def left (r : ExportProcessReplay) : Nat :=
  (r.process.samples.length - r.sampleIndex) + (r.process.mappings.length - r.mappingIndex) +
    (unreported r.created + unreported r.exited) + if r.OnlyLife then 1 else 0

theorem unreported_le {a b : Bool} (h : a = true → b = true) : unreported b ≤ unreported a := by
  cases a with
  | false => cases b <;> decide
  | true => rw [h rfl]

theorem flag_of_flag {life : Life} (h : r.flag life = true) : r.advance.flag life = true := by
  rw [flag_advance, nextFlag, h]
  rfl

/-- Only a process state is shown after a step when its flag was set by this step. -/
theorem exists_of_onlyLife (h : r.advance.OnlyLife) :
    ∃ life, r.flag life = false ∧ r.advance.flag life = true := by
  obtain ⟨hsample, hmapping, hmax⟩ := h
  rw [currentTime_advance] at hmax
  rcases r.nextTime_cases with htime | ⟨s, hs, htime⟩ | ⟨m, hm, htime⟩ | ⟨life, hpending⟩
  · exact absurd htime hmax
  · have hevent : r.advance.sampleEvent = some s :=
      Cursor.itemAt_eq_some.mpr ⟨tryGetSample_advance.trans hs, htime.trans
        currentTime_advance.symm⟩
    exact absurd (hsample.symm.trans hevent) (by simp)
  · have hevent : r.advance.mappingEvent = some m :=
      Cursor.itemAt_eq_some.mpr ⟨tryGetMapping_advance.trans hm, htime.trans
        currentTime_advance.symm⟩
    exact absurd (hmapping.symm.trans hevent) (by simp)
  · obtain ⟨hflag, hlife⟩ := pendingTime_eq_some.mp hpending
    refine ⟨life, hflag, ?_⟩
    rw [flag_advance]
    exact (nextFlag_eq_true hlife).mpr (.inr rfl)

theorem unreported_advance :
    unreported r.advance.created + unreported r.advance.exited +
      (if r.advance.OnlyLife then 1 else 0) ≤ unreported r.created + unreported r.exited := by
  have hcreated := @unreported_le r.created r.advance.created (@flag_of_flag r .created)
  have hexited := @unreported_le r.exited r.advance.exited (@flag_of_flag r .exited)
  by_cases honly : r.advance.OnlyLife
  · obtain ⟨life, hunset, hset⟩ := exists_of_onlyLife honly
    rw [if_pos honly]
    cases life with
    | created =>
      have hlt : unreported r.advance.created < unreported r.created := by
        rw [show r.advance.created = true from hset, show r.created = false from hunset]
        decide
      omega
    | exited =>
      have hlt : unreported r.advance.exited < unreported r.exited := by
        rw [show r.advance.exited = true from hset, show r.exited = false from hunset]
        decide
      omega
  · rw [if_neg honly]
    omega

/-- Each step leaves less. -/
theorem left_advance (h : r.currentTime ≠ u64Max) : r.advance.left < r.left := by
  have hlife := @unreported_advance r
  have hsample := Cursor.le_pass (·.time) r.process.samples r.sampleIndex r.currentTime
  have hmapping := Cursor.le_pass (·.time) r.process.mappings r.mappingIndex r.currentTime
  unfold left
  rw [process_advance, sampleIndex_advance, mappingIndex_advance]
  cases hs : r.sampleEvent with
  | some s =>
    obtain ⟨hlt, hpass⟩ := @Cursor.pass_of_isSome _ (fun s : ExportProcessSample => s.time) _ _ _
      (Option.isSome_iff_exists.mpr ⟨s, hs⟩)
    omega
  | none =>
    cases hm : r.mappingEvent with
    | some m =>
      obtain ⟨hlt, hpass⟩ := @Cursor.pass_of_isSome _ (fun m : ProcessMapping => m.time) _ _ _
        (Option.isSome_iff_exists.mpr ⟨m, hm⟩)
      omega
    | none =>
      rw [if_pos (show r.OnlyLife from ⟨hs, hm, h⟩)]
      omega

/-- A replay as a source of calls. -/
def replayTimeline : Timeline ExportProcessReplay Nat where
  time := time
  limit := u64Max
  next := advance
  left := left
  Valid := Settled
  time_le_limit _ hr := hr.le_max
  valid_next _ hr _ := hr.advance
  left_lt _ _ h := left_advance h
  time_le_next r hr _ := by
    rw [time, time, currentTime_advance]
    exact hr.le_next

theorem samples_along : Cursor.Along replayTimeline (fun s : ExportProcessSample => s.time)
    (fun r => r.process.samples) sampleIndex where
  items_next r := congrArg ExportProcess.samples (process_advance (r := r))
  index_next _ := sampleIndex_advance
  le_time _ hr := hr.sample

theorem mappings_along : Cursor.Along replayTimeline (fun m : ProcessMapping => m.time)
    (fun r => r.process.mappings) mappingIndex where
  items_next r := congrArg ExportProcess.mappings (process_advance (r := r))
  index_next _ := mappingIndex_advance
  le_time _ hr := hr.mapping

/-- **Samples.** A replay shows every sample before its cursor once, in order. -/
theorem filterMap_sampleEvent (hr : r.Settled) (hlt : ∀ s ∈ r.process.samples, s.time < u64Max) :
    (replayTimeline.trace r).filterMap sampleEvent = r.process.samples.drop r.sampleIndex :=
  samples_along.filterMap_itemAt hr hlt

/-- **Mappings.** The same for them. -/
theorem filterMap_mappingEvent (hr : r.Settled)
    (hlt : ∀ m ∈ r.process.mappings, m.time < u64Max) :
    (replayTimeline.trace r).filterMap mappingEvent = r.process.mappings.drop r.mappingIndex :=
  mappings_along.filterMap_itemAt hr hlt

/-! ## How often a process state is shown -/

variable {life : Life} {c : Nat}

/-- The steps that the items of time `c` take: samples and mappings are shown in pairs. -/
def stepsAt (r : ExportProcessReplay) (c : Nat) : Nat :=
  max (Cursor.countAt (fun s : ExportProcessSample => s.time) c r.process.samples r.sampleIndex)
    (Cursor.countAt (fun m : ProcessMapping => m.time) c r.process.mappings r.mappingIndex)

/-- The steps at time `c` still to come; the process state itself takes one of them. -/
def shownAt (r : ExportProcessReplay) (life : Life) (c : Nat) : Nat :=
  if r.flag life = false ∨ r.currentTime = c then max 1 (r.stepsAt c) else r.stepsAt c

theorem stepsAt_eq_zero (hr : r.Settled) (h : c < r.currentTime) : r.stepsAt c = 0 := by
  rw [stepsAt, Cursor.countAt_eq_zero hr.sorted.1 hr.sample h,
    @Cursor.countAt_eq_zero _ (fun m : ProcessMapping => m.time) _ _ _ _ hr.sorted.2 hr.mapping h,
    Nat.max_self]

theorem stepsAt_advance_of_ne (h : r.currentTime ≠ c) : r.advance.stepsAt c = r.stepsAt c := by
  unfold stepsAt
  rw [process_advance, sampleIndex_advance, mappingIndex_advance, Cursor.countAt_pass_of_ne h,
    Cursor.countAt_pass_of_ne h]

theorem stepsAt_advance (hr : r.Settled) :
    r.advance.stepsAt r.currentTime = r.stepsAt r.currentTime - 1 := by
  unfold stepsAt
  rw [process_advance, sampleIndex_advance, mappingIndex_advance,
    Cursor.countAt_pass hr.sorted.1 hr.sample,
    @Cursor.countAt_pass _ (fun m : ProcessMapping => m.time) _ _ _ hr.sorted.2 hr.mapping]
  omega

/-- Once the time is past, no step is left at it. -/
theorem shownAt_of_lt (hr : r.Settled) (hc : r.lifeTime life = some c) (h : c < r.currentTime) :
    r.shownAt life c = 0 := by
  have hset : r.flag life = true := by
    by_contra hunset
    have hpending := hr.pending life c hc (Bool.eq_false_iff.mpr hunset)
    omega
  rw [shownAt, if_neg, stepsAt_eq_zero hr h]
  rintro (hunset | heq)
  · exact absurd (hset.symm.trans hunset) (by decide)
  · omega

/-- When a step does not move the time, it is for an item of that time. -/
theorem stepsAt_advance_pos (hr : r.Settled) (hnot : r.currentTime ≠ u64Max)
    (h : r.nextTime = r.currentTime) : 0 < r.advance.stepsAt r.currentTime := by
  rw [stepsAt, lt_max_iff, process_advance, sampleIndex_advance, mappingIndex_advance]
  rcases r.nextTime_cases with hmax | ⟨s, hs, htime⟩ | ⟨m, hm, htime⟩ | ⟨life, hpending⟩
  · exact absurd (h.symm.trans hmax) hnot
  · exact .inl (Cursor.countAt_pos hs (htime.trans h))
  · exact .inr (@Cursor.countAt_pos _ (fun m : ProcessMapping => m.time) _ _ _ _ hm
      (htime.trans h))
  · obtain ⟨hflag, hlife⟩ := pendingTime_eq_some.mp hpending
    have hlt := hr.pending life _ hlife hflag
    omega

/-- Each step at the time of the process state is one of those. -/
theorem shownAt_step (hr : r.Settled) (hc : r.lifeTime life = some c)
    (hnot : r.currentTime ≠ u64Max) :
    r.shownAt life c = (if r.lifeEvent life then 1 else 0) + r.advance.shownAt life c := by
  have hc' : r.advance.lifeTime life = some c :=
    (lifeTime_advance life).trans hc
  have hle := hr.le_next
  by_cases h : r.currentTime = c
  · have hevent : r.lifeEvent life = true := eventAt_eq_true.mpr (h ▸ hc)
    have hset : r.flag life = true := by
      by_contra hunset
      have hpending := hr.pending life c hc (Bool.eq_false_iff.mpr hunset)
      omega
    have hset' := flag_of_flag hset
    have hsteps := stepsAt_advance hr
    rw [h] at hsteps
    rw [if_pos hevent, shownAt, if_pos (.inr h)]
    by_cases hstay : r.nextTime = c
    · have hpos := stepsAt_advance_pos hr hnot (hstay.trans h.symm)
      rw [h] at hpos
      rw [shownAt, currentTime_advance, if_pos (.inr hstay)]
      omega
    · have hlt : c < r.advance.currentTime := by
        rw [currentTime_advance]
        omega
      have hzero := stepsAt_eq_zero hr.advance hlt
      rw [shownAt_of_lt hr.advance hc' hlt]
      omega
  · have hevent : r.lifeEvent life = false := by
      refine Bool.eq_false_iff.mpr fun hevent => h ?_
      exact Option.some.inj ((eventAt_eq_true.mp hevent).symm.trans hc)
    rw [hevent, if_neg Bool.false_ne_true, Nat.zero_add]
    cases hflag : r.flag life with
    | true =>
      have hpast := hr.flagged life c hc hflag
      have hlt : c < r.advance.currentTime := by
        rw [currentTime_advance]
        omega
      rw [shownAt_of_lt hr hc (by omega), shownAt_of_lt hr.advance hc' hlt]
    | false =>
      have hreached : r.advance.flag life = false ∨ r.advance.currentTime = c := by
        rw [flag_advance, currentTime_advance]
        by_cases heq : c = r.nextTime
        · exact .inr heq.symm
        · refine .inl (Bool.eq_false_iff.mpr fun hset => ?_)
          rcases (nextFlag_eq_true hc).mp hset with hset | hset
          · exact absurd (hset.symm.trans hflag) (by decide)
          · exact heq hset
      rw [shownAt, if_pos (.inl hflag), shownAt, if_pos hreached, stepsAt_advance_of_ne h]

/-- **Process states.** A replay shows one as often as steps at its time are to come. -/
theorem countP_lifeEvent (hr : r.Settled) (hc : r.lifeTime life = some c) (hlt : c < u64Max) :
    (replayTimeline.trace r).countP (fun r => r.lifeEvent life) = r.shownAt life c := by
  have hv : replayTimeline.Valid r := hr
  revert hc
  refine Timeline.trace_induction (fun r hr hdone => ?_) (fun r hr hnot ih => ?_) hv
  · intro hc
    have hpast : c < r.currentTime := by
      rw [show r.currentTime = u64Max from hdone]
      exact hlt
    rw [Timeline.trace_done hdone, shownAt_of_lt hr hc hpast]
    rfl
  · intro hc
    have ih := ih ((lifeTime_advance life).trans hc)
    rw [Timeline.trace_step hr hnot, List.countP_cons, ih, shownAt_step hr hc hnot, Nat.add_comm]
    rfl

theorem countP_lifeEvent_none (hr : r.Settled) (hnone : r.lifeTime life = none) :
    (replayTimeline.trace r).countP (fun r => r.lifeEvent life) = 0 := by
  have hv : replayTimeline.Valid r := hr
  revert hnone
  refine Timeline.trace_induction (fun r hr hdone => ?_) (fun r hr hnot ih => ?_) hv
  · intro _
    rw [Timeline.trace_done hdone, List.countP_nil]
  · intro hnone
    have hevent : r.lifeEvent life = false := by
      rw [lifeEvent, hnone]
      rfl
    rw [Timeline.trace_step hr hnot, List.countP_cons, ih ((lifeTime_advance life).trans hnone),
      hevent]
    rfl

end ExportProcessReplay

end OneCollect.Exporting
