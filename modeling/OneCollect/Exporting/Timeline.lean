import OneCollect.Event.Filters
import OneCollect.Exporting.RecordFields

/-! Timelines (`scripting.rs`, `span.rs`): events that start, continue and end the spans of an id.
What is tracked and applied, what the closures of the events do when they fire, and what holds of
every event that is accepted. -/

namespace OneCollect.Exporting.Timeline
open Theory

/-! ## Spans -/

/-- A span with its name and the spans within. -/
structure ExportSpan where
  nameId : Nat
  startTime : Nat
  endTime : Nat
  children : List ExportSpan

namespace ExportSpan

def start (nameId startTime : Nat) : ExportSpan := ⟨nameId, startTime, startTime, []⟩

def qpcDuration (self : ExportSpan) : Exec Nat := subU64 self.endTime self.startTime

def markEnd (self : ExportSpan) (endTime : Nat) : ExportSpan := { self with endTime }

def markLastChildEnd (self : ExportSpan) (endTime : Nat) : ExportSpan :=
  match self.children.getLast? with
  | some last => { self with children := self.children.dropLast ++ [last.markEnd endTime] }
  | none => self

def addChild (self : ExportSpan) (span : ExportSpan) : ExportSpan :=
  { self with children := self.children ++ [span] }

end ExportSpan

/-! ## Configuration -/

/-- The answer of all filters, up to the first that rejects. -/
def runFilters : List (List UInt8 → Exec Bool) → List UInt8 → Exec Bool
  | [], _ => .ok true
  | filter :: filters, data => do
    let accepted ← filter data
    if accepted then runFilters filters data else .ok false

/-- The closures of filters on the events or on the records of a timeline. -/
def buildFilters (kind : String) (format : EventFormat) (name : String) :
    List FieldFilter → Exec (List (List UInt8 → Exec Bool))
  | [] => .ok []
  | filter :: filters =>
    match format.tryGetFieldFilterClosure filter.field filter.operation filter.value with
    | some closure => do
      let closures ← buildFilters kind format name filters
      .ok (closure :: closures)
    | none =>
      let field := filter.field
      let operation := filter.operation
      let value := filter.value
      fail (s!"Unable to apply {kind} filter \"{field} {operation} {value}\" on event \"{name}\". " ++
        "Check that the field exists and for type compatibility.")

abbrev FilterClosure := List UInt8 → Exec Bool

/-- A closure for all filters, if there are any. -/
def filterClosure (closures : List FilterClosure) : Option FilterClosure :=
  if closures.isEmpty then none else some (runFilters closures)

structure TimelineEventFlags where
  flags : UInt8 := 0
  recordFlags : RecordEventFlags := {}
  filterRecordFields : List FieldFilter := []

namespace TimelineEventFlags

def willStart (self : TimelineEventFlags) : Bool := self.flags &&& 1 ≠ 0

def shouldStart (self : TimelineEventFlags) : TimelineEventFlags :=
  { self with flags := self.flags ||| 1 }

def willEnd (self : TimelineEventFlags) : Bool := self.flags &&& 2 ≠ 0

def shouldEnd (self : TimelineEventFlags) : TimelineEventFlags :=
  { self with flags := self.flags ||| 2 }

end TimelineEventFlags

/-- An event of a timeline, with the fields that its id closures read. -/
structure TimelineEvent where
  event : Event
  idFields : List String
  idClosures : List (List UInt8 → List UInt8)
  recordClosure : Option RecordClosure
  filterClosure : Option FilterClosure
  flags : TimelineEventFlags

structure ExporterTimeline where
  name : String
  events : List TimelineEvent := []
  idSize : Nat := 0
  minDuration : Option Nat := none
  recordFormat : EventFormat := {}

/-- The closures of the id fields, and the sizes of the fields in all. -/
def idClosures (event : Event) :
    List String → Nat → Exec (List (List UInt8 → List UInt8) × Nat)
  | [], total => .ok ([], total)
  | name :: names, total =>
    let eventName := event.name
    match event.format.tryGetFieldDataClosure name with
    | none => fail s!"Unable to get ID from \"{name}\" for event \"{eventName}\"."
    | some closure =>
      match event.format.getField name with
      | none => panicked
      | some field =>
        if field.size = 0 ∨ field.location = .dynRelative ∨ field.location = .dynAbsolute then
          fail s!"Field \"{name}\" for event \"{eventName}\", must be static size for ID."
        else do
          let total ← addU64 total field.size
          let (closures, total) ← idClosures event names total
          .ok (closure :: closures, total)

namespace ExporterTimeline

/-- `track_event`; a call that fails may leave fields in the record format. -/
def trackEvent (self : ExporterTimeline) (event : Event) (idFields : List String)
    (flags : TimelineEventFlags) : Exec Unit × ExporterTimeline :=
  let name := event.name
  if flags.willEnd && flags.willStart then
    (fail s!"Event \"{name}\" cannot both start and end, check flags.", self)
  else if flags.willStart && !flags.filterRecordFields.isEmpty then
    (fail (s!"Event \"{name}\" cannot start and filter on record data " ++
      "(Record data won't exist), check flags."), self)
  else if idFields.isEmpty then
    (fail s!"Event \"{name}\" must have an ID field.", self)
  else
    match idClosures event idFields 0 with
    | .error fault => (.error fault, self)
    | .ok (closures, totalIdSize) =>
      if !self.events.isEmpty && self.idSize ≠ totalIdSize then
        let idSize := self.idSize
        (fail (s!"Previous ID was {idSize} bytes, " ++
          s!"event \"{name}\" ID is {totalIdSize} bytes."), self)
      else
        let built := flags.recordFlags.buildRecordDataClosure event self.recordFormat
        let self := { self with idSize := totalIdSize, recordFormat := built.2 }
        match built.1 with
        | .error fault => (.error fault, self)
        | .ok recordClosure =>
          match buildFilters "event" event.format name flags.recordFlags.filterFields with
          | .error fault => (.error fault, self)
          | .ok filters =>
            let tracked := ⟨event, idFields, closures, recordClosure, filterClosure filters, flags⟩
            (.ok (), { self with events := self.events ++ [tracked] })

/-- Calls of `track_event` one after another. -/
def trackAll (self : ExporterTimeline) (requests : List (Event × List String × TimelineEventFlags)) :
    ExporterTimeline :=
  requests.foldl (fun self request => (self.trackEvent request.1 request.2.1 request.2.2).2) self

end ExporterTimeline

/-- An event that was added to the exporter. -/
structure AppliedEvent extends TimelineEvent where
  nameId : Nat
  recordFilter : Option FilterClosure

structure AppliedTimeline where
  nameId : Nat
  idCapacity : Nat
  shouldRecord : Bool
  qpcMin : Nat
  events : List AppliedEvent

namespace ExporterTimeline

def applyEvent (self : ExporterTimeline) (intern : String → Nat) (event : TimelineEvent) :
    Exec AppliedEvent := do
  let filters ← buildFilters "record" self.recordFormat event.event.name
    event.flags.filterRecordFields
  .ok { event with nameId := intern event.event.name, recordFilter := filterClosure filters }

def applyTimeline (self : ExporterTimeline) (intern : String → Nat) (durationToQpc : Nat → Nat)
    (idCapacity : Nat) : Exec AppliedTimeline := do
  let events ← self.events.mapM (self.applyEvent intern)
  .ok { nameId := intern self.name
        idCapacity
        shouldRecord := self.recordFormat.nextOffset ≠ 0
        qpcMin := (self.minDuration.map durationToQpc).getD 0
        events }

def apply (self : ExporterTimeline) (intern : String → Nat) (durationToQpc : Nat → Nat) :
    Exec AppliedTimeline :=
  if self.events.length < 2 then fail "Timelines must have at least 2 events."
  else if !self.events.any (·.flags.willEnd) then
    fail "Timelines must have at least 1 completion event."
  else if !self.events.any (·.flags.willStart) then
    fail "Timelines must have at least 1 start event."
  else if self.idSize ≤ 8 then self.applyTimeline intern durationToQpc 8
  else if self.idSize ≤ 16 then self.applyTimeline intern durationToQpc 16
  else if self.idSize ≤ 24 then self.applyTimeline intern durationToQpc 24
  else if self.idSize ≤ 32 then self.applyTimeline intern durationToQpc 32
  else fail "ID must be 32 bytes or less."

end ExporterTimeline

/-! ## Running -/

/-- An event of the timeline that fires. -/
structure Trace where
  event : AppliedEvent
  pid : Nat
  tid : Nat
  time : Nat
  eventData : List UInt8

structure TimelineValues where
  record : List UInt8
  span : ExportSpan
  pid : Nat
  tid : Nat

/-- A sample with a span. -/
structure SpanSample where
  pid : Nat
  tid : Nat
  recordData : Option (List UInt8)
  span : ExportSpan

/-- The data of the fields one behind the other; data that does not fit into the slice panics. -/
def copyId (eventData : List UInt8) :
    List (List UInt8 → List UInt8) → List UInt8 → Exec (List UInt8)
  | [], slice => .ok slice
  | closure :: closures, slice =>
    let data := closure eventData
    if data.length > slice.length then panicked
    else do
      let rest ← copyId eventData closures (slice.drop data.length)
      .ok (data ++ rest)

def runFilter : Option FilterClosure → List UInt8 → Exec Bool
  | none, _ => .ok true
  | some filter, data => filter data

namespace Trace

def idClosure (self : Trace) (idCapacity : Nat) : Exec (List UInt8) :=
  copyId self.eventData self.event.idClosures (List.replicate idCapacity 0)

def recordClosure (self : Trace) (record : List UInt8) : List UInt8 :=
  match self.event.recordClosure with
  | some closure => closure self.eventData record
  | none => record

/-- The values of a span that the event starts. -/
def startValues (self : Trace) (timelineNameId : Nat) : TimelineValues :=
  ⟨[], .start timelineNameId self.time, self.pid, self.tid⟩

/-- The values with the event recorded, and with its child. -/
def addTo (self : Trace) (values : TimelineValues) : TimelineValues :=
  { values with
    record := self.recordClosure values.record
    span := (values.span.markLastChildEnd self.time).addChild (.start self.event.nameId self.time) }

end Trace

abbrev ValuesMap := List UInt8 → Option TimelineValues

namespace AppliedTimeline

/-- The closure of an end event: the values it removes, and the sample it saves. -/
def traceEnd (self : AppliedTimeline) (map : ValuesMap) (trace : Trace) :
    Exec (ValuesMap × Option SpanSample) := do
  let id ← trace.idClosure self.idCapacity
  match map id with
  | none => .ok (map, none)
  | some values =>
    let map := Function.update map id none
    let span := (values.span.markLastChildEnd trace.time).markEnd trace.time
    let duration ← span.qpcDuration
    if duration ≥ self.qpcMin then
      let accepted ← runFilter trace.event.filterClosure trace.eventData
      if !accepted then .ok (map, none)
      else if self.shouldRecord then
        let accepted ← runFilter trace.event.recordFilter values.record
        if !accepted then .ok (map, none)
        else .ok (map, some ⟨values.pid, values.tid, some (trace.recordClosure values.record), span⟩)
      else .ok (map, some ⟨values.pid, values.tid, none, span⟩)
    else .ok (map, none)

/-- The closure of the other events. -/
def traceOther (self : AppliedTimeline) (map : ValuesMap) (trace : Trace) : Exec ValuesMap := do
  let accepted ← runFilter trace.event.filterClosure trace.eventData
  if !accepted then .ok map
  else
    let id ← trace.idClosure self.idCapacity
    let map :=
      if trace.event.flags.willStart then
        Function.update map id (some ((map id).getD (trace.startValues self.nameId)))
      else map
    match map id with
    | none => .ok map
    | some values =>
      let accepted ← runFilter trace.event.recordFilter values.record
      if !accepted then .ok map
      else .ok (Function.update map id (some (trace.addTo values)))

def trace (self : AppliedTimeline) (map : ValuesMap) (trace : Trace) :
    Exec (ValuesMap × Option SpanSample) :=
  if trace.event.flags.willEnd then self.traceEnd map trace
  else (self.traceOther map trace).map (·, none)

/-- What the events save, each sample with the event that ended its span. -/
def traceAll (self : AppliedTimeline) : ValuesMap → List Trace → Exec (List (Trace × SpanSample))
  | _, [] => .ok []
  | map, trace :: traces => do
    let (map, saved) ← self.trace map trace
    let rest ← self.traceAll map traces
    .ok ((saved.map (trace, ·)).toList ++ rest)

end AppliedTimeline

/-! ## What is accepted -/

/-- A filter that gives an answer for all data. -/
def Answers (filter : Option FilterClosure) : Prop :=
  ∀ data, ∃ accepted, runFilter filter data = .ok accepted

section Filters

variable {kind name : String} {format : EventFormat} {filters : List FieldFilter}
  {closures : List FilterClosure}

theorem runFilters_ok (h : ∀ closure ∈ closures, ∀ data, ∃ accepted, closure data = .ok accepted)
    (data : List UInt8) : ∃ accepted, runFilters closures data = .ok accepted := by
  induction closures with
  | nil => exact ⟨true, rfl⟩
  | cons closure closures ih =>
    obtain ⟨hclosure, hrest⟩ := List.forall_mem_cons.mp h
    obtain ⟨accepted, hok⟩ := hclosure data
    rw [runFilters, hok]
    cases accepted with
    | false => exact ⟨false, rfl⟩
    | true => exact ih hrest

/-- Filters that were built answer, unless one searches for an empty text. -/
theorem buildFilters_answers (h : buildFilters kind format name filters = .ok closures)
    (hsearch : ∀ filter ∈ filters, ¬ EventFormat.EmptySearch filter.operation filter.value) :
    Answers (filterClosure closures) := by
  have hok : ∀ closure ∈ closures, ∀ data, ∃ accepted, closure data = .ok accepted := by
    induction filters generalizing closures with
    | nil =>
      cases h
      exact fun _ hmem => (List.not_mem_nil hmem).elim
    | cons filter filters ih =>
      obtain ⟨hfirst, hrest⟩ := List.forall_mem_cons.mp hsearch
      unfold buildFilters at h
      split at h
      · rename_i closure hclosure
        obtain ⟨rest, hbuilt, h⟩ := bind_eq_ok.mp h
        cases h
        refine List.forall_mem_cons.mpr ⟨?_, ih hbuilt hrest⟩
        exact EventFormat.filter_ok hclosure hfirst
      · exact absurd h (by simp)
  intro data
  unfold filterClosure
  split
  · exact ⟨true, rfl⟩
  · exact runFilters_ok hok data

/-- There are no filters on a format without fields. -/
theorem buildFilters_of_no_fields (h : buildFilters kind format name filters = .ok closures)
    (hfields : format.fields = []) : filterClosure closures = none := by
  cases filters with
  | nil =>
    cases h
    rfl
  | cons filter filters =>
    unfold buildFilters at h
    have hnone : format.tryGetFieldDataClosure filter.field = none := by
      rw [EventFormat.tryGetFieldDataClosure, hfields]
      rfl
    rw [EventFormat.tryGetFieldFilterClosure, hnone] at h
    exact absurd h (by simp)

end Filters

/-- The declared size of a field. -/
def sizeOfField (format : EventFormat) (name : String) : Nat :=
  ((format.getField name).map EventField.size).getD 0

theorem idClosures_spec {event : Event} {names : List String} {total total' : Nat}
    {closures : List (List UInt8 → List UInt8)}
    (h : idClosures event names total = .ok (closures, total')) :
    List.Forall₂ (fun name closure => event.format.tryGetFieldDataClosure name = some closure)
        names closures ∧
      total' = total + (names.map (sizeOfField event.format)).sum ∧
      ∀ name ∈ names, ∃ field, event.format.getField name = some field := by
  induction names generalizing total closures with
  | nil =>
    cases h
    exact ⟨.nil, rfl, fun _ hmem => (List.not_mem_nil hmem).elim⟩
  | cons name names ih =>
    unfold idClosures at h
    dsimp only at h
    split at h
    · exact absurd h (by simp)
    · rename_i closure hclosure
      split at h
      · exact absurd h (by simp)
      · rename_i field hfield
        split at h
        · exact absurd h (by simp)
        · obtain ⟨added, hadd, h⟩ := bind_eq_ok.mp h
          obtain ⟨⟨rest, total''⟩, hrest, h⟩ := bind_eq_ok.mp h
          cases h
          obtain ⟨-, hadded⟩ := addU64_eq_ok.mp hadd
          obtain ⟨hall, htotal, hfields⟩ := ih hrest
          have hsize : sizeOfField event.format name = field.size := by
            rw [sizeOfField, hfield]
            rfl
          refine ⟨.cons hclosure hall, ?_, List.forall_mem_cons.mpr ⟨⟨field, hfield⟩, hfields⟩⟩
          rw [htotal, hadded, List.map_cons, List.sum_cons, hsize]
          omega

/-- What holds of an event that was tracked. -/
structure TimelineEvent.Sound (idSize : Nat) (tracked : TimelineEvent) : Prop where
  start : tracked.flags.willStart → tracked.flags.filterRecordFields = []
  ids : List.Forall₂
    (fun name closure => tracked.event.format.tryGetFieldDataClosure name = some closure)
      tracked.idFields tracked.idClosures
  size : (tracked.idFields.map (sizeOfField tracked.event.format)).sum = idSize
  fields : ∀ name ∈ tracked.idFields, ∃ field, tracked.event.format.getField name = some field
  filter : ∃ closures, buildFilters "event" tracked.event.format tracked.event.name
      tracked.flags.recordFlags.filterFields = .ok closures ∧
    tracked.filterClosure = Timeline.filterClosure closures

structure ExporterTimeline.Sound (timeline : ExporterTimeline) : Prop where
  packed : Packed timeline.recordFormat
  events : ∀ tracked ∈ timeline.events, tracked.Sound timeline.idSize

namespace ExporterTimeline

variable {self : ExporterTimeline}

theorem Sound.trackEvent (h : self.Sound) (event : Event) (idFields : List String)
    (flags : TimelineEventFlags) : (self.trackEvent event idFields flags).2.Sound := by
  unfold ExporterTimeline.trackEvent
  dsimp only
  split
  · exact h
  split
  · exact h
  rename_i hstart
  split
  · exact h
  split
  · exact h
  rename_i closures totalIdSize hids
  split
  · exact h
  rename_i hsame
  obtain ⟨hall, htotal, hfields⟩ := idClosures_spec hids
  obtain ⟨hpacked, -, -⟩ :=
    @addRecordFields_spec event self.recordFormat flags.recordFlags.recordFields h.packed
  have hold : ∀ tracked ∈ self.events, tracked.Sound totalIdSize := by
    intro tracked hmem
    have hsize : self.idSize = totalIdSize := by
      by_contra hne
      have hevents : self.events.isEmpty = false := by
        rw [List.isEmpty_eq_false_iff]
        exact List.ne_nil_of_mem hmem
      simp [hne, hevents] at hsame
    exact hsize ▸ h.events tracked hmem
  split
  · exact ⟨hpacked, hold⟩
  rename_i recordClosure hrecord
  split
  · exact ⟨hpacked, hold⟩
  rename_i filters hfilters
  refine ⟨hpacked, fun tracked hmem => ?_⟩
  rcases List.mem_append.mp hmem with hmem | hnew
  · exact hold tracked hmem
  · rw [List.mem_singleton.mp hnew]
    refine ⟨fun hwill => ?_, hall, by simpa using htotal.symm, hfields, filters, hfilters, rfl⟩
    change flags.willStart = true at hwill
    rw [hwill] at hstart
    simpa using hstart

theorem Sound.trackAll (h : self.Sound)
    (requests : List (Event × List String × TimelineEventFlags)) :
    (self.trackAll requests).Sound := by
  induction requests generalizing self with
  | nil => exact h
  | cons request requests ih => exact ih (h.trackEvent request.1 request.2.1 request.2.2)

theorem sound_new (name : String) (minDuration : Option Nat) :
    Sound { name, minDuration } :=
  ⟨packed_empty, fun _ hmem => (List.not_mem_nil hmem).elim⟩

end ExporterTimeline

/-! ## Records of a timeline -/

/-- The event as one that records. -/
def TimelineEvent.recorded (self : TimelineEvent) : RecordedEvent :=
  ⟨self.event, self.flags.recordFlags, self.recordClosure⟩

/-- The events of a timeline share the format of a recorder that built their closures. -/
theorem trackAll_recorded {timeline : ExporterTimeline}
    {recording : List (Event × RecordEventFlags)}
    (hformat : timeline.recordFormat = (Recorder.registerAll recording).recordFormat)
    (hevents : ∀ tracked ∈ timeline.events,
      tracked.recorded ∈ (Recorder.registerAll recording).events)
    (requests : List (Event × List String × TimelineEventFlags)) :
    ∃ recording', (timeline.trackAll requests).recordFormat =
        (Recorder.registerAll recording').recordFormat ∧
      ∀ tracked ∈ (timeline.trackAll requests).events,
        tracked.recorded ∈ (Recorder.registerAll recording').events := by
  induction requests generalizing timeline recording with
  | nil => exact ⟨recording, hformat, hevents⟩
  | cons request requests ih =>
    have hstep : ∃ recording', (timeline.trackEvent request.1 request.2.1 request.2.2).2.recordFormat =
          (Recorder.registerAll recording').recordFormat ∧
        ∀ tracked ∈ (timeline.trackEvent request.1 request.2.1 request.2.2).2.events,
          tracked.recorded ∈ (Recorder.registerAll recording').events := by
      unfold ExporterTimeline.trackEvent
      dsimp only
      split
      · exact ⟨recording, hformat, hevents⟩
      split
      · exact ⟨recording, hformat, hevents⟩
      split
      · exact ⟨recording, hformat, hevents⟩
      split
      · exact ⟨recording, hformat, hevents⟩
      split
      · exact ⟨recording, hformat, hevents⟩
      -- the record closure is built from here on
      refine ⟨recording ++ [(request.1, request.2.2.recordFlags)], ?_⟩
      rw [Recorder.registerAll, List.foldl_append, ← Recorder.registerAll, List.foldl_cons,
        List.foldl_nil, Recorder.register, ← hformat]
      dsimp only
      split
      · rename_i fault hbuilt
        rw [hbuilt]
        exact ⟨rfl, hevents⟩
      · rename_i recordClosure hbuilt
        rw [hbuilt]
        split
        · exact ⟨rfl, fun tracked hmem => List.mem_append_left _ (hevents tracked hmem)⟩
        · refine ⟨rfl, fun tracked hmem => ?_⟩
          rcases List.mem_append.mp hmem with hmem | hnew
          · exact List.mem_append_left _ (hevents tracked hmem)
          · rw [List.mem_singleton.mp hnew]
            exact List.mem_append_right _ (List.mem_singleton_self _)
    obtain ⟨recording', hformat', hevents'⟩ := hstep
    exact ih hformat' hevents'

end OneCollect.Exporting.Timeline
