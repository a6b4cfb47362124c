import OneCollect.Exporting.Timeline
import OneCollect.Theory.Keyed

/-! The spans of a timeline, against a reference that sees the events of one id alone.

Without ids of a length of their own and without searches for empty texts, the spans of an id are
those of the reference on the events with that id (`spans_of_id`). -/

namespace OneCollect.Exporting.Timeline
open Theory

/-! ## The reference -/

/-- Whether filters accept. -/
def accepts (filter : Option FilterClosure) (data : List UInt8) : Bool :=
  match runFilter filter data with
  | .ok accepted => accepted
  | .error _ => false

theorem runFilter_eq {filter : Option FilterClosure} (h : Answers filter) (data : List UInt8) :
    runFilter filter data = .ok (accepts filter data) := by
  obtain ⟨accepted, hok⟩ := h data
  rw [accepts, hok]

namespace Trace

/-- The value of an id field. -/
def idValue (self : Trace) (name : String) : List UInt8 :=
  ((self.event.event.format.tryGetFieldDataClosure name).map (· self.eventData)).getD []

def id (self : Trace) : List UInt8 := self.event.idFields.flatMap self.idValue

def accepted (self : Trace) : Bool := accepts self.event.filterClosure self.eventData

def recordAccepted (self : Trace) (record : List UInt8) : Bool :=
  accepts self.event.recordFilter record

end Trace

/-- The accepted events from the first accepted start on. -/
def opened (traces : List Trace) : List Trace :=
  (traces.filter Trace.accepted).dropWhile fun trace => !trace.event.flags.willStart

/-- One more event: recorded, unless it rejects the record so far. -/
def follow (followed : List UInt8 × List Trace) (trace : Trace) : List UInt8 × List Trace :=
  if trace.recordAccepted followed.1 then (trace.recordClosure followed.1, followed.2 ++ [trace])
  else followed

/-- The record of a span, and the events within. -/
def followed (traces : List Trace) : List UInt8 × List Trace :=
  (opened traces).foldl follow ([], [])

/-- Children one behind the other, the last up to the end. -/
def childrenUntil (traces : List Trace) (endTime : Nat) : List ExportSpan :=
  traces.zipWith (fun trace stop => ⟨trace.event.nameId, trace.time, stop, []⟩)
    ((traces.map Trace.time).tail ++ [endTime])

namespace AppliedTimeline

/-- The sample of an end event after the other events since the end before. -/
def sampleOf (self : AppliedTimeline) (before : List Trace) (stop : Trace) : Option SpanSample :=
  match opened before with
  | [] => none
  | first :: _ =>
    let (record, within) := followed before
    if self.qpcMin ≤ stop.time - first.time ∧ stop.accepted ∧ stop.recordAccepted record then
      some
        { pid := first.pid
          tid := first.tid
          recordData := if self.shouldRecord then some (stop.recordClosure record) else none
          span := ⟨self.nameId, first.time, stop.time, childrenUntil within stop.time⟩ }
    else none

/-- The samples of the events of one id, behind the events since its last end. -/
def reference (self : AppliedTimeline) : List Trace → List Trace → List (Trace × SpanSample)
  | _, [] => []
  | before, trace :: traces =>
    if trace.event.flags.willEnd then
      ((self.sampleOf before trace).map (trace, ·)).toList ++ self.reference [] traces
    else self.reference (before ++ [trace]) traces

end AppliedTimeline

/-! ## Events that fire -/

/-- The declared sizes of the id fields are the lengths of their data. -/
def Trace.Sized (trace : Trace) : Prop :=
  ∀ name ∈ trace.event.idFields, ∀ field, trace.event.event.format.getField name = some field →
    (trace.idValue name).length = field.size

/-- No filter of the event searches for an empty text. -/
def Trace.NoEmptySearch (trace : Trace) : Prop :=
  ∀ filter ∈ trace.event.flags.recordFlags.filterFields ++ trace.event.flags.filterRecordFields,
    ¬ EventFormat.EmptySearch filter.operation filter.value

structure AppliedEvent.Sound (idSize : Nat) (shouldRecord : Bool) (applied : AppliedEvent) :
    Prop where
  tracked : applied.toTimelineEvent.Sound idSize
  recordFilter : ∃ format closures, buildFilters "record" format applied.event.name
      applied.flags.filterRecordFields = .ok closures ∧
    applied.recordFilter = filterClosure closures
  record : shouldRecord = false → applied.recordFilter = none

/-- A packed format with a field does not end at 0. -/
theorem fields_nil_of_nextOffset {format : EventFormat} (h : Packed format)
    (hzero : format.nextOffset = 0) : format.fields = [] := by
  refine List.eq_nil_iff_forall_not_mem.mpr fun field hfield => ?_
  have hsize := h.sized field hfield
  have hstop := h.stop_le hfield
  omega

theorem ExporterTimeline.Sound.applyTimeline {timeline : ExporterTimeline} (h : timeline.Sound)
    {intern : String → Nat} {durationToQpc : Nat → Nat} {idCapacity : Nat}
    {applied : AppliedTimeline}
    (happly : timeline.applyTimeline intern durationToQpc idCapacity = .ok applied) :
    applied.idCapacity = idCapacity ∧
      ∀ event ∈ applied.events, event.Sound timeline.idSize applied.shouldRecord := by
  unfold ExporterTimeline.applyTimeline at happly
  obtain ⟨events, hevents, happly⟩ := bind_eq_ok.mp happly
  cases happly
  refine ⟨rfl, fun event hmem => ?_⟩
  obtain ⟨tracked, htracked, hok⟩ := forall₂_mem_right (mapM_eq_ok_iff.mp hevents) hmem
  unfold ExporterTimeline.applyEvent at hok
  obtain ⟨filters, hfilters, hok⟩ := bind_eq_ok.mp hok
  cases hok
  refine ⟨h.events tracked htracked, ⟨_, filters, hfilters, rfl⟩, fun hrecord => ?_⟩
  refine buildFilters_of_no_fields hfilters (fields_nil_of_nextOffset h.packed ?_)
  simpa using hrecord

theorem ExporterTimeline.Sound.apply {timeline : ExporterTimeline} (h : timeline.Sound)
    {intern : String → Nat} {durationToQpc : Nat → Nat} {applied : AppliedTimeline}
    (happly : timeline.apply intern durationToQpc = .ok applied) :
    timeline.idSize ≤ applied.idCapacity ∧
      ∀ event ∈ applied.events, event.Sound timeline.idSize applied.shouldRecord := by
  have hsized : ∀ idCapacity, timeline.idSize ≤ idCapacity →
      timeline.applyTimeline intern durationToQpc idCapacity = .ok applied →
        timeline.idSize ≤ applied.idCapacity ∧
          ∀ event ∈ applied.events, event.Sound timeline.idSize applied.shouldRecord := by
    intro idCapacity hle hok
    obtain ⟨hcapacity, hevents⟩ := h.applyTimeline hok
    exact ⟨hcapacity ▸ hle, hevents⟩
  unfold ExporterTimeline.apply at happly
  split at happly
  · exact absurd happly (by simp)
  split at happly
  · exact absurd happly (by simp)
  split at happly
  · exact absurd happly (by simp)
  split at happly
  · exact hsized 8 ‹_› happly
  split at happly
  · exact hsized 16 ‹_› happly
  split at happly
  · exact hsized 24 ‹_› happly
  split at happly
  · exact hsized 32 ‹_› happly
  · exact absurd happly (by simp)

/-! ## Ids -/

theorem copyId_eq {eventData : List UInt8} {closures : List (List UInt8 → List UInt8)}
    {slice : List UInt8}
    (h : (closures.flatMap (· eventData)).length ≤ slice.length) :
    copyId eventData closures slice = .ok (closures.flatMap (· eventData) ++
      slice.drop (closures.flatMap (· eventData)).length) := by
  induction closures generalizing slice with
  | nil => rfl
  | cons closure closures ih =>
    rw [List.flatMap_cons, List.length_append] at h
    rw [copyId, if_neg (by omega), ih (by rw [List.length_drop]; omega), ok_bind,
      List.flatMap_cons, List.length_append, List.drop_drop, List.append_assoc]

section Ids

variable {idSize : Nat} {shouldRecord : Bool} {trace : Trace}

/-- What the id closures copy is the id. -/
theorem idClosures_eq (hsound : trace.event.Sound idSize shouldRecord) :
    trace.event.idClosures.flatMap (· trace.eventData) = trace.id := by
  have hall : ∀ {names closures}, List.Forall₂ (fun name closure =>
      trace.event.event.format.tryGetFieldDataClosure name = some closure) names closures →
      closures.flatMap (· trace.eventData) = names.flatMap trace.idValue := by
    intro names closures h
    induction h with
    | nil => rfl
    | cons hclosure _ ih =>
      rw [List.flatMap_cons, List.flatMap_cons, ih, Trace.idValue, hclosure]
      rfl
  exact hall hsound.tracked.ids

theorem length_id (hsound : trace.event.Sound idSize shouldRecord) (hsized : trace.Sized) :
    trace.id.length = idSize := by
  rw [← hsound.tracked.size, Trace.id, List.length_flatMap]
  congr 1
  refine List.map_congr_left fun name hname => ?_
  obtain ⟨field, hfield⟩ := hsound.tracked.fields name hname
  rw [hsized name hname field hfield, sizeOfField, hfield]
  rfl

/-- The id filled up with zeros. -/
def Trace.key (idCapacity : Nat) (trace : Trace) : List UInt8 :=
  trace.id ++ List.replicate (idCapacity - trace.id.length) 0

theorem idClosure_eq (hsound : trace.event.Sound idSize shouldRecord) (hsized : trace.Sized)
    {idCapacity : Nat} (hle : idSize ≤ idCapacity) :
    trace.idClosure idCapacity = .ok (trace.key idCapacity) := by
  have hlength := length_id hsound hsized
  have hcopied := idClosures_eq hsound
  rw [Trace.idClosure, copyId_eq, hcopied, List.drop_replicate]
  · rfl
  · rw [hcopied, List.length_replicate]
    omega

/-- Ids of one size are told apart by their keys. -/
theorem key_eq_iff {trace' : Trace} (hsound : trace.event.Sound idSize shouldRecord)
    (hsound' : trace'.event.Sound idSize shouldRecord) (hsized : trace.Sized)
    (hsized' : trace'.Sized) {idCapacity : Nat} :
    trace.key idCapacity = trace'.key idCapacity ↔ trace.id = trace'.id := by
  rw [Trace.key, Trace.key, length_id hsound hsized, length_id hsound' hsized']
  exact List.append_left_inj _

/-- The filters answer. -/
theorem filter_answers (hsound : trace.event.Sound idSize shouldRecord)
    (hsearch : trace.NoEmptySearch) : Answers trace.event.filterClosure := by
  obtain ⟨closures, hclosures, heq⟩ := hsound.tracked.filter
  rw [heq]
  exact buildFilters_answers hclosures fun filter hmem =>
    hsearch filter (List.mem_append_left _ hmem)

theorem recordFilter_answers (hsound : trace.event.Sound idSize shouldRecord)
    (hsearch : trace.NoEmptySearch) : Answers trace.event.recordFilter := by
  obtain ⟨format, closures, hclosures, heq⟩ := hsound.recordFilter
  rw [heq]
  exact buildFilters_answers hclosures fun filter hmem =>
    hsearch filter (List.mem_append_right _ hmem)

/-- Without a record there is nothing to filter on. -/
theorem recordAccepted_of_no_record (hsound : trace.event.Sound idSize shouldRecord)
    (hrecord : shouldRecord = false) (record : List UInt8) : trace.recordAccepted record := by
  rw [Trace.recordAccepted, hsound.record hrecord]
  rfl

end Ids

/-! ## The machine of one id -/

namespace AppliedTimeline

variable (self : AppliedTimeline)

/-- The sample of values that an end event removes. -/
def endOf (trace : Trace) (values : TimelineValues) : Option SpanSample :=
  let span := (values.span.markLastChildEnd trace.time).markEnd trace.time
  if self.qpcMin ≤ trace.time - values.span.startTime ∧ trace.accepted ∧
      (self.shouldRecord → trace.recordAccepted values.record) then
    some
      { pid := values.pid
        tid := values.tid
        recordData := if self.shouldRecord then some (trace.recordClosure values.record) else none
        span }
  else none

/-- The values after an event that does not end. -/
def goOn (values : Option TimelineValues) (trace : Trace) : Option TimelineValues :=
  if !trace.accepted then values
  else
    let values :=
      if trace.event.flags.willStart then some (values.getD (trace.startValues self.nameId))
      else values
    values.map fun values =>
      if trace.recordAccepted values.record then trace.addTo values else values

def advance (values : Option TimelineValues) (trace : Trace) :
    Option TimelineValues × Option SpanSample :=
  if trace.event.flags.willEnd then (none, values.bind (self.endOf trace))
  else (self.goOn values trace, none)

/-- What an event needs to run, and values that started before it. -/
structure Runs (timeline : AppliedTimeline) (trace : Trace) (values : Option TimelineValues) :
    Prop where
  id : trace.idClosure timeline.idCapacity = .ok (trace.key timeline.idCapacity)
  filter : Answers trace.event.filterClosure
  recordFilter : Answers trace.event.recordFilter
  time : ∀ v ∈ values, v.span.startTime ≤ trace.time

theorem startTime_markLastChildEnd (span : ExportSpan) (endTime : Nat) :
    (span.markLastChildEnd endTime).startTime = span.startTime := by
  unfold ExportSpan.markLastChildEnd
  split
  · rfl
  · rfl

variable {self}

theorem traceEnd_eq {map : ValuesMap} {trace : Trace}
    (h : self.Runs trace (map (trace.key self.idCapacity))) :
    self.traceEnd map trace = .ok (Function.update map (trace.key self.idCapacity) none,
      (map (trace.key self.idCapacity)).bind (self.endOf trace)) := by
  rw [traceEnd, h.id, ok_bind]
  cases hvalues : map (trace.key self.idCapacity) with
  | none =>
    rw [← hvalues, Function.update_eq_self, hvalues]
    rfl
  | some values =>
    have hle := h.time values hvalues
    have hduration : ((values.span.markLastChildEnd trace.time).markEnd trace.time).qpcDuration =
        .ok (trace.time - values.span.startTime) := by
      have hstart := startTime_markLastChildEnd values.span trace.time
      rw [ExportSpan.qpcDuration, ExportSpan.markEnd]
      dsimp only
      rw [hstart, subU64, if_pos hle]
    have hfilter := runFilter_eq h.filter trace.eventData
    have hrecord := runFilter_eq h.recordFilter values.record
    simp only [hduration, hfilter, hrecord, ok_bind, Option.bind_some, endOf, Trace.accepted,
      Trace.recordAccepted]
    by_cases hmin : self.qpcMin ≤ trace.time - values.span.startTime
    · by_cases haccepted : accepts trace.event.filterClosure trace.eventData
      · by_cases hshould : self.shouldRecord
        · by_cases hrecorded : accepts trace.event.recordFilter values.record
          · simp [hmin, haccepted, hshould, hrecorded]
          · simp [hmin, haccepted, hshould, hrecorded]
        · simp [hmin, haccepted, hshould]
      · simp [hmin, haccepted]
    · simp [hmin]

theorem traceOther_eq {map : ValuesMap} {trace : Trace}
    (h : self.Runs trace (map (trace.key self.idCapacity))) :
    self.traceOther map trace = .ok (Function.update map (trace.key self.idCapacity)
      (self.goOn (map (trace.key self.idCapacity)) trace)) := by
  have hfilter := runFilter_eq h.filter trace.eventData
  rw [traceOther, hfilter, ok_bind, goOn, Trace.accepted]
  cases accepts trace.event.filterClosure trace.eventData with
  | false => simp
  | true =>
    -- the values that the event finds or starts
    have hfound : ∀ (map' : ValuesMap) (values : TimelineValues),
        map' (trace.key self.idCapacity) = some values →
        (do
          let accepted ← runFilter trace.event.recordFilter values.record
          if !accepted then .ok map'
          else .ok (Function.update map' (trace.key self.idCapacity)
            (some (trace.addTo values))) : Exec ValuesMap) =
          .ok (Function.update map' (trace.key self.idCapacity)
            (some (if trace.recordAccepted values.record then trace.addTo values
              else values))) := by
      intro map' values hvalues
      have hsame := Function.update_eq_self (trace.key self.idCapacity) map'
      rw [hvalues] at hsame
      have hrecord := runFilter_eq h.recordFilter values.record
      simp only [hrecord, ok_bind, Trace.recordAccepted]
      by_cases hrecorded : accepts trace.event.recordFilter values.record
      · simp [hrecorded]
      · simp [hrecorded, hsame]
    simp only [Bool.not_true, Bool.false_eq_true, if_false, h.id, ok_bind]
    by_cases hstart : trace.event.flags.willStart
    · simp only [hstart, if_true, Function.update_self]
      have hone := hfound (Function.update map (trace.key self.idCapacity)
        (some ((map (trace.key self.idCapacity)).getD (trace.startValues self.nameId)))) _
        (Function.update_self ..)
      simp only [Function.update_idem] at hone ⊢
      exact hone
    · simp only [hstart, Bool.false_eq_true, if_false]
      cases hvalues : map (trace.key self.idCapacity) with
      | none =>
        have hsame := Function.update_eq_self (trace.key self.idCapacity) map
        rw [hvalues] at hsame
        rw [Option.map_none, hsame]
      | some values => exact hfound map values hvalues

/-- One event steps the machine of its id. -/
theorem trace_eq {map : ValuesMap} {trace : Trace}
    (h : self.Runs trace (map (trace.key self.idCapacity))) :
    self.trace map trace = .ok
      (Function.update map (trace.key self.idCapacity)
        (self.advance (map (trace.key self.idCapacity)) trace).1,
       (self.advance (map (trace.key self.idCapacity)) trace).2) := by
  unfold AppliedTimeline.trace advance
  by_cases hend : trace.event.flags.willEnd
  · simp only [hend, if_true]
    exact traceEnd_eq h
  · simp only [hend, Bool.false_eq_true, if_false, traceOther_eq h]
    rfl

/-- Values start with the first of their events. -/
theorem startTime_advance {values : Option TimelineValues} {trace : Trace} {v : TimelineValues}
    (hv : (self.advance values trace).1 = some v) :
    v.span.startTime = trace.time ∨ ∃ v' ∈ values, v.span.startTime = v'.span.startTime := by
  have hadd : ∀ v' : TimelineValues,
      (if trace.recordAccepted v'.record then trace.addTo v' else v').span.startTime =
        v'.span.startTime := by
    intro v'
    split
    · exact startTime_markLastChildEnd v'.span trace.time
    · rfl
  unfold advance goOn at hv
  split at hv
  · exact (nomatch hv)
  · dsimp only at hv
    split at hv
    · exact .inr ⟨v, hv, rfl⟩
    · obtain ⟨v', hv', rfl⟩ := Option.map_eq_some_iff.mp hv
      rw [hadd]
      split at hv'
      · cases values with
        | none =>
          cases hv'
          exact .inl rfl
        | some w =>
          cases hv'
          exact .inr ⟨_, rfl, rfl⟩
      · exact .inr ⟨v', hv', rfl⟩

/-- **The run** is that of the machines of all ids. -/
theorem traceAll_eq {traces : List Trace} {map : ValuesMap}
    (hruns : ∀ trace ∈ traces, self.Runs trace none)
    (hordered : traces.Pairwise fun a b => a.time ≤ b.time)
    (htime : ∀ key, ∀ v ∈ map key, ∀ trace ∈ traces, v.span.startTime ≤ trace.time) :
    self.traceAll map traces =
      .ok (Keyed.allOutputs (Trace.key self.idCapacity) self.advance map traces) := by
  induction traces generalizing map with
  | nil => rfl
  | cons trace traces ih =>
    obtain ⟨hfirst, hruns⟩ := List.forall_mem_cons.mp hruns
    obtain ⟨hlater, hordered⟩ := List.pairwise_cons.mp hordered
    have hstep : self.Runs trace (map (trace.key self.idCapacity)) :=
      { hfirst with time := fun v hv => htime _ v hv trace List.mem_cons_self }
    rw [traceAll, trace_eq hstep, ok_bind, Keyed.allOutputs]
    dsimp only
    rw [ih hruns hordered]
    · rfl
    intro key v hv trace' hmem
    by_cases hkey : key = trace.key self.idCapacity
    · subst hkey
      rw [Function.update_self] at hv
      rcases startTime_advance hv with heq | ⟨v', hv', heq⟩
      · exact heq ▸ hlater trace' hmem
      · exact heq ▸ htime _ v' hv' trace' (List.mem_cons_of_mem _ hmem)
    · rw [Function.update_of_ne hkey] at hv
      exact htime key v hv trace' (List.mem_cons_of_mem _ hmem)

end AppliedTimeline

/-! ## The machine and the reference -/

/-- The child of an event up to the next one. -/
def childOf (trace : Trace) (stop : Nat) : ExportSpan := ⟨trace.event.nameId, trace.time, stop, []⟩

theorem childrenUntil_append (within : List Trace) (trace : Trace) (stop : Nat) :
    childrenUntil (within ++ [trace]) stop =
      childrenUntil within trace.time ++ [childOf trace stop] := by
  unfold childrenUntil
  cases within with
  | nil => rfl
  | cons first within =>
    have hlength : (first :: within).length =
        ((first :: within).map Trace.time).tail.length + [trace.time].length := by simp
    rw [List.map_append, List.cons_append, List.map_cons, List.cons_append, List.tail_cons,
      ← List.cons_append, List.map_singleton, List.zipWith_append (by simp)]
    rfl

/-- The last child ends where it is marked. -/
theorem children_markLastChildEnd {span : ExportSpan} {within : List Trace} {last : Nat}
    (h : span.children = childrenUntil within last) (stop : Nat) :
    span.markLastChildEnd stop = { span with children := childrenUntil within stop } := by
  obtain ⟨nameId, startTime, endTime, children⟩ := span
  change children = _ at h
  unfold ExportSpan.markLastChildEnd
  dsimp only
  rw [h]
  rcases List.eq_nil_or_concat within with rfl | ⟨before, trace, rfl⟩
  · rfl
  · rw [List.concat_eq_append, childrenUntil_append, List.getLast?_concat, childrenUntil_append]
    dsimp only
    rw [List.dropLast_concat]
    rfl

theorem opened_append (before : List Trace) (trace : Trace) :
    opened (before ++ [trace]) =
      if trace.accepted then
        if opened before = [] ∧ !trace.event.flags.willStart then []
        else opened before ++ [trace]
      else opened before := by
  unfold opened
  rw [List.filter_append]
  by_cases haccepted : trace.accepted
  · rw [if_pos haccepted, List.filter_cons_of_pos haccepted, List.filter_nil,
      List.dropWhile_append]
    by_cases hopened :
        (before.filter Trace.accepted).dropWhile (fun trace => !trace.event.flags.willStart) = []
    · by_cases hstart : trace.event.flags.willStart
      · simp [hopened, hstart]
      · simp [hopened, hstart]
    · simp [hopened]
  · rw [if_neg haccepted, List.filter_cons_of_neg haccepted, List.filter_nil, List.append_nil]

namespace AppliedTimeline

variable {self : AppliedTimeline}

/-- The values of an id after the events since its last end. -/
structure Holds (timeline : AppliedTimeline) (before : List Trace) (first : Trace)
    (values : TimelineValues) : Prop where
  record : values.record = (followed before).1
  pid : values.pid = first.pid
  tid : values.tid = first.tid
  nameId : values.span.nameId = timeline.nameId
  startTime : values.span.startTime = first.time
  children : ∃ last, values.span.children = childrenUntil (followed before).2 last

/-- There are values exactly when a start was accepted. -/
def HoldsAll (timeline : AppliedTimeline) (before : List Trace) :
    Option TimelineValues → Prop
  | none => opened before = []
  | some values => ∃ first rest, opened before = first :: rest ∧ timeline.Holds before first values

/-- One more event of a span. -/
theorem Holds.follow {before before' : List Trace} {first trace : Trace} {values : TimelineValues}
    (h : self.Holds before first values)
    (hfollowed : followed before' = follow (followed before) trace) :
    self.Holds before' first
      (if trace.recordAccepted values.record then trace.addTo values else values) := by
  obtain ⟨last, hchildren⟩ := h.children
  have hmark := children_markLastChildEnd hchildren trace.time
  rw [Timeline.follow, ← h.record] at hfollowed
  split
  · rename_i haccepted
    rw [if_pos haccepted] at hfollowed
    have hspan : (trace.addTo values).span =
        { values.span with
          children := childrenUntil ((followed before).2 ++ [trace]) trace.time } := by
      rw [Trace.addTo, hmark, childrenUntil_append]
      rfl
    refine ⟨?_, h.pid, h.tid, ?_, ?_, trace.time, ?_⟩
    · rw [hfollowed]
      rfl
    · rw [hspan]
      exact h.nameId
    · rw [hspan]
      exact h.startTime
    · rw [hspan, hfollowed]
  · rename_i hrejected
    rw [if_neg hrejected] at hfollowed
    refine ⟨?_, h.pid, h.tid, h.nameId, h.startTime, last, ?_⟩
    · rw [hfollowed]
      exact h.record
    · rw [hfollowed]
      exact hchildren

/-- An event that does not end keeps the values those of the events so far. -/
theorem holdsAll_goOn {before : List Trace} {values : Option TimelineValues}
    (h : self.HoldsAll before values) (trace : Trace) :
    self.HoldsAll (before ++ [trace]) (self.goOn values trace) := by
  have hopened := opened_append before trace
  unfold goOn
  by_cases haccepted : trace.accepted
  · rw [if_pos haccepted] at hopened
    rw [if_neg (by simpa using haccepted)]
    cases values with
    | none =>
      have hnone : opened before = [] := h
      by_cases hstart : trace.event.flags.willStart
      · have hone : opened (before ++ [trace]) = [trace] := by simpa [hnone, hstart] using hopened
        have hfollowed : followed (before ++ [trace]) = Timeline.follow (followed []) trace := by
          rw [followed, hone]
          rfl
        have hstarted : self.Holds [] trace (trace.startValues self.nameId) :=
          ⟨rfl, rfl, rfl, rfl, rfl, 0, rfl⟩
        rw [if_pos hstart, Option.getD_none, Option.map_some]
        exact ⟨trace, [], hone, hstarted.follow hfollowed⟩
      · have hnone' : opened (before ++ [trace]) = [] := by
          simpa [hnone, hstart] using hopened
        rw [if_neg hstart]
        exact hnone'
    | some values =>
      obtain ⟨first, rest, hfirst, hholds⟩ := h
      have hmore : opened (before ++ [trace]) = first :: (rest ++ [trace]) := by
        simpa [hfirst] using hopened
      have hfollowed : followed (before ++ [trace]) = Timeline.follow (followed before) trace := by
        have happend : opened (before ++ [trace]) = opened before ++ [trace] := by
          rw [hmore, hfirst]
          rfl
        rw [followed, happend, List.foldl_append]
        rfl
      have hsame : (if trace.event.flags.willStart then
          some ((some values).getD (trace.startValues self.nameId)) else some values) =
            some values := by
        split
        · rfl
        · rfl
      rw [hsame, Option.map_some]
      exact ⟨first, _, hmore, hholds.follow hfollowed⟩
  · rw [if_neg haccepted] at hopened
    rw [if_pos (by simpa using haccepted)]
    have hfollowed : followed (before ++ [trace]) = followed before := by
      rw [followed, hopened]
      rfl
    cases values with
    | none => exact hopened.trans h
    | some values =>
      obtain ⟨first, rest, hfirst, hholds⟩ := h
      refine ⟨first, rest, hopened.trans hfirst, ?_⟩
      exact ⟨hfollowed ▸ hholds.record, hholds.pid, hholds.tid, hholds.nameId, hholds.startTime,
        hfollowed ▸ hholds.children⟩

/-- The sample of an end event is that of the events since the last end. -/
theorem endOf_eq {before : List Trace} {values : Option TimelineValues}
    (h : self.HoldsAll before values) {trace : Trace}
    (hrecord : self.shouldRecord = false → ∀ record, trace.recordAccepted record) :
    values.bind (self.endOf trace) = self.sampleOf before trace := by
  cases values with
  | none =>
    rw [sampleOf, show opened before = [] from h]
    rfl
  | some values =>
    obtain ⟨first, rest, hfirst, hholds⟩ := h
    obtain ⟨last, hchildren⟩ := hholds.children
    have hmark := children_markLastChildEnd hchildren trace.time
    have hspan : (values.span.markLastChildEnd trace.time).markEnd trace.time =
        ⟨self.nameId, first.time, trace.time,
          childrenUntil (followed before).2 trace.time⟩ := by
      rw [hmark, ExportSpan.markEnd, ← hholds.nameId, ← hholds.startTime]
    have hrecorded : (self.shouldRecord → trace.recordAccepted (followed before).1) ↔
        trace.recordAccepted (followed before).1 := by
      cases hshould : self.shouldRecord with
      | false => simp [hrecord hshould]
      | true => simp
    rw [Option.bind_some, endOf, sampleOf, hfirst, hspan]
    dsimp only
    simp only [hholds.record, hholds.pid, hholds.tid, hholds.startTime, hrecorded]

/-- **The machine of one id** saves what the reference does. -/
theorem outputs_eq_reference {traces before : List Trace} {values : Option TimelineValues}
    (h : self.HoldsAll before values)
    (hrecord : ∀ trace ∈ traces, self.shouldRecord = false →
      ∀ record, trace.recordAccepted record) :
    Keyed.outputs self.advance values traces = self.reference before traces := by
  induction traces generalizing before values with
  | nil => rfl
  | cons trace traces ih =>
    obtain ⟨hfirst, hrest⟩ := List.forall_mem_cons.mp hrecord
    rw [Keyed.outputs, reference, advance]
    by_cases hend : trace.event.flags.willEnd
    · rw [if_pos hend, if_pos hend]
      dsimp only
      have hnil : self.HoldsAll [] none := rfl
      rw [endOf_eq h hfirst, ih hnil hrest]
    · rw [if_neg hend, if_neg hend]
      exact ih (holdsAll_goOn h trace) hrest

end AppliedTimeline

/-! ## Spans of an id -/

/-- **Spans of ids** do not interfere: those of an id are those of the reference on its events. -/
theorem spans_of_id (name : String) (minDuration : Option Nat)
    (requests : List (Event × List String × TimelineEventFlags)) (intern : String → Nat)
    (durationToQpc : Nat → Nat) (timeline : AppliedTimeline)
    (happly : (ExporterTimeline.trackAll { name, minDuration } requests).apply intern durationToQpc =
      .ok timeline)
    (traces : List Trace) (hmem : ∀ trace ∈ traces, trace.event ∈ timeline.events)
    (hordered : traces.Pairwise fun a b => a.time ≤ b.time)
    (hsized : ∀ trace ∈ traces, trace.Sized) (hsearch : ∀ trace ∈ traces, trace.NoEmptySearch) :
    ∃ saved, timeline.traceAll (fun _ => none) traces = .ok saved ∧
      ∀ id, saved.filter (fun sample => sample.1.id = id) =
        timeline.reference [] (traces.filter fun trace => trace.id = id) := by
  have hsound := (ExporterTimeline.sound_new name minDuration).trackAll requests
  obtain ⟨hle, hevents⟩ := hsound.apply happly
  have hone : ∀ trace ∈ traces, trace.event.Sound _ timeline.shouldRecord := fun trace h =>
    hevents trace.event (hmem trace h)
  have hruns : ∀ trace ∈ traces, timeline.Runs trace none := fun trace h =>
    { id := idClosure_eq (hone trace h) (hsized trace h) hle
      filter := filter_answers (hone trace h) (hsearch trace h)
      recordFilter := recordFilter_answers (hone trace h) (hsearch trace h)
      time := fun _ hv => (nomatch hv) }
  have hrun := @AppliedTimeline.traceAll_eq timeline traces (fun _ => none) hruns hordered
    (fun _ _ hv => (nomatch hv))
  refine ⟨_, hrun, fun id => ?_⟩
  have hfst : ∀ sample ∈ Keyed.allOutputs (Trace.key timeline.idCapacity) timeline.advance
      (fun _ => none) traces, sample.1 ∈ traces := fun _ h => Keyed.fst_mem_of_mem_allOutputs h
  by_cases hid : ∃ trace ∈ traces, trace.id = id
  · obtain ⟨witness, hwitness, rfl⟩ := hid
    have hkey : ∀ trace ∈ traces,
        (trace.key timeline.idCapacity = witness.key timeline.idCapacity ↔
          trace.id = witness.id) := fun trace h =>
      key_eq_iff (hone trace h) (hone witness hwitness) (hsized trace h) (hsized witness hwitness)
    have hsamples := Keyed.outputs_filter (Trace.key timeline.idCapacity) timeline.advance
      (fun _ => none) traces (witness.key timeline.idCapacity)
    rw [List.filter_congr fun sample h => decide_eq_decide.mpr (hkey sample.1 (hfst sample h)),
      List.filter_congr fun trace h => decide_eq_decide.mpr (hkey trace h)] at hsamples
    rw [hsamples]
    refine AppliedTimeline.outputs_eq_reference rfl fun trace h hrecord => ?_
    exact recordAccepted_of_no_record (hone trace (List.mem_of_mem_filter h)) hrecord
  · have hnone : ∀ trace ∈ traces, ¬ trace.id = id := fun trace h heq => hid ⟨trace, h, heq⟩
    have hsamples : (Keyed.allOutputs (Trace.key timeline.idCapacity) timeline.advance
        (fun _ => none) traces).filter (fun sample => sample.1.id = id) = [] :=
      List.filter_eq_nil_iff.mpr fun sample h => by simpa using hnone _ (hfst sample h)
    have htraces : traces.filter (fun trace => trace.id = id) = [] :=
      List.filter_eq_nil_iff.mpr fun trace h => by simpa using hnone trace h
    rw [hsamples, htraces]
    rfl

/-! ## A start and a stop -/

def eventOf (id : Nat) (name : String) (field : EventField) : Event := ⟨id, name, ⟨[field]⟩⟩

/-- A start and a stop with their id in one field. -/
def startStopOf (field : EventField) : List (Event × List String × TimelineEventFlags) :=
  [(eventOf 1 "Start" field, [field.name], TimelineEventFlags.shouldStart {}),
    (eventOf 2 "Stop" field, [field.name], TimelineEventFlags.shouldEnd {})]

def timelineOf (field : EventField) : AppliedTimeline :=
  match (ExporterTimeline.trackAll { name := "Timeline" } (startStopOf field)).apply
      String.length (· * 1) with
  | .ok timeline => timeline
  | .error _ => ⟨0, 0, false, 0, []⟩

def idNumber : EventField := ⟨"Id", "u32", .static, 0, 4⟩

def startTrace (id : UInt8) (time : Nat) : Trace :=
  ⟨(timelineOf idNumber).events.get ⟨0, by decide⟩, 1, 1, time, [id, 0, 0, 0]⟩

def stopTrace (id : UInt8) (time : Nat) : Trace :=
  ⟨(timelineOf idNumber).events.get ⟨1, by decide⟩, 2, 2, time, [id, 0, 0, 0]⟩

theorem startTrace_sized (id : UInt8) (time : Nat) : (startTrace id time).Sized := by
  intro name hname field hfield
  obtain rfl : name = "Id" := List.mem_singleton.mp hname
  cases hfield
  rfl

theorem stopTrace_sized (id : UInt8) (time : Nat) : (stopTrace id time).Sized := by
  intro name hname field hfield
  obtain rfl : name = "Id" := List.mem_singleton.mp hname
  cases hfield
  rfl

def interleaved : List Trace := [startTrace 7 1, startTrace 8 2, stopTrace 7 3, stopTrace 8 5]

/-- Two ids whose spans overlap. -/
theorem spans_of_id_interleaved :
    ∃ saved, (timelineOf idNumber).traceAll (fun _ => none) interleaved = .ok saved ∧
      ∀ id, saved.filter (fun sample => sample.1.id = id) =
        (timelineOf idNumber).reference [] (interleaved.filter fun trace => trace.id = id) := by
  refine spans_of_id "Timeline" none (startStopOf idNumber) String.length (· * 1)
    (timelineOf idNumber) rfl interleaved ?_ ?_ ?_ ?_
  · simp [interleaved, startTrace, stopTrace]
  · simp [interleaved, startTrace, stopTrace]
  · simp [interleaved, startTrace_sized, stopTrace_sized]
  · have hnone : ∀ trace ∈ interleaved, trace.event.flags.recordFlags.filterFields ++
        trace.event.flags.filterRecordFields = [] := by
      simp only [interleaved, List.forall_mem_cons]
      exact ⟨rfl, rfl, rfl, rfl, fun _ h => (List.not_mem_nil h).elim⟩
    intro trace hmem filter hfilter
    rw [hnone trace hmem] at hfilter
    exact (List.not_mem_nil hfilter).elim

/-- A text of 8 bytes, as a field with a size. -/
def idText : EventField := ⟨"Id", "string", .staticUTF16String, 0, 8⟩

/-- A start with a text of 10 bytes. -/
def longTrace : Trace :=
  ⟨(timelineOf idText).events.get ⟨0, by decide⟩, 1, 1, 1, [97, 0, 98, 0, 99, 0, 100, 0, 101, 0]⟩

/-- The text does not fit into the id. -/
theorem spans_of_id_text : ¬ ∀ (name : String) (minDuration : Option Nat)
    (requests : List (Event × List String × TimelineEventFlags)) (intern : String → Nat)
    (durationToQpc : Nat → Nat) (timeline : AppliedTimeline) (traces : List Trace),
    (ExporterTimeline.trackAll { name, minDuration } requests).apply intern durationToQpc =
      .ok timeline →
    (∀ trace ∈ traces, trace.event ∈ timeline.events) →
    (traces.Pairwise fun a b => a.time ≤ b.time) →
    ∃ saved, timeline.traceAll (fun _ => none) traces = .ok saved ∧
      ∀ id, saved.filter (fun sample => sample.1.id = id) =
        timeline.reference [] (traces.filter fun trace => trace.id = id) := by
  intro h
  obtain ⟨saved, hok, -⟩ := h "Timeline" none (startStopOf idText) String.length (· * 1)
    (timelineOf idText) [longTrace] rfl (by simp [longTrace]) (List.pairwise_singleton _ _)
  have hpanic : (timelineOf idText).traceAll (fun _ => none) [longTrace] = .error .panic := rfl
  rw [hpanic] at hok
  exact (nomatch hok)

end OneCollect.Exporting.Timeline
