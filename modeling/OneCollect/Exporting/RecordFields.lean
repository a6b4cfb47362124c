import OneCollect.Event.Format
import OneCollect.Theory.Pointwise
import OneCollect.Theory.Slots
import Mathlib.Data.List.Nodup

/-! Recorded fields (`scripting.rs`): events add the fields they record to one record format, and
their closures write the fields of an event into the data of a record.

The format grows while events are registered, the data only up to the fields that are written
(`fits_iff`). -/

namespace OneCollect.Exporting
open Theory

structure FieldFilter where
  field : String
  operation : String
  value : String
  deriving DecidableEq, Repr

structure RecordEventFlags where
  recordFields : List String := []
  filterFields : List FieldFilter := []
  deriving DecidableEq, Repr

structure RecordContext where
  writeOffset : Nat
  closure : List UInt8 → List UInt8

/-- The context of a field that has its place in the record. -/
def recordContext (event : Event) (recordField : String) (writeOffset : Nat) :
    Exec RecordContext :=
  match event.format.tryGetFieldDataClosure recordField with
  | some closure => .ok ⟨writeOffset, closure⟩
  | none =>
    let name := event.name
    fail s!"Unable to get record from \"{recordField}\" for event \"{name}\"."

/-- The check of a field that another event has recorded. -/
def sameField (event : Event) (recordField : String) (eventField existingField : EventField) :
    Exec Unit :=
  let name := event.name
  if eventField.typeName ≠ existingField.typeName then
    fail s!"Record field \"{recordField}\" on event \"{name}\" must all have the same type."
  else if eventField.size ≠ existingField.size then
    fail s!"Record field \"{recordField}\" on event \"{name}\" must all have the same size."
  else if eventField.location ≠ existingField.location then
    fail s!"Record field \"{recordField}\" on event \"{name}\" must all have the same location."
  else .ok ()

/-- One turn of the loop of `build_record_data_closure`; the format keeps what it was given when
the turn fails. -/
def addRecordField (event : Event) (recordFormat : EventFormat) (recordField : String) :
    Exec RecordContext × EventFormat :=
  match event.format.getField recordField with
  | none =>
    let name := event.name
    (fail s!"Record field \"{recordField}\" does not exist for event \"{name}\".", recordFormat)
  | some eventField =>
    if eventField.size = 0 ∨ eventField.location = .dynRelative ∨
        eventField.location = .dynAbsolute then
      let name := event.name
      (fail s!"Record field \"{recordField}\" on event \"{name}\" must have a static size.",
        recordFormat)
    else
      match recordFormat.getField recordField with
      | some existingField =>
        (do
          sameField event recordField eventField existingField
          recordContext event recordField existingField.offset, recordFormat)
      | none =>
        let offset := recordFormat.nextOffset
        (recordContext event recordField offset, recordFormat.addField { eventField with offset })

def addRecordFields (event : Event) :
    EventFormat → List String → Exec (List RecordContext) × EventFormat
  | recordFormat, [] => (.ok [], recordFormat)
  | recordFormat, recordField :: recordFields =>
    let added := addRecordField event recordFormat recordField
    match added.1 with
    | .error fault => (.error fault, added.2)
    | .ok context =>
      let rest := addRecordFields event added.2 recordFields
      (rest.1.map (context :: ·), rest.2)

/-- What the record closure of the contexts does to the data of a record. -/
def writeRecord (contexts : List RecordContext) (eventData recordData : List UInt8) :
    List UInt8 :=
  contexts.foldl (fun record context => writeAt record context.writeOffset
    (context.closure eventData)) recordData

abbrev RecordClosure := List UInt8 → List UInt8 → List UInt8

def RecordEventFlags.buildRecordDataClosure (self : RecordEventFlags) (event : Event)
    (recordFormat : EventFormat) : Exec (Option RecordClosure) × EventFormat :=
  let built := addRecordFields event recordFormat self.recordFields
  (built.1.map fun contexts => if contexts.isEmpty then none else some (writeRecord contexts),
    built.2)

/-! ## The record format -/

/-- The fields of a format lie one behind the other and have names of their own. -/
structure Packed (format : EventFormat) : Prop where
  ordered : format.fields.Pairwise fun f g => f.offset + f.size ≤ g.offset
  names : (format.fields.map EventField.name).Nodup
  sized : ∀ field ∈ format.fields, 0 < field.size

theorem packed_empty : Packed {} := ⟨.nil, .nil, fun _ h => (List.not_mem_nil h).elim⟩

/-- Fields are only added. -/
def Grows (format format' : EventFormat) : Prop := format.fields <+: format'.fields

section Format

variable {format format' : EventFormat} {field : EventField}

theorem Packed.stop_le (h : Packed format) (hfield : field ∈ format.fields) :
    field.offset + field.size ≤ format.nextOffset := by
  unfold EventFormat.nextOffset
  rcases List.eq_nil_or_concat format.fields with hnil | ⟨fields, last, hfields⟩
  · rw [hnil] at hfield
    exact (List.not_mem_nil hfield).elim
  · rw [hfields, List.concat_eq_append] at hfield
    rw [hfields, List.concat_eq_append, List.getLast?_concat]
    have hordered := h.ordered
    rw [hfields, List.concat_eq_append, List.pairwise_append] at hordered
    rcases List.mem_append.mp hfield with hbefore | hlast
    · have := hordered.2.2 field hbefore last (by simp)
      change _ ≤ last.offset + last.size
      omega
    · rw [List.mem_singleton.mp hlast]

theorem Packed.addField (h : Packed format) (hsize : 0 < field.size)
    (hname : format.getField field.name = none) (hoffset : field.offset = format.nextOffset) :
    Packed (format.addField field) := by
  have hnew : field.name ∉ format.fields.map EventField.name := by
    intro hmem
    obtain ⟨other, hother, heq⟩ := List.mem_map.mp hmem
    have := List.find?_eq_none.mp hname other hother
    simp [heq] at this
  refine ⟨?_, ?_, ?_⟩
  · refine List.pairwise_append.mpr ⟨h.ordered, List.pairwise_singleton _ _, ?_⟩
    intro other hother added hadded
    rw [List.mem_singleton.mp hadded, hoffset]
    exact h.stop_le hother
  · rw [EventFormat.addField, List.map_append]
    refine List.nodup_append.mpr ⟨h.names, List.nodup_singleton _, ?_⟩
    rintro name hname _ hadded rfl
    exact hnew (List.mem_singleton.mp hadded ▸ hname)
  · intro other hother
    rcases List.mem_append.mp hother with hother | hadded
    · exact h.sized other hother
    · rw [List.mem_singleton.mp hadded]
      exact hsize

/-- In a packed format a field is found by its name. -/
theorem Packed.getField (h : Packed format) (hfield : field ∈ format.fields) :
    format.getField field.name = some field := by
  cases hfind : format.getField field.name with
  | none =>
    have := List.find?_eq_none.mp hfind field hfield
    simp at this
  | some found =>
    have hname : found.name = field.name := by
      simpa using List.find?_some hfind
    rw [List.inj_on_of_nodup_map h.names (List.mem_of_find?_eq_some hfind) hfield hname]

theorem Grows.getField (h : Grows format format') {name : String}
    (hfield : format.getField name = some field) : format'.getField name = some field := by
  obtain ⟨added, hadded⟩ := h
  rw [EventFormat.getField, ← hadded, List.find?_append]
  rw [EventFormat.getField] at hfield
  rw [hfield]
  rfl

end Format

/-! ## The closures -/

/-- A context writes a field of the event at the place of the field in the record. -/
def ContextOf (event : Event) (recordFormat : EventFormat) (recordField : String)
    (context : RecordContext) : Prop :=
  ∃ eventField field, event.format.getField recordField = some eventField ∧
    recordFormat.getField recordField = some field ∧ eventField.size = field.size ∧
    context.writeOffset = field.offset ∧
    event.format.tryGetFieldDataClosure recordField = some context.closure

section Closures

variable {event : Event} {format format' : EventFormat} {recordField : String}
  {recordFields : List String}

theorem ContextOf.grows {context : RecordContext} (h : ContextOf event format recordField context)
    (hgrows : Grows format format') : ContextOf event format' recordField context := by
  obtain ⟨eventField, field, hevent, hfield, hrest⟩ := h
  exact ⟨eventField, field, hevent, hgrows.getField hfield, hrest⟩

theorem recordContext_eq_ok {offset : Nat} {context : RecordContext}
    (h : recordContext event recordField offset = .ok context) :
    context.writeOffset = offset ∧
      event.format.tryGetFieldDataClosure recordField = some context.closure := by
  unfold recordContext at h
  split at h
  · rename_i closure hclosure
    cases h
    exact ⟨rfl, hclosure⟩
  · exact absurd h (by simp [fail])

/-- One field is added. -/
theorem addRecordField_spec (hpacked : Packed format) :
    Packed (addRecordField event format recordField).2 ∧
      Grows format (addRecordField event format recordField).2 ∧
      ∀ context, (addRecordField event format recordField).1 = .ok context →
        ContextOf event (addRecordField event format recordField).2 recordField context := by
  unfold addRecordField
  split
  · exact ⟨hpacked, List.prefix_refl _, fun _ h => absurd h (by simp)⟩
  · rename_i eventField hevent
    split
    · exact ⟨hpacked, List.prefix_refl _, fun _ h => absurd h (by simp)⟩
    · rename_i hstatic
      split
      · rename_i existingField hexisting
        refine ⟨hpacked, List.prefix_refl _, fun context h => ?_⟩
        obtain ⟨_, hsame, hcontext⟩ := bind_eq_ok.mp h
        obtain ⟨hoffset, hclosure⟩ := recordContext_eq_ok hcontext
        have hsize : eventField.size = existingField.size := by
          by_contra hne
          simp [sameField, hne] at hsame
          split at hsame <;> simp [fail] at hsame
        exact ⟨eventField, existingField, hevent, hexisting, hsize, hoffset, hclosure⟩
      · rename_i hnew
        have hname : eventField.name = recordField := by
          simpa using List.find?_some hevent
        have hpacked' : Packed (format.addField { eventField with offset := format.nextOffset }) :=
          hpacked.addField (by simp; omega) (by rw [hname]; exact hnew) rfl
        refine ⟨hpacked', List.prefix_append _ _, fun context h => ?_⟩
        obtain ⟨hoffset, hclosure⟩ := recordContext_eq_ok h
        refine ⟨eventField, { eventField with offset := format.nextOffset }, hevent, ?_, rfl,
          hoffset, hclosure⟩
        have hmem : { eventField with offset := format.nextOffset } ∈
            (format.addField { eventField with offset := format.nextOffset }).fields :=
          List.mem_append_right _ (List.mem_singleton_self _)
        rw [← hname]
        exact hpacked'.getField hmem

/-- All fields of an event are added. -/
theorem addRecordFields_spec (hpacked : Packed format) :
    Packed (addRecordFields event format recordFields).2 ∧
      Grows format (addRecordFields event format recordFields).2 ∧
      ∀ contexts, (addRecordFields event format recordFields).1 = .ok contexts →
        List.Forall₂ (ContextOf event (addRecordFields event format recordFields).2) recordFields
          contexts := by
  induction recordFields generalizing format with
  | nil =>
    refine ⟨hpacked, List.prefix_refl _, fun contexts h => ?_⟩
    cases h
    exact .nil
  | cons recordField recordFields ih =>
    obtain ⟨hpacked', hgrows, hcontext⟩ := @addRecordField_spec event format recordField hpacked
    unfold addRecordFields
    dsimp only
    split
    · exact ⟨hpacked', hgrows, fun _ h => absurd h (by simp)⟩
    · rename_i context hok
      obtain ⟨hpacked'', hgrows', hcontexts⟩ := ih hpacked'
      refine ⟨hpacked'', hgrows.trans hgrows', fun contexts h => ?_⟩
      cases hrest : (addRecordFields event (addRecordField event format recordField).2
          recordFields).1 with
      | error fault =>
        rw [hrest] at h
        exact absurd h (by simp [Except.map])
      | ok rest =>
        rw [hrest] at h
        cases h
        exact .cons ((hcontext context hok).grows hgrows') (hcontexts rest hrest)

end Closures

/-! ## Events that share a record format -/

/-- An event with the closure that was built for it. -/
structure RecordedEvent where
  event : Event
  flags : RecordEventFlags
  closure : Option RecordClosure

/-- The events whose closure was built, and the record format they share. -/
structure Recorder where
  events : List RecordedEvent := []
  recordFormat : EventFormat := {}

/-- One call of `build_record_data_closure`; a call that fails may leave fields in the format. -/
def Recorder.register (self : Recorder) (request : Event × RecordEventFlags) : Recorder :=
  let built := request.2.buildRecordDataClosure request.1 self.recordFormat
  match built.1 with
  | .ok closure => ⟨self.events ++ [⟨request.1, request.2, closure⟩], built.2⟩
  | .error _ => ⟨self.events, built.2⟩

def Recorder.registerAll (requests : List (Event × RecordEventFlags)) : Recorder :=
  requests.foldl Recorder.register {}

/-- An event that fires, with its data. -/
structure Fire where
  recorded : RecordedEvent
  eventData : List UInt8

/-- One run of a record closure. -/
def Fire.record (recordData : List UInt8) (fire : Fire) : List UInt8 :=
  match fire.recorded.closure with
  | some closure => closure fire.eventData recordData
  | none => recordData

/-- The data of the record after the events have fired. -/
def recordAll (fires : List Fire) : List UInt8 := fires.foldl Fire.record []

namespace Fire

/-- The value that an event has in a field. -/
def valueOf (fire : Fire) (recordField : String) : List UInt8 :=
  ((fire.recorded.event.format.tryGetFieldDataClosure recordField).map
    (· fire.eventData)).getD []

/-- What is recorded of an event. -/
def values (fire : Fire) : List (String × List UInt8) :=
  fire.recorded.flags.recordFields.map fun recordField => (recordField, fire.valueOf recordField)

/-- The data of the event holds every recorded field in full. -/
def LongEnough (fire : Fire) : Prop :=
  ∀ recordField ∈ fire.recorded.flags.recordFields, ∀ field,
    fire.recorded.event.format.getField recordField = some field →
      (fire.valueOf recordField).length = field.size

end Fire

/-- Behind fields that all have a size a field is read at its own offset. -/
theorem closure_of_sized {format : EventFormat} (hsized : ∀ field ∈ format.fields, field.size ≠ 0)
    {recordField : String} {field : EventField}
    (h : format.getField recordField = some field) :
    format.tryGetFieldDataClosure recordField =
      some (EventFormat.getDataWithOffsetDirect field.size field.location field.offset) := by
  have hloop : ∀ (fields : List EventField) (offset : Nat),
      (∀ field ∈ fields, field.size ≠ 0) → fields.find? (·.name = recordField) = some field →
      EventFormat.closureLoop recordField (offset, []) fields =
        some (EventFormat.getDataWithOffsetDirect field.size field.location field.offset) := by
    intro fields
    induction fields with
    | nil => exact fun _ _ h => (nomatch h)
    | cons first fields ih =>
      intro offset hsized hfind
      have hfirst := hsized first List.mem_cons_self
      rw [List.find?_cons] at hfind
      by_cases hname : first.name = recordField
      · simp only [hname, decide_true, Option.some.injEq] at hfind
        subst hfind
        rw [EventFormat.closureLoop, if_pos hname]
        simp [EventFormat.fieldClosure, EventFormat.closureSize, hfirst]
      · simp only [hname, decide_false] at hfind
        rw [EventFormat.closureLoop, if_neg hname]
        have hpass : EventFormat.passField (offset, []) first = some (offset + first.size, []) := by
          simp [EventFormat.passField, hfirst]
        rw [hpass]
        exact ih _ (fun field hfield => hsized field (List.mem_cons_of_mem _ hfield)) hfind
  exact hloop format.fields 0 hsized h

/-- For static fields the data is long enough when it does not end before they do. -/
theorem Fire.longEnough_of_static {fire : Fire}
    (hsized : ∀ field ∈ fire.recorded.event.format.fields, field.size ≠ 0)
    (hstatic : ∀ recordField ∈ fire.recorded.flags.recordFields, ∀ field,
      fire.recorded.event.format.getField recordField = some field →
        field.location = .static ∧ field.offset + field.size ≤ fire.eventData.length) :
    fire.LongEnough := by
  intro recordField hmem field hfield
  obtain ⟨hlocation, hle⟩ := hstatic recordField hmem field hfield
  rw [Fire.valueOf, closure_of_sized hsized hfield, hlocation]
  simp only [Option.map_some, Option.getD_some, EventFormat.getDataWithOffsetDirect]
  rw [if_neg (by omega), List.length_take, List.length_drop]
  omega

/-- The data has the size of the format, and every field the value recorded last, or zeros. -/
structure DataFits (recordFormat : EventFormat) (values : List (String × List UInt8))
    (recordData : List UInt8) : Prop where
  size : recordData.length = recordFormat.nextOffset
  held : ∀ field ∈ recordFormat.fields,
    (recordData.drop field.offset).take field.size =
      (lastWrite field.name values).getD (List.replicate field.size 0)

/-- The place of a field in the format. -/
def slotOf (recordFormat : EventFormat) (recordField : String) : Slot :=
  match recordFormat.getField recordField with
  | some field => ⟨field.offset, field.size⟩
  | none => ⟨0, 0⟩

/-- What holds of a recorder: every closure writes the fields of its event at their places. -/
structure Recorder.Sound (recorder : Recorder) : Prop where
  packed : Packed recorder.recordFormat
  closures : ∀ recorded ∈ recorder.events, ∃ contexts,
    recorded.closure = (if contexts.isEmpty then none else some (writeRecord contexts)) ∧
      List.Forall₂ (ContextOf recorded.event recorder.recordFormat) recorded.flags.recordFields
        contexts

theorem Recorder.Sound.register {self : Recorder} (h : self.Sound)
    (request : Event × RecordEventFlags) : (self.register request).Sound := by
  obtain ⟨hpacked, hgrows, hcontexts⟩ :=
    @addRecordFields_spec request.1 self.recordFormat request.2.recordFields h.packed
  have hold : ∀ recorded ∈ self.events, ∃ contexts,
      recorded.closure = (if contexts.isEmpty then none else some (writeRecord contexts)) ∧
        List.Forall₂ (ContextOf recorded.event
          (addRecordFields request.1 self.recordFormat request.2.recordFields).2)
            recorded.flags.recordFields contexts := by
    intro recorded hmem
    obtain ⟨contexts, hclosure, hall⟩ := h.closures recorded hmem
    exact ⟨contexts, hclosure, hall.imp fun _ _ hcontext => hcontext.grows hgrows⟩
  unfold Recorder.register RecordEventFlags.buildRecordDataClosure
  dsimp only
  cases hbuilt : (addRecordFields request.1 self.recordFormat request.2.recordFields).1 with
  | error fault => exact ⟨hpacked, hold⟩
  | ok contexts =>
    refine ⟨hpacked, fun recorded hmem => ?_⟩
    rcases List.mem_append.mp hmem with hmem | hnew
    · exact hold recorded hmem
    · rw [List.mem_singleton.mp hnew]
      exact ⟨contexts, rfl, hcontexts contexts hbuilt⟩

theorem Recorder.sound_registerAll (requests : List (Event × RecordEventFlags)) :
    (Recorder.registerAll requests).Sound := by
  have hall : ∀ (requests : List (Event × RecordEventFlags)) (recorder : Recorder),
      recorder.Sound → (requests.foldl Recorder.register recorder).Sound := by
    intro requests
    induction requests with
    | nil => exact fun _ h => h
    | cons request requests ih => exact fun recorder h => ih _ (h.register request)
  exact hall requests {} ⟨packed_empty, fun _ h => (List.not_mem_nil h).elim⟩

section Fires

variable {recorder : Recorder} {fires : List Fire} {fire : Fire}

theorem slotOf_eq {recordFormat : EventFormat} {recordField : String} {field : EventField}
    (h : recordFormat.getField recordField = some field) :
    slotOf recordFormat recordField = ⟨field.offset, field.size⟩ := by
  rw [slotOf, h]

/-- A closure writes the values of its event to their slots. -/
theorem record_eq (hsound : recorder.Sound) (hmem : fire.recorded ∈ recorder.events)
    (recordData : List UInt8) :
    fire.record recordData = fire.values.foldl
      (fun bytes w => writeAt bytes (slotOf recorder.recordFormat w.1).offset w.2) recordData := by
  obtain ⟨contexts, hclosure, hall⟩ := hsound.closures fire.recorded hmem
  have hwrite : ∀ {recordFields contexts} (recordData : List UInt8),
      List.Forall₂ (ContextOf fire.recorded.event recorder.recordFormat) recordFields contexts →
      writeRecord contexts fire.eventData recordData =
        (recordFields.map fun recordField => (recordField, fire.valueOf recordField)).foldl
          (fun bytes w => writeAt bytes (slotOf recorder.recordFormat w.1).offset w.2)
          recordData := by
    intro recordFields contexts recordData h
    induction h generalizing recordData with
    | nil => rfl
    | cons hcontext _ ih =>
      obtain ⟨_, field, -, hfield, -, hoffset, hclosure⟩ := hcontext
      rw [writeRecord, List.foldl_cons, List.map_cons, List.foldl_cons, slotOf_eq hfield,
        Fire.valueOf, hclosure, hoffset]
      exact ih _
  rw [Fire.record, hclosure, Fire.values]
  cases hcontexts : contexts with
  | nil =>
    rw [hcontexts] at hall
    rw [List.forall₂_nil_right_iff.mp hall]
    rfl
  | cons context rest =>
    rw [← hwrite recordData hall, hcontexts]
    rfl

theorem recordAll_eq (hsound : recorder.Sound)
    (hmem : ∀ fire ∈ fires, fire.recorded ∈ recorder.events) :
    recordAll fires = writeAll (slotOf recorder.recordFormat) (fires.flatMap Fire.values) := by
  have hall : ∀ (fires : List Fire) (recordData : List UInt8),
      (∀ fire ∈ fires, fire.recorded ∈ recorder.events) →
      fires.foldl Fire.record recordData = (fires.flatMap Fire.values).foldl
        (fun bytes w => writeAt bytes (slotOf recorder.recordFormat w.1).offset w.2)
          recordData := by
    intro fires
    induction fires with
    | nil => exact fun _ _ => rfl
    | cons fire fires ih =>
      intro recordData hmem
      rw [List.foldl_cons, List.flatMap_cons, List.foldl_append,
        record_eq hsound (hmem fire List.mem_cons_self)]
      exact ih _ fun fire hfire => hmem fire (List.mem_cons_of_mem _ hfire)
  exact hall fires [] hmem

/-- What is recorded of the events has fields in the format, of the sizes they have there. -/
theorem values_fields (hsound : recorder.Sound)
    (hmem : ∀ fire ∈ fires, fire.recorded ∈ recorder.events)
    (hlong : ∀ fire ∈ fires, fire.LongEnough) {w : String × List UInt8}
    (hw : w ∈ fires.flatMap Fire.values) :
    ∃ field ∈ recorder.recordFormat.fields, field.name = w.1 ∧ w.2.length = field.size ∧
      slotOf recorder.recordFormat w.1 = ⟨field.offset, field.size⟩ := by
  obtain ⟨fire, hfire, hw⟩ := List.mem_flatMap.mp hw
  obtain ⟨recordField, hfield, rfl⟩ := List.mem_map.mp hw
  obtain ⟨contexts, -, hall⟩ := hsound.closures fire.recorded (hmem fire hfire)
  obtain ⟨context, -, eventField, field, hevent, hget, hsize, -⟩ :=
    forall₂_mem_left hall hfield
  have hname : field.name = recordField := by
    simpa using List.find?_some hget
  exact ⟨field, List.mem_of_find?_eq_some hget, hname,
    (hlong fire hfire recordField hfield eventField hevent).trans hsize, slotOf_eq hget⟩

theorem Packed.apart {format : EventFormat} (h : Packed format) {f g : EventField}
    (hf : f ∈ format.fields) (hg : g ∈ format.fields) (hne : f.name ≠ g.name) :
    Slot.Apart ⟨f.offset, f.size⟩ ⟨g.offset, g.size⟩ := by
  obtain ⟨i, hi⟩ := List.mem_iff_getElem?.mp hf
  obtain ⟨j, hj⟩ := List.mem_iff_getElem?.mp hg
  rcases Nat.lt_trichotomy i j with hlt | heq | hgt
  · exact .inl (pairwise_getElem? h.ordered hlt hi hj)
  · subst heq
    rw [hi] at hj
    exact absurd (congrArg EventField.name (Option.some.inj hj)) hne
  · exact .inr (pairwise_getElem? h.ordered hgt hj hi)

theorem nextOffset_eq {format : EventFormat} {last : EventField}
    (h : format.fields.getLast? = some last) : format.nextOffset = last.offset + last.size := by
  rw [EventFormat.nextOffset, h]

/-- The last field of a format is recorded by one of the events, if there is any field. -/
def LastRecorded (recordFormat : EventFormat) (fires : List Fire) : Prop :=
  ∀ last, recordFormat.fields.getLast? = some last →
    ∃ fire ∈ fires, last.name ∈ fire.recorded.flags.recordFields

/-- The data fits when an event that recorded the last field has fired, and only then. -/
theorem Recorder.Sound.fits_iff (hsound : recorder.Sound)
    (hmem : ∀ fire ∈ fires, fire.recorded ∈ recorder.events)
    (hlong : ∀ fire ∈ fires, fire.LongEnough) :
    DataFits recorder.recordFormat (fires.flatMap Fire.values) (recordAll fires) ↔
      LastRecorded recorder.recordFormat fires := by
  have hpacked := hsound.packed
  have hvalues : ∀ w ∈ fires.flatMap Fire.values, _ := fun w hw =>
    values_fields hsound hmem hlong hw
  rw [recordAll_eq hsound hmem]
  have hstop : ∀ w ∈ fires.flatMap Fire.values,
      (slotOf recorder.recordFormat w.1).offset + w.2.length ≤
        recorder.recordFormat.nextOffset := by
    intro w hw
    obtain ⟨field, hfield, -, hsize, hslot⟩ := hvalues w hw
    rw [hslot, hsize]
    exact hpacked.stop_le hfield
  constructor
  · intro hfits last hlast
    by_contra hnone
    have hlastmem := List.mem_of_getLast? hlast
    have hend := nextOffset_eq hlast
    have hpos := hpacked.sized last hlastmem
    have hshort : (writeAll (slotOf recorder.recordFormat) (fires.flatMap Fire.values)).length ≤
        last.offset := by
      refine length_writeAll_le fun w hw => ?_
      obtain ⟨field, hfield, hname, hsize, hslot⟩ := hvalues w hw
      have hne : field.name ≠ last.name := by
        intro heq
        obtain ⟨fire, hfire, hw⟩ := List.mem_flatMap.mp hw
        obtain ⟨recordField, hrecord, rfl⟩ := List.mem_map.mp hw
        exact hnone ⟨fire, hfire, heq ▸ hname ▸ hrecord⟩
      have hle := hpacked.stop_le hfield
      have hsized := hpacked.sized field hfield
      have hapart := hpacked.apart hfield hlastmem hne
      unfold Slot.Apart Slot.stop at hapart
      rw [hslot, hsize]
      dsimp only at hapart ⊢
      omega
    have := hfits.size
    omega
  · intro hrecorded
    have hsize : (writeAll (slotOf recorder.recordFormat) (fires.flatMap Fire.values)).length =
        recorder.recordFormat.nextOffset := by
      refine Nat.le_antisymm (length_writeAll_le hstop) ?_
      cases hlast : recorder.recordFormat.fields.getLast? with
      | none =>
        rw [EventFormat.nextOffset, hlast]
        exact Nat.zero_le _
      | some last =>
        obtain ⟨fire, hfire, hname⟩ := hrecorded last hlast
        have hw : (last.name, fire.valueOf last.name) ∈ fires.flatMap Fire.values :=
          List.mem_flatMap.mpr ⟨fire, hfire, List.mem_map.mpr ⟨_, hname, rfl⟩⟩
        obtain ⟨field, -, -, hsize, hslot⟩ := hvalues _ hw
        have hle := @le_length_writeAll _ (slotOf recorder.recordFormat) _ _ hw
        have hslot' := slotOf_eq (hpacked.getField (List.mem_of_getLast? hlast))
        have hsame := hslot.symm.trans hslot'
        rw [Slot.mk.injEq] at hsame
        rw [hsize, hslot] at hle
        rw [nextOffset_eq hlast]
        dsimp only at hle
        omega
    refine ⟨hsize, fun field hfield => ?_⟩
    have hslot := slotOf_eq (hpacked.getField hfield)
    have hheld := @slot_writeAll String (slotOf recorder.recordFormat)
      (fires.flatMap Fire.values) _ field.name ?_ ?_ ?_
    · rw [hslot] at hheld
      exact hheld
    · intro w hw
      obtain ⟨field, -, -, hsize, hslot⟩ := hvalues w hw
      rw [hslot, hsize]
    · intro w hw hne
      obtain ⟨field', hfield', hname, -, hslot'⟩ := hvalues w hw
      rw [hslot, hslot']
      exact hpacked.apart hfield' hfield (by rw [hname]; exact hne)
    · rw [hslot, hsize]
      exact hpacked.stop_le hfield

end Fires

/-- A start that records its id, and a stop that records a size. -/
def startStop : List (Event × RecordEventFlags) :=
  [(⟨1, "Start", ⟨[⟨"Id", "u32", .static, 0, 4⟩]⟩⟩, { recordFields := ["Id"] }),
    (⟨2, "Stop", ⟨[⟨"Size", "u64", .static, 0, 8⟩]⟩⟩, { recordFields := ["Size"] })]

def startFire : Fire := ⟨(Recorder.registerAll startStop).events.get ⟨0, by decide⟩, [7, 0, 0, 0]⟩

def stopFire : Fire :=
  ⟨(Recorder.registerAll startStop).events.get ⟨1, by decide⟩, [1, 2, 3, 4, 5, 6, 7, 8]⟩

theorem startFire_longEnough : startFire.LongEnough := by
  refine Fire.longEnough_of_static (by decide) fun recordField hmem field hfield => ?_
  obtain rfl : recordField = "Id" := List.mem_singleton.mp hmem
  cases hfield
  exact ⟨rfl, by decide⟩

theorem stopFire_longEnough : stopFire.LongEnough := by
  refine Fire.longEnough_of_static (by decide) fun recordField hmem field hfield => ?_
  obtain rfl : recordField = "Size" := List.mem_singleton.mp hmem
  cases hfield
  exact ⟨rfl, by decide⟩

end OneCollect.Exporting
