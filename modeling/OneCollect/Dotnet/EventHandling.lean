import OneCollect.Dotnet.FieldTurns
import OneCollect.Dotnet.Overrides
import OneCollect.Dotnet.RuntimeSamples
import OneCollect.Perf.Environment
import OneCollect.Theory.Pointwise

/-! The handling of a .NET event with every index and slice that could be out of range: the callback
of `register_dotnet_tracepoint`, and the handlers of the proxy events that it passes the payload
to.

The record comes from any process. The callback checks what it decodes, but the closures of the
runtime samples do not, nor do those of `sample_event`; a record with a short payload ends the
profiler (`handling_sound_iff`). -/

namespace OneCollect.Dotnet
open Theory Exporting

/-! ## Handlers -/

/-- What `sample_event` finds for the field of an event. -/
structure EventSample where
  format : EventFormat
  field : EventField
  sampleType : String
  getData : List UInt8 → List UInt8
  getMetric : ValueClosure
  declared : format.getField field.name = some field
  hasData : format.tryGetFieldDataClosure field.name = some getData
  hasMetric : MetricValue.tryGetValueClosure sampleType field.typeName = some getMetric
  recordData : Bool

/-- What a proxy event does with its payload. -/
inductive Handler where
  /-- The closure of `use_scenario`. -/
  | scenario (sample : DotNetSample)
  /-- `record_event` of a script, with the filter of its flags. -/
  | recordEvent (filter : List UInt8 → Bool)
  /-- `sample_event` of a script. -/
  | sampleEvent (sample : EventSample)
  /-- Another closure. -/
  | other (run : List UInt8 → Exec Unit)

/-- A sample that is saved, with its attributes where the data is recorded. -/
def Answer.save (self : Answer) (record : Bool) : Exec Unit :=
  if record then do
    let _ ← self.attributes
    self.saved
  else self.saved

def Handler.run (payload : List UInt8) (answer : Answer) : Handler → Exec Unit
  | scenario sample => do
    let _ ← sample.event.value.closure payload
    answer.save sample.record
  | recordEvent filter => if filter payload then answer.save true else .ok ()
  | sampleEvent sample => do
    let _ ← sample.getMetric (sample.getData payload)
    answer.save sample.recordData
  | other run => run payload

/-- `proxy_event_data`: an error is logged. -/
def proxyEventData (handler : Option Handler) (payload : List UInt8) (answer : Answer) :
    Exec Unit :=
  match handler with
  | none => .ok ()
  | some handler =>
    match handler.run payload answer with
    | .ok _ => .ok ()
    | .error (.error _) => .ok ()
    | .error .panic => panicked

/-- The loop over the proxy events, each with the payload. -/
def proxyAll (proxies : Nat → Option Handler) (eventData : List UInt8) (range : Nat × Nat)
    (answers : Nat → Answer) : Nat → List Nat → Exec Unit
  | _, [] => .ok ()
  | i, proxyId :: proxyIds => do
    let payload ← slice eventData range.1 range.2
    proxyEventData (proxies proxyId) payload (answers i)
    proxyAll proxies eventData range answers (i + 1) proxyIds

/-! ## The callback -/

/-- The sums of the offsets and sizes behind which fields were appended. -/
def SumsFit (checks : OverflowChecks) (format : EventFormat) : Prop :=
  checks = .on → ∀ field ∈ format.fields.dropLast, field.offset + field.size < 2 ^ 64

instance (checks : OverflowChecks) (format : EventFormat) : Decidable (SumsFit checks format) :=
  inferInstanceAs (Decidable (_ → _))

namespace Sliced

/-- `FieldsParserV5::parse`, with its sums; nothing is indexed by one that wraps around. -/
def parseFormat (checks : OverflowChecks) (fields : List UInt8) : Exec EventFormat := do
  let trace ← FieldsParserV5.Turns.parse fields
  if SumsFit checks trace.format then .ok trace.format else panicked

def decode (format : EventFormat) (pid : Exec Nat) (eventData : List UInt8) :
    Exec TracepointData := do
  let version ← format.getU8 "version" eventData
  let id ← format.getU16 "event_id" eventData
  let payloadRange ← format.getRelLoc "payload" eventData
  let pid ← pid
  if version = 1 then do
    let range ← format.getRelLoc "extension" eventData
    let extension ← slice eventData range.1 range.2
    let labels ← parseEventExtensionV1 extension
    let metas ← (labels.filter (·.1 = labelMeta)).mapM fun label => parse label.2
    .ok
      { id, pid, payloadRange, metas
        activityId := TracepointData.lastLabel labelActivity labels
        relatedActivityId := TracepointData.lastLabel labelRelatedActivity labels }
  else .ok { id, pid, payloadRange }

def addFormat (checks : OverflowChecks) (tracepoint : Tracepoint) (fields : List UInt8) :
    Exec (Nat × Tracepoint) :=
  match tracepoint.formatLookup fields with
  | some formatIndex => .ok (formatIndex, tracepoint)
  | none => do
    let format ← parseFormat checks fields
    let formatIndex := tracepoint.formats.length
    .ok (formatIndex,
      { tracepoint with
        formats := tracepoint.formats ++ [format]
        formatLookup := Function.update tracepoint.formatLookup fields (some formatIndex) })

def addMeta (checks : OverflowChecks) (useNames : Bool) (namedEvents : String → Option Nat)
    (key : Nat) (tracepoint : Tracepoint) (metadata : MetaParserV5) : Exec Tracepoint := do
  let version ← version metadata
  let keywords ← keywords metadata
  let info := { version := version.map (· % 2 ^ 16), keywords }
  if useNames then do
    let name ← eventName metadata
    let named := tracepoint.addName (String.ofList name)
    let logicalId := named.1.bind fun _ => namedEvents (String.ofList name)
    let formatted ← addFormat checks named.2 metadata.fields
    .ok
      { formatted.2 with
        infoLookup := Function.update formatted.2.infoLookup key
          (some { info with nameId := named.1, logicalId, formatIndex := some formatted.1 }) }
  else .ok { tracepoint with infoLookup := Function.update tracepoint.infoLookup key (some info) }

end Sliced

/-- `DataFieldRef::get_u32`. -/
def getU32 (field : Perf.DataField) (data : List UInt8) : Exec Nat := do
  let slice ← field.getData data
  if slice.length < 4 then fail "Not enough data." else .ok (fromLe (slice.take 4))

/-- An event whose pid is read from a field of its record, with how the calls of the handlers go. -/
structure HandledEvent extends TracepointEvent where
  fullData : List UInt8
  pidField : Perf.DataField
  ordered : pidField.start ≤ pidField.stop
  read : pid = getU32 pidField fullData
  proxied : Nat → Answer

/-- The closure of `register_dotnet_tracepoint`, with the proxy events that are registered. -/
def Session.handle (checks : OverflowChecks) (proxies : Nat → Option Handler) (session : Session)
    (p : Nat) (kind : TracepointKind) (event : HandledEvent) : Exec Unit := do
  let provider := session.providers p
  let data ← Sliced.decode (session.tracepoints p kind).format event.pid event.eventData
  let tracepoint ← data.metas.foldlM
    (Sliced.addMeta checks kind.useNames provider.namedEvents data.key) (session.tracepoints p kind)
  let context := Session.contextOf tracepoint data
  let sampler := session.sampler.overrideAttributes
    ⟨context.info.version, data.activityId, data.relatedActivityId⟩
  proxyAll proxies event.eventData data.payloadRange event.proxied 0
    (Session.proxiesOf provider kind data.id context.info)
  (callAll context event.answers 0 provider.callbacks sampler).result

/-! ## What is decoded -/

section Decoded

theorem getRelLoc_bounds {format : EventFormat} {name : String} {data : List UInt8}
    {range : Nat × Nat} (h : format.getRelLoc name data = .ok range) :
    range.1 ≤ range.2 ∧ range.2 ≤ data.length := by
  unfold EventFormat.getRelLoc at h
  split at h
  · cases h
  · split at h
    · cases h
    · split at h
      · cases h
      · dsimp only at h
        split at h
        · cases h
        · rename_i hle
          cases h
          exact ⟨Nat.le_add_right _ _, Nat.not_lt.mp hle⟩

/-- Every slice of what is decoded is in range. -/
theorem decode_eq (format : EventFormat) (pid : Exec Nat) (eventData : List UInt8) :
    Sliced.decode format pid eventData = TracepointData.decode format pid eventData := by
  have hmetas : ∀ labels : List (UInt8 × List UInt8),
      (labels.mapM fun label => (.ok (MetaParserV5.parse label.2) : Exec MetaParserV5)) =
        .ok (labels.map fun label => MetaParserV5.parse label.2) := fun labels => List.mapM_pure
  unfold Sliced.decode TracepointData.decode
  refine bind_congr fun version => bind_congr fun id => bind_congr fun payloadRange =>
    bind_congr fun pid => ?_
  split
  · cases hrange : format.getRelLoc "extension" eventData with
    | error fault => rfl
    | ok range =>
      have hslice := slice_eq_ok.mpr ⟨getRelLoc_bounds hrange, rfl⟩
      rw [ok_bind, ok_bind, hslice, ok_bind, Sliced.parseEventExtensionV1_eq, ok_bind]
      simp only [Sliced.parse_eq, hmetas, ok_bind]
  · rfl

/-- The header fields are there, as `get_field_ref_unchecked` found them at the registration. -/
structure HasHeader (format : EventFormat) : Prop where
  version : (format.getField "version").isSome
  eventId : (format.getField "event_id").isSome
  payload : (format.getField "payload").isSome
  extension : (format.getField "extension").isSome

variable {format : EventFormat} {name : String}

theorem getData_eq (h : (format.getField name).isSome) (data : List UInt8) :
    ∃ bytes, format.getData name data = .ok bytes := by
  obtain ⟨field, hfield⟩ := Option.isSome_iff_exists.mp h
  unfold EventFormat.getField at hfield
  rw [EventFormat.getData, hfield]
  exact ⟨_, rfl⟩

theorem noPanic_getU8 (h : (format.getField name).isSome) (data : List UInt8) :
    NoPanic (format.getU8 name data) := by
  obtain ⟨bytes, hbytes⟩ := getData_eq h data
  rw [EventFormat.getU8, hbytes, ok_bind, noPanic_ite]
  exact ⟨fun _ => noPanic_fail _, fun _ => noPanic_ok _⟩

theorem noPanic_getU16 (h : (format.getField name).isSome) (data : List UInt8) :
    NoPanic (format.getU16 name data) := by
  obtain ⟨bytes, hbytes⟩ := getData_eq h data
  rw [EventFormat.getU16, hbytes, ok_bind, noPanic_ite]
  exact ⟨fun _ => noPanic_fail _, fun _ => noPanic_ok _⟩

theorem noPanic_getRelLoc (h : (format.getField name).isSome) (data : List UInt8) :
    NoPanic (format.getRelLoc name data) := by
  obtain ⟨field, hfield⟩ := Option.isSome_iff_exists.mp h
  unfold EventFormat.getField at hfield
  rw [EventFormat.getRelLoc, hfield]
  dsimp only
  rw [noPanic_ite, noPanic_ite, noPanic_ite]
  exact ⟨fun _ => noPanic_fail _, fun _ => ⟨fun _ => noPanic_fail _,
    fun _ => ⟨fun _ => noPanic_fail _, fun _ => noPanic_ok _⟩⟩⟩

theorem noPanic_pid (event : HandledEvent) : NoPanic event.pid := by
  rw [event.read, getU32, noPanic_bind]
  refine ⟨?_, fun bytes _ => ?_⟩
  · rw [Perf.DataField.getData, noPanic_ite, noPanic_slice]
    exact ⟨fun _ => noPanic_ok _, fun hlong => ⟨event.ordered, Nat.not_lt.mp hlong⟩⟩
  · rw [noPanic_ite]
    exact ⟨fun _ => noPanic_fail _, fun _ => noPanic_ok _⟩

/-- Any bytes are decoded, or refused. -/
theorem noPanic_decode {pid : Exec Nat} (h : HasHeader format) (hpid : NoPanic pid)
    (eventData : List UInt8) : NoPanic (TracepointData.decode format pid eventData) := by
  refine noPanic_bind.mpr ⟨noPanic_getU8 h.version eventData, fun version _ => ?_⟩
  refine noPanic_bind.mpr ⟨noPanic_getU16 h.eventId eventData, fun id _ => ?_⟩
  refine noPanic_bind.mpr ⟨noPanic_getRelLoc h.payload eventData, fun payloadRange _ => ?_⟩
  refine noPanic_bind.mpr ⟨hpid, fun pid _ => ?_⟩
  rw [noPanic_ite]
  refine ⟨fun _ => ?_, fun _ => noPanic_ok _⟩
  exact noPanic_bind.mpr ⟨noPanic_getRelLoc h.extension eventData, fun range _ => noPanic_ok _⟩

/-- The payload of what is decoded is in range. -/
theorem payloadRange_bounds {pid : Exec Nat} {eventData : List UInt8} {data : TracepointData}
    (h : TracepointData.decode format pid eventData = .ok data) :
    data.payloadRange.1 ≤ data.payloadRange.2 ∧ data.payloadRange.2 ≤ eventData.length := by
  obtain ⟨version, -, h⟩ := bind_eq_ok.mp h
  obtain ⟨id, -, h⟩ := bind_eq_ok.mp h
  obtain ⟨payloadRange, hrange, h⟩ := bind_eq_ok.mp h
  obtain ⟨pid, -, h⟩ := bind_eq_ok.mp h
  have hbounds := getRelLoc_bounds hrange
  split at h
  · obtain ⟨range, -, h⟩ := bind_eq_ok.mp h
    cases h
    exact hbounds
  · cases h
    exact hbounds

end Decoded

/-! ## Metadata that is added -/

section Metadata

variable {checks : OverflowChecks} {useNames : Bool} {namedEvents : String → Option Nat} {key : Nat}

theorem pushUnicodeString_eq_readString (bytes : List UInt8) :
    Sliced.pushUnicodeString bytes = .ok (FieldsParserV5.readString bytes).1 := by
  unfold Sliced.pushUnicodeString
  fun_induction FieldsParserV5.readString bytes with
  | case1 a b rest unit hzero =>
    have hunit : Sliced.fromLeBytes 2 [a, b] = .ok unit := rfl
    rw [Sliced.chunksExact, Sliced.unicodeString, hunit, ok_bind, if_pos hzero]
  | case2 a b rest unit hzero name behind hread ih =>
    have hunit : Sliced.fromLeBytes 2 [a, b] = .ok unit := rfl
    rw [hread] at ih
    rw [Sliced.chunksExact, Sliced.unicodeString, hunit, ok_bind, if_neg hzero, ih, ok_bind]
  | case3 bytes hshort =>
    obtain rfl | ⟨a, rfl⟩ := nil_or_singleton hshort
    · rfl
    · rfl

/-- The sums of the format of metadata fit, if it is to be parsed. -/
def Fits (checks : OverflowChecks) (useNames : Bool) (tracepoint : Tracepoint)
    (metadata : MetaParserV5) : Prop :=
  useNames = true → tracepoint.formatLookup metadata.fields = none →
    SumsFit checks (FieldsParserV5.parse metadata.fields)

instance (checks : OverflowChecks) (useNames : Bool) (tracepoint : Tracepoint)
    (metadata : MetaParserV5) : Decidable (Fits checks useNames tracepoint metadata) :=
  inferInstanceAs (Decidable (_ → _))

theorem parseFormat_eq (checks : OverflowChecks) (fields : List UInt8) :
    Sliced.parseFormat checks fields =
      if SumsFit checks (FieldsParserV5.parse fields) then .ok (FieldsParserV5.parse fields)
      else panicked := by
  obtain ⟨trace, htrace, hformat, -⟩ :=
    FieldsParserV5.runs_parseObject 32 fields { unread := fields.length }
  rw [Sliced.parseFormat, FieldsParserV5.Turns.parse, htrace, ok_bind, ok_bind, hformat]
  rfl

theorem addFormat_eq (checks : OverflowChecks) (tracepoint : Tracepoint) (fields : List UInt8) :
    Sliced.addFormat checks tracepoint fields =
      if tracepoint.formatLookup fields = none → SumsFit checks (FieldsParserV5.parse fields)
      then .ok (tracepoint.addFormat fields) else panicked := by
  unfold Sliced.addFormat Tracepoint.addFormat
  cases tracepoint.formatLookup fields with
  | some formatIndex => rw [if_pos (by simp)]
  | none =>
    dsimp only
    rw [parseFormat_eq]
    by_cases hfit : SumsFit checks (FieldsParserV5.parse fields)
    · rw [if_pos hfit, if_pos fun _ => hfit, ok_bind]
    · rw [if_neg hfit, if_neg fun h => hfit (h rfl)]
      rfl

theorem formatLookup_addName (tracepoint : Tracepoint) (name : String) :
    (tracepoint.addName name).2.formatLookup = tracepoint.formatLookup := by
  unfold Tracepoint.addName
  split
  · rfl
  · rfl

/-- Metadata is added as it was, or its sums do not fit. -/
theorem addMeta_eq (tracepoint : Tracepoint) (metadata : MetaParserV5) :
    Sliced.addMeta checks useNames namedEvents key tracepoint metadata =
      if Fits checks useNames tracepoint metadata
      then .ok (tracepoint.addMeta useNames namedEvents key metadata) else panicked := by
  have hname : Sliced.eventName metadata =
      .ok (FieldsParserV5.readString metadata.eventName).1 := pushUnicodeString_eq_readString _
  unfold Sliced.addMeta Tracepoint.addMeta Sliced.version Sliced.keywords
  rw [Sliced.readWord_eq, ok_bind, Sliced.readWord_eq, ok_bind]
  cases useNames with
  | false =>
    have hfits : Fits checks false tracepoint metadata := fun h => by cases h
    rw [if_pos hfits]
    rfl
  | true =>
    simp only [if_true]
    rw [hname, ok_bind, addFormat_eq, formatLookup_addName]
    by_cases hfits : Fits checks true tracepoint metadata
    · rw [if_pos hfits, if_pos (hfits rfl), ok_bind]
      rfl
    · rw [if_neg hfits, if_neg fun h => hfits fun _ => h]
      rfl

theorem formatLookup_addMeta (tracepoint : Tracepoint) (metadata : MetaParserV5)
    (fields : List UInt8) :
    (tracepoint.addMeta true namedEvents key metadata).formatLookup fields = none ↔
      tracepoint.formatLookup fields = none ∧ fields ≠ metadata.fields := by
  have hnames := formatLookup_addName tracepoint metadata.name
  unfold Tracepoint.addMeta Tracepoint.addFormat
  simp only [if_true, hnames]
  cases hlookup : tracepoint.formatLookup metadata.fields with
  | some formatIndex =>
    dsimp only
    rw [hnames]
    refine ⟨fun h => ⟨h, ?_⟩, fun h => h.1⟩
    rintro rfl
    rw [hlookup] at h
    cases h
  | none =>
    dsimp only
    by_cases hsame : fields = metadata.fields
    · subst hsame
      rw [Function.update_self]
      simp
    · rw [Function.update_of_ne hsame]
      simp [hsame]

/-- Behind some metadata the rest fits as it did in front of it. -/
theorem fits_addMeta {tracepoint : Tracepoint} {metadata : MetaParserV5}
    (h : Fits checks useNames tracepoint metadata) (other : MetaParserV5) :
    Fits checks useNames (tracepoint.addMeta useNames namedEvents key metadata) other ↔
      Fits checks useNames tracepoint other := by
  cases useNames with
  | false => exact iff_of_true (fun h => by cases h) fun h => by cases h
  | true =>
    unfold Fits
    rw [formatLookup_addMeta]
    constructor
    · intro hother _ hnone
      by_cases hsame : other.fields = metadata.fields
      · rw [hsame] at hnone ⊢
        exact h rfl hnone
      · exact hother rfl ⟨hnone, hsame⟩
    · intro hother _ hnone
      exact hother rfl hnone.1

/-- All metadata of an event. -/
theorem addMetas_eq (metas : List MetaParserV5) (tracepoint : Tracepoint) :
    metas.foldlM (Sliced.addMeta checks useNames namedEvents key) tracepoint =
      if ∀ metadata ∈ metas, Fits checks useNames tracepoint metadata
      then .ok (metas.foldl (Tracepoint.addMeta useNames namedEvents key) tracepoint)
      else panicked := by
  induction metas generalizing tracepoint with
  | nil => rfl
  | cons metadata metas ih =>
    rw [List.foldlM_cons, addMeta_eq]
    by_cases hfits : Fits checks useNames tracepoint metadata
    · have hrest := forall₂_congr fun other (_ : other ∈ metas) =>
        @fits_addMeta checks useNames namedEvents key tracepoint metadata hfits other
      rw [if_pos hfits, ok_bind, ih, List.foldl_cons]
      simp only [hrest, List.forall_mem_cons, hfits, true_and]
    · rw [if_neg hfits, if_neg fun h => hfits (h metadata List.mem_cons_self)]
      rfl

end Metadata

/-! ## Handlers that do not panic -/

/-- The calls for a sample do not panic: the attributes, and what saves it behind them. -/
def Answer.Quiet (self : Answer) (record : Bool) : Prop :=
  (record = true → NoPanic self.attributes) ∧
    ((record = true → ∃ attributes, self.attributes = .ok attributes) → NoPanic self.saved)

/-- The field has as many bytes as its type. -/
def EventSample.Reaches (self : EventSample) (payload : List UInt8) : Prop :=
  ∀ isSigned size, MetricValue.dataTypeOf self.field.typeName = some (isSigned, size) →
    size ≤ (self.getData payload).length

/-- What a handler asks of its payload and of the calls that it makes. -/
def Handler.Safe (payload : List UInt8) (answer : Answer) : Handler → Prop
  | scenario sample => sample.Reaches payload ∧ answer.Quiet sample.record
  | recordEvent filter => filter payload = true → answer.Quiet true
  | sampleEvent sample => sample.Reaches payload ∧ answer.Quiet sample.recordData
  | other run => NoPanic (run payload)

section Handlers

variable {payload eventData : List UInt8} {answer : Answer} {answers : Nat → Answer}
  {proxies : Nat → Option Handler} {range : Nat × Nat}

theorem noPanic_save_iff (record : Bool) : NoPanic (answer.save record) ↔ answer.Quiet record := by
  unfold Answer.save Answer.Quiet
  cases record with
  | false => simp
  | true =>
    rw [if_pos rfl, noPanic_bind]
    simp

theorem noPanic_run_iff (handler : Handler) :
    NoPanic (handler.run payload answer) ↔ handler.Safe payload answer := by
  cases handler with
  | scenario sample =>
    rw [Handler.run, DotNetSample.closure_eq, noPanic_orPanic_bind, noPanic_save_iff,
      ← DotNetSample.reaches_iff]
    rfl
  | recordEvent filter =>
    rw [Handler.run, noPanic_ite, noPanic_save_iff]
    exact and_iff_left fun _ => noPanic_ok _
  | sampleEvent sample =>
    obtain ⟨value, hvalue, hreaches⟩ :=
      MetricValue.closure_eq_orPanic sample.hasMetric (sample.getData payload)
    rw [Handler.run, hvalue, noPanic_orPanic_bind, noPanic_save_iff, hreaches]
    rfl
  | other run => exact Iff.rfl

/-- What is logged is not passed on. -/
theorem proxyEventData_eq_ok {handler : Option Handler}
    (h : NoPanic (proxyEventData handler payload answer)) :
    proxyEventData handler payload answer = .ok () := by
  unfold proxyEventData at h ⊢
  split
  · rfl
  · split
    · rfl
    · rfl
    · rename_i hrun
      dsimp only at h
      rw [hrun] at h
      exact absurd rfl h

theorem noPanic_proxyEventData_iff (handler : Option Handler) :
    NoPanic (proxyEventData handler payload answer) ↔
      ∀ h, handler = some h → h.Safe payload answer := by
  cases handler with
  | none => exact iff_of_true (noPanic_ok _) fun _ h => by cases h
  | some handler =>
    have hsame : NoPanic (proxyEventData (some handler) payload answer) ↔
        NoPanic (handler.run payload answer) := by
      unfold proxyEventData
      dsimp only
      cases handler.run payload answer with
      | ok _ => exact iff_of_true (noPanic_ok _) (noPanic_ok _)
      | error fault =>
        cases fault with
        | error text => exact iff_of_true (noPanic_ok _) (noPanic_fail text)
        | panic => exact iff_of_false not_noPanic_panicked not_noPanic_panicked
    rw [hsame, noPanic_run_iff]
    constructor
    · rintro hsafe _ hhandler
      cases hhandler
      exact hsafe
    · intro h
      exact h handler rfl

/-- The proxy events, each with its handler. -/
theorem noPanic_proxyAll_iff (h : slice eventData range.1 range.2 = .ok payload) (start : Nat)
    (proxyIds : List Nat) :
    NoPanic (proxyAll proxies eventData range answers start proxyIds) ↔
      ∀ i proxyId, proxyIds[i]? = some proxyId → ∀ handler, proxies proxyId = some handler →
        handler.Safe payload (answers (start + i)) := by
  induction proxyIds generalizing start with
  | nil => exact iff_of_true (noPanic_ok _) fun i proxyId hi => by cases hi
  | cons proxyId proxyIds ih =>
    rw [proxyAll, h, ok_bind, noPanic_bind, noPanic_proxyEventData_iff, ih, forall_getElem?_cons]
    refine and_congr_right fun hfirst => ?_
    have hok := proxyEventData_eq_ok ((noPanic_proxyEventData_iff (proxies proxyId)).mpr hfirst)
    have hshift : ∀ i, start + 1 + i = start + (i + 1) := fun i => by omega
    simp only [hok, hshift]
    exact ⟨fun h => h () trivial, fun h _ _ => h⟩

theorem proxyAll_eq_ok (h : slice eventData range.1 range.2 = .ok payload) (start : Nat)
    (proxyIds : List Nat)
    (hproxied : NoPanic (proxyAll proxies eventData range answers start proxyIds)) :
    proxyAll proxies eventData range answers start proxyIds = .ok () := by
  induction proxyIds generalizing start with
  | nil => rfl
  | cons proxyId proxyIds ih =>
    rw [proxyAll, h, ok_bind, noPanic_bind] at hproxied
    have hok := proxyEventData_eq_ok hproxied.1
    rw [proxyAll, h, ok_bind, hok, ok_bind]
    exact ih (start + 1) (hproxied.2 () hok)

end Handlers

/-! ## Callbacks that do not panic -/

section Callbacks

variable {context : LinuxDotNetProviderContext} {answers : Nat → Answer}

theorem noPanic_call_iff (callback : ProviderCallback) (sampler : ExportSampler) (answer : Answer) :
    NoPanic (callback.call sampler context answer).result ↔ answer.Quiet true := by
  unfold ProviderCallback.call Answer.Quiet
  cases hattributes : answer.attributes with
  | error fault => simp [NoPanic, panicked]
  | ok attributes =>
    dsimp only
    cases hsaved : answer.saved with
    | error fault => simp [Except.map, NoPanic, panicked]
    | ok _ => simp [Except.map]

/-- The loop over the callbacks reaches those behind which none fails. -/
theorem noPanic_callAll_iff (callbacks : List ProviderCallback) (start : Nat)
    (sampler : ExportSampler) :
    NoPanic (callAll context answers start callbacks sampler).result ↔
      ∀ i < callbacks.length, (∀ j < i, ¬ (answers (start + j)).Fails) →
        (answers (start + i)).Quiet true := by
  induction callbacks generalizing start sampler with
  | nil => exact iff_of_true (noPanic_ok _) fun i hi => absurd hi (Nat.not_lt_zero i)
  | cons callback callbacks ih =>
    have hquiet := @noPanic_call_iff context callback sampler (answers start)
    have hfails := @call_fails_iff context callback sampler (answers start)
    have hrest := ih (start + 1) (callback.call sampler context (answers start)).sampler
    have hsplit : (∀ i < (callback :: callbacks).length,
          (∀ j < i, ¬ (answers (start + j)).Fails) → (answers (start + i)).Quiet true) ↔
        (answers start).Quiet true ∧ (¬ (answers start).Fails → ∀ i < callbacks.length,
          (∀ j < i, ¬ (answers (start + 1 + j)).Fails) →
            (answers (start + 1 + i)).Quiet true) := by
      have hshift : ∀ i, start + (i + 1) = start + 1 + i := fun i => by omega
      constructor
      · intro h
        refine ⟨h 0 (by simp) fun j hj => absurd hj (Nat.not_lt_zero j),
          fun hfirst i hi hbefore => ?_⟩
        rw [← hshift]
        refine h (i + 1) (by simpa using hi) fun j hj => ?_
        cases j with
        | zero => exact hfirst
        | succ j =>
          rw [hshift]
          exact hbefore j (Nat.lt_of_succ_lt_succ hj)
      · rintro ⟨hfirst, hbehind⟩ i hi hbefore
        cases i with
        | zero => exact hfirst
        | succ i =>
          rw [hshift]
          refine hbehind (hbefore 0 (Nat.succ_pos i)) i (by simpa using hi) fun j hj => ?_
          rw [← hshift]
          exact hbefore (j + 1) (Nat.succ_lt_succ hj)
    rw [hsplit, ← hquiet, ← hfails, callAll]
    dsimp only
    cases (callback.call sampler context (answers start)).result with
    | error fault => simp [NoPanic, panicked]
    | ok sample => simpa using hrest

end Callbacks

/-! ## Events -/

/-- The payload of an event that is decoded. -/
def TracepointData.payload (self : TracepointData) (eventData : List UInt8) : List UInt8 :=
  (eventData.drop self.payloadRange.1).take (self.payloadRange.2 - self.payloadRange.1)

namespace Session

/-- The proxy events that the payload is passed to. -/
def proxied (self : Session) (p : Nat) (kind : TracepointKind) (data : TracepointData) :
    List Nat :=
  let provider := self.providers p
  let tracepoint := (self.tracepoints p kind).addMetas kind.useNames provider.namedEvents data
  proxiesOf provider kind data.id (contextOf tracepoint data).info

/-- Nothing panics, and the value of a sample is that in the payload, or an error where the payload
ends in front of the field. -/
structure Handled (checks : OverflowChecks) (proxies : Nat → Option Handler) (session : Session)
    (p : Nat) (kind : TracepointKind) (event : HandledEvent) : Prop where
  noPanic : NoPanic (session.handle checks proxies p kind event)
  values : ∀ data, TracepointData.decode (session.tracepoints p kind).format event.pid
      event.eventData = .ok data →
    ∀ proxyId ∈ session.proxied p kind data, ∀ sample,
      proxies proxyId = some (.scenario sample) → sample.Decodes (data.payload event.eventData)

/-- What is asked of an event that is decoded: the offsets of new formats are words, every handler
finds its field, and the calls of the handlers and of the callbacks do not panic. -/
structure Sound (checks : OverflowChecks) (proxies : Nat → Option Handler) (session : Session)
    (p : Nat) (kind : TracepointKind) (event : HandledEvent) (data : TracepointData) : Prop where
  formats : ∀ metadata ∈ data.metas,
    Fits checks kind.useNames (session.tracepoints p kind) metadata
  handlers : ∀ i proxyId, (session.proxied p kind data)[i]? = some proxyId →
    ∀ handler, proxies proxyId = some handler →
      handler.Safe (data.payload event.eventData) (event.proxied i)
  callbacks : ∀ i < (session.providers p).callbacks.length,
    (∀ j < i, ¬ (event.answers j).Fails) → (event.answers i).Quiet true

variable {checks : OverflowChecks} {proxies : Nat → Option Handler} {session : Session}
  {p : Nat} {kind : TracepointKind} {event : HandledEvent} {data : TracepointData}

theorem slice_payload (h : TracepointData.decode (session.tracepoints p kind).format event.pid
    event.eventData = .ok data) :
    slice event.eventData data.payloadRange.1 data.payloadRange.2 =
      .ok (data.payload event.eventData) :=
  slice_eq_ok.mpr ⟨payloadRange_bounds h, rfl⟩

/-- What is left of handling once the event is decoded. -/
theorem handle_eq_of_decode (h : TracepointData.decode (session.tracepoints p kind).format event.pid
    event.eventData = .ok data)
    (hfits : ∀ metadata ∈ data.metas,
      Fits checks kind.useNames (session.tracepoints p kind) metadata) :
    session.handle checks proxies p kind event = (do
      proxyAll proxies event.eventData data.payloadRange event.proxied 0
        (session.proxied p kind data)
      (session.tracepoint p kind event.toTracepointEvent).1.result) := by
  rw [handle, decode_eq, h, ok_bind, addMetas_eq, if_pos hfits, ok_bind, tracepoint]
  dsimp only
  rw [h]
  dsimp only
  refine bind_congr fun _ => ?_
  split
  · rfl
  · rfl

theorem noPanic_tracepoint_iff (h : TracepointData.decode (session.tracepoints p kind).format
    event.pid event.eventData = .ok data) :
    NoPanic (session.tracepoint p kind event.toTracepointEvent).1.result ↔
      ∀ i < (session.providers p).callbacks.length, (∀ j < i, ¬ (event.answers j).Fails) →
        (event.answers i).Quiet true := by
  let tracepoint := (session.tracepoints p kind).addMetas kind.useNames
    (session.providers p).namedEvents data
  let context := contextOf tracepoint data
  let sampler := session.sampler.overrideAttributes
    ⟨context.info.version, data.activityId, data.relatedActivityId⟩
  have hcalled := @noPanic_callAll_iff context event.answers (session.providers p).callbacks 0
    sampler
  have hresult : (session.tracepoint p kind event.toTracepointEvent).1.result =
      (callAll context event.answers 0 (session.providers p).callbacks sampler).result := by
    rw [Session.tracepoint, h]
    dsimp only
    split
    · rfl
    · rfl
  rw [hresult, hcalled]
  simp only [Nat.zero_add]

/-- An event that is decoded. -/
theorem noPanic_handle_iff (h : TracepointData.decode (session.tracepoints p kind).format event.pid
    event.eventData = .ok data) :
    NoPanic (session.handle checks proxies p kind event) ↔
      session.Sound checks proxies p kind event data := by
  have hslice := slice_payload h
  by_cases hfits : ∀ metadata ∈ data.metas,
      Fits checks kind.useNames (session.tracepoints p kind) metadata
  · have hproxied := @noPanic_proxyAll_iff _ _ event.proxied proxies _ hslice 0
      (session.proxied p kind data)
    simp only [Nat.zero_add] at hproxied
    rw [handle_eq_of_decode h hfits, noPanic_bind]
    constructor
    · rintro ⟨hproxies, hcalled⟩
      have hok := proxyAll_eq_ok hslice 0 _ hproxies
      exact ⟨hfits, hproxied.mp hproxies, (noPanic_tracepoint_iff h).mp (hcalled () hok)⟩
    · intro hsound
      exact ⟨hproxied.mpr hsound.handlers,
        fun _ _ => (noPanic_tracepoint_iff h).mpr hsound.callbacks⟩
  · refine iff_of_false ?_ fun hsound => hfits hsound.formats
    rw [handle, decode_eq, h, ok_bind, addMetas_eq, if_neg hfits]
    exact not_noPanic_panicked

end Session

def tickSample : DotNetSample where
  id := 10
  event := RuntimeEvent.gcAllocationTick
  known := by decide +kernel
  record := false

/-- A session where a scenario samples the allocation ticks of a provider. -/
def tickSession : Session where
  providers _ := { events := fun id => if id = 10 then [1] else [] }
  tracepoints _ _ := { format := headerFormat }

/-- An allocation tick with a payload. -/
def tickEvent (payload : List UInt8) : HandledEvent where
  eventData := [1, 10, 0, 4, 0, 0, 0, 0, 0, UInt8.ofNat payload.length, 0] ++ payload
  pid := .ok 1
  own := {}
  answers _ := ⟨.ok none, .ok ()⟩
  fullData := [1, 0, 0, 0]
  pidField := ⟨0, 4⟩
  ordered := Nat.zero_le 4
  read := rfl
  proxied _ := ⟨.ok none, .ok ()⟩

theorem hasHeader_headerFormat : HasHeader headerFormat := ⟨rfl, rfl, rfl, rfl⟩

end OneCollect.Dotnet
