import OneCollect.Dotnet.Overrides
import OneCollect.Dotnet.RecordTypes
import Mathlib.Data.List.Induction

/-! Record types of .NET events over runs, against record types that are built for every event from
the latest metadata of its pid and event id.

The callback of `record_provider` keeps the record type of the first event with a pid and an event
id. So a sample has the kind, the name and the format of the latest metadata exactly when they are
those of that first event (`recordTypes_transparent_iff`). -/

namespace OneCollect.Dotnet
open Theory Exporting

/-! ## Runs -/

theorem id_lt_of_decode {format : EventFormat} {pid : Exec Nat} {eventData : List UInt8}
    {data : TracepointData} (h : TracepointData.decode format pid eventData = .ok data) :
    data.id < 2 ^ 16 := by
  unfold TracepointData.decode at h
  obtain ⟨version, -, h⟩ := bind_eq_ok.mp h
  obtain ⟨id, hid, h⟩ := bind_eq_ok.mp h
  obtain ⟨payloadRange, -, h⟩ := bind_eq_ok.mp h
  obtain ⟨pid, -, h⟩ := bind_eq_ok.mp h
  have hlt : id < 2 ^ 16 := by
    obtain ⟨slice, -, hslice⟩ := bind_eq_ok.mp hid
    split at hslice
    · exact absurd hslice (by simp)
    · rename_i hlength
      cases hslice
      have hbound := fromLe_lt (slice.take 2)
      rw [List.length_take, Nat.min_eq_left (by omega)] at hbound
      exact hbound
  split at h
  · obtain ⟨range, -, h⟩ := bind_eq_ok.mp h
    cases h
    exact hlt
  · cases h
    exact hlt

/-- A provider before its first event: its proxy events, and its recorders with their names, guids
and keywords with call stacks. -/
structure ProviderSetup where
  events : Nat → List Nat := fun _ => []
  namedEvents : String → Option Nat := fun _ => none
  logicalEvents : Nat → List Nat := fun _ => []
  recorders : List (String × Guid × Nat)

def ProviderSetup.provider (self : ProviderSetup) : LinuxDotNetProvider :=
  { events := self.events
    namedEvents := self.namedEvents
    logicalEvents := self.logicalEvents
    callbacks := self.recorders.map fun recorder =>
      { providerName := recorder.1, provider := recorder.2.1, callstackKeywords := recorder.2.2 } }

namespace Session

variable (formats : Nat → TracepointKind → EventFormat)

/-- The metadata of an event for a key of a tracepoint. -/
def metasOf (p : Nat) (kind : TracepointKind) (key : Nat) : Action → List MetaParserV5
  | .tracepoint p' kind' event =>
    if p' = p ∧ kind' = kind then
      match TracepointData.decode (formats p kind) event.pid event.eventData with
      | .ok data => if data.key = key then data.metas else []
      | .error _ => []
    else []
  | .other _ => []

/-- The latest metadata that a tracepoint has seen for a key. -/
def latestMeta (p : Nat) (kind : TracepointKind) (key : Nat) (actions : List Action) :
    Option MetaParserV5 :=
  (actions.flatMap (metasOf formats p kind key)).getLast?

/-- What an event with a key is by the metadata seen up to it, if it reaches the recorder `i` of the
provider. -/
def describedFor (p i key : Nat) (before : List Action) (action : Action) : Option Described :=
  match action with
  | .tracepoint p' kind event =>
    if p' = p then
      match TracepointData.decode (formats p kind) event.pid event.eventData with
      | .ok data =>
        if data.key = key ∧ reached event.answers 0 i then
          some (describe kind.useNames data.id (latestMeta formats p kind key (before ++ [action])))
        else none
      | .error _ => none
    else none
  | .other _ => none

def scan (p i key : Nat) (scanned : List Action × Option Described) (action : Action) :
    List Action × Option Described :=
  (scanned.1 ++ [action], scanned.2.or (describedFor formats p i key scanned.1 action))

/-- What the first event with a key was that reached a recorder. -/
def firstDescribed (p i key : Nat) (actions : List Action) : Option Described :=
  (actions.foldl (scan formats p i key) ([], none)).2

variable {formats}

theorem firstDescribed_concat (p i key : Nat) (actions : List Action) (action : Action) :
    firstDescribed formats p i key (actions ++ [action]) =
      (firstDescribed formats p i key actions).or
        (describedFor formats p i key actions action) := by
  have hscanned : ∀ (actions : List Action) (scanned : List Action × Option Described),
      (actions.foldl (scan formats p i key) scanned).1 = scanned.1 ++ actions := by
    intro actions
    induction actions with
    | nil => exact fun scanned => (List.append_nil _).symm
    | cons first actions ih =>
      intro scanned
      rw [List.foldl_cons, ih, scan, List.append_assoc]
      rfl
  have hbefore := hscanned actions ([], none)
  unfold firstDescribed
  rw [List.foldl_append, List.foldl_cons, List.foldl_nil, scan, hbefore]
  rfl

theorem latestMeta_concat (p : Nat) (kind : TracepointKind) (key : Nat) (actions : List Action)
    (action : Action) :
    latestMeta formats p kind key (actions ++ [action]) =
      (metasOf formats p kind key action).getLast?.or (latestMeta formats p kind key actions) := by
  rw [latestMeta, List.flatMap_append, List.getLast?_append, List.flatMap_singleton]
  rfl

/-- The ids of a provider have room in the keys, and those of the exporter in 16 bits. -/
structure Roomy (session : Session) : Prop where
  sampler : session.sampler.Roomy
  names : ∀ p, (session.tracepoints p .all).eventNames.strings.length ≤ 2 ^ 31
  formats : ∀ p, (session.tracepoints p .all).formats.length ≤ 2 ^ 32

/-- What the session has after events. -/
structure Follows (session : Session) (setups : Nat → ProviderSetup)
    (formats : Nat → TracepointKind → EventFormat) (actions : List Action) : Prop where
  format : ∀ p kind, (session.tracepoints p kind).format = formats p kind
  tracepoints : ∀ p kind, (session.tracepoints p kind).Sound kind.useNames
    fun key => latestMeta formats p kind key actions
  recorders : ∀ p, (session.providers p).callbacks.length = (setups p).recorders.length
  callbacks : ∀ (p i : Nat) (callback : ProviderCallback),
    (session.providers p).callbacks[i]? = some callback →
      (∃ recorder, (setups p).recorders[i]? = some recorder ∧
        callback.fullName = eventFullName recorder.1 recorder.2.1) ∧
      callback.Keeps (fun key => firstDescribed formats p i key actions)
        (session.tracepoints p .all) session.sampler

/-- The samples that an event saves have the record types of the first events with its key. -/
def SavesFirst (session session' : Session) (setups : Nat → ProviderSetup)
    (formats : Nat → TracepointKind → EventFormat) (actions : List Action) : Action → Prop
  | .tracepoint p kind event =>
    ∀ data, TracepointData.decode (formats p kind) event.pid event.eventData = .ok data →
      ∀ i sample, (i, sample) ∈ (session.tracepoint p kind event).1.samples →
        ∃ recorder described, (setups p).recorders[i]? = some recorder ∧
          firstDescribed formats p i data.key (actions ++ [.tracepoint p kind event]) =
            some described ∧
          HasType session'.sampler (eventFullName recorder.1 recorder.2.1 described.name)
            described.format sample.recordType
  | .other _ => True

section Step

variable {setups : Nat → ProviderSetup} {session : Session} {actions : List Action}

/-- Nothing new for the callbacks of a provider. -/
theorem keeps_of_not_described {p i : Nat} {callback : ProviderCallback} {action : Action}
    {tracepoint tracepoint' : Tracepoint} {sampler sampler' : ExportSampler}
    (h : callback.Keeps (fun key => firstDescribed formats p i key actions) tracepoint sampler)
    (hnone : ∀ key, describedFor formats p i key actions action = none)
    (htracepoint : tracepoint.Grows tracepoint') (hsampler : sampler.Grows sampler') :
    callback.Keeps (fun key => firstDescribed formats p i key (actions ++ [action])) tracepoint'
      sampler' := by
  have hsame : (fun key => firstDescribed formats p i key (actions ++ [action])) =
      fun key => firstDescribed formats p i key actions := by
    funext key
    rw [firstDescribed_concat, hnone key, Option.or_none]
  rw [hsame]
  exact h.grows htracepoint hsampler

/-- Nothing new for a tracepoint. -/
theorem sound_of_no_metas {p : Nat} {kind : TracepointKind} {action : Action}
    {tracepoint : Tracepoint}
    (h : tracepoint.Sound kind.useNames fun key => latestMeta formats p kind key actions)
    (hnone : ∀ key, metasOf formats p kind key action = []) :
    tracepoint.Sound kind.useNames
      fun key => latestMeta formats p kind key (actions ++ [action]) := by
  have hsame : (fun key => latestMeta formats p kind key (actions ++ [action])) =
      fun key => latestMeta formats p kind key actions := by
    funext key
    rw [latestMeta_concat, hnone key]
    rfl
  rw [hsame]
  exact h

theorem other_grows (session : Session) (event : OtherEvent) :
    session.sampler.Grows (session.other event).2.sampler := by
  have hkinds : session.sampler.Grows (event.kinds.foldl
      (fun sampler kind => (sampler.sampleKind kind).2) session.sampler) :=
    List.foldlRecOn event.kinds _ (.refl session.sampler) fun sampler h kind _ =>
      h.trans (sampleKind_grows sampler kind)
  exact List.foldlRecOn event.recordTypes _ hkinds fun sampler h recordType _ =>
    h.trans (recordType_grows sampler recordType)

theorem Follows.other (h : session.Follows setups formats actions) (event : OtherEvent) :
    (session.other event).2.Follows setups formats (actions ++ [.other event]) where
  format := h.format
  tracepoints p kind := sound_of_no_metas (h.tracepoints p kind) fun _ => rfl
  recorders := h.recorders
  callbacks p i callback hget := by
    obtain ⟨hrecorder, hkeeps⟩ := h.callbacks p i callback hget
    exact ⟨hrecorder, keeps_of_not_described hkeeps (fun _ => rfl) (.refl _)
      (session.other_grows event)⟩

/-- An event that does not decode changes nothing. -/
theorem Follows.undecoded (h : session.Follows setups formats actions) {p : Nat}
    {kind : TracepointKind} {event : TracepointEvent} {fault : Fault}
    (hdecode : TracepointData.decode (formats p kind) event.pid event.eventData = .error fault) :
    session.Follows setups formats (actions ++ [.tracepoint p kind event]) where
  format := h.format
  tracepoints p' kind' := by
    refine sound_of_no_metas (h.tracepoints p' kind') fun key => ?_
    rw [metasOf]
    split
    · rename_i heq
      rw [← heq.1, ← heq.2, hdecode]
    · rfl
  recorders := h.recorders
  callbacks p' i callback hget := by
    obtain ⟨hrecorder, hkeeps⟩ := h.callbacks p' i callback hget
    refine ⟨hrecorder, keeps_of_not_described hkeeps (fun key => ?_) (.refl _) (.refl _)⟩
    unfold describedFor
    dsimp only
    split
    · rename_i heq
      rw [← heq, hdecode]
    · rfl

end Step

/-- The tracepoint with the metadata of an event. -/
def added (session : Session) (p : Nat) (kind : TracepointKind) (data : TracepointData) :
    Tracepoint :=
  (session.tracepoints p kind).addMetas kind.useNames (session.providers p).namedEvents data

/-- How the callbacks end for an event. -/
def calledFor (session : Session) (p : Nat) (kind : TracepointKind) (event : TracepointEvent)
    (data : TracepointData) : CalledAll :=
  let context := contextOf (session.added p kind data) data
  callAll context event.answers 0 (session.providers p).callbacks
    (session.sampler.overrideAttributes
      ⟨context.info.version, data.activityId, data.relatedActivityId⟩)

section Decoded

variable {setups : Nat → ProviderSetup} {session : Session} {actions : List Action} {p : Nat}
  {kind : TracepointKind} {event : TracepointEvent} {data : TracepointData}

theorem tracepoint_ok
    (h : TracepointData.decode (session.tracepoints p kind).format event.pid event.eventData =
      .ok data) :
    (session.tracepoint p kind event).1.samples =
        (session.calledFor p kind event data).samples ∧
      (session.tracepoint p kind event).2.tracepoints =
        Function.update session.tracepoints p
          (Function.update (session.tracepoints p) kind (session.added p kind data)) ∧
      (session.tracepoint p kind event).2.providers =
        Function.update session.providers p { session.providers p with
          callbacks := (session.calledFor p kind event data).callbacks } ∧
      (session.calledFor p kind event data).sampler.Grows
        (session.tracepoint p kind event).2.sampler := by
  unfold Session.tracepoint
  dsimp only
  rw [h]
  dsimp only
  split
  · exact ⟨rfl, rfl, rfl, .refl _⟩
  · exact ⟨rfl, rfl, rfl, List.prefix_refl _, List.prefix_refl _⟩

/-- The tracepoints after an event: one of them has its metadata. -/
theorem tracepoints_ok
    (h : TracepointData.decode (session.tracepoints p kind).format event.pid event.eventData =
      .ok data) (p' : Nat) (kind' : TracepointKind) :
    (session.tracepoint p kind event).2.tracepoints p' kind' =
      if p' = p ∧ kind' = kind then session.added p kind data
      else session.tracepoints p' kind' := by
  rw [(tracepoint_ok h).2.1]
  by_cases hp : p' = p
  · rw [hp, Function.update_self]
    by_cases hkind : kind' = kind
    · rw [hkind, Function.update_self, if_pos ⟨rfl, rfl⟩]
    · rw [Function.update_of_ne hkind, if_neg fun heq => hkind heq.2]
  · rw [Function.update_of_ne hp, if_neg fun heq => hp heq.1]

theorem latestMeta_decoded
    (hdecode : TracepointData.decode (formats p kind) event.pid event.eventData = .ok data)
    (key : Nat) :
    latestMeta formats p kind key (actions ++ [.tracepoint p kind event]) =
      if key = data.key then (data.metas.getLast?).or (latestMeta formats p kind key actions)
      else latestMeta formats p kind key actions := by
  rw [latestMeta_concat, metasOf, if_pos ⟨rfl, rfl⟩, hdecode]
  dsimp only
  by_cases hkey : key = data.key
  · rw [if_pos hkey, if_pos hkey.symm]
  · rw [if_neg hkey, if_neg (Ne.symm hkey)]
    rfl

/-- The metadata of an event is added to its tracepoint. -/
theorem Follows.added (h : session.Follows setups formats actions)
    (hdecode : TracepointData.decode (formats p kind) event.pid event.eventData = .ok data) :
    (session.added p kind data).Sound kind.useNames (fun key =>
        latestMeta formats p kind key (actions ++ [.tracepoint p kind event])) ∧
      (session.tracepoints p kind).Grows (session.added p kind data) := by
  obtain ⟨hadded, hgrows⟩ :=
    (h.tracepoints p kind).addMetas (session.providers p).namedEvents data
  have hlatest := funext fun key => @latestMeta_decoded formats actions p kind event data hdecode key
  rw [hlatest]
  exact ⟨hadded, hgrows⟩

/-- All tracepoints have the metadata up to the event. -/
theorem Follows.tracepoints_decoded (h : session.Follows setups formats actions)
    (hdecode : TracepointData.decode (formats p kind) event.pid event.eventData = .ok data)
    (p' : Nat) (kind' : TracepointKind) :
    ((session.tracepoint p kind event).2.tracepoints p' kind').Sound kind'.useNames
        (fun key => latestMeta formats p' kind' key (actions ++ [.tracepoint p kind event])) ∧
      (session.tracepoints p' kind').Grows
        ((session.tracepoint p kind event).2.tracepoints p' kind') ∧
      ((session.tracepoint p kind event).2.tracepoints p' kind').format = formats p' kind' := by
  have hdecode' := hdecode
  rw [← h.format p kind] at hdecode'
  rw [tracepoints_ok hdecode']
  split
  · rename_i heq
    obtain ⟨rfl, rfl⟩ := heq
    obtain ⟨hsound, hgrows⟩ := h.added hdecode
    exact ⟨hsound, hgrows, (format_addMetas ..).trans (h.format p' kind')⟩
  · rename_i hne
    refine ⟨sound_of_no_metas (h.tracepoints p' kind') fun key => ?_, .refl _, h.format p' kind'⟩
    rw [metasOf, if_neg fun heq => hne ⟨heq.1.symm, heq.2.symm⟩]

/-- A callback that the event reaches has seen one more event. -/
theorem firstDescribed_decoded
    (hdecode : TracepointData.decode (formats p kind) event.pid event.eventData = .ok data)
    (i : Nat) :
    (fun key => firstDescribed formats p i key (actions ++ [.tracepoint p kind event])) =
      if reached event.answers 0 i then
        addFirst (fun key => firstDescribed formats p i key actions) data.key
          (describe kind.useNames data.id
            (latestMeta formats p kind data.key (actions ++ [.tracepoint p kind event])))
      else fun key => firstDescribed formats p i key actions := by
  funext key
  rw [firstDescribed_concat, describedFor, if_pos rfl, hdecode]
  dsimp only
  by_cases hreached : reached event.answers 0 i
  · rw [if_pos hreached, addFirst]
    by_cases hkey : key = data.key
    · rw [if_pos hkey, if_pos ⟨hkey.symm, hreached⟩, hkey]
    · rw [if_neg hkey, if_neg fun heq => hkey heq.1.symm, Option.or_none]
  · rw [if_neg hreached, if_neg fun heq => hreached heq.2, Option.or_none]

/-- An event that decodes: every callback that it reaches has seen one more event. -/
theorem Follows.decoded (h : session.Follows setups formats actions)
    (hdecode : TracepointData.decode (formats p kind) event.pid event.eventData = .ok data)
    (hroom : (session.tracepoint p kind event).2.Roomy) :
    (session.tracepoint p kind event).2.Follows setups formats
        (actions ++ [.tracepoint p kind event]) ∧
      SavesFirst session (session.tracepoint p kind event).2 setups formats actions
        (.tracepoint p kind event) := by
  have hdecode' := hdecode
  rw [← h.format p kind] at hdecode'
  obtain ⟨hsamples, -, hproviders, hcalled⟩ := tracepoint_ok hdecode'
  have hafter := h.tracepoints_decoded hdecode
  have hsound := (h.added hdecode).1
  let context := contextOf (session.added p kind data) data
  let sampler := session.sampler.overrideAttributes
    ⟨context.info.version, data.activityId, data.relatedActivityId⟩
  have hmeans : Means ((session.tracepoint p kind event).2.tracepoints p .all) context.formatKey
      context.described := by
    refine means_contextOf hsound (fun huse => ?_) (hafter p .all).1.default
      (id_lt_of_decode hdecode)
    have hkind : kind = .all := by simpa [TracepointKind.useNames] using huse
    rw [tracepoints_ok hdecode', if_pos ⟨rfl, hkind.symm⟩]
  have hkept : ∀ (i : Nat) (callback : ProviderCallback),
      (session.providers p).callbacks[i]? = some callback →
        callback.Keeps (fun key => firstDescribed formats p i key actions)
          ((session.tracepoint p kind event).2.tracepoints p .all) sampler :=
    fun i callback hget => (h.callbacks p i callback hget).2.grows (hafter p .all).2.1
      ⟨List.prefix_refl _, List.prefix_refl _⟩
  obtain ⟨hcallbacks, hsaved⟩ := callAll_spec hkept hmeans (hroom.names p) (hroom.formats p)
    (hroom.sampler.of_grows hcalled)
  have hfirst : ∀ i, (if reached event.answers 0 i then
      addFirst (fun key => firstDescribed formats p i key actions) context.key context.described
      else fun key => firstDescribed formats p i key actions) =
        fun key => firstDescribed formats p i key (actions ++ [.tracepoint p kind event]) := by
    intro i
    rw [firstDescribed_decoded hdecode i, ← described_contextOf hsound data]
    rfl
  refine ⟨⟨fun p' kind' => (hafter p' kind').2.2, fun p' kind' => (hafter p' kind').1,
    fun p' => ?_, fun p' i callback hget => ?_⟩, ?_⟩
  · rw [hproviders]
    by_cases hp : p' = p
    · subst hp
      rw [Function.update_self]
      exact (length_callAll ..).trans (h.recorders p')
    · rw [Function.update_of_ne hp]
      exact h.recorders p'
  · rw [hproviders] at hget
    by_cases hp : p' = p
    · subst hp
      rw [Function.update_self] at hget
      obtain ⟨callback', hget', hname, hkeeps⟩ := hcallbacks i callback hget
      obtain ⟨recorder, hrecorder, hfullName⟩ := (h.callbacks p' i callback' hget').1
      rw [hfirst i] at hkeeps
      exact ⟨⟨recorder, hrecorder, hname.trans hfullName⟩, hkeeps.grows (.refl _) hcalled⟩
    · rw [Function.update_of_ne hp] at hget
      obtain ⟨hrecorder, hkeeps⟩ := h.callbacks p' i callback hget
      have hcalls := @callAll_grows context event.answers (session.providers p).callbacks 0 sampler
      refine ⟨hrecorder, keeps_of_not_described hkeeps (fun key => ?_) (hafter p' .all).2.1
        (ExportSampler.Grows.trans ⟨hcalls.kinds, hcalls.recordTypes⟩ hcalled)⟩
      rw [describedFor]
      exact if_neg (Ne.symm hp)
  · intro data' hdata i sample hmem
    rw [hdecode] at hdata
    cases hdata
    rw [hsamples] at hmem
    obtain ⟨j, callback, described, hj, hget, hreached, hfirst', htype⟩ := hsaved i sample hmem
    obtain rfl : i = j := by omega
    obtain ⟨recorder, hrecorder, hfullName⟩ := (h.callbacks p i callback hget).1
    refine ⟨recorder, described, hrecorder, ?_, hfullName ▸ htype.grows hcalled⟩
    have hthis := congrFun (hfirst i) data.key
    rw [if_pos hreached] at hthis
    exact hthis.symm.trans hfirst'

end Decoded

end Session

/-! ## Transparency -/

namespace Session

variable (setups : Nat → ProviderSetup) (formats : Nat → TracepointKind → EventFormat)

/-- Every sample has the kind, the name and the format of the latest metadata of its key. -/
def Transparent (session : Session) (before : List Action) : Action → Prop
  | .tracepoint p kind event =>
    ∀ data, TracepointData.decode (formats p kind) event.pid event.eventData = .ok data →
      ∀ i sample, (i, sample) ∈ (session.tracepoint p kind event).1.samples →
        ∀ recorder, (setups p).recorders[i]? = some recorder →
          let described := describe kind.useNames data.id
            (latestMeta formats p kind data.key (before ++ [.tracepoint p kind event]))
          HasType (session.tracepoint p kind event).2.sampler
            (eventFullName recorder.1 recorder.2.1 described.name) described.format
            sample.recordType
  | .other _ => True

/-- An event that is saved is what the first event with its key was that reached the recorder. -/
def Steady (before : List Action) : Action → Prop
  | .tracepoint p kind event =>
    ∀ data, TracepointData.decode (formats p kind) event.pid event.eventData = .ok data →
      ∀ i < (setups p).recorders.length, reached event.answers 0 i →
        (event.answers i).saved.isOk →
          firstDescribed formats p i data.key (before ++ [.tracepoint p kind event]) =
            some (describe kind.useNames data.id
              (latestMeta formats p kind data.key (before ++ [.tracepoint p kind event])))
  | .other _ => True

/-- The session before the first event of any provider. -/
def fresh (kinds : List String) (recordTypes : List ExportRecordType) : Session :=
  start kinds recordTypes (fun p => (setups p).provider)
    fun p kind => { format := formats p kind }

variable {setups formats}

theorem follows_fresh (kinds : List String) (recordTypes : List ExportRecordType) :
    (fresh setups formats kinds recordTypes).Follows setups formats [] where
  format _ _ := rfl
  tracepoints _ _ := ⟨rfl, fun _ _ h => (nomatch h), fun _ => trivial⟩
  recorders _ := List.length_map ..
  callbacks p i callback hget := by
    obtain ⟨recorder, hrecorder, rfl⟩ := Option.map_eq_some_iff.mp
      ((List.getElem?_map ..).symm.trans hget)
    exact ⟨⟨recorder, hrecorder, rfl⟩, fun _ _ => rfl, fun _ _ h => (nomatch h),
      fun _ _ h => (nomatch h)⟩

/-- One event. -/
theorem Follows.act {session : Session} {before : List Action}
    (h : session.Follows setups formats before) {action : Action}
    (hroom : (session.act action).2.Roomy) :
    (session.act action).2.Follows setups formats (before ++ [action]) ∧
      SavesFirst session (session.act action).2 setups formats before action := by
  cases action with
  | other event => exact ⟨h.other event, trivial⟩
  | tracepoint p kind event =>
    cases hdecode : TracepointData.decode (formats p kind) event.pid event.eventData with
    | error fault =>
      have hact : session.act (.tracepoint p kind event) =
          (⟨.error fault, none, [], []⟩, session) := by
        rw [Session.act, Session.tracepoint, h.format, hdecode]
      rw [hact]
      refine ⟨h.undecoded hdecode, fun data hdata => ?_⟩
      rw [hdecode] at hdata
      cases hdata
    | ok data => exact h.decoded hdecode hroom

/-- A run of events. -/
theorem follows_after {kinds : List String} {recordTypes : List ExportRecordType}
    {actions : List Action}
    (hroom : ∀ before, before <+: actions →
      ((fresh setups formats kinds recordTypes).after before).Roomy)
    {before : List Action} (hpart : before <+: actions) :
    ((fresh setups formats kinds recordTypes).after before).Follows setups formats before := by
  induction before using List.reverseRecOn with
  | nil => exact follows_fresh kinds recordTypes
  | append_singleton before action ih =>
    have hbefore := ih (prefix_of_concat hpart)
    have hafter := hroom _ hpart
    rw [after_concat] at hafter ⊢
    exact (hbefore.act hafter).1

/-- One event: its samples are transparent exactly when it is what the first event with its key
was. -/
theorem transparent_iff_steady {session : Session} {before : List Action}
    (h : session.Follows setups formats before) {action : Action}
    (hroom : (session.act action).2.Roomy) :
    Transparent setups formats session before action ↔ Steady setups formats before action := by
  cases action with
  | other event => exact Iff.rfl
  | tracepoint p kind event =>
    obtain ⟨-, hsaves⟩ := h.act hroom
    constructor
    · intro htransparent data hdecode i hi hreached hsaved
      have hdecode' := hdecode
      rw [← h.format p kind] at hdecode'
      obtain ⟨hsamples, -⟩ := tracepoint_ok hdecode'
      obtain ⟨sample, hmem⟩ :
          ∃ sample, (i, sample) ∈ (session.tracepoint p kind event).1.samples := by
        rw [hsamples]
        exact callAll_samples.mpr ⟨i, (h.recorders p).symm ▸ hi, (Nat.zero_add i).symm, hreached,
          (Nat.zero_add i).symm ▸ hsaved⟩
      obtain ⟨recorder, described, hrecorder, hfirst, htype⟩ := hsaves data hdecode i sample hmem
      have hlatest := htransparent data hdecode i sample hmem recorder hrecorder
      -- the sample has one name and one format
      obtain ⟨hname, hformat⟩ := htype.unique hlatest
      rw [hfirst]
      exact congrArg some (Described.ext (eventFullName_inj hname) hformat)
    · intro hsteady data hdecode i sample hmem recorder hrecorder
      have hdecode' := hdecode
      rw [← h.format p kind] at hdecode'
      obtain ⟨hsamples, -⟩ := tracepoint_ok hdecode'
      obtain ⟨recorder', described, hrecorder', hfirst, htype⟩ := hsaves data hdecode i sample hmem
      cases Option.some.inj (hrecorder'.symm.trans hrecorder)
      rw [hsamples] at hmem
      obtain ⟨j, hj, hij, hreached, hsaved⟩ := callAll_samples.mp ⟨sample, hmem⟩
      rw [Nat.zero_add] at hij hsaved
      subst hij
      have hlatest := hsteady data hdecode i (h.recorders p ▸ hj) hreached hsaved
      cases Option.some.inj (hfirst.symm.trans hlatest)
      exact htype

end Session

/-- **Record types** are transparent, exactly when every saved event has the name and the format
that the first event with its key had. -/
theorem recordTypes_transparent_iff (setups : Nat → ProviderSetup)
    (formats : Nat → TracepointKind → EventFormat) (kinds : List String)
    (recordTypes : List ExportRecordType) (actions : List Session.Action)
    (hroom : ∀ before, before <+: actions →
      ((Session.fresh setups formats kinds recordTypes).after before).Roomy) :
    (∀ before action, before ++ [action] <+: actions →
        Session.Transparent setups formats
          ((Session.fresh setups formats kinds recordTypes).after before) before action) ↔
      ∀ before action, before ++ [action] <+: actions →
        Session.Steady setups formats before action := by
  refine forall_congr' fun before => forall_congr' fun action => forall_congr' fun hprefix => ?_
  have hafter := hroom _ hprefix
  rw [Session.after_concat] at hafter
  exact Session.transparent_iff_steady
    (Session.follows_after hroom (Session.prefix_of_concat hprefix)) hafter

/-! ## A name that changes -/

/-- A provider that is recorded, before its first event. -/
def recordedSetup : ProviderSetup :=
  { recorders := [("Provider", ⟨1, 2, 3, [4, 5, 6, 7, 8, 9, 10, 11]⟩, 0)] }

/-- An event 5 with metadata that has a name of one letter. -/
def namedEvent (letter : UInt8) : TracepointEvent :=
  { eventData := [1, 5, 0, 4, 0, 31, 0, 0, 0, 0, 0, 1, 26, 0, 0, 0] ++ [0, 0] ++ [5, 0, 0, 0] ++
      [letter, 0, 0, 0] ++ List.replicate 8 0 ++ [1, 0, 0, 0] ++ [4, 0, 0, 0]
    pid := .ok 1
    own := {}
    answers := fun _ => ⟨.ok none, .ok ()⟩ }

/-- The event `A` of a process, and then the event `B` with the same id. -/
def renamedEvents : List Session.Action :=
  [.tracepoint 0 .all (namedEvent 65), .tracepoint 0 .all (namedEvent 66)]

/-- The second sample is an `A`. -/
theorem recordTypes_stale : ¬ ∀ (setups : Nat → ProviderSetup)
    (formats : Nat → TracepointKind → EventFormat) (kinds : List String)
    (recordTypes : List ExportRecordType) (actions before : List Session.Action)
    (action : Session.Action), before ++ [action] <+: actions →
      Session.Transparent setups formats
        ((Session.fresh setups formats kinds recordTypes).after before) before action := by
  intro h
  have htransparent := h (fun _ => recordedSetup) (fun _ _ => headerFormat) [] [] renamedEvents
    [.tracepoint 0 .all (namedEvent 65)] (.tracepoint 0 .all (namedEvent 66)) (List.prefix_refl _)
  have htype := htransparent _ rfl 0 _ List.mem_cons_self _ rfl
  have hkind := htype.kind
  have hname := eventFullName_inj (Option.some.inj (hkind.symm.trans (rfl : _ = some
    (eventFullName "Provider" ⟨1, 2, 3, [4, 5, 6, 7, 8, 9, 10, 11]⟩ "A"))))
  exact absurd hname (by decide)

/-- The samples of the first event are those of its metadata. -/
theorem recordTypes_transparent_named :
    Session.Transparent (fun _ => recordedSetup) (fun _ _ => headerFormat)
      (Session.fresh (fun _ => recordedSetup) (fun _ _ => headerFormat) [] []) []
      (.tracepoint 0 .all (namedEvent 65)) := by
  refine (recordTypes_transparent_iff _ _ [] [] [.tracepoint 0 .all (namedEvent 65)]
    fun before hbefore => ?_).mpr (fun before action hprior => ?_) [] _ (List.prefix_refl _)
  · rcases List.prefix_cons_iff.mp hbefore with rfl | ⟨rest, rfl, hrest⟩
    · exact ⟨⟨Nat.zero_le _, Nat.zero_le _⟩, fun _ => Nat.zero_le _, fun _ => Nat.one_le_two_pow⟩
    · cases List.prefix_nil.mp hrest
      refine ⟨⟨by decide, by decide⟩, fun p => ?_, fun p => ?_⟩
      · cases p with
        | zero => decide
        | succ p => exact Nat.zero_le _
      · cases p with
        | zero => decide
        | succ p => exact Nat.one_le_two_pow
  · obtain ⟨rfl, rfl⟩ : before = [] ∧ action = .tracepoint 0 .all (namedEvent 65) := by
      rcases List.prefix_cons_iff.mp hprior with hnil | ⟨rest, hrest, hempty⟩
      · exact absurd hnil (by simp)
      · cases List.prefix_nil.mp hempty
        have hsame : before ++ [action] = [] ++ [.tracepoint 0 .all (namedEvent 65)] := hrest
        obtain ⟨hbefore, haction⟩ := List.append_inj' hsame rfl
        exact ⟨hbefore, List.singleton_inj.mp haction⟩
    intro data hdata i hi _ _
    obtain rfl : i = 0 := Nat.lt_one_iff.mp hi
    cases hdata
    rfl

end OneCollect.Dotnet
