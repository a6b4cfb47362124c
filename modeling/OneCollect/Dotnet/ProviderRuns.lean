import OneCollect.Dotnet.Providers

/-! What a session keeps of its providers from event to event, without any bound on its tables: the
tables of the registrations stay as they are, the latest metadata of a pid and event id says which
keywords and which registered name an event has, and no callback leaves call stacks disabled. -/

namespace OneCollect.Dotnet
open Theory Exporting

/-! ## Callbacks -/

/-- Whether a recorder cuts the call stack of an event: its keywords are known, and none of them is
among those with call stacks. -/
def cutsCallstack (callstackKeywords : Nat) : Option Nat → Bool
  | some keywords => callstackKeywords &&& keywords = 0
  | none => false

section Callbacks

variable {context : LinuxDotNetProviderContext} {answers : Nat → Answer} {sampler : ExportSampler}

theorem find_callstackKeywords (callback : ProviderCallback) (sampler : ExportSampler)
    (context : LinuxDotNetProviderContext) :
    (callback.find sampler context).2.1.callstackKeywords = callback.callstackKeywords := by
  unfold ProviderCallback.find
  split
  · rfl
  · split
    · rfl
    · rfl

theorem call_callstackKeywords (callback : ProviderCallback) (sampler : ExportSampler)
    (answer : Answer) :
    (callback.call sampler context answer).callback.callstackKeywords =
      callback.callstackKeywords := by
  unfold ProviderCallback.call
  split
  · rfl
  · exact find_callstackKeywords callback sampler context

theorem call_cuts {callback : ProviderCallback} (hcallstacks : sampler.disableCallstacks = false)
    {answer : Answer} {sample : RecordedSample}
    (h : (callback.call sampler context answer).result = .ok sample) :
    sample.disableCallstacks = cutsCallstack callback.callstackKeywords context.info.keywords := by
  have hfound : (callback.find sampler context).2.2.disableCallstacks = false :=
    (find_overrides callback sampler context).2.trans hcallstacks
  unfold ProviderCallback.call at h
  cases hattributes : answer.attributes with
  | error fault =>
    rw [hattributes] at h
    cases h
  | ok attributes =>
    rw [hattributes] at h
    cases hsaved : answer.saved with
    | error fault =>
      rw [hsaved] at h
      cases h
    | ok _ =>
      rw [hsaved] at h
      rw [← congrArg RecordedSample.disableCallstacks (Except.ok.inj h)]
      cases context.info.keywords with
      | none => exact hfound
      | some keywords =>
        dsimp only
        rw [cutsCallstack]
        split
        · rename_i hnone
          simp [ExportSampler.overrideCallstacks, hnone]
        · rename_i hsome
          simp [hfound, hsome]

theorem callAll_callstackKeywords (callbacks : List ProviderCallback) (start : Nat)
    (sampler : ExportSampler) :
    (callAll context answers start callbacks sampler).callbacks.map (·.callstackKeywords) =
      callbacks.map (·.callstackKeywords) := by
  induction callbacks generalizing start sampler with
  | nil => rfl
  | cons callback callbacks ih =>
    have hfirst := @call_callstackKeywords context callback sampler (answers start)
    rw [callAll]
    dsimp only
    split
    · rw [List.map_cons, List.map_cons, hfirst]
    · rw [List.map_cons, List.map_cons, hfirst, ih]

/-- Every sample of the loop is cut by its own recorder. -/
theorem callAll_cuts {callbacks : List ProviderCallback} {start : Nat}
    (hcallstacks : sampler.disableCallstacks = false) {i : Nat} {sample : RecordedSample}
    (h : (i, sample) ∈ (callAll context answers start callbacks sampler).samples) :
    ∃ j callback, i = start + j ∧ callbacks[j]? = some callback ∧
      sample.disableCallstacks =
        cutsCallstack callback.callstackKeywords context.info.keywords := by
  induction callbacks generalizing start sampler with
  | nil => exact (List.not_mem_nil h).elim
  | cons callback callbacks ih =>
    have hreset := (@call_overrides context sampler callback hcallstacks (answers start)).2
    rw [callAll] at h
    dsimp only at h
    cases hresult : (callback.call sampler context (answers start)).result with
    | error fault =>
      rw [hresult] at h
      exact (List.not_mem_nil h).elim
    | ok first =>
      rw [hresult] at h
      rcases List.mem_cons.mp h with heq | hmem
      · cases heq
        exact ⟨0, callback, rfl, rfl, call_cuts hcallstacks hresult⟩
      · obtain ⟨j, callback', hi, hget, hcuts⟩ := ih hreset hmem
        exact ⟨j + 1, callback', by omega, hget, hcuts⟩

end Callbacks

/-! ## Metadata -/

/-- The keywords and the registered name of an event by its metadata. -/
def learned (useNames : Bool) (namedEvents : String → Option Nat) (metadata : MetaParserV5) :
    Option Nat × Option Nat :=
  (metadata.keywordBits, if useNames ∧ metadata.name ≠ "" then namedEvents metadata.name else none)

def LinuxDotNetEventInfo.learned (info : LinuxDotNetEventInfo) : Option Nat × Option Nat :=
  (info.keywords, info.logicalId)

theorem addName_infoLookup (tracepoint : Tracepoint) (name : String) :
    (tracepoint.addName name).2.infoLookup = tracepoint.infoLookup := by
  unfold Tracepoint.addName
  split
  · rfl
  · rfl

theorem addFormat_infoLookup (tracepoint : Tracepoint) (fields : List UInt8) :
    (tracepoint.addFormat fields).2.infoLookup = tracepoint.infoLookup := by
  unfold Tracepoint.addFormat
  split
  · rfl
  · rfl

theorem addName_bind (tracepoint : Tracepoint) (name : String)
    (namedEvents : String → Option Nat) :
    ((tracepoint.addName name).1.bind fun _ => namedEvents name) =
      if name ≠ "" then namedEvents name else none := by
  unfold Tracepoint.addName
  split
  · rename_i hempty
    rw [if_neg (not_not_intro hempty)]
    rfl
  · rfl

/-- One label with metadata. -/
theorem addMeta_learned (useNames : Bool) (namedEvents : String → Option Nat) (key : Nat)
    (tracepoint : Tracepoint) (metadata : MetaParserV5) (key' : Nat) :
    ((tracepoint.addMeta useNames namedEvents key metadata).infoLookup key').map
        LinuxDotNetEventInfo.learned =
      if key' = key then some (learned useNames namedEvents metadata)
      else (tracepoint.infoLookup key').map LinuxDotNetEventInfo.learned := by
  unfold Tracepoint.addMeta learned
  cases useNames with
  | false =>
    by_cases hkey : key' = key
    · rw [hkey, if_pos rfl]
      simp [LinuxDotNetEventInfo.learned]
    · rw [if_neg hkey]
      simp [Function.update_of_ne hkey]
  | true =>
    have hnamed := addName_bind tracepoint metadata.name namedEvents
    dsimp only
    rw [if_pos rfl, addFormat_infoLookup, addName_infoLookup, hnamed]
    dsimp only
    by_cases hkey : key' = key
    · rw [hkey, if_pos rfl, Function.update_self]
      simp [LinuxDotNetEventInfo.learned]
    · rw [if_neg hkey, Function.update_of_ne hkey]

theorem addMetas_learned (useNames : Bool) (namedEvents : String → Option Nat)
    (tracepoint : Tracepoint) (data : TracepointData) (key : Nat) :
    ((tracepoint.addMetas useNames namedEvents data).infoLookup key).map
        LinuxDotNetEventInfo.learned =
      if key = data.key then
        (data.metas.getLast?.map (learned useNames namedEvents)).or
          ((tracepoint.infoLookup key).map LinuxDotNetEventInfo.learned)
      else (tracepoint.infoLookup key).map LinuxDotNetEventInfo.learned := by
  unfold Tracepoint.addMetas
  induction data.metas using List.reverseRecOn with
  | nil => simp
  | append_singleton metas metadata ih =>
    rw [List.foldl_append, List.foldl_cons, List.foldl_nil, addMeta_learned, ih,
      List.getLast?_concat]
    by_cases hkey : key = data.key
    · simp [hkey]
    · simp [hkey]

/-! ## Runs -/

/-- The tables of the registrations are the same, and so are the keywords of the recorders. -/
structure LinuxDotNetProvider.Same (provider provider' : LinuxDotNetProvider) : Prop where
  events : provider.events = provider'.events
  namedEvents : provider.namedEvents = provider'.namedEvents
  logicalEvents : provider.logicalEvents = provider'.logicalEvents
  callstackKeywords : provider.callbacks.map (·.callstackKeywords) =
    provider'.callbacks.map (·.callstackKeywords)

namespace Session

/-- What the session has of its providers after events. -/
structure Serves (session : Session) (providers : Nat → LinuxDotNetProvider)
    (formats : Nat → TracepointKind → EventFormat) (actions : List Action) : Prop where
  format : ∀ p kind, (session.tracepoints p kind).format = formats p kind
  infos : ∀ p kind key, ((session.tracepoints p kind).infoLookup key).map
      LinuxDotNetEventInfo.learned =
    (latestMeta formats p kind key actions).map (learned kind.useNames (providers p).namedEvents)
  providers : ∀ p, (session.providers p).Same (providers p)
  callstacks : session.sampler.disableCallstacks = false

variable {providers : Nat → LinuxDotNetProvider} {formats : Nat → TracepointKind → EventFormat}
  {session : Session} {actions : List Action}

theorem serves_start (providers : Nat → LinuxDotNetProvider)
    (formats : Nat → TracepointKind → EventFormat) (kinds : List String)
    (recordTypes : List ExportRecordType) :
    (start kinds recordTypes providers fun p kind => { format := formats p kind }).Serves providers
      formats [] where
  format _ _ := rfl
  infos _ _ _ := rfl
  providers _ := ⟨rfl, rfl, rfl, rfl⟩
  callstacks := rfl

/-- What the callbacks learn of an event is what its latest metadata says. -/
theorem Serves.learned_added (h : session.Serves providers formats actions) {p : Nat}
    {kind : TracepointKind} {event : TracepointEvent} {data : TracepointData}
    (hdecode : TracepointData.decode (formats p kind) event.pid event.eventData = .ok data)
    (key : Nat) :
    ((session.added p kind data).infoLookup key).map LinuxDotNetEventInfo.learned =
      (latestMeta formats p kind key (actions ++ [.tracepoint p kind event])).map
        (learned kind.useNames (providers p).namedEvents) := by
  rw [added, addMetas_learned, latestMeta_decoded hdecode, (h.providers p).namedEvents,
    h.infos p kind key]
  split
  · exact Option.map_or.symm
  · rfl

/-- An event whose callbacks end with a sampler that does not disable call stacks. -/
theorem tracepoint_callstacks {p : Nat} {kind : TracepointKind} {event : TracepointEvent}
    (h : session.sampler.disableCallstacks = false) :
    (session.tracepoint p kind event).2.sampler.disableCallstacks = false := by
  have hoverridden : ∀ overrides, (session.sampler.overrideAttributes overrides).disableCallstacks =
    false := fun _ => h
  unfold Session.tracepoint
  dsimp only
  split
  · exact h
  · split
    · exact (callAll_overrides _ _ (hoverridden _)).2
    · exact (callAll_overrides _ _ (hoverridden _)).2

theorem Serves.tracepoint (h : session.Serves providers formats actions) (p : Nat)
    (kind : TracepointKind) (event : TracepointEvent) :
    (session.tracepoint p kind event).2.Serves providers formats
      (actions ++ [.tracepoint p kind event]) := by
  cases hdecode : TracepointData.decode (formats p kind) event.pid event.eventData with
  | error fault =>
    have hundecoded : session.tracepoint p kind event = (⟨.error fault, none, [], []⟩, session) := by
      rw [Session.tracepoint, h.format, hdecode]
    rw [hundecoded]
    refine ⟨h.format, fun p' kind' key => ?_, h.providers, h.callstacks⟩
    have hnone : metasOf formats p' kind' key (.tracepoint p kind event) = [] := by
      rw [metasOf]
      split
      · rename_i hsame
        obtain ⟨rfl, rfl⟩ := hsame
        rw [hdecode]
      · rfl
    rw [latestMeta_concat, hnone]
    exact h.infos p' kind' key
  | ok data =>
    have hdecode' := hdecode
    rw [← h.format p kind] at hdecode'
    obtain ⟨-, -, hproviders, -⟩ := tracepoint_ok hdecode'
    refine ⟨fun p' kind' => ?_, fun p' kind' key => ?_, fun p' => ?_,
      tracepoint_callstacks h.callstacks⟩
    · rw [tracepoints_ok hdecode']
      split
      · rename_i hsame
        obtain ⟨rfl, rfl⟩ := hsame
        exact (format_addMetas ..).trans (h.format p' kind')
      · exact h.format p' kind'
    · rw [tracepoints_ok hdecode']
      split
      · rename_i hsame
        obtain ⟨rfl, rfl⟩ := hsame
        exact h.learned_added hdecode key
      · rename_i hother
        have hnone : metasOf formats p' kind' key (.tracepoint p kind event) = [] :=
          if_neg fun hsame => hother ⟨hsame.1.symm, hsame.2.symm⟩
        rw [latestMeta_concat, hnone]
        exact h.infos p' kind' key
    · rw [hproviders]
      by_cases hp : p' = p
      · subst hp
        rw [Function.update_self]
        obtain ⟨hevents, hnamed, hlogical, hkeywords⟩ := h.providers p'
        exact ⟨hevents, hnamed, hlogical, (callAll_callstackKeywords ..).trans hkeywords⟩
      · rw [Function.update_of_ne hp]
        exact h.providers p'

/-- One event. -/
theorem Serves.act (h : session.Serves providers formats actions) (action : Action) :
    (session.act action).2.Serves providers formats (actions ++ [action]) := by
  cases action with
  | tracepoint p kind event => exact h.tracepoint p kind event
  | other event =>
    refine ⟨h.format, fun p kind key => ?_, h.providers,
      (session.other_overrides event).2.trans h.callstacks⟩
    rw [latestMeta_concat]
    exact h.infos p kind key

/-- A run of events. -/
theorem serves_after (providers : Nat → LinuxDotNetProvider)
    (formats : Nat → TracepointKind → EventFormat) (kinds : List String)
    (recordTypes : List ExportRecordType) (actions : List Action) :
    ((start kinds recordTypes providers fun p kind => { format := formats p kind }).after
      actions).Serves providers formats actions := by
  induction actions using List.reverseRecOn with
  | nil => exact serves_start providers formats kinds recordTypes
  | append_singleton actions action ih =>
    rw [after_concat]
    exact ih.act action

end Session

end OneCollect.Dotnet
