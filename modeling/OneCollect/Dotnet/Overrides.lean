import OneCollect.Dotnet.Tracepoint
import Mathlib.Data.List.Induction

/-! The overrides that a tracepoint event sets on the sampler. They are cleared behind the callbacks
of the provider, but a callback that fails ends the closure before.

So the attributes of an event leak into later ones exactly when one of its callbacks fails and the
event has attributes of its own (`overrides_cleared_iff`). -/

namespace OneCollect.Dotnet
open Theory Exporting

/-- No override is left. -/
structure ExportSampler.Clear (sampler : ExportSampler) : Prop where
  overrides : sampler.overrides = {}
  callstacks : sampler.disableCallstacks = false

/-- A callback that ends in an error. -/
def Answer.Fails (answer : Answer) : Prop :=
  (∃ fault, answer.attributes = .error fault) ∨ ∃ fault, answer.saved = .error fault

/-! ## Callbacks -/

section Callbacks

variable {context : LinuxDotNetProviderContext} {answers : Nat → Answer} {sampler : ExportSampler}

/-- Building a record type changes the tables alone. -/
theorem find_overrides (callback : ProviderCallback) (sampler : ExportSampler)
    (context : LinuxDotNetProviderContext) :
    (callback.find sampler context).2.2.overrides = sampler.overrides ∧
      (callback.find sampler context).2.2.disableCallstacks = sampler.disableCallstacks := by
  unfold ProviderCallback.find
  split
  · exact ⟨rfl, rfl⟩
  · split
    · exact ⟨rfl, rfl⟩
    · exact ⟨rfl, rfl⟩

/-- A callback keeps the attributes, and resets the call stacks. -/
theorem call_overrides (callback : ProviderCallback) (hcallstacks : sampler.disableCallstacks = false)
    (answer : Answer) :
    (callback.call sampler context answer).sampler.overrides = sampler.overrides ∧
      (callback.call sampler context answer).sampler.disableCallstacks = false := by
  unfold ProviderCallback.call
  split
  · exact ⟨rfl, hcallstacks⟩
  · obtain ⟨hoverrides, -⟩ := find_overrides callback sampler context
    dsimp only
    refine ⟨?_, rfl⟩
    split
    · split
      · exact hoverrides
      · exact hoverrides
    · exact hoverrides

theorem call_fails_iff (callback : ProviderCallback) (sampler : ExportSampler) (answer : Answer) :
    (∃ fault, (callback.call sampler context answer).result = .error fault) ↔ answer.Fails := by
  unfold ProviderCallback.call Answer.Fails
  cases hattributes : answer.attributes with
  | error fault => simp
  | ok attributes =>
    cases hsaved : answer.saved with
    | error fault => simp [Except.map]
    | ok _ => simp [Except.map]

/-- All callbacks keep the attributes, and reset the call stacks. -/
theorem callAll_overrides (callbacks : List ProviderCallback) (start : Nat)
    (hcallstacks : sampler.disableCallstacks = false) :
    (callAll context answers start callbacks sampler).sampler.overrides = sampler.overrides ∧
      (callAll context answers start callbacks sampler).sampler.disableCallstacks = false := by
  induction callbacks generalizing start sampler with
  | nil => exact ⟨rfl, hcallstacks⟩
  | cons callback callbacks ih =>
    obtain ⟨hoverrides, hreset⟩ := @call_overrides context sampler callback hcallstacks
      (answers start)
    unfold callAll
    dsimp only
    split
    · exact ⟨hoverrides, hreset⟩
    · obtain ⟨hrest, hrest'⟩ := @ih (callback.call sampler context (answers start)).sampler
        (start + 1) hreset
      exact ⟨hrest.trans hoverrides, hrest'⟩

/-- The loop fails when a callback does. -/
theorem callAll_fails_iff (callbacks : List ProviderCallback) (start : Nat)
    (sampler : ExportSampler) :
    (∃ fault, (callAll context answers start callbacks sampler).result = .error fault) ↔
      ∃ i < callbacks.length, (answers (start + i)).Fails := by
  induction callbacks generalizing start sampler with
  | nil =>
    constructor
    · rintro ⟨fault, h⟩
      exact (nomatch h)
    · rintro ⟨i, hi, -⟩
      exact absurd hi (Nat.not_lt_zero i)
  | cons callback callbacks ih =>
    have hfirst := @call_fails_iff context callback sampler (answers start)
    have hsplit : (∃ i < (callback :: callbacks).length, (answers (start + i)).Fails) ↔
        (answers start).Fails ∨ ∃ i < callbacks.length, (answers (start + 1 + i)).Fails := by
      constructor
      · rintro ⟨i, hi, h⟩
        cases i with
        | zero => exact .inl h
        | succ i =>
          refine .inr ⟨i, by simpa using hi, ?_⟩
          rwa [Nat.add_right_comm, Nat.add_assoc]
      · rintro (h | ⟨i, hi, h⟩)
        · exact ⟨0, by simp, h⟩
        · refine ⟨i + 1, by simpa using hi, ?_⟩
          rwa [Nat.add_right_comm, Nat.add_assoc] at h
    have hrest := ih (start + 1) (callback.call sampler context (answers start)).sampler
    rw [hsplit, ← hfirst, callAll]
    dsimp only
    cases (callback.call sampler context (answers start)).result with
    | error fault => simp
    | ok sample => simpa using hrest

end Callbacks

/-! ## Metadata -/

/-- The version in the latest metadata of an event. -/
def latestVersion (tracepoint : Tracepoint) (data : TracepointData) : Option Nat :=
  match data.metas.getLast? with
  | some metadata => metadata.versionBits
  | none => (tracepoint.infoLookup data.key).bind (·.version)

theorem infoLookup_addMeta (useNames : Bool) (namedEvents : String → Option Nat) (key : Nat)
    (tracepoint : Tracepoint) (metadata : MetaParserV5) :
    ∃ info, ((tracepoint.addMeta useNames namedEvents key metadata).infoLookup key) = some info ∧
      info.version = metadata.versionBits ∧ info.keywords = metadata.keywordBits := by
  unfold Tracepoint.addMeta
  dsimp only
  split
  · exact ⟨_, Function.update_self .., rfl, rfl⟩
  · exact ⟨_, Function.update_self .., rfl, rfl⟩

theorem version_addMetas (useNames : Bool) (namedEvents : String → Option Nat)
    (tracepoint : Tracepoint) (data : TracepointData) :
    (((tracepoint.addMetas useNames namedEvents data).infoLookup data.key).getD {}).version =
      latestVersion tracepoint data := by
  unfold Tracepoint.addMetas latestVersion
  rcases List.eq_nil_or_concat data.metas with hnil | ⟨metas, metadata, hmetas⟩
  · rw [hnil, List.foldl_nil, List.getLast?_nil]
    cases tracepoint.infoLookup data.key with
    | none => rfl
    | some info => rfl
  · rw [hmetas, List.concat_eq_append, List.foldl_append, List.getLast?_concat]
    obtain ⟨info, hinfo, hversion, -⟩ := infoLookup_addMeta useNames namedEvents data.key
      (metas.foldl (Tracepoint.addMeta useNames namedEvents data.key) tracepoint) metadata
    rw [List.foldl_cons, List.foldl_nil, hinfo]
    exact hversion

/-! ## Events -/

namespace Session

/-- The attributes that a tracepoint event has itself, from its metadata and its extension. -/
def decoded (tracepoint : Tracepoint) (data : TracepointData) : Attributes :=
  ⟨latestVersion tracepoint data, data.activityId, data.relatedActivityId⟩

/-- The attributes that the sources of an event are to read. -/
def ownAttributes (self : Session) : Action → Option Attributes
  | .tracepoint p kind event =>
    match TracepointData.decode (self.tracepoints p kind).format event.pid event.eventData with
    | .ok data => some ((decoded (self.tracepoints p kind) data).orElse event.own)
    | .error _ => none
  | .other event => some event.own

/-- A tracepoint event with attributes, one of whose callbacks fails. -/
def FailsWithAttributes (self : Session) : Action → Prop
  | .tracepoint p kind event =>
    ∃ data, TracepointData.decode (self.tracepoints p kind).format event.pid event.eventData =
        .ok data ∧
      (∃ i < (self.providers p).callbacks.length, (event.answers i).Fails) ∧
      decoded (self.tracepoints p kind) data ≠ {}
  | .other _ => False

/-- After and during an event nothing of earlier events is left. -/
structure Clean (session : Session) (action : Action) : Prop where
  clear : (session.act action).2.sampler.Clear
  attributes : (session.act action).1.attributes = session.ownAttributes action

theorem other_overrides (session : Session) (event : OtherEvent) :
    (session.other event).2.sampler.overrides = session.sampler.overrides ∧
      (session.other event).2.sampler.disableCallstacks = session.sampler.disableCallstacks := by
  let Same (sampler : ExportSampler) : Prop := sampler.overrides = session.sampler.overrides ∧
    sampler.disableCallstacks = session.sampler.disableCallstacks
  have hkinds : Same (event.kinds.foldl (fun sampler kind => (sampler.sampleKind kind).2)
      session.sampler) :=
    @List.foldlRecOn _ _ Same event.kinds _ _ ⟨rfl, rfl⟩ fun _ h _ _ => h
  exact @List.foldlRecOn _ _ Same event.recordTypes _ _ hkinds fun _ h _ _ => h

/-- One event, from a clear sampler. -/
theorem clean_iff {session : Session} (h : session.sampler.Clear) (action : Action) :
    session.Clean action ↔ ¬ session.FailsWithAttributes action := by
  have hempty : ∀ own : Attributes, Attributes.orElse {} own = own := fun _ => rfl
  cases action with
  | other event =>
    obtain ⟨hoverrides, hcallstacks⟩ := session.other_overrides event
    refine ⟨fun _ hfails => hfails, fun _ => ⟨⟨hoverrides.trans h.overrides,
      hcallstacks.trans h.callstacks⟩, ?_⟩⟩
    change some (session.sampler.overrides.orElse event.own) = _
    rw [h.overrides, hempty]
    rfl
  | tracepoint p kind event =>
    cases hdecode : TracepointData.decode (session.tracepoints p kind).format event.pid
        event.eventData with
    | error fault =>
      have hact : session.act (.tracepoint p kind event) =
          (⟨.error fault, none, [], []⟩, session) := by
        rw [act, Session.tracepoint, hdecode]
      refine ⟨?_, fun _ => ⟨?_, ?_⟩⟩
      · rintro - ⟨data, hdata, -⟩
        rw [hdecode] at hdata
        cases hdata
      · rw [hact]
        exact h
      · rw [hact, ownAttributes, hdecode]
    | ok data =>
      let tracepoint := (session.tracepoints p kind).addMetas kind.useNames
        (session.providers p).namedEvents data
      let context := contextOf tracepoint data
      let sampler := session.sampler.overrideAttributes
        ⟨context.info.version, data.activityId, data.relatedActivityId⟩
      let called := callAll context event.answers 0 (session.providers p).callbacks sampler
      have hdecoded : (⟨context.info.version, data.activityId, data.relatedActivityId⟩ :
          Attributes) = decoded (session.tracepoints p kind) data := by
        rw [decoded, ← version_addMetas kind.useNames (session.providers p).namedEvents]
        rfl
      obtain ⟨hoverrides, hcallstacks⟩ :=
        @callAll_overrides context event.answers sampler (session.providers p).callbacks 0
          h.callstacks
      have hfails := @callAll_fails_iff context event.answers (session.providers p).callbacks 0
        sampler
      have hleft : called.sampler.overrides = decoded (session.tracepoints p kind) data :=
        hoverrides.trans hdecoded
      have hattributes : (session.act (.tracepoint p kind event)).1.attributes =
          session.ownAttributes (.tracepoint p kind event) := by
        rw [ownAttributes, hdecode, act, Session.tracepoint, hdecode]
        dsimp only
        rw [← hdecoded]
        split
        · rfl
        · rfl
      have hcond : session.FailsWithAttributes (.tracepoint p kind event) ↔
          (∃ fault, called.result = .error fault) ∧
            decoded (session.tracepoints p kind) data ≠ {} := by
        constructor
        · rintro ⟨data', hdata', hcallback, hne⟩
          rw [hdecode] at hdata'
          cases hdata'
          exact ⟨hfails.mpr (by simpa using hcallback), hne⟩
        · rintro ⟨hcalled, hne⟩
          exact ⟨data, hdecode, by simpa using hfails.mp hcalled, hne⟩
      rw [hcond]
      cases hresult : called.result with
      | error fault =>
        have hsampler : (session.act (.tracepoint p kind event)).2.sampler = called.sampler := by
          rw [act, Session.tracepoint, hdecode]
          dsimp only
          change called.result = _ at hresult
          rw [hresult]
        constructor
        · rintro hclean ⟨-, hne⟩
          have hclear := hclean.clear.overrides
          rw [hsampler] at hclear
          exact hne (hleft.symm.trans hclear)
        · intro hnot
          refine ⟨⟨?_, ?_⟩, hattributes⟩
          · rw [hsampler]
            by_contra hne
            exact hnot ⟨⟨fault, rfl⟩, fun hnone => hne (hleft.trans hnone)⟩
          · rw [hsampler]
            exact hcallstacks
      | ok _ =>
        have hsampler : (session.act (.tracepoint p kind event)).2.sampler =
            called.sampler.overrideAttributes {} := by
          rw [act, Session.tracepoint, hdecode]
          dsimp only
          change called.result = _ at hresult
          rw [hresult]
        refine ⟨fun _ hfailed => ?_, fun _ => ⟨⟨?_, ?_⟩, hattributes⟩⟩
        · obtain ⟨⟨fault, hfault⟩, -⟩ := hfailed
          cases hfault
        · rw [hsampler]
          rfl
        · rw [hsampler]
          exact hcallstacks

end Session

/-- **Overrides** never leak, exactly when no callback fails for an event with attributes. -/
theorem overrides_cleared_iff (kinds : List String) (recordTypes : List ExportRecordType)
    (providers : Nat → LinuxDotNetProvider) (tracepoints : Nat → TracepointKind → Tracepoint)
    (actions : List Session.Action) :
    (∀ before action, before ++ [action] <+: actions →
        ((Session.start kinds recordTypes providers tracepoints).after before).Clean action) ↔
      ∀ before action, before ++ [action] <+: actions →
        ¬ ((Session.start kinds recordTypes providers tracepoints).after
          before).FailsWithAttributes action := by
  have hstart : (Session.start kinds recordTypes providers tracepoints).sampler.Clear := ⟨rfl, rfl⟩
  constructor
  · intro hclean before action hprefix
    have hclear : ((Session.start kinds recordTypes providers tracepoints).after
        before).sampler.Clear := by
      rcases List.eq_nil_or_concat before with rfl | ⟨earlier, last, rfl⟩
      · exact hstart
      · rw [List.concat_eq_append] at hprefix ⊢
        rw [Session.after_concat]
        exact (hclean earlier last (Session.prefix_of_concat hprefix)).clear
    exact (Session.clean_iff hclear action).mp (hclean before action hprefix)
  · intro hfails
    have hclear : ∀ before, before <+: actions →
        ((Session.start kinds recordTypes providers tracepoints).after before).sampler.Clear := by
      intro before
      induction before using List.reverseRecOn with
      | nil => exact fun _ => hstart
      | append_singleton earlier last ih =>
        intro hprefix
        rw [Session.after_concat]
        have hearlier := ih (Session.prefix_of_concat hprefix)
        exact ((Session.clean_iff hearlier last).mpr (hfails earlier last hprefix)).clear
    intro before action hprefix
    exact (Session.clean_iff (hclear before (Session.prefix_of_concat hprefix)) action).mpr
      (hfails before action hprefix)

/-! ## A callback that fails -/

/-- The header of a tracepoint event. -/
def headerFormat : EventFormat :=
  ⟨[⟨"version", "u8", .static, 0, 1⟩, ⟨"event_id", "u16", .static, 1, 2⟩,
    ⟨"extension", "__rel_loc u8[]", .dynRelative, 3, 4⟩,
    ⟨"payload", "__rel_loc u8[]", .dynRelative, 7, 4⟩]⟩

/-- A provider that is recorded. -/
def recordedProvider : LinuxDotNetProvider :=
  { callbacks := [⟨"Provider", ⟨1, 2, 3, [4, 5, 6, 7, 8, 9, 10, 11]⟩, 0, fun _ => none,
      fun _ => none⟩] }

/-- An event 5 with an activity id, whose sample is not saved. -/
def unsavedActivity : TracepointEvent :=
  { eventData := [1, 5, 0, 4, 0, 17, 0, 0, 0, 0, 0, 2] ++ List.replicate 16 7
    pid := .ok 1
    own := {}
    answers := fun _ => ⟨.ok none, fail "No process"⟩ }

/-- The activity id is left on the sampler. -/
theorem overrides_left : ¬ ∀ (kinds : List String) (recordTypes : List ExportRecordType)
    (providers : Nat → LinuxDotNetProvider) (tracepoints : Nat → TracepointKind → Tracepoint)
    (actions : List Session.Action) (before : List Session.Action) (action : Session.Action),
    before ++ [action] <+: actions →
      ((Session.start kinds recordTypes providers tracepoints).after before).Clean action := by
  intro h
  have hclean := h [] [] (fun _ => recordedProvider) (fun _ _ => { format := headerFormat })
    [.tracepoint 0 .all unsavedActivity] [] (.tracepoint 0 .all unsavedActivity)
    (List.prefix_refl _)
  have hleft : ((Session.start [] [] (fun _ => recordedProvider)
      (fun _ _ => { format := headerFormat })).act
        (.tracepoint 0 .all unsavedActivity)).2.sampler.overrides.activityId =
          some (List.replicate 16 7) := rfl
  have hclear := hclean.clear.overrides
  change ((Session.start [] [] (fun _ => recordedProvider)
      (fun _ _ => { format := headerFormat })).act
        (.tracepoint 0 .all unsavedActivity)).2.sampler.overrides = {} at hclear
  rw [hclear] at hleft
  exact (nomatch hleft)

end OneCollect.Dotnet
