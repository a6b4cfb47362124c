import OneCollect.Dotnet.ProviderRuns

/-! Call stacks of the samples that recorders save for events of the default tracepoint, against what
each recorder asked for.

The tracepoint captures stacks or not for all recorders alike, and a recorder cuts a stack only when
the keywords of the event are known. So a recorder gets what it asked for exactly when the flag that
is left behind all registrations, and the keywords of the event, happen to fit its request
(`callstacks_honoured_iff`). -/

namespace OneCollect.Dotnet
open Theory Exporting

/-! ## Frames -/

def perfContextMax : Nat := 0xFFFFFFFFFFFFF001

/-- What a sample of the ring buffer has of a call stack, with what the unwinder makes of it. -/
structure FullData where
  ip : Option Nat
  callchain : List Nat
  unwound : List Nat

/-- `read_frames`: without a call chain the IP, else the chain without its context frames. -/
def FullData.readFrames (self : FullData) : List Nat :=
  (if self.callchain = [] then self.ip.toList
    else self.callchain.filter (· < perfContextMax)) ++ self.unwound

/-- The call stack of a task at an event. Its chain starts at the IP. -/
structure TaskStack where
  ip : Nat
  callchain : List Nat
  unwound : List Nat
  starts : (callchain.filter (· < perfContextMax)).head? = some ip

namespace TaskStack

/-- What is captured: an event with the flag against call stacks has only its IP. -/
def captured (self : TaskStack) (callstacks : Bool) : FullData :=
  if callstacks then ⟨none, self.callchain, self.unwound⟩ else ⟨some self.ip, [], []⟩

/-- The frames that `make_sample` keeps. -/
def sampleFrames (self : TaskStack) (callstacks disableCallstacks : Bool) : List Nat :=
  let frames := (self.captured callstacks).readFrames
  if disableCallstacks then frames.take 1 else frames

/-- The whole call stack. -/
def full (self : TaskStack) : List Nat := (self.captured true).readFrames

theorem head_full (self : TaskStack) : self.full.take 1 = [self.ip] := by
  have hne : self.callchain ≠ [] := by
    intro hnil
    have hstarts := self.starts
    rw [hnil] at hstarts
    exact absurd hstarts (by simp)
  obtain ⟨rest, hrest⟩ := List.head?_eq_some_iff.mp self.starts
  rw [full, captured, if_pos rfl, FullData.readFrames, if_neg hne, hrest]
  rfl

/-- A sample has the whole stack when it is captured and not cut, else its IP. -/
theorem sampleFrames_eq (self : TaskStack) (callstacks disableCallstacks : Bool) :
    self.sampleFrames callstacks disableCallstacks =
      if callstacks = true ∧ disableCallstacks = false then self.full else [self.ip] := by
  cases callstacks with
  | true =>
    cases disableCallstacks with
    | true => exact self.head_full
    | false => rfl
  | false =>
    cases disableCallstacks with
    | true => rfl
    | false => rfl

/-- A stack of two frames. -/
def ofTwo : TaskStack := ⟨1, [1, 2], [], rfl⟩

/-- Stacks are kept as they are asked for, exactly when what is captured and not cut is asked for. -/
theorem kept_iff (asks : Prop) (callstacks disableCallstacks : Bool) :
    (∀ stack : TaskStack,
        (asks → stack.sampleFrames callstacks disableCallstacks = stack.full) ∧
          (¬ asks → stack.sampleFrames callstacks disableCallstacks = [stack.ip])) ↔
      (asks ↔ callstacks = true ∧ disableCallstacks = false) := by
  have hne : ofTwo.full ≠ [ofTwo.ip] := by decide
  constructor
  · intro h
    obtain ⟨hasked, hnot⟩ := h ofTwo
    rw [sampleFrames_eq] at hasked hnot
    constructor
    · intro hasks
      by_contra hkept
      rw [if_neg hkept] at hasked
      exact hne (hasked hasks).symm
    · intro hkept
      by_contra hasks
      rw [if_pos hkept] at hnot
      exact hne (hnot hasks)
  · intro h stack
    rw [sampleFrames_eq]
    exact ⟨fun hasks => if_pos (h.mp hasks), fun hasks => if_neg (mt h.mpr hasks)⟩

end TaskStack

/-! ## Requests -/

namespace CallstackRequest

/-- Whether a request is met, by what the tracepoint captures and the keywords of the event. -/
def Fits (captured : Prop) (keywords : Option Nat) : CallstackRequest → Prop
  | never => captured → keywords ≠ none
  | always => captured ∧ keywords ≠ some 0
  | forKeywords wanted =>
    captured ∧ keywords ≠ none ∨ ¬ captured ∧ ∀ bits ∈ keywords, wanted &&& bits = 0

/-- A stack is kept as it was asked for, exactly when the request is met. -/
theorem asks_iff_kept_iff {captured : Prop} {keywords : Option Nat}
    (hbits : ∀ bits ∈ keywords, bits < 2 ^ 64) (request : CallstackRequest) :
    (request.Asks keywords ↔
        captured ∧ cutsCallstack request.flags.callstackKeywords keywords = false) ↔
      request.Fits captured keywords := by
  cases request with
  | never =>
    cases keywords with
    | none => simp [Asks, Fits, cutsCallstack]
    | some bits =>
      simp [Asks, Fits, cutsCallstack, flags]
  | always =>
    cases keywords with
    | none => simp [Asks, Fits, cutsCallstack]
    | some bits =>
      have hmask : (2 ^ 64 - 1) &&& bits = bits := by
        rw [Nat.and_comm, Nat.and_two_pow_sub_one_eq_mod, Nat.mod_eq_of_lt (hbits bits rfl)]
      have hcuts : cutsCallstack always.flags.callstackKeywords (some bits) =
          decide (bits = 0) := congrArg (fun kept => decide (kept = 0)) hmask
      rw [hcuts]
      simp [Asks, Fits]
  | forKeywords wanted =>
    cases keywords with
    | none =>
      by_cases hcaptured : captured
      · simp [Asks, Fits, cutsCallstack, hcaptured]
      · simp [Asks, Fits, hcaptured]
    | some bits =>
      have hcuts : cutsCallstack (forKeywords wanted).flags.callstackKeywords (some bits) =
          decide (wanted &&& bits = 0) := rfl
      rw [hcuts]
      by_cases hcaptured : captured
      · simp [Asks, Fits, hcaptured]
      · simp [Asks, Fits, hcaptured]

end CallstackRequest

/-! ## Runs -/

/-- A provider with all that is registered on it. -/
structure RegisteredProvider where
  name : String
  guid : Exec Guid
  registrations : List ProviderRegistration

namespace RegisteredProvider

def tables (self : RegisteredProvider) : ProviderTables :=
  registered self.name self.guid self.registrations

/-- What the recorders ask for, in the order of their callbacks. -/
def requests (self : RegisteredProvider) : List CallstackRequest :=
  match self.guid with
  | .ok _ => requestsOf self.registrations
  | .error _ => []

theorem requests_keywords (self : RegisteredProvider) :
    self.tables.provider.callbacks.map (·.callstackKeywords) =
      self.requests.map (·.flags.callstackKeywords) := by
  unfold tables requests
  cases self.guid with
  | error fault => exact congrArg _ (callbacks_registered_error self.name fault self.registrations)
  | ok guid => exact callbacks_registered self.name guid self.registrations

end RegisteredProvider

namespace Session

variable (setups : Nat → RegisteredProvider) (formats : Nat → TracepointKind → EventFormat)

/-- A session before the first event of registered providers. -/
def registered (kinds : List String) (recordTypes : List ExportRecordType) : Session :=
  start kinds recordTypes (fun p => (setups p).tables.provider)
    fun p kind => { format := formats p kind }

/-- The keywords of an event of the default tracepoint by its latest metadata. -/
def keywordsOf (p : Nat) (before : List Action) (event : TracepointEvent) (data : TracepointData) :
    Option Nat :=
  (latestMeta formats p .all data.key (before ++ [.tracepoint p .all event])).bind (·.keywordBits)

/-- Every sample of an event has the whole call stack if its recorder asks for it, else the IP. -/
def Honoured (session : Session) (before : List Action) : Action → Prop
  | .tracepoint p .all event =>
    ∀ data, TracepointData.decode (formats p .all) event.pid event.eventData = .ok data →
      ∀ i sample request, (i, sample) ∈ (session.tracepoint p .all event).1.samples →
        (setups p).requests[i]? = some request → ∀ stack : TaskStack,
          (request.Asks (keywordsOf formats p before event data) →
            stack.sampleFrames (setups p).tables.callbackCallstacks sample.disableCallstacks =
              stack.full) ∧
          (¬ request.Asks (keywordsOf formats p before event data) →
            stack.sampleFrames (setups p).tables.callbackCallstacks sample.disableCallstacks =
              [stack.ip])
  | _ => True

/-- Every recorder that saves an event asks for what the provider and the keywords give it. -/
def Fitting (before : List Action) : Action → Prop
  | .tracepoint p .all event =>
    ∀ data, TracepointData.decode (formats p .all) event.pid event.eventData = .ok data →
      ∀ i request, (setups p).requests[i]? = some request → reached event.answers 0 i →
        (event.answers i).saved.isOk →
          request.Fits (CapturesCallstacks (setups p).registrations)
            (keywordsOf formats p before event data)
  | _ => True

variable {setups formats}

theorem keywordsOf_lt {p : Nat} {before : List Action} {event : TracepointEvent}
    {data : TracepointData} {bits : Nat} (h : bits ∈ keywordsOf formats p before event data) :
    bits < 2 ^ 64 := by
  obtain ⟨metadata, -, hbits⟩ := Option.bind_eq_some_iff.mp h
  unfold MetaParserV5.keywordBits MetaParserV5.readLong at hbits
  split at hbits
  · cases hbits
  · rename_i hlength
    cases hbits
    have hlt := fromLe_lt (metadata.keywords.take 8)
    rw [List.length_take, Nat.min_eq_left (by omega)] at hlt
    exact hlt

/-- The samples of an event, by the requests of their recorders. -/
theorem samples_iff {session : Session} {before : List Action} {p : Nat} {event : TracepointEvent}
    {data : TracepointData}
    (h : session.Serves (fun p => (setups p).tables.provider) formats before)
    (hdecode : TracepointData.decode (formats p .all) event.pid event.eventData = .ok data)
    {i : Nat} {request : CallstackRequest} (hrequest : (setups p).requests[i]? = some request) :
    (∃ sample, (i, sample) ∈ (session.tracepoint p .all event).1.samples) ↔
      reached event.answers 0 i ∧ (event.answers i).saved.isOk := by
  have hdecode' := hdecode
  rw [← h.format p .all] at hdecode'
  have hlength : (session.providers p).callbacks.length = (setups p).requests.length := by
    have hkeywords := congrArg List.length
      ((h.providers p).callstackKeywords.trans (setups p).requests_keywords)
    rwa [List.length_map, List.length_map] at hkeywords
  obtain ⟨hi, -⟩ := List.getElem?_eq_some_iff.mp hrequest
  rw [(tracepoint_ok hdecode').1]
  constructor
  · intro hsample
    obtain ⟨j, -, hij, hreached, hsaved⟩ := callAll_samples.mp hsample
    rw [Nat.zero_add] at hij hsaved
    exact ⟨hij ▸ hreached, hij ▸ hsaved⟩
  · rintro ⟨hreached, hsaved⟩
    exact callAll_samples.mpr ⟨i, hlength ▸ hi, (Nat.zero_add i).symm, hreached,
      (Nat.zero_add i).symm ▸ hsaved⟩

/-- A sample is cut by the keywords of its recorder. -/
theorem sample_cuts {session : Session} {before : List Action} {p : Nat} {event : TracepointEvent}
    {data : TracepointData}
    (h : session.Serves (fun p => (setups p).tables.provider) formats before)
    (hdecode : TracepointData.decode (formats p .all) event.pid event.eventData = .ok data)
    {i : Nat} {sample : RecordedSample} {request : CallstackRequest}
    (hmem : (i, sample) ∈ (session.tracepoint p .all event).1.samples)
    (hrequest : (setups p).requests[i]? = some request) :
    sample.disableCallstacks = cutsCallstack request.flags.callstackKeywords
      (keywordsOf formats p before event data) := by
  have hdecode' := hdecode
  rw [← h.format p .all] at hdecode'
  rw [(tracepoint_ok hdecode').1] at hmem
  obtain ⟨j, callback, hij, hget, hcuts⟩ := callAll_cuts (by exact h.callstacks) hmem
  rw [Nat.zero_add] at hij
  subst hij
  have hmask : some callback.callstackKeywords = some request.flags.callstackKeywords := by
    have hkeywords := congrArg (fun keywords => keywords[i]?)
      ((h.providers p).callstackKeywords.trans (setups p).requests_keywords)
    rwa [List.getElem?_map, List.getElem?_map, hget, hrequest] at hkeywords
  have hlearned := h.learned_added hdecode data.key
  have hkeywords : (contextOf (session.added p .all data) data).info.keywords =
      keywordsOf formats p before event data := by
    unfold keywordsOf contextOf
    dsimp only
    cases hinfo : (session.added p .all data).infoLookup data.key with
    | none =>
      rw [hinfo] at hlearned
      rw [Option.map_eq_none_iff.mp hlearned.symm]
      rfl
    | some info =>
      rw [hinfo] at hlearned
      obtain ⟨metadata, hmetadata, hpair⟩ := Option.map_eq_some_iff.mp hlearned.symm
      rw [hmetadata]
      exact (congrArg Prod.fst hpair).symm
  rw [hcuts, Option.some.inj hmask, hkeywords]

/-- One event. -/
theorem honoured_iff_fitting {session : Session} {before : List Action}
    (h : session.Serves (fun p => (setups p).tables.provider) formats before) (action : Action) :
    Honoured setups formats session before action ↔ Fitting setups formats before action := by
  cases action with
  | other event => exact Iff.rfl
  | tracepoint p kind event =>
    cases kind with
    | noCallstacks => exact Iff.rfl
    | callstacks => exact Iff.rfl
    | all =>
      refine forall_congr' fun data => forall_congr' fun hdecode => ?_
      have hcaptured := callbackCallstacks_iff (setups p).name (setups p).guid
        (setups p).registrations
      have hfits : ∀ request : CallstackRequest,
          (request.Asks (keywordsOf formats p before event data) ↔
              CapturesCallstacks (setups p).registrations ∧
                cutsCallstack request.flags.callstackKeywords
                  (keywordsOf formats p before event data) = false) ↔
            request.Fits (CapturesCallstacks (setups p).registrations)
              (keywordsOf formats p before event data) :=
        CallstackRequest.asks_iff_kept_iff fun _ => keywordsOf_lt
      -- a sample is kept as it was asked for, exactly when the request fits
      have hkept : ∀ i sample request,
          (i, sample) ∈ (session.tracepoint p .all event).1.samples →
          (setups p).requests[i]? = some request →
          ((∀ stack : TaskStack,
              (request.Asks (keywordsOf formats p before event data) →
                stack.sampleFrames (setups p).tables.callbackCallstacks sample.disableCallstacks =
                  stack.full) ∧
              (¬ request.Asks (keywordsOf formats p before event data) →
                stack.sampleFrames (setups p).tables.callbackCallstacks sample.disableCallstacks =
                  [stack.ip])) ↔
            request.Fits (CapturesCallstacks (setups p).registrations)
              (keywordsOf formats p before event data)) := by
        intro i sample request hmem hrequest
        rw [TaskStack.kept_iff, sample_cuts h hdecode hmem hrequest, ← hfits, ← hcaptured]
        rfl
      constructor
      · intro hhonoured i request hrequest hreached hsaved
        obtain ⟨sample, hmem⟩ := (samples_iff h hdecode hrequest).mpr ⟨hreached, hsaved⟩
        exact (hkept i sample request hmem hrequest).mp (hhonoured i sample request hmem hrequest)
      · intro hfitting i sample request hmem hrequest
        obtain ⟨hreached, hsaved⟩ := (samples_iff h hdecode hrequest).mp ⟨sample, hmem⟩
        exact (hkept i sample request hmem hrequest).mpr
          (hfitting i request hrequest hreached hsaved)

end Session

/-- **Call stacks** are kept as every recorder asks for them, exactly when every saved event fits the
request of its recorder. -/
theorem callstacks_honoured_iff (setups : Nat → RegisteredProvider)
    (formats : Nat → TracepointKind → EventFormat) (kinds : List String)
    (recordTypes : List ExportRecordType) (actions : List Session.Action) :
    (∀ before action, before ++ [action] <+: actions →
        Session.Honoured setups formats
          ((Session.registered setups formats kinds recordTypes).after before) before action) ↔
      ∀ before action, before ++ [action] <+: actions →
        Session.Fitting setups formats before action := by
  refine forall_congr' fun before => forall_congr' fun action => forall_congr' fun _ => ?_
  exact Session.honoured_iff_fitting (Session.serves_after _ formats kinds recordTypes before) action

/-! ## Two recorders -/

/-- A recorder for all call stacks, and then one without any. -/
def recordedTwice : RegisteredProvider :=
  { name := "Provider"
    guid := .ok ⟨1, 2, 3, [4, 5, 6, 7, 8, 9, 10, 11]⟩
    registrations := [.recorder 0 0 .always, .recorder 0 0 .never] }

/-- An event 5 without metadata. -/
def plainEvent : TracepointEvent :=
  { eventData := [0, 5, 0, 0, 0, 0, 0, 0, 0, 0, 0]
    pid := .ok 1
    own := {}
    answers := fun _ => ⟨.ok none, .ok ()⟩ }

/-- The first recorder gets the IP alone. -/
theorem callstacks_overruled : ¬ ∀ (setups : Nat → RegisteredProvider)
    (formats : Nat → TracepointKind → EventFormat) (kinds : List String)
    (recordTypes : List ExportRecordType) (actions before : List Session.Action)
    (action : Session.Action), before ++ [action] <+: actions →
      Session.Honoured setups formats
        ((Session.registered setups formats kinds recordTypes).after before) before action := by
  intro h
  have hhonoured := h (fun _ => recordedTwice) (fun _ _ => headerFormat) [] []
    [.tracepoint 0 .all plainEvent] [] (.tracepoint 0 .all plainEvent) (List.prefix_refl _)
  obtain ⟨hasked, -⟩ := hhonoured _ rfl 0 _ .always List.mem_cons_self rfl TaskStack.ofTwo
  exact absurd (hasked trivial) (by decide)

end OneCollect.Dotnet
