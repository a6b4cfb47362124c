import OneCollect.Dotnet.Metadata
import OneCollect.Exporting.NetTrace.Writer
import Mathlib.Logic.Function.Basic

/-! The tracepoints of a .NET provider (`helpers/dotnet/os/linux.rs`): metadata is kept by pid and
event id, the event is passed on to proxy events, and the callbacks of the provider record it.

The attributes that the event does not carry itself are set on the sampler that all events share.
The callback of `record_provider` keeps its record types by pid and event id, and by name and
format. -/

namespace OneCollect.Dotnet
open Theory Exporting

/-! ## Sampler -/

/-- The overrides of the sampler, and the tables of the exporter behind it. -/
structure ExportSampler where
  overrides : Attributes := {}
  disableCallstacks : Bool := false
  kinds : List String := []
  recordTypes : List ExportRecordType := []

namespace ExportSampler

/-- What the attribute sources of an event read. -/
def attributes (self : ExportSampler) (own : Attributes) : Attributes := self.overrides.orElse own

def overrideAttributes (self : ExportSampler) (overrides : Attributes) : ExportSampler :=
  { self with overrides }

def overrideCallstacks (self : ExportSampler) (disableCallstacks : Bool) : ExportSampler :=
  { self with disableCallstacks }

/-- `sample_kind`: the number of a kind, as 16 bits. -/
def sampleKind (self : ExportSampler) (name : String) : Nat × ExportSampler :=
  let kinds := insertNew self.kinds name
  (numberOf kinds name % 2 ^ 16, { self with kinds })

/-- `record_type`: the number of a record type, as 16 bits. -/
def recordType (self : ExportSampler) (recordType : ExportRecordType) : Nat × ExportSampler :=
  let recordTypes := insertNew self.recordTypes recordType
  (numberOf recordTypes recordType % 2 ^ 16, { self with recordTypes })

end ExportSampler

/-! ## Tracepoints -/

structure LinuxDotNetEventInfo where
  version : Option Nat := none
  keywords : Option Nat := none
  nameId : Option Nat := none
  logicalId : Option Nat := none
  formatIndex : Option Nat := none
  deriving DecidableEq, Repr

/-- The three tracepoints of a provider: one for all events, and one for those with proxy events
with or without call stacks. -/
inductive TracepointKind where
  | noCallstacks
  | callstacks
  | all
  deriving DecidableEq, Repr

def TracepointKind.useNames (self : TracepointKind) : Bool := self = .all

/-- What the closure of a tracepoint keeps. -/
structure Tracepoint where
  format : EventFormat
  infoLookup : Nat → Option LinuxDotNetEventInfo := fun _ => none
  formatLookup : List UInt8 → Option Nat := fun _ => none
  formats : List EventFormat := [{}]
  eventNames : InternedStrings := {}

namespace Tracepoint

/-- The id of a name, if there is one. -/
def addName (self : Tracepoint) (name : String) : Option Nat × Tracepoint :=
  if name = "" then (none, self)
  else
    let (id, eventNames) := self.eventNames.toId name
    (some id, { self with eventNames })

/-- The index of the format of fields. -/
def addFormat (self : Tracepoint) (fields : List UInt8) : Nat × Tracepoint :=
  match self.formatLookup fields with
  | some formatIndex => (formatIndex, self)
  | none =>
    let formatIndex := self.formats.length
    (formatIndex,
      { self with
        formats := self.formats ++ [FieldsParserV5.parse fields]
        formatLookup := Function.update self.formatLookup fields (some formatIndex) })

/-- The closure of a label with metadata. -/
def addMeta (useNames : Bool) (namedEvents : String → Option Nat) (key : Nat) (self : Tracepoint)
    (metadata : MetaParserV5) : Tracepoint :=
  let info := { version := metadata.versionBits, keywords := metadata.keywordBits }
  if useNames then
    let named := self.addName metadata.name
    let logicalId := named.1.bind fun _ => namedEvents metadata.name
    let formatted := named.2.addFormat metadata.fields
    { formatted.2 with
      infoLookup := Function.update formatted.2.infoLookup key
        (some { info with nameId := named.1, logicalId, formatIndex := some formatted.1 }) }
  else { self with infoLookup := Function.update self.infoLookup key (some info) }

def addMetas (useNames : Bool) (namedEvents : String → Option Nat) (self : Tracepoint)
    (data : TracepointData) : Tracepoint :=
  data.metas.foldl (addMeta useNames namedEvents data.key) self

end Tracepoint

/-! ## Callbacks -/

structure Guid where
  data1 : UInt32
  data2 : UInt16
  data3 : UInt16
  data4 : List UInt8
  deriving DecidableEq, Repr

def upperHex (width n : Nat) : List Char := (toHex width n).map Char.toUpper

def Guid.text (self : Guid) : List Char :=
  upperHex 8 self.data1.toNat ++ '-' :: upperHex 4 self.data2.toNat ++
    '-' :: upperHex 4 self.data3.toNat ++
    '-' :: (self.data4.take 2).flatMap (fun byte => upperHex 2 byte.toNat) ++
    '-' :: (self.data4.drop 2).flatMap (fun byte => upperHex 2 byte.toNat)

def eventFullName (providerName : String) (guid : Guid) (eventName : String) : String :=
  providerName ++ ":\x7b" ++ String.ofList guid.text ++ "\x7d/" ++ eventName

/-- What a provider callback learns of an event. -/
structure LinuxDotNetProviderContext where
  payloadRange : Nat × Nat
  key : Nat
  id : Nat
  info : LinuxDotNetEventInfo
  eventNames : InternedStrings
  formats : List EventFormat

namespace LinuxDotNetProviderContext

/-- Ids of events have the top bit set, and do not collide with ids of names. -/
def formatKey (self : LinuxDotNetProviderContext) : Nat :=
  let id := self.info.nameId.getD (2 ^ 31 ||| self.id)
  let formatId := self.info.formatIndex.getD 0
  (id <<< 32 % 2 ^ 64) ||| formatId

def selfDescribingFormat (self : LinuxDotNetProviderContext) : Option EventFormat :=
  self.info.formatIndex.bind fun index => self.formats[index]?

def shortEventName (self : LinuxDotNetProviderContext) : String :=
  match self.info.nameId with
  | some id =>
    match self.eventNames.fromId id with
    | some name => name
    | none => "Missing(" ++ toString self.id ++ ")"
  | none => "Unknown(" ++ toString self.id ++ ")"

end LinuxDotNetProviderContext

structure DotNetRecordType where
  kind : Nat
  recordType : Nat
  deriving DecidableEq, Repr

/-- The callback of `record_provider`, with its two lookups. -/
structure ProviderCallback where
  providerName : String
  provider : Guid
  callstackKeywords : Nat
  recordTypes : Nat → Option DotNetRecordType := fun _ => none
  recordFormats : Nat → Option DotNetRecordType := fun _ => none

/-- How the calls of a callback go: `default_attributes` and `save_value`. -/
structure Answer where
  attributes : Exec (Option Nat)
  saved : Exec Unit

structure RecordedSample where
  recordType : DotNetRecordType
  attributes : Option Nat
  range : Nat × Nat
  disableCallstacks : Bool
  deriving DecidableEq, Repr

/-- How a callback ends. -/
structure Called where
  result : Exec RecordedSample
  callback : ProviderCallback
  sampler : ExportSampler

namespace ProviderCallback

/-- A record type that is built for an event. -/
def build (self : ProviderCallback) (sampler : ExportSampler)
    (context : LinuxDotNetProviderContext) : DotNetRecordType × ExportSampler :=
  let fullName := eventFullName self.providerName self.provider context.shortEventName
  let kind := sampler.sampleKind fullName
  let format := context.selfDescribingFormat.getD {}
  let built := kind.2.recordType ⟨kind.1, context.id, fullName, format, true⟩
  (⟨kind.1, built.1⟩, built.2)

/-- The record type of an event: by its key, by its format key, or built. -/
def find (self : ProviderCallback) (sampler : ExportSampler)
    (context : LinuxDotNetProviderContext) :
    DotNetRecordType × ProviderCallback × ExportSampler :=
  match self.recordTypes context.key with
  | some recordType => (recordType, self, sampler)
  | none =>
    match self.recordFormats context.formatKey with
    | some recordType =>
      (recordType,
        { self with
          recordTypes := Function.update self.recordTypes context.key (some recordType) },
        sampler)
    | none =>
      let built := self.build sampler context
      (built.1,
        { self with
          recordTypes := Function.update self.recordTypes context.key (some built.1)
          recordFormats :=
            Function.update self.recordFormats context.formatKey (some built.1) },
        built.2)

def call (self : ProviderCallback) (sampler : ExportSampler)
    (context : LinuxDotNetProviderContext) (answer : Answer) : Called :=
  match answer.attributes with
  | .error fault => ⟨.error fault, self, sampler⟩
  | .ok attributes =>
    let (recordType, callback, sampler) := self.find sampler context
    let sampler :=
      match context.info.keywords with
      | some keywords =>
        if self.callstackKeywords &&& keywords = 0 then sampler.overrideCallstacks true
        else sampler
      | none => sampler
    let sample := ⟨recordType, attributes, context.payloadRange, sampler.disableCallstacks⟩
    ⟨answer.saved.map fun _ => sample, callback, sampler.overrideCallstacks false⟩

end ProviderCallback

/-- How the callbacks of a provider end, with the samples they saved by their position. -/
structure CalledAll where
  result : Exec Unit
  callbacks : List ProviderCallback
  sampler : ExportSampler
  samples : List (Nat × RecordedSample)

/-- The loop over the callbacks, which ends with the first that fails. -/
def callAll (context : LinuxDotNetProviderContext) (answers : Nat → Answer) :
    Nat → List ProviderCallback → ExportSampler → CalledAll
  | _, [], sampler => ⟨.ok (), [], sampler, []⟩
  | i, callback :: callbacks, sampler =>
    let called := callback.call sampler context (answers i)
    match called.result with
    | .error fault => ⟨.error fault, called.callback :: callbacks, called.sampler, []⟩
    | .ok sample =>
      let rest := callAll context answers (i + 1) callbacks called.sampler
      { rest with
        callbacks := called.callback :: rest.callbacks
        samples := (i, sample) :: rest.samples }

/-! ## Events -/

/-- The proxy events of a provider by manifest id, and by the ids of their names. -/
structure LinuxDotNetProvider where
  events : Nat → List Nat := fun _ => []
  namedEvents : String → Option Nat := fun _ => none
  logicalEvents : Nat → List Nat := fun _ => []
  callbacks : List ProviderCallback := []

/-- An event of a tracepoint, with what its hooks decode and how its callbacks go. -/
structure TracepointEvent where
  eventData : List UInt8
  pid : Exec Nat
  own : Attributes
  answers : Nat → Answer

/-- An event, with what its sources read. -/
structure Outcome where
  result : Exec Unit
  attributes : Option Attributes := none
  proxied : List Nat := []
  samples : List (Nat × RecordedSample) := []

structure Session where
  sampler : ExportSampler := {}
  providers : Nat → LinuxDotNetProvider
  tracepoints : Nat → TracepointKind → Tracepoint

namespace Session

def setTracepoint (self : Session) (provider : Nat) (kind : TracepointKind)
    (tracepoint : Tracepoint) : Session :=
  { self with
    tracepoints := Function.update self.tracepoints provider
      (Function.update (self.tracepoints provider) kind tracepoint) }

def setCallbacks (self : Session) (provider : Nat) (callbacks : List ProviderCallback) : Session :=
  { self with
    providers := Function.update self.providers provider
      { self.providers provider with callbacks } }

/-- The proxy events of an event. -/
def proxiesOf (provider : LinuxDotNetProvider) (kind : TracepointKind) (id : Nat)
    (info : LinuxDotNetEventInfo) : List Nat :=
  if kind.useNames then
    match info.logicalId with
    | some logicalId => provider.logicalEvents logicalId
    | none => []
  else provider.events id

/-- What callbacks learn of an event whose metadata has been added. -/
def contextOf (tracepoint : Tracepoint) (data : TracepointData) : LinuxDotNetProviderContext :=
  { payloadRange := data.payloadRange
    key := data.key
    id := data.id
    info := (tracepoint.infoLookup data.key).getD {}
    eventNames := tracepoint.eventNames
    formats := tracepoint.formats }

/-- The closure of `register_dotnet_tracepoint`. -/
def tracepoint (self : Session) (p : Nat) (kind : TracepointKind) (event : TracepointEvent) :
    Outcome × Session :=
  let tracepoint := self.tracepoints p kind
  match TracepointData.decode tracepoint.format event.pid event.eventData with
  | .error fault => (⟨.error fault, none, [], []⟩, self)
  | .ok data =>
    let provider := self.providers p
    let tracepoint := tracepoint.addMetas kind.useNames provider.namedEvents data
    let context := contextOf tracepoint data
    let sampler := self.sampler.overrideAttributes
      ⟨context.info.version, data.activityId, data.relatedActivityId⟩
    let called := callAll context event.answers 0 provider.callbacks sampler
    let session := (self.setTracepoint p kind tracepoint).setCallbacks p called.callbacks
    let outcome :=
      { result := called.result
        attributes := some (sampler.attributes event.own)
        proxied := proxiesOf provider kind data.id context.info
        samples := called.samples }
    match called.result with
    | .error _ => (outcome, { session with sampler := called.sampler })
    | .ok _ => (outcome, { session with sampler := called.sampler.overrideAttributes {} })

/-- Another event, which may add kinds and record types. -/
structure OtherEvent where
  own : Attributes
  kinds : List String := []
  recordTypes : List ExportRecordType := []

def other (self : Session) (event : OtherEvent) : Outcome × Session :=
  let sampler := event.kinds.foldl (fun sampler kind => (sampler.sampleKind kind).2) self.sampler
  let sampler := event.recordTypes.foldl
    (fun sampler recordType => (sampler.recordType recordType).2) sampler
  ({ result := .ok (), attributes := some (self.sampler.attributes event.own) },
    { self with sampler })

inductive Action where
  | tracepoint (p : Nat) (kind : TracepointKind) (event : TracepointEvent)
  | other (event : OtherEvent)

def act (self : Session) : Action → Outcome × Session
  | .tracepoint p kind event => self.tracepoint p kind event
  | .other event => self.other event

/-- The session after events. -/
def after (self : Session) (actions : List Action) : Session :=
  actions.foldl (fun session action => (session.act action).2) self

/-- A session before its first event, with what the exporter has already. -/
def start (kinds : List String) (recordTypes : List ExportRecordType)
    (providers : Nat → LinuxDotNetProvider) (tracepoints : Nat → TracepointKind → Tracepoint) :
    Session :=
  { sampler := { kinds, recordTypes }, providers, tracepoints }

theorem after_concat (session : Session) (actions : List Action) (action : Action) :
    session.after (actions ++ [action]) = ((session.after actions).act action).2 := by
  rw [after, List.foldl_append]
  rfl

theorem prefix_of_concat {before actions : List Action} {action : Action}
    (h : before ++ [action] <+: actions) : before <+: actions :=
  (List.prefix_append before [action]).trans h

end Session

end OneCollect.Dotnet
