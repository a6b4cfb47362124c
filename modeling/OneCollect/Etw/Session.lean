import Mathlib.Data.BitVec
import Mathlib.Logic.Function.Basic

/-! ETW sessions (`etw/mod.rs`, `etw/abi.rs`). A registration enables the provider of its event
and adds the event to those of the provider under which its records come.

The registrations of one provider share its `TraceEnable`: one level, one keyword mask, one list
of ids. The registrations under which one provider's records come share its `ProviderEvents`, and
so whether records are looked up by id or by opcode. -/

namespace OneCollect.Etw

abbrev Guid := BitVec 128

def emptyProvider : Guid := 0

/-- `EVENT_ENABLE_PROPERTY_STACK_TRACE`. -/
def propertyStackTrace : Nat := 4

/-- What a registration reads of an event. -/
structure EtwEvent where
  provider : Guid
  lookupProvider : Option Guid := none
  id : Nat
  level : Nat
  keyword : Nat
  noCallstack : Bool := false
  idWildCard : Bool := false
  deriving DecidableEq, Repr

/-! ## Enabling -/

structure TraceEnable where
  captureEnvironment : Bool := false
  rundown : Bool := false
  noFiltering : Bool := false
  properties : Nat := 0
  level : Nat := 0
  keyword : Nat := 0
  events : List Nat := []
  callstacks : List Nat := []
  deriving DecidableEq, Repr

/-- What is passed to `EnableTraceEx2`. -/
structure EnableParams where
  level : Nat
  keyword : Nat
  eventIds : Option (List Nat) := none
  stackIds : Option (List Nat) := none
  properties : Nat := 0
  deriving DecidableEq, Repr

namespace TraceEnable

def ensureCaptureEnvironment (self : TraceEnable) : TraceEnable :=
  { self with captureEnvironment := true }

def ensureRundown (self : TraceEnable) : TraceEnable := { self with rundown := true }

def ensureNoFiltering (self : TraceEnable) : TraceEnable := { self with noFiltering := true }

def ensureProperty (self : TraceEnable) (property : Nat) : TraceEnable :=
  { self with properties := self.properties ||| property }

def ensureLevel (self : TraceEnable) (level : Nat) : TraceEnable :=
  if level > self.level then { self with level } else self

def ensureKeyword (self : TraceEnable) (keyword : Nat) : TraceEnable :=
  { self with keyword := self.keyword ||| keyword }

/-- The id is cut to 16 bits by the caller. -/
def addEvent (self : TraceEnable) (id : Nat) (callstacks : Bool) : TraceEnable :=
  { self with
    events := self.events ++ [id]
    callstacks := if callstacks then self.callstacks ++ [id] else self.callstacks }

/-- A filter of ids is passed for at most 64 of them. -/
def idFilter (ids : List Nat) : Option (List Nat) :=
  if ids ≠ [] ∧ ids.length ≤ 64 then some ids else none

def enable (self : TraceEnable) : EnableParams :=
  if self.noFiltering then { level := self.level, keyword := self.keyword }
  else
    { level := self.level, keyword := self.keyword
      eventIds := idFilter self.events
      stackIds := idFilter self.callstacks
      properties :=
        (if self.callstacks ≠ [] then propertyStackTrace else 0) ||| self.properties }

end TraceEnable

/-! ## Registering -/

/-- Events are known by the numbers of the registrations that added them. -/
structure ProviderEvents where
  useOpId : Bool := false
  events : Nat → List Nat := fun _ => []
  wideEvents : List Nat := []

structure EtwSession where
  enabled : Guid → Option TraceEnable := fun _ => none
  providers : Guid → Option ProviderEvents := fun _ => none

namespace EtwSession

def enableProvider (self : EtwSession) (provider : Guid) (ensure : TraceEnable → TraceEnable) :
    EtwSession :=
  { self with
    enabled := Function.update self.enabled provider
      (some (ensure ((self.enabled provider).getD {}))) }

/-- The events of a provider, made when they are missing. -/
def eventsOf (self : EtwSession) (provider : Guid) : ProviderEvents :=
  (self.providers provider).getD {}

def withEvents (self : EtwSession) (provider : Guid) (events : ProviderEvents) : EtwSession :=
  { self with providers := Function.update self.providers provider (some events) }

/-- `provider_events_mut`, and the change that is made to the events of the id. -/
def providerEventsMut (self : EtwSession) (provider : Guid) (lookupProvider : Option Guid)
    (ensure : TraceEnable → TraceEnable) (id : Nat) (callstacks : Bool)
    (change : List Nat → List Nat) : EtwSession :=
  let self :=
    if provider ≠ emptyProvider then
      self.enableProvider provider fun enabler =>
        ensure (enabler.addEvent (id % 2 ^ 16) callstacks)
    else self
  let key := lookupProvider.getD provider
  let events := self.eventsOf key
  self.withEvents key
    { events with
      useOpId := lookupProvider.isSome
      events := Function.update events.events id (change (events.events id)) }

def addComplexEvent (self : EtwSession) (provider : Guid) (ensure : TraceEnable → TraceEnable)
    (event : EtwEvent) (number : Nat) : EtwSession :=
  let lookupProvider := if provider ≠ event.provider then some event.provider else none
  if event.idWildCard then
    if provider ≠ emptyProvider then
      let self := self.enableProvider provider ensure
      let events := self.eventsOf provider
      self.withEvents provider { events with wideEvents := events.wideEvents ++ [number] }
    else self
  else
    self.providerEventsMut provider lookupProvider ensure event.id (!event.noCallstack)
      (· ++ [number])

def ensureProperties (properties : Option Nat) (enabler : TraceEnable) : TraceEnable :=
  match properties with
  | some properties => enabler.ensureProperty properties
  | none => enabler

/-- The lookup provider becomes the provider of the event before it is added. -/
def addEvent (self : EtwSession) (event : EtwEvent) (properties : Option Nat) (number : Nat) :
    EtwSession :=
  self.addComplexEvent event.provider
    (fun enabler => ensureProperties properties
      ((enabler.ensureLevel event.level).ensureKeyword event.keyword))
    { event with
      provider := event.lookupProvider.getD event.provider
      lookupProvider := none }
    number

def addRundownEvent (self : EtwSession) (event : EtwEvent) (properties : Option Nat)
    (number : Nat) : EtwSession :=
  self.addComplexEvent event.provider
    (fun enabler => ensureProperties properties
      ((enabler.ensureRundown.ensureLevel event.level).ensureKeyword event.keyword))
    event number

end EtwSession

/-- An event that is registered by `enable_singleton_event`. -/
structure SingletonEvent where
  provider : Guid
  lookupProvider : Option Guid
  noFiltering : Bool := true
  captureEnvironment : Bool := false
  keyword : Nat
  id : Nat
  deriving DecidableEq, Repr

def SingletonEvent.ensure (self : SingletonEvent) (enabler : TraceEnable) : TraceEnable :=
  let enabler := if self.noFiltering then enabler.ensureNoFiltering else enabler
  let enabler := if self.captureEnvironment then enabler.ensureCaptureEnvironment else enabler
  enabler.ensureKeyword self.keyword

/-- The event that is returned, which may be one that another registration added, and the
session. -/
def EtwSession.enableSingletonEvent (self : EtwSession) (event : SingletonEvent) (number : Nat) :
    Nat × EtwSession :=
  let self := self.providerEventsMut event.provider event.lookupProvider event.ensure event.id
    false fun events => if events.isEmpty then [number] else events
  (((self.eventsOf (event.lookupProvider.getD event.provider)).events event.id).headD number, self)

namespace SingletonEvent

def systemProcessProvider : Guid := 0x151f55dc467d471f83b55f889d46ff66
def realSystemProcessProvider : Guid := 0x3d6fa8d0fe0511d09dda00c04fd7ba7c
def realSystemImageProvider : Guid := 0x2cb15d1d5fc111d2abe100a0c911f518
def systemProfileProvider : Guid := 0xbfeb03241cee496fa4092ac2b48a6322
def realSystemProfileProvider : Guid := 0xce1dbfb4137e4da687b03f59aa102cbc
def systemInterruptProvider : Guid := 0xd4bbee17b5454888858b744169015b25
def realSystemInterruptProvider : Guid := 0xce1dbfb4137e4da687b03f59aa102cbc
def realSystemCallstackProvider : Guid := 0xdef2fe467bd64b80bd94f57fe20d0ce3
def systemSchedulerProvider : Guid := 0x599a2a764d9149109ac77d33f2e97a6c
def realSystemThreadProvider : Guid := 0x3d6fa8d1fe0511d09dda00c04fd7ba7c
def systemMemoryProvider : Guid := 0x82958ca9b6cd47f8a3a803ae85a4bc24
def realSystemPageFaultProvider : Guid := 0x3d6fa8d3fe0511d09dda00c04fd7ba7c

def comm (id : Nat) : SingletonEvent :=
  { provider := systemProcessProvider, lookupProvider := some realSystemProcessProvider,
    captureEnvironment := true, keyword := 1, id }

def commStartEvent : SingletonEvent := comm 1
def commEndEvent : SingletonEvent := comm 2
def commStartCaptureEvent : SingletonEvent := comm 3
def commEndCaptureEvent : SingletonEvent := comm 4

def mmap (id : Nat) : SingletonEvent :=
  { provider := systemProcessProvider, lookupProvider := some realSystemImageProvider,
    captureEnvironment := true, keyword := 4096, id }

def mmapLoadEvent : SingletonEvent := mmap 10
def mmapUnloadEvent : SingletonEvent := mmap 2
def mmapLoadCaptureStartEvent : SingletonEvent := mmap 3
def mmapLoadCaptureEndEvent : SingletonEvent := mmap 4

def profileCpuEvent : SingletonEvent :=
  { provider := systemProfileProvider, lookupProvider := some realSystemProfileProvider,
    keyword := 1, id := 46 }

def readyThreadEvent : SingletonEvent :=
  { provider := systemSchedulerProvider, lookupProvider := some realSystemThreadProvider,
    keyword := 2, id := 50 }

def cswitchEvent : SingletonEvent :=
  { provider := systemSchedulerProvider, lookupProvider := some realSystemThreadProvider,
    keyword := 512, id := 36 }

def hardPageFaultEvent : SingletonEvent :=
  { provider := systemMemoryProvider, lookupProvider := some realSystemPageFaultProvider,
    keyword := 2, id := 32 }

/-- The four of them have the ids 10 to 13. -/
def softPageFaultEvents : List SingletonEvent :=
  [10, 11, 12, 13].map fun id =>
    { provider := systemMemoryProvider, lookupProvider := some realSystemPageFaultProvider,
      keyword := 4, id }

/-- No provider is enabled for it. -/
def callstackEvent : SingletonEvent :=
  { provider := emptyProvider, lookupProvider := some realSystemCallstackProvider,
    noFiltering := false, keyword := 0, id := 32 }

def dpc (id : Nat) : SingletonEvent :=
  { provider := systemInterruptProvider, lookupProvider := some realSystemInterruptProvider,
    keyword := 4, id }

def dpcEvent : SingletonEvent := dpc 68
def threadedDpcEvent : SingletonEvent := dpc 66
def timerDpcEvent : SingletonEvent := dpc 69

end SingletonEvent

inductive Registration where
  | add (event : EtwEvent) (properties : Option Nat)
  | addRundown (event : EtwEvent) (properties : Option Nat)
  | singleton (event : SingletonEvent)
  deriving DecidableEq, Repr

/-- The event of the registration and the session after it. -/
def Registration.run (number : Nat) (session : EtwSession) : Registration → Nat × EtwSession
  | .add event properties => (number, session.addEvent event properties number)
  | .addRundown event properties => (number, session.addRundownEvent event properties number)
  | .singleton event => session.enableSingletonEvent event number

/-- The session after registrations that are numbered from a number on. -/
def registerFrom : Nat → EtwSession → List Registration → EtwSession
  | _, session, [] => session
  | number, session, registration :: registrations =>
    registerFrom (number + 1) (registration.run number session).2 registrations

def sessionOf (registrations : List Registration) : EtwSession :=
  registerFrom 0 {} registrations

/-! ## Records -/

/-- A record: the provider that logs it when it is enabled, the provider in its header, and its
descriptor. -/
structure EventRecord where
  source : Guid
  provider : Guid
  id : UInt16
  opcode : UInt8
  level : Nat
  keyword : Nat
  deriving DecidableEq, Repr

/-- The session runs, or it is told to stop and rundown providers are enabled. -/
inductive Phase where
  | live
  | rundown
  deriving DecidableEq, Repr

/-- The provider is enabled in the phase (`parse_until`). -/
def TraceEnable.EnabledIn (self : TraceEnable) : Phase → Prop
  | .live => self.captureEnvironment ∨ ¬ self.rundown
  | .rundown => self.rundown

/-- ETW delivers records of the level and keywords that pass the filter of ids. -/
structure EnableParams.Accepts (params : EnableParams) (record : EventRecord) : Prop where
  level : record.level ≤ params.level
  keyword : params.keyword &&& record.keyword ≠ 0
  id : ∀ ids, params.eventIds = some ids → record.id.toNat ∈ ids

namespace EtwSession

def Delivers (self : EtwSession) (phase : Phase) (record : EventRecord) : Prop :=
  ∃ enabler, self.enabled record.source = some enabler ∧ enabler.EnabledIn phase ∧
    enabler.enable.Accepts record

/-- The events that `parse_until` processes for a record. -/
def dispatch (self : EtwSession) (record : EventRecord) : List Nat :=
  match self.providers record.provider with
  | some provider =>
    let id := if provider.useOpId then record.opcode.toNat else record.id.toNat
    provider.events id ++ provider.wideEvents
  | none => []

end EtwSession

end OneCollect.Etw
