import OneCollect.Dotnet.RecordRuns

/-! What is registered on a .NET provider (`LinuxDotNetProvider`): recorders, events by id and events
by name. All of it shares one flag, which says whether the default tracepoint captures call stacks.

A recorder assigns the flag, and a named event only raises it. So the flag is up exactly when the
recorders behind the last registration that raises it all ask for call stacks
(`callbackCallstacks_iff`). -/

namespace OneCollect.Dotnet
open Theory Exporting

/-! ## Flags -/

structure DotNetProviderFlags where
  callstacks : Bool := false
  callstackKeywords : Nat := 0
  deriving DecidableEq, Repr

namespace DotNetProviderFlags

def withCallstacks (self : DotNetProviderFlags) : DotNetProviderFlags :=
  { self with callstacks := true, callstackKeywords := 2 ^ 64 - 1 }

def withCallstacksForKeywords (self : DotNetProviderFlags) (keywords : Nat) :
    DotNetProviderFlags :=
  { self with callstacks := true, callstackKeywords := keywords }

end DotNetProviderFlags

/-- What a recorder asks for. -/
inductive CallstackRequest where
  | never
  | always
  | forKeywords (keywords : Nat)
  deriving DecidableEq, Repr

namespace CallstackRequest

def flags : CallstackRequest → DotNetProviderFlags
  | never => {}
  | always => DotNetProviderFlags.withCallstacks {}
  | forKeywords keywords => DotNetProviderFlags.withCallstacksForKeywords {} keywords

/-- Whether call stacks are asked for at an event, with its keywords if they are known. -/
def Asks (keywords : Option Nat) : CallstackRequest → Prop
  | never => False
  | always => True
  | forKeywords wanted => ∃ bits ∈ keywords, wanted &&& bits ≠ 0

end CallstackRequest

/-! ## Registrations -/

structure LinuxDotNetEvent where
  proxyId : Nat
  keyword : Nat
  level : Nat
  deriving DecidableEq, Repr

/-- A provider while events are registered on it. The number of a name is its position. -/
structure ProviderTables where
  events : List (Nat × LinuxDotNetEvent) := []
  namedEvents : List String := []
  logicalEvents : List (Nat × LinuxDotNetEvent) := []
  callbacks : List ProviderCallback := []
  keyword : Nat := 0
  level : Nat := 0
  callbackCallstacks : Bool := false

namespace ProviderTables

def hasNamedEvents (self : ProviderTables) : Bool := !self.namedEvents.isEmpty

def hasCallbacks (self : ProviderTables) : Bool := !self.callbacks.isEmpty

def ensureKeywordLevel (self : ProviderTables) (keyword level : Nat) : ProviderTables :=
  { self with
    keyword := self.keyword ||| keyword
    level := if level > self.level then level else self.level }

/-- The callback is pushed behind the `?` of the guid, and the flag is assigned before it. -/
def recordProvider (self : ProviderTables) (providerName : String) (provider : Exec Guid)
    (keyword level : Nat) (flags : DotNetProviderFlags) : ProviderTables :=
  let self := self.ensureKeywordLevel keyword level
  let self := { self with callbackCallstacks := flags.callstacks }
  match provider with
  | .error _ => self
  | .ok provider =>
    let callback : ProviderCallback :=
      { providerName, provider, callstackKeywords := flags.callstackKeywords }
    { self with callbacks := self.callbacks ++ [callback] }

def addNamedEvent (self : ProviderTables) (name : String) (event : LinuxDotNetEvent)
    (callstacks : Bool) : ProviderTables :=
  let self := self.ensureKeywordLevel event.keyword event.level
  let self := if callstacks then { self with callbackCallstacks := true } else self
  let namedEvents := insertNew self.namedEvents name
  { self with
    namedEvents
    logicalEvents := self.logicalEvents ++ [(numberOf namedEvents name, event)] }

def addEvent (self : ProviderTables) (dotnetId : Nat) (event : LinuxDotNetEvent) :
    ProviderTables :=
  let self := self.ensureKeywordLevel event.keyword event.level
  { self with events := self.events ++ [(dotnetId, event)] }

/-- The tables as the tracepoints look them up. -/
def provider (self : ProviderTables) : LinuxDotNetProvider :=
  { events := fun id => (self.events.filter (·.1 = id)).map (·.2.proxyId)
    namedEvents := fun name =>
      if name ∈ self.namedEvents then some (numberOf self.namedEvents name) else none
    logicalEvents := fun id => (self.logicalEvents.filter (·.1 = id)).map (·.2.proxyId)
    callbacks := self.callbacks }

end ProviderTables

inductive ProviderRegistration where
  | recorder (keyword level : Nat) (request : CallstackRequest)
  | named (name : String) (event : LinuxDotNetEvent) (callstacks : Bool)
  | byId (dotnetId : Nat) (event : LinuxDotNetEvent)
  deriving DecidableEq, Repr

def ProviderTables.add (providerName : String) (provider : Exec Guid) (self : ProviderTables) :
    ProviderRegistration → ProviderTables
  | .recorder keyword level request =>
    self.recordProvider providerName provider keyword level request.flags
  | .named name event callstacks => self.addNamedEvent name event callstacks
  | .byId dotnetId event => self.addEvent dotnetId event

/-- A provider by its registrations. -/
def registered (providerName : String) (provider : Exec Guid)
    (registrations : List ProviderRegistration) : ProviderTables :=
  registrations.foldl (ProviderTables.add providerName provider) {}

theorem registered_concat (providerName : String) (provider : Exec Guid)
    (registrations : List ProviderRegistration) (registration : ProviderRegistration) :
    registered providerName provider (registrations ++ [registration]) =
      (registered providerName provider registrations).add providerName provider registration := by
  rw [registered, List.foldl_append]
  rfl

/-! ## The flag of the default tracepoint -/

namespace ProviderRegistration

/-- Whether the flag is up behind a registration that says anything about it. -/
def flag : ProviderRegistration → Option Bool
  | recorder _ _ request => some request.flags.callstacks
  | named _ _ callstacks => if callstacks then some true else none
  | byId _ _ => none

end ProviderRegistration

/-- The last registration that says anything about the flag raises it. -/
def CapturesCallstacks (registrations : List ProviderRegistration) : Prop :=
  ∃ before raising after, registrations = before ++ raising :: after ∧
    raising.flag = some true ∧ ∀ registration ∈ after, registration.flag ≠ some false

theorem callbackCallstacks_add (providerName : String) (provider : Exec Guid)
    (tables : ProviderTables) (registration : ProviderRegistration) :
    (tables.add providerName provider registration).callbackCallstacks =
      registration.flag.getD tables.callbackCallstacks := by
  cases registration with
  | recorder keyword level request =>
    cases provider with
    | error fault => rfl
    | ok guid => rfl
  | named name event callstacks =>
    cases callstacks with
    | false => rfl
    | true => rfl
  | byId dotnetId event => rfl

theorem capturesCallstacks_concat {registrations : List ProviderRegistration}
    {registration : ProviderRegistration} :
    CapturesCallstacks (registrations ++ [registration]) ↔
      registration.flag = some true ∨
        registration.flag = none ∧ CapturesCallstacks registrations := by
  constructor
  · rintro ⟨before, raising, after, hsplit, hraises, hafter⟩
    rcases List.eq_nil_or_concat after with rfl | ⟨init, last, rfl⟩
    · obtain ⟨-, hlast⟩ := List.append_inj' hsplit rfl
      cases List.singleton_inj.mp hlast
      exact .inl hraises
    · rw [List.concat_eq_append, ← List.cons_append, ← List.append_assoc] at hsplit
      obtain ⟨hinit, hlast⟩ := List.append_inj' hsplit rfl
      cases List.singleton_inj.mp hlast
      rw [List.concat_eq_append] at hafter
      have hkept := hafter registration (List.mem_append_right _ (List.mem_singleton.mpr rfl))
      cases hflag : registration.flag with
      | none =>
        exact .inr ⟨rfl, before, raising, init, hinit, hraises,
          fun r hr => hafter r (List.mem_append_left _ hr)⟩
      | some raised =>
        cases raised with
        | true => exact .inl rfl
        | false => exact absurd hflag hkept
  · rintro (hraises | ⟨hnone, before, raising, after, rfl, hraises, hafter⟩)
    · exact ⟨registrations, registration, [], rfl, hraises, fun _ h => (List.not_mem_nil h).elim⟩
    · refine ⟨before, raising, after ++ [registration], by simp, hraises, fun r hr => ?_⟩
      rcases List.mem_append.mp hr with hr | hr
      · exact hafter r hr
      · rw [List.mem_singleton.mp hr, hnone]
        simp

/-- The flag by the order of the registrations. -/
theorem callbackCallstacks_iff (providerName : String) (provider : Exec Guid)
    (registrations : List ProviderRegistration) :
    (registered providerName provider registrations).callbackCallstacks = true ↔
      CapturesCallstacks registrations := by
  induction registrations using List.reverseRecOn with
  | nil =>
    constructor
    · intro h
      exact absurd h (by simp [registered])
    · rintro ⟨before, raising, after, h, -⟩
      exact absurd h (by simp)
  | append_singleton registrations registration ih =>
    rw [registered_concat, callbackCallstacks_add, capturesCallstacks_concat, ← ih]
    cases registration.flag with
    | none => simp
    | some raised => simp

/-! ## Recorders -/

/-- What the recorders ask for, in the order of their callbacks. -/
def requestsOf (registrations : List ProviderRegistration) : List CallstackRequest :=
  registrations.filterMap fun registration =>
    match registration with
    | .recorder _ _ request => some request
    | _ => none

/-- Without a guid no recorder is registered. -/
theorem callbacks_registered_error (providerName : String) (fault : Fault)
    (registrations : List ProviderRegistration) :
    (registered providerName (.error fault) registrations).callbacks = [] := by
  induction registrations using List.reverseRecOn with
  | nil => rfl
  | append_singleton registrations registration ih =>
    rw [registered_concat]
    cases registration with
    | recorder keyword level request => exact ih
    | named name event callstacks =>
      cases callstacks with
      | false => exact ih
      | true => exact ih
    | byId dotnetId event => exact ih

theorem callbacks_registered (providerName : String) (guid : Guid)
    (registrations : List ProviderRegistration) :
    (registered providerName (.ok guid) registrations).callbacks.map (·.callstackKeywords) =
      (requestsOf registrations).map (·.flags.callstackKeywords) := by
  induction registrations using List.reverseRecOn with
  | nil => rfl
  | append_singleton registrations registration ih =>
    rw [registered_concat, requestsOf, List.filterMap_append, List.map_append, ← requestsOf, ← ih]
    cases registration with
    | recorder keyword level request => exact List.map_append
    | named name event callstacks =>
      cases callstacks with
      | false => exact (List.append_nil _).symm
      | true => exact (List.append_nil _).symm
    | byId dotnetId event => exact (List.append_nil _).symm

end OneCollect.Dotnet
