import OneCollect.Dotnet.ProviderRuns

/-! The factory of .NET events (`OSDotNetEventFactory`) and the tracepoints that its settings hook
builds: up to three for a provider, each with the list of the event ids that a runtime is to write
to it. What the tables of the factory hold is told from the calls alone (`holds_after`). -/

namespace OneCollect.Dotnet
open Theory Exporting

/-! ## Calls -/

/-- A call of `new_event` or `record_provider`. The owner of a new event may take its call stacks
away before the exporter is built. -/
inductive FactoryCall where
  | newEvent (providerName : String) (keyword level : Nat) (id : Option Nat) (name : String)
      (callstacks : Bool)
  | recordProvider (providerName : String) (keyword level : Nat) (flags : DotNetProviderFlags)
  deriving DecidableEq, Repr

/-- The providers with their names, and the proxy events of the settings with whether they have call
stacks. -/
structure OSDotNetEventFactory where
  names : List String := []
  providers : String → ProviderTables := fun _ => {}
  proxyId : Nat := 0
  proxyEvents : List (Nat × Bool) := []

namespace OSDotNetEventFactory

/-- The entry of a provider, with a default, after a change. -/
def entry (self : OSDotNetEventFactory) (providerName : String)
    (change : ProviderTables → ProviderTables) : OSDotNetEventFactory :=
  { self with
    names := insertNew self.names providerName
    providers := Function.update self.providers providerName
      (change (self.providers providerName)) }

/-- A proxy event has no flags when it is new, so a named event is added with call stacks. -/
def newEvent (self : OSDotNetEventFactory) (provider : Exec Guid) (providerName : String)
    (keyword level : Nat) (id : Option Nat) (name : String) (callstacks : Bool) :
    OSDotNetEventFactory :=
  match provider with
  | .error _ => self
  | .ok _ =>
    let proxyId := self.proxyId + 1
    let event : LinuxDotNetEvent := ⟨proxyId, keyword, level⟩
    let self := { self with proxyId, proxyEvents := self.proxyEvents ++ [(proxyId, callstacks)] }
    match id with
    | none => self.entry providerName fun tables => tables.addNamedEvent name event true
    | some id => self.entry providerName fun tables => tables.addEvent id event

def recordProvider (self : OSDotNetEventFactory) (provider : Exec Guid) (providerName : String)
    (keyword level : Nat) (flags : DotNetProviderFlags) : OSDotNetEventFactory :=
  self.entry providerName fun tables =>
    tables.recordProvider providerName provider keyword level flags

def call (guidFromProvider : String → Exec Guid) (self : OSDotNetEventFactory) :
    FactoryCall → OSDotNetEventFactory
  | .newEvent providerName keyword level id name callstacks =>
    self.newEvent (guidFromProvider providerName) providerName keyword level id name callstacks
  | .recordProvider providerName keyword level flags =>
    self.recordProvider (guidFromProvider providerName) providerName keyword level flags

def after (guidFromProvider : String → Exec Guid) (calls : List FactoryCall) :
    OSDotNetEventFactory :=
  calls.foldl (call guidFromProvider) {}

end OSDotNetEventFactory

/-! ## Tracepoints -/

/-- Without the characters that TraceFS does not allow. -/
def safeName (name : String) : List Char :=
  (name.toList.map fun c => if c = '-' then '_' else c).filter fun c =>
    c ≠ '/' ∧ c ≠ '?' ∧ c ≠ '*'

def TracepointKind.suffix : TracepointKind → List Char
  | .noCallstacks => []
  | .callstacks => ['_', 'C']
  | .all => ['_', 'A', 'l', 'l']

def tracepointName (pid : Nat) (providerName : String) (kind : TracepointKind) : List Char :=
  "OC_DotNet_".toList ++ (safeName providerName ++ '_' :: (toDecimal pid ++ kind.suffix))

/-- A tracepoint with its provider and what it is registered for. -/
structure DotNetTracepoint where
  name : List Char
  providerName : String
  kind : TracepointKind
  callstacks : Bool
  deriving DecidableEq, Repr

structure UserEventTracepointEvents where
  tracepoint : List Char
  events : List Nat
  deriving DecidableEq, Repr

structure UserEventProviderEvents where
  events : List UserEventTracepointEvents
  keyword : Nat
  level : Nat
  defaultTracepoint : Option (List Char)
  deriving DecidableEq, Repr

/-- The ids with one of these proxy events. -/
def ProviderTables.proxyIdToEvents (self : ProviderTables) (proxyIds : List Nat) : List Nat :=
  distinct ((self.events.filter (·.2.proxyId ∈ proxyIds)).map (·.1))

namespace OSDotNetEventFactory

/-- The wanted proxy events of a provider, with call stacks or without. -/
def proxyIds (self : OSDotNetEventFactory) (providerName : String) (callstacks : Bool) : List Nat :=
  let wantedIds := (self.providers providerName).events.map (·.2.proxyId)
  (self.proxyEvents.filter fun event => event.1 ∈ wantedIds ∧ event.2 = callstacks).map (·.1)

/-- Whether a provider has a tracepoint of a kind. -/
def wants (self : OSDotNetEventFactory) (providerName : String) : TracepointKind → Bool
  | .noCallstacks => !(self.proxyIds providerName false).isEmpty
  | .callstacks => !(self.proxyIds providerName true).isEmpty
  | .all =>
    (self.providers providerName).hasNamedEvents || (self.providers providerName).hasCallbacks

def capturesCallstacks (self : OSDotNetEventFactory) (providerName : String) :
    TracepointKind → Bool
  | .noCallstacks => false
  | .callstacks => true
  | .all => (self.providers providerName).callbackCallstacks

/-- The tracepoints of a provider. -/
def tracepointsOf (self : OSDotNetEventFactory) (pid : Nat) (providerName : String) :
    List DotNetTracepoint :=
  ([.noCallstacks, .callstacks, .all].filter (self.wants providerName)).map fun kind =>
    ⟨tracepointName pid providerName kind, providerName, kind,
      self.capturesCallstacks providerName kind⟩

/-- The event ids of a list, as 32 bits. -/
def dotnetIds (self : OSDotNetEventFactory) (providerName : String) (callstacks : Bool) : List Nat :=
  ((self.providers providerName).proxyIdToEvents (self.proxyIds providerName callstacks)).map
    (· % 2 ^ 32)

/-- What the runtimes are told of a provider. -/
def providerEvents (self : OSDotNetEventFactory) (pid : Nat) (providerName : String) :
    UserEventProviderEvents :=
  { events := ([(TracepointKind.noCallstacks, false), (.callstacks, true)].filter fun group =>
      self.wants providerName group.1).map fun group =>
        ⟨tracepointName pid providerName group.1, self.dotnetIds providerName group.2⟩
    keyword := (self.providers providerName).keyword
    level := (self.providers providerName).level
    defaultTracepoint := if self.wants providerName .all then
      some (tracepointName pid providerName .all) else none }

/-- All tracepoints that the settings hook registers. -/
def tracepoints (self : OSDotNetEventFactory) (pid : Nat) : List DotNetTracepoint :=
  self.names.flatMap (self.tracepointsOf pid)

end OSDotNetEventFactory

/-! ## What the calls register -/

/-- A proxy event with what it is registered for. -/
structure ProxyRegistration where
  providerName : String
  id : Option Nat
  name : String
  proxyId : Nat
  callstacks : Bool
  deriving DecidableEq, Repr

section Registrations

variable (guidFromProvider : String → Exec Guid)

def addProxy (registered : List ProxyRegistration) : FactoryCall → List ProxyRegistration
  | .newEvent providerName _ _ id name callstacks =>
    match guidFromProvider providerName with
    | .ok _ => registered ++ [⟨providerName, id, name, registered.length + 1, callstacks⟩]
    | .error _ => registered
  | .recordProvider .. => registered

/-- The proxy events that are registered, numbered in the order of the calls. -/
def proxiesOf (calls : List FactoryCall) : List ProxyRegistration :=
  calls.foldl (addProxy guidFromProvider) []

/-- How many recorders a provider has. -/
def recordersOf (providerName : String) (calls : List FactoryCall) : Nat :=
  match guidFromProvider providerName with
  | .ok _ => calls.countP fun call =>
    match call with
    | .recordProvider providerName' .. => providerName' = providerName
    | .newEvent .. => false
  | .error _ => 0

/-- The proxy events of an id. -/
def proxiesById (registered : List ProxyRegistration) (providerName : String) (id : Nat) :
    List Nat :=
  (registered.filter fun r => r.providerName = providerName ∧ r.id = some id).map (·.proxyId)

/-- The proxy events of a name. -/
def proxiesByName (registered : List ProxyRegistration) (providerName name : String) : List Nat :=
  (registered.filter fun r => r.providerName = providerName ∧ r.id = none ∧ r.name = name).map
    (·.proxyId)

variable {guidFromProvider}

theorem proxiesOf_concat (calls : List FactoryCall) (call : FactoryCall) :
    proxiesOf guidFromProvider (calls ++ [call]) =
      addProxy guidFromProvider (proxiesOf guidFromProvider calls) call := by
  rw [proxiesOf, List.foldl_append]
  rfl

theorem addProxy_ok (registered : List ProxyRegistration) {providerName : String} {guid : Guid}
    (h : guidFromProvider providerName = .ok guid) (keyword level : Nat) (id : Option Nat)
    (name : String) (callstacks : Bool) :
    addProxy guidFromProvider registered
        (.newEvent providerName keyword level id name callstacks) =
      registered ++ [⟨providerName, id, name, registered.length + 1, callstacks⟩] := by
  unfold addProxy
  dsimp only
  rw [h]

theorem addProxy_error (registered : List ProxyRegistration) {providerName : String}
    {fault : Fault} (h : guidFromProvider providerName = .error fault) (keyword level : Nat)
    (id : Option Nat) (name : String) (callstacks : Bool) :
    addProxy guidFromProvider registered
        (.newEvent providerName keyword level id name callstacks) = registered := by
  unfold addProxy
  dsimp only
  rw [h]

/-- Proxy events are numbered from 1. -/
theorem proxyIds_proxiesOf (calls : List FactoryCall) :
    (proxiesOf guidFromProvider calls).map (·.proxyId) =
      List.range' 1 (proxiesOf guidFromProvider calls).length := by
  induction calls using List.reverseRecOn with
  | nil => rfl
  | append_singleton calls call ih =>
    rw [proxiesOf_concat]
    cases call with
    | recordProvider providerName keyword level flags => exact ih
    | newEvent providerName keyword level id name callstacks =>
      cases hguid : guidFromProvider providerName with
      | error fault =>
        rw [addProxy_error _ hguid]
        exact ih
      | ok guid =>
        rw [addProxy_ok _ hguid, List.map_append, ih, List.length_append, List.length_singleton,
          List.range'_concat]
        simp [Nat.add_comm]

/-- A proxy event is registered once. -/
theorem eq_of_proxyId_eq {calls : List FactoryCall} {r r' : ProxyRegistration}
    (hr : r ∈ proxiesOf guidFromProvider calls) (hr' : r' ∈ proxiesOf guidFromProvider calls)
    (h : r.proxyId = r'.proxyId) : r = r' := by
  have hnodup : ((proxiesOf guidFromProvider calls).map (·.proxyId)).Nodup := by
    rw [proxyIds_proxiesOf]
    exact List.nodup_range'
  exact List.inj_on_of_nodup_map hnodup hr hr' h

end Registrations

/-! ## What the factory holds -/

/-- The tables of the factory, by the proxy events and the recorders that are registered. -/
structure OSDotNetEventFactory.Holds (factory : OSDotNetEventFactory)
    (registered : List ProxyRegistration) (recorders : String → Nat) : Prop where
  proxyId : factory.proxyId = registered.length
  proxyEvents : factory.proxyEvents = registered.map fun r => (r.proxyId, r.callstacks)
  events : ∀ p, (factory.providers p).events.map (fun event => (event.1, event.2.proxyId)) =
    registered.filterMap fun r => if r.providerName = p then r.id.map (·, r.proxyId) else none
  namedEvents : ∀ p name, name ∈ (factory.providers p).namedEvents ↔
    ∃ r ∈ registered, r.providerName = p ∧ r.id = none ∧ r.name = name
  logicalEvents : ∀ p,
    (factory.providers p).logicalEvents.map (fun event => (event.1, event.2.proxyId)) =
      registered.filterMap fun r => if r.providerName = p ∧ r.id = none then
        some (numberOf (factory.providers p).namedEvents r.name, r.proxyId) else none
  callbacks : ∀ p, (factory.providers p).callbacks.length = recorders p
  names : ∀ p, p ∉ factory.names → factory.providers p = {}

namespace OSDotNetEventFactory

variable {self : OSDotNetEventFactory} {registered : List ProxyRegistration}
  {recorders : String → Nat}

theorem providers_entry (self : OSDotNetEventFactory) (providerName : String)
    (change : ProviderTables → ProviderTables) (p : String) :
    (self.entry providerName change).providers p =
      if p = providerName then change (self.providers p) else self.providers p := by
  unfold entry
  by_cases hp : p = providerName
  · rw [if_pos hp, hp]
    exact Function.update_self ..
  · rw [if_neg hp]
    exact Function.update_of_ne hp ..

/-- A provider without an entry is still the default one. -/
theorem names_entry (h : ∀ p, p ∉ self.names → self.providers p = {}) (providerName : String)
    (change : ProviderTables → ProviderTables) (p : String)
    (hp : p ∉ (self.entry providerName change).names) :
    (self.entry providerName change).providers p = {} := by
  have hnew : p ∉ self.names ∧ p ≠ providerName := by
    constructor
    · exact fun hmem => hp (mem_insertNew.mpr (.inl hmem))
    · exact fun heq => hp (mem_insertNew.mpr (.inr heq))
  rw [providers_entry, if_neg hnew.2]
  exact h p hnew.1

theorem Holds.addEvent (h : self.Holds registered recorders) (providerName : String)
    (keyword level id : Nat) (name : String) (callstacks : Bool) :
    ({ self with
        proxyId := self.proxyId + 1
        proxyEvents := self.proxyEvents ++ [(self.proxyId + 1, callstacks)] }.entry providerName
        fun tables => tables.addEvent id ⟨self.proxyId + 1, keyword, level⟩).Holds
      (registered ++ [(⟨providerName, some id, name, registered.length + 1, callstacks⟩ :
        ProxyRegistration)])
      recorders where
  proxyId := by
    rw [List.length_append, ← h.proxyId]
    rfl
  proxyEvents := by
    rw [List.map_append, ← h.proxyEvents, ← h.proxyId]
    rfl
  events p := by
    rw [providers_entry, List.filterMap_append, ← h.events p, ← h.proxyId]
    by_cases hp : p = providerName
    · rw [if_pos hp, hp]
      simp [ProviderTables.addEvent, ProviderTables.ensureKeywordLevel]
    · rw [if_neg hp]
      simp [Ne.symm hp]
  namedEvents p name' := by
    rw [providers_entry]
    have hsame : (if p = providerName then ProviderTables.addEvent (self.providers p) id
        ⟨self.proxyId + 1, keyword, level⟩ else self.providers p).namedEvents =
        (self.providers p).namedEvents := by
      split
      · rfl
      · rfl
    rw [hsame, h.namedEvents p name']
    simp
  logicalEvents p := by
    rw [providers_entry, List.filterMap_append]
    by_cases hp : p = providerName
    · rw [if_pos hp]
      simpa [ProviderTables.addEvent, ProviderTables.ensureKeywordLevel] using h.logicalEvents p
    · rw [if_neg hp]
      simpa using h.logicalEvents p
  callbacks p := by
    rw [providers_entry]
    by_cases hp : p = providerName
    · rw [if_pos hp]
      exact h.callbacks p
    · rw [if_neg hp]
      exact h.callbacks p
  names p hp := names_entry (by exact h.names) _ _ p hp

theorem Holds.addNamedEvent (h : self.Holds registered recorders) (providerName : String)
    (keyword level : Nat) (name : String) (callstacks : Bool) :
    ({ self with
        proxyId := self.proxyId + 1
        proxyEvents := self.proxyEvents ++ [(self.proxyId + 1, callstacks)] }.entry providerName
        fun tables => tables.addNamedEvent name ⟨self.proxyId + 1, keyword, level⟩ true).Holds
      (registered ++ [(⟨providerName, none, name, registered.length + 1, callstacks⟩ :
        ProxyRegistration)])
      recorders where
  proxyId := by
    rw [List.length_append, ← h.proxyId]
    rfl
  proxyEvents := by
    rw [List.map_append, ← h.proxyEvents, ← h.proxyId]
    rfl
  events p := by
    rw [providers_entry, List.filterMap_append]
    by_cases hp : p = providerName
    · rw [if_pos hp]
      simpa [ProviderTables.addNamedEvent, ProviderTables.ensureKeywordLevel] using h.events p
    · rw [if_neg hp]
      simpa using h.events p
  namedEvents p name' := by
    rw [providers_entry]
    by_cases hp : p = providerName
    · rw [if_pos hp]
      have hinsert : (ProviderTables.addNamedEvent (self.providers p) name
          ⟨self.proxyId + 1, keyword, level⟩ true).namedEvents =
          insertNew (self.providers p).namedEvents name := rfl
      have hnamed := h.namedEvents p name'
      subst hp
      rw [hinsert, mem_insertNew, hnamed]
      simp [or_and_right, exists_or, eq_comm]
    · rw [if_neg hp, h.namedEvents p name']
      simp [Ne.symm hp, or_and_right, exists_or]
  logicalEvents p := by
    rw [providers_entry, List.filterMap_append]
    by_cases hp : p = providerName
    · rw [if_pos hp]
      have hinsert : (ProviderTables.addNamedEvent (self.providers p) name
          ⟨self.proxyId + 1, keyword, level⟩ true).namedEvents =
          insertNew (self.providers p).namedEvents name := rfl
      have hlogical : (ProviderTables.addNamedEvent (self.providers p) name
          ⟨self.proxyId + 1, keyword, level⟩ true).logicalEvents =
          (self.providers p).logicalEvents ++
            [(numberOf (insertNew (self.providers p).namedEvents name) name,
              ⟨self.proxyId + 1, keyword, level⟩)] := rfl
      -- the names that are there keep their numbers
      have hkept : (registered.filterMap fun r => if r.providerName = p ∧ r.id = none then
            some (numberOf (insertNew (self.providers p).namedEvents name) r.name, r.proxyId)
          else none) =
          registered.filterMap fun r => if r.providerName = p ∧ r.id = none then
            some (numberOf (self.providers p).namedEvents r.name, r.proxyId) else none := by
        refine List.filterMap_congr fun r hr => ?_
        by_cases hnamed : r.providerName = p ∧ r.id = none
        · have hmem : r.name ∈ (self.providers p).namedEvents :=
            (h.namedEvents p r.name).mpr ⟨r, hr, hnamed.1, hnamed.2, rfl⟩
          rw [if_pos hnamed, if_pos hnamed, numberOf_extend (prefix_insertNew _ name) hmem]
        · rw [if_neg hnamed, if_neg hnamed]
      rw [hlogical, hinsert, List.map_append, h.logicalEvents p, hkept]
      simp [hp, h.proxyId]
    · rw [if_neg hp]
      simpa [Ne.symm hp] using h.logicalEvents p
  callbacks p := by
    rw [providers_entry]
    by_cases hp : p = providerName
    · rw [if_pos hp]
      exact h.callbacks p
    · rw [if_neg hp]
      exact h.callbacks p
  names p hp := names_entry (by exact h.names) _ _ p hp

/-- Recorders leave the events alone. -/
theorem Holds.recordProvider (h : self.Holds registered recorders) (provider : Exec Guid)
    (providerName : String) (keyword level : Nat) (flags : DotNetProviderFlags)
    {recorders' : String → Nat}
    (hrecorders : ∀ p, recorders' p =
      recorders p + if p = providerName ∧ provider.isOk then 1 else 0) :
    (self.recordProvider provider providerName keyword level flags).Holds registered
      recorders' := by
  have hsame : ∀ p,
      ((self.recordProvider provider providerName keyword level flags).providers p).events =
          (self.providers p).events ∧
        ((self.recordProvider provider providerName keyword level flags).providers p).namedEvents =
          (self.providers p).namedEvents ∧
        ((self.recordProvider provider providerName keyword level flags).providers
          p).logicalEvents = (self.providers p).logicalEvents := by
    intro p
    rw [OSDotNetEventFactory.recordProvider, providers_entry]
    split
    · cases provider with
      | error fault => exact ⟨rfl, rfl, rfl⟩
      | ok guid => exact ⟨rfl, rfl, rfl⟩
    · exact ⟨rfl, rfl, rfl⟩
  refine ⟨h.proxyId, h.proxyEvents, fun p => ?_, fun p name => ?_, fun p => ?_, fun p => ?_,
    names_entry h.names providerName _⟩
  · rw [(hsame p).1]
    exact h.events p
  · rw [(hsame p).2.1]
    exact h.namedEvents p name
  · rw [(hsame p).2.2, (hsame p).2.1]
    exact h.logicalEvents p
  · rw [hrecorders, ← h.callbacks p, OSDotNetEventFactory.recordProvider, providers_entry]
    by_cases hp : p = providerName
    · rw [if_pos hp]
      cases provider with
      | error fault => simp [ProviderTables.recordProvider, ProviderTables.ensureKeywordLevel,
          Except.isOk, Except.toBool]
      | ok guid => simp [ProviderTables.recordProvider, ProviderTables.ensureKeywordLevel, hp,
          Except.isOk, Except.toBool]
    · rw [if_neg hp, if_neg fun h => hp h.1]
      rfl

theorem after_concat (guidFromProvider : String → Exec Guid) (calls : List FactoryCall)
    (call : FactoryCall) :
    after guidFromProvider (calls ++ [call]) =
      (after guidFromProvider calls).call guidFromProvider call := by
  rw [after, List.foldl_append]
  rfl

/-- **Tables of the factory.** They hold what the calls register, and no more. -/
theorem holds_after (guidFromProvider : String → Exec Guid) (calls : List FactoryCall) :
    (after guidFromProvider calls).Holds (proxiesOf guidFromProvider calls)
      fun p => recordersOf guidFromProvider p calls := by
  induction calls using List.reverseRecOn with
  | nil =>
    refine ⟨rfl, rfl, fun _ => rfl, fun p name => ?_, fun _ => rfl, fun p => ?_, fun _ _ => rfl⟩
    · constructor
      · exact fun h => (List.not_mem_nil h).elim
      · rintro ⟨r, hr, -⟩
        exact (List.not_mem_nil hr).elim
    · unfold recordersOf
      split
      · rfl
      · rfl
  | append_singleton calls call ih =>
    rw [after_concat, proxiesOf_concat]
    cases call with
    | recordProvider providerName keyword level flags =>
      refine ih.recordProvider _ providerName keyword level flags fun p => ?_
      unfold recordersOf
      cases hguid : guidFromProvider p with
      | error fault =>
        by_cases hp : p = providerName
        · simp [← hp, hguid, Except.isOk, Except.toBool]
        · simp [hp]
      | ok guid =>
        by_cases hp : p = providerName
        · simp [← hp, hguid, Except.isOk, Except.toBool]
        · simp [hp, Ne.symm hp]
    | newEvent providerName keyword level id name callstacks =>
      have hrecorders : (fun p => recordersOf guidFromProvider p
          (calls ++ [.newEvent providerName keyword level id name callstacks])) =
          fun p => recordersOf guidFromProvider p calls := by
        funext p
        unfold recordersOf
        cases guidFromProvider p with
        | error fault => rfl
        | ok guid => simp
      rw [hrecorders]
      unfold OSDotNetEventFactory.call OSDotNetEventFactory.newEvent
      cases hguid : guidFromProvider providerName with
      | error fault =>
        rw [addProxy_error _ hguid]
        dsimp only
        rw [hguid]
        exact ih
      | ok guid =>
        rw [addProxy_ok _ hguid]
        dsimp only
        rw [hguid]
        cases id with
        | none => exact ih.addNamedEvent providerName keyword level name callstacks
        | some id => exact ih.addEvent providerName keyword level id name callstacks

/-! ## What is looked up -/

/-- The proxy events that an id leads to. -/
theorem Holds.proxiesById (h : self.Holds registered recorders) (p : String) (id : Nat) :
    (self.providers p).provider.events id = proxiesById registered p id := by
  have hevents := congrArg (fun events => (events.filter (·.1 = id)).map (·.2)) (h.events p)
  rw [List.filter_map, List.map_map] at hevents
  refine hevents.trans ?_
  unfold Dotnet.proxiesById
  clear hevents h
  induction registered with
  | nil => rfl
  | cons r registered ih =>
    obtain ⟨providerName, id', name, proxyId, callstacks⟩ := r
    by_cases hp : providerName = p
    · cases id' with
      | none => simpa [hp] using ih
      | some id' =>
        by_cases hid : id' = id
        · simpa [hp, hid] using ih
        · simpa [hp, hid] using ih
    · simpa [hp] using ih

/-- The proxy events that a registered name leads to. -/
theorem Holds.proxiesByName (h : self.Holds registered recorders) {p name : String} {n : Nat}
    (hname : (self.providers p).provider.namedEvents name = some n) :
    (self.providers p).provider.logicalEvents n = proxiesByName registered p name := by
  unfold ProviderTables.provider at hname
  dsimp only at hname
  split at hname
  · rename_i hmem
    cases hname
    have hlogical := congrArg (fun events =>
      (events.filter (·.1 = numberOf (self.providers p).namedEvents name)).map (·.2))
      (h.logicalEvents p)
    rw [List.filter_map, List.map_map] at hlogical
    refine hlogical.trans ?_
    -- registered names have different numbers
    have hnumber : ∀ r ∈ registered, r.providerName = p → r.id = none →
        (numberOf (self.providers p).namedEvents r.name =
          numberOf (self.providers p).namedEvents name ↔ r.name = name) := by
      intro r hr hrp hrid
      have hrmem := (h.namedEvents p r.name).mpr ⟨r, hr, hrp, hrid, rfl⟩
      exact ⟨fun heq => (List.idxOf_inj hrmem).mp heq, fun heq => by rw [heq]⟩
    unfold Dotnet.proxiesByName
    generalize (self.providers p).namedEvents = namedEvents at hnumber
    clear hlogical h hmem
    induction registered with
    | nil => rfl
    | cons r registered ih =>
      have ih' := ih fun r' hr' => hnumber r' (List.mem_cons_of_mem _ hr')
      by_cases hr : r.providerName = p ∧ r.id = none
      · have hsame := hnumber r List.mem_cons_self hr.1 hr.2
        by_cases hrname : r.name = name
        · simpa [hr, hrname] using ih'
        · simpa [hr, hrname, mt hsame.mp hrname] using ih'
      · have hnot : ¬ (r.providerName = p ∧ r.id = none ∧ r.name = name) :=
          fun hall => hr ⟨hall.1, hall.2.1⟩
        simpa [hr, hnot] using ih'
  · cases hname

theorem Holds.proxiesByName_eq_nil (h : self.Holds registered recorders) {p name : String}
    (hname : (self.providers p).provider.namedEvents name = none) :
    Dotnet.proxiesByName registered p name = [] := by
  unfold ProviderTables.provider at hname
  dsimp only at hname
  split at hname
  · cases hname
  · rename_i hmem
    rw [h.namedEvents] at hmem
    unfold Dotnet.proxiesByName
    rw [List.filter_eq_nil_iff.mpr fun r hr hall => ?_]
    · rfl
    · exact hmem ⟨r, hr, of_decide_eq_true hall⟩

end OSDotNetEventFactory

end OneCollect.Dotnet
