import Mathlib.Data.List.Nodup
import OneCollect.Etw.Session

/-! Whether registrations of a session take records from each other.

A registration alone is reached by the records of its provider with its id, level and a keyword.
Beside others its level and keywords only grow, and so does the list of ids. But a list of ids
shuts a wild card out, a rundown registration disables the provider while the session runs, and
the last registration of a dispatch provider decides whether its records are looked up by opcode
(`untaken_iff`). -/

namespace OneCollect.Etw

/-! ## What a registration asks for -/

namespace Registration

/-- The provider that is enabled. -/
def provider : Registration → Guid
  | .add event _ => event.provider
  | .addRundown event _ => event.provider
  | .singleton event => event.provider

/-- Another provider under which the records come. -/
def lookupProvider : Registration → Option Guid
  | .add event _ =>
    let lookupProvider := event.lookupProvider.getD event.provider
    if event.provider ≠ lookupProvider then some lookupProvider else none
  | .addRundown _ _ => none
  | .singleton event => event.lookupProvider

def wild : Registration → Bool
  | .add event _ => event.idWildCard
  | .addRundown event _ => event.idWildCard
  | .singleton _ => false

def id : Registration → Nat
  | .add event _ => event.id
  | .addRundown event _ => event.id
  | .singleton event => event.id

def level : Registration → Nat
  | .add event _ => event.level
  | .addRundown event _ => event.level
  | .singleton _ => 0

def keyword : Registration → Nat
  | .add event _ => event.keyword
  | .addRundown event _ => event.keyword
  | .singleton event => event.keyword

def rundown : Registration → Bool
  | .addRundown _ _ => true
  | _ => false

def captures : Registration → Bool
  | .singleton event => event.captureEnvironment
  | _ => false

/-- No filter of ids is wanted. -/
def unfiltered : Registration → Bool
  | .singleton event => event.noFiltering
  | _ => false

/-- The provider under which the records come. -/
def dispatchProvider (self : Registration) : Guid :=
  if self.wild then self.provider else self.lookupProvider.getD self.provider

/-- The records are looked up by opcode. -/
def byOpcode (self : Registration) : Bool := self.lookupProvider.isSome

/-- Records can reach the registration when it is alone. -/
def Visible (self : Registration) : Prop :=
  self.provider ≠ emptyProvider ∧ self.keyword ≠ 0 ∧
    (¬ self.wild → self.byOpcode → self.id < 2 ^ 8)

/-- Alone, the registration is enabled while the session runs. -/
def Live (self : Registration) : Prop := self.captures ∨ ¬ self.rundown

instance : DecidablePred Visible := fun _ => inferInstanceAs (Decidable (_ ∧ _))

instance : DecidablePred Live := fun _ => inferInstanceAs (Decidable (_ ∨ _))

end Registration

section Spec

variable (registrations : List Registration)

/-- The ids that are listed for a provider. -/
def idsOf (provider : Guid) : List Nat :=
  (registrations.filter fun r => r.provider = provider ∧ ¬ r.wild).map fun r => r.id % 2 ^ 16

/-- A filter of ids is passed for a provider. -/
def Filtered (provider : Guid) : Prop :=
  (∀ r ∈ registrations, r.provider = provider → ¬ r.unfiltered) ∧
    idsOf registrations provider ≠ [] ∧ (idsOf registrations provider).length ≤ 64

instance : DecidablePred (Filtered registrations) := fun _ => inferInstanceAs (Decidable (_ ∧ _))

/-- The last registration of a dispatch provider decides how its records are looked up. -/
def lastByOpcode (provider : Guid) : Bool :=
  registrations.foldl (fun mode r =>
    if ¬ r.wild ∧ r.dispatchProvider = provider then r.byOpcode else mode) false

/-- The event of the registration at a position. -/
def eventAt (i : Nat) (r : Registration) : Nat :=
  (r.run i (sessionOf (registrations.take i))).1

/-- The record reaches the event of a registration when it is the only one. -/
def ReachesAlone (r : Registration) (phase : Phase) (record : EventRecord) : Prop :=
  (sessionOf [r]).Delivers phase record ∧ 0 ∈ (sessionOf [r]).dispatch record

/-- Every record that reaches a registration alone reaches it once beside the others. -/
def Untaken : Prop :=
  ∀ (i : Nat) (r : Registration), registrations[i]? = some r → ∀ phase record,
    ReachesAlone r phase record →
    (sessionOf registrations).Delivers phase record ∧
      ((sessionOf registrations).dispatch record).count (eventAt registrations i r) = 1

/-- No registration that records can reach is disturbed by the others. -/
structure Undisturbed : Prop where
  live : ∀ r ∈ registrations, r.Visible → r.Live →
    (∃ o ∈ registrations, o.provider = r.provider ∧ o.rundown) →
    ∃ o ∈ registrations, o.provider = r.provider ∧ o.captures
  wild : ∀ r ∈ registrations, r.Visible → r.wild → ¬ Filtered registrations r.provider
  mode : ∀ r ∈ registrations, r.Visible → ¬ r.wild →
    lastByOpcode registrations r.dispatchProvider = r.byOpcode ∨ (r.byOpcode ∧ ¬ r.unfiltered)

end Spec

/-! ## One registration -/

namespace Registration

/-- The event's callstacks are wanted. -/
def callstacks : Registration → Bool
  | .add event _ => !event.noCallstack
  | .addRundown event _ => !event.noCallstack
  | .singleton _ => false

/-- What the registration makes of the enabling of its provider. -/
def act (self : Registration) (enabler : TraceEnable) : TraceEnable :=
  let enabler :=
    if self.wild then enabler else enabler.addEvent (self.id % 2 ^ 16) self.callstacks
  match self with
  | .add event properties => EtwSession.ensureProperties properties
      ((enabler.ensureLevel event.level).ensureKeyword event.keyword)
  | .addRundown event properties => EtwSession.ensureProperties properties
      ((enabler.ensureRundown.ensureLevel event.level).ensureKeyword event.keyword)
  | .singleton event => event.ensure enabler

/-- What the registration makes of the events of its id. -/
def grow (self : Registration) (number : Nat) (events : List Nat) : List Nat :=
  match self with
  | .singleton _ => if events.isEmpty then [number] else events
  | _ => events ++ [number]

end Registration

/-- What a list of properties leaves alone. -/
theorem ensureProperties_same (properties : Option Nat) (enabler : TraceEnable) :
    (EtwSession.ensureProperties properties enabler).level = enabler.level ∧
      (EtwSession.ensureProperties properties enabler).keyword = enabler.keyword ∧
      (EtwSession.ensureProperties properties enabler).events = enabler.events ∧
      (EtwSession.ensureProperties properties enabler).noFiltering = enabler.noFiltering ∧
      (EtwSession.ensureProperties properties enabler).rundown = enabler.rundown ∧
      (EtwSession.ensureProperties properties enabler).captureEnvironment =
        enabler.captureEnvironment := by
  cases properties <;> exact ⟨rfl, rfl, rfl, rfl, rfl, rfl⟩

theorem ensureLevel_eq (enabler : TraceEnable) (level : Nat) :
    enabler.ensureLevel level = { enabler with level := max enabler.level level } := by
  unfold TraceEnable.ensureLevel
  split
  · rename_i hlevel
    rw [Nat.max_eq_right (Nat.le_of_lt hlevel)]
  · rename_i hlevel
    rw [Nat.max_eq_left (Nat.le_of_not_lt hlevel)]

/-- The fields of an enabling after a registration. -/
structure Acted (r : Registration) (enabler after : TraceEnable) : Prop where
  level : after.level = max enabler.level r.level
  keyword : after.keyword = enabler.keyword ||| r.keyword
  events : after.events = enabler.events ++ if r.wild then [] else [r.id % 2 ^ 16]
  noFiltering : after.noFiltering = (enabler.noFiltering || r.unfiltered)
  rundown : after.rundown = (enabler.rundown || r.rundown)
  captures : after.captureEnvironment = (enabler.captureEnvironment || r.captures)

theorem acted (r : Registration) (enabler : TraceEnable) : Acted r enabler (r.act enabler) := by
  have hids : ∀ (wild : Bool) (id : Nat) (callstacks : Bool),
      (if wild then enabler else enabler.addEvent id callstacks) =
        { enabler with
          events := enabler.events ++ if wild then [] else [id]
          callstacks := if wild then enabler.callstacks
            else (enabler.addEvent id callstacks).callstacks } := by
    intro wild id callstacks
    cases wild
    · rfl
    · simp
  cases r with
  | add event properties =>
    unfold Registration.act
    dsimp only
    rw [hids, ensureLevel_eq]
    obtain ⟨hlevel, hkeyword, hevents, hfilter, hrundown, hcapture⟩ :=
      ensureProperties_same properties _
    refine ⟨hlevel, hkeyword, hevents, hfilter.trans ?_, hrundown.trans ?_, hcapture.trans ?_⟩
    · exact (Bool.or_false _).symm
    · exact (Bool.or_false _).symm
    · exact (Bool.or_false _).symm
  | addRundown event properties =>
    unfold Registration.act
    dsimp only
    rw [hids, ensureLevel_eq]
    obtain ⟨hlevel, hkeyword, hevents, hfilter, hrundown, hcapture⟩ :=
      ensureProperties_same properties _
    refine ⟨hlevel, hkeyword, hevents, hfilter.trans ?_, hrundown.trans ?_, hcapture.trans ?_⟩
    · exact (Bool.or_false _).symm
    · exact (Bool.or_true _).symm
    · exact (Bool.or_false _).symm
  | singleton event =>
    obtain ⟨provider, lookupProvider, noFiltering, captureEnvironment, keyword, id⟩ := event
    cases noFiltering <;> cases captureEnvironment
    all_goals
      refine ⟨(Nat.max_zero _).symm, rfl, rfl, ?_, (Bool.or_false _).symm, ?_⟩
    all_goals first | exact (Bool.or_false _).symm | exact (Bool.or_true _).symm

section Run

variable (session : EtwSession) (provider : Guid)

theorem enabled_enableProvider (own : Guid) (ensure : TraceEnable → TraceEnable) :
    (session.enableProvider own ensure).enabled provider =
      if provider = own then some (ensure ((session.enabled provider).getD {}))
      else session.enabled provider := by
  unfold EtwSession.enableProvider
  dsimp only
  rw [Function.update_apply]
  split
  · rename_i hown
    rw [hown]
  · rfl

theorem enabled_providerEventsMut (own : Guid) (lookupProvider : Option Guid)
    (ensure : TraceEnable → TraceEnable) (id : Nat) (callstacks : Bool)
    (change : List Nat → List Nat) :
    (session.providerEventsMut own lookupProvider ensure id callstacks change).enabled provider =
      if provider = own ∧ provider ≠ emptyProvider then
        some (ensure (((session.enabled provider).getD {}).addEvent (id % 2 ^ 16) callstacks))
      else session.enabled provider := by
  show EtwSession.enabled (if own ≠ emptyProvider then session.enableProvider own fun enabler =>
    ensure (enabler.addEvent (id % 2 ^ 16) callstacks) else session) provider = _
  by_cases hempty : own = emptyProvider
  · rw [if_neg (not_not.mpr hempty), if_neg fun hand => hand.2 (hand.1.trans hempty)]
  · rw [if_pos hempty, enabled_enableProvider]
    by_cases hown : provider = own
    · rw [if_pos hown, if_pos ⟨hown, hown ▸ hempty⟩]
    · rw [if_neg hown, if_neg fun hand => hown hand.1]

theorem enabled_addComplexEvent (own : Guid) (ensure : TraceEnable → TraceEnable)
    (event : EtwEvent) (number : Nat) :
    (session.addComplexEvent own ensure event number).enabled provider =
      if provider = own ∧ provider ≠ emptyProvider then
        some (ensure (if event.idWildCard then (session.enabled provider).getD {}
          else ((session.enabled provider).getD {}).addEvent (event.id % 2 ^ 16)
            (!event.noCallstack)))
      else session.enabled provider := by
  unfold EtwSession.addComplexEvent
  dsimp only
  by_cases hwild : event.idWildCard = true
  · rw [if_pos hwild, if_pos hwild]
    by_cases hempty : own = emptyProvider
    · rw [if_neg (not_not.mpr hempty), if_neg fun hand => hand.2 (hand.1.trans hempty)]
    · rw [if_pos hempty]
      refine (enabled_enableProvider session provider own ensure).trans ?_
      by_cases hown : provider = own
      · rw [if_pos hown, if_pos ⟨hown, hown ▸ hempty⟩]
      · rw [if_neg hown, if_neg fun hand => hown hand.1]
  · rw [if_neg hwild, if_neg hwild]
    exact enabled_providerEventsMut session provider _ _ _ _ _ _

/-- A registration acts on the enabling of its own provider, unless that is the empty one. -/
theorem enabled_run (r : Registration) (number : Nat) :
    (r.run number session).2.enabled provider =
      if provider = r.provider ∧ provider ≠ emptyProvider then
        some (r.act ((session.enabled provider).getD {}))
      else session.enabled provider := by
  cases r with
  | add event properties => exact enabled_addComplexEvent session provider _ _ _ _
  | addRundown event properties => exact enabled_addComplexEvent session provider _ _ _ _
  | singleton event => exact enabled_providerEventsMut session provider _ _ _ _ _ _

theorem eventsOf_withEvents (own : Guid) (events : ProviderEvents) :
    (session.withEvents own events).eventsOf provider =
      if provider = own then events else session.eventsOf provider := by
  unfold EtwSession.withEvents EtwSession.eventsOf
  dsimp only
  rw [Function.update_apply]
  split <;> rfl

theorem eventsOf_providerEventsMut (own : Guid) (lookupProvider : Option Guid)
    (ensure : TraceEnable → TraceEnable) (id : Nat) (callstacks : Bool)
    (change : List Nat → List Nat) :
    (session.providerEventsMut own lookupProvider ensure id callstacks change).eventsOf provider =
      if provider = lookupProvider.getD own then
        { session.eventsOf provider with
          useOpId := lookupProvider.isSome
          events := Function.update (session.eventsOf provider).events id
            (change ((session.eventsOf provider).events id)) }
      else session.eventsOf provider := by
  have hsame : ∀ own, EtwSession.eventsOf (if own ≠ emptyProvider then
      session.enableProvider own fun enabler =>
        ensure (enabler.addEvent (id % 2 ^ 16) callstacks) else session) = session.eventsOf := by
    intro own
    split <;> rfl
  unfold EtwSession.providerEventsMut
  dsimp only
  rw [eventsOf_withEvents, hsame own]
  split
  · rename_i hown
    rw [hown]
  · rfl

theorem addComplexEvent_of_id {own : Guid} {ensure : TraceEnable → TraceEnable} {event : EtwEvent}
    (hevent : event.idWildCard = false) (number : Nat) :
    session.addComplexEvent own ensure event number =
      session.providerEventsMut own (if own ≠ event.provider then some event.provider else none)
        ensure event.id (!event.noCallstack) (· ++ [number]) := by
  unfold EtwSession.addComplexEvent
  rw [hevent]
  rfl

/-- A registration of an id adds to the events of the id, and it decides how records are looked
up. -/
theorem eventsOf_run {r : Registration} (hwild : r.wild = false) (number : Nat) :
    (r.run number session).2.eventsOf provider =
      if provider = r.dispatchProvider then
        { session.eventsOf provider with
          useOpId := r.byOpcode
          events := Function.update (session.eventsOf provider).events r.id
            (r.grow number ((session.eventsOf provider).events r.id)) }
      else session.eventsOf provider := by
  have hown : r.dispatchProvider = r.lookupProvider.getD r.provider := by
    rw [Registration.dispatchProvider, hwild]
    rfl
  rw [hown]
  cases r with
  | add event properties =>
    have hevent : EtwEvent.idWildCard { event with
        provider := event.lookupProvider.getD event.provider, lookupProvider := none } = false :=
      hwild
    show (session.addComplexEvent _ _ _ _).eventsOf provider = _
    rw [addComplexEvent_of_id session hevent]
    exact eventsOf_providerEventsMut session provider _ _ _ _ _ (· ++ [number])
  | addRundown event properties =>
    have hevent : event.idWildCard = false := hwild
    show (session.addComplexEvent _ _ _ _).eventsOf provider = _
    rw [addComplexEvent_of_id session hevent, if_neg (not_not.mpr rfl)]
    exact eventsOf_providerEventsMut session provider _ _ _ _ _ (· ++ [number])
  | singleton event =>
    exact eventsOf_providerEventsMut session provider event.provider event.lookupProvider
      event.ensure event.id false fun events => if events.isEmpty then [number] else events

/-- A wild card is added to its own provider, unless that is the empty one. -/
theorem eventsOf_run_wild {r : Registration} (hwild : r.wild = true) (number : Nat) :
    (r.run number session).2.eventsOf provider =
      if provider = r.provider ∧ r.provider ≠ emptyProvider then
        { session.eventsOf provider with
          wideEvents := (session.eventsOf provider).wideEvents ++ [number] }
      else session.eventsOf provider := by
  have hcomplex : ∀ (own : Guid) (ensure : TraceEnable → TraceEnable) (event : EtwEvent),
      event.idWildCard = true →
      (session.addComplexEvent own ensure event number).eventsOf provider =
        if provider = own ∧ own ≠ emptyProvider then
          { session.eventsOf provider with
            wideEvents := (session.eventsOf provider).wideEvents ++ [number] }
        else session.eventsOf provider := by
    intro own ensure event hevent
    unfold EtwSession.addComplexEvent
    dsimp only
    rw [if_pos hevent]
    by_cases hempty : own = emptyProvider
    · rw [if_neg (not_not.mpr hempty), if_neg fun hand => hand.2 hempty]
    · rw [if_pos hempty, eventsOf_withEvents]
      by_cases hown : provider = own
      · rw [if_pos hown, if_pos ⟨hown, hempty⟩, hown]
        rfl
      · rw [if_neg hown, if_neg fun hand => hown hand.1]
        rfl
  cases r with
  | add event properties => exact hcomplex _ _ _ hwild
  | addRundown event properties => exact hcomplex _ _ _ hwild
  | singleton event => cases hwild

/-- The event of a registration is among those of its id. -/
theorem event_mem_grow {r : Registration} (hwild : r.wild = false) (number : Nat) :
    (r.run number session).1 ∈
      r.grow number ((session.eventsOf r.dispatchProvider).events r.id) := by
  cases r with
  | add event properties => exact List.mem_append_right _ List.mem_cons_self
  | addRundown event properties => exact List.mem_append_right _ List.mem_cons_self
  | singleton event =>
    have hevents := eventsOf_run session (Registration.singleton event).dispatchProvider
      (r := .singleton event) rfl number
    rw [if_pos rfl] at hevents
    have hgrown : (((Registration.singleton event).run number session).2.eventsOf
        (Registration.singleton event).dispatchProvider).events event.id =
        (Registration.singleton event).grow number ((session.eventsOf
          (Registration.singleton event).dispatchProvider).events event.id) := by
      rw [hevents]
      exact Function.update_self _ _ _
    show List.headD (((session.enableSingletonEvent event number).2.eventsOf _).events event.id)
      number ∈ _
    rw [show ((session.enableSingletonEvent event number).2.eventsOf
      (event.lookupProvider.getD event.provider)).events event.id = _ from hgrown]
    unfold Registration.grow
    dsimp only
    cases hlist : (session.eventsOf (Registration.singleton event).dispatchProvider).events
        event.id with
    | nil =>
      rw [show (session.eventsOf (Registration.singleton event).dispatchProvider).events
        (Registration.singleton event).id = [] from hlist]
      exact List.mem_cons_self
    | cons first rest =>
      rw [show (session.eventsOf (Registration.singleton event).dispatchProvider).events
        (Registration.singleton event).id = first :: rest from hlist]
      exact List.mem_cons_self

end Run

/-! ## Many registrations -/

theorem registerFrom_concat (number : Nat) (session : EtwSession)
    (registrations : List Registration) (r : Registration) :
    registerFrom number session (registrations ++ [r]) =
      (r.run (number + registrations.length) (registerFrom number session registrations)).2 := by
  induction registrations generalizing number session with
  | nil => rfl
  | cons first rest ih =>
    show registerFrom (number + 1) _ (rest ++ [r]) = _
    rw [ih]
    show (r.run (number + 1 + rest.length) _).2 = (r.run (number + (rest.length + 1)) _).2
    rw [Nat.add_right_comm, Nat.add_assoc]
    rfl

theorem sessionOf_concat (registrations : List Registration) (r : Registration) :
    sessionOf (registrations ++ [r]) =
      (r.run registrations.length (sessionOf registrations)).2 := by
  unfold sessionOf
  rw [registerFrom_concat, Nat.zero_add]

/-- What the registrations of a provider make of its enabling. -/
structure Enables (registrations : List Registration) (provider : Guid)
    (enabled : Option TraceEnable) : Prop where
  present : (∃ r ∈ registrations, r.provider = provider) → ∃ enabler, enabled = some enabler
  level : ∀ r ∈ registrations, r.provider = provider → r.level ≤ (enabled.getD {}).level
  keyword : ∀ r ∈ registrations, r.provider = provider →
    ∀ k, r.keyword &&& k ≠ 0 → (enabled.getD {}).keyword &&& k ≠ 0
  events : (enabled.getD {}).events = idsOf registrations provider
  noFiltering : (enabled.getD {}).noFiltering = true ↔
    ∃ r ∈ registrations, r.provider = provider ∧ r.unfiltered
  rundown : (enabled.getD {}).rundown = true ↔
    ∃ r ∈ registrations, r.provider = provider ∧ r.rundown
  captures : (enabled.getD {}).captureEnvironment = true ↔
    ∃ r ∈ registrations, r.provider = provider ∧ r.captures

theorem idsOf_concat (registrations : List Registration) (r : Registration) (provider : Guid) :
    idsOf (registrations ++ [r]) provider = idsOf registrations provider ++
      if r.provider = provider ∧ ¬ r.wild then [r.id % 2 ^ 16] else [] := by
  unfold idsOf
  rw [List.filter_append, List.map_append]
  congr 1
  by_cases h : r.provider = provider ∧ ¬ r.wild
  · rw [if_pos h, List.filter_cons_of_pos (by simpa using h)]
    rfl
  · rw [if_neg h, List.filter_cons_of_neg (by simpa using h)]
    rfl

theorem exists_mem_concat {registrations : List Registration} {r : Registration}
    {p : Registration → Prop} :
    (∃ o ∈ registrations ++ [r], p o) ↔ (∃ o ∈ registrations, p o) ∨ p r := by
  constructor
  · rintro ⟨o, ho, hp⟩
    rcases List.mem_append.mp ho with hold | hnew
    · exact .inl ⟨o, hold, hp⟩
    · exact .inr (List.mem_singleton.mp hnew ▸ hp)
  · rintro (⟨o, ho, hp⟩ | hp)
    · exact ⟨o, List.mem_append_left _ ho, hp⟩
    · exact ⟨r, List.mem_append_right _ List.mem_cons_self, hp⟩

/-- A registration of the provider adds to what is enabled. -/
theorem Enables.concat {registrations : List Registration} {r : Registration}
    {enabled : Option TraceEnable} (h : Enables registrations r.provider enabled) :
    Enables (registrations ++ [r]) r.provider (some (r.act (enabled.getD {}))) := by
  obtain ⟨hlevel, hkeyword, hevents, hfilter, hrundown, hcaptures⟩ := acted r (enabled.getD {})
  refine ⟨fun _ => ⟨_, rfl⟩, ?_, ?_, ?_, ?_, ?_, ?_⟩
  · intro o ho hprovider
    rw [Option.getD_some, hlevel]
    rcases List.mem_append.mp ho with hold | hnew
    · exact Nat.le_trans (h.level o hold hprovider) (Nat.le_max_left _ _)
    · rw [List.mem_singleton.mp hnew]
      exact Nat.le_max_right _ _
  · intro o ho hprovider k hk
    rw [Option.getD_some, hkeyword, Nat.and_or_distrib_right]
    rcases List.mem_append.mp ho with hold | hnew
    · exact fun hzero => h.keyword o hold hprovider k hk (Nat.or_eq_zero_iff.mp hzero).1
    · rw [List.mem_singleton.mp hnew] at hk
      exact fun hzero => hk (Nat.or_eq_zero_iff.mp hzero).2
  · rw [Option.getD_some, hevents, h.events, idsOf_concat]
    cases r.wild <;> simp
  · rw [Option.getD_some, hfilter, Bool.or_eq_true, h.noFiltering, exists_mem_concat]
    simp
  · rw [Option.getD_some, hrundown, Bool.or_eq_true, h.rundown, exists_mem_concat]
    simp
  · rw [Option.getD_some, hcaptures, Bool.or_eq_true, h.captures, exists_mem_concat]
    simp

/-- A registration of another provider changes nothing. -/
theorem Enables.concat_other {registrations : List Registration} {r : Registration}
    {provider : Guid} {enabled : Option TraceEnable} (h : Enables registrations provider enabled)
    (hother : r.provider ≠ provider) : Enables (registrations ++ [r]) provider enabled := by
  have hold : ∀ o ∈ registrations ++ [r], o.provider = provider → o ∈ registrations := by
    intro o ho hprovider
    rcases List.mem_append.mp ho with hold | hnew
    · exact hold
    · rw [List.mem_singleton.mp hnew] at hprovider
      exact absurd hprovider hother
  refine ⟨?_, ?_, ?_, ?_, ?_, ?_, ?_⟩
  · rintro ⟨o, ho, hprovider⟩
    exact h.present ⟨o, hold o ho hprovider, hprovider⟩
  · exact fun o ho hprovider => h.level o (hold o ho hprovider) hprovider
  · exact fun o ho hprovider => h.keyword o (hold o ho hprovider) hprovider
  · rw [idsOf_concat, if_neg fun hand => hother hand.1, List.append_nil]
    exact h.events
  · rw [h.noFiltering, exists_mem_concat]
    simp [hother]
  · rw [h.rundown, exists_mem_concat]
    simp [hother]
  · rw [h.captures, exists_mem_concat]
    simp [hother]

/-- **Enabling.** Every registration of a provider is in what is enabled for it. -/
theorem enables_sessionOf (registrations : List Registration) {provider : Guid}
    (h : provider ≠ emptyProvider) :
    Enables registrations provider ((sessionOf registrations).enabled provider) := by
  induction registrations using List.reverseRecOn with
  | nil =>
    exact ⟨by simp, by simp, by simp, rfl, by simp [sessionOf, registerFrom],
      by simp [sessionOf, registerFrom], by simp [sessionOf, registerFrom]⟩
  | append_singleton registrations r ih =>
    rw [sessionOf_concat, enabled_run]
    by_cases hown : provider = r.provider
    · subst hown
      rw [if_pos ⟨rfl, h⟩]
      exact ih.concat
    · rw [if_neg fun hand => hown hand.1]
      exact ih.concat_other (Ne.symm hown)

/-! ## Dispatching -/

/-- The id under which the events of a record are looked up. -/
def EventRecord.lookupId (self : EventRecord) (byOpcode : Bool) : Nat :=
  if byOpcode then self.opcode.toNat else self.id.toNat

theorem dispatch_eq (session : EtwSession) (record : EventRecord) :
    session.dispatch record =
      (session.eventsOf record.provider).events
          (record.lookupId (session.eventsOf record.provider).useOpId) ++
        (session.eventsOf record.provider).wideEvents := by
  unfold EtwSession.dispatch EtwSession.eventsOf EventRecord.lookupId
  cases session.providers record.provider <;> rfl

/-- Events have numbers below a number, and each is at one place. -/
structure Placed (number : Nat) (session : EtwSession) : Prop where
  below : ∀ provider id, ∀ n ∈ (session.eventsOf provider).events id, n < number
  belowWide : ∀ provider, ∀ n ∈ (session.eventsOf provider).wideEvents, n < number
  once : ∀ provider id, ((session.eventsOf provider).events id ++
    (session.eventsOf provider).wideEvents).Nodup
  same : ∀ provider id id' n, n ∈ (session.eventsOf provider).events id →
    n ∈ (session.eventsOf provider).events id' → id = id'

theorem grow_eq (r : Registration) (number : Nat) (events : List Nat) :
    r.grow number events = events ∨ r.grow number events = events ++ [number] := by
  cases r with
  | add event properties => exact .inr rfl
  | addRundown event properties => exact .inr rfl
  | singleton event =>
    cases events with
    | nil => exact .inr rfl
    | cons first rest => exact .inl rfl

theorem mem_grow {r : Registration} {number n : Nat} {events : List Nat}
    (h : n ∈ r.grow number events) : n ∈ events ∨ n = number := by
  rcases grow_eq r number events with heq | heq
  · exact .inl (heq ▸ h)
  · rw [heq] at h
    exact (List.mem_append.mp h).imp_right List.mem_singleton.mp

theorem subset_grow (r : Registration) (number : Nat) (events : List Nat) :
    events ⊆ r.grow number events := by
  rcases grow_eq r number events with heq | heq
  · rw [heq]
    exact List.Subset.refl _
  · rw [heq]
    exact List.subset_append_left _ _

theorem nodup_grow {r : Registration} {number : Nat} {events wide : List Nat}
    (h : (events ++ wide).Nodup) (hnew : number ∉ events ++ wide) :
    (r.grow number events ++ wide).Nodup := by
  rcases grow_eq r number events with heq | heq
  · rw [heq]
    exact h
  · rw [heq, List.append_assoc, List.singleton_append, List.nodup_middle, List.nodup_cons]
    exact ⟨hnew, h⟩

theorem Placed.run {number : Nat} {session : EtwSession} (h : Placed number session)
    (r : Registration) : Placed (number + 1) (r.run number session).2 := by
  have hfresh : ∀ provider id, number ∉ (session.eventsOf provider).events id ++
      (session.eventsOf provider).wideEvents := by
    intro provider id hmem
    rcases List.mem_append.mp hmem with hid | hwide
    · exact Nat.lt_irrefl _ (h.below provider id number hid)
    · exact Nat.lt_irrefl _ (h.belowWide provider number hwide)
  cases hwild : r.wild with
  | true =>
    have hevents : ∀ provider, ((r.run number session).2.eventsOf provider).events =
        (session.eventsOf provider).events := by
      intro provider
      rw [eventsOf_run_wild session provider hwild]
      split <;> rfl
    have hwide : ∀ provider, ((r.run number session).2.eventsOf provider).wideEvents =
        (session.eventsOf provider).wideEvents ∨
        ((r.run number session).2.eventsOf provider).wideEvents =
          (session.eventsOf provider).wideEvents ++ [number] := by
      intro provider
      rw [eventsOf_run_wild session provider hwild]
      split
      · exact .inr rfl
      · exact .inl rfl
    refine ⟨?_, ?_, ?_, ?_⟩
    · intro provider id n hn
      rw [hevents] at hn
      exact Nat.lt_succ_of_lt (h.below provider id n hn)
    · intro provider n hn
      rcases hwide provider with heq | heq
      · exact Nat.lt_succ_of_lt (h.belowWide provider n (heq ▸ hn))
      · rw [heq] at hn
        rcases List.mem_append.mp hn with hold | hnew
        · exact Nat.lt_succ_of_lt (h.belowWide provider n hold)
        · rw [List.mem_singleton.mp hnew]
          exact Nat.lt_succ_self number
    · intro provider id
      rw [hevents]
      rcases hwide provider with heq | heq
      · rw [heq]
        exact h.once provider id
      · rw [heq, ← List.append_assoc, List.nodup_append_comm, List.singleton_append,
          List.nodup_cons]
        exact ⟨hfresh provider id, h.once provider id⟩
    · intro provider id id' n hn hn'
      rw [hevents] at hn hn'
      exact h.same provider id id' n hn hn'
  | false =>
    have hwide : ∀ provider, ((r.run number session).2.eventsOf provider).wideEvents =
        (session.eventsOf provider).wideEvents := by
      intro provider
      rw [eventsOf_run session provider hwild]
      split <;> rfl
    have hevents : ∀ provider id, ((r.run number session).2.eventsOf provider).events id =
        if provider = r.dispatchProvider ∧ id = r.id then
          r.grow number ((session.eventsOf provider).events id)
        else (session.eventsOf provider).events id := by
      intro provider id
      rw [eventsOf_run session provider hwild]
      by_cases hown : provider = r.dispatchProvider
      · rw [if_pos hown]
        by_cases hid : id = r.id
        · rw [if_pos ⟨hown, hid⟩, hid]
          exact Function.update_self _ _ _
        · rw [if_neg fun hand => hid hand.2]
          exact Function.update_of_ne hid _ _
      · rw [if_neg hown, if_neg fun hand => hown hand.1]
    have hgrown : ∀ provider id n, n ∈ ((r.run number session).2.eventsOf provider).events id →
        n ∈ (session.eventsOf provider).events id ∨
          n = number ∧ provider = r.dispatchProvider ∧ id = r.id := by
      intro provider id n hn
      rw [hevents] at hn
      split at hn
      · rename_i hown
        exact (mem_grow hn).imp_right fun heq => ⟨heq, hown⟩
      · exact .inl hn
    refine ⟨?_, ?_, ?_, ?_⟩
    · intro provider id n hn
      rcases hgrown provider id n hn with hold | ⟨rfl, -⟩
      · exact Nat.lt_succ_of_lt (h.below provider id n hold)
      · exact Nat.lt_succ_self _
    · intro provider n hn
      rw [hwide] at hn
      exact Nat.lt_succ_of_lt (h.belowWide provider n hn)
    · intro provider id
      rw [hwide, hevents]
      split
      · exact nodup_grow (h.once provider id) (hfresh provider id)
      · exact h.once provider id
    · intro provider id id' n hn hn'
      rcases hgrown provider id n hn with hold | ⟨rfl, -, rfl⟩
      · rcases hgrown provider id' n hn' with hold' | ⟨rfl, -⟩
        · exact h.same provider id id' n hold hold'
        · exact absurd (List.mem_append_left _ hold) (hfresh provider id)
      · rcases hgrown provider id' n hn' with hold' | ⟨-, -, rfl⟩
        · exact absurd (List.mem_append_left _ hold') (hfresh provider id')
        · rfl

theorem placed_sessionOf (registrations : List Registration) :
    Placed registrations.length (sessionOf registrations) := by
  induction registrations using List.reverseRecOn with
  | nil =>
    exact ⟨fun _ _ n hn => absurd hn List.not_mem_nil, fun _ n hn => absurd hn List.not_mem_nil,
      fun _ _ => List.nodup_nil, fun _ _ _ n hn => absurd hn List.not_mem_nil⟩
  | append_singleton registrations r ih =>
    rw [sessionOf_concat, List.length_append]
    exact ih.run r

/-- How records are looked up is decided by the last registration. -/
theorem useOpId_sessionOf (registrations : List Registration) (provider : Guid) :
    ((sessionOf registrations).eventsOf provider).useOpId =
      lastByOpcode registrations provider := by
  induction registrations using List.reverseRecOn with
  | nil => rfl
  | append_singleton registrations r ih =>
    unfold lastByOpcode at ih ⊢
    rw [sessionOf_concat, List.foldl_append, ← ih]
    show _ = if ¬ r.wild ∧ r.dispatchProvider = provider then r.byOpcode
      else ((sessionOf registrations).eventsOf provider).useOpId
    cases hwild : r.wild with
    | true =>
      refine Eq.trans ?_ (if_neg fun hand => hand.1 rfl).symm
      rw [eventsOf_run_wild _ provider hwild]
      split <;> rfl
    | false =>
      rw [eventsOf_run _ provider hwild]
      by_cases hown : provider = r.dispatchProvider
      · rw [if_pos hown, if_pos ⟨Bool.false_ne_true, hown.symm⟩]
      · rw [if_neg hown, if_neg fun hand => hown hand.2.symm]

/-- Registrations take no event away. -/
theorem events_subset_run (r : Registration) (number : Nat) (session : EtwSession)
    (provider : Guid) :
    (∀ id, (session.eventsOf provider).events id ⊆
        ((r.run number session).2.eventsOf provider).events id) ∧
      (session.eventsOf provider).wideEvents ⊆
        ((r.run number session).2.eventsOf provider).wideEvents := by
  cases hwild : r.wild with
  | true =>
    rw [eventsOf_run_wild session provider hwild]
    split
    · exact ⟨fun id => List.Subset.refl _, List.subset_append_left _ _⟩
    · exact ⟨fun id => List.Subset.refl _, List.Subset.refl _⟩
  | false =>
    rw [eventsOf_run session provider hwild]
    split
    · refine ⟨fun id => ?_, List.Subset.refl _⟩
      dsimp only
      by_cases hid : id = r.id
      · subst hid
        rw [Function.update_self]
        exact subset_grow r number _
      · rw [Function.update_of_ne hid]
        exact List.Subset.refl _
    · exact ⟨fun id => List.Subset.refl _, List.Subset.refl _⟩

theorem events_subset_later (registrations later : List Registration) (provider : Guid) :
    (∀ id, ((sessionOf registrations).eventsOf provider).events id ⊆
        ((sessionOf (registrations ++ later)).eventsOf provider).events id) ∧
      ((sessionOf registrations).eventsOf provider).wideEvents ⊆
        ((sessionOf (registrations ++ later)).eventsOf provider).wideEvents := by
  induction later using List.reverseRecOn with
  | nil =>
    rw [List.append_nil]
    exact ⟨fun id => List.Subset.refl _, List.Subset.refl _⟩
  | append_singleton later r ih =>
    rw [← List.append_assoc, sessionOf_concat]
    obtain ⟨hevents, hwide⟩ := events_subset_run r (registrations ++ later).length
      (sessionOf (registrations ++ later)) provider
    exact ⟨fun id => List.Subset.trans (ih.1 id) (hevents id), List.Subset.trans ih.2 hwide⟩

/-- The event of a registration stays where the registration put it. -/
theorem event_placed {registrations : List Registration} {i : Nat} {r : Registration}
    (hr : registrations[i]? = some r) :
    (r.wild = false → eventAt registrations i r ∈
      ((sessionOf registrations).eventsOf r.dispatchProvider).events r.id) ∧
    (r.wild = true → r.provider ≠ emptyProvider → eventAt registrations i r ∈
      ((sessionOf registrations).eventsOf r.provider).wideEvents) := by
  obtain ⟨hi, hget⟩ := List.getElem?_eq_some_iff.mp hr
  have hnow : sessionOf (registrations.take (i + 1)) =
      (r.run i (sessionOf (registrations.take i))).2 := by
    rw [List.take_add_one, hr]
    show sessionOf (registrations.take i ++ [r]) = _
    rw [sessionOf_concat, List.length_take_of_le (Nat.le_of_lt hi)]
  have hlater : ∀ provider, _ := fun provider =>
    events_subset_later (registrations.take (i + 1)) (registrations.drop (i + 1)) provider
  rw [List.take_append_drop, hnow] at hlater
  constructor
  · intro hwild
    refine (hlater r.dispatchProvider).1 r.id ?_
    rw [eventsOf_run _ _ hwild, if_pos rfl]
    dsimp only
    rw [Function.update_self]
    exact event_mem_grow _ hwild i
  · intro hwild hempty
    refine (hlater r.provider).2 ?_
    rw [eventsOf_run_wild _ _ hwild, if_pos ⟨rfl, hempty⟩]
    have hnumber : eventAt registrations i r = i := by
      cases r with
      | add event properties => rfl
      | addRundown event properties => rfl
      | singleton event => cases hwild
    rw [hnumber]
    exact List.mem_append_right _ List.mem_cons_self

/-! ## Records of one registration -/

theorem enable_eq (enabler : TraceEnable) :
    enabler.enable.level = enabler.level ∧ enabler.enable.keyword = enabler.keyword ∧
      enabler.enable.eventIds =
        if enabler.noFiltering then none else TraceEnable.idFilter enabler.events := by
  unfold TraceEnable.enable
  split <;> exact ⟨rfl, rfl, rfl⟩

/-- The record is one of the registration. -/
structure Alone (r : Registration) (phase : Phase) (record : EventRecord) : Prop where
  provider : r.provider ≠ emptyProvider
  source : record.source = r.provider
  live : phase = .live → r.Live
  rundown : phase = .rundown → r.rundown
  level : record.level ≤ r.level
  keyword : r.keyword &&& record.keyword ≠ 0
  id : r.wild = false → r.unfiltered = false → record.id.toNat = r.id % 2 ^ 16
  header : record.provider = r.dispatchProvider
  lookup : r.wild = false → record.lookupId r.byOpcode = r.id

theorem sessionOf_singleton (r : Registration) : sessionOf [r] = (r.run 0 {}).2 := rfl

theorem delivers_alone {r : Registration} {phase : Phase} {record : EventRecord} :
    (sessionOf [r]).Delivers phase record ↔ r.provider ≠ emptyProvider ∧
      record.source = r.provider ∧ (phase = .live → r.Live) ∧ (phase = .rundown → r.rundown) ∧
      record.level ≤ r.level ∧ r.keyword &&& record.keyword ≠ 0 ∧
      (r.wild = false → r.unfiltered = false → record.id.toNat = r.id % 2 ^ 16) := by
  obtain ⟨hlevel, hkeyword, hevents, hfilter, hrundown, hcaptures⟩ := acted r {}
  obtain ⟨hparamLevel, hparamKeyword, hparamIds⟩ := enable_eq (r.act {})
  rw [hlevel] at hparamLevel
  rw [hkeyword] at hparamKeyword
  rw [hfilter, hevents] at hparamIds
  have hphase : (r.act {}).EnabledIn phase ↔
      (phase = .live → r.Live) ∧ (phase = .rundown → r.rundown) := by
    cases phase
    · simp [TraceEnable.EnabledIn, hrundown, hcaptures, Registration.Live]
    · simp [TraceEnable.EnabledIn, hrundown]
  have haccepts : (r.act {}).enable.Accepts record ↔ record.level ≤ r.level ∧
      r.keyword &&& record.keyword ≠ 0 ∧
      (r.wild = false → r.unfiltered = false → record.id.toNat = r.id % 2 ^ 16) := by
    have hids : (∀ ids, (r.act {}).enable.eventIds = some ids → record.id.toNat ∈ ids) ↔
        (r.wild = false → r.unfiltered = false → record.id.toNat = r.id % 2 ^ 16) := by
      rw [hparamIds]
      cases r.unfiltered <;> cases r.wild <;> simp [TraceEnable.idFilter]
    constructor
    · intro h
      refine ⟨?_, ?_, hids.mp h.id⟩
      · simpa [hparamLevel] using h.level
      · simpa [hparamKeyword] using h.keyword
    · rintro ⟨hl, hk, hi⟩
      refine ⟨?_, ?_, hids.mpr hi⟩
      · simpa [hparamLevel] using hl
      · simpa [hparamKeyword] using hk
  unfold EtwSession.Delivers
  rw [sessionOf_singleton, enabled_run]
  by_cases hown : record.source = r.provider ∧ record.source ≠ emptyProvider
  · rw [if_pos hown]
    simp only [Option.some.injEq, exists_eq_left']
    rw [show (({} : EtwSession).enabled record.source).getD {} = {} from rfl, hphase, haccepts]
    have hempty : r.provider ≠ emptyProvider := hown.1 ▸ hown.2
    tauto
  · rw [if_neg hown]
    constructor
    · rintro ⟨enabler, hnone, -⟩
      cases hnone
    · rintro ⟨hempty, hsource, -⟩
      exact absurd ⟨hsource, hsource ▸ hempty⟩ hown

theorem dispatch_alone {r : Registration} {record : EventRecord}
    (hempty : r.provider ≠ emptyProvider) :
    0 ∈ (sessionOf [r]).dispatch record ↔ record.provider = r.dispatchProvider ∧
      (r.wild = false → record.lookupId r.byOpcode = r.id) := by
  have hnothing : ∀ provider, ({} : EtwSession).eventsOf provider = {} := fun _ => rfl
  rw [dispatch_eq, sessionOf_singleton]
  cases hwild : r.wild with
  | true =>
    have hown : r.dispatchProvider = r.provider := by
      rw [Registration.dispatchProvider, hwild]
      rfl
    rw [eventsOf_run_wild _ _ hwild, hnothing, hown]
    by_cases hheader : record.provider = r.provider
    · rw [if_pos ⟨hheader, hempty⟩]
      simp [hheader]
    · rw [if_neg fun hand => hheader hand.1]
      simp [hheader]
  | false =>
    rw [eventsOf_run _ _ hwild, hnothing]
    by_cases hheader : record.provider = r.dispatchProvider
    · rw [if_pos hheader]
      have hgrow : r.grow 0 [] = [0] := by
        cases r <;> rfl
      by_cases hid : record.lookupId r.byOpcode = r.id
      · simp [hheader, hid, hgrow]
      · simp [hheader, hid]
    · rw [if_neg hheader]
      simp [hheader]

theorem reachesAlone_iff {r : Registration} {phase : Phase} {record : EventRecord} :
    ReachesAlone r phase record ↔ Alone r phase record := by
  unfold ReachesAlone
  rw [delivers_alone]
  constructor
  · rintro ⟨⟨hempty, hsource, hlive, hrundown, hlevel, hkeyword, hid⟩, hdispatch⟩
    obtain ⟨hheader, hlookup⟩ := (dispatch_alone hempty).mp hdispatch
    exact ⟨hempty, hsource, hlive, hrundown, hlevel, hkeyword, hid, hheader, hlookup⟩
  · intro h
    exact ⟨⟨h.provider, h.source, h.live, h.rundown, h.level, h.keyword, h.id⟩,
      (dispatch_alone h.provider).mpr ⟨h.header, h.lookup⟩⟩

/-! ## Registrations beside each other -/

section Together

variable {registrations : List Registration}

theorem Alone.visible {r : Registration} {phase : Phase} {record : EventRecord}
    (h : Alone r phase record) : r.Visible := by
  refine ⟨h.provider, fun hzero => h.keyword (by rw [hzero, Nat.zero_and]), ?_⟩
  intro hwild hopcode
  have hlookup := h.lookup (Bool.eq_false_iff.mpr hwild)
  rw [EventRecord.lookupId, if_pos hopcode] at hlookup
  rw [← hlookup]
  exact record.opcode.toNat_lt

/-- A filter of ids is passed for a provider, and it lists the ids of its registrations. -/
theorem Enables.eventIds {provider : Guid} {enabler : TraceEnable}
    (h : Enables registrations provider (some enabler)) :
    enabler.enable.eventIds.isSome ↔ Filtered registrations provider := by
  have hevents : enabler.events = idsOf registrations provider := h.events
  have hfilter : enabler.noFiltering = true ↔
      ∃ r ∈ registrations, r.provider = provider ∧ r.unfiltered := h.noFiltering
  rw [(enable_eq enabler).2.2, hevents]
  unfold Filtered TraceEnable.idFilter
  cases hnone : enabler.noFiltering with
  | true =>
    obtain ⟨r, hr, hprovider, hunfiltered⟩ := hfilter.mp hnone
    exact ⟨fun h => (by cases h), fun h => absurd hunfiltered (h.1 r hr hprovider)⟩
  | false =>
    have hall : ∀ r ∈ registrations, r.provider = provider → ¬ r.unfiltered :=
      fun r hr hprovider hunfiltered => Bool.false_ne_true
        (hnone.symm.trans (hfilter.mpr ⟨r, hr, hprovider, hunfiltered⟩))
    rw [if_neg Bool.false_ne_true]
    split
    · rename_i hshort
      exact ⟨fun _ => ⟨hall, hshort⟩, fun _ => rfl⟩
    · rename_i hlong
      exact ⟨fun h => (by cases h), fun h => absurd h.2 hlong⟩

theorem Enables.eventIds_eq {provider : Guid} {enabler : TraceEnable} {ids : List Nat}
    (h : Enables registrations provider (some enabler)) (hids : enabler.enable.eventIds = some ids) :
    ids = idsOf registrations provider := by
  have hevents : enabler.events = idsOf registrations provider := h.events
  rw [(enable_eq enabler).2.2, hevents] at hids
  split at hids
  · cases hids
  · exact (Option.some.inj (Option.ite_none_right_eq_some.mp hids).2).symm

theorem mem_idsOf {r : Registration} (hr : r ∈ registrations) (hwild : r.wild = false) :
    r.id % 2 ^ 16 ∈ idsOf registrations r.provider :=
  List.mem_map.mpr ⟨r, List.mem_filter.mpr ⟨hr, by simp [hwild]⟩, rfl⟩

/-- Undisturbed registrations get their records delivered. -/
theorem Undisturbed.delivers (h : Undisturbed registrations) {r : Registration} {phase : Phase}
    {record : EventRecord} (hr : r ∈ registrations) (halone : Alone r phase record) :
    (sessionOf registrations).Delivers phase record := by
  have henables := enables_sessionOf registrations halone.provider
  obtain ⟨enabler, henabled⟩ := henables.present ⟨r, hr, rfl⟩
  rw [henabled] at henables
  obtain ⟨hlevel, hkeyword, -⟩ := enable_eq enabler
  refine ⟨enabler, halone.source ▸ henabled, ?_, ?_, ?_, ?_⟩
  · cases phase with
    | live =>
      by_cases hrundown : enabler.rundown = true
      · exact .inl (henables.captures.mpr
          (h.live r hr halone.visible (halone.live rfl) (henables.rundown.mp hrundown)))
      · exact .inr hrundown
    | rundown => exact henables.rundown.mpr ⟨r, hr, rfl, halone.rundown rfl⟩
  · rw [hlevel]
    exact Nat.le_trans halone.level (henables.level r hr rfl)
  · rw [hkeyword]
    exact henables.keyword r hr rfl record.keyword halone.keyword
  · intro ids hids
    have hfiltered := henables.eventIds.mp (Option.isSome_iff_exists.mpr ⟨ids, hids⟩)
    cases hwild : r.wild with
    | true => exact absurd hfiltered (h.wild r hr halone.visible hwild)
    | false =>
      rw [henables.eventIds_eq hids,
        halone.id hwild (Bool.eq_false_iff.mpr (hfiltered.1 r hr rfl))]
      exact mem_idsOf hr hwild

/-- Undisturbed registrations have their events processed once. -/
theorem Undisturbed.dispatches (h : Undisturbed registrations)
    (hids : ∀ r ∈ registrations, r.id < 2 ^ 16) {i : Nat} {r : Registration} {phase : Phase}
    {record : EventRecord} (hr : registrations[i]? = some r) (halone : Alone r phase record) :
    ((sessionOf registrations).dispatch record).count (eventAt registrations i r) = 1 := by
  have hmem := List.mem_of_getElem? hr
  obtain ⟨hplaced, hwide⟩ := event_placed hr
  have hnodup := (placed_sessionOf registrations).once
  rw [dispatch_eq, useOpId_sessionOf, halone.header]
  refine List.count_eq_one_of_mem (hnodup _ _) ?_
  cases hwild : r.wild with
  | true =>
    have hown : r.dispatchProvider = r.provider := by
      rw [Registration.dispatchProvider, hwild]
      rfl
    rw [hown]
    exact List.mem_append_right _ (hwide hwild halone.provider)
  | false =>
    have hlookup : record.lookupId (lastByOpcode registrations r.dispatchProvider) = r.id := by
      have hown := halone.lookup hwild
      rcases h.mode r hmem halone.visible (Bool.eq_false_iff.mp hwild) with
        heq | ⟨hopcode, hfiltered⟩
      · rw [heq]
        exact hown
      · cases hmode : lastByOpcode registrations r.dispatchProvider with
        | true =>
          rw [hopcode] at hown
          exact hown
        | false =>
          -- the filter of ids lets records of the same id and opcode through alone
          have hid := halone.id hwild (Bool.eq_false_iff.mpr hfiltered)
          rw [Nat.mod_eq_of_lt (hids r hmem)] at hid
          exact hid
    rw [hlookup]
    exact List.mem_append_left _ (hplaced hwild)

/-- A record of a registration with an id and an opcode. -/
def probe (r : Registration) (id opcode : Nat) : EventRecord :=
  ⟨r.provider, r.dispatchProvider, UInt16.ofNat id, UInt8.ofNat opcode, 0, r.keyword⟩

/-- A registration that can be reached is reached by some records. -/
theorem alone_probe {r : Registration} {phase : Phase} {id opcode : Nat} (h : r.Visible)
    (hlive : phase = .live → r.Live) (hrundown : phase = .rundown → r.rundown)
    (hid : r.wild = false → r.unfiltered = false → id % 2 ^ 16 = r.id % 2 ^ 16)
    (hlookup : r.wild = false → (if r.byOpcode then opcode % 2 ^ 8 else id % 2 ^ 16) = r.id) :
    Alone r phase (probe r id opcode) := by
  obtain ⟨hempty, hkeyword, -⟩ := h
  refine ⟨hempty, rfl, hlive, hrundown, Nat.zero_le _, ?_, ?_, rfl, ?_⟩
  · show r.keyword &&& r.keyword ≠ 0
    rw [Nat.and_self]
    exact hkeyword
  · intro hwild hunfiltered
    exact (UInt16.toNat_ofNat').trans (hid hwild hunfiltered)
  · intro hwild
    rw [← hlookup hwild]
    unfold EventRecord.lookupId probe
    dsimp only
    rw [UInt8.toNat_ofNat', UInt16.toNat_ofNat']

theorem exists_phase (r : Registration) :
    ∃ phase : Phase, (phase = .live → r.Live) ∧ (phase = .rundown → r.rundown = true) := by
  by_cases hlive : r.Live
  · exact ⟨.live, fun _ => hlive, fun hphase => (by cases hphase)⟩
  · refine ⟨.rundown, fun hphase => (by cases hphase), fun _ => ?_⟩
    exact not_not.mp fun hnot => hlive (.inr hnot)

/-- A record that is looked up under another id does not reach the event of a registration. -/
theorem not_mem_dispatch {i : Nat} {r : Registration} {record : EventRecord}
    (hr : registrations[i]? = some r) (hwild : r.wild = false)
    (hheader : record.provider = r.dispatchProvider)
    (hother : record.lookupId (lastByOpcode registrations r.dispatchProvider) ≠ r.id) :
    eventAt registrations i r ∉ (sessionOf registrations).dispatch record := by
  have hplaced := (event_placed hr).1 hwild
  have hwhere := placed_sessionOf registrations
  rw [dispatch_eq, useOpId_sessionOf, hheader]
  intro hmem
  rcases List.mem_append.mp hmem with hevents | hwide
  · exact hother (hwhere.same _ _ _ _ hevents hplaced)
  · exact (List.nodup_append.mp (hwhere.once r.dispatchProvider r.id)).2.2 _ hplaced _ hwide rfl

/-- Sixty-four ids are not all ids. -/
theorem exists_unlisted {ids : List Nat} (h : ids.length ≤ 64) : ∃ id < 65, id ∉ ids := by
  by_contra hnot
  have hall : ∀ id ∈ List.range 65, id ∈ ids := by
    intro id hid
    by_contra hmem
    exact hnot ⟨id, List.mem_range.mp hid, hmem⟩
  have hle := (List.nodup_range).length_le_of_subset hall
  rw [List.length_range] at hle
  omega

theorem Untaken.undisturbed (h : Untaken registrations)
    (hids : ∀ r ∈ registrations, r.id < 2 ^ 16) : Undisturbed registrations := by
  refine ⟨fun r hr hvisible hlive hrundown => ?_, fun r hr hvisible hwild hfiltered => ?_,
    fun r hr hvisible hwild => ?_⟩
  · obtain ⟨i, hi⟩ := List.mem_iff_getElem?.mp hr
    have halone : Alone r .live (probe r r.id r.id) := by
      refine alone_probe hvisible (fun _ => hlive) (fun hphase => (by cases hphase))
        (fun _ _ => rfl) fun hwild => ?_
      split
      · rename_i hopcode
        exact Nat.mod_eq_of_lt (hvisible.2.2 (Bool.eq_false_iff.mp hwild) hopcode)
      · exact Nat.mod_eq_of_lt (hids r hr)
    obtain ⟨⟨enabler, henabled, hphase, -⟩, -⟩ := h i r hi _ _ (reachesAlone_iff.mpr halone)
    have henables := enables_sessionOf registrations hvisible.1
    rw [show (sessionOf registrations).enabled r.provider = some enabler from henabled] at henables
    rcases hphase with hcaptures | hnot
    · exact henables.captures.mp hcaptures
    · exact absurd (henables.rundown.mpr hrundown) hnot
  · obtain ⟨i, hi⟩ := List.mem_iff_getElem?.mp hr
    obtain ⟨phase, hlive, hrundown⟩ := exists_phase r
    obtain ⟨id, hlt, hunlisted⟩ := exists_unlisted hfiltered.2.2
    have halone : Alone r phase (probe r id 0) :=
      alone_probe hvisible hlive hrundown
        (fun hnot => absurd (hwild.symm.trans hnot) (Bool.noConfusion))
        (fun hnot => absurd (hwild.symm.trans hnot) (Bool.noConfusion))
    obtain ⟨⟨enabler, henabled, -, haccepts⟩, -⟩ := h i r hi _ _ (reachesAlone_iff.mpr halone)
    have henables := enables_sessionOf registrations hvisible.1
    rw [show (sessionOf registrations).enabled r.provider = some enabler from henabled] at henables
    obtain ⟨ids, hpassed⟩ := Option.isSome_iff_exists.mp (henables.eventIds.mpr hfiltered)
    have hmem := haccepts.id ids hpassed
    rw [henables.eventIds_eq hpassed,
      show (probe r id 0).id.toNat = id % 2 ^ 16 from UInt16.toNat_ofNat',
      Nat.mod_eq_of_lt (by omega)] at hmem
    exact hunlisted hmem
  · obtain ⟨i, hi⟩ := List.mem_iff_getElem?.mp hr
    obtain ⟨phase, hlive, hrundown⟩ := exists_phase r
    have hwild : r.wild = false := Bool.eq_false_iff.mpr hwild
    have hlost : ∀ id opcode, Alone r phase (probe r id opcode) →
        (probe r id opcode).lookupId (lastByOpcode registrations r.dispatchProvider) = r.id := by
      intro id opcode halone
      by_contra hother
      obtain ⟨-, hcount⟩ := h i r hi _ _ (reachesAlone_iff.mpr halone)
      have hmem := List.count_pos_iff.mp (hcount ▸ Nat.one_pos)
      exact not_mem_dispatch hi hwild rfl hother hmem
    -- an id and an opcode of which the other is not that of the registration
    have hother : (if r.id = 0 then 1 else 0) ≠ r.id := by
      split <;> omega
    have hsmall : (if r.id = 0 then 1 else 0) < 2 ^ 8 := by
      split <;> decide
    cases hopcode : r.byOpcode with
    | false =>
      cases hmode : lastByOpcode registrations r.dispatchProvider with
      | false => exact .inl rfl
      | true =>
        have hfound := hlost r.id (if r.id = 0 then 1 else 0)
          (alone_probe hvisible hlive hrundown (fun _ _ => rfl) fun _ => by
            rw [hopcode]
            exact Nat.mod_eq_of_lt (hids r hr))
        rw [hmode] at hfound
        have hopcodeOf : (probe r r.id (if r.id = 0 then 1 else 0)).opcode.toNat =
            (if r.id = 0 then 1 else 0) % 2 ^ 8 := UInt8.toNat_ofNat'
        rw [Nat.mod_eq_of_lt hsmall] at hopcodeOf
        exact absurd (hopcodeOf.symm.trans hfound) hother
    | true =>
      cases hmode : lastByOpcode registrations r.dispatchProvider with
      | true => exact .inl rfl
      | false =>
        refine .inr ⟨rfl, fun hunfiltered => ?_⟩
        have hshort := hvisible.2.2 (Bool.eq_false_iff.mp hwild) hopcode
        have hfound := hlost (if r.id = 0 then 1 else 0) r.id
          (alone_probe hvisible hlive hrundown
            (fun _ hnot => absurd (hunfiltered.symm.trans hnot) (Bool.noConfusion)) fun _ => by
            rw [hopcode]
            exact Nat.mod_eq_of_lt hshort)
        rw [hmode] at hfound
        have hidOf : (probe r (if r.id = 0 then 1 else 0) r.id).id.toNat =
            (if r.id = 0 then 1 else 0) % 2 ^ 16 := UInt16.toNat_ofNat'
        rw [Nat.mod_eq_of_lt (Nat.lt_trans hsmall (by decide))] at hidOf
        exact absurd (hidOf.symm.trans hfound) hother

end Together

/-- **Registrations.** Registrations of ids of 16 bits take no record from each other, if and only
if none that can be reached is disturbed. -/
theorem untaken_iff (registrations : List Registration)
    (hids : ∀ r ∈ registrations, r.id < 2 ^ 16) :
    Untaken registrations ↔ Undisturbed registrations := by
  refine ⟨fun h => h.undisturbed hids, fun h i r hr phase record halone => ?_⟩
  have halone := reachesAlone_iff.mp halone
  exact ⟨h.delivers (List.mem_of_getElem? hr) halone, h.dispatches hids hr halone⟩

/-- Two events of the kernel, one with an id and one of a rundown provider. -/
def fourRegistrations : List Registration :=
  [.singleton .profileCpuEvent, .singleton .commStartEvent,
    .add { provider := 7, id := 5, level := 4, keyword := 1 } none,
    .addRundown { provider := 8, id := 300, level := 4, keyword := 2 } none]

theorem untaken_fourRegistrations : Untaken fourRegistrations :=
  (untaken_iff fourRegistrations (by decide)).mpr ⟨by decide, by decide, by decide⟩

/-- A wild card and an id of one provider: the id is passed as a filter. -/
def wildAndId : List Registration :=
  [.add { provider := 7, id := 0, level := 4, keyword := 1, idWildCard := true } none,
    .add { provider := 7, id := 5, level := 4, keyword := 1 } none]

/-- The wild card loses the records of other ids. -/
theorem untaken_wildAndId : (∀ r ∈ wildAndId, r.id < 2 ^ 16) ∧ ¬ Untaken wildAndId := by
  have hids : ∀ r ∈ wildAndId, r.id < 2 ^ 16 := by decide
  refine ⟨hids, fun h => ?_⟩
  exact (h.undisturbed hids).wild _ List.mem_cons_self (by decide) (by decide) (by decide)

end OneCollect.Etw
