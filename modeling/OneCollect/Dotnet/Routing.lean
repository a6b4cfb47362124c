import OneCollect.Dotnet.EventFactory
import OneCollect.Dotnet.CallstackRequests

/-! The way of .NET events from the runtime to what is registered for them: the runtime writes an event
to the tracepoint whose list holds its id, and otherwise to the default one, and the callback of the
tracepoint runs proxy events by id or by name, and all recorders.

Everything runs once exactly when no two providers share a tracepoint name, no id is registered both
with and without call stacks, an event in a list has no registered name, and no recorder but the
last fails (`routed_once_iff`). -/

namespace OneCollect.Dotnet
open Theory Exporting

/-! ## Names of tracepoints -/

theorem getLast?_toDecimal (n : Nat) : ∃ c, (toDecimal n).getLast? = some c ∧ c.isDigit := by
  obtain ⟨c, hc⟩ := Option.isSome_iff_exists.mp (List.getLast?_isSome.mpr (toDecimal_ne_nil n))
  exact ⟨c, hc, Nat.isDigit_of_mem_toDigits (by decide) (by decide) (List.mem_of_getLast? hc)⟩

/-- The pid sets the suffixes apart. -/
theorem suffix_inj {n : Nat} {front front' : List Char} {kind kind' : TracepointKind}
    (h : front ++ '_' :: (toDecimal n ++ kind.suffix) =
      front' ++ '_' :: (toDecimal n ++ kind'.suffix)) : kind = kind' := by
  obtain ⟨c, hc, hdigit⟩ := getLast?_toDecimal n
  have hlast : ∀ (front : List Char) (kind : TracepointKind),
      (front ++ '_' :: (toDecimal n ++ kind.suffix)).getLast? = kind.suffix.getLast?.or (some c) := by
    intro front kind
    rw [← List.cons_append, ← List.append_assoc, List.getLast?_append, List.getLast?_append,
      List.getLast?_cons, hc]
    simp
  have hsame := congrArg List.getLast? h
  rw [hlast, hlast] at hsame
  cases kind with
  | noCallstacks =>
    cases kind' with
    | noCallstacks => rfl
    | callstacks =>
      cases hsame
      exact absurd hdigit (by decide)
    | all =>
      cases hsame
      exact absurd hdigit (by decide)
  | callstacks =>
    cases kind' with
    | noCallstacks =>
      cases hsame
      exact absurd hdigit (by decide)
    | callstacks => rfl
    | all => exact absurd hsame (by simp [TracepointKind.suffix])
  | all =>
    cases kind' with
    | noCallstacks =>
      cases hsame
      exact absurd hdigit (by decide)
    | callstacks => exact absurd hsame (by simp [TracepointKind.suffix])
    | all => rfl

theorem tracepointName_inj {pid : Nat} {p p' : String} {kind kind' : TracepointKind}
    (h : tracepointName pid p kind = tracepointName pid p' kind') :
    safeName p = safeName p' ∧ kind = kind' := by
  unfold tracepointName at h
  have hrest := (List.append_right_inj _).mp h
  have hkind := suffix_inj hrest
  subst hkind
  exact ⟨(List.append_left_inj _).mp hrest, rfl⟩

theorem tracepointName_congr {pid : Nat} {p p' : String} (h : safeName p = safeName p')
    (kind : TracepointKind) : tracepointName pid p kind = tracepointName pid p' kind := by
  unfold tracepointName
  rw [h]

/-! ## Lists of ids -/

/-- An id, as the runtime sees it, of an event that is registered with call stacks or without. -/
def Listed (registered : List ProxyRegistration) (p : String) (callstacks : Bool) (id : Nat) :
    Prop :=
  ∃ r ∈ registered, r.providerName = p ∧ (∃ dotnetId, r.id = some dotnetId ∧
    dotnetId % 2 ^ 32 = id) ∧ r.callstacks = callstacks

section Lists

variable {self : OSDotNetEventFactory} {registered : List ProxyRegistration}
  {recorders : String → Nat}

theorem mem_events (h : self.Holds registered recorders) {p : String} {id proxyId : Nat} :
    (∃ event ∈ (self.providers p).events, event.1 = id ∧ event.2.proxyId = proxyId) ↔
      ∃ r ∈ registered, r.providerName = p ∧ r.id = some id ∧ r.proxyId = proxyId := by
  have hmem : (id, proxyId) ∈
      (self.providers p).events.map (fun event => (event.1, event.2.proxyId)) ↔
      ∃ event ∈ (self.providers p).events, event.1 = id ∧ event.2.proxyId = proxyId := by
    simp [List.mem_map]
  rw [← hmem, h.events p, List.mem_filterMap]
  constructor
  · rintro ⟨r, hr, hsome⟩
    split at hsome
    · rename_i hp
      obtain ⟨id', hid, heq⟩ := Option.map_eq_some_iff.mp hsome
      cases heq
      exact ⟨r, hr, hp, hid, rfl⟩
    · cases hsome
  · rintro ⟨r, hr, hp, hid, rfl⟩
    exact ⟨r, hr, by rw [if_pos hp, hid]; rfl⟩

theorem mem_proxyIds (h : self.Holds registered recorders)
    (hunique : ∀ r ∈ registered, ∀ r' ∈ registered, r.proxyId = r'.proxyId → r = r') {p : String}
    {callstacks : Bool} {proxyId : Nat} :
    proxyId ∈ self.proxyIds p callstacks ↔
      ∃ r ∈ registered, r.providerName = p ∧ r.id ≠ none ∧ r.callstacks = callstacks ∧
        r.proxyId = proxyId := by
  have hwanted : ∀ n, n ∈ (self.providers p).events.map (·.2.proxyId) ↔
      ∃ id, ∃ r ∈ registered, r.providerName = p ∧ r.id = some id ∧ r.proxyId = n := by
    intro n
    constructor
    · intro hn
      obtain ⟨event, hevent, rfl⟩ := List.mem_map.mp hn
      exact ⟨event.1, (mem_events h).mp ⟨event, hevent, rfl, rfl⟩⟩
    · rintro ⟨id, hr⟩
      obtain ⟨event, hevent, -, rfl⟩ := (mem_events h).mpr hr
      exact List.mem_map_of_mem hevent
  unfold OSDotNetEventFactory.proxyIds
  constructor
  · intro hmem
    obtain ⟨event, hevent, rfl⟩ := List.mem_map.mp hmem
    obtain ⟨hevent, hflag⟩ := List.mem_filter.mp hevent
    obtain ⟨hwant, hflag⟩ := of_decide_eq_true hflag
    rw [h.proxyEvents] at hevent
    obtain ⟨r, hr, rfl⟩ := List.mem_map.mp hevent
    obtain ⟨id, r', hr', hp, hid, hsame⟩ := (hwanted _).mp hwant
    obtain rfl := hunique r' hr' r hr hsame
    exact ⟨r', hr', hp, by rw [hid]; simp, hflag, rfl⟩
  · rintro ⟨r, hr, hp, hid, hflag, rfl⟩
    obtain ⟨id, hid⟩ := Option.ne_none_iff_exists'.mp hid
    refine List.mem_map.mpr ⟨(r.proxyId, r.callstacks), List.mem_filter.mpr ⟨?_, ?_⟩, rfl⟩
    · rw [h.proxyEvents]
      exact List.mem_map_of_mem hr
    · exact decide_eq_true ⟨(hwanted _).mpr ⟨id, r, hr, hp, hid, rfl⟩, hflag⟩

/-- The list of a tracepoint has the ids that are registered with its call stacks. -/
theorem mem_dotnetIds (h : self.Holds registered recorders)
    (hunique : ∀ r ∈ registered, ∀ r' ∈ registered, r.proxyId = r'.proxyId → r = r') {p : String}
    {callstacks : Bool} {id : Nat} :
    id ∈ self.dotnetIds p callstacks ↔ Listed registered p callstacks id := by
  unfold OSDotNetEventFactory.dotnetIds ProviderTables.proxyIdToEvents Listed
  constructor
  · intro hmem
    obtain ⟨dotnetId, hdotnetId, rfl⟩ := List.mem_map.mp hmem
    obtain ⟨event, hevent, rfl⟩ := List.mem_map.mp (mem_distinct.mp hdotnetId)
    obtain ⟨hevent, hproxy⟩ := List.mem_filter.mp hevent
    obtain ⟨r, hr, hp, hid, hsame⟩ := (mem_events h).mp ⟨event, hevent, rfl, rfl⟩
    obtain ⟨r', hr', -, -, hflag, hsame'⟩ := (mem_proxyIds h hunique).mp (of_decide_eq_true hproxy)
    obtain rfl := hunique r' hr' r hr (hsame'.trans hsame.symm)
    exact ⟨r', hr, hp, ⟨event.1, hid, rfl⟩, hflag⟩
  · rintro ⟨r, hr, hp, ⟨dotnetId, hid, rfl⟩, hflag⟩
    obtain ⟨event, hevent, rfl, hsame⟩ := (mem_events h).mpr ⟨r, hr, hp, hid, rfl⟩
    refine List.mem_map_of_mem (mem_distinct.mpr (List.mem_map_of_mem
      (List.mem_filter.mpr ⟨hevent, decide_eq_true ?_⟩)))
    rw [hsame]
    exact (mem_proxyIds h hunique).mpr ⟨r, hr, hp, by rw [hid]; simp, hflag, rfl⟩

theorem wants_list (h : self.Holds registered recorders)
    (hunique : ∀ r ∈ registered, ∀ r' ∈ registered, r.proxyId = r'.proxyId → r = r') {p : String}
    {callstacks : Bool} :
    (!(self.proxyIds p callstacks).isEmpty) = true ↔ ∃ id, Listed registered p callstacks id := by
  rw [Bool.not_eq_true', ← Bool.not_eq_true, List.isEmpty_iff]
  constructor
  · intro hne
    obtain ⟨proxyId, hmem⟩ := List.exists_mem_of_ne_nil _ hne
    obtain ⟨r, hr, hp, hid, hflag, -⟩ := (mem_proxyIds h hunique).mp hmem
    obtain ⟨id, hid⟩ := Option.ne_none_iff_exists'.mp hid
    exact ⟨id % 2 ^ 32, r, hr, hp, ⟨id, hid, rfl⟩, hflag⟩
  · rintro ⟨id, r, hr, hp, ⟨dotnetId, hid, -⟩, hflag⟩
    exact List.ne_nil_of_mem
      ((mem_proxyIds h hunique).mpr ⟨r, hr, hp, by rw [hid]; simp, hflag, rfl⟩)

end Lists

/-! ## Tracepoints of the calls -/

section Calls

variable (guidFromProvider : String → Exec Guid) (calls : List FactoryCall)

/-- What the calls give a provider tracepoints for. -/
def HasKind (p : String) : TracepointKind → Prop
  | .noCallstacks => ∃ id, Listed (proxiesOf guidFromProvider calls) p false id
  | .callstacks => ∃ id, Listed (proxiesOf guidFromProvider calls) p true id
  | .all =>
    (∃ r ∈ proxiesOf guidFromProvider calls, r.providerName = p ∧ r.id = none) ∨
      0 < recordersOf guidFromProvider p calls

/-- Providers whose names are the same for TraceFS have no kind of tracepoint in common. -/
def NamesApart : Prop :=
  ∀ p p' kind, HasKind guidFromProvider calls p kind → HasKind guidFromProvider calls p' kind →
    safeName p = safeName p' → p = p'

/-- No id is registered on a provider both with call stacks and without. -/
def FlagsAgree : Prop :=
  ∀ r ∈ proxiesOf guidFromProvider calls, ∀ r' ∈ proxiesOf guidFromProvider calls,
    r.providerName = r'.providerName → ∀ id id', r.id = some id → r'.id = some id' →
      id % 2 ^ 32 = id' % 2 ^ 32 → r.callstacks = r'.callstacks

variable {guidFromProvider calls}

theorem unique_proxies : ∀ r ∈ proxiesOf guidFromProvider calls,
    ∀ r' ∈ proxiesOf guidFromProvider calls, r.proxyId = r'.proxyId → r = r' :=
  fun _ hr _ hr' h => eq_of_proxyId_eq hr hr' h

theorem wants_iff {p : String} {kind : TracepointKind} :
    (OSDotNetEventFactory.after guidFromProvider calls).wants p kind = true ↔
      HasKind guidFromProvider calls p kind := by
  have hholds := OSDotNetEventFactory.holds_after guidFromProvider calls
  cases kind with
  | noCallstacks => exact wants_list hholds unique_proxies
  | callstacks => exact wants_list hholds unique_proxies
  | all =>
    unfold OSDotNetEventFactory.wants HasKind ProviderTables.hasNamedEvents
      ProviderTables.hasCallbacks
    dsimp only
    rw [Bool.or_eq_true, Bool.not_eq_true', Bool.not_eq_true', ← Bool.not_eq_true,
      ← Bool.not_eq_true, List.isEmpty_iff, List.isEmpty_iff, ← hholds.callbacks p,
      List.length_pos_iff]
    refine or_congr_left ?_
    constructor
    · intro hne
      obtain ⟨name, hmem⟩ := List.exists_mem_of_ne_nil _ hne
      obtain ⟨r, hr, hp, hid, -⟩ := (hholds.namedEvents p name).mp hmem
      exact ⟨r, hr, hp, hid⟩
    · rintro ⟨r, hr, hp, hid⟩
      exact List.ne_nil_of_mem ((hholds.namedEvents p r.name).mpr ⟨r, hr, hp, hid, rfl⟩)

theorem mem_names_of_wants {p : String} {kind : TracepointKind}
    (h : (OSDotNetEventFactory.after guidFromProvider calls).wants p kind = true) :
    p ∈ (OSDotNetEventFactory.after guidFromProvider calls).names := by
  by_contra hmem
  have hdefault :=
    (OSDotNetEventFactory.holds_after guidFromProvider calls).names p hmem
  have hnone : ∀ callstacks,
      (OSDotNetEventFactory.after guidFromProvider calls).proxyIds p callstacks = [] := by
    intro callstacks
    unfold OSDotNetEventFactory.proxyIds
    rw [hdefault]
    simp
  cases kind with
  | noCallstacks => simp [OSDotNetEventFactory.wants, hnone] at h
  | callstacks => simp [OSDotNetEventFactory.wants, hnone] at h
  | all => simp [OSDotNetEventFactory.wants, hdefault, ProviderTables.hasNamedEvents,
      ProviderTables.hasCallbacks] at h

theorem mem_tracepoints {pid : Nat} {tracepoint : DotNetTracepoint} :
    tracepoint ∈ (OSDotNetEventFactory.after guidFromProvider calls).tracepoints pid ↔
      ∃ p kind, HasKind guidFromProvider calls p kind ∧
        tracepoint = ⟨tracepointName pid p kind, p, kind,
          (OSDotNetEventFactory.after guidFromProvider calls).capturesCallstacks p kind⟩ := by
  unfold OSDotNetEventFactory.tracepoints OSDotNetEventFactory.tracepointsOf
  constructor
  · intro hmem
    obtain ⟨p, -, hmem⟩ := List.mem_flatMap.mp hmem
    obtain ⟨kind, hkind, rfl⟩ := List.mem_map.mp hmem
    exact ⟨p, kind, wants_iff.mp (List.mem_filter.mp hkind).2, rfl⟩
  · rintro ⟨p, kind, hkind, rfl⟩
    have hwants := wants_iff.mpr hkind
    refine List.mem_flatMap.mpr ⟨p, mem_names_of_wants hwants, List.mem_map_of_mem
      (List.mem_filter.mpr ⟨?_, hwants⟩)⟩
    cases kind with
    | noCallstacks => simp
    | callstacks => simp
    | all => simp

theorem nodup_names : (OSDotNetEventFactory.after guidFromProvider calls).names.Nodup := by
  induction calls using List.reverseRecOn with
  | nil => exact List.nodup_nil
  | append_singleton calls call ih =>
    rw [OSDotNetEventFactory.after_concat]
    cases call with
    | recordProvider providerName keyword level flags => exact nodup_insertNew ih _
    | newEvent providerName keyword level id name callstacks =>
      unfold OSDotNetEventFactory.call OSDotNetEventFactory.newEvent
      dsimp only
      cases guidFromProvider providerName with
      | error fault => exact ih
      | ok guid =>
        cases id with
        | none => exact nodup_insertNew ih _
        | some id => exact nodup_insertNew ih _

theorem nodup_tracepoints (pid : Nat) :
    ((OSDotNetEventFactory.after guidFromProvider calls).tracepoints pid).Nodup := by
  unfold OSDotNetEventFactory.tracepoints OSDotNetEventFactory.tracepointsOf
  refine List.nodup_flatMap.mpr ⟨fun p _ => ?_, nodup_names.imp fun {p p'} hne => ?_⟩
  · refine List.Nodup.map ?_ (List.Nodup.filter _ (by decide))
    intro kind kind' heq
    exact (DotNetTracepoint.mk.inj heq).2.2.1
  · rintro tracepoint hmem hmem'
    obtain ⟨kind, -, rfl⟩ := List.mem_map.mp hmem
    obtain ⟨kind', -, heq⟩ := List.mem_map.mp hmem'
    exact hne (DotNetTracepoint.mk.inj heq).2.1.symm

/-- The tracepoints have different names, exactly when the names of their providers are apart. -/
theorem nodup_tracepointNames_iff (pid : Nat) :
    (((OSDotNetEventFactory.after guidFromProvider calls).tracepoints pid).map (·.name)).Nodup ↔
      NamesApart guidFromProvider calls := by
  rw [List.nodup_map_iff_inj_on (nodup_tracepoints pid)]
  constructor
  · intro h p p' kind hp hp' hsafe
    have hsame := h _ (mem_tracepoints.mpr ⟨p, kind, hp, rfl⟩) _
      (mem_tracepoints.mpr ⟨p', kind, hp', rfl⟩) (tracepointName_congr hsafe kind)
    exact (DotNetTracepoint.mk.inj hsame).2.1
  · intro h tracepoint hmem tracepoint' hmem' hname
    obtain ⟨p, kind, hp, rfl⟩ := mem_tracepoints.mp hmem
    obtain ⟨p', kind', hp', rfl⟩ := mem_tracepoints.mp hmem'
    obtain ⟨hsafe, rfl⟩ := tracepointName_inj hname
    obtain rfl := h p p' kind hp hp' hsafe
    rfl

theorem flagsAgree_iff : FlagsAgree guidFromProvider calls ↔
    ∀ p id, Listed (proxiesOf guidFromProvider calls) p false id →
      ¬ Listed (proxiesOf guidFromProvider calls) p true id := by
  constructor
  · rintro h p id ⟨r, hr, rfl, ⟨dotnetId, hid, hlow⟩, hflag⟩ ⟨r', hr', hp, ⟨dotnetId', hid', hlow'⟩,
      hflag'⟩
    have hsame := h r hr r' hr' hp.symm dotnetId dotnetId' hid hid' (hlow.trans hlow'.symm)
    rw [hflag, hflag'] at hsame
    cases hsame
  · intro h r hr r' hr' hp id id' hid hid' hlow
    by_contra hne
    cases hflag : r.callstacks with
    | false =>
      cases hflag' : r'.callstacks with
      | false => exact hne (hflag.trans hflag'.symm)
      | true =>
        exact h _ _ ⟨r, hr, hp, ⟨id, hid, hlow⟩, hflag⟩ ⟨r', hr', rfl, ⟨id', hid', rfl⟩, hflag'⟩
    | true =>
      cases hflag' : r'.callstacks with
      | false =>
        exact h _ _ ⟨r', hr', rfl, ⟨id', hid', rfl⟩, hflag'⟩ ⟨r, hr, hp, ⟨id, hid, hlow⟩, hflag⟩
      | true => exact hne (hflag.trans hflag'.symm)

/-- The lists of every provider are disjoint, exactly when the flags of its ids agree. -/
theorem disjoint_lists_iff (pid : Nat) :
    (∀ p, (((OSDotNetEventFactory.after guidFromProvider calls).providerEvents pid p).events.map
        (·.events)).Pairwise List.Disjoint) ↔ FlagsAgree guidFromProvider calls := by
  have hholds := OSDotNetEventFactory.holds_after guidFromProvider calls
  rw [flagsAgree_iff]
  refine forall_congr' fun p => ?_
  unfold OSDotNetEventFactory.providerEvents
  dsimp only
  have hno : (OSDotNetEventFactory.after guidFromProvider calls).wants p .noCallstacks = true ↔
      ∃ id, Listed (proxiesOf guidFromProvider calls) p false id := wants_iff
  have hyes : (OSDotNetEventFactory.after guidFromProvider calls).wants p .callstacks = true ↔
      ∃ id, Listed (proxiesOf guidFromProvider calls) p true id := wants_iff
  by_cases hfalse : ∃ id, Listed (proxiesOf guidFromProvider calls) p false id
  · by_cases htrue : ∃ id, Listed (proxiesOf guidFromProvider calls) p true id
    · simp only [List.filter_cons, hno.mpr hfalse, hyes.mpr htrue, if_true, List.filter_nil,
        List.map_cons, List.map_nil, List.pairwise_cons, List.mem_singleton, forall_eq]
      constructor
      · intro h id hid hid'
        exact h.1 ((mem_dotnetIds hholds unique_proxies).mpr hid)
          ((mem_dotnetIds hholds unique_proxies).mpr hid')
      · intro h
        refine ⟨fun id hid hid' => ?_, by simp⟩
        exact h id ((mem_dotnetIds hholds unique_proxies).mp hid)
          ((mem_dotnetIds hholds unique_proxies).mp hid')
    · simp only [List.filter_cons, hno.mpr hfalse, mt hyes.mp htrue, if_true, List.filter_nil,
        List.map_cons, List.map_nil, Bool.false_eq_true, if_false, List.pairwise_singleton, true_iff]
      exact fun id _ hid => htrue ⟨id, hid⟩
  · simp only [List.filter_cons, mt hno.mp hfalse, Bool.false_eq_true, if_false]
    refine iff_of_true ?_ fun id hid => absurd ⟨id, hid⟩ hfalse
    split
    · simp
    · simp

/-! ## What a runtime writes -/

/-- A runtime writes an event to a tracepoint: its list holds the id, or no list does and it is the
default one. -/
def UserEventProviderEvents.Writes (events : UserEventProviderEvents) (id : Nat)
    (tracepoint : List Char) : Prop :=
  (∃ list ∈ events.events, id ∈ list.events ∧ tracepoint = list.tracepoint) ∨
    (∀ list ∈ events.events, id ∉ list.events) ∧ events.defaultTracepoint = some tracepoint

variable (guidFromProvider calls)

/-- The kind of tracepoint that an id leads to. -/
def Routes (p : String) (id : Nat) : TracepointKind → Prop
  | .noCallstacks => Listed (proxiesOf guidFromProvider calls) p false id
  | .callstacks => Listed (proxiesOf guidFromProvider calls) p true id
  | .all => HasKind guidFromProvider calls p .all ∧
      ∀ callstacks, ¬ Listed (proxiesOf guidFromProvider calls) p callstacks id

variable {guidFromProvider calls}

theorem Routes.hasKind {p : String} {id : Nat} {kind : TracepointKind}
    (h : Routes guidFromProvider calls p id kind) : HasKind guidFromProvider calls p kind := by
  cases kind with
  | noCallstacks => exact ⟨id, h⟩
  | callstacks => exact ⟨id, h⟩
  | all => exact h.1

theorem Routes.unique (hflags : FlagsAgree guidFromProvider calls) {p : String} {id : Nat}
    {kind kind' : TracepointKind} (h : Routes guidFromProvider calls p id kind)
    (h' : Routes guidFromProvider calls p id kind') : kind = kind' := by
  have hapart := flagsAgree_iff.mp hflags p id
  cases kind with
  | noCallstacks =>
    cases kind' with
    | noCallstacks => rfl
    | callstacks => exact absurd h' (hapart h)
    | all => exact absurd h (h'.2 false)
  | callstacks =>
    cases kind' with
    | noCallstacks => exact absurd h (hapart h')
    | callstacks => rfl
    | all => exact absurd h (h'.2 true)
  | all =>
    cases kind' with
    | noCallstacks => exact absurd h' (h.2 false)
    | callstacks => exact absurd h' (h.2 true)
    | all => rfl

theorem mem_lists {pid : Nat} {p : String} {list : UserEventTracepointEvents} :
    list ∈ ((OSDotNetEventFactory.after guidFromProvider calls).providerEvents pid p).events ↔
      ∃ kind callstacks, (kind, callstacks) ∈
          [(TracepointKind.noCallstacks, false), (.callstacks, true)] ∧
        HasKind guidFromProvider calls p kind ∧ list = ⟨tracepointName pid p kind,
          (OSDotNetEventFactory.after guidFromProvider calls).dotnetIds p callstacks⟩ := by
  unfold OSDotNetEventFactory.providerEvents
  constructor
  · intro hmem
    obtain ⟨⟨kind, callstacks⟩, hgroup, rfl⟩ := List.mem_map.mp hmem
    obtain ⟨hgroup, hwants⟩ := List.mem_filter.mp hgroup
    exact ⟨kind, callstacks, hgroup, wants_iff.mp hwants, rfl⟩
  · rintro ⟨kind, callstacks, hgroup, hkind, rfl⟩
    exact List.mem_map.mpr ⟨(kind, callstacks), List.mem_filter.mpr ⟨hgroup, wants_iff.mpr hkind⟩,
      rfl⟩

theorem writes_iff {pid : Nat} {p : String} {id : Nat} {tracepoint : List Char} :
    ((OSDotNetEventFactory.after guidFromProvider calls).providerEvents pid p).Writes id
        tracepoint ↔
      ∃ kind, Routes guidFromProvider calls p id kind ∧ tracepoint = tracepointName pid p kind := by
  have hholds := OSDotNetEventFactory.holds_after guidFromProvider calls
  have hdefault : ((OSDotNetEventFactory.after guidFromProvider calls).providerEvents pid
      p).defaultTracepoint = some tracepoint ↔
        HasKind guidFromProvider calls p .all ∧ tracepoint = tracepointName pid p .all := by
    unfold OSDotNetEventFactory.providerEvents
    dsimp only
    rw [← wants_iff]
    split
    · rename_i hwants
      simp [hwants, eq_comm]
    · rename_i hwants
      simp [hwants]
  have hlisted : ∀ kind callstacks, (kind, callstacks) ∈
      [(TracepointKind.noCallstacks, false), (.callstacks, true)] →
      (id ∈ (OSDotNetEventFactory.after guidFromProvider calls).dotnetIds p callstacks ↔
        Routes guidFromProvider calls p id kind) := by
    intro kind callstacks hgroup
    rcases List.mem_cons.mp hgroup with heq | hgroup
    · cases heq
      exact mem_dotnetIds hholds unique_proxies
    · cases List.mem_singleton.mp hgroup
      exact mem_dotnetIds hholds unique_proxies
  constructor
  · rintro (⟨list, hlist, hid, rfl⟩ | ⟨hnone, hdef⟩)
    · obtain ⟨kind, callstacks, hgroup, -, rfl⟩ := mem_lists.mp hlist
      exact ⟨kind, (hlisted kind callstacks hgroup).mp hid, rfl⟩
    · obtain ⟨hkind, rfl⟩ := hdefault.mp hdef
      refine ⟨.all, ⟨hkind, fun callstacks hlist => ?_⟩, rfl⟩
      cases callstacks with
      | false =>
        exact hnone _ (mem_lists.mpr ⟨.noCallstacks, false, by simp, ⟨id, hlist⟩, rfl⟩)
          ((mem_dotnetIds hholds unique_proxies).mpr hlist)
      | true =>
        exact hnone _ (mem_lists.mpr ⟨.callstacks, true, by simp, ⟨id, hlist⟩, rfl⟩)
          ((mem_dotnetIds hholds unique_proxies).mpr hlist)
  · rintro ⟨kind, hroutes, rfl⟩
    cases kind with
    | noCallstacks =>
      exact .inl ⟨_, mem_lists.mpr ⟨.noCallstacks, false, by simp, hroutes.hasKind, rfl⟩,
        (hlisted .noCallstacks false (by simp)).mpr hroutes, rfl⟩
    | callstacks =>
      exact .inl ⟨_, mem_lists.mpr ⟨.callstacks, true, by simp, hroutes.hasKind, rfl⟩,
        (hlisted .callstacks true (by simp)).mpr hroutes, rfl⟩
    | all =>
      refine .inr ⟨fun list hlist hid => ?_, hdefault.mpr ⟨hroutes.1, rfl⟩⟩
      obtain ⟨kind, callstacks, -, -, rfl⟩ := mem_lists.mp hlist
      exact hroutes.2 callstacks ((mem_dotnetIds hholds unique_proxies).mp hid)

end Calls

/-! ## What a tracepoint runs -/

/-- A proxy event, or a recorder of a provider. -/
inductive Ran where
  | proxy (proxyId : Nat)
  | recorder (p i : Nat)
  deriving DecidableEq, Repr

/-- The recorders that are called: the loop ends with the first that fails. -/
def calledRecorders (answers : Nat → Answer) : Nat → Nat → List Nat
  | _, 0 => []
  | start, count + 1 =>
    start :: if (answers start).ok then calledRecorders answers (start + 1) count else []

theorem length_calledRecorders_le (answers : Nat → Answer) (start count : Nat) :
    (calledRecorders answers start count).length ≤ count := by
  induction count generalizing start with
  | zero => exact Nat.le_refl 0
  | succ count ih =>
    rw [calledRecorders, List.length_cons]
    split
    · exact Nat.succ_le_succ (ih (start + 1))
    · exact Nat.succ_le_succ (Nat.zero_le count)

/-- All recorders are called, exactly when none but the last fails. -/
theorem length_calledRecorders_iff (answers : Nat → Answer) (start count : Nat) :
    (calledRecorders answers start count).length = count ↔
      ∀ i, i + 1 < count → (answers (start + i)).ok = true := by
  induction count generalizing start with
  | zero => simp [calledRecorders]
  | succ count ih =>
    rw [calledRecorders, List.length_cons, Nat.add_right_cancel_iff]
    by_cases hok : (answers start).ok = true
    · rw [if_pos hok, ih]
      constructor
      · intro h i hi
        cases i with
        | zero => exact hok
        | succ i =>
          have := h i (by omega)
          rwa [Nat.add_right_comm, Nat.add_assoc] at this
      · intro h i hi
        have := h (i + 1) (by omega)
        rwa [← Nat.add_assoc, Nat.add_right_comm] at this
    · rw [if_neg hok, List.length_nil]
      constructor
      · rintro rfl i hi
        omega
      · intro h
        by_contra hne
        exact hok (h 0 (by omega))

theorem calledRecorders_eq_range' {answers : Nat → Answer} {start count : Nat}
    (h : (calledRecorders answers start count).length = count) :
    calledRecorders answers start count = List.range' start count := by
  induction count generalizing start with
  | zero => rfl
  | succ count ih =>
    rw [calledRecorders, List.length_cons, Nat.add_right_cancel_iff] at h
    rw [calledRecorders, List.range'_succ]
    split
    · rename_i hok
      rw [if_pos hok] at h
      rw [ih h]
    · rename_i hok
      rw [if_neg hok, List.length_nil] at h
      rw [← h]
      rfl

/-- What the callback of a tracepoint runs for an event. -/
def Session.ran (session : Session) : Session.Action → List Ran
  | .tracepoint p kind event =>
    match TracepointData.decode (session.tracepoints p kind).format event.pid event.eventData with
    | .ok _ =>
      (session.tracepoint p kind event).1.proxied.map .proxy ++
        (calledRecorders event.answers 0 (session.providers p).callbacks.length).map (.recorder p)
    | .error _ => []
  | .other _ => []

/-- What several callbacks run, one behind the other. -/
def Session.ranAll : Session → List Session.Action → List Ran
  | _, [] => []
  | session, action :: actions => session.ran action ++ (session.act action).2.ranAll actions

/-! ## Emitted events -/

/-- An event that a runtime writes to a tracepoint. -/
structure Emission where
  providerName : String
  tracepoint : List Char
  event : TracepointEvent

namespace OSDotNetEventFactory

/-- The callbacks of the events with a name. They have one id, and the session keeps the callback
of the last, but each of them has buffers of its own. -/
def closuresOf (self : OSDotNetEventFactory) (pid : Nat) (tracepoint : List Char) :
    List DotNetTracepoint :=
  let named := (self.tracepoints pid).filter (·.name = tracepoint)
  named.filterMap fun _ => named.getLast?

def actionsOf (self : OSDotNetEventFactory) (pid : Nat) (emission : Emission) :
    List Session.Action :=
  (self.closuresOf pid emission.tracepoint).map fun tracepoint =>
    .tracepoint (numberOf self.names tracepoint.providerName) tracepoint.kind emission.event

/-- The providers by their numbers. -/
def provider (self : OSDotNetEventFactory) (p : Nat) : LinuxDotNetProvider :=
  match self.names[p]? with
  | some name => (self.providers name).provider
  | none => {}

/-- The session that is built. All tracepoints have the same fields. -/
def hooked (self : OSDotNetEventFactory) (format : EventFormat) (kinds : List String)
    (recordTypes : List ExportRecordType) : Session :=
  Session.start kinds recordTypes self.provider fun _ _ => { format }

end OSDotNetEventFactory

section Emissions

variable (format : EventFormat)

/-- The metadata that an emission has for a pid and event id of a provider. -/
def metasFor (p : String) (key : Nat) (emission : Emission) : List MetaParserV5 :=
  if emission.providerName = p then
    match TracepointData.decode format emission.event.pid emission.event.eventData with
    | .ok data => if data.key = key then data.metas else []
    | .error _ => []
  else []

def latestEmitted (p : String) (key : Nat) (emissions : List Emission) : Option MetaParserV5 :=
  (emissions.flatMap (metasFor format p key)).getLast?

/-- The name that the latest metadata gives an event, if it has one. -/
def emittedName (p : String) (key : Nat) (emissions : List Emission) : Option String :=
  ((latestEmitted format p key emissions).map (·.name)).filter (· ≠ "")

variable (guidFromProvider : String → Exec Guid) (calls : List FactoryCall)

/-- The runtime writes an event to a tracepoint of its provider, by the lists. -/
def Emission.Routed (pid : Nat) (emission : Emission) : Prop :=
  ∀ data, TracepointData.decode format emission.event.pid emission.event.eventData = .ok data →
    ((OSDotNetEventFactory.after guidFromProvider calls).providerEvents pid
      emission.providerName).Writes data.id emission.tracepoint

/-- What is registered for an event: by its id, by its name, and the recorders of its provider. -/
def wantedRuns (p : String) (id : Nat) (name : Option String) : List Ran :=
  (proxiesById (proxiesOf guidFromProvider calls) p id).map .proxy ++
    ((name.elim [] (proxiesByName (proxiesOf guidFromProvider calls) p)).map .proxy ++
      (List.range (recordersOf guidFromProvider p calls)).map
        (.recorder (numberOf (OSDotNetEventFactory.after guidFromProvider calls).names p)))

/-- An event runs what is registered for it exactly once, and nothing else. -/
def RunsOnce (pid : Nat) (session : Session) (before : List Emission) (emission : Emission) :
    Prop :=
  ∀ data, TracepointData.decode format emission.event.pid emission.event.eventData = .ok data →
    (session.ranAll ((OSDotNetEventFactory.after guidFromProvider calls).actionsOf pid
      emission)).Perm
      (wantedRuns guidFromProvider calls emission.providerName data.id
        (emittedName format emission.providerName data.key (before ++ [emission])))

/-- An event whose id is in a list has no registered name, and no recorder but the last fails. -/
def Unmixed (before : List Emission) (emission : Emission) : Prop :=
  ∀ data, TracepointData.decode format emission.event.pid emission.event.eventData = .ok data →
    (∀ callstacks,
        Listed (proxiesOf guidFromProvider calls) emission.providerName callstacks data.id →
        ∀ r ∈ proxiesOf guidFromProvider calls, r.providerName = emission.providerName →
          r.id = none →
          emittedName format emission.providerName data.key (before ++ [emission]) ≠ some r.name) ∧
      ∀ i, i + 1 < recordersOf guidFromProvider emission.providerName calls →
        (emission.event.answers i).ok = true

variable {format guidFromProvider calls} {pid : Nat}

theorem filter_eq_singleton {α β : Type} [DecidableEq β] {f : α → β} {xs : List α}
    (h : (xs.map f).Nodup) {x : α} (hx : x ∈ xs) : xs.filter (fun y => f y = f x) = [x] := by
  induction xs with
  | nil => exact (List.not_mem_nil hx).elim
  | cons y xs ih =>
    rw [List.map_cons, List.nodup_cons] at h
    rcases List.mem_cons.mp hx with rfl | hx
    · rw [List.filter_cons_of_pos (by simp), List.filter_eq_nil_iff.mpr fun y hy hsame => ?_]
      exact h.1 (of_decide_eq_true hsame ▸ List.mem_map_of_mem hy)
    · have hne : f y ≠ f x := fun hsame => h.1 (hsame ▸ List.mem_map_of_mem hx)
      rw [List.filter_cons_of_neg (by simpa using hne)]
      exact ih h.2 hx

/-- With names apart an event reaches the callback of one tracepoint. -/
theorem actionsOf_routed (hapart : NamesApart guidFromProvider calls) {emission : Emission}
    {id : Nat} {kind : TracepointKind}
    (hroutes : Routes guidFromProvider calls emission.providerName id kind)
    (htracepoint : emission.tracepoint = tracepointName pid emission.providerName kind) :
    (OSDotNetEventFactory.after guidFromProvider calls).actionsOf pid emission =
      [.tracepoint (numberOf (OSDotNetEventFactory.after guidFromProvider calls).names
        emission.providerName) kind emission.event] := by
  have hmem : (⟨tracepointName pid emission.providerName kind, emission.providerName, kind,
      (OSDotNetEventFactory.after guidFromProvider calls).capturesCallstacks emission.providerName
        kind⟩ : DotNetTracepoint) ∈
      (OSDotNetEventFactory.after guidFromProvider calls).tracepoints pid :=
    mem_tracepoints.mpr ⟨_, _, hroutes.hasKind, rfl⟩
  have hone := filter_eq_singleton ((nodup_tracepointNames_iff pid).mpr hapart) hmem
  unfold OSDotNetEventFactory.actionsOf OSDotNetEventFactory.closuresOf
  rw [htracepoint]
  dsimp only at hone ⊢
  rw [hone]
  rfl

theorem numberOf_names_inj {p p' : String} {kind kind' : TracepointKind}
    (h : HasKind guidFromProvider calls p kind) (_h' : HasKind guidFromProvider calls p' kind') :
    numberOf (OSDotNetEventFactory.after guidFromProvider calls).names p =
      numberOf (OSDotNetEventFactory.after guidFromProvider calls).names p' ↔ p = p' :=
  List.idxOf_inj (mem_names_of_wants (wants_iff.mpr h))

theorem key_mod {data : TracepointData} (h : data.id < 2 ^ 16) : data.key % 2 ^ 32 = data.id := by
  rw [TracepointData.key, ← Nat.shiftLeft_add_eq_or_of_lt (by omega), Nat.shiftLeft_eq]
  omega

/-- The metadata that a tracepoint gets for an event is all that there is of it. -/
theorem metasOf_actionsOf (hapart : NamesApart guidFromProvider calls)
    (hflags : FlagsAgree guidFromProvider calls) {emission : Emission}
    (hrouted : emission.Routed format guidFromProvider calls pid) {p : String}
    {kind : TracepointKind} {data : TracepointData} (hid : data.id < 2 ^ 16)
    (hroutes : Routes guidFromProvider calls p data.id kind) :
    ((OSDotNetEventFactory.after guidFromProvider calls).actionsOf pid emission).flatMap
        (Session.metasOf (fun _ _ => format)
          (numberOf (OSDotNetEventFactory.after guidFromProvider calls).names p) kind data.key) =
      metasFor format p data.key emission := by
  unfold metasFor
  cases hdecode : TracepointData.decode format emission.event.pid emission.event.eventData with
  | error fault =>
    have hnone : ∀ action ∈ (OSDotNetEventFactory.after guidFromProvider calls).actionsOf pid
        emission, Session.metasOf (fun _ _ => format)
          (numberOf (OSDotNetEventFactory.after guidFromProvider calls).names p) kind data.key
          action = [] := by
      intro action haction
      obtain ⟨tracepoint, -, rfl⟩ := List.mem_map.mp haction
      unfold Session.metasOf
      dsimp only
      rw [hdecode]
      simp
    rw [List.flatMap_eq_nil_iff.mpr hnone]
    simp
  | ok data' =>
    obtain ⟨kind', hroutes', htracepoint⟩ := writes_iff.mp (hrouted data' hdecode)
    have hnumber := numberOf_names_inj hroutes'.hasKind hroutes.hasKind
    rw [actionsOf_routed hapart hroutes' htracepoint, List.flatMap_singleton, Session.metasOf,
      hdecode]
    dsimp only
    by_cases hp : emission.providerName = p
    · rw [if_pos hp]
      by_cases hkey : data'.key = data.key
      · -- the id leads both events to one tracepoint
        have hsame : data'.id = data.id := by
          rw [← key_mod (id_lt_of_decode hdecode), ← key_mod hid, hkey]
        rw [hsame, hp] at hroutes'
        rw [if_pos hkey, if_pos ⟨hnumber.mpr hp, hroutes'.unique hflags hroutes⟩]
      · rw [if_neg hkey, ite_self]
    · rw [if_neg hp, if_neg fun h => hp (hnumber.mp h.1)]

theorem latestMeta_emissions (hapart : NamesApart guidFromProvider calls)
    (hflags : FlagsAgree guidFromProvider calls) {emissions : List Emission}
    (hrouted : ∀ emission ∈ emissions, emission.Routed format guidFromProvider calls pid)
    {p : String} {kind : TracepointKind} {data : TracepointData} (hid : data.id < 2 ^ 16)
    (hroutes : Routes guidFromProvider calls p data.id kind) :
    Session.latestMeta (fun _ _ => format)
        (numberOf (OSDotNetEventFactory.after guidFromProvider calls).names p) kind data.key
        (emissions.flatMap ((OSDotNetEventFactory.after guidFromProvider calls).actionsOf pid)) =
      latestEmitted format p data.key emissions := by
  unfold Session.latestMeta latestEmitted
  rw [List.flatMap_assoc, List.flatMap_congr fun emission hmem =>
    metasOf_actionsOf hapart hflags (hrouted emission hmem) hid hroutes]

theorem provider_numberOf {p : String} {kind : TracepointKind}
    (h : HasKind guidFromProvider calls p kind) :
    (OSDotNetEventFactory.after guidFromProvider calls).provider
        (numberOf (OSDotNetEventFactory.after guidFromProvider calls).names p) =
      ((OSDotNetEventFactory.after guidFromProvider calls).providers p).provider := by
  unfold OSDotNetEventFactory.provider
  rw [getElem?_numberOf (mem_names_of_wants (wants_iff.mpr h))]

theorem proxied_ok {session : Session} {p : Nat} {kind : TracepointKind} {event : TracepointEvent}
    {data : TracepointData}
    (h : TracepointData.decode (session.tracepoints p kind).format event.pid event.eventData =
      .ok data) :
    (session.tracepoint p kind event).1.proxied =
      Session.proxiesOf (session.providers p) kind data.id
        (Session.contextOf (session.added p kind data) data).info := by
  unfold Session.tracepoint
  dsimp only
  rw [h]
  dsimp only
  split
  · rfl
  · rfl

/-- What an event runs: by its id in a list, else by its name, and the recorders until one fails. -/
theorem ran_routed (hapart : NamesApart guidFromProvider calls)
    (hflags : FlagsAgree guidFromProvider calls) {session : Session} {before : List Emission}
    {emission : Emission}
    (hrouted : ∀ emission' ∈ before ++ [emission],
      emission'.Routed format guidFromProvider calls pid)
    (hserves : session.Serves (OSDotNetEventFactory.after guidFromProvider calls).provider
      (fun _ _ => format)
      (before.flatMap ((OSDotNetEventFactory.after guidFromProvider calls).actionsOf pid)))
    {data : TracepointData}
    (hdecode : TracepointData.decode format emission.event.pid emission.event.eventData = .ok data)
    {kind : TracepointKind}
    (hroutes : Routes guidFromProvider calls emission.providerName data.id kind)
    (htracepoint : emission.tracepoint = tracepointName pid emission.providerName kind) :
    session.ranAll ((OSDotNetEventFactory.after guidFromProvider calls).actionsOf pid emission) =
      ((if kind = .all then
          (emittedName format emission.providerName data.key (before ++ [emission])).elim []
            (proxiesByName (proxiesOf guidFromProvider calls) emission.providerName)
        else proxiesById (proxiesOf guidFromProvider calls) emission.providerName data.id).map
          Ran.proxy) ++
        (calledRecorders emission.event.answers 0
          (recordersOf guidFromProvider emission.providerName calls)).map
          (.recorder (numberOf (OSDotNetEventFactory.after guidFromProvider calls).names
            emission.providerName)) := by
  have hholds := OSDotNetEventFactory.holds_after guidFromProvider calls
  have hactions := @actionsOf_routed _ _ pid hapart emission _ _ hroutes htracepoint
  have hlatest := latestMeta_emissions hapart hflags hrouted (id_lt_of_decode hdecode) hroutes
  rw [List.flatMap_append, List.flatMap_singleton, hactions] at hlatest
  rw [hactions]
  generalize hnumber : numberOf (OSDotNetEventFactory.after guidFromProvider calls).names
    emission.providerName = p at *
  have hprovider := provider_numberOf hroutes.hasKind
  rw [hnumber] at hprovider
  obtain ⟨hevents, hnamed, hlogical, hkeywords⟩ := hserves.providers p
  have hlength : (session.providers p).callbacks.length =
      recordersOf guidFromProvider emission.providerName calls := by
    have hlength := congrArg List.length hkeywords
    rw [List.length_map, List.length_map, hprovider] at hlength
    exact hlength.trans (hholds.callbacks emission.providerName)
  have hdecode' := hdecode
  rw [← hserves.format p kind] at hdecode'
  unfold Session.ranAll Session.ranAll Session.ran
  dsimp only
  rw [hdecode', List.append_nil]
  dsimp only
  rw [proxied_ok hdecode', hlength]
  refine congrArg (fun proxied => List.map Ran.proxy proxied ++ _) ?_
  unfold Session.proxiesOf
  by_cases hall : kind = .all
  · subst hall
    have hlearned := @Session.Serves.learned_added _ _ _ _ hserves p .all emission.event data hdecode
      data.key
    rw [hlatest, hprovider] at hlearned
    have huse : TracepointKind.all.useNames = true := by decide
    rw [if_pos rfl, if_pos huse, hlogical, hprovider, Session.contextOf, emittedName]
    dsimp only
    cases hmeta : latestEmitted format emission.providerName data.key (before ++ [emission]) with
    | none =>
      rw [hmeta] at hlearned
      rw [Option.map_eq_none_iff.mp hlearned]
      rfl
    | some metadata =>
      rw [hmeta] at hlearned
      obtain ⟨info, hinfo, hpair⟩ := Option.map_eq_some_iff.mp hlearned
      have hid : info.logicalId = _ := congrArg Prod.snd hpair
      rw [hinfo, Option.getD_some, hid]
      by_cases hname : metadata.name = ""
      · have hnone : ((some metadata).map (·.name)).filter (· ≠ "") = none := by
          simp [hname]
        have hunnamed : (learned TracepointKind.all.useNames
            ((OSDotNetEventFactory.after guidFromProvider calls).providers
              emission.providerName).provider.namedEvents metadata).2 = none :=
          if_neg fun h => h.2 hname
        rw [hnone, hunnamed]
        rfl
      · have hsome : ((some metadata).map (·.name)).filter (· ≠ "") = some metadata.name := by
          simp [hname]
        have hregistered : (learned TracepointKind.all.useNames
            ((OSDotNetEventFactory.after guidFromProvider calls).providers
              emission.providerName).provider.namedEvents metadata).2 =
            ((OSDotNetEventFactory.after guidFromProvider calls).providers
              emission.providerName).provider.namedEvents metadata.name := if_pos ⟨rfl, hname⟩
        rw [hsome, hregistered, Option.elim_some]
        split
        · rename_i n hn
          exact hholds.proxiesByName hn
        · rename_i hn
          exact (hholds.proxiesByName_eq_nil hn).symm
  · have huse : ¬ kind.useNames = true := by
      cases kind with
      | noCallstacks => decide
      | callstacks => decide
      | all => exact absurd rfl hall
    rw [if_neg hall, if_neg huse, hevents, hprovider]
    exact hholds.proxiesById emission.providerName data.id

/-- The proxy events of the name of an event, if it has one. -/
theorem named_eq_nil_iff {registered : List ProxyRegistration} {p : String} {name : Option String} :
    name.elim [] (proxiesByName registered p) = [] ↔
      ∀ r ∈ registered, r.providerName = p → r.id = none → name ≠ some r.name := by
  cases name with
  | none => simp
  | some name =>
    rw [Option.elim_some, proxiesByName, List.map_eq_nil_iff, List.filter_eq_nil_iff]
    constructor
    · intro h r hr hp hid hname
      exact h r hr (decide_eq_true ⟨hp, hid, (Option.some.inj hname).symm⟩)
    · intro h r hr hall
      obtain ⟨hp, hid, hname⟩ := of_decide_eq_true hall
      exact h r hr hp hid (by rw [hname])

theorem proxiesById_eq_nil {registered : List ProxyRegistration} {p : String} {id : Nat}
    (hid : id < 2 ^ 16) (h : ∀ callstacks, ¬ Listed registered p callstacks id) :
    proxiesById registered p id = [] := by
  rw [proxiesById, List.map_eq_nil_iff, List.filter_eq_nil_iff]
  intro r hr hall
  obtain ⟨hp, hrid⟩ := of_decide_eq_true hall
  exact h r.callstacks ⟨r, hr, hp, ⟨id, hrid, Nat.mod_eq_of_lt (by omega)⟩, rfl⟩

/-- One event. -/
theorem runsOnce_iff_unmixed (hapart : NamesApart guidFromProvider calls)
    (hflags : FlagsAgree guidFromProvider calls) {session : Session} {before : List Emission}
    {emission : Emission}
    (hrouted : ∀ emission' ∈ before ++ [emission],
      emission'.Routed format guidFromProvider calls pid)
    (hserves : session.Serves (OSDotNetEventFactory.after guidFromProvider calls).provider
      (fun _ _ => format)
      (before.flatMap ((OSDotNetEventFactory.after guidFromProvider calls).actionsOf pid))) :
    RunsOnce format guidFromProvider calls pid session before emission ↔
      Unmixed format guidFromProvider calls before emission := by
  refine forall_congr' fun data => forall_congr' fun hdecode => ?_
  obtain ⟨kind, hroutes, htracepoint⟩ :=
    writes_iff.mp (hrouted emission (by simp) data hdecode)
  rw [ran_routed hapart hflags hrouted hserves hdecode hroutes htracepoint, wantedRuns]
  have hid := id_lt_of_decode hdecode
  have hcalled := length_calledRecorders_iff emission.event.answers 0
    (recordersOf guidFromProvider emission.providerName calls)
  have hall := @calledRecorders_eq_range' emission.event.answers 0
    (recordersOf guidFromProvider emission.providerName calls)
  simp only [Nat.zero_add, ← List.range_eq_range'] at hcalled hall
  have hle := length_calledRecorders_le emission.event.answers 0
    (recordersOf guidFromProvider emission.providerName calls)
  rw [← hcalled]
  generalize calledRecorders emission.event.answers 0
    (recordersOf guidFromProvider emission.providerName calls) = called at *
  by_cases hkind : kind = .all
  · -- nothing is registered for the id
    subst hkind
    have hnone : ∀ callstacks, ¬ Listed (proxiesOf guidFromProvider calls) emission.providerName
        callstacks data.id := hroutes.2
    rw [if_pos rfl, proxiesById_eq_nil hid hnone, List.map_nil, List.nil_append]
    constructor
    · intro hperm
      refine ⟨fun callstacks hlisted => absurd hlisted (hnone callstacks), ?_⟩
      have hlength := ((List.perm_append_left_iff _).mp hperm).length_eq
      rwa [List.length_map, List.length_map, List.length_range] at hlength
    · rintro ⟨-, hlength⟩
      rw [hall hlength]
  · have hlisted : ∃ callstacks, Listed (proxiesOf guidFromProvider calls) emission.providerName
        callstacks data.id := by
      cases kind with
      | noCallstacks => exact ⟨false, hroutes⟩
      | callstacks => exact ⟨true, hroutes⟩
      | all => exact absurd rfl hkind
    obtain ⟨callstacks, hlisted⟩ := hlisted
    rw [if_neg hkind, List.perm_append_left_iff]
    have hunnamed := @named_eq_nil_iff (proxiesOf guidFromProvider calls) emission.providerName
      (emittedName format emission.providerName data.key (before ++ [emission]))
    constructor
    · intro hperm
      have hlength := hperm.length_eq
      rw [List.length_append, List.length_map, List.length_map, List.length_map,
        List.length_range] at hlength
      refine ⟨fun _ _ => hunnamed.mp (List.length_eq_zero_iff.mp (by omega)), by omega⟩
    · rintro ⟨hnames, hlength⟩
      rw [hunnamed.mpr (hnames callstacks hlisted), hall hlength]
      exact List.Perm.refl _

end Emissions

/-- **Routing.** Tracepoints and lists are apart and every event runs what is registered for it
once, exactly when names are apart, flags agree and no event is mixed. -/
theorem routed_once_iff (guidFromProvider : String → Exec Guid) (calls : List FactoryCall)
    (pid : Nat) (format : EventFormat) (kinds : List String)
    (recordTypes : List ExportRecordType) (emissions : List Emission)
    (hrouted : ∀ emission ∈ emissions, emission.Routed format guidFromProvider calls pid) :
    ((((OSDotNetEventFactory.after guidFromProvider calls).tracepoints pid).map (·.name)).Nodup ∧
        (∀ p, (((OSDotNetEventFactory.after guidFromProvider calls).providerEvents pid
          p).events.map (·.events)).Pairwise List.Disjoint) ∧
        ∀ before emission, before ++ [emission] <+: emissions →
          RunsOnce format guidFromProvider calls pid
            (((OSDotNetEventFactory.after guidFromProvider calls).hooked format kinds
              recordTypes).after (before.flatMap
                ((OSDotNetEventFactory.after guidFromProvider calls).actionsOf pid)))
            before emission) ↔
      NamesApart guidFromProvider calls ∧ FlagsAgree guidFromProvider calls ∧
        ∀ before emission, before ++ [emission] <+: emissions →
          Unmixed format guidFromProvider calls before emission := by
  rw [nodup_tracepointNames_iff, disjoint_lists_iff]
  refine and_congr_right fun hapart => and_congr_right fun hflags => ?_
  refine forall_congr' fun before => forall_congr' fun emission => forall_congr' fun hpart => ?_
  refine runsOnce_iff_unmixed hapart hflags (fun emission' hmem => ?_)
    (Session.serves_after _ _ kinds recordTypes _)
  exact hrouted emission' (hpart.subset hmem)

/-! ## One id with both flags -/

def anyGuid (_ : String) : Exec Guid := .ok ⟨1, 2, 3, [4, 5, 6, 7, 8, 9, 10, 11]⟩

/-- The event 5 with call stacks, and once more without. -/
def bothFlags : List FactoryCall :=
  [.newEvent "Provider" 0 0 (some 5) "First" true, .newEvent "Provider" 0 0 (some 5) "Second" false]

/-- The id 5 is in two lists. -/
theorem routed_twice : ¬ ∀ (guidFromProvider : String → Exec Guid) (calls : List FactoryCall)
    (pid : Nat) (format : EventFormat) (kinds : List String)
    (recordTypes : List ExportRecordType) (emissions : List Emission),
    (∀ emission ∈ emissions, emission.Routed format guidFromProvider calls pid) →
    (((OSDotNetEventFactory.after guidFromProvider calls).tracepoints pid).map (·.name)).Nodup ∧
      (∀ p, (((OSDotNetEventFactory.after guidFromProvider calls).providerEvents pid
        p).events.map (·.events)).Pairwise List.Disjoint) ∧
      ∀ before emission, before ++ [emission] <+: emissions →
        RunsOnce format guidFromProvider calls pid
          (((OSDotNetEventFactory.after guidFromProvider calls).hooked format kinds
            recordTypes).after (before.flatMap
              ((OSDotNetEventFactory.after guidFromProvider calls).actionsOf pid)))
          before emission := by
  intro h
  obtain ⟨-, hlists, -⟩ := h anyGuid bothFlags 1 headerFormat [] [] []
    fun _ hmem => (List.not_mem_nil hmem).elim
  have hflags := (disjoint_lists_iff 1).mp hlists
  have hsame := hflags ⟨"Provider", some 5, "First", 1, true⟩ List.mem_cons_self
    ⟨"Provider", some 5, "Second", 2, false⟩ (List.mem_cons_of_mem _ List.mem_cons_self) rfl 5 5
    rfl rfl rfl
  exact absurd hsame (by decide)

/-- The event 5 with call stacks, and a recorder. -/
def listedAndRecorded : List FactoryCall :=
  [.newEvent "Provider" 0 0 (some 5) "First" true, .recordProvider "Provider" 0 0 {}]

def listedEmission : Emission :=
  ⟨"Provider", tracepointName 1 "Provider" .callstacks, plainEvent⟩

/-- The event runs its proxy event and the recorder. -/
theorem routed_once_listed :
    RunsOnce headerFormat anyGuid listedAndRecorded 1
      ((OSDotNetEventFactory.after anyGuid listedAndRecorded).hooked headerFormat [] [])
      [] listedEmission := by
  have hproxies : ∀ r ∈ proxiesOf anyGuid listedAndRecorded,
      r = ⟨"Provider", some 5, "First", 1, true⟩ := fun _ hr => List.mem_singleton.mp hr
  have hkind : ∀ p kind, HasKind anyGuid listedAndRecorded p kind → p = "Provider" := by
    intro p kind h
    cases kind with
    | noCallstacks =>
      obtain ⟨id, r, hr, rfl, -⟩ := h
      rw [hproxies r hr]
    | callstacks =>
      obtain ⟨id, r, hr, rfl, -⟩ := h
      rw [hproxies r hr]
    | all =>
      rcases h with ⟨r, hr, rfl, -⟩ | hpos
      · rw [hproxies r hr]
      · by_contra hne
        simp [recordersOf, anyGuid, listedAndRecorded, Ne.symm hne] at hpos
  refine ((routed_once_iff anyGuid listedAndRecorded 1 headerFormat [] [] [listedEmission]
    fun emission hmem data hdata => ?_).mpr ⟨fun p p' kind hp hp' _ => ?_,
      fun r hr r' hr' _ id id' _ _ _ => ?_, fun before emission hpart data hdata => ?_⟩).2.2 []
    listedEmission (List.prefix_refl _)
  · obtain rfl := List.mem_singleton.mp hmem
    cases hdata
    exact writes_iff.mpr ⟨.callstacks,
      ⟨_, List.mem_singleton.mpr rfl, rfl, ⟨5, rfl, rfl⟩, rfl⟩, rfl⟩
  · rw [hkind p kind hp, hkind p' kind hp']
  · rw [hproxies r hr, hproxies r' hr']
  · have hprovider : emission = listedEmission :=
      List.mem_singleton.mp (hpart.subset (List.mem_append_right _ (List.mem_singleton.mpr rfl)))
    subst hprovider
    refine ⟨fun _ _ r hr _ hid => ?_, fun i hi => ?_⟩
    · rw [hproxies r hr] at hid
      cases hid
    · have hone : recordersOf anyGuid "Provider" listedAndRecorded = 1 := rfl
      have hi' : i + 1 < recordersOf anyGuid "Provider" listedAndRecorded := hi
      omega

end OneCollect.Dotnet
