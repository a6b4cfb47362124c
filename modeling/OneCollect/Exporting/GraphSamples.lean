import OneCollect.Exporting.GraphTree

/-! What one sample does to a graph, and the induction over the samples of a call.

`SampleAdded` is the whole effect of a sample: its value goes to its own node and to the totals up
to the root, once more to the root when an empty call stack is found in the cache; the path of its
node stands for its frames as they were at the time of the first sample with its call stack, and
for its own address at its own time. -/

namespace OneCollect.Exporting
open Theory NodeGraph

/-- The targets stand for the names, one by one. -/
abbrev ShowsAll (g : NodeGraph) (targets : List Target) (names : List FrameNames) : Prop :=
  List.Forall₂ g.toExportGraph.Shows targets names

section Later

variable {g after : NodeGraph}

theorem ShowsAll.later (h : Later g after) {targets : List Target} {names : List FrameNames}
    (hshows : ShowsAll g targets names) : ShowsAll after targets names :=
  hshows.imp fun _ _ => h.names.shows

theorem ShowsAll.concat {targets : List Target} {names : List FrameNames} {target : Target}
    {name : FrameNames} (hshows : ShowsAll g targets names)
    (hlast : g.toExportGraph.Shows target name) :
    ShowsAll g (targets ++ [target]) (names ++ [name]) :=
  List.rel_append hshows (.cons hlast .nil)

/-- The rise at a node and above it is the rise above its child. -/
theorem rise_child (h : g.Grown) {id child : Nat} (hid : id < g.nodes.length)
    (hlater : Later g after) (hpos : 0 < child) (hparent : after.parentOf child = id)
    (value i : Nat) :
    only (g.Above id) value i + only (· = id) value i = only (after.Above child) value i := by
  have hself := h.not_above_self hid
  have habove : after.Above child i ↔ g.Above id i ∨ i = id := by
    rw [Above, hparent, hlater.onPath_iff h hid, h.onPath_iff hid]
    exact and_iff_right (Nat.ne_of_gt hpos)
  unfold only
  by_cases hi : i = id
  · subst hi
    simp [habove, hself]
  · simp [habove, hi]

end Later

/-- The last entry of a call stack in the cache. -/
structure Imported (checks : OverflowChecks) (call : AddSamples) (g : NodeGraph)
    (callstackId id time : Nat) : Prop where
  lt : id < g.nodes.length
  empty : id = 0 ↔ call.frames callstackId = []
  shows : ∃ names, (call.frames callstackId).reverse.mapM (call.namesOf checks time) = .ok names ∧
    ShowsAll g (g.path id) names

/-- The first of the samples with a call stack. -/
def firstWith (samples : List ExportProcessSample) (callstackId : Nat) :
    Option ExportProcessSample :=
  samples.find? (·.callstackId = callstackId)

/-- The cache holds the call stacks of the samples so far, as they were imported at the first
sample. -/
structure Cached (checks : OverflowChecks) (call : AddSamples) (done : List ExportProcessSample)
    (state : GraphImport) : Prop where
  grown : state.graph.Grown
  hit : ∀ callstackId id, state.callstackIdToNode.lookup callstackId = some id →
    ∃ first, firstWith done callstackId = some first ∧
      Imported checks call state.graph callstackId id first.time
  miss : ∀ callstackId, state.callstackIdToNode.lookup callstackId = none →
    firstWith done callstackId = none

/-- An empty call stack that an earlier sample had already. -/
def Repeats (call : AddSamples) (done : List ExportProcessSample) (callstackId : Nat) : Prop :=
  call.frames callstackId = [] ∧ (firstWith done callstackId).isSome = true

instance (call : AddSamples) (done : List ExportProcessSample) (callstackId : Nat) :
    Decidable (Repeats call done callstackId) := inferInstanceAs (Decidable (_ ∧ _))

/-- The effect of a sample. -/
structure SampleAdded (checks : OverflowChecks) (call : AddSamples)
    (done : List ExportProcessSample) (sample : ExportProcessSample) (g after : NodeGraph)
    (id value : Nat) : Prop where
  value_eq : call.convert sample.value = .ok value
  pos : 0 < id
  lt : id < after.nodes.length
  later : Later g after
  total : ∀ i, after.totalOf i = (g.totalOf i + (only (after.OnPath id) value i +
    only (fun i => i = 0 ∧ Repeats call done sample.callstackId) value i)) % 2 ^ 64
  exclusive : ∀ i, after.exclusiveOf i = (g.exclusiveOf i + only (· = id) value i) % 2 ^ 64
  shows : ∃ first names name,
    firstWith (done ++ [sample]) sample.callstackId = some first ∧
    (call.frames sample.callstackId).reverse.mapM (call.namesOf checks first.time) = .ok names ∧
    call.namesOf checks sample.time sample.ip = .ok name ∧
    ShowsAll after (after.path id) (names ++ [name])

theorem firstWith_concat (done : List ExportProcessSample) (sample : ExportProcessSample)
    (callstackId : Nat) :
    firstWith (done ++ [sample]) callstackId =
      (firstWith done callstackId).or
        (if sample.callstackId = callstackId then some sample else none) := by
  unfold firstWith
  rw [List.find?_append, List.find?_singleton]
  simp only [decide_eq_true_eq]

theorem firstWith_of_some {done : List ExportProcessSample} {callstackId : Nat}
    {first : ExportProcessSample} (h : firstWith done callstackId = some first)
    (sample : ExportProcessSample) : firstWith (done ++ [sample]) callstackId = some first := by
  rw [firstWith_concat, h, Option.some_or]

theorem Imported.later {checks : OverflowChecks} {call : AddSamples} {g after : NodeGraph}
    {callstackId id time : Nat} (h : Imported checks call g callstackId id time) (hgrown : g.Grown)
    (hlater : Later g after) : Imported checks call after callstackId id time := by
  obtain ⟨names, hmap, hshows⟩ := h.shows
  refine ⟨h.lt.trans_le hlater.length_le, h.empty, names, hmap, ?_⟩
  rw [hlater.path_eq hgrown h.lt]
  exact ShowsAll.later hlater hshows

/-- The cache of a later graph. -/
theorem Cached.later {checks : OverflowChecks} {call : AddSamples}
    {done : List ExportProcessSample} {state : GraphImport} (h : Cached checks call done state)
    {after : NodeGraph} (hgrown : after.Grown) (hlater : Later state.graph after) :
    Cached checks call done { state with graph := after } where
  grown := hgrown
  hit := fun callstackId id hid => by
    obtain ⟨first, hfirst, himported⟩ := h.hit callstackId id hid
    exact ⟨first, hfirst, himported.later h.grown hlater⟩
  miss := h.miss

/-- A sample whose call stack is in the cache. -/
theorem Cached.concat_hit {checks : OverflowChecks} {call : AddSamples}
    {done : List ExportProcessSample} {state : GraphImport} (h : Cached checks call done state)
    {sample : ExportProcessSample} {id : Nat}
    (hid : state.callstackIdToNode.lookup sample.callstackId = some id) :
    Cached checks call (done ++ [sample]) state where
  grown := h.grown
  hit := fun callstackId id' hid' => by
    obtain ⟨first, hfirst, himported⟩ := h.hit callstackId id' hid'
    exact ⟨first, firstWith_of_some hfirst sample, himported⟩
  miss := fun callstackId hnone => by
    have hne : sample.callstackId ≠ callstackId := by
      rintro rfl
      rw [hid] at hnone
      cases hnone
    rw [firstWith_concat, h.miss callstackId hnone, if_neg hne, Option.none_or]

/-- A sample whose call stack is put into the cache. -/
theorem Cached.concat_miss {checks : OverflowChecks} {call : AddSamples}
    {done : List ExportProcessSample} {state : GraphImport} (h : Cached checks call done state)
    {sample : ExportProcessSample} {id : Nat}
    (hnone : state.callstackIdToNode.lookup sample.callstackId = none)
    (himported : Imported checks call state.graph sample.callstackId id sample.time) :
    Cached checks call (done ++ [sample])
      { state with callstackIdToNode := (sample.callstackId, id) :: state.callstackIdToNode } where
  grown := h.grown
  hit := fun callstackId id' hid' => by
    rw [List.lookup_cons] at hid'
    by_cases heq : callstackId = sample.callstackId
    · subst heq
      rw [beq_self_eq_true] at hid'
      obtain rfl := Option.some.inj hid'
      refine ⟨sample, ?_, himported⟩
      rw [firstWith_concat, h.miss _ hnone, Option.none_or, if_pos rfl]
    · rw [beq_eq_false_iff_ne.mpr heq] at hid'
      obtain ⟨first, hfirst, himported'⟩ := h.hit callstackId id' hid'
      exact ⟨first, firstWith_of_some hfirst sample, himported'⟩
  miss := fun callstackId hnone' => by
    rw [List.lookup_cons] at hnone'
    by_cases heq : callstackId = sample.callstackId
    · subst heq
      rw [beq_self_eq_true] at hnone'
      cases hnone'
    · rw [beq_eq_false_iff_ne.mpr heq] at hnone'
      rw [firstWith_concat, h.miss _ hnone', if_neg (Ne.symm heq), Option.none_or]

/-! ## The common frames -/

section Steps

variable {safe : Prop} {checks : OverflowChecks} {call : AddSamples} {g : NodeGraph}
  (hsafe : safe → checks = .off)
  (hnames : safe → ∀ time ip, ∃ names, call.namesOf checks time ip = .ok names)

include hnames

theorem yields_importIp (h : g.Grown) (time ip : Nat) :
    Yields safe (g.importIp checks call time ip) fun r =>
      ∃ name, call.namesOf checks time ip = .ok name ∧ Charged g r.2 (fun _ => 0) ∧
        r.2.nodes = g.nodes ∧ r.2.Known r.1 ∧ r.2.toExportGraph.Shows r.1 name := by
  rw [importIp, ExportGraph.importTarget_eq]
  cases heq : call.namesOf checks time ip with
  | error fault =>
    intro hs
    obtain ⟨names, hok⟩ := hnames hs time ip
    rw [heq] at hok
    cases hok
  | ok name =>
    obtain ⟨htabled, hextends, hshows⟩ := ExportGraph.intern_shows h.tabled name
    obtain ⟨nameId, -, hresolvable⟩ := hshows.resolvable
    have hlater : Later g { g with toExportGraph := (g.toExportGraph.intern name).2 } :=
      ⟨hextends, le_refl _, fun _ _ => rfl, fun _ _ => rfl⟩
    have hgrown : ({ g with toExportGraph := (g.toExportGraph.intern name).2 } : NodeGraph).Grown :=
      { h with
        known := fun id hid => hlater.known (h.known id hid)
        tabled := htabled }
    refine yields_ok ⟨name, rfl, ⟨hgrown, hlater, fun i => ?_, fun _ => rfl⟩, rfl, ⟨?_, ?_⟩, hshows⟩
    · exact (Nat.mod_eq_of_lt (h.words i).1).symm
    · exact (List.getElem?_eq_some_iff.mp hresolvable).1
    · exact (List.getElem?_eq_some_iff.mp hshows.method).1

include hsafe

/-- One frame below a node, with its effect. -/
theorem yields_importFrame {id : Nat} (h : g.Grown) (hid : id < g.nodes.length)
    (time ip value : Nat) :
    Yields safe (g.importIp checks call time ip >>= fun r => r.2.merge checks id r.1 value)
      fun r => Charged g r.2 (only (· = id) value) ∧ 0 < r.1 ∧ r.1 < r.2.nodes.length ∧
        r.2.parentOf r.1 = id ∧ ∃ name, call.namesOf checks time ip = .ok name ∧
          ∀ names, ShowsAll g (g.path id) names →
            ShowsAll r.2 (r.2.path r.1) (names ++ [name]) := by
  refine (yields_importIp hnames h time ip).bind ?_
  rintro ⟨target, middle⟩ ⟨name, hname, hcharged, hnodes, hknown, hshows⟩
  have hid' : id < middle.nodes.length := hnodes.symm ▸ hid
  refine (yields_merge hsafe hcharged.grown hid' hknown value).mono ?_
  rintro ⟨child, after⟩ ⟨hmerged, hchild⟩
  have hall := hcharged.trans hmerged
  refine ⟨hall.congr fun i => Nat.zero_add _, hchild.pos, hchild.lt, hchild.parent, name, hname,
    fun names hpath => ?_⟩
  rw [hmerged.grown.path_of_parent hchild.pos hchild.lt, hchild.parent, hchild.target,
    hall.later.path_eq h hid]
  exact (hpath.later hall.later).concat (hmerged.later.names.shows hshows)

/-- All frames of a call stack; `before` is the graph in which the import began. -/
theorem yields_importFrames {before : NodeGraph} (time value : Nat) (ips : List Nat)
    (id : Nat) (names : List FrameNames) (hid : id < g.nodes.length)
    (hcharged : Charged before g (only (g.Above id) value)) (hshows : ShowsAll g (g.path id) names) :
    Yields safe (importFrames checks call time value ips id g) fun r =>
      r.1 < r.2.nodes.length ∧ Charged before r.2 (only (r.2.Above r.1) value) ∧
        (r.1 = 0 ↔ id = 0 ∧ ips = []) ∧
        ∃ names', ips.mapM (call.namesOf checks time) = .ok names' ∧
          ShowsAll r.2 (r.2.path r.1) (names ++ names') := by
  induction ips generalizing g id names with
  | nil =>
    refine yields_ok ⟨hid, hcharged, by simp, [], rfl, ?_⟩
    rw [List.append_nil]
    exact hshows
  | cons ip ips ih =>
    have hframe := yields_importFrame hsafe hnames hcharged.grown hid time ip value
    refine hframe.bind_bind (g := fun r => importFrames checks call time value ips r.1 r.2) ?_
    rintro ⟨child, after⟩ ⟨hone, hpos, hlt, hparent, name, hname, hpath⟩
    have hall : Charged before after (only (after.Above child) value) :=
      (hcharged.trans hone).congr fun i => rise_child hcharged.grown hid hone.later hpos hparent value i
    refine (ih child (names ++ [name]) hlt hall (hpath names hshows)).mono ?_
    rintro ⟨last, final⟩ ⟨hlast, hfinal, hzero, names', hmap, hall'⟩
    refine ⟨hlast, hfinal, ?_, name :: names', ?_, ?_⟩
    · rw [hzero]
      simp [Nat.ne_of_gt hpos]
    · rw [List.mapM_cons, hname, ok_bind, hmap]
      rfl
    · rw [List.append_assoc] at hall'
      exact hall'

/-! ## A sample -/

theorem yields_importCommon {done : List ExportProcessSample} {state : GraphImport}
    (h : Cached checks call done state) (sample : ExportProcessSample) (value : Nat) :
    Yields safe (state.importCommon checks call sample value) fun r =>
      Cached checks call (done ++ [sample]) r.2 ∧ r.1 < r.2.graph.nodes.length ∧
        Charged state.graph r.2.graph (fun i => only (r.2.graph.Above r.1) value i +
          only (fun i => i = 0 ∧ Repeats call done sample.callstackId) value i) ∧
        ∃ first, firstWith (done ++ [sample]) sample.callstackId = some first ∧
          Imported checks call r.2.graph sample.callstackId r.1 first.time := by
  unfold GraphImport.importCommon
  cases hlookup : state.callstackIdToNode.lookup sample.callstackId with
  | some id =>
    obtain ⟨first, hfirst, himported⟩ := h.hit _ id hlookup
    have hrepeats : Repeats call done sample.callstackId ↔ id = 0 := by
      rw [Repeats, hfirst, himported.empty]
      simp
    refine (yields_charge hsafe h.grown himported.lt value).bind fun after hcharged => ?_
    refine yields_ok ⟨(h.concat_hit hlookup).later hcharged.grown hcharged.later,
      himported.lt.trans_le hcharged.later.length_le, hcharged.congr fun i => ?_, first,
      firstWith_of_some hfirst sample, himported.later h.grown hcharged.later⟩
    have habove := hcharged.later.above_iff h.grown himported.lt i
    unfold only
    by_cases hzero : id = 0
    · subst hzero
      have hnone : ¬ state.graph.Above 0 i := fun hab => hab.1 rfl
      simp [hrepeats, habove, hnone]
    · simp [hrepeats, habove, hzero]
  | none =>
    have hrepeats : ¬ Repeats call done sample.callstackId := by
      rw [Repeats, h.miss _ hlookup]
      simp
    have hstart : Charged state.graph state.graph (only (state.graph.Above 0) value) :=
      (Charged.refl h.grown).congr fun i => (if_neg fun hab => hab.1 rfl).symm
    refine (yields_importFrames hsafe hnames sample.time value
      (call.frames sample.callstackId).reverse 0 [] h.grown.rooted.pos hstart .nil).bind ?_
    rintro ⟨id, after⟩ ⟨hid, hcharged, hzero, names, hmap, hshows⟩
    have himported : Imported checks call after sample.callstackId id sample.time := by
      refine ⟨hid, ?_, names, hmap, hshows⟩
      rw [hzero, List.reverse_eq_nil_iff]
      exact and_iff_right rfl
    refine yields_ok ⟨((h.later hcharged.grown hcharged.later).concat_miss hlookup himported), hid,
      hcharged.congr fun i => ?_, sample, ?_, himported⟩
    · unfold only
      simp [hrepeats]
    · rw [firstWith_concat, h.miss _ hlookup, Option.none_or, if_pos rfl]

variable (hconvert : safe → ∀ value, ∃ n, call.convert value = .ok n)

include hconvert

/-- **A sample.** -/
theorem yields_addSample {done : List ExportProcessSample} {state : GraphImport}
    (h : Cached checks call done state) (sample : ExportProcessSample) :
    Yields safe (state.addSample checks call sample) fun r =>
      Cached checks call (done ++ [sample]) r.2 ∧
        ∃ value, SampleAdded checks call done sample state.graph r.2.graph r.1 value := by
  have hvalue : Yields safe (call.convert sample.value) fun n => call.convert sample.value = .ok n := by
    cases heq : call.convert sample.value with
    | error fault =>
      intro hs
      obtain ⟨n, hn⟩ := hconvert hs sample.value
      rw [heq] at hn
      cases hn
    | ok n => exact yields_ok rfl
  unfold GraphImport.addSample
  refine hvalue.bind fun value hconverted => ?_
  refine (yields_importCommon hsafe hnames h sample value).bind ?_
  rintro ⟨id, middle⟩ ⟨hcached, hid, hcharged, first, hfirst, himported⟩
  have hframe := yields_importFrame hsafe hnames hcached.grown hid sample.time sample.ip value
  refine hframe.bind_bind (g := fun r => r.2.modifyAt r.1 (addExclusive checks value) >>=
    fun graph => .ok (r.1, { middle with graph })) ?_
  rintro ⟨top, merged⟩ ⟨hone, hpos, hlt, hparent, name, hname, hpath⟩
  have hrise : Charged state.graph merged (fun i => only (merged.Above top) value i +
      only (fun i => i = 0 ∧ Repeats call done sample.callstackId) value i) := by
    refine (hcharged.trans hone).congr fun i => ?_
    have hchild := rise_child hcached.grown hid hone.later hpos hparent value i
    dsimp only at hchild ⊢
    omega
  refine (yields_modifyAt hlt (yields_addExclusive hsafe value (merged.nodeAt top))).bind ?_
  rintro after ⟨node, hnode, rfl⟩
  have hsame : SameButValues (merged.nodeAt top) node := by
    rw [hnode]
    exact ⟨rfl, rfl, rfl, rfl⟩
  have hword : node.total < 2 ^ 64 ∧ node.exclusive < 2 ^ 64 := by
    rw [hnode]
    exact ⟨Nat.mod_lt _ (Nat.two_pow_pos 64), Nat.mod_lt _ (Nat.two_pow_pos 64)⟩
  have hgrown := hrise.grown.setNode hlt hsame (fun hzero => absurd hzero (Nat.ne_of_gt hpos)) hword
  have hlast := Later.setNode hlt hsame
  have hlater := hrise.later.trans hlast
  have honPath : ∀ i, (merged.setNode top node).OnPath top i ↔ merged.Above top i ∨ i = top :=
    fun i => (hlast.onPath_iff hrise.grown hlt i).trans (hrise.grown.onPath_iff hlt i)
  obtain ⟨names, hmap, hshows⟩ := himported.shows
  refine yields_ok ⟨hcached.later hgrown (hone.later.trans hlast), value, hconverted, hpos,
    hlt.trans_le hlast.length_le, hlater, fun i => ?_, fun i => ?_, first, names, name, hfirst,
    hmap, hname, ?_⟩
  · have htotal := hrise.total i
    have hself := hrise.grown.not_above_self hlt
    rw [totalOf, nodeAt_setNode hlt]
    unfold only at htotal ⊢
    rw [if_congr (honPath i) rfl rfl]
    by_cases hi : i = top
    · subst hi
      rw [if_neg hself, Nat.zero_add] at htotal
      rw [if_pos rfl, if_pos (Or.inr rfl), hnode, Nat.add_comm value, ← Nat.add_assoc]
      refine Eq.trans ?_ (Nat.mod_add_mod _ (2 ^ 64) value)
      rw [← htotal]
      rfl
    · rw [if_neg hi, if_congr (or_iff_left hi) rfl rfl]
      exact htotal
  · have hexclusive := hrise.exclusive i
    rw [exclusiveOf, nodeAt_setNode hlt]
    unfold only
    by_cases hi : i = top
    · subst hi
      rw [if_pos rfl, if_pos rfl, hnode, ← hexclusive]
      rfl
    · rw [if_neg hi, if_neg hi, Nat.add_zero, ← hexclusive]
      exact (Nat.mod_eq_of_lt (hrise.grown.words i).2).symm
  · rw [hlast.path_eq hrise.grown hlt]
    exact ShowsAll.later hlast (hpath names hshows)

/-- **Samples.** What each sample keeps is kept by all of them. -/
theorem yields_addAll {P : List ExportProcessSample → List Nat → GraphImport → Prop}
    (hstep : ∀ done ids state sample, P done ids state → Cached checks call done state →
      ∀ id value after, Cached checks call (done ++ [sample]) after →
        SampleAdded checks call done sample state.graph after.graph id value →
          P (done ++ [sample]) (ids ++ [id]) after)
    (samples : List ExportProcessSample) (ids : List Nat) {done : List ExportProcessSample}
    {state : GraphImport} (hP : P done ids state) (h : Cached checks call done state) :
    Yields safe (GraphImport.addAll checks call samples state) fun r =>
      P (done ++ samples) (ids ++ r.1) r.2 ∧ Cached checks call (done ++ samples) r.2 := by
  induction samples generalizing done ids state with
  | nil =>
    refine yields_ok ?_
    rw [List.append_nil, List.append_nil]
    exact ⟨hP, h⟩
  | cons sample samples ih =>
    rw [GraphImport.addAll]
    refine (yields_addSample hsafe hnames hconvert h sample).bind ?_
    rintro ⟨id, after⟩ ⟨hcached, value, hadded⟩
    refine (ih (ids ++ [id]) (hstep done ids state sample hP h id value after hcached hadded)
      hcached).bind ?_
    rintro ⟨rest, final⟩ hfinal
    refine yields_ok ?_
    rw [List.append_assoc, List.append_assoc] at hfinal
    exact hfinal

end Steps

/-! ## A call -/

theorem cached_nil {checks : OverflowChecks} {call : AddSamples} {g : NodeGraph} (h : g.Grown) :
    Cached checks call [] ⟨g, []⟩ where
  grown := h
  hit := fun callstackId id hid => absurd hid (by simp)
  miss := fun _ _ => rfl

section Calls

variable {checks : OverflowChecks} {call : AddSamples} {g : NodeGraph}

/-- What holds of a graph without samples and is kept by each of them. -/
theorem of_importSamples {P : List ExportProcessSample → List Nat → GraphImport → Prop}
    (hstep : ∀ done ids state sample, P done ids state → Cached checks call done state →
      ∀ id value after, Cached checks call (done ++ [sample]) after →
        SampleAdded checks call done sample state.graph after.graph id value →
          P (done ++ [sample]) (ids ++ [id]) after)
    (h : g.Grown) (hP : P [] [] ⟨g, []⟩) {ids : List Nat} {after : NodeGraph}
    (hrun : g.importSamples checks call = .ok (ids, after)) :
    after.Grown ∧ ∃ state, state.graph = after ∧ P call.wanted ids state := by
  have hall : Yields False (GraphImport.addAll checks call call.wanted ⟨g, []⟩) _ :=
    yields_addAll (fun hs => hs.elim) (fun hs => hs.elim) (fun hs => hs.elim) hstep call.wanted
      [] hP (cached_nil h)
  rw [NodeGraph.importSamples, bind_eq_ok] at hrun
  obtain ⟨⟨ids', state⟩, hadd, hret⟩ := hrun
  cases hret
  obtain ⟨hfinal, hcached⟩ := hall.of_ok hadd
  exact ⟨hcached.grown, state, rfl, hfinal⟩

theorem addSamples_eq_ok {after : NodeGraph} :
    g.addSamples checks call = .ok after ↔ ∃ ids, g.importSamples checks call = .ok (ids, after) := by
  rw [NodeGraph.addSamples, bind_eq_ok]
  constructor
  · rintro ⟨⟨ids, graph⟩, himport, hret⟩
    cases hret
    exact ⟨ids, himport⟩
  · rintro ⟨ids, himport⟩
    exact ⟨(ids, after), himport, rfl⟩

theorem Grown.addSamples (h : g.Grown) {after : NodeGraph}
    (hrun : g.addSamples checks call = .ok after) : after.Grown := by
  obtain ⟨ids, himport⟩ := addSamples_eq_ok.mp hrun
  exact (of_importSamples (P := fun _ _ _ => True) (fun _ _ _ _ _ _ _ _ _ _ _ => trivial) h trivial
    himport).1

end Calls

theorem grown_new : NodeGraph.new.Grown where
  rooted := by
    refine ⟨by decide, fun c hpos hlt => ?_, fun p hlt => ?_, fun p c hlt => ?_⟩
    · exact absurd hlt (Nat.not_lt_of_le hpos)
    · obtain rfl : p = 0 := Nat.lt_one_iff.mp hlt
      exact List.nodup_nil
    · obtain rfl : p = 0 := Nat.lt_one_iff.mp hlt
      refine iff_of_false List.not_mem_nil ?_
      rintro ⟨hpos, hlt, -⟩
      exact absurd hlt (Nat.not_lt_of_le hpos)
  numbered := fun id hid => by
    obtain rfl : id = 0 := Nat.lt_one_iff.mp hid
    rfl
  rootParent := rfl
  rootExclusive := rfl
  known := fun id hid => by
    obtain rfl : id = 0 := Nat.lt_one_iff.mp hid
    exact ⟨by decide, by decide⟩
  tabled := ExportGraph.tabled_new
  words := fun id => by
    by_cases hid : id < NodeGraph.new.nodes.length
    · obtain rfl : id = 0 := Nat.lt_one_iff.mp hid
      decide
    · rw [totalOf, exclusiveOf, nodeAt_of_le (Nat.le_of_not_lt hid)]
      decide

/-- The calls of `add_samples` one after another. -/
def addCalls (checks : OverflowChecks) (calls : List AddSamples) (g : NodeGraph) : Exec NodeGraph :=
  calls.foldlM (fun g call => g.addSamples checks call) g

end OneCollect.Exporting
