import OneCollect.Exporting.GraphCounts
import OneCollect.Exporting.GraphTimes

/-! The paths of the nodes that samples are put into.

Nodes that are not the same have different paths (`PathsApart`), since `merge` adds a child only
where no child has its target. Samples are in one node exactly if their paths have the same names,
and these names do not depend on the graph (`namedIn_related`). -/

namespace OneCollect.Exporting
open Theory NodeGraph Overwrites

/-- The names of the path of a sample: its frames as they were for the first sample with its call
stack, and its own address. -/
def AddSamples.pathNames (self : AddSamples) (checks : OverflowChecks)
    (sample : ExportProcessSample) : Exec (List FrameNames) := do
  let first ← orPanic (firstWith self.wanted sample.callstackId)
  let names ← (self.frames sample.callstackId).reverse.mapM (self.namesOf checks first.time)
  let name ← self.namesOf checks sample.time sample.ip
  .ok (names ++ [name])

/-- The converted values of the samples of the calls, each with the names of its path. -/
def namedIn (checks : OverflowChecks) (calls : List AddSamples) :
    List (Nat × Exec (List FrameNames)) :=
  calls.flatMap fun call =>
    call.wanted.map fun sample => (call.valueOf sample, call.pathNames checks sample)

namespace NodeGraph

/-- Different nodes have different paths. -/
def PathsApart (g : NodeGraph) : Prop :=
  ∀ a < g.nodes.length, ∀ b < g.nodes.length, g.path a = g.path b → a = b

end NodeGraph

/-- A node with a path of these names. -/
def Named (g : NodeGraph) (found : Exec (List FrameNames)) (id : Nat) : Prop :=
  id < g.nodes.length ∧ ∃ names, found = .ok names ∧ ShowsAll g (g.path id) names

section Paths

variable {checks : OverflowChecks} {call : AddSamples} {g after : NodeGraph}

/-! ## Paths of a graph -/

namespace NodeGraph

/-- Where there are no new nodes the paths are those from before. -/
theorem PathsApart.later (h : g.PathsApart) (hgrown : g.Grown) (hlater : Later g after)
    (hlength : after.nodes.length = g.nodes.length) : after.PathsApart := by
  intro a ha b hb hpath
  rw [hlength] at ha hb
  rw [hlater.path_eq hgrown ha, hlater.path_eq hgrown hb] at hpath
  exact h a ha b hb hpath

/-- A new child, where no child has its target. -/
theorem PathsApart.child (h : g.PathsApart) (hgrown : g.Grown) (hlater : Later g after)
    (hafter : after.Grown) (hlength : after.nodes.length = g.nodes.length + 1) {parentId : Nat}
    {target : Target} (hchild : HasChild g after parentId target g.nodes.length)
    (hnone : ∀ id ∈ g.childrenOf parentId, g.targetOf id ≠ target) : after.PathsApart := by
  have hparent : parentId < g.nodes.length :=
    hchild.parent ▸ hafter.rooted.parent_lt _ hchild.pos hchild.lt
  have hnew : after.path g.nodes.length = g.path parentId ++ [target] := by
    rw [hafter.path_of_parent hchild.pos hchild.lt, hchild.parent, hchild.target,
      hlater.path_eq hgrown hparent]
  have hother : ∀ id < g.nodes.length, g.path id ≠ g.path parentId ++ [target] := by
    intro id hid hpath
    by_cases hpos : 0 < id
    · rw [hgrown.path_of_parent hpos hid] at hpath
      have hup := hgrown.rooted.parent_lt id hpos hid
      have hsame := h _ (hup.trans hid) _ hparent (List.append_inj_left' hpath rfl)
      have htarget := List.singleton_injective (List.append_inj_right' hpath rfl)
      have hchild := (hgrown.rooted.mem_children parentId id hparent).mpr ⟨hpos, hid, hsame⟩
      exact hnone id hchild htarget
    · obtain rfl : id = 0 := Nat.eq_zero_of_not_pos hpos
      rw [path_zero] at hpath
      exact List.append_ne_nil_of_right_ne_nil _ (List.cons_ne_nil _ _) hpath.symm
  intro a ha b hb hpath
  rw [hlength, Nat.lt_succ_iff_lt_or_eq] at ha hb
  rcases ha with ha | rfl
  · rcases hb with hb | rfl
    · rw [hlater.path_eq hgrown ha, hlater.path_eq hgrown hb] at hpath
      exact h a ha b hb hpath
    · rw [hlater.path_eq hgrown ha, hnew] at hpath
      exact absurd hpath (hother a ha)
  · rcases hb with hb | rfl
    · rw [hlater.path_eq hgrown hb, hnew] at hpath
      exact absurd hpath.symm (hother b hb)
    · rfl

/-! ## Steps -/

theorem length_modifyAt {id : Nat} {f : Node → Exec Node} (hrun : g.modifyAt id f = .ok after) :
    after.nodes.length = g.nodes.length := by
  obtain ⟨node, -, hrun⟩ := bind_eq_ok.mp hrun
  obtain ⟨node, -, hrun⟩ := bind_eq_ok.mp hrun
  cases hrun
  exact List.length_set

theorem length_chargeLoop {value fuel id : Nat}
    (hrun : chargeLoop checks value fuel g id = .ok after) :
    after.nodes.length = g.nodes.length := by
  induction fuel generalizing g id with
  | zero => cases hrun
  | succ fuel ih =>
    obtain ⟨middle, hfirst, hrun⟩ := bind_eq_ok.mp hrun
    have hlength := length_modifyAt hfirst
    split at hrun
    · cases hrun
      exact hlength
    · obtain ⟨node, -, hrun⟩ := bind_eq_ok.mp hrun
      exact (ih hrun).trans hlength

theorem length_charge {id value : Nat} (hrun : g.charge checks id value = .ok after) :
    after.nodes.length = g.nodes.length := by
  obtain ⟨node, -, hrun⟩ := bind_eq_ok.mp hrun
  exact length_chargeLoop hrun

theorem findChild_none {target : Target} {childIds : List Nat}
    (hrun : g.findChild target childIds = .ok none) :
    ∀ id ∈ childIds, g.targetOf id ≠ target := by
  induction childIds with
  | nil => exact fun id h => absurd h List.not_mem_nil
  | cons childId childIds ih =>
    obtain ⟨node, hnode, hrun⟩ := bind_eq_ok.mp hrun
    have htarget : g.targetOf childId = node.target := by
      rw [targetOf, nodeAt_eq (getAt_eq_ok.mp hnode)]
    split at hrun
    · cases hrun
    · rename_i hne
      exact List.forall_mem_cons.mpr ⟨htarget ▸ hne, ih hrun⟩

theorem PathsApart.merge (h : g.PathsApart) (hgrown : g.Grown) {parentId id value : Nat}
    (hparent : parentId < g.nodes.length) {target : Target} (hknown : g.Known target)
    (hrun : g.merge checks parentId target value = .ok (id, after)) : after.PathsApart := by
  have hno : False → checks = .off := False.elim
  obtain ⟨middle, hcharge, hrun⟩ := bind_eq_ok.mp hrun
  obtain ⟨hcharged, hlength⟩ := (yields_chargeAt hno hgrown hparent value).of_ok hcharge
  have hmiddle := h.later hgrown hcharged.later hlength
  have hparent' : parentId < middle.nodes.length := hlength ▸ hparent
  obtain ⟨parent, hnode, hrun⟩ := bind_eq_ok.mp hrun
  obtain ⟨found, hfind, hrun⟩ := bind_eq_ok.mp hrun
  cases found with
  | some childId =>
    cases hrun
    exact hmiddle
  | none =>
    have hnone := findChild_none hfind
    have hchildren : parent.childIds = middle.childrenOf parentId := by
      rw [childrenOf, nodeAt_eq (getAt_eq_ok.mp hnode)]
    have hadd : Yields False (middle.addChild parentId target) _ :=
      yields_addChild hcharged.grown hparent' (hcharged.later.known hknown)
    obtain ⟨hadded, hchild⟩ := hadd.of_ok hrun
    obtain ⟨last, heq, -, hlast, -⟩ := addChild_eq hparent' target
    cases heq.symm.trans hrun
    exact hmiddle.child hcharged.grown hadded.later hadded.grown hlast hchild (hchildren ▸ hnone)

/-- A frame below a node. -/
theorem PathsApart.frame (h : g.PathsApart) (hgrown : g.Grown) {time ip value id child : Nat}
    (hid : id < g.nodes.length) {target : Target} {middle : NodeGraph}
    (himport : g.importIp checks call time ip = .ok (target, middle))
    (hmerge : middle.merge checks id target value = .ok (child, after)) :
    after.PathsApart ∧ after.Grown ∧ child < after.nodes.length ∧ Later g after := by
  have hno : False → checks = .off := False.elim
  have hnames : False → ∀ time ip, ∃ names, call.namesOf checks time ip = .ok names := False.elim
  have hip := (yields_importIp hnames hgrown time ip).of_ok himport
  obtain ⟨name, -, hcharged, hnodes, hknown, -⟩ := hip
  have hlength := congrArg List.length hnodes
  have hid' : id < middle.nodes.length := hlength.symm ▸ hid
  have hmiddle := h.later hgrown hcharged.later hlength
  obtain ⟨hmerged, hchild⟩ := (yields_merge hno hcharged.grown hid' hknown value).of_ok hmerge
  exact ⟨hmiddle.merge hcharged.grown hid' hknown hmerge, hmerged.grown, hchild.lt,
    hcharged.later.trans hmerged.later⟩

/-- The frames of a call stack, one after another. -/
theorem PathsApart.frames (h : g.PathsApart) (hgrown : g.Grown) {time value : Nat}
    {ips : List Nat} {id last : Nat} (hid : id < g.nodes.length)
    (hrun : importFrames checks call time value ips id g = .ok (last, after)) :
    after.PathsApart := by
  induction ips generalizing g id with
  | nil =>
    cases hrun
    exact h
  | cons ip ips ih =>
    obtain ⟨⟨target, middle⟩, himport, hrun⟩ := bind_eq_ok.mp hrun
    obtain ⟨⟨child, merged⟩, hmerge, hrun⟩ := bind_eq_ok.mp hrun
    obtain ⟨hapart, hmerged, hchild, -⟩ := h.frame hgrown hid himport hmerge
    exact ih hapart hmerged hchild hrun

/-- A sample: its common frames and its own address. -/
theorem PathsApart.sample {done : List ExportProcessSample} {state last : GraphImport}
    (h : state.graph.PathsApart) (hcached : Cached checks call done state)
    {sample : ExportProcessSample} {id : Nat}
    (hrun : state.addSample checks call sample = .ok (id, last)) : last.graph.PathsApart := by
  have hno : False → checks = .off := False.elim
  have hnames : False → ∀ time ip, ∃ names, call.namesOf checks time ip = .ok names := False.elim
  obtain ⟨value, -, hrun⟩ := bind_eq_ok.mp hrun
  obtain ⟨⟨common, middle⟩, hcommon, hrun⟩ := bind_eq_ok.mp hrun
  obtain ⟨⟨target, imported⟩, himport, hrun⟩ := bind_eq_ok.mp hrun
  obtain ⟨⟨_, merged⟩, hmerge, hrun⟩ := bind_eq_ok.mp hrun
  obtain ⟨final, hfinal, hrun⟩ := bind_eq_ok.mp hrun
  cases hrun
  obtain ⟨hcached', hcommonLt, -⟩ :=
    (yields_importCommon hno hnames hcached sample value).of_ok hcommon
  have hmiddle : middle.graph.PathsApart := by
    unfold GraphImport.importCommon at hcommon
    split at hcommon
    · rename_i id hlookup
      obtain ⟨charged, hcharge, hret⟩ := bind_eq_ok.mp hcommon
      cases hret
      obtain ⟨first, -, himported⟩ := hcached.hit _ _ hlookup
      have hcharged := (yields_charge hno hcached.grown himported.lt value).of_ok hcharge
      exact h.later hcached.grown hcharged.later (length_charge hcharge)
    · obtain ⟨⟨id, framed⟩, hframes, hret⟩ := bind_eq_ok.mp hcommon
      cases hret
      exact h.frames hcached.grown hcached.grown.rooted.pos hframes
  obtain ⟨hapart, hgrown, hid, -⟩ := hmiddle.frame hcached'.grown hcommonLt himport hmerge
  have hadded := yields_addExclusive hno value (merged.nodeAt id)
  obtain ⟨node, hnode, rfl⟩ := (yields_modifyAt hid hadded).of_ok hfinal
  have hsame : SameButValues (merged.nodeAt id) node := by
    rw [hnode]
    exact ⟨rfl, rfl, rfl, rfl⟩
  exact hapart.later hgrown (.setNode hid hsame) (length_setNode _ _)

theorem PathsApart.samples {samples done : List ExportProcessSample} {state last : GraphImport}
    (h : state.graph.PathsApart) (hcached : Cached checks call done state) {ids : List Nat}
    (hrun : state.addAll checks call samples = .ok (ids, last)) : last.graph.PathsApart := by
  have hno : False → checks = .off := False.elim
  have hnames : False → ∀ time ip, ∃ names, call.namesOf checks time ip = .ok names := False.elim
  have hconvert : False → ∀ value, ∃ n, call.convert value = .ok n := False.elim
  induction samples generalizing done state ids with
  | nil =>
    cases hrun
    exact h
  | cons sample samples ih =>
    obtain ⟨⟨id, middle⟩, hfirst, hrun⟩ := bind_eq_ok.mp hrun
    obtain ⟨⟨rest, final⟩, hrest, hrun⟩ := bind_eq_ok.mp hrun
    cases hrun
    obtain ⟨hmiddle, -⟩ := (yields_addSample hno hnames hconvert hcached sample).of_ok hfirst
    exact ih (h.sample hcached hfirst) hmiddle hrest

/-- **Paths.** A call keeps the paths of different nodes different. -/
theorem PathsApart.importSamples (h : g.PathsApart) (hgrown : g.Grown) {ids : List Nat}
    (hrun : g.importSamples checks call = .ok (ids, after)) : after.PathsApart := by
  obtain ⟨⟨rest, state⟩, hall, hrun⟩ := bind_eq_ok.mp hrun
  cases hrun
  have hnew : (⟨g, []⟩ : GraphImport).graph.PathsApart := h
  exact hnew.samples (cached_nil hgrown) hall

theorem pathsApart_new : new.PathsApart := by
  intro a ha b hb _
  exact (Nat.lt_one_iff.mp ha).trans (Nat.lt_one_iff.mp hb).symm

end NodeGraph

/-! ## Names -/

theorem ImportedAt.named {sample : ExportProcessSample} {id : Nat}
    (h : ImportedAt checks call call.wanted g sample id) :
    Named g (call.pathNames checks sample) id := by
  obtain ⟨hid, first, names, name, hfirst, hmap, hname, hshows⟩ := h
  refine ⟨hid, names ++ [name], ?_, hshows⟩
  rw [AddSamples.pathNames, hfirst, orPanic, ok_bind, hmap, ok_bind, hname, ok_bind]

theorem Named.later {found : Exec (List FrameNames)} {id : Nat} (h : Named g found id)
    (hgrown : g.Grown) (hlater : Later g after) : Named after found id := by
  obtain ⟨hid, names, hnames, hshows⟩ := h
  refine ⟨hid.trans_le hlater.length_le, names, hnames, ?_⟩
  rw [hlater.path_eq hgrown hid]
  exact hshows.later hlater

/-- The names that a node is found by are those of its path, and of no other. -/
theorem Named.eq_iff (hgrown : g.Grown) (hapart : g.PathsApart)
    {found other : Exec (List FrameNames)} {id id' : Nat} (h : Named g found id)
    (h' : Named g other id') : found = other ↔ id = id' := by
  obtain ⟨hid, names, rfl, hshows⟩ := h
  obtain ⟨hid', names', rfl, hshows'⟩ := h'
  constructor
  · intro heq
    cases heq
    refine hapart id hid id' hid' ?_
    generalize g.path id = targets at hshows
    generalize g.path id' = targets' at hshows'
    induction hshows generalizing targets' with
    | nil =>
      cases hshows'
      rfl
    | cons hhead _ ih =>
      cases hshows' with
      | cons hhead' htail => rw [hhead.unique hgrown.tabled hhead', ih _ htail]
  · rintro rfl
    rw [names_unique hshows hshows']

theorem importSamples_named (hgrown : g.Grown) {ids : List Nat}
    (hrun : g.importSamples checks call = .ok (ids, after)) : Later g after ∧
      List.Forall₂ (fun sample id => Named after (call.pathNames checks sample) id)
        call.wanted ids := by
  have hlater := of_importSamples (P := fun _ _ state => Later g state.graph)
    (fun _ _ _ _ hbefore _ _ _ _ _ hadded => hbefore.trans hadded.later) hgrown (.refl g) hrun
  obtain ⟨-, state, rfl, hlater⟩ := hlater
  exact ⟨hlater, (imported_of_run hgrown hrun).imp fun _ _ himported => himported.named⟩

/-- **Samples and names.** The nodes of the samples are found by the names of their paths. -/
theorem namedIn_related {calls : List AddSamples} (hgrown : g.Grown) (hapart : g.PathsApart)
    {ids : List Nat} (hrun : importCalls checks calls g = .ok (ids, after)) :
    after.PathsApart ∧ Later g after ∧
      List.Forall₂ (fun value id => Named after value.2 id) (namedIn checks calls) ids := by
  induction calls generalizing g ids with
  | nil =>
    cases hrun
    exact ⟨hapart, .refl _, .nil⟩
  | cons call calls ih =>
    obtain ⟨⟨first, middle⟩, hfirst, hrun⟩ := bind_eq_ok.mp hrun
    obtain ⟨⟨rest, last⟩, hrest, hrun⟩ := bind_eq_ok.mp hrun
    cases hrun
    have hmiddle := (importSamples_holds hgrown hfirst).grown
    obtain ⟨hlater, hnamed⟩ := importSamples_named hgrown hfirst
    obtain ⟨hlast, hlater', hrest⟩ := ih hmiddle (hapart.importSamples hgrown hfirst) hrest
    refine ⟨hlast, hlater.trans hlater', List.rel_append ?_ hrest⟩
    rw [List.forall₂_map_left_iff]
    exact hnamed.imp fun _ _ hone => hone.later hmiddle hlater'

theorem namedIn_values (checks : OverflowChecks) (calls : List AddSamples) :
    (namedIn checks calls).map Prod.fst = valuesOf calls := by
  unfold namedIn valuesOf
  rw [List.map_flatMap]
  refine List.flatMap_congr fun call _ => ?_
  rw [List.map_map]
  rfl

/-- The values of no node come to a bound exactly if those of no path do. -/
theorem importCalls_lt_iff {calls : List AddSamples} {ids : List Nat}
    (hrun : importCalls checks calls .new = .ok (ids, after)) {bound : Nat} (hbound : 0 < bound) :
    (∀ id, sumAt ((valuesOf calls).zip ids) id < bound) ↔
      ∀ names, sumAt (namedIn checks calls) names < bound := by
  obtain ⟨hapart, -, hnamed⟩ := namedIn_related grown_new pathsApart_new hrun
  have hgrown := (importCalls_holds grown_new hrun).grown
  rw [← namedIn_values checks]
  exact sumAt_zip_lt_iff (fun _ _ _ _ h h' => h.eq_iff hgrown hapart h') hnamed hbound

end Paths

end OneCollect.Exporting
