import OneCollect.Exporting.GraphSamples

/-! Whether the cache of call stacks shows in the paths of the samples.

A call stack is imported with the mappings at the time of the first sample that has it. Every
sample gets the path it would get without the cache exactly when the frames of its call stack
resolve at its own time as they did at that time (`cache_transparent_iff`). -/

namespace OneCollect.Exporting
open Theory NodeGraph

/-- The graphs that a user can have. -/
inductive Reached (checks : OverflowChecks) : NodeGraph → Prop where
  | new : Reached checks .new
  | stringsToId {g : NodeGraph} (h : Reached checks g) (name : String) :
    Reached checks (g.stringsToId name).2
  | addSamples {g after : NodeGraph} (h : Reached checks g) (call : AddSamples)
    (hrun : g.addSamples checks call = .ok after) : Reached checks after

theorem Grown.stringsToId {g : NodeGraph} (h : g.Grown) (name : String) :
    (g.stringsToId name).2.Grown :=
  have hlater : Later g (g.stringsToId name).2 :=
    ⟨g.toExportGraph.extends_toId name, le_refl _, fun _ _ => rfl, fun _ _ => rfl⟩
  { h with
    known := fun id hid => hlater.known (h.known id hid)
    tabled := h.tabled.toId name }

/-- **Reached graphs** are trees with tables that hold every id. -/
theorem Reached.grown {checks : OverflowChecks} {g : NodeGraph} (h : Reached checks g) :
    g.Grown := by
  induction h with
  | new => exact grown_new
  | stringsToId _ name ih => exact Grown.stringsToId ih name
  | addSamples _ call hrun ih => exact Grown.addSamples ih hrun

section Fresh

variable (checks : OverflowChecks) (call : AddSamples)

/-- The addresses of a sample, the root first. -/
def AddSamples.stackOf (call : AddSamples) (sample : ExportProcessSample) : List Nat :=
  (call.frames sample.callstackId).reverse ++ [sample.ip]

/-- `import_ip` for one address after another. -/
def importFresh (time : Nat) : List Nat → ExportGraph → Exec (List Target × ExportGraph)
  | [], self => .ok ([], self)
  | ip :: ips, self => do
    let (target, self) ← self.importTarget checks call time ip
    let (targets, self) ← importFresh time ips self
    .ok (target :: targets, self)

/-- The path of a node is that of the sample's addresses, imported at the time of the sample. -/
def PathIsFresh (g : NodeGraph) (sample : ExportProcessSample) (id : Nat) : Prop :=
  ∃ tables, importFresh checks call sample.time (call.stackOf sample) g.toExportGraph =
    .ok (g.path id, tables)

/-- The frames of a call stack resolve for every sample as for the first one that has it. -/
def AddSamples.Steady (call : AddSamples) : Prop :=
  ∀ sample ∈ call.wanted, ∀ first, firstWith call.wanted sample.callstackId = some first →
    ∀ ip ∈ call.frames sample.callstackId,
      call.namesOf checks sample.time ip = call.namesOf checks first.time ip

variable {checks call} {g : NodeGraph}

/-- Addresses whose names are in the tables. -/
theorem importFresh_of_shows (h : g.Grown) {time : Nat} {ips : List Nat} {names : List FrameNames}
    {targets : List Target} (hnames : ips.mapM (call.namesOf checks time) = .ok names)
    (hshows : ShowsAll g targets names) :
    importFresh checks call time ips g.toExportGraph = .ok (targets, g.toExportGraph) := by
  induction ips generalizing names targets with
  | nil =>
    cases hnames
    cases hshows
    rfl
  | cons ip ips ih =>
    rw [List.mapM_cons, bind_eq_ok] at hnames
    obtain ⟨name, hname, hrest⟩ := hnames
    obtain ⟨names, hmap, hret⟩ := bind_eq_ok.mp hrest
    cases hret
    cases hshows with
    | cons hhead htail =>
      rw [importFresh, ExportGraph.importTarget_eq, hname, ok_bind, ok_bind,
        ExportGraph.intern_of_shows h.tabled hhead]
      dsimp only
      rw [ih hmap htail]
      rfl

/-- The targets stand for the names at the time. -/
theorem shows_of_importFresh {time : Nat} {ips : List Nat} {tables after : ExportGraph}
    {targets : List Target} (h : tables.Tabled)
    (hrun : importFresh checks call time ips tables = .ok (targets, after)) :
    ∃ names, ips.mapM (call.namesOf checks time) = .ok names ∧ tables.Extends after ∧
      List.Forall₂ after.Shows targets names := by
  induction ips generalizing tables targets with
  | nil =>
    cases hrun
    exact ⟨[], rfl, .refl _, .nil⟩
  | cons ip ips ih =>
    rw [importFresh, ExportGraph.importTarget_eq, bind_assoc, bind_eq_ok] at hrun
    obtain ⟨name, hname, hrun⟩ := hrun
    rw [ok_bind] at hrun
    obtain ⟨⟨rest, final⟩, hrest, hret⟩ := bind_eq_ok.mp hrun
    cases hret
    obtain ⟨htabled, hextends, hshows⟩ := ExportGraph.intern_shows h name
    obtain ⟨names, hmap, hlater, hall⟩ := ih htabled hrest
    refine ⟨name :: names, ?_, hextends.trans hlater, .cons (hlater.shows hshows) hall⟩
    rw [List.mapM_cons, hname, ok_bind, hmap]
    rfl

theorem names_unique {tables : ExportGraph} {targets : List Target} {a b : List FrameNames}
    (ha : List.Forall₂ tables.Shows targets a) (hb : List.Forall₂ tables.Shows targets b) :
    a = b := by
  induction ha generalizing b with
  | nil =>
    cases hb
    rfl
  | cons hhead _ ih =>
    cases hb with
    | cons hhead' htail => rw [hhead.names_eq hhead', ih htail]

/-- A node with a known path of names has a fresh path when these are the names at the time. -/
theorem pathIsFresh_iff (h : g.Grown) {sample : ExportProcessSample} {id : Nat}
    {names : List FrameNames} (hshows : ShowsAll g (g.path id) names) :
    PathIsFresh checks call g sample id ↔
      (call.stackOf sample).mapM (call.namesOf checks sample.time) = .ok names := by
  constructor
  · rintro ⟨tables, hrun⟩
    obtain ⟨names', hmap, hextends, hall⟩ := shows_of_importFresh h.tabled hrun
    have heq := names_unique (hshows.imp fun _ _ => hextends.shows) hall
    rw [heq]
    exact hmap
  · intro hmap
    exact ⟨_, importFresh_of_shows h hmap hshows⟩

theorem mapM_eq_iff {α β : Type} {f f' : α → Exec β} {xs : List α} {ys : List β}
    (h : xs.mapM f = .ok ys) : xs.mapM f' = .ok ys ↔ ∀ x ∈ xs, f' x = f x := by
  rw [mapM_eq_ok_iff] at h ⊢
  induction h with
  | nil => exact iff_of_true .nil fun x hx => absurd hx List.not_mem_nil
  | cons hy _ ih => rw [List.forall₂_cons, ih, List.forall_mem_cons, hy]

theorem mapM_concat {α β : Type} {f : α → Exec β} {xs : List α} {ys : List β} {x : α} {y : β}
    (hy : f x = .ok y) : (xs ++ [x]).mapM f = .ok (ys ++ [y]) ↔ xs.mapM f = .ok ys := by
  have hlast : [x].mapM f = .ok [y] := by
    rw [List.mapM_cons, hy]
    rfl
  rw [List.mapM_append, hlast]
  cases xs.mapM f with
  | error fault => simp [bind, Except.bind]
  | ok zs => simp

/-- A sample that was imported: its node and the names of its path. -/
def ImportedAt (checks : OverflowChecks) (call : AddSamples) (samples : List ExportProcessSample)
    (g : NodeGraph) (sample : ExportProcessSample) (id : Nat) : Prop :=
  id < g.nodes.length ∧ ∃ first names name,
    firstWith samples sample.callstackId = some first ∧
    (call.frames sample.callstackId).reverse.mapM (call.namesOf checks first.time) = .ok names ∧
    call.namesOf checks sample.time sample.ip = .ok name ∧
    ShowsAll g (g.path id) (names ++ [name])

theorem ImportedAt.later {samples : List ExportProcessSample} {after : NodeGraph}
    {sample : ExportProcessSample} {id : Nat} (h : ImportedAt checks call samples g sample id)
    (hgrown : g.Grown) (hlater : Later g after) (last : ExportProcessSample) :
    ImportedAt checks call (samples ++ [last]) after sample id := by
  obtain ⟨hid, first, names, name, hfirst, hmap, hname, hshows⟩ := h
  refine ⟨hid.trans_le hlater.length_le, first, names, name, firstWith_of_some hfirst last, hmap,
    hname, ?_⟩
  rw [hlater.path_eq hgrown hid]
  exact ShowsAll.later hlater hshows

theorem imported_of_run (h : g.Grown) {ids : List Nat} {after : NodeGraph}
    (hrun : g.importSamples checks call = .ok (ids, after)) :
    List.Forall₂ (ImportedAt checks call call.wanted after) call.wanted ids := by
  have hall := of_importSamples (P := fun done ids state =>
    List.Forall₂ (ImportedAt checks call done state.graph) done ids) ?_ h .nil hrun
  · obtain ⟨-, state, rfl, himported⟩ := hall
    exact himported
  · intro done ids state sample himported hcached id value after _ hadded
    obtain ⟨first, names, name, hfirst, hmap, hname, hshows⟩ := hadded.shows
    exact List.rel_append (himported.imp fun _ _ hone =>
        hone.later hcached.grown hadded.later sample)
      (.cons ⟨hadded.lt, first, names, name, hfirst, hmap, hname, hshows⟩ .nil)

theorem ImportedAt.fresh_iff (hgrown : g.Grown) {samples : List ExportProcessSample}
    {sample : ExportProcessSample} {id : Nat} (h : ImportedAt checks call samples g sample id) :
    PathIsFresh checks call g sample id ↔
      ∀ first, firstWith samples sample.callstackId = some first →
        ∀ ip ∈ call.frames sample.callstackId,
          call.namesOf checks sample.time ip = call.namesOf checks first.time ip := by
  obtain ⟨-, first, names, name, hfirst, hmap, hname, hshows⟩ := h
  rw [pathIsFresh_iff hgrown hshows, AddSamples.stackOf, mapM_concat hname, mapM_eq_iff hmap, hfirst]
  constructor
  · intro hall first' heq ip hip
    cases heq
    exact hall ip (List.mem_reverse.mpr hip)
  · intro hall ip hip
    exact hall first rfl ip (List.mem_reverse.mp hip)

theorem forall₂_congr_left {α β : Type} {R : α → β → Prop} {P : α → Prop} {xs : List α} {ys : List β}
    {Q : α → β → Prop} (h : List.Forall₂ Q xs ys) (hiff : ∀ x y, Q x y → (R x y ↔ P x)) :
    List.Forall₂ R xs ys ↔ ∀ x ∈ xs, P x := by
  induction h with
  | nil => simp
  | cons hhead _ ih => rw [List.forall₂_cons, List.forall_mem_cons, ih, hiff _ _ hhead]

/-- **The cache of call stacks.** Every sample has the path of its addresses at its own time exactly
when the frames of shared call stacks resolve for all their samples as for the first one. -/
theorem cache_transparent_iff {ids : List Nat} {after : NodeGraph} (hreached : Reached checks g)
    (hrun : g.importSamples checks call = .ok (ids, after)) :
    List.Forall₂ (PathIsFresh checks call after) call.wanted ids ↔ call.Steady checks := by
  have hafter : after.Grown := Grown.addSamples hreached.grown (addSamples_eq_ok.mpr ⟨ids, hrun⟩)
  exact forall₂_congr_left (imported_of_run hreached.grown hrun) fun sample id himported =>
    himported.fresh_iff hafter

end Fresh

/-- Two samples with one call stack; another file is mapped at its address in between. -/
def remapped : AddSamples where
  hashOrder := ⟨fun _ set => set, fun _ _ => .refl _⟩
  exporter := { strings := ⟨["", "old", "new"]⟩, callstacks := ⟨[[32]]⟩, procs := []
                nodup := List.nodup_nil }
  process := { pid := 1
               samples := [{ time := 5, value := .count 1, ip := 200 },
                 { time := 15, value := .count 1, ip := 200 }]
               mappings := [{ time := 0, start := 0, stop := 100, filenameId := 1 },
                 { time := 10, start := 0, stop := 100, filenameId := 2 }] }
  kind := 0

/-- The same samples with the mapping that was there first. -/
def notRemapped : AddSamples :=
  { remapped with
    process := { remapped.process with
      mappings := [{ time := 0, start := 0, stop := 100, filenameId := 1 }] } }

theorem cache_transparent_notRemapped :
    ∃ ids after, NodeGraph.new.importSamples .on notRemapped = .ok (ids, after) ∧
      List.Forall₂ (PathIsFresh .on notRemapped after) notRemapped.wanted ids := by
  obtain ⟨ids, after, hrun⟩ : ∃ ids after,
    NodeGraph.new.importSamples .on notRemapped = .ok (ids, after) := ⟨_, _, rfl⟩
  refine ⟨ids, after, hrun, (cache_transparent_iff .new hrun).mpr ?_⟩
  have hwanted : notRemapped.wanted = [{ time := 5, value := .count 1, ip := 200 },
    { time := 15, value := .count 1, ip := 200 }] := rfl
  intro sample hsample first hfirst ip hip
  rw [hwanted] at hsample hfirst
  rcases List.mem_pair.mp hsample with rfl | rfl
  · cases hfirst
    obtain rfl := List.mem_singleton.mp hip
    rfl
  · cases hfirst
    obtain rfl := List.mem_singleton.mp hip
    rfl

/-- The second sample has the file that was mapped at the time of the first one in its path. -/
theorem cache_not_transparent :
    ¬ ∀ (checks : OverflowChecks) (g : NodeGraph) (call : AddSamples) (ids : List Nat)
      (after : NodeGraph), Reached checks g → g.importSamples checks call = .ok (ids, after) →
        List.Forall₂ (PathIsFresh checks call after) call.wanted ids := by
  intro h
  obtain ⟨after, hrun, hstale⟩ : ∃ after,
      NodeGraph.new.importSamples .on remapped = .ok ([2, 2], after) ∧
        (importFresh .on remapped 15 [32, 200] after.toExportGraph).map (·.1) ≠
          .ok (after.path 2) := by
    refine ⟨_, rfl, ?_⟩
    decide
  have hwanted : remapped.wanted = [{ time := 5, value := .count 1, ip := 200 },
    { time := 15, value := .count 1, ip := 200 }] := rfl
  have hall := h .on .new remapped _ after .new hrun
  rw [hwanted, List.forall₂_cons, List.forall₂_cons] at hall
  obtain ⟨tables, hfresh⟩ := hall.2.1
  exact hstale (congrArg (Except.map (·.1)) hfresh)

end OneCollect.Exporting
