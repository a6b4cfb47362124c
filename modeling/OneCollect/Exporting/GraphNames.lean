import OneCollect.Exporting.Graph

/-! The names behind the targets of a graph.

`import_ip` finds out an address and two names (`namesOf`, which does not depend on the graph) and
enters them into the tables (`intern`). A target stands for one triple and a triple for one target
(`Shows`), and tables that have the triple already stay as they are (`intern_of_shows`). -/

namespace OneCollect.Exporting
open Theory

/-- What a target stands for; without a method its name is empty. -/
structure FrameNames where
  address : Nat
  resolvable : String
  method : String
  deriving DecidableEq, Repr

/-- What `import_ip` finds out about an address at a time. -/
def AddSamples.namesOf (self : AddSamples) (checks : OverflowChecks) (time ip : Nat) :
    Exec FrameNames := do
  match ← self.findMapping ip time with
  | some mapping =>
    let strings := self.exporter.strings
    let address ← fileAddress checks mapping ip
    .ok ⟨address, shortName ((strings.fromId mapping.filenameId).getD unknown),
      ExportGraph.methodName strings mapping.symbols ip⟩
  | none => .ok ⟨0, unknown, ""⟩

namespace ExportGraph

variable {self after : ExportGraph}

/-- The part of `import_ip` that enters the names. -/
def intern (self : ExportGraph) (names : FrameNames) : Target × ExportGraph :=
  let (methodId, self) := self.toId names.method
  let (nameId, self) := self.toId names.resolvable
  let (resolvableId, self) := self.importResolvable { nameId }
  (⟨names.address, resolvableId, methodId⟩, self)

theorem mem_empty (self : ExportGraph) : "" ∈ self.strings.strings :=
  List.mem_of_getElem? self.undefined

theorem toId_empty_eq (self : ExportGraph) : self.toId "" = (0, self) := by
  have htable : (self.strings.toId "").2 = self.strings := by
    change (⟨insertNew self.strings.strings ""⟩ : InternedStrings) = self.strings
    rw [insertNew_of_mem self.mem_empty]
  refine Prod.ext self.toId_empty ?_
  unfold toId
  dsimp only
  congr

theorem importMethod_eq (self : ExportGraph) (strings : InternedStrings)
    (symbols : List ExportSymbol) (ip : Nat) :
    self.importMethod strings symbols ip =
      self.toId (ExportGraph.methodName strings symbols ip) := by
  unfold importMethod ExportGraph.methodName
  cases symbolFor symbols ip with
  | none => exact self.toId_empty_eq.symm
  | some symbol => rfl

/-- `import_ip` is finding out the names and entering them. -/
theorem importTarget_eq (checks : OverflowChecks) (self : ExportGraph) (call : AddSamples)
    (time ip : Nat) :
    self.importTarget checks call time ip =
      (call.namesOf checks time ip >>= fun names => .ok (self.intern names)) := by
  unfold importTarget AddSamples.namesOf
  cases call.findMapping ip time with
  | error fault => rfl
  | ok found =>
    cases found with
    | none =>
      simp only [ok_bind, intern, toId_empty_eq]
    | some mapping =>
      simp only [ok_bind, bind_assoc, importMethod_eq]
      rfl

/-! ## Tables -/

/-- No value twice, and every name known. -/
structure Tabled (g : ExportGraph) : Prop where
  strings : g.strings.strings.Nodup
  resolvables : g.resolvables.Nodup
  named : ∀ r ∈ g.resolvables, ∃ nameId < g.strings.strings.length, r = { nameId }

/-- The target stands for the names. -/
structure Shows (g : ExportGraph) (target : Target) (names : FrameNames) : Prop where
  address : target.address = names.address
  method : g.strings.fromId target.methodId = some names.method
  resolvable : ∃ nameId, g.strings.fromId nameId = some names.resolvable ∧
    g.resolvables[target.resolvableId]? = some { nameId }

/-- Tables that were only added to. -/
structure Extends (g after : ExportGraph) : Prop where
  strings : g.strings.strings <+: after.strings.strings
  resolvables : g.resolvables <+: after.resolvables

variable {g : ExportGraph}

theorem tabled_new : ({} : ExportGraph).Tabled where
  strings := List.nodup_singleton ""
  resolvables := List.nodup_singleton ({} : Resolvable)
  named := fun r hr => ⟨0, by decide, List.mem_singleton.mp hr⟩

namespace Extends

variable {last : ExportGraph}

theorem refl (g : ExportGraph) : Extends g g := ⟨List.prefix_refl _, List.prefix_refl _⟩

theorem trans (h : Extends g after) (h' : Extends after last) : Extends g last :=
  ⟨h.strings.trans h'.strings, h.resolvables.trans h'.resolvables⟩

theorem shows (h : Extends g after) {target : Target} {names : FrameNames}
    (hshows : g.Shows target names) : after.Shows target names := by
  obtain ⟨nameId, hname, hresolvable⟩ := hshows.resolvable
  refine ⟨hshows.address, InternedStrings.fromId_of_prefix h.strings hshows.method, nameId,
    InternedStrings.fromId_of_prefix h.strings hname, ?_⟩
  obtain ⟨rest, hrest⟩ := h.resolvables
  obtain ⟨hlt, -⟩ := List.getElem?_eq_some_iff.mp hresolvable
  rw [← hrest, List.getElem?_append_left hlt]
  exact hresolvable

end Extends

theorem getElem?_inj {α : Type} {xs : List α} (h : xs.Nodup) {i j : Nat} {x : α}
    (hi : xs[i]? = some x) (hj : xs[j]? = some x) : i = j := by
  obtain ⟨hilt, hi⟩ := List.getElem?_eq_some_iff.mp hi
  obtain ⟨hjlt, hj⟩ := List.getElem?_eq_some_iff.mp hj
  exact (List.Nodup.getElem_inj_iff h).mp (hi.trans hj.symm)

/-- One target for the same names. -/
theorem Shows.unique (h : g.Tabled) {a b : Target} {names : FrameNames} (ha : g.Shows a names)
    (hb : g.Shows b names) : a = b := by
  obtain ⟨aId, haName, haResolvable⟩ := ha.resolvable
  obtain ⟨bId, hbName, hbResolvable⟩ := hb.resolvable
  obtain rfl : aId = bId := getElem?_inj h.strings haName hbName
  have hresolvable := getElem?_inj h.resolvables haResolvable hbResolvable
  have hmethod := getElem?_inj h.strings ha.method hb.method
  have haddress := ha.address.trans hb.address.symm
  cases a
  cases b
  simp_all

/-- One triple of names for a target. -/
theorem Shows.names_eq {target : Target} {a b : FrameNames} (ha : g.Shows target a)
    (hb : g.Shows target b) : a = b := by
  obtain ⟨aId, haName, haResolvable⟩ := ha.resolvable
  obtain ⟨bId, hbName, hbResolvable⟩ := hb.resolvable
  have hid := congrArg Resolvable.nameId
    (Option.some.inj (haResolvable.symm.trans hbResolvable))
  dsimp only at hid
  subst hid
  have hresolvable := Option.some.inj (haName.symm.trans hbName)
  have hmethod := Option.some.inj (ha.method.symm.trans hb.method)
  have haddress := ha.address.symm.trans hb.address
  cases a
  cases b
  simp_all

theorem extends_toId (g : ExportGraph) (name : String) : Extends g (g.toId name).2 :=
  ⟨g.strings.prefix_toId name, List.prefix_refl _⟩

theorem Tabled.toId (h : g.Tabled) (name : String) : (g.toId name).2.Tabled where
  strings := nodup_insertNew h.strings name
  resolvables := h.resolvables
  named := fun r hr => by
    obtain ⟨nameId, hlt, heq⟩ := h.named r hr
    exact ⟨nameId, hlt.trans_le (g.strings.prefix_toId name).length_le, heq⟩

theorem extends_importResolvable (g : ExportGraph) (resolvable : Resolvable) :
    Extends g (g.importResolvable resolvable).2 :=
  ⟨List.prefix_refl _, prefix_insertNew _ _⟩

theorem Tabled.importResolvable (h : g.Tabled) {nameId : Nat}
    (hlt : nameId < g.strings.strings.length) : (g.importResolvable { nameId }).2.Tabled where
  strings := h.strings
  resolvables := nodup_insertNew h.resolvables _
  named := fun r hr => by
    rcases mem_insertNew.mp hr with hr | rfl
    · exact h.named r hr
    · exact ⟨nameId, hlt, rfl⟩

/-- **Names.** They are entered, and the target stands for them. -/
theorem intern_shows (h : g.Tabled) (names : FrameNames) :
    (g.intern names).2.Tabled ∧ Extends g (g.intern names).2 ∧
      (g.intern names).2.Shows (g.intern names).1 names := by
  have hfirst := g.extends_toId names.method
  have hsecond := (g.toId names.method).2.extends_toId names.resolvable
  have hname := (g.toId names.method).2.strings.fromId_toId names.resolvable (List.prefix_refl _)
  have hthird := ((g.toId names.method).2.toId names.resolvable).2.extends_importResolvable
    { nameId := ((g.toId names.method).2.toId names.resolvable).1 }
  refine ⟨((h.toId names.method).toId names.resolvable).importResolvable
    (List.getElem?_eq_some_iff.mp hname).1, hfirst.trans (hsecond.trans hthird), rfl, ?_, _, hname,
    getElem?_numberOf (mem_insertNew.mpr (Or.inr rfl))⟩
  exact g.strings.fromId_toId names.method hsecond.strings

theorem toId_of_fromId (h : g.Tabled) {id : Nat} {name : String}
    (hid : g.strings.fromId id = some name) : g.toId name = (id, g) := by
  have hmem : name ∈ g.strings.strings := List.mem_of_getElem? hid
  have htable : (g.strings.toId name).2 = g.strings := by
    change (⟨insertNew g.strings.strings name⟩ : InternedStrings) = g.strings
    rw [insertNew_of_mem hmem]
  refine Prod.ext ?_ ?_
  · change numberOf (insertNew g.strings.strings name) name = id
    rw [insertNew_of_mem hmem]
    exact numberOf_eq h.strings hid
  · unfold toId
    dsimp only
    congr

/-- Names that are in the tables get the target that stands for them. -/
theorem intern_of_shows (h : g.Tabled) {target : Target} {names : FrameNames}
    (hshows : g.Shows target names) : g.intern names = (target, g) := by
  obtain ⟨nameId, hname, hresolvable⟩ := hshows.resolvable
  have hmem : ({ nameId } : Resolvable) ∈ g.resolvables := List.mem_of_getElem? hresolvable
  have himport : g.importResolvable { nameId } = (target.resolvableId, g) := by
    unfold importResolvable
    rw [insertNew_of_mem hmem]
    exact Prod.ext (numberOf_eq h.resolvables hresolvable) rfl
  unfold intern
  rw [toId_of_fromId h hshows.method]
  dsimp only
  rw [toId_of_fromId h hname]
  dsimp only
  rw [himport, ← hshows.address]

end ExportGraph

end OneCollect.Exporting
