import OneCollect.Exporting.GraphNames

/-! What the steps of `add_samples` do to the nodes of a graph.

The nodes are a tree that only grows (`Grown`, `Later`). `Charged` says by how much the totals
rise, modulo `2 ^ 64` in either build: `merge` charges one node, `charge` all nodes from one up to
the root. -/

namespace OneCollect.Exporting
open Theory

namespace NodeGraph

/-- The node of an id, or the default node. -/
def nodeAt (self : NodeGraph) (id : Nat) : Node := self.nodes[id]?.getD {}

def parentOf (self : NodeGraph) (id : Nat) : Nat := (self.nodeAt id).parentId

def targetOf (self : NodeGraph) (id : Nat) : Target := (self.nodeAt id).target

def childrenOf (self : NodeGraph) (id : Nat) : List Nat := (self.nodeAt id).childIds

def totalOf (self : NodeGraph) (id : Nat) : Nat := (self.nodeAt id).total

def exclusiveOf (self : NodeGraph) (id : Nat) : Nat := (self.nodeAt id).exclusive

/-- The nodes from one up to the root, the root left out. -/
def lineageOf (self : NodeGraph) (id : Nat) : List Nat := lineage self.parentOf id

/-- The targets from the root down to a node. -/
def path (self : NodeGraph) (id : Nat) : List Target :=
  ((self.lineageOf id).map self.targetOf).reverse

/-- The ids of the target are in the tables. -/
def Known (self : NodeGraph) (target : Target) : Prop :=
  target.resolvableId < self.resolvables.length ∧ target.methodId < self.strings.strings.length

structure Grown (g : NodeGraph) : Prop where
  rooted : Rooted g.nodes.length g.parentOf g.childrenOf
  numbered : ∀ id < g.nodes.length, (g.nodeAt id).id = id
  rootParent : g.parentOf 0 = 0
  rootExclusive : g.exclusiveOf 0 = 0
  known : ∀ id < g.nodes.length, g.Known (g.targetOf id)
  tabled : g.toExportGraph.Tabled
  words : ∀ id, g.totalOf id < 2 ^ 64 ∧ g.exclusiveOf id < 2 ^ 64

/-- Nodes and names stay what they are. -/
structure Later (g after : NodeGraph) : Prop where
  names : g.toExportGraph.Extends after.toExportGraph
  length_le : g.nodes.length ≤ after.nodes.length
  parent : ∀ id < g.nodes.length, after.parentOf id = g.parentOf id
  target : ∀ id < g.nodes.length, after.targetOf id = g.targetOf id

variable {g after last : NodeGraph}

theorem getElem?_eq_nodeAt {id : Nat} (h : id < g.nodes.length) :
    g.nodes[id]? = some (g.nodeAt id) := by
  rw [nodeAt, List.getElem?_eq_getElem h, Option.getD_some]

theorem nodeAt_of_le {id : Nat} (h : g.nodes.length ≤ id) : g.nodeAt id = {} := by
  rw [nodeAt, List.getElem?_eq_none h, Option.getD_none]

theorem nodeAt_eq {id : Nat} {node : Node} (h : g.nodes[id]? = some node) :
    g.nodeAt id = node := by
  rw [nodeAt, h, Option.getD_some]

namespace Later

theorem refl (g : NodeGraph) : Later g g :=
  ⟨.refl _, le_refl _, fun _ _ => rfl, fun _ _ => rfl⟩

theorem trans (h : Later g after) (h' : Later after last) : Later g last where
  names := h.names.trans h'.names
  length_le := h.length_le.trans h'.length_le
  parent := fun id hid => (h'.parent id (hid.trans_le h.length_le)).trans (h.parent id hid)
  target := fun id hid => (h'.target id (hid.trans_le h.length_le)).trans (h.target id hid)

theorem lineageOf_eq (h : Later g after) (hgrown : g.Grown) {id : Nat}
    (hid : id < g.nodes.length) : after.lineageOf id = g.lineageOf id :=
  hgrown.rooted.lineage_congr h.parent hid

theorem path_eq (h : Later g after) (hgrown : g.Grown) {id : Nat}
    (hid : id < g.nodes.length) : after.path id = g.path id := by
  have htargets : (g.lineageOf id).map after.targetOf = (g.lineageOf id).map g.targetOf := by
    refine List.map_congr_left fun x hx => h.target x ?_
    exact (hgrown.rooted.lineage_mem hid hx).2.trans_lt hid
  rw [path, path, h.lineageOf_eq hgrown hid, htargets]

theorem known (h : Later g after) {target : Target} (hknown : g.Known target) :
    after.Known target :=
  ⟨hknown.1.trans_le h.names.resolvables.length_le, hknown.2.trans_le h.names.strings.length_le⟩

end Later

theorem Grown.path_of_parent (h : g.Grown) {id : Nat} (hpos : 0 < id)
    (hid : id < g.nodes.length) :
    g.path id = g.path (g.parentOf id) ++ [g.targetOf id] := by
  rw [path, lineageOf, h.rooted.lineage_of_pos hpos hid, List.map_cons, List.reverse_cons]
  rfl

theorem path_zero : g.path 0 = [] := rfl

/-! ## Changes of one node -/

def setNode (g : NodeGraph) (id : Nat) (node : Node) : NodeGraph :=
  { g with nodes := g.nodes.set id node }

theorem nodeAt_setNode {id : Nat} (hid : id < g.nodes.length) (node : Node) (i : Nat) :
    (g.setNode id node).nodeAt i = if i = id then node else g.nodeAt i := by
  unfold setNode nodeAt
  dsimp only
  by_cases h : i = id
  · rw [if_pos h, h, List.getElem?_set_self hid, Option.getD_some]
  · rw [if_neg h, List.getElem?_set_ne (Ne.symm h)]

theorem length_setNode (id : Nat) (node : Node) :
    (g.setNode id node).nodes.length = g.nodes.length :=
  List.length_set

/-- A change of the values of a node only. -/
structure SameButValues (node node' : Node) : Prop where
  id : node'.id = node.id
  target : node'.target = node.target
  parent : node'.parentId = node.parentId
  children : node'.childIds = node.childIds

section Values

variable {id : Nat} {node : Node}

/-- What is read of a node besides its values stays. -/
theorem field_setNode {α : Type} {f : Node → α} (hid : id < g.nodes.length)
    (hf : f node = f (g.nodeAt id)) (i : Nat) :
    f ((g.setNode id node).nodeAt i) = f (g.nodeAt i) := by
  rw [nodeAt_setNode hid]
  split
  · rename_i h
    rw [hf, h]
  · rfl

theorem Later.setNode (hid : id < g.nodes.length)
    (hsame : SameButValues (g.nodeAt id) node) : Later g (g.setNode id node) where
  names := .refl _
  length_le := (length_setNode id node).ge
  parent := fun i _ => field_setNode (f := (·.parentId)) hid hsame.parent i
  target := fun i _ => field_setNode (f := (·.target)) hid hsame.target i

theorem Grown.setNode (h : g.Grown) (hid : id < g.nodes.length)
    (hsame : SameButValues (g.nodeAt id) node) (hroot : id = 0 → node.exclusive = 0)
    (hword : node.total < 2 ^ 64 ∧ node.exclusive < 2 ^ 64) : (g.setNode id node).Grown where
  rooted := by
    have hparent : (g.setNode id node).parentOf = g.parentOf :=
      funext (field_setNode (f := (·.parentId)) hid hsame.parent)
    have hchildren : (g.setNode id node).childrenOf = g.childrenOf :=
      funext (field_setNode (f := (·.childIds)) hid hsame.children)
    rw [length_setNode, hparent, hchildren]
    exact h.rooted
  numbered := fun i hi => by
    rw [field_setNode (f := (·.id)) hid hsame.id i]
    exact h.numbered i ((length_setNode id node).subst hi)
  rootParent := (field_setNode (f := (·.parentId)) hid hsame.parent 0).trans h.rootParent
  rootExclusive := by
    rw [exclusiveOf, nodeAt_setNode hid]
    split
    · rename_i hzero
      exact hroot hzero.symm
    · exact h.rootExclusive
  known := fun i hi => by
    have htarget : (g.setNode id node).targetOf i = g.targetOf i :=
      field_setNode (f := (·.target)) hid hsame.target i
    rw [htarget]
    exact h.known i ((length_setNode id node).subst hi)
  tabled := h.tabled
  words := fun i => by
    rw [totalOf, exclusiveOf, nodeAt_setNode hid]
    split
    · exact hword
    · exact h.words i

end Values

/-! ## Totals -/

/-- A later graph in which the totals are higher by `rise`, modulo `2 ^ 64`. -/
structure Charged (g after : NodeGraph) (rise : Nat → Nat) : Prop where
  grown : after.Grown
  later : Later g after
  total : ∀ id, after.totalOf id = (g.totalOf id + rise id) % 2 ^ 64
  exclusive : ∀ id, after.exclusiveOf id = g.exclusiveOf id

theorem Charged.refl (h : g.Grown) : Charged g g fun _ => 0 where
  grown := h
  later := .refl g
  total := fun id => (Nat.mod_eq_of_lt (h.words id).1).symm
  exclusive := fun _ => rfl

theorem Charged.trans {rise rise' : Nat → Nat} (h : Charged g after rise)
    (h' : Charged after last rise') : Charged g last fun id => rise id + rise' id where
  grown := h'.grown
  later := h.later.trans h'.later
  total := fun id => by rw [h'.total, h.total, Nat.mod_add_mod, Nat.add_assoc]
  exclusive := fun id => (h'.exclusive id).trans (h.exclusive id)

theorem Charged.congr {rise rise' : Nat → Nat} (h : Charged g after rise)
    (heq : ∀ id, rise id = rise' id) : Charged g after rise' :=
  (funext heq : rise = rise') ▸ h

/-- The value for the nodes of a kind, and nothing for the others. -/
def only (p : Nat → Prop) [DecidablePred p] (value id : Nat) : Nat := if p id then value else 0

/-- From a node up to the root. -/
def OnPath (g : NodeGraph) (id i : Nat) : Prop := i = 0 ∨ i ∈ g.lineageOf id

instance (g : NodeGraph) (id : Nat) : DecidablePred (g.OnPath id) := fun _ =>
  inferInstanceAs (Decidable (_ ∨ _))

/-- From the parent of a node up to the root. -/
def Above (g : NodeGraph) (id i : Nat) : Prop := id ≠ 0 ∧ g.OnPath (g.parentOf id) i

instance (g : NodeGraph) (id : Nat) : DecidablePred (g.Above id) := fun _ =>
  inferInstanceAs (Decidable (_ ∧ _))

theorem Grown.onPath_iff (h : g.Grown) {id : Nat} (hid : id < g.nodes.length) (i : Nat) :
    g.OnPath id i ↔ g.Above id i ∨ i = id := by
  unfold Above OnPath
  by_cases hzero : id = 0
  · subst hzero
    simp [lineageOf, Rooted.lineage_zero]
  · rw [lineageOf, h.rooted.lineage_of_pos (Nat.pos_of_ne_zero hzero) hid, List.mem_cons]
    simp only [ne_eq, hzero, not_false_eq_true, true_and, lineageOf]
    tauto

/-- A node is not above itself. -/
theorem Grown.not_above_self (h : g.Grown) {id : Nat} (hid : id < g.nodes.length) :
    ¬ g.Above id id := by
  rintro ⟨hne, hzero | hmem⟩
  · exact hne hzero
  · have hlt := h.rooted.parent_lt id (Nat.pos_of_ne_zero hne) hid
    exact absurd (h.rooted.lineage_mem (hlt.trans hid) hmem).2 (Nat.not_le_of_lt hlt)

theorem Later.onPath_iff (hlater : Later g after) (h : g.Grown) {id : Nat}
    (hid : id < g.nodes.length) (i : Nat) : after.OnPath id i ↔ g.OnPath id i := by
  unfold OnPath
  rw [hlater.lineageOf_eq h hid]

theorem Later.above_iff (hlater : Later g after) (h : g.Grown) {id : Nat}
    (hid : id < g.nodes.length) (i : Nat) : after.Above id i ↔ g.Above id i := by
  unfold Above
  rw [hlater.parent id hid]
  by_cases hzero : id = 0
  · simp [hzero]
  · have hlt := h.rooted.parent_lt id (Nat.pos_of_ne_zero hzero) hid
    rw [hlater.onPath_iff h (hlt.trans hid)]

/-! ## Steps -/

section Steps

variable {safe : Prop} {checks : OverflowChecks} (hsafe : safe → checks = .off)

theorem yields_modifyAt {f : Node → Exec Node} {P : Node → Prop} {id : Nat}
    (hid : id < g.nodes.length) (hf : Yields safe (f (g.nodeAt id)) P) :
    Yields safe (g.modifyAt id f) fun after => ∃ node, P node ∧ after = g.setNode id node := by
  unfold modifyAt
  refine (yields_getAt (getElem?_eq_nodeAt hid)).bind fun node hnode => ?_
  subst hnode
  exact hf.bind fun node hnode => yields_ok ⟨node, hnode, rfl⟩

include hsafe

theorem yields_addTotal (value : Nat) (node : Node) :
    Yields safe (addTotal checks value node)
      (· = { node with total := (node.total + value) % 2 ^ 64 }) := by
  refine (yields_addU64 hsafe node.total value).bind fun total htotal => yields_ok ?_
  rw [htotal]

theorem yields_addExclusive (value : Nat) (node : Node) :
    Yields safe (addExclusive checks value node)
      (· = { node with
        exclusive := (node.exclusive + value) % 2 ^ 64
        total := (node.total + value) % 2 ^ 64 }) := by
  refine (yields_addU64 hsafe node.exclusive value).bind fun exclusive hexclusive => ?_
  refine (yields_addTotal hsafe value { node with exclusive }).mono fun node' hnode => ?_
  rw [hnode, hexclusive]

/-- One node is charged. -/
theorem yields_chargeAt (h : g.Grown) {id : Nat} (hid : id < g.nodes.length) (value : Nat) :
    Yields safe (g.modifyAt id (addTotal checks value)) fun after =>
      Charged g after (only (· = id) value) ∧ after.nodes.length = g.nodes.length := by
  refine (yields_modifyAt hid (yields_addTotal hsafe value (g.nodeAt id))).mono ?_
  rintro after ⟨node, rfl, rfl⟩
  have hsame : SameButValues (g.nodeAt id)
      { g.nodeAt id with total := ((g.nodeAt id).total + value) % 2 ^ 64 } := ⟨rfl, rfl, rfl, rfl⟩
  have hroot : id = 0 → (g.nodeAt id).exclusive = 0 := by
    rintro rfl
    exact h.rootExclusive
  refine ⟨⟨h.setNode hid hsame hroot ⟨Nat.mod_lt _ (Nat.two_pow_pos 64), (h.words id).2⟩,
    .setNode hid hsame, fun i => ?_, fun i => ?_⟩, length_setNode _ _⟩
  · rw [totalOf, nodeAt_setNode hid, only]
    by_cases hi : i = id
    · rw [if_pos hi, if_pos hi, hi]
      rfl
    · rw [if_neg hi, if_neg hi, Nat.add_zero, Nat.mod_eq_of_lt (h.words i).1]
      rfl
  · refine field_setNode (f := (·.exclusive)) hid ?_ i
    rfl

/-- The loop charges all nodes from one up to the root. -/
theorem yields_chargeLoop {fuel : Nat} (h : g.Grown) {id : Nat} (hid : id < g.nodes.length)
    (hfuel : id < fuel) (value : Nat) :
    Yields safe (chargeLoop checks value fuel g id) fun after =>
      Charged g after (only (g.OnPath id) value) := by
  induction fuel generalizing g id with
  | zero => exact absurd hfuel (Nat.not_lt_zero id)
  | succ fuel ih =>
    rw [chargeLoop]
    refine (yields_chargeAt hsafe h hid value).bind ?_
    rintro middle ⟨hfirst, hlen⟩
    have hpath := h.onPath_iff hid
    by_cases hzero : id = 0
    · rw [if_pos hzero]
      refine yields_ok (hfirst.congr fun i => if_congr ?_ rfl rfl)
      rw [hpath, Above]
      simp [hzero]
    · have hlt := h.rooted.parent_lt id (Nat.pos_of_ne_zero hzero) hid
      have hparent : (middle.nodeAt id).parentId = g.parentOf id := hfirst.later.parent id hid
      have hid' : id < middle.nodes.length := hlen ▸ hid
      rw [if_neg hzero]
      refine (yields_getAt (getElem?_eq_nodeAt hid')).bind fun node hnode => ?_
      rw [hnode, hparent]
      refine (ih hfirst.grown (hlt.trans hid') (hlt.trans_le (Nat.le_of_lt_succ hfuel))).mono
        fun after hrest => (hfirst.trans hrest).congr fun i => ?_
      have hup := hfirst.later.onPath_iff h (hlt.trans hid) i
      have hself := h.not_above_self hid
      have habove : g.Above id i ↔ g.OnPath (g.parentOf id) i := by
        simp [Above, hzero]
      unfold only
      by_cases hi : i = id
      · subst hi
        simp only [hpath, hup, ← habove, hself, ↓reduceIte, or_true, Nat.add_zero]
      · simp only [hpath, hup, ← habove, hi, ↓reduceIte, or_false, Nat.zero_add]

/-- `charge`: all nodes above, and the root also for itself. -/
theorem yields_charge (h : g.Grown) {id : Nat} (hid : id < g.nodes.length) (value : Nat) :
    Yields safe (g.charge checks id value) fun after =>
      Charged g after (only (fun i => g.Above id i ∨ id = 0 ∧ i = 0) value) := by
  have hparent : g.parentOf id < g.nodes.length := by
    by_cases hzero : id = 0
    · rw [hzero, h.rootParent]
      exact h.rooted.pos
    · exact (h.rooted.parent_lt id (Nat.pos_of_ne_zero hzero) hid).trans hid
  unfold charge
  refine (yields_getAt (getElem?_eq_nodeAt hid)).bind fun node hnode => ?_
  rw [hnode]
  refine (yields_chargeLoop hsafe h hparent (Nat.lt_succ_self _) value).mono fun after hall =>
    hall.congr fun i => if_congr ?_ rfl rfl
  by_cases hzero : id = 0
  · subst hzero
    rw [h.rootParent, OnPath, lineageOf, Rooted.lineage_zero]
    simp [Above]
  · simp [Above, hzero]

omit hsafe

theorem yields_findChild (target : Target) {childIds : List Nat}
    (hids : ∀ id ∈ childIds, id < g.nodes.length) :
    Yields safe (g.findChild target childIds) fun found =>
      ∀ id, found = some id → id ∈ childIds ∧ g.targetOf id = target := by
  induction childIds with
  | nil => exact yields_ok fun id h => absurd h.symm (Option.some_ne_none id)
  | cons childId childIds ih =>
    obtain ⟨hid, hids⟩ := List.forall_mem_cons.mp hids
    rw [findChild]
    refine (yields_getAt (getElem?_eq_nodeAt hid)).bind fun node hnode => ?_
    by_cases heq : node.target = target
    · rw [if_pos heq]
      refine yields_ok fun id hfound => ?_
      obtain rfl := Option.some.inj hfound
      exact ⟨List.mem_cons_self, (congrArg Node.target hnode).symm.trans heq⟩
    · rw [if_neg heq]
      refine (ih hids).mono fun found hfound id hsome => ?_
      exact ⟨List.mem_cons_of_mem _ (hfound id hsome).1, (hfound id hsome).2⟩

/-- The nodes after a new child: the parent knows it, and it has no value yet. -/
def childAdded (g : NodeGraph) (parentId : Nat) (target : Target) (i : Nat) : Node :=
  if i = parentId then
    { g.nodeAt parentId with childIds := g.childrenOf parentId ++ [g.nodes.length] }
  else if i = g.nodes.length then { id := g.nodes.length, target, parentId }
  else g.nodeAt i

theorem nodeAt_addNode (node : Node) (i : Nat) :
    (g.addNode node).2.nodeAt i =
      if i = g.nodes.length then { node with id := g.nodes.length } else g.nodeAt i := by
  unfold addNode nodeAt
  dsimp only
  by_cases hi : i = g.nodes.length
  · rw [if_pos hi, hi, List.getElem?_concat_length, Option.getD_some]
  · rw [if_neg hi]
    rcases Nat.lt_or_gt_of_ne hi with hlt | hgt
    · rw [List.getElem?_append_left hlt]
    · rw [List.getElem?_eq_none (by simp; omega), List.getElem?_eq_none hgt.le]

theorem addChild_eq {parentId : Nat} (hparent : parentId < g.nodes.length) (target : Target) :
    ∃ after, g.addChild parentId target = .ok (g.nodes.length, after) ∧
      after.toExportGraph = g.toExportGraph ∧ after.nodes.length = g.nodes.length + 1 ∧
      ∀ i, after.nodeAt i = g.childAdded parentId target i := by
  have hne : parentId ≠ g.nodes.length := Nat.ne_of_lt hparent
  have hlen : (g.addNode { parentId, target }).2.nodes.length = g.nodes.length + 1 :=
    List.length_append
  have hlt : parentId < (g.addNode { parentId, target }).2.nodes.length := by omega
  have hold : (g.addNode { parentId, target }).2.nodeAt parentId = g.nodeAt parentId := by
    rw [nodeAt_addNode, if_neg hne]
  refine ⟨(g.addNode { parentId, target }).2.setNode parentId
    { g.nodeAt parentId with childIds := g.childrenOf parentId ++ [g.nodes.length] }, ?_, rfl, ?_,
    fun i => ?_⟩
  · rw [addChild, ← hold, childrenOf, ← hold]
    dsimp only
    rw [modifyAt, getAt_eq_ok.mpr (getElem?_eq_nodeAt hlt)]
    rfl
  · rw [length_setNode, hlen]
  · rw [nodeAt_setNode hlt, nodeAt_addNode, childAdded]

/-- `after` has a new child of a node, or the one that was there. -/
structure HasChild (g after : NodeGraph) (parentId : Nat) (target : Target) (id : Nat) : Prop where
  pos : 0 < id
  lt : id < after.nodes.length
  parent : after.parentOf id = parentId
  target : after.targetOf id = target

theorem yields_addChild (h : g.Grown) {parentId : Nat} (hparent : parentId < g.nodes.length)
    {target : Target} (hknown : g.Known target) :
    Yields safe (g.addChild parentId target) fun r =>
      Charged g r.2 (fun _ => 0) ∧ HasChild g r.2 parentId target r.1 := by
  obtain ⟨after, heq, htables, hlen, hnodes⟩ := addChild_eq hparent target
  have hne : parentId ≠ g.nodes.length := Nat.ne_of_lt hparent
  have hold : ∀ i, i ≠ g.nodes.length → SameButValues (g.nodeAt i)
      { after.nodeAt i with childIds := g.childrenOf i } := by
    intro i hi
    rw [hnodes, childAdded]
    by_cases hip : i = parentId
    · rw [if_pos hip, hip]
      exact ⟨rfl, rfl, rfl, rfl⟩
    · rw [if_neg hip, if_neg hi]
      exact ⟨rfl, rfl, rfl, rfl⟩
  have hnew : after.nodeAt g.nodes.length = { id := g.nodes.length, target, parentId } := by
    rw [hnodes, childAdded, if_neg (Ne.symm hne), if_pos rfl]
  have hvalues : ∀ i, after.totalOf i = g.totalOf i ∧ after.exclusiveOf i = g.exclusiveOf i := by
    intro i
    unfold totalOf exclusiveOf
    rw [hnodes, childAdded]
    by_cases hip : i = parentId
    · rw [if_pos hip, hip]
      exact ⟨rfl, rfl⟩
    · rw [if_neg hip]
      by_cases hi : i = g.nodes.length
      · rw [if_pos hi, nodeAt_of_le hi.ge]
        exact ⟨rfl, rfl⟩
      · rw [if_neg hi]
        exact ⟨rfl, rfl⟩
  have hlater : Later g after := ⟨htables ▸ .refl _, hlen ▸ Nat.le_succ _,
    fun i hi => (hold i hi.ne).parent, fun i hi => (hold i hi.ne).target⟩
  have hgrown : after.Grown := by
    refine ⟨?_, fun i hi => ?_, ?_, ?_, fun i hi => ?_, htables ▸ h.tabled, fun i => ?_⟩
    · rw [hlen]
      refine h.rooted.grow hparent hlater.parent (congrArg Node.parentId hnew) (fun i hi => ?_)
        (congrArg Node.childIds hnew)
      rw [childrenOf, hnodes, childAdded]
      by_cases hip : i = parentId
      · rw [if_pos hip, if_pos hip, hip]
      · rw [if_neg hip, if_neg hip, if_neg hi.ne]
        rfl
    · rcases Nat.lt_succ_iff_lt_or_eq.mp (hlen ▸ hi) with hi | rfl
      · exact ((hold i hi.ne).id).trans (h.numbered i hi)
      · rw [hnew]
    · exact (hlater.parent 0 h.rooted.pos).trans h.rootParent
    · exact (hvalues 0).2.trans h.rootExclusive
    · rcases Nat.lt_succ_iff_lt_or_eq.mp (hlen ▸ hi) with hi | rfl
      · rw [hlater.target i hi]
        exact hlater.known (h.known i hi)
      · rw [targetOf, hnew]
        exact hlater.known hknown
    · rw [(hvalues i).1, (hvalues i).2]
      exact h.words i
  rw [heq]
  exact yields_ok ⟨⟨hgrown, hlater,
    fun i => (hvalues i).1.trans (Nat.mod_eq_of_lt (h.words i).1).symm, fun i => (hvalues i).2⟩,
    h.rooted.pos, hlen ▸ Nat.lt_succ_self _, congrArg Node.parentId hnew,
    congrArg Node.target hnew⟩

include hsafe

/-- `merge`: the parent is charged, and has a child with the target. -/
theorem yields_merge (h : g.Grown) {parentId : Nat} (hparent : parentId < g.nodes.length)
    {target : Target} (hknown : g.Known target) (value : Nat) :
    Yields safe (g.merge checks parentId target value) fun r =>
      Charged g r.2 (only (· = parentId) value) ∧ HasChild g r.2 parentId target r.1 := by
  rw [merge]
  refine (yields_chargeAt hsafe h hparent value).bind ?_
  rintro middle ⟨hcharged, hlen⟩
  have hmiddle := hcharged.grown
  have hparent' : parentId < middle.nodes.length := hlen ▸ hparent
  have hchild : ∀ id ∈ middle.childrenOf parentId,
      0 < id ∧ id < middle.nodes.length ∧ middle.parentOf id = parentId := fun id hid =>
    (hmiddle.rooted.mem_children parentId id hparent').mp hid
  refine (yields_getAt (getElem?_eq_nodeAt hparent')).bind fun node hnode => ?_
  rw [hnode]
  refine (yields_findChild target fun id hid => (hchild id hid).2.1).bind fun found hfound => ?_
  cases found with
  | some id =>
    obtain ⟨hid, htarget⟩ := hfound id rfl
    obtain ⟨hpos, hlt, hparentOf⟩ := hchild id hid
    exact yields_ok ⟨hcharged, hpos, hlt, hparentOf, htarget⟩
  | none =>
    refine (yields_addChild hmiddle hparent' (hcharged.later.known hknown)).mono ?_
    rintro ⟨id, after⟩ ⟨hadded, hchild⟩
    refine ⟨(hcharged.trans hadded).congr fun i => Nat.add_zero _, hchild.pos, hchild.lt,
      hchild.parent, hchild.target⟩

end Steps

end NodeGraph

end OneCollect.Exporting
