import OneCollect.Exporting.Attributes

/-! What a walk over attributes collects.

`Walked` holds between two turns of the loop: the ids taken so far and those on the stack are
reachable, distinct, and all that is linked from what was taken. In the end every reachable id was
taken, unless one of them is the length of the table, which the loop looks up
(`attributes_collected_iff`). -/

namespace OneCollect.Exporting
open Theory

/-- The ids that the links lead to. -/
inductive LinkedFrom (table : List ExportAttributes) (start : Nat) : Nat → Prop where
  | start : LinkedFrom table start start
  | link {id next : Nat} {attributes : ExportAttributes} (h : LinkedFrom table start id)
    (hget : table[id]? = some attributes) (hmem : next ∈ attributes.associatedIds) :
    LinkedFrom table start next

namespace ExportAttributeWalker

def start (self : ExportAttributeWalker) : ExportAttributeWalker :=
  { self with ids := [], seen := [], attributes := [] }

end ExportAttributeWalker

/-- Without a filter every attribute passes. -/
def passes (filter : Option (ExportAttributePair → Bool)) (pair : ExportAttributePair) : Bool :=
  match filter with
  | some filter => filter pair
  | none => true

/-- `ExportMachine::attributes`, with a walker that may have been used before. -/
def attributesInto (filter : Option (ExportAttributePair → Bool)) (table : List ExportAttributes)
    (attributesId : Nat) (walker : ExportAttributeWalker) : Exec ExportAttributeWalker :=
  let walker := walker.start.pushId attributesId
  match walker.walk (passes filter) table ((attributeIds table attributesId).length + 1) with
  | some result => result
  | none => panicked

/-- The attributes of an id that pass; none for an id outside of the table. -/
def passing (filter : ExportAttributePair → Bool) (table : List ExportAttributes) (id : Nat) :
    List ExportAttributePair :=
  ((table[id]?.map (·.attributes)).getD []).filter filter

/-- The attributes of every id in the table that the links lead to, once for each id. -/
def Collects (filter : ExportAttributePair → Bool) (table : List ExportAttributes) (start : Nat)
    (attributes : List ExportAttributePair) : Prop :=
  ∃ ids : List Nat, ids.Nodup ∧ (∀ id, id ∈ ids ↔ LinkedFrom table start id ∧ id < table.length) ∧
    attributes = ids.flatMap (passing filter table)

section Walk

variable {filter : ExportAttributePair → Bool} {table : List ExportAttributes} {start : Nat}

/-- During the loop: `taken` are the ids that were popped, `settled` those of them whose links were
all pushed. Between two turns they are the same. -/
structure Walked (filter : ExportAttributePair → Bool) (table : List ExportAttributes)
    (start : Nat) (settled taken : List Nat) (walker : ExportAttributeWalker) : Prop where
  nodup : (taken ++ walker.ids).Nodup
  seen : ∀ id, id ∈ walker.seen ↔ id ∈ taken ∨ id ∈ walker.ids
  linked : ∀ id ∈ walker.seen, LinkedFrom table start id
  start_mem : start ∈ walker.seen
  closed : ∀ id ∈ settled, ∀ found, table[id]? = some found → found.associatedIds ⊆ walker.seen
  bound : table.length ∉ taken
  attributes : walker.attributes = taken.flatMap (passing filter table)

theorem passing_of_none {id : Nat} (h : table[id]? = none) : passing filter table id = [] := by
  rw [passing, h]
  rfl

theorem passing_of_some {id : Nat} {found : ExportAttributes} (h : table[id]? = some found) :
    passing filter table id = found.attributes.filter filter := by
  rw [passing, h]
  rfl

/-- A push changes the stack and what was seen only. -/
theorem pushId_attributes (walker : ExportAttributeWalker) (id : Nat) :
    (walker.pushId id).attributes = walker.attributes := by
  unfold ExportAttributeWalker.pushId
  split <;> rfl

theorem mem_seen_pushId (walker : ExportAttributeWalker) (id x : Nat) :
    x ∈ (walker.pushId id).seen ↔ x = id ∨ x ∈ walker.seen := by
  unfold ExportAttributeWalker.pushId
  split
  · rename_i h
    exact ⟨Or.inr, fun hor => hor.elim (fun heq => heq ▸ h) fun hin => hin⟩
  · exact List.mem_cons

theorem Walked.pushId {settled taken : List Nat} {walker : ExportAttributeWalker}
    (h : Walked filter table start settled taken walker) {id : Nat} (hid : LinkedFrom table start id) :
    Walked filter table start settled taken (walker.pushId id) := by
  have hseen := mem_seen_pushId walker id
  refine ⟨?_, fun x => ?_, fun x hx => ?_, ?_, fun x hx found hget => ?_, h.bound, ?_⟩
  · unfold ExportAttributeWalker.pushId
    by_cases hmem : id ∈ walker.seen
    · rw [if_pos hmem]
      exact h.nodup
    · rw [if_neg hmem]
      have hnot : id ∉ taken ++ walker.ids := fun hin =>
        hmem ((h.seen id).mpr (List.mem_append.mp hin))
      exact List.perm_middle.nodup_iff.mpr (List.nodup_cons.mpr ⟨hnot, h.nodup⟩)
  · rw [hseen, h.seen]
    unfold ExportAttributeWalker.pushId
    by_cases hmem : id ∈ walker.seen
    · rw [if_pos hmem]
      refine ⟨fun hor => hor.elim (fun heq => ?_) fun hin => hin, Or.inr⟩
      rw [heq]
      exact (h.seen id).mp hmem
    · rw [if_neg hmem, List.mem_cons]
      tauto
  · rcases (hseen x).mp hx with rfl | hx
    · exact hid
    · exact h.linked x hx
  · exact (hseen start).mpr (Or.inr h.start_mem)
  · exact fun y hy => (hseen y).mpr (Or.inr (h.closed x hx found hget hy))
  · rw [pushId_attributes]
    exact h.attributes

theorem Walked.pushIds {settled taken : List Nat} {walker : ExportAttributeWalker}
    (h : Walked filter table start settled taken walker) {ids : List Nat}
    (hids : ∀ id ∈ ids, LinkedFrom table start id) :
    Walked filter table start settled taken (ids.foldl ExportAttributeWalker.pushId walker) ∧
      ids ⊆ (ids.foldl ExportAttributeWalker.pushId walker).seen ∧
      walker.seen ⊆ (ids.foldl ExportAttributeWalker.pushId walker).seen := by
  induction ids generalizing walker with
  | nil => exact ⟨h, List.nil_subset _, List.Subset.refl _⟩
  | cons id ids ih =>
    obtain ⟨hid, hids⟩ := List.forall_mem_cons.mp hids
    obtain ⟨hwalked, hsub, hseen⟩ := ih (h.pushId hid) hids
    refine ⟨hwalked, List.cons_subset.mpr ⟨?_, hsub⟩, fun x hx => ?_⟩
    · exact hseen ((mem_seen_pushId walker id id).mpr (Or.inl rfl))
    · exact hseen ((mem_seen_pushId walker id x).mpr (Or.inr hx))

/-- One turn: the id goes from the stack to what was taken. -/
theorem Walked.pop {settled taken ids seen : List Nat} {id : Nat}
    {attributes : List ExportAttributePair}
    (h : Walked filter table start settled taken ⟨id :: ids, seen, attributes⟩)
    (hid : id ≠ table.length) :
    Walked filter table start settled (taken ++ [id])
      ⟨ids, seen, attributes ++ passing filter table id⟩ where
  nodup := by
    rw [List.append_assoc]
    exact h.nodup
  seen := fun x => by
    rw [h.seen, List.mem_append, List.mem_singleton, List.mem_cons, or_assoc]
  linked := h.linked
  start_mem := h.start_mem
  closed := h.closed
  bound := by
    rw [List.mem_append, List.mem_singleton, not_or]
    exact ⟨h.bound, hid.symm⟩
  attributes := by
    rw [List.flatMap_append, List.flatMap_singleton, ← h.attributes]

theorem Walked.settle {settled taken : List Nat} {walker : ExportAttributeWalker} {id : Nat}
    (h : Walked filter table start settled taken walker)
    (hid : ∀ found, table[id]? = some found → found.associatedIds ⊆ walker.seen) :
    Walked filter table start (settled ++ [id]) taken walker :=
  { h with
    closed := fun x hx => by
      rcases List.mem_append.mp hx with hx | hx
      · exact h.closed x hx
      · rw [List.mem_singleton.mp hx]
        exact hid }

/-- What was popped is looked up: it is in the table, or past its end, or the length. -/
theorem Walked.turn {taken ids seen : List Nat} {id : Nat} {attributes : List ExportAttributePair}
    (h : Walked filter table start taken taken ⟨id :: ids, seen, attributes⟩) :
    (∃ walker, ExportAttributeWalker.visitId filter table ⟨ids, seen, attributes⟩ id = .ok walker ∧
      Walked filter table start (taken ++ [id]) (taken ++ [id]) walker) ∨
    (ExportAttributeWalker.visitId filter table ⟨ids, seen, attributes⟩ id = panicked ∧
      LinkedFrom table start table.length) := by
  have hseen : id ∈ seen := (h.seen id).mpr (Or.inr List.mem_cons_self)
  have hlinked : LinkedFrom table start id := h.linked id hseen
  unfold ExportAttributeWalker.visitId
  rcases Nat.lt_trichotomy id table.length with hlt | rfl | hgt
  · refine Or.inl ?_
    have hget : table[id]? = some table[id] := List.getElem?_eq_getElem hlt
    have hpopped := h.pop hlt.ne
    rw [passing_of_some hget] at hpopped
    obtain ⟨hpushed, hlinks, -⟩ := hpopped.pushIds fun next hnext => .link hlinked hget hnext
    refine ⟨_, by rw [if_pos hlt.le, getAt_eq_ok.mpr hget]; rfl, hpushed.settle fun found heq => ?_⟩
    obtain rfl := Option.some.inj (hget.symm.trans heq)
    exact hlinks
  · refine Or.inr ⟨?_, hlinked⟩
    rw [if_pos (le_refl _), getAt, List.getElem?_eq_none (le_refl _)]
    rfl
  · refine Or.inl ⟨⟨ids, seen, attributes⟩, if_neg (Nat.not_le_of_lt hgt), ?_⟩
    have hnone : table[id]? = none := List.getElem?_eq_none hgt.le
    have hpopped := h.pop (Nat.ne_of_gt hgt)
    rw [passing_of_none hnone, List.append_nil] at hpopped
    exact hpopped.settle fun found heq => absurd (hnone.symm.trans heq) (Option.some_ne_none found).symm

/-- The whole loop. -/
theorem Walked.walk {fuel : Nat} {taken : List Nat} {walker : ExportAttributeWalker}
    (h : Walked filter table start taken taken walker) {result : Exec ExportAttributeWalker}
    (hrun : walker.walk filter table fuel = some result) :
    (∃ last all, result = .ok last ∧ last.ids = [] ∧ Walked filter table start all all last) ∨
      (result = panicked ∧ LinkedFrom table start table.length) := by
  induction fuel generalizing taken walker with
  | zero => cases hrun
  | succ fuel ih =>
    obtain ⟨ids, seen, attributes⟩ := walker
    cases ids with
    | nil =>
      cases hrun
      exact Or.inl ⟨⟨[], seen, attributes⟩, taken, rfl, rfl, h⟩
    | cons id ids =>
      rw [ExportAttributeWalker.walk] at hrun
      dsimp only at hrun
      rcases h.turn with ⟨next, hvisit, hnext⟩ | ⟨hvisit, hlinked⟩
      · rw [hvisit] at hrun
        exact ih hnext hrun
      · rw [hvisit] at hrun
        cases hrun
        exact Or.inr ⟨rfl, hlinked⟩

/-- With an empty stack every id that the links lead to was taken. -/
theorem Walked.mem_taken {taken : List Nat} {walker : ExportAttributeWalker}
    (h : Walked filter table start taken taken walker) (hids : walker.ids = []) (id : Nat) :
    id ∈ taken ↔ LinkedFrom table start id := by
  have hseen : ∀ x, x ∈ walker.seen ↔ x ∈ taken := fun x => by
    rw [h.seen, hids]
    simp
  constructor
  · intro hid
    exact h.linked id ((hseen id).mpr hid)
  · intro hlinked
    induction hlinked with
    | start => exact (hseen start).mp h.start_mem
    | link _ hget hmem ih => exact (hseen _).mp (h.closed _ ih _ hget hmem)

theorem Walked.collects {taken : List Nat} {walker : ExportAttributeWalker}
    (h : Walked filter table start taken taken walker) (hids : walker.ids = []) :
    Collects filter table start walker.attributes := by
  have hnodup := h.nodup
  rw [hids, List.append_nil] at hnodup
  refine ⟨taken.filter (· < table.length), hnodup.filter _, fun id => ?_, ?_⟩
  · rw [List.mem_filter, h.mem_taken hids, decide_eq_true_eq]
  · rw [h.attributes]
    clear h hnodup
    induction taken with
    | nil => rfl
    | cons id taken ih =>
      by_cases hlt : id < table.length
      · rw [List.filter_cons_of_pos (by simpa using hlt), List.flatMap_cons, List.flatMap_cons, ih]
      · have hnone : table[id]? = none := List.getElem?_eq_none (Nat.le_of_not_lt hlt)
        rw [List.filter_cons_of_neg (by simpa using hlt), List.flatMap_cons, passing_of_none hnone,
          List.nil_append, ih]

end Walk

section Main

variable {filter : Option (ExportAttributePair → Bool)} {table : List ExportAttributes}
  {attributesId : Nat} {walker : ExportAttributeWalker}

/-- A walk ends with what it should collect, or at the id that is the length of the table. -/
theorem attributesInto_cases :
    (∃ last, attributesInto filter table attributesId walker = .ok last ∧
      Collects (passes filter) table attributesId last.attributes ∧
        ¬ LinkedFrom table attributesId table.length) ∨
    (attributesInto filter table attributesId walker = panicked ∧
      LinkedFrom table attributesId table.length) := by
  have hpush : walker.start.pushId attributesId = ⟨[attributesId], [attributesId], []⟩ :=
    if_neg List.not_mem_nil
  have hstart : Walked (passes filter) table attributesId [] []
      (walker.start.pushId attributesId) := by
    rw [hpush]
    refine ⟨by simp, fun id => by simp, fun id hid => ?_, List.mem_singleton_self _,
      fun id hid => absurd hid List.not_mem_nil, List.not_mem_nil, rfl⟩
    rw [List.mem_singleton.mp hid]
    exact .start
  obtain ⟨result, hwalk, -⟩ := @walkAttributes_eq (passes filter) table attributesId
  have hsame : ({} : ExportAttributeWalker).pushId attributesId =
      walker.start.pushId attributesId := hpush.symm ▸ rfl
  rw [hsame] at hwalk
  unfold attributesInto
  dsimp only
  rw [hwalk]
  dsimp only
  rcases hstart.walk hwalk with ⟨last, taken, rfl, hids, hlast⟩ | ⟨rfl, hlinked⟩
  · refine Or.inl ⟨last, rfl, hlast.collects hids, fun hlinked => ?_⟩
    exact hlast.bound ((hlast.mem_taken hids _).mpr hlinked)
  · exact Or.inr ⟨rfl, hlinked⟩

/-- **The walk.** It collects the attributes of all ids in the table that the links lead to, each
id once, exactly when the links do not lead to the length of the table. -/
theorem attributes_collected_iff :
    (∃ last, attributesInto filter table attributesId walker = .ok last ∧
      Collects (passes filter) table attributesId last.attributes) ↔
      ¬ LinkedFrom table attributesId table.length := by
  rcases @attributesInto_cases filter table attributesId walker with
    ⟨last, heq, hcollects, hnot⟩ | ⟨heq, hlinked⟩
  · exact iff_of_true ⟨last, heq, hcollects⟩ hnot
  · refine iff_of_false ?_ (not_not.mpr hlinked)
    rintro ⟨last, hok, -⟩
    rw [heq] at hok
    exact absurd hok (panicked_ne_ok last)

end Main

/-- A link to the id that is the next one to be given. -/
theorem attributes_not_collected :
    ¬ ∀ (filter : Option (ExportAttributePair → Bool)) (table : List ExportAttributes)
      (attributesId : Nat) (walker : ExportAttributeWalker),
      ∃ last, attributesInto filter table attributesId walker = .ok last ∧
        Collects (passes filter) table attributesId last.attributes := by
  intro h
  obtain ⟨last, hok, -⟩ := h none [{ associatedIds := [1] }] 0 {}
  have hpanic : attributesInto none [{ associatedIds := [1] }] 0 {} = panicked := rfl
  rw [hpanic] at hok
  exact absurd hok (panicked_ne_ok last)

end OneCollect.Exporting
