import Mathlib.Data.List.Perm.Subperm
import OneCollect.Theory.Checked

/-! Attributes of samples (`attributes.rs`): pairs of a name and a value, and links to more
attributes. A walk over the links collects the pairs; it ends, since each id is pushed once
(`walk_isSome`). -/

namespace OneCollect.Exporting
open Theory

inductive ExportAttributeValue where
  | label (id : Nat)
  | value (value : Nat)
  | record (id : Nat)
  deriving DecidableEq, Repr

structure ExportAttributePair where
  name : Nat
  value : ExportAttributeValue
  deriving DecidableEq, Repr

structure ExportAttributes where
  attributes : List ExportAttributePair := []
  associatedIds : List Nat := []
  deriving DecidableEq, Repr

/-- The top of the stack `ids` is its first element. -/
structure ExportAttributeWalker where
  ids : List Nat := []
  seen : List Nat := []
  attributes : List ExportAttributePair := []
  deriving DecidableEq, Repr

namespace ExportAttributeWalker

def pushId (self : ExportAttributeWalker) (attributesId : Nat) : ExportAttributeWalker :=
  if attributesId ∈ self.seen then self
  else { self with ids := attributesId :: self.ids, seen := attributesId :: self.seen }

section Walk

variable (filter : ExportAttributePair → Bool) (table : List ExportAttributes)

def pushAttributes (self : ExportAttributeWalker) (attributes : List ExportAttributePair) :
    ExportAttributeWalker :=
  { self with attributes := self.attributes ++ attributes.filter filter }

/-- One turn of the loop, for the id that was popped. -/
def visitId (self : ExportAttributeWalker) (id : Nat) : Exec ExportAttributeWalker :=
  if id ≤ table.length then do
    let attributes ← getAt table id
    .ok (attributes.associatedIds.foldl pushId (self.pushAttributes filter attributes.attributes))
  else .ok self

/-- The loop, for a number of turns; `none` when they are not enough. -/
def walk : Nat → ExportAttributeWalker → Option (Exec ExportAttributeWalker)
  | 0, _ => none
  | fuel + 1, self =>
    match self.ids with
    | [] => some (.ok self)
    | id :: ids =>
      match visitId filter table { self with ids } id with
      | .error e => some (.error e)
      | .ok self => walk fuel self

end Walk

/-! ## The walk ends -/

/-- The ids that were seen are distinct and are possible ones. -/
structure Within (possible : List Nat) (walker : ExportAttributeWalker) : Prop where
  nodup : walker.seen.Nodup
  subset : walker.seen ⊆ possible

/-- How many turns may still be to come. -/
def turns (possible : List Nat) (self : ExportAttributeWalker) : Nat :=
  self.ids.length + (possible.length - self.seen.length)

variable {possible : List Nat} {self : ExportAttributeWalker}

theorem Within.length_le (h : self.Within possible) : self.seen.length ≤ possible.length :=
  (List.subperm_of_subset h.nodup h.subset).length_le

theorem Within.pushId (h : self.Within possible) {id : Nat} (hid : id ∈ possible) :
    (self.pushId id).Within possible ∧ (self.pushId id).turns possible = self.turns possible := by
  unfold ExportAttributeWalker.pushId
  by_cases hseen : id ∈ self.seen
  · rw [if_pos hseen]
    exact ⟨h, rfl⟩
  · rw [if_neg hseen]
    have hwithin : Within possible
        { self with ids := id :: self.ids, seen := id :: self.seen } :=
      ⟨List.nodup_cons.mpr ⟨hseen, h.nodup⟩, List.cons_subset.mpr ⟨hid, h.subset⟩⟩
    have hle := hwithin.length_le
    refine ⟨hwithin, ?_⟩
    unfold turns
    simp only [List.length_cons] at hle ⊢
    omega

theorem Within.foldl_pushId {ids : List Nat} (h : self.Within possible) (hids : ids ⊆ possible) :
    (ids.foldl ExportAttributeWalker.pushId self).Within possible ∧
      (ids.foldl ExportAttributeWalker.pushId self).turns possible = self.turns possible := by
  induction ids generalizing self with
  | nil => exact ⟨h, rfl⟩
  | cons id ids ih =>
    obtain ⟨hid, hids⟩ := List.cons_subset.mp hids
    obtain ⟨hwithin, hturns⟩ := h.pushId hid
    obtain ⟨hwithin', hturns'⟩ := ih hwithin hids
    exact ⟨hwithin', hturns'.trans hturns⟩

/-- **End of the walk.** Each turn takes an id off the stack, and no id is pushed twice. -/
theorem walk_isSome {filter : ExportAttributePair → Bool} {table : List ExportAttributes}
    (htable : ∀ attributes ∈ table, attributes.associatedIds ⊆ possible) {fuel : Nat}
    (h : self.Within possible) (hfuel : self.turns possible < fuel) :
    (walk filter table fuel self).isSome := by
  induction fuel generalizing self with
  | zero => exact absurd hfuel (Nat.not_lt_zero _)
  | succ fuel ih =>
    obtain ⟨ids, seen, attributes⟩ := self
    cases ids with
    | nil => rfl
    | cons id ids =>
      rw [walk]
      dsimp only
      have hpopped : Within possible { ids, seen, attributes } := ⟨h.nodup, h.subset⟩
      have hturns : turns possible { ids, seen, attributes } < fuel := by
        change ids.length + 1 + (possible.length - seen.length) < fuel + 1 at hfuel
        change ids.length + (possible.length - seen.length) < fuel
        omega
      unfold visitId
      by_cases hid : id ≤ table.length
      · rw [if_pos hid]
        cases hget : getAt table id with
        | error e => rfl
        | ok found =>
          have hmem := List.mem_of_getElem? (getAt_eq_ok.mp hget)
          obtain ⟨hwithin, heq⟩ := @Within.foldl_pushId possible
            (pushAttributes filter { ids, seen, attributes } found.attributes)
            found.associatedIds ⟨hpopped.nodup, hpopped.subset⟩ (htable found hmem)
          exact ih hwithin (lt_of_eq_of_lt heq hturns)
      · rw [if_neg hid]
        exact ih hpopped hturns

end ExportAttributeWalker

/-- The ids a walk may push. -/
def attributeIds (table : List ExportAttributes) (attributesId : Nat) : List Nat :=
  attributesId :: table.flatMap (·.associatedIds)

/-- `attributes` of the machine: what a fresh walker has collected in the end. -/
def walkAttributes (filter : ExportAttributePair → Bool) (table : List ExportAttributes)
    (attributesId : Nat) : Exec (List ExportAttributePair) :=
  let walker := ({} : ExportAttributeWalker).pushId attributesId
  match walker.walk filter table ((attributeIds table attributesId).length + 1) with
  | some result => result.map (·.attributes)
  | none => panicked

theorem walkAttributes_eq {filter : ExportAttributePair → Bool} {table : List ExportAttributes}
    {attributesId : Nat} :
    ∃ result, (({} : ExportAttributeWalker).pushId attributesId).walk filter table
        ((attributeIds table attributesId).length + 1) = some result ∧
      walkAttributes filter table attributesId = result.map (·.attributes) := by
  have hempty : ({} : ExportAttributeWalker).Within (attributeIds table attributesId) :=
    ⟨List.nodup_nil, List.nil_subset _⟩
  obtain ⟨hwithin, hturns⟩ := hempty.pushId (List.mem_cons_self (a := attributesId))
  have htable : ∀ found ∈ table,
      found.associatedIds ⊆ attributeIds table attributesId := fun found hmem id hid =>
    List.mem_cons_of_mem _ (List.mem_flatMap.mpr ⟨found, hmem, hid⟩)
  have hlt : (({} : ExportAttributeWalker).pushId attributesId).turns
      (attributeIds table attributesId) < (attributeIds table attributesId).length + 1 := by
    rw [hturns]
    exact Nat.lt_succ_of_le (le_of_eq (Nat.zero_add _))
  have hsome := @ExportAttributeWalker.walk_isSome _ _ filter table htable _ hwithin hlt
  obtain ⟨result, hresult⟩ := Option.isSome_iff_exists.mp hsome
  refine ⟨result, hresult, ?_⟩
  unfold walkAttributes
  dsimp only
  rw [hresult]

end OneCollect.Exporting
