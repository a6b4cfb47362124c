import OneCollect.Etw.Tdh

/-! The event format of a property tree. The walk over the tree is a walk over its leaves. What the
format keeps of a leaf is a `Kind`: a size, or what ends the field. `closure_some` says where the
closure of a leaf reads and what it finds there, by the kinds of the leaves before it. -/

namespace OneCollect.Tdh
open Theory EventFormat

/-! ## The tree -/

structure Leaf where
  name : String
  prop : EventPropertyInfo
  /-- A struct around it is an array. -/
  repeated : Bool
  deriving DecidableEq, Repr

/-- The property is one value. -/
def EventPropertyInfo.Single (prop : EventPropertyInfo) : Prop :=
  ¬ prop.has propertyParamCount ∧ prop.count = 1

instance (prop : EventPropertyInfo) : Decidable prop.Single :=
  inferInstanceAs (Decidable (_ ∧ _))

section Tree

variable (properties : List EventPropertyInfo)

def propertyLeaves (nested : Bool → String → List Nat → Option (List Leaf)) (repeated : Bool)
    (namePrefix : String) (i : Nat) : Option (List Leaf) := do
  let prop ← properties[i]?
  let name := qualifiedName namePrefix i prop
  if prop.has propertyStruct then nested (repeated || !decide prop.Single) name prop.members
  else return [⟨name, prop, repeated⟩]

/-- The leaves of a tree that is at most so deep, in order; `none` where it is deeper, or where an
index leads out of the properties. -/
def leavesWithin : Nat → Bool → String → List Nat → Option (List Leaf)
  | 0, repeated, namePrefix, range =>
    (range.mapM (propertyLeaves properties (fun _ _ _ => none) repeated namePrefix)).map
      List.flatten
  | depth + 1, repeated, namePrefix, range =>
    (range.mapM (propertyLeaves properties (leavesWithin depth) repeated namePrefix)).map
      List.flatten

end Tree

/-- The leaves of the tree, with structs up to eight deep. -/
def TraceEventInfo.leaves (tei : TraceEventInfo) : Option (List Leaf) :=
  leavesWithin tei.properties 8 false "" (List.range tei.topLevelPropertyCount)

/-- The walk over leaves. -/
def walkLeaves (is32Bit : Bool) (leaves : List Leaf) (walk : Walk) : Walk :=
  leaves.foldl (fun walk leaf => walk.add leaf.name (leafInfo is32Bit leaf.prop)) walk

section Tree

variable {properties : List EventPropertyInfo} {is32Bit : Bool}

/-- A walk over a range goes over its leaves, where the walk over the members of a struct does. -/
theorem walkRange_eq {nested : Bool → String → List Nat → Option (List Leaf)}
    {walkNested : String → List Nat → Walk → Except TdhDecodeError Walk}
    (hnested : ∀ repeated name range leaves walk, nested repeated name range = some leaves →
      walkNested name range walk = .ok (walkLeaves is32Bit leaves walk))
    {repeated : Bool} {namePrefix : String} {range : List Nat} {found : List (List Leaf)}
    (h : range.mapM (propertyLeaves properties nested repeated namePrefix) = some found)
    (walk : Walk) :
    range.foldlM (walkProperty properties is32Bit walkNested namePrefix) walk =
      .ok (walkLeaves is32Bit found.flatten walk) := by
  induction range generalizing found walk with
  | nil =>
    cases h
    rfl
  | cons i range ih =>
    rw [List.mapM_cons] at h
    obtain ⟨leaves, hleaves, h⟩ := Option.bind_eq_some_iff.mp h
    obtain ⟨found, hfound, h⟩ := Option.bind_eq_some_iff.mp h
    cases h
    obtain ⟨prop, hprop, hleaves⟩ := Option.bind_eq_some_iff.mp hleaves
    have hturn : walkProperty properties is32Bit walkNested namePrefix walk i =
        .ok (walkLeaves is32Bit leaves walk) := by
      unfold walkProperty
      rw [hprop]
      dsimp only at hleaves ⊢
      split_ifs at hleaves ⊢ with hstruct
      · exact hnested _ _ _ _ walk hleaves
      · cases hleaves
        rw [walkLeaf_eq]
        rfl
    have happend : walkLeaves is32Bit (leaves ++ found.flatten) walk =
        walkLeaves is32Bit found.flatten (walkLeaves is32Bit leaves walk) := List.foldl_append
    rw [List.foldlM_cons, hturn, List.flatten_cons, happend]
    exact ih hfound _

theorem walkProperties_eq (depth : Nat) {repeated : Bool} {namePrefix : String} {range : List Nat}
    {leaves : List Leaf} (h : leavesWithin properties depth repeated namePrefix range = some leaves)
    (walk : Walk) :
    walkProperties properties is32Bit depth namePrefix range walk =
      .ok (walkLeaves is32Bit leaves walk) := by
  induction depth generalizing repeated namePrefix range leaves walk with
  | zero =>
    obtain ⟨found, hfound, rfl⟩ := Option.map_eq_some_iff.mp h
    exact walkRange_eq (fun _ _ _ _ _ h => by cases h) hfound walk
  | succ depth ih =>
    obtain ⟨found, hfound, rfl⟩ := Option.map_eq_some_iff.mp h
    have hnested : ∀ repeated name range leaves walk,
        leavesWithin properties depth repeated name range = some leaves →
        walkProperties properties is32Bit depth name range walk =
          .ok (walkLeaves is32Bit leaves walk) := fun _ _ _ _ walk h => ih h walk
    exact walkRange_eq hnested hfound walk

end Tree

/-- The schema of a tree has a field for each leaf. -/
theorem buildCachedSchema_eq {tei : TraceEventInfo} {leaves : List Leaf}
    (h : tei.leaves = some leaves) (is32Bit : Bool) :
    buildCachedSchema tei is32Bit =
      .ok ⟨tei.eventName, (walkLeaves is32Bit leaves {}).format, 0⟩ := by
  unfold buildCachedSchema
  split_ifs with hempty
  · -- without properties there is nothing at the top
    have hnone := List.length_eq_zero_iff.mp hempty
    have htop : tei.topLevelPropertyCount = 0 := by
      by_contra hne
      obtain ⟨n, hn⟩ := Nat.exists_eq_succ_of_ne_zero hne
      rw [TraceEventInfo.leaves, hnone, hn, List.range_succ_eq_map] at h
      cases h
    rw [TraceEventInfo.leaves, htop] at h
    cases h
    rfl
  · rw [maxStructDepth, walkProperties_eq 8 h]
    rfl

/-! ## Kinds of fields

What the schema keeps of a property: how many bytes it takes, or what ends them. -/

inductive Kind where
  | fixed (size : Nat)
  | ansi
  | wide
  | counted
  | unsized
  deriving DecidableEq, Repr

def Kind.of (loc : LocationType) (size : Nat) : Kind :=
  if size ≠ 0 then .fixed size
  else
    match loc with
    | .staticString => .ansi
    | .staticUTF16String => .wide
    | .staticLenPrefixArray => .counted
    | _ => .unsized

def Leaf.kind (is32Bit : Bool) (leaf : Leaf) : Kind :=
  Kind.of (leafInfo is32Bit leaf.prop).2.1 (leafInfo is32Bit leaf.prop).2.2

/-- The bytes of a field of the kind at the start of some data. -/
def Kind.find : Kind → List UInt8 → List UInt8
  | .fixed size, bytes => if size ≤ bytes.length then bytes.take size else []
  | .ansi, bytes => bytes.takeWhile (· ≠ 0)
  | .wide, bytes => utf16Bytes bytes
  | .counted, bytes =>
    if 2 + fromLe (bytes.take 2) ≤ bytes.length then (bytes.drop 2).take (fromLe (bytes.take 2))
    else []
  | .unsized, _ => []

/-- How many bytes a field of the kind takes there; `none` where they are not all there. -/
def Kind.width : Kind → List UInt8 → Option Nat
  | .fixed size, bytes => if size ≤ bytes.length then some size else none
  | .ansi, bytes => some (stringSkip bytes)
  | .wide, bytes => some (utf16Skip bytes)
  | .counted, bytes =>
    if 2 + fromLe (bytes.take 2) ≤ bytes.length then some (2 + fromLe (bytes.take 2)) else none
  | .unsized, _ => none

/-- What is left of the data behind fields of these kinds. -/
def reach : List Kind → List UInt8 → Option (List UInt8)
  | [], bytes => some bytes
  | kind :: kinds, bytes => (kind.width bytes).bind fun width => reach kinds (bytes.drop width)

theorem Kind.width_le {kind : Kind} {bytes : List UInt8} {width : Nat}
    (h : kind.width bytes = some width) : width ≤ bytes.length := by
  cases kind with
  | fixed size =>
    rw [Kind.width] at h
    split_ifs at h with hle
    cases h
    exact hle
  | ansi =>
    cases h
    exact stringSkip_le bytes
  | wide =>
    cases h
    exact utf16Skip_le bytes
  | counted =>
    rw [Kind.width] at h
    split_ifs at h with hle
    cases h
    exact hle
  | unsized => cases h

theorem reach_append (kinds : List Kind) (kind : Kind) (bytes : List UInt8) :
    reach (kinds ++ [kind]) bytes =
      (reach kinds bytes).bind fun rest => (kind.width rest).map fun width => rest.drop width := by
  induction kinds generalizing bytes with
  | nil =>
    rw [List.nil_append, reach, reach, Option.bind_some, Option.map_eq_bind]
    rfl
  | cons first kinds ih =>
    rw [List.cons_append, reach, reach, Option.bind_assoc]
    exact congrArg _ (funext fun width => ih _)

/-! ## The walker's fields -/

/-- Only static fields have a size, no field is dynamic, and the format knows the size of the
elements of counted ones. -/
def InfoKept (info : String × LocationType × Nat) : Prop :=
  (info.2.2 ≠ 0 → info.2.1 = .static) ∧
    info.2.1 ∈ [.static, .staticString, .staticUTF16String, .staticLenPrefixArray] ∧
    (info.2.1 = .staticLenPrefixArray → tryGetElementSize info.1 = some 1)

instance (info : String × LocationType × Nat) : Decidable (InfoKept info) :=
  inferInstanceAs (Decidable (_ ∧ _ ∧ _))

theorem infoKept_static (typeName : String) (size : Nat) : InfoKept (typeName, .static, size) :=
  ⟨fun _ => rfl, List.mem_cons_self, fun h => by cases h⟩

theorem intypeToFieldInfo_kept (inType : Nat) (is32Bit : Bool) :
    InfoKept (intypeToFieldInfo inType is32Bit) := by
  have htable : ∀ is32Bit, ∀ entry ∈ fieldInfos is32Bit, InfoKept entry.2 := by decide
  unfold intypeToFieldInfo
  cases hlookup : (fieldInfos is32Bit).lookup inType with
  | none => exact infoKept_static _ _
  | some info =>
    obtain ⟨before, after, hsplit, -⟩ := List.lookup_eq_some_iff.mp hlookup
    refine htable is32Bit (inType, info) ?_
    rw [hsplit]
    exact List.mem_append_right _ List.mem_cons_self

theorem leafInfo_kept (is32Bit : Bool) (prop : EventPropertyInfo) :
    InfoKept (leafInfo is32Bit prop) := by
  unfold leafInfo
  split_ifs
  · exact infoKept_static _ _
  · split
    · exact infoKept_static _ _
    · exact intypeToFieldInfo_kept _ _

section Field

variable {field : EventField} {offset : Nat} {skips skips' : List FieldSkip}

/-- The field is passed as its kind says: the position moves behind it. -/
def PassedAs (kind : Kind) (field : EventField) (offset : Nat) (skips skips' : List FieldSkip) :
    Prop :=
  passField (offset, skips) field = some (offset + field.size, skips') ∧
    (skips' = [] ↔ skips = [] ∧ field.size ≠ 0) ∧
    ∀ data, (position (offset + field.size, skips') data).map data.drop =
      ((position (offset, skips) data).map data.drop).bind fun rest =>
        (kind.width rest).map rest.drop

theorem passed_fixed (hsize : field.size ≠ 0) :
    PassedAs (.fixed field.size) field offset skips skips := by
  refine ⟨?_, ?_, fun data => ?_⟩
  · unfold passField
    dsimp only
    rw [if_pos hsize]
    rfl
  · exact (and_iff_left hsize).symm
  · rw [position_static]
    cases hp : position (offset, skips) data with
    | none => rfl
    | some p =>
      have hle := position_le hp
      rw [Option.bind_some, Option.map_some, Option.bind_some, Kind.width, List.length_drop]
      by_cases hfits : p + field.size ≤ data.length
      · rw [if_pos hfits, if_pos (by omega), Option.map_some, Option.map_some, List.drop_drop]
      · rw [if_neg hfits, if_neg (by omega)]
        rfl

/-- A field that is skipped by what is in the data. -/
theorem passed_skip {kind : Kind} {skip : FieldSkip} (hsize : field.size = 0)
    (hpass : passField (offset, skips) field = some (offset, skips ++ [skip]))
    (hwidth : ∀ data : List UInt8, position (offset, skips ++ [skip]) data =
      (position (offset, skips) data).bind fun p => (kind.width (data.drop p)).map (p + ·)) :
    PassedAs kind field offset skips (skips ++ [skip]) := by
  refine ⟨by rw [hsize, hpass, Nat.add_zero], by simp [hsize], fun data => ?_⟩
  rw [hsize, Nat.add_zero, hwidth, Option.map_bind, Option.bind_map]
  refine congrArg _ (funext fun p => ?_)
  dsimp only [Function.comp]
  rw [Option.map_map]
  refine congrFun (congrArg _ (funext fun width => ?_)) _
  exact List.drop_drop.symm

theorem position_counted (data : List UInt8) :
    position (offset, skips ++ [⟨.staticLenPrefixArray, some 1, offset⟩]) data =
      (position (offset, skips) data).bind fun p =>
        (Kind.counted.width (data.drop p)).map (p + ·) := by
  rw [position_array]
  cases hp : position (offset, skips) data with
  | none => rfl
  | some p =>
    have hle := position_le hp
    rw [Option.bind_some, Option.bind_some, Kind.width, List.length_drop, Nat.one_mul]
    by_cases hfits : p + 2 + fromLe ((data.drop p).take 2) ≤ data.length
    · rw [if_pos hfits, if_pos (by omega), Option.map_some, Nat.add_assoc]
    · rw [if_neg hfits, if_neg (by omega)]
      rfl

/-- Every field is passed as its kind says; one without a size stops the format. -/
theorem passField_kind (h : InfoKept (field.typeName, field.location, field.size)) (offset : Nat)
    (skips : List FieldSkip) :
    (Kind.of field.location field.size = .unsized ∧ passField (offset, skips) field = none) ∨
      Kind.of field.location field.size ≠ .unsized ∧
        ∃ skips', PassedAs (Kind.of field.location field.size) field offset skips skips' := by
  obtain ⟨-, hloc, hcounted⟩ := h
  unfold Kind.of
  by_cases hsize : field.size ≠ 0
  · rw [if_pos hsize]
    exact Or.inr ⟨by simp, skips, passed_fixed hsize⟩
  · rw [if_neg hsize]
    rw [not_not] at hsize
    have hpass : ∀ result, (match field.location with
        | .staticString | .staticUTF16String =>
          some (offset, skips ++ [⟨field.location, none, offset⟩])
        | .staticLenPrefixArray =>
          (tryGetElementSize field.typeName).bind fun elementSize =>
            some (offset, skips ++ [⟨field.location, some elementSize, offset⟩])
        | _ => none) = result → passField (offset, skips) field = result := by
      rintro result rfl
      unfold passField
      dsimp only
      rw [if_neg (not_not.mpr hsize)]
      rfl
    simp only [List.mem_cons, List.not_mem_nil, or_false] at hloc
    rcases hloc with hloc | hloc | hloc | hloc
    · rw [hloc] at hpass ⊢
      exact Or.inl ⟨rfl, hpass _ rfl⟩
    · rw [hloc] at hpass ⊢
      refine Or.inr ⟨by simp, _, passed_skip hsize (hpass _ rfl) fun data => ?_⟩
      rw [position_string, Option.map_eq_bind]
      rfl
    · rw [hloc] at hpass ⊢
      refine Or.inr ⟨by simp, _, passed_skip hsize (hpass _ rfl) fun data => ?_⟩
      rw [position_utf16, Option.map_eq_bind]
      rfl
    · rw [hloc, hcounted hloc] at hpass
      rw [hloc]
      exact Or.inr ⟨by simp, _, passed_skip hsize (hpass _ rfl) position_counted⟩

/-- The closure of a field finds what its kind does. -/
theorem getData_kind (h : InfoKept (field.typeName, field.location, field.size)) {size p : Nat}
    (hclosure : closureSize field = some size) {data : List UInt8} (hp : p ≤ data.length) :
    getDataWithOffsetDirect size field.location p data =
      (Kind.of field.location field.size).find (data.drop p) := by
  obtain ⟨hstatic, hloc, hcounted⟩ := h
  have hlen : (data.drop p).length = data.length - p := List.length_drop
  unfold closureSize at hclosure
  by_cases hsize : field.size = 0
  · rw [hsize] at hclosure ⊢
    simp only [List.mem_cons, List.not_mem_nil, or_false] at hloc
    rcases hloc with hloc | hloc | hloc | hloc
    · rw [hloc] at hclosure ⊢
      cases hclosure
      exact if_neg (by omega)
    · rw [hloc]
      exact if_neg (by omega)
    · rw [hloc]
      exact if_neg (by omega)
    · rw [if_pos ⟨rfl, hloc⟩, hcounted hloc] at hclosure
      cases hclosure
      rw [hloc]
      change (if p > data.length then [] else if (data.drop p).length < 2 then [] else
        if 2 + fromLe ((data.drop p).take 2) * 1 > (data.drop p).length then []
        else ((data.drop p).drop 2).take (fromLe ((data.drop p).take 2) * 1)) =
        if 2 + fromLe ((data.drop p).take 2) ≤ (data.drop p).length then
          ((data.drop p).drop 2).take (fromLe ((data.drop p).take 2)) else []
      rw [if_neg (by omega), Nat.mul_one]
      by_cases hfits : 2 + fromLe ((data.drop p).take 2) ≤ (data.drop p).length
      · rw [if_pos hfits, if_neg (by omega), if_neg (by omega)]
      · rw [if_neg hfits]
        by_cases hshort : (data.drop p).length < 2
        · exact if_pos hshort
        · rw [if_neg hshort, if_pos (by omega)]
  · rw [if_neg (fun h => hsize h.1)] at hclosure
    cases hclosure
    have hstatic : field.location = .static := hstatic hsize
    have hkind : Kind.of .static field.size = .fixed field.size := if_pos hsize
    rw [hstatic, hkind]
    change (if p + field.size > data.length then [] else _) =
      if field.size ≤ (data.drop p).length then _ else []
    by_cases hfits : p + field.size ≤ data.length
    · rw [if_neg (not_lt.mpr hfits), if_pos (by omega)]
    · rw [if_pos (not_le.mp hfits), if_neg (by omega)]

theorem closureSize_of_kept (h : InfoKept (field.typeName, field.location, field.size)) :
    ∃ size, closureSize field = some size := by
  unfold closureSize
  split_ifs with hcounted
  · exact ⟨1, h.2.2 hcounted.2⟩
  · exact ⟨field.size, rfl⟩

end Field

/-! ## The schema's format -/

section Format

variable (is32Bit : Bool)

def Leaf.field (leaf : Leaf) (offset : Nat) : EventField :=
  ⟨leaf.name, (leafInfo is32Bit leaf.prop).1, (leafInfo is32Bit leaf.prop).2.1, offset,
    (leafInfo is32Bit leaf.prop).2.2⟩

/-- The offset of the field that is added next. -/
def Walk.offset (walk : Walk) : Nat := if walk.seenVariable then 0 else walk.runningOffset

theorem walkLeaves_concat (leaves : List Leaf) (leaf : Leaf) (walk : Walk) :
    walkLeaves is32Bit (leaves ++ [leaf]) walk =
      (walkLeaves is32Bit leaves walk).add leaf.name (leafInfo is32Bit leaf.prop) :=
  List.foldl_concat ..

/-- The fields of a walk: those of the leaves before, the leaf's, and those behind. -/
theorem walkLeaves_split (before : List Leaf) (leaf : Leaf) (later : List Leaf) :
    ∃ after, (walkLeaves is32Bit (before ++ leaf :: later) {}).format.fields =
      (walkLeaves is32Bit before {}).format.fields ++
        leaf.field is32Bit (walkLeaves is32Bit before {}).offset :: after := by
  induction later using List.reverseRecOn with
  | nil => exact ⟨[], by rw [walkLeaves_concat]; rfl⟩
  | append_singleton later last ih =>
    obtain ⟨after, hafter⟩ := ih
    refine ⟨after ++ [last.field is32Bit
      (walkLeaves is32Bit (before ++ leaf :: later) {}).offset], ?_⟩
    rw [← List.cons_append, ← List.append_assoc, walkLeaves_concat, ← List.cons_append,
      ← List.append_assoc, ← hafter]
    rfl

theorem walkLeaves_names (leaves : List Leaf) :
    (walkLeaves is32Bit leaves {}).format.fields.map (·.name) = leaves.map (·.name) := by
  induction leaves using List.reverseRecOn with
  | nil => rfl
  | append_singleton leaves leaf ih =>
    rw [walkLeaves_concat, List.map_append, ← ih]
    exact List.map_append

/-- The fields of leaves with other names have other names. -/
theorem fieldNames_ne {before : List Leaf} {leaf : Leaf}
    (h : ∀ other ∈ before, other.name ≠ leaf.name) :
    ∀ other ∈ (walkLeaves is32Bit before {}).format.fields, other.name ≠ leaf.name := by
  intro other hother
  have hmem := List.mem_map_of_mem (f := (·.name)) hother
  rw [walkLeaves_names] at hmem
  obtain ⟨leaf', hleaf', hname⟩ := List.mem_map.mp hmem
  rw [← hname]
  exact h leaf' hleaf'

/-- **The walk and the format agree.** The format gets past the fields of leaves of a size, to
where their kinds lead; before a field of a length of its own the offset of the walk is right. -/
theorem walkLeaves_passed (leaves : List Leaf) :
    (∃ leaf ∈ leaves, leaf.kind is32Bit = .unsized) ∧
      (walkLeaves is32Bit leaves {}).format.fields.foldlM passField (0, []) = none ∨
    (∀ leaf ∈ leaves, leaf.kind is32Bit ≠ .unsized) ∧ ∃ offset skips,
      (walkLeaves is32Bit leaves {}).format.fields.foldlM passField (0, []) =
        some (offset, skips) ∧
      (skips = [] ↔ (walkLeaves is32Bit leaves {}).seenVariable = false) ∧
      (skips = [] → (walkLeaves is32Bit leaves {}).runningOffset = offset) ∧
      ∀ data, (position (offset, skips) data).map data.drop =
        reach (leaves.map (·.kind is32Bit)) data := by
  induction leaves using List.reverseRecOn with
  | nil =>
    refine Or.inr ⟨fun _ h => (List.not_mem_nil h).elim, 0, [], rfl, by simp [walkLeaves],
      fun _ => rfl, fun data => rfl⟩
  | append_singleton leaves leaf ih =>
    have hfields : (walkLeaves is32Bit (leaves ++ [leaf]) {}).format.fields =
        (walkLeaves is32Bit leaves {}).format.fields ++
          [leaf.field is32Bit (walkLeaves is32Bit leaves {}).offset] := by
      rw [walkLeaves_concat]
      rfl
    rw [hfields, List.foldlM_append]
    rcases ih with ⟨⟨other, hother, hkind⟩, hnone⟩ | ⟨hsized, offset, skips, hsome, hseen, hrun, hpos⟩
    · exact Or.inl ⟨⟨other, List.mem_append_left _ hother, hkind⟩, by rw [hnone]; rfl⟩
    · rw [hsome]
      let field := leaf.field is32Bit (walkLeaves is32Bit leaves {}).offset
      have hkept : InfoKept (field.typeName, field.location, field.size) :=
        leafInfo_kept is32Bit leaf.prop
      rcases passField_kind hkept offset skips with
        ⟨hkind, hpass⟩ | ⟨hkind, skips', hpass, hskips, hnext⟩
      · refine Or.inl ⟨⟨leaf, by simp, hkind⟩, ?_⟩
        change (passField _ _).bind _ = _
        rw [hpass]
        rfl
      · refine Or.inr ⟨?_, offset + field.size, skips', ?_, ?_, ?_, fun data => ?_⟩
        · intro other hother
          rcases List.mem_append.mp hother with hother | hother
          · exact hsized other hother
          · rw [List.mem_singleton.mp hother]
            exact hkind
        · change (passField _ _).bind _ = _
          rw [hpass]
          rfl
        · rw [hskips, hseen, walkLeaves_concat, Walk.add, Bool.or_eq_false_iff, beq_eq_false_iff_ne]
          rfl
        · intro hnil
          obtain ⟨hnil, -⟩ := hskips.mp hnil
          rw [walkLeaves_concat, Walk.add, hrun hnil, hseen.mp hnil]
          rfl
        · rw [hnext, hpos, List.map_append, List.map_singleton, reach_append]
          rfl

variable {is32Bit}

/-- There is no closure behind a leaf without a size. -/
theorem closure_none {before : List Leaf} {leaf : Leaf} {later : List Leaf}
    (hnames : ∀ other ∈ before, other.name ≠ leaf.name)
    (hunsized : ∃ other ∈ before, other.kind is32Bit = .unsized) :
    (walkLeaves is32Bit (before ++ leaf :: later) {}).format.tryGetFieldDataClosure leaf.name =
      none := by
  obtain ⟨after, hfields⟩ := walkLeaves_split is32Bit before leaf later
  have hother := fieldNames_ne is32Bit hnames
  change (walkLeaves is32Bit (before ++ leaf :: later) {}).format.tryGetFieldDataClosure
    (leaf.field is32Bit (walkLeaves is32Bit before {}).offset).name = none
  rw [tryGetFieldDataClosure_eq hfields hother, closureBehind]
  rcases walkLeaves_passed is32Bit before with ⟨-, hnone⟩ | ⟨hsized, -⟩
  · rw [hnone]
    rfl
  · obtain ⟨other, hmem, hkind⟩ := hunsized
    exact absurd hkind (hsized other hmem)

/-- **The closure of a leaf.** Behind leaves of a size it reads what its kind finds where their
kinds lead. -/
theorem closure_some {before : List Leaf} {leaf : Leaf} {later : List Leaf}
    (hnames : ∀ other ∈ before, other.name ≠ leaf.name)
    (hsized : ∀ other ∈ before, other.kind is32Bit ≠ .unsized) {format : EventFormat}
    (hformat : (walkLeaves is32Bit (before ++ leaf :: later) {}).format = format) :
    ∃ closure, format.tryGetFieldDataClosure leaf.name = some closure ∧ ∀ data,
      (∀ p, format.readOffset leaf.name data = some p → p ≤ data.length) ∧
      (format.readOffset leaf.name data).map data.drop =
        reach (before.map (·.kind is32Bit)) data ∧
      closure data =
        ((reach (before.map (·.kind is32Bit)) data).map (leaf.kind is32Bit).find).getD [] := by
  subst hformat
  obtain ⟨after, hfields⟩ := walkLeaves_split is32Bit before leaf later
  have hother := fieldNames_ne is32Bit hnames
  let field := leaf.field is32Bit (walkLeaves is32Bit before {}).offset
  have hkept : InfoKept (field.typeName, field.location, field.size) :=
    leafInfo_kept is32Bit leaf.prop
  obtain ⟨size, hsize⟩ := closureSize_of_kept hkept
  rcases walkLeaves_passed is32Bit before with
    ⟨⟨other, hmem, hkind⟩, -⟩ | ⟨-, offset, skips, hsome, hseen, hrun, hpos⟩
  · exact absurd hkind (hsized other hmem)
  have hclosure := (tryGetFieldDataClosure_eq hfields hother).trans (closureBehind_eq hsome)
  rw [hsize, Option.map_some] at hclosure
  refine ⟨_, hclosure, fun data => ?_⟩
  obtain ⟨hget, hbehind⟩ := getField_split hfields hother
  -- the walk's offset is that of the format
  have hread : (walkLeaves is32Bit (before ++ leaf :: later) {}).format.readOffset leaf.name data =
      position (offset, skips) data := by
    have hoffset : (if skips.isEmpty then field.offset else offset) = offset := by
      split_ifs with hnil
      · have hnil := List.isEmpty_iff.mp hnil
        change Walk.offset _ = offset
        rw [Walk.offset, hseen.mp hnil, ← hrun hnil]
        rfl
      · rfl
    unfold readOffset
    change (getField _ field.name).bind _ = _
    rw [hget, Option.bind_some]
    change ((List.takeWhile (·.name ≠ field.name) _).foldlM passField (0, [])).bind _ = _
    rw [hbehind, hsome]
    exact congrArg (fun offset => position (offset, skips) data) hoffset
  have hle : ∀ p, position (offset, skips) data = some p → p ≤ data.length := fun p hp =>
    position_le hp
  rw [hread, ← hpos]
  refine ⟨hle, rfl, ?_⟩
  obtain ⟨found, hfound, size', hsize', hreads⟩ := closure_reads hclosure
  have hfound := hget.symm.trans hfound
  cases hfound
  rw [hreads data]
  change ((EventFormat.readOffset _ leaf.name data).map _).getD [] = _
  rw [hread]
  cases hp : position (offset, skips) data with
  | none => rfl
  | some p => exact getData_kind hkept hsize' (hle p hp)

end Format

end OneCollect.Tdh
