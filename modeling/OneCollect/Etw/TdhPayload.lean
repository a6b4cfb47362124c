import OneCollect.Etw.TdhFields

/-! Payloads laid out by a property tree. The leaves of the tree lie in the payload one after
another. Scalars, strings with a zero and counted strings lie there as their in-types say; other
properties (arrays, parameterised lengths, binaries, members of repeated structs) may lie there in
any way. The walker knows a leaf by its `kind` only. `decodes_iff` says for which payloads every
closure of the schema reads the bytes of its own property. -/

namespace OneCollect.Tdh
open Theory EventFormat

/-! ## Payloads -/

/-- A leaf in a payload: the bytes it takes there, and those that are its value. -/
structure Placed where
  leaf : Leaf
  seg : List UInt8
  own : List UInt8
  deriving DecidableEq, Repr

def payload (placed : List Placed) : List UInt8 := placed.flatMap (·.seg)

namespace InType

/-! In-types of single values that Windows has and the schema does not know. -/

def manifestCountedString : Nat := 22
def manifestCountedAnsiString : Nat := 23
def unicodeChar : Nat := 306
def ansiChar : Nat := 307
def sizeT : Nat := 308

end InType

def unknownIntypes : List Nat :=
  [InType.manifestCountedString, InType.manifestCountedAnsiString, InType.unicodeChar,
    InType.ansiChar, InType.sizeT]

def scalarSizes (is32Bit : Bool) : List (Nat × Nat) :=
  [(InType.int8, 1), (InType.uint8, 1), (InType.int16, 2), (InType.uint16, 2), (InType.int32, 4),
    (InType.uint32, 4), (InType.int64, 8), (InType.uint64, 8), (InType.float, 4),
    (InType.double, 8), (InType.boolean, 4), (InType.guid, 16),
    (InType.pointer, if is32Bit then 4 else 8), (InType.fileTime, 8), (InType.systemTime, 16),
    (InType.hexInt32, 4), (InType.hexInt64, 8)]

namespace Leaf

variable (is32Bit : Bool) (leaf : Leaf)

def scalarSize : Option Nat := (scalarSizes is32Bit).lookup leaf.prop.inType

/-- One value, with no number of it or length elsewhere in the payload. -/
def Single : Prop :=
  leaf.prop.Single ∧ ¬ leaf.prop.has propertyParamLength ∧ leaf.repeated = false

instance : Decidable leaf.Single := inferInstanceAs (Decidable (_ ∧ _ ∧ _))

/-- A scalar or a string of any sort. -/
def ScalarOrString : Prop :=
  leaf.Single ∧ ((leaf.scalarSize is32Bit).isSome ∨ leaf.prop.inType ∈ variableIntypes ∨
    leaf.prop.inType ∈ unknownIntypes)

/-- A scalar of its size, or a string whose end its in-type tells: by a zero or a count. -/
def Plain : Prop :=
  leaf.Single ∧
    ((∃ size, leaf.scalarSize is32Bit = some size ∧
      (leaf.prop.length = 0 ∨ leaf.prop.length = size)) ∨
    leaf.prop.inType ∈ [InType.ansiString, InType.unicodeString, InType.countedString,
      InType.countedAnsiString] ∧ leaf.prop.length = 0)

end Leaf

def unitBytes (units : List (UInt8 × UInt8)) : List UInt8 :=
  units.flatMap fun unit => [unit.1, unit.2]

/-- A plain leaf takes the bytes that its in-type says. -/
structure Placed.LaidOut (is32Bit : Bool) (p : Placed) : Prop where
  scalar : ∀ size, p.leaf.scalarSize is32Bit = some size → p.seg.length = size ∧ p.own = p.seg
  ansi : p.leaf.prop.inType = InType.ansiString → 0 ∉ p.own ∧ p.seg = p.own ++ [0]
  wide : p.leaf.prop.inType = InType.unicodeString → ∃ units : List (UInt8 × UInt8),
    (0, 0) ∉ units ∧ p.own = unitBytes units ∧ p.seg = p.own ++ [0, 0]
  counted : p.leaf.prop.inType ∈ [InType.countedString, InType.countedAnsiString] →
    p.own.length < 2 ^ 16 ∧ p.seg = toLe 2 p.own.length ++ p.own

/-! ## Plain leaves -/

section Plain

variable {is32Bit : Bool} {leaf : Leaf}

theorem kind_of_single (h : leaf.Single) (is32Bit : Bool) :
    leaf.kind is32Bit =
      if leaf.prop.inType ∉ variableIntypes ∧ 0 < leaf.prop.length then .fixed leaf.prop.length
      else Kind.of (intypeToFieldInfo leaf.prop.inType is32Bit).2.1
        (intypeToFieldInfo leaf.prop.inType is32Bit).2.2 := by
  obtain ⟨⟨hcount, -⟩, hlength, -⟩ := h
  unfold Leaf.kind leafInfo explicitLen
  rw [if_neg (fun h => hcount h.1), if_pos hlength]
  by_cases hvariable : leaf.prop.inType ∈ variableIntypes
  · rw [if_pos hvariable, if_neg (fun h => h.1 hvariable)]
  · rw [if_neg hvariable]
    by_cases hlen : 0 < leaf.prop.length
    · rw [if_pos hlen, if_pos ⟨hvariable, hlen⟩]
      exact if_pos hlen.ne'
    · rw [if_neg hlen, if_neg (fun h => hlen h.2)]

theorem scalarSize_mem {size : Nat} (h : leaf.scalarSize is32Bit = some size) :
    (leaf.prop.inType, size) ∈ scalarSizes is32Bit := by
  obtain ⟨before, after, hsplit, -⟩ := List.lookup_eq_some_iff.mp h
  rw [hsplit]
  exact List.mem_append_right _ List.mem_cons_self

/-- The schema knows the sizes of scalars. -/
theorem scalar_fieldInfo {size : Nat} (h : leaf.scalarSize is32Bit = some size) :
    0 < size ∧ leaf.prop.inType ∉ variableIntypes ∧
      (intypeToFieldInfo leaf.prop.inType is32Bit).2 = (.static, size) := by
  have htable : ∀ is32Bit, ∀ entry ∈ scalarSizes is32Bit, 0 < entry.2 ∧
      entry.1 ∉ variableIntypes ∧ (intypeToFieldInfo entry.1 is32Bit).2 = (.static, entry.2) := by
    decide
  exact htable is32Bit _ (scalarSize_mem h)

theorem kind_of_scalar (h : leaf.Single) {size : Nat} (hsize : leaf.scalarSize is32Bit = some size)
    (hlength : leaf.prop.length = 0 ∨ leaf.prop.length = size) :
    leaf.kind is32Bit = .fixed size := by
  obtain ⟨hpos, hvariable, hinfo⟩ := scalar_fieldInfo hsize
  rw [kind_of_single h]
  rcases hlength with hlength | hlength
  · rw [if_neg (by omega), hinfo]
    exact if_pos hpos.ne'
  · rw [if_pos ⟨hvariable, by omega⟩, hlength]

theorem wide_zero {units : List (UInt8 × UInt8)} (h : (0, 0) ∉ units) (rest : List UInt8) :
    utf16Bytes (unitBytes units ++ [0, 0] ++ rest) = unitBytes units ∧
      utf16Skip (unitBytes units ++ [0, 0] ++ rest) = (unitBytes units ++ [0, 0]).length := by
  induction units with
  | nil => exact ⟨rfl, rfl⟩
  | cons unit units ih =>
    obtain ⟨a, b⟩ := unit
    have hunit : ¬ (a = 0 ∧ b = 0) := by
      rintro ⟨rfl, rfl⟩
      exact h List.mem_cons_self
    obtain ⟨hbytes, hskip⟩ := ih (fun hmem => h (List.mem_cons_of_mem _ hmem))
    have hcons : unitBytes ((a, b) :: units) = a :: b :: unitBytes units := rfl
    rw [hcons]
    simp only [List.cons_append]
    constructor
    · rw [utf16Bytes, if_neg hunit, hbytes]
    · rw [utf16Skip, if_neg hunit, hskip]
      rfl

/-- **Plain leaves are read as they lie.** -/
theorem plain_reads {p : Placed} (hplain : p.leaf.Plain is32Bit) (hlaid : p.LaidOut is32Bit)
    (rest : List UInt8) :
    (p.leaf.kind is32Bit).find (p.seg ++ rest) = p.own ∧
      (p.leaf.kind is32Bit).width (p.seg ++ rest) = some p.seg.length := by
  obtain ⟨hsingle, ⟨size, hsize, hlength⟩ | ⟨htype, hlength⟩⟩ := hplain
  · obtain ⟨hseg, hown⟩ := hlaid.scalar size hsize
    rw [kind_of_scalar hsingle hsize hlength, Kind.find, Kind.width, List.length_append,
      if_pos (by omega), if_pos (by omega), ← hseg, List.take_left, hown]
    exact ⟨rfl, rfl⟩
  · have hkind := kind_of_single hsingle is32Bit
    rw [if_neg (by omega)] at hkind
    rw [hkind]
    simp only [List.mem_cons, List.not_mem_nil, or_false] at htype
    rcases htype with htype | htype | htype
    · obtain ⟨hzero, hseg⟩ := hlaid.ansi htype
      obtain ⟨hfind, hskip⟩ := takeWhile_string hzero rest
      rw [htype, hseg]
      exact ⟨hfind, congrArg some hskip⟩
    · obtain ⟨units, hunits, hown, hseg⟩ := hlaid.wide htype
      obtain ⟨hfind, hskip⟩ := wide_zero hunits rest
      rw [htype, hseg, hown]
      exact ⟨hfind, congrArg some hskip⟩
    · have hcounted : Kind.of (intypeToFieldInfo p.leaf.prop.inType is32Bit).2.1
          (intypeToFieldInfo p.leaf.prop.inType is32Bit).2.2 = .counted := by
        rcases htype with htype | htype
        all_goals
          rw [htype]
          rfl
      obtain ⟨hlt, hseg⟩ := hlaid.counted (by simpa using htype)
      have hcount : fromLe ((p.seg ++ rest).take 2) = p.own.length := by
        rw [hseg, List.append_assoc, List.take_left' (length_toLe 2 _), fromLe_toLe_of_lt hlt]
      have hdrop : (p.seg ++ rest).drop 2 = p.own ++ rest := by
        rw [hseg, List.append_assoc, List.drop_left' (length_toLe 2 _)]
      have hlen : p.seg.length = 2 + p.own.length := by
        rw [hseg, List.length_append, length_toLe]
      rw [hcounted, Kind.find, Kind.width, hcount, hdrop, List.length_append, if_pos (by omega),
        if_pos (by omega), List.take_left, hlen]
      exact ⟨rfl, rfl⟩

end Plain

/-! ## Reading the payload -/

section Read

variable {is32Bit : Bool}

/-- The leaves up to the first one without a size: those that the format has a closure for. -/
def upToUnsized (is32Bit : Bool) : List Placed → List Placed
  | [] => []
  | p :: later =>
    if p.leaf.kind is32Bit = .unsized then [p] else p :: upToUnsized is32Bit later

theorem mem_upToUnsized {q : Placed} {placed : List Placed} :
    q ∈ upToUnsized is32Bit placed ↔ ∃ before later, placed = before ++ q :: later ∧
      ∀ other ∈ before, other.leaf.kind is32Bit ≠ .unsized := by
  induction placed with
  | nil => simp [upToUnsized]
  | cons p placed ih =>
    rw [upToUnsized]
    constructor
    · intro h
      split_ifs at h with hkind
      · rw [List.mem_singleton.mp h]
        exact ⟨[], placed, rfl, fun _ hmem => (List.not_mem_nil hmem).elim⟩
      · rcases List.mem_cons.mp h with rfl | h
        · exact ⟨[], placed, rfl, fun _ hmem => (List.not_mem_nil hmem).elim⟩
        · obtain ⟨before, later, rfl, hbefore⟩ := ih.mp h
          exact ⟨p :: before, later, rfl, List.forall_mem_cons.mpr ⟨hkind, hbefore⟩⟩
    · rintro ⟨before, later, hsplit, hbefore⟩
      cases before with
      | nil =>
        cases hsplit
        split_ifs
        all_goals exact List.mem_cons_self
      | cons other before =>
        cases hsplit
        obtain ⟨hkind, hbefore⟩ := List.forall_mem_cons.mp hbefore
        rw [if_neg hkind]
        exact List.mem_cons_of_mem _ (ih.mpr ⟨before, later, rfl, hbefore⟩)

/-- Each leaf that is not plain lies there as its kind is read: the kind finds the bytes of the
leaf, and takes as many as the leaf when other leaves follow. -/
def ReadAsLaid (is32Bit : Bool) : List Placed → Prop
  | [] => True
  | p :: later =>
    (p.leaf.Plain is32Bit → ReadAsLaid is32Bit later) ∧
    (¬ p.leaf.Plain is32Bit →
      (p.leaf.kind is32Bit).find (payload (p :: later)) = p.own ∧
      (p.leaf.kind is32Bit ≠ .unsized → later ≠ [] →
        match (p.leaf.kind is32Bit).width (payload (p :: later)) with
        | some width => width = p.seg.length ∧ ReadAsLaid is32Bit later
        -- past the end of the payload nothing is read
        | none => ∀ q ∈ upToUnsized is32Bit later, q.own = []))

/-- What the kinds find in the payload, one behind the other, are the bytes of the leaves, and
none of them is looked for in a wrong place. -/
def FoundInPlace (is32Bit : Bool) (placed : List Placed) : Prop :=
  ∀ before p later, placed = before ++ p :: later →
    (∀ q ∈ before, q.leaf.kind is32Bit ≠ .unsized) →
    (∀ rest, reach (before.map (·.leaf.kind is32Bit)) (payload placed) = some rest →
      rest.length = (payload (p :: later)).length) ∧
    ((reach (before.map (·.leaf.kind is32Bit)) (payload placed)).map
      (p.leaf.kind is32Bit).find).getD [] = p.own

/-- One leaf, and the leaves behind it. -/
theorem foundInPlace_cons (p : Placed) (later : List Placed) :
    FoundInPlace is32Bit (p :: later) ↔
      (p.leaf.kind is32Bit).find (payload (p :: later)) = p.own ∧
      (p.leaf.kind is32Bit ≠ .unsized → later ≠ [] →
        match (p.leaf.kind is32Bit).width (payload (p :: later)) with
        | some width => width = p.seg.length ∧ FoundInPlace is32Bit later
        | none => ∀ q ∈ upToUnsized is32Bit later, q.own = []) := by
  have hreach : ∀ before, reach ((p :: before).map (·.leaf.kind is32Bit)) (payload (p :: later)) =
      ((p.leaf.kind is32Bit).width (payload (p :: later))).bind fun width =>
        reach (before.map (·.leaf.kind is32Bit)) ((payload (p :: later)).drop width) :=
    fun before => rfl
  have hdrop : (payload (p :: later)).drop p.seg.length = payload later := List.drop_left
  constructor
  · intro h
    obtain ⟨-, hfind⟩ := h [] p later rfl (fun _ hmem => (List.not_mem_nil hmem).elim)
    refine ⟨hfind, fun hkind hlater => ?_⟩
    have hsized : ∀ before : List Placed, (∀ q ∈ before, q.leaf.kind is32Bit ≠ .unsized) →
        ∀ q ∈ p :: before, q.leaf.kind is32Bit ≠ .unsized :=
      fun before hbefore => List.forall_mem_cons.mpr ⟨hkind, hbefore⟩
    cases hwidth : (p.leaf.kind is32Bit).width (payload (p :: later)) with
    | none =>
      intro q hq
      obtain ⟨before, after, rfl, hbefore⟩ := mem_upToUnsized.mp hq
      obtain ⟨-, hown⟩ := h (p :: before) q after rfl (hsized before hbefore)
      rw [hreach, hwidth] at hown
      exact hown.symm
    | some width =>
      have hle := Kind.width_le hwidth
      -- the next leaf tells how far the kind leads
      obtain ⟨q, after, rfl⟩ := List.exists_cons_of_ne_nil hlater
      obtain ⟨hnext, -⟩ := h [p] q after rfl (hsized [] fun _ hmem => (List.not_mem_nil hmem).elim)
      have hnext := hnext _ (by rw [hreach, hwidth]; rfl)
      have hlength : (payload (p :: q :: after)).length =
          p.seg.length + (payload (q :: after)).length := List.length_append
      rw [List.length_drop, hlength] at hnext
      have hseg : width = p.seg.length := by omega
      refine ⟨hseg, fun before r after' hsplit hbefore => ?_⟩
      have hr := h (p :: before) r after' (congrArg _ hsplit) (hsized before hbefore)
      rw [hreach, hwidth, Option.bind_some, hseg, hdrop] at hr
      exact hr
  · rintro ⟨hfind, hlater⟩ before q after hsplit hbefore
    cases before with
    | nil =>
      cases hsplit
      refine ⟨fun rest hrest => ?_, hfind⟩
      cases hrest
      rfl
    | cons first before =>
      obtain ⟨rfl, hafter⟩ := List.cons.inj hsplit
      obtain ⟨hkind, hbefore⟩ := List.forall_mem_cons.mp hbefore
      have hlater := hlater hkind (by simp [hafter])
      rw [hreach]
      cases hwidth : (p.leaf.kind is32Bit).width (payload (p :: later)) with
      | none =>
        rw [hwidth] at hlater
        refine ⟨fun rest hrest => (by cases hrest), ?_⟩
        exact (hlater q (mem_upToUnsized.mpr ⟨before, after, hafter, hbefore⟩)).symm
      | some width =>
        rw [hwidth] at hlater
        obtain ⟨rfl, hfound⟩ := hlater
        rw [Option.bind_some, hdrop]
        exact hfound before q after hafter hbefore

theorem foundInPlace_iff {placed : List Placed}
    (hlaid : ∀ p ∈ placed, p.leaf.Plain is32Bit → p.LaidOut is32Bit) :
    FoundInPlace is32Bit placed ↔ ReadAsLaid is32Bit placed := by
  induction placed with
  | nil =>
    refine iff_of_true (fun before p later hsplit => ?_) trivial
    exact absurd hsplit.symm (by simp)
  | cons p later ih =>
    obtain ⟨hp, hlater⟩ := List.forall_mem_cons.mp hlaid
    have ih := ih hlater
    rw [foundInPlace_cons, ReadAsLaid]
    by_cases hplain : p.leaf.Plain is32Bit
    · obtain ⟨hfind, hwidth⟩ := plain_reads hplain (hp hplain) (payload later)
      have hpayload : payload (p :: later) = p.seg ++ payload later := rfl
      have hkind : p.leaf.kind is32Bit ≠ .unsized := by
        intro hkind
        rw [hkind] at hwidth
        cases hwidth
      rw [hpayload, hfind, hwidth, ih]
      constructor
      · rintro ⟨-, h⟩
        refine ⟨fun _ => ?_, fun h => absurd hplain h⟩
        by_cases hnil : later = []
        · rw [hnil]
          trivial
        · exact (h hkind hnil).2
      · rintro ⟨h, -⟩
        exact ⟨rfl, fun _ _ => ⟨rfl, h hplain⟩⟩
    · rw [ih]
      exact ⟨fun h => ⟨fun hp => absurd hp hplain, fun _ => h⟩, fun h => h.2 hplain⟩

/-- The property of a schema: the closures of its fields yield the bytes of the leaves, none of
them reads from a wrong offset, and behind scalars, strings and structs of those every scalar and
string has a closure. -/
def Decodes (is32Bit : Bool) (format : EventFormat) (placed : List Placed) : Prop :=
  ∀ before p later, placed = before ++ p :: later →
    (∀ closure, format.tryGetFieldDataClosure p.leaf.name = some closure →
      closure (payload placed) = p.own ∧
        ∀ offset, format.readOffset p.leaf.name (payload placed) = some offset →
          offset = (payload before).length) ∧
    ((∀ q ∈ before ++ [p], q.leaf.ScalarOrString is32Bit) →
      ∃ closure, format.tryGetFieldDataClosure p.leaf.name = some closure)

/-- No scalar or string comes behind one of an in-type that the schema does not know and TDH gives
no length for, when there are only such before it. -/
def IntypesKnown (is32Bit : Bool) (placed : List Placed) : Prop :=
  ∀ before p later, placed = before ++ p :: later →
    (∀ q ∈ before ++ [p], q.leaf.ScalarOrString is32Bit) →
    ∀ q ∈ before, q.leaf.prop.inType ∈ unknownIntypes → 0 < q.leaf.prop.length

/-- A scalar or string is without a size only when its in-type is not known. -/
theorem unsized_iff {leaf : Leaf} (h : leaf.ScalarOrString is32Bit) :
    leaf.kind is32Bit = .unsized ↔
      leaf.prop.inType ∈ unknownIntypes ∧ leaf.prop.length = 0 := by
  obtain ⟨hsingle, htype⟩ := h
  have hunknown : ∀ inType ∈ unknownIntypes, inType ∉ variableIntypes ∧
      ∀ is32Bit, Kind.of (intypeToFieldInfo inType is32Bit).2.1
        (intypeToFieldInfo inType is32Bit).2.2 = .unsized := by
    decide
  have hvariable : ∀ inType ∈ variableIntypes, inType ∉ unknownIntypes ∧
      ∀ is32Bit, Kind.of (intypeToFieldInfo inType is32Bit).2.1
        (intypeToFieldInfo inType is32Bit).2.2 ≠ .unsized := by
    decide
  have hscalar : ∀ is32Bit, ∀ entry ∈ scalarSizes is32Bit, entry.1 ∉ unknownIntypes := by
    decide
  rw [kind_of_single hsingle]
  rcases htype with hsize | htype | htype
  · obtain ⟨size, hsize⟩ := Option.isSome_iff_exists.mp hsize
    obtain ⟨hpos, -, hinfo⟩ := scalar_fieldInfo hsize
    refine iff_of_false ?_ fun h => hscalar is32Bit _ (scalarSize_mem hsize) h.1
    split_ifs with hlen
    · exact fun h => by cases h
    · have hkind : Kind.of .static size = .fixed size := if_pos hpos.ne'
      rw [hinfo, hkind]
      exact fun h => by cases h
  · obtain ⟨hnot, hkind⟩ := hvariable _ htype
    refine iff_of_false ?_ fun h => hnot h.1
    rw [if_neg (fun h => h.1 htype)]
    exact hkind is32Bit
  · obtain ⟨hnot, hkind⟩ := hunknown _ htype
    by_cases hlen : 0 < leaf.prop.length
    · rw [if_pos ⟨hnot, hlen⟩]
      exact iff_of_false (fun h => by cases h) fun h => by omega
    · rw [if_neg (fun h => hlen h.2)]
      exact iff_of_true (hkind is32Bit) ⟨htype, by omega⟩

theorem names_before {before later : List Placed} {p : Placed}
    (hnames : ((before ++ p :: later).map (·.leaf.name)).Nodup) :
    ∀ other ∈ before.map (·.leaf), other.name ≠ p.leaf.name := by
  intro other hother
  obtain ⟨q, hq, rfl⟩ := List.mem_map.mp hother
  rw [List.map_append, List.map_cons] at hnames
  obtain ⟨-, -, hne⟩ := List.nodup_append.mp hnames
  exact hne _ (List.mem_map_of_mem hq) _ List.mem_cons_self

/-- The closure of a leaf, with a size for every leaf before it: where it reads, and what. -/
theorem closure_at {before later : List Placed} {p : Placed}
    (hnames : ((before ++ p :: later).map (·.leaf.name)).Nodup)
    (hsized : ∀ q ∈ before, q.leaf.kind is32Bit ≠ .unsized) {format : EventFormat}
    (hformat : (walkLeaves is32Bit ((before ++ p :: later).map (·.leaf)) {}).format = format) :
    ∃ closure, format.tryGetFieldDataClosure p.leaf.name = some closure ∧
      ((closure (payload (before ++ p :: later)) = p.own ∧
          ∀ offset, format.readOffset p.leaf.name (payload (before ++ p :: later)) = some offset →
            offset = (payload before).length) ↔
        (∀ rest, reach (before.map (·.leaf.kind is32Bit)) (payload (before ++ p :: later)) =
            some rest → rest.length = (payload (p :: later)).length) ∧
          ((reach (before.map (·.leaf.kind is32Bit)) (payload (before ++ p :: later))).map
            (p.leaf.kind is32Bit).find).getD [] = p.own) := by
  rw [List.map_append, List.map_cons] at hformat
  have hsized : ∀ other ∈ before.map (·.leaf), other.kind is32Bit ≠ .unsized := by
    intro other hother
    obtain ⟨q, hq, rfl⟩ := List.mem_map.mp hother
    exact hsized q hq
  obtain ⟨closure, hclosure, hreads⟩ := closure_some (names_before hnames) hsized hformat
  refine ⟨closure, hclosure, ?_⟩
  obtain ⟨hle, hdrop, hdata⟩ := hreads (payload (before ++ p :: later))
  rw [List.map_map] at hdrop hdata
  have hlength : (payload (before ++ p :: later)).length =
      (payload before).length + (payload (p :: later)).length := by
    rw [payload, List.flatMap_append, List.length_append]
    rfl
  rw [hdata, and_comm]
  refine and_congr ?_ Iff.rfl
  rw [show (fun q : Placed => q.leaf.kind is32Bit) = (·.kind is32Bit) ∘ (·.leaf) from rfl, ← hdrop]
  constructor
  · intro h rest hrest
    obtain ⟨offset, hoffset, rfl⟩ := Option.map_eq_some_iff.mp hrest
    rw [List.length_drop, h offset hoffset]
    omega
  · intro h offset hoffset
    have hrest := h _ (by rw [hoffset]; rfl)
    have hle := hle offset hoffset
    rw [List.length_drop] at hrest
    omega

/-- **Where a schema decodes.** The payload is read as it lies, and no in-type that the schema
does not know stands before a scalar or string. -/
theorem decodes_iff {placed : List Placed}
    (hlaid : ∀ p ∈ placed, p.leaf.Plain is32Bit → p.LaidOut is32Bit)
    (hnames : (placed.map (·.leaf.name)).Nodup) :
    Decodes is32Bit (walkLeaves is32Bit (placed.map (·.leaf)) {}).format placed ↔
      ReadAsLaid is32Bit placed ∧ IntypesKnown is32Bit placed := by
  rw [← foundInPlace_iff hlaid]
  -- behind a leaf without a size there is no closure
  have hnone : ∀ before p later, placed = before ++ p :: later →
      (∃ q ∈ before, q.leaf.kind is32Bit = .unsized) →
      (walkLeaves is32Bit (placed.map (·.leaf)) {}).format.tryGetFieldDataClosure p.leaf.name =
        none := by
    rintro before p later rfl ⟨q, hq, hkind⟩
    rw [List.map_append, List.map_cons]
    exact closure_none (names_before hnames) ⟨q.leaf, List.mem_map_of_mem hq, hkind⟩
  constructor
  · intro h
    constructor
    · intro before p later hsplit hsized
      subst hsplit
      obtain ⟨closure, hclosure, hiff⟩ := closure_at hnames hsized rfl
      exact hiff.mp ((h before p later rfl).1 closure hclosure)
    · intro before p later hsplit hall q hq hunknown
      by_contra hlength
      obtain ⟨closure, hclosure⟩ := (h before p later hsplit).2 hall
      have hkind := (unsized_iff (hall q (List.mem_append_left _ hq))).mpr
        ⟨hunknown, Nat.eq_zero_of_not_pos hlength⟩
      rw [hnone before p later hsplit ⟨q, hq, hkind⟩] at hclosure
      cases hclosure
  · rintro ⟨hfound, hknown⟩ before p later hsplit
    constructor
    · intro closure hclosure
      have hsized : ∀ q ∈ before, q.leaf.kind is32Bit ≠ .unsized := by
        intro q hq hkind
        rw [hnone before p later hsplit ⟨q, hq, hkind⟩] at hclosure
        cases hclosure
      have hfound := hfound before p later hsplit hsized
      subst hsplit
      obtain ⟨closure', hclosure', hiff⟩ := closure_at hnames hsized rfl
      cases hclosure.symm.trans hclosure'
      exact hiff.mpr hfound
    · intro hall
      have hsized : ∀ q ∈ before, q.leaf.kind is32Bit ≠ .unsized := by
        intro q hq hkind
        obtain ⟨hunknown, hlength⟩ := (unsized_iff (hall q (List.mem_append_left _ hq))).mp hkind
        exact (hknown before p later hsplit hall q hq hunknown).ne' hlength
      subst hsplit
      obtain ⟨closure, hclosure, -⟩ := closure_at hnames hsized rfl
      exact ⟨closure, hclosure⟩

end Read

/-! ## Schemas of property trees -/

/-- A name, and a number in a struct. -/
def greeting : TraceEventInfo :=
  ⟨"Greeting", 2, [{ name := "Name", flags := 0, word0 := InType.ansiString },
    { name := "At", flags := propertyStruct, word0 := 2, word1 := 1 },
    { name := "Line", flags := 0, word0 := InType.uint16, length := 2 }]⟩

def greetingPlaced : List Placed :=
  [⟨⟨"Name", { name := "Name", flags := 0, word0 := InType.ansiString }, false⟩,
      [72, 105, 0], [72, 105]⟩,
    ⟨⟨"At.Line", { name := "Line", flags := 0, word0 := InType.uint16, length := 2 }, false⟩,
      [7, 0], [7, 0]⟩]

theorem greeting_laidOut : ∀ p ∈ greetingPlaced, p.leaf.Plain false ∧ p.LaidOut false := by
  intro p hp
  simp only [greetingPlaced, List.mem_cons, List.not_mem_nil, or_false] at hp
  rcases hp with rfl | rfl
  · exact ⟨⟨by decide, Or.inr (by decide)⟩, fun _ h => (by cases h), fun _ => (by decide),
      fun h => (by cases h), fun h => (by revert h; decide)⟩
  · refine ⟨⟨by decide, Or.inl ⟨2, rfl, Or.inr rfl⟩⟩, fun size h => ?_, fun h => (by cases h),
      fun h => (by cases h), fun h => (by revert h; decide)⟩
    cases h
    exact ⟨rfl, rfl⟩

/-- Two numbers in an array (flag `PropertyParamFixedCount`), and a number. -/
def pair : TraceEventInfo :=
  ⟨"Pair", 2, [{ name := "Sizes", flags := 32, word0 := InType.uint32, count := 2, length := 4 },
    { name := "Id", flags := 0, word0 := InType.uint32, length := 4 }]⟩

def pairPlaced : List Placed :=
  [⟨⟨"Sizes", { name := "Sizes", flags := 32, word0 := InType.uint32, count := 2, length := 4 },
      false⟩, [1, 0, 0, 0, 2, 0, 0, 0], [1, 0, 0, 0, 2, 0, 0, 0]⟩,
    ⟨⟨"Id", { name := "Id", flags := 0, word0 := InType.uint32, length := 4 }, false⟩,
      [3, 0, 0, 0], [3, 0, 0, 0]⟩]

end OneCollect.Tdh
