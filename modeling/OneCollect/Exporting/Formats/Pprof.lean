import OneCollect.Exporting.Formats.Traversal
import OneCollect.Theory.Wire

/-! The profile of `formats/pprof.rs`, written and read.

`toPprof` writes a graph as a profile: a sample for each node with a value, which names the nodes
up to the root as its locations; the locations with their mappings and functions; the strings.
`readProfile` reads a file by its field numbers. `toPprof_reads` says that what was written is
read back: the pairs of paths and values, each as often as the graph has it, in a file in which
every id that is referred to is defined once (`Profile.Closed`). The writer takes all bytes. -/

namespace OneCollect.Exporting
open Theory Wire

/-! ## Writing -/

section Writing

def pprofValueType (typeId unitId : Nat) : List UInt8 :=
  writeInt64 1 (toI64 typeId) ++ writeInt64 2 (toI64 unitId)

def writeValueType (fieldNumber typeId unitId : Nat) : List UInt8 :=
  writeBytes fieldNumber (pprofValueType typeId unitId)

def writeSampleType (typeId unitId : Nat) : List UInt8 := writeValueType 1 typeId unitId

def pprofSample (locationIds : List Nat) (value : Nat) : List UInt8 :=
  writeRepeatedPackedUint64 1 locationIds ++ writeInt64 2 (toI64 value)

def writeSample (locationIds : List Nat) (value : Nat) : List UInt8 :=
  writeBytes 2 (pprofSample locationIds value)

/-- From the leaf down to the root. A parent has a smaller id, so `fuel` above the id is enough. -/
def locationIds (nodes : List Node) : (fuel nodeId : Nat) → (currNode : Node) → Exec (List Nat)
  | 0, _, _ => panicked
  | fuel + 1, nodeId, currNode =>
    if nodeId = 0 then .ok []
    else do
      let parent ← getAt nodes currNode.parentId
      let locations ← locationIds nodes fuel currNode.parentId parent
      .ok (nodeId :: locations)

def writeSamples (nodes : List Node) : Exec (List UInt8) :=
  popLoop nodes (·.childIds) (fun out id node =>
    if node.exclusive > 0 then do
      let locations ← locationIds nodes (id + 1) id node
      .ok (out ++ writeSample locations node.exclusive)
    else .ok out) nodes.length [0] []

def pprofMapping (id memStart memEnd fileOffset fileId buildId : Nat) : List UInt8 :=
  writeUint64 1 id ++ writeUint64 2 memStart ++ writeUint64 3 memEnd ++ writeUint64 4 fileOffset ++
    writeUint64 5 fileId ++ (if buildId ≠ 0 then writeUint64 6 buildId else []) ++
    -- functions
    writeBool 7 true ++
    -- filenames
    (if fileId ≠ 0 then writeBool 8 true else []) ++
    -- line numbers
    writeBool 9 true

def writeMapping (id memStart memEnd fileOffset fileId buildId : Nat) : List UInt8 :=
  writeBytes 3 (pprofMapping id memStart memEnd fileOffset fileId buildId)

/-- Mappings must be non-zero. -/
def writeMappings (resolvables : List Resolvable) : List UInt8 :=
  resolvables.zipIdx.flatMap fun (resolvable, id) =>
    writeMapping (id + 1) 0 0xFFFF800000000000 0 resolvable.nameId resolvable.symbolId

def pprofLocation (id mappingId address : Nat) (functionId : Option Nat) : List UInt8 :=
  writeUint64 1 id ++ writeUint64 2 mappingId ++ writeUint64 3 address ++
    match functionId with
    | some functionId =>
      let len := (writeUint64 1 functionId).length
      writeTag 4 2 ++ toUleb len ++ writeUint64 1 functionId
    | none => []

def writeLocation (id mappingId address : Nat) (functionId : Option Nat) : List UInt8 :=
  writeBytes 4 (pprofLocation id mappingId address functionId)

def writeLocations (nodes : List Node) : Exec (List UInt8) :=
  popLoop nodes (·.childIds) (fun out id node =>
    if id ≠ 0 then
      let target := node.target
      let functionId := if target.hasMethod then some id else none
      .ok (out ++ writeLocation id (target.resolvableId + 1) target.address functionId)
    else .ok out) nodes.length [0] []

def pprofFunction (id nameId : Nat) : List UInt8 := writeUint64 1 id ++ writeUint64 2 nameId

def writeFunction (id nameId : Nat) : List UInt8 := writeBytes 5 (pprofFunction id nameId)

def writeFunctions (nodes : List Node) : Exec (List UInt8) :=
  popLoop nodes (·.childIds) (fun out id node =>
    if id ≠ 0 then
      if node.target.hasMethod then .ok (out ++ writeFunction id node.target.methodId)
      else .ok out
    else .ok out) nodes.length [0] []

/-- The strings from id 0 on, up to the first id that is not known. -/
def writeStrings (strings : InternedStrings) : List UInt8 :=
  strings.strings.flatMap fun value => writeBytes 6 (encodeUtf8 value.toList)

/-- The bytes of `to_pprof`. -/
def NodeGraph.toPprof (self : NodeGraph) (typeId unitId : Nat) : Exec (List UInt8) := do
  let sampleType := writeSampleType typeId unitId
  let samples ← writeSamples self.nodes
  let mappings := writeMappings self.resolvables
  let locations ← writeLocations self.nodes
  let functions ← writeFunctions self.nodes
  .ok (sampleType ++ samples ++ mappings ++ locations ++ functions ++ writeStrings self.strings)

end Writing

/-! ## Reading -/

namespace Pprof

structure Sample where
  locationIds : List Nat
  values : List Int
  deriving DecidableEq, Repr

structure Mapping where
  id : Nat
  filename : Nat
  buildId : Nat
  deriving DecidableEq, Repr

structure Location where
  id : Nat
  mappingId : Nat
  address : Nat
  functionIds : List Nat
  deriving DecidableEq, Repr

structure Function where
  id : Nat
  name : Nat
  deriving DecidableEq, Repr

structure Profile where
  sampleTypes : List (Int × Int)
  samples : List Sample
  mappings : List Mapping
  locations : List Location
  functions : List Function
  strings : List String
  deriving DecidableEq, Repr

def readValueType (bytes : List UInt8) : Option (Int × Int) := do
  let fields ← readMessage bytes
  some (toI64 (scalar 1 fields), toI64 (scalar 2 fields))

def readSample (bytes : List UInt8) : Option Sample := do
  let fields ← readMessage bytes
  let locationIds ← (lens 1 fields).mapM readPacked
  some ⟨locationIds.flatten, (varints 2 fields).map toI64⟩

def readMapping (bytes : List UInt8) : Option Mapping := do
  let fields ← readMessage bytes
  some ⟨scalar 1 fields, scalar 5 fields, scalar 6 fields⟩

def readLine (bytes : List UInt8) : Option Nat := do
  let fields ← readMessage bytes
  some (scalar 1 fields)

def readLocation (bytes : List UInt8) : Option Location := do
  let fields ← readMessage bytes
  let functionIds ← (lens 4 fields).mapM readLine
  some ⟨scalar 1 fields, scalar 2 fields, scalar 3 fields, functionIds⟩

def readFunction (bytes : List UInt8) : Option Function := do
  let fields ← readMessage bytes
  some ⟨scalar 1 fields, scalar 2 fields⟩

def readProfile (bytes : List UInt8) : Option Profile := do
  let fields ← readMessage bytes
  let sampleTypes ← (lens 1 fields).mapM readValueType
  let samples ← (lens 2 fields).mapM readSample
  let mappings ← (lens 3 fields).mapM readMapping
  let locations ← (lens 4 fields).mapM readLocation
  let functions ← (lens 5 fields).mapM readFunction
  let strings ← (lens 6 fields).mapM decodeUtf8
  some { sampleTypes, samples, mappings, locations, functions, strings }

namespace Profile

/-- A function is a name; without one there is no method. -/
def methodId? (self : Profile) : (functionIds : List Nat) → Option Nat
  | [] => some 0
  | functionId :: _ => (self.functions.find? (·.id = functionId)).map (·.name)

/-- What a location stands for. The ids of the mappings are shifted by one. -/
def target? (self : Profile) (locationId : Nat) : Option Target := do
  let location ← self.locations.find? (·.id = locationId)
  let mapping ← self.mappings.find? (·.id = location.mappingId)
  let methodId ← self.methodId? location.functionIds
  some ⟨location.address, mapping.id - 1, methodId⟩

/-- The path of a sample from the root down, and its value. -/
def pathOf (self : Profile) (sample : Sample) : Option (List Target × Int) := do
  let targets ← sample.locationIds.mapM self.target?
  let value ← sample.values.head?
  some (targets.reverse, value)

def paths (self : Profile) : Option (List (List Target × Int)) := self.samples.mapM self.pathOf

/-- **Every id that is referred to is defined once.** The id of a string is its position. -/
structure Closed (self : Profile) : Prop where
  locations : ∀ sample ∈ self.samples, ∀ id ∈ sample.locationIds,
    (self.locations.map (·.id)).count id = 1
  mappings : ∀ location ∈ self.locations, (self.mappings.map (·.id)).count location.mappingId = 1
  functions : ∀ location ∈ self.locations, ∀ id ∈ location.functionIds,
    (self.functions.map (·.id)).count id = 1
  filenames : ∀ mapping ∈ self.mappings,
    mapping.filename < self.strings.length ∧ mapping.buildId < self.strings.length
  names : ∀ function ∈ self.functions, function.name < self.strings.length
  types : ∀ sampleType ∈ self.sampleTypes,
    (0 ≤ sampleType.1 ∧ sampleType.1 < self.strings.length) ∧
    (0 ≤ sampleType.2 ∧ sampleType.2 < self.strings.length)

end Profile

/-! ## What is written is read -/

/-- A field with a number. -/
abbrev uint (number value : Nat) : Field := ⟨number, .varint value⟩

theorem readValueType_eq {typeId unitId : Nat} (htype : typeId < 2 ^ 63) (hunit : unitId < 2 ^ 63) :
    readValueType (pprofValueType typeId unitId) = some ((typeId : Int), (unitId : Int)) := by
  have hbytes : pprofValueType typeId unitId =
      [uint 1 typeId, uint 2 unitId].flatMap Field.encode := by
    rw [pprofValueType, writeInt64, writeInt64, toU64_toI64 (by omega), toU64_toI64 (by omega)]
    simp [Field.encode]
  unfold readValueType
  rw [hbytes, readMessage_flatMap]
  show some (toI64 typeId, toI64 unitId) = _
  rw [toI64, if_pos htype, toI64, if_pos hunit]

theorem readSample_eq {value : Nat} (hvalue : value < 2 ^ 63) (locationIds : List Nat) :
    readSample (pprofSample locationIds value) = some ⟨locationIds, [(value : Int)]⟩ := by
  have hword : toU64 (toI64 value) = value := toU64_toI64 (by omega)
  have hsigned : toI64 value = value := if_pos hvalue
  unfold readSample pprofSample writeRepeatedPackedUint64 writeInt64
  rw [hword]
  by_cases hnil : locationIds = []
  · have hbytes : [] ++ writeUint64 2 value = [uint 2 value].flatMap Field.encode := by
      simp [Field.encode]
    rw [if_pos hnil, hbytes, readMessage_flatMap, hnil, ← hsigned]
    rfl
  · have hbytes : writeBytes 1 (locationIds.flatMap toUleb) ++ writeUint64 2 value =
        [⟨1, .bytes (locationIds.flatMap toUleb)⟩, uint 2 value].flatMap Field.encode := by
      simp [Field.encode]
    rw [if_neg hnil, hbytes, readMessage_flatMap, ← hsigned]
    show ([locationIds.flatMap toUleb].mapM readPacked >>= _) = _
    rw [List.mapM_cons, readPacked_flatMap]
    show some (⟨[locationIds].flatten, [toI64 value]⟩ : Sample) = _
    rw [List.flatten_singleton]

theorem readMapping_eq (id memStart memEnd fileOffset fileId buildId : Nat) :
    readMapping (pprofMapping id memStart memEnd fileOffset fileId buildId) =
      some ⟨id, fileId, buildId⟩ := by
  have hbytes : pprofMapping id memStart memEnd fileOffset fileId buildId =
      ([uint 1 id, uint 2 memStart, uint 3 memEnd, uint 4 fileOffset, uint 5 fileId] ++
        (if buildId ≠ 0 then [uint 6 buildId] else []) ++ [uint 7 1] ++
        (if fileId ≠ 0 then [uint 8 1] else []) ++ [uint 9 1]).flatMap Field.encode := by
    unfold pprofMapping
    split_ifs <;> simp [Field.encode, writeBool]
  rw [readMapping, hbytes, readMessage_flatMap]
  by_cases hbuild : buildId = 0
  · by_cases hfile : fileId = 0
    · simp [hbuild, hfile, scalar, varints, Field.varint?]
    · simp [hbuild, hfile, scalar, varints, Field.varint?]
  · by_cases hfile : fileId = 0
    · simp [hbuild, hfile, scalar, varints, Field.varint?]
    · simp [hbuild, hfile, scalar, varints, Field.varint?]

theorem readLocation_eq (id mappingId address : Nat) (functionId : Option Nat) :
    readLocation (pprofLocation id mappingId address functionId) =
      some ⟨id, mappingId, address, functionId.toList⟩ := by
  cases functionId with
  | none =>
    have hbytes : pprofLocation id mappingId address none =
        [uint 1 id, uint 2 mappingId, uint 3 address].flatMap Field.encode := by
      simp [pprofLocation, Field.encode]
    rw [readLocation, hbytes, readMessage_flatMap]
    rfl
  | some functionId =>
    have hbytes : pprofLocation id mappingId address (some functionId) =
        [uint 1 id, uint 2 mappingId, uint 3 address,
          ⟨4, .bytes (writeUint64 1 functionId)⟩].flatMap Field.encode := by
      simp [pprofLocation, Field.encode, writeBytes]
    have hline : writeUint64 1 functionId = [uint 1 functionId].flatMap Field.encode := by
      simp [Field.encode]
    rw [readLocation, hbytes, readMessage_flatMap]
    show ([writeUint64 1 functionId].mapM readLine >>= _) = _
    rw [List.mapM_cons, readLine, hline, readMessage_flatMap]
    rfl

theorem readFunction_eq (id nameId : Nat) :
    readFunction (pprofFunction id nameId) = some ⟨id, nameId⟩ := by
  have hbytes : pprofFunction id nameId = [uint 1 id, uint 2 nameId].flatMap Field.encode := by
    simp [pprofFunction, Field.encode]
  rw [readFunction, hbytes, readMessage_flatMap]
  rfl

/-! ## The file -/

section File

variable {g : NodeGraph}

def hasMethod (g : NodeGraph) (id : Nat) : Bool := (g.targetOf id).hasMethod

def sampleOf (g : NodeGraph) (id : Nat) : List UInt8 :=
  pprofSample (g.lineageOf id) (g.exclusiveOf id)

def locationOf (g : NodeGraph) (id : Nat) : List UInt8 :=
  pprofLocation id ((g.targetOf id).resolvableId + 1) (g.targetOf id).address
    (if hasMethod g id then some id else none)

def functionOf (g : NodeGraph) (id : Nat) : List UInt8 :=
  pprofFunction id (g.targetOf id).methodId

def mappingOf (entry : Resolvable × Nat) : List UInt8 :=
  pprofMapping (entry.2 + 1) 0 0xFFFF800000000000 0 entry.1.nameId entry.1.symbolId

/-- The nodes below the root with a method. -/
def called (g : NodeGraph) : List Nat := g.visited.filter fun id => id ≠ 0 ∧ hasMethod g id

/-- The fields of the file. -/
def fieldsOf (g : NodeGraph) (typeId unitId : Nat) : List Field :=
  repeated 1 (fun (type, unit) => pprofValueType type unit) [(typeId, unitId)] ++
    repeated 2 (sampleOf g) g.valued ++ repeated 3 mappingOf g.resolvables.zipIdx ++
    repeated 4 (locationOf g) g.located ++ repeated 5 (functionOf g) (called g) ++
    repeated 6 (fun value => encodeUtf8 value.toList) g.strings.strings

theorem locationIds_eq (h : g.Grown) {fuel id : Nat} (hid : id < g.nodes.length) (hfuel : id < fuel) :
    locationIds g.nodes fuel id (g.nodeAt id) = .ok (g.lineageOf id) := by
  induction fuel generalizing id with
  | zero => exact absurd hfuel (Nat.not_lt_zero id)
  | succ fuel ih =>
    rw [locationIds]
    by_cases hzero : id = 0
    · rw [if_pos hzero, hzero]
      rfl
    · have hpos := Nat.pos_of_ne_zero hzero
      have hlt : g.parentOf id < id := h.rooted.parent_lt id hpos hid
      have hparent : getAt g.nodes (g.nodeAt id).parentId = .ok (g.nodeAt (g.parentOf id)) :=
        getAt_eq_ok.mpr (NodeGraph.getElem?_eq_nodeAt (hlt.trans hid))
      have hrest := ih (hlt.trans hid) (hlt.trans_le (Nat.le_of_lt_succ hfuel))
      rw [if_neg hzero, hparent, ok_bind]
      change (locationIds g.nodes fuel (g.parentOf id) _ >>= _) = _
      rw [hrest, ok_bind]
      exact congrArg Except.ok (h.rooted.lineage_of_pos hpos hid).symm

theorem writeSamples_eq (h : g.Grown) :
    writeSamples g.nodes = .ok (g.valued.flatMap fun id => writeBytes 2 (sampleOf g id)) := by
  refine h.popLoop_flatMap (fun id => g.exclusiveOf id > 0) _ fun id hid out => ?_
  rw [locationIds_eq h hid (Nat.lt_succ_self id), ok_bind]
  change (if g.exclusiveOf id > 0 then _ else _) = _
  by_cases hvalue : g.exclusiveOf id > 0
  · rw [if_pos hvalue, if_pos (decide_eq_true hvalue)]
    rfl
  · rw [if_neg hvalue, if_neg (by simpa using hvalue)]

theorem writeLocations_eq (h : g.Grown) :
    writeLocations g.nodes = .ok (g.located.flatMap fun id => writeBytes 4 (locationOf g id)) := by
  refine h.popLoop_flatMap (fun id => id ≠ 0) _ fun id hid out => ?_
  by_cases hzero : id = 0
  · rw [if_neg (not_not_intro hzero), if_neg (by simpa using hzero)]
  · rw [if_pos hzero, if_pos (decide_eq_true hzero)]
    rfl

theorem writeFunctions_eq (h : g.Grown) :
    writeFunctions g.nodes = .ok ((called g).flatMap fun id => writeBytes 5 (functionOf g id)) := by
  refine h.popLoop_flatMap (fun id => id ≠ 0 ∧ hasMethod g id) _ fun id hid out => ?_
  by_cases hzero : id = 0
  · rw [if_neg (not_not_intro hzero), if_neg (by simp [hzero])]
  · rw [if_pos hzero]
    change (if hasMethod g id then _ else _) = _
    by_cases hmethod : hasMethod g id
    · rw [if_pos hmethod, if_pos (decide_eq_true ⟨hzero, hmethod⟩)]
      rfl
    · rw [if_neg hmethod, if_neg (by simp [hmethod])]

theorem toPprof_eq (h : g.Grown) (typeId unitId : Nat) :
    g.toPprof typeId unitId = .ok ((fieldsOf g typeId unitId).flatMap Field.encode) := by
  unfold NodeGraph.toPprof fieldsOf
  rw [writeSamples_eq h, ok_bind, writeLocations_eq h, ok_bind, writeFunctions_eq h, ok_bind]
  simp only [List.flatMap_append, encode_repeated, List.flatMap_singleton]
  rfl

/-! ### The profile -/

def shownSample (g : NodeGraph) (id : Nat) : Sample := ⟨g.lineageOf id, [(g.exclusiveOf id : Int)]⟩

def shownLocation (g : NodeGraph) (id : Nat) : Location :=
  ⟨id, (g.targetOf id).resolvableId + 1, (g.targetOf id).address,
    (if hasMethod g id then some id else none).toList⟩

def shownFunction (g : NodeGraph) (id : Nat) : Function := ⟨id, (g.targetOf id).methodId⟩

def shownMapping (entry : Resolvable × Nat) : Mapping :=
  ⟨entry.2 + 1, entry.1.nameId, entry.1.symbolId⟩

/-- The profile that a reader makes of the file. -/
def profileOf (g : NodeGraph) (typeId unitId : Nat) : Profile where
  sampleTypes := [((typeId : Int), (unitId : Int))]
  samples := g.valued.map (shownSample g)
  mappings := g.resolvables.zipIdx.map shownMapping
  locations := g.located.map (shownLocation g)
  functions := (called g).map (shownFunction g)
  strings := g.strings.strings

theorem readProfile_fieldsOf (hvalues : ∀ id, g.exclusiveOf id < 2 ^ 63) {typeId unitId : Nat}
    (htype : typeId < 2 ^ 63) (hunit : unitId < 2 ^ 63) :
    readProfile ((fieldsOf g typeId unitId).flatMap Field.encode) =
      some (profileOf g typeId unitId) := by
  have hsample (id : Nat) : readSample (sampleOf g id) = some (shownSample g id) :=
    readSample_eq (hvalues id) _
  have hmapping (entry : Resolvable × Nat) :
      readMapping (mappingOf entry) = some (shownMapping entry) :=
    readMapping_eq _ _ _ _ _ _
  have hlocation (id : Nat) : readLocation (locationOf g id) = some (shownLocation g id) :=
    readLocation_eq _ _ _ _
  have hfunction (id : Nat) : readFunction (functionOf g id) = some (shownFunction g id) :=
    readFunction_eq _ _
  have hstring (value : String) : decodeUtf8 (encodeUtf8 value.toList) = some (id value) := by
    rw [decodeUtf8_encodeUtf8, String.ofList_toList]
    rfl
  unfold readProfile
  rw [readMessage_flatMap]
  simp (disch := decide) only [fieldsOf, lens_append, lens_repeated, lens_repeated_of_ne,
    List.nil_append, List.append_nil, mapM_map_eq hsample, mapM_map_eq hmapping,
    mapM_map_eq hlocation, mapM_map_eq hfunction, mapM_map_eq hstring, List.map_id,
    Option.bind_eq_bind, Option.bind_some, List.map_cons, List.map_nil, List.mapM_cons,
    List.mapM_nil, readValueType_eq htype hunit]
  rfl

theorem map_id_mappings (resolvables : List Resolvable) :
    (resolvables.zipIdx.map shownMapping).map (·.id) =
      (List.range resolvables.length).map (· + 1) := by
  have hid : (·.id) ∘ shownMapping = (· + 1) ∘ Prod.snd := rfl
  rw [List.map_map, hid, ← List.map_map, List.zipIdx_map_snd, List.range_eq_range']

theorem find?_mapping {resolvables : List Resolvable} {i : Nat} (hi : i < resolvables.length) :
    ∃ mapping, (resolvables.zipIdx.map shownMapping).find? (·.id = i + 1) = some mapping ∧
      mapping.id = i + 1 := by
  have hmem : (resolvables[i], i) ∈ resolvables.zipIdx :=
    List.mem_zipIdx_iff_getElem?.mpr (List.getElem?_eq_getElem hi)
  have hsome : ((resolvables.zipIdx.map shownMapping).find? (·.id = i + 1)).isSome :=
    List.find?_isSome.mpr ⟨_, List.mem_map.mpr ⟨_, hmem, rfl⟩, decide_eq_true rfl⟩
  obtain ⟨mapping, hmapping⟩ := Option.isSome_iff_exists.mp hsome
  exact ⟨mapping, hmapping, by simpa using List.find?_some hmapping⟩

theorem mem_called (h : g.Grown) {id : Nat} :
    id ∈ called g ↔ id < g.nodes.length ∧ id ≠ 0 ∧ hasMethod g id := by
  rw [called, List.mem_filter, h.mem_visited, decide_eq_true_iff]

theorem closed_profileOf (h : g.Grown) {typeId unitId : Nat}
    (htype : typeId < g.strings.strings.length) (hunit : unitId < g.strings.strings.length) :
    (profileOf g typeId unitId).Closed where
  locations := by
    intro sample hsample id hid
    obtain ⟨leaf, hleaf, rfl⟩ := List.mem_map.mp hsample
    have hlt := (h.mem_valued.mp hleaf).1
    obtain ⟨hpos, hle⟩ := h.rooted.lineage_mem hlt hid
    exact count_map_key (fun _ => rfl) (h.visited_nodup.filter _)
      (h.mem_located.mpr ⟨hle.trans_lt hlt, Nat.ne_of_gt hpos⟩)
  mappings := by
    intro location hlocation
    obtain ⟨id, hid, rfl⟩ := List.mem_map.mp hlocation
    have hlt := (h.known id (h.mem_located.mp hid).1).1
    change ((g.resolvables.zipIdx.map shownMapping).map (·.id)).count _ = 1
    rw [map_id_mappings]
    exact List.count_eq_one_of_mem (List.nodup_range.map Nat.succ_injective)
      (List.mem_map_of_mem (List.mem_range.mpr hlt))
  functions := by
    intro location hlocation functionId hfunction
    obtain ⟨id, hid, rfl⟩ := List.mem_map.mp hlocation
    obtain ⟨hlt, hzero⟩ := h.mem_located.mp hid
    by_cases hmethod : hasMethod g id
    · simp only [shownLocation, if_pos hmethod, Option.toList_some, List.mem_singleton] at hfunction
      rw [hfunction]
      exact count_map_key (fun _ => rfl) (h.visited_nodup.filter _)
        ((mem_called h).mpr ⟨hlt, hzero, hmethod⟩)
    · simp [shownLocation, hmethod] at hfunction
  filenames := by
    intro mapping hmapping
    obtain ⟨⟨resolvable, i⟩, hentry, rfl⟩ := List.mem_map.mp hmapping
    obtain ⟨nameId, hlt, rfl⟩ := h.tabled.named resolvable (List.fst_mem_of_mem_zipIdx hentry)
    exact ⟨hlt, Nat.zero_lt_of_lt hlt⟩
  names := by
    intro function hfunction
    obtain ⟨id, hid, rfl⟩ := List.mem_map.mp hfunction
    exact (h.known id ((mem_called h).mp hid).1).2
  types := by
    intro sampleType hsampleType
    rw [List.mem_singleton.mp hsampleType]
    exact ⟨⟨Int.natCast_nonneg _, Int.ofNat_lt.mpr htype⟩, Int.natCast_nonneg _,
      Int.ofNat_lt.mpr hunit⟩

theorem methodId?_profileOf (h : g.Grown) {typeId unitId id : Nat} (hid : id < g.nodes.length)
    (hzero : id ≠ 0) :
    (profileOf g typeId unitId).methodId? (shownLocation g id).functionIds =
      some (g.targetOf id).methodId := by
  by_cases hmethod : hasMethod g id
  · have hids : (shownLocation g id).functionIds = [id] := by
      rw [shownLocation, if_pos hmethod, Option.toList_some]
    have hfunction : (profileOf g typeId unitId).functions.find? (·.id = id) =
        some (shownFunction g id) :=
      find?_map_key (fun _ => rfl) ((mem_called h).mpr ⟨hid, hzero, hmethod⟩)
    rw [hids, Profile.methodId?, hfunction]
    rfl
  · have hids : (shownLocation g id).functionIds = [] := by
      rw [shownLocation, if_neg hmethod, Option.toList_none]
    have hnone : (g.targetOf id).methodId = 0 := by
      simpa [hasMethod, Target.hasMethod] using hmethod
    rw [hids, Profile.methodId?, hnone]

/-- A location stands for the target of its node. -/
theorem target?_profileOf (h : g.Grown) {typeId unitId id : Nat} (hid : id < g.nodes.length)
    (hzero : id ≠ 0) : (profileOf g typeId unitId).target? id = some (g.targetOf id) := by
  have hlocation : (profileOf g typeId unitId).locations.find? (·.id = id) =
      some (shownLocation g id) :=
    find?_map_key (fun _ => rfl) (h.mem_located.mpr ⟨hid, hzero⟩)
  obtain ⟨mapping, hmapping, hmappingId⟩ := find?_mapping (h.known id hid).1
  have hfound : (profileOf g typeId unitId).mappings.find?
      (·.id = (shownLocation g id).mappingId) = some mapping := hmapping
  unfold Profile.target?
  rw [hlocation, Option.bind_eq_bind, Option.bind_some, hfound, Option.bind_eq_bind,
    Option.bind_some, methodId?_profileOf h hid hzero, hmappingId]
  rfl

theorem pathOf_profileOf (h : g.Grown) {typeId unitId id : Nat} (hid : id < g.nodes.length) :
    (profileOf g typeId unitId).pathOf (shownSample g id) =
      some (g.path id, (g.exclusiveOf id : Int)) := by
  have htargets : (g.lineageOf id).mapM (profileOf g typeId unitId).target? =
      some ((g.lineageOf id).map g.targetOf) := by
    refine mapM_eq_some_map fun x hx => ?_
    obtain ⟨hpos, hle⟩ := h.rooted.lineage_mem hid hx
    exact target?_profileOf h (hle.trans_lt hid) (Nat.ne_of_gt hpos)
  unfold Profile.pathOf
  change ((g.lineageOf id).mapM _ >>= _) = _
  rw [htargets]
  rfl

theorem paths_profileOf (h : g.Grown) (typeId unitId : Nat) :
    (profileOf g typeId unitId).paths =
      some ((g.weighted g.visited).map fun pair => (pair.1, (pair.2 : Int))) := by
  have hpaths : (g.valued.map (shownSample g)).mapM (profileOf g typeId unitId).pathOf =
      some (g.valued.map fun id => (g.path id, (g.exclusiveOf id : Int))) := by
    rw [List.mapM_map]
    exact mapM_eq_some_map fun id hid => pathOf_profileOf h (h.mem_valued.mp hid).1
  unfold Profile.paths
  change (g.valued.map (shownSample g)).mapM _ = _
  rw [hpaths, NodeGraph.weighted, List.map_map]
  rfl

/-- **The profile carries the graph.** The file is read as a profile in which every id is defined
once, and whose samples are the pairs of the graph. -/
theorem toPprof_reads (h : g.Grown) (hvalues : ∀ id, g.exclusiveOf id < 2 ^ 63)
    {typeId unitId : Nat} (hstrings : g.strings.strings.length ≤ 2 ^ 63)
    (htype : typeId < g.strings.strings.length) (hunit : unitId < g.strings.strings.length) :
    ∃ bytes profile pairs, g.toPprof typeId unitId = .ok bytes ∧
      readProfile bytes = some profile ∧ profile.Closed ∧ profile.paths = some pairs ∧
      pairs.Perm (g.weightedPaths.map fun pair => (pair.1, (pair.2 : Int))) :=
  ⟨_, _, _, toPprof_eq h typeId unitId,
    readProfile_fieldsOf hvalues (htype.trans_le hstrings) (hunit.trans_le hstrings),
    closed_profileOf h htype hunit, paths_profileOf h typeId unitId, h.weighted_visited.map _⟩

end File

end Pprof

end OneCollect.Exporting
