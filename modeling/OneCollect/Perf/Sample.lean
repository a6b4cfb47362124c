import OneCollect.Theory.Layout
import OneCollect.Perf.Environment

/-! Samples: the part of `parse_perf_data` that locates the fields of a sample, and the layout
of a sample body that `abi.rs` documents.

`sampleFields_refs_iff` says for which samples every field is where the layout has it: the
value words of a read format are not counted, and 32-bit registers are taken to be four bytes
wide. -/

namespace OneCollect.Perf
open Theory

/-! ## The parser -/

/-- `count_ones` of a 64-bit word. -/
def countOnes (n : Nat) : Nat := (List.range 64).countP n.testBit

namespace PerfData

def hasFormat (self : PerfData) (format : Nat) : Bool := self.ancillary.attributes.hasFormat format

def hasReadFormat (self : PerfData) (format : Nat) : Bool :=
  self.ancillary.attributes.hasReadFormat format

def regsUserCount (self : PerfData) : Nat := countOnes self.ancillary.attributes.sampleRegsUser

def readFormatSize (self : PerfData) : Nat :=
  let size := 0
  let size := if self.hasReadFormat formatTotalTimeEnabled then size + 8 else size
  let size := if self.hasReadFormat formatTotalTimeRunning then size + 8 else size
  let size := if self.hasReadFormat formatId then size + 8 else size
  let size := if self.hasReadFormat formatGroup then size + 8 else size
  if self.hasReadFormat formatLost then size + 8 else size

end PerfData

/-- The fields of the session that a sample sets. -/
structure SampleRefs where
  id : DataField
  ip : DataField
  pid : DataField
  tid : DataField
  time : DataField
  address : DataField
  streamId : DataField
  cpu : DataField
  period : DataField
  read : DataField
  callchain : DataField
  raw : DataField
  branchStack : DataField
  regsUser : DataField
  stackUser : DataField
  cgroup : DataField
  deriving DecidableEq, Repr

/-- `offset += field.update(offset, len)`. -/
def place (offset len : Nat) : Exec (DataField × Nat) := do
  let stop ← addU64 offset len
  .ok (DataField.update offset len, stop)

/-- A field of a fixed length. -/
def placeIf (present : Bool) (offset len : Nat) : Exec (DataField × Nat) :=
  if present then place offset len else .ok (.reset, offset)

namespace PerfData

def callchainAt (self : PerfData) (offset : Nat) : Exec (DataField × Nat) :=
  if self.hasFormat sampleCallchain then do
    let count ← readLe 8 self.rawData offset
    let size ← mulU64 count 8
    let offset ← addU64 offset 8
    place offset size
  else .ok (.reset, offset)

/-- The raw data; the id of its event, its first word, is read but not part of the result. -/
def rawAt (self : PerfData) (offset : Nat) : Exec (DataField × Nat) :=
  if self.hasFormat sampleRaw then do
    let size ← readLe 4 self.rawData offset
    let rawFieldSize := 4 + size
    let rawFieldAlignedSize := alignToPerfRecord rawFieldSize
    let offset ← addU64 offset 4
    let _id ← readLe 2 self.rawData offset
    let (field, offset) ← place offset size
    let offset ← addU64 offset (rawFieldAlignedSize - rawFieldSize)
    .ok (field, offset)
  else .ok (.reset, offset)

def branchStackAt (self : PerfData) (offset : Nat) : Exec (DataField × Nat) :=
  if self.hasFormat sampleBranchStack then do
    let count ← readLe 8 self.rawData offset
    let offset ← addU64 offset 8
    let size ← mulU64 count 24
    place offset size
  else .ok (.reset, offset)

/-- The ABI is taken for the width of a register in units of four bytes. -/
def regsUserAt (self : PerfData) (offset : Nat) : Exec (DataField × Nat) :=
  if self.hasFormat sampleRegsUser then do
    let abi ← readLe 8 self.rawData offset
    let offset ← addU64 offset 8
    let width ← mulU64 abi 4
    let size ← mulU64 self.regsUserCount width
    place offset size
  else .ok (.reset, offset)

/-- Callers are only given the stack that was read. -/
def stackUserAt (self : PerfData) (offset : Nat) : Exec (DataField × Nat) :=
  if self.hasFormat sampleStackUser then do
    let size ← readLe 8 self.rawData offset
    let offset ← addU64 offset 8
    if size > 0 then do
      let stackStart := offset
      let offset ← addU64 offset size
      let dynSize ← readLe 8 self.rawData offset
      let offset ← addU64 offset 8
      let _ ← addU64 stackStart dynSize
      .ok (DataField.update stackStart dynSize, offset)
    else .ok (.reset, offset)
  else .ok (.reset, offset)

/-- `UNPARSED_SAMPLE_FIELDS_BEFORE_CGROUP`. -/
def unparsedSampleFieldsBeforeCgroup : Nat :=
  sampleWeight ||| sampleDataSrc ||| sampleTransaction ||| sampleRegsIntr ||| samplePhysAddr

/-- The assertion holds of builds with overflow checks. -/
def cgroupAt (self : PerfData) (offset : Nat) : Exec (DataField × Nat) :=
  if self.hasFormat sampleCgroup then
    if self.ancillary.attributes.sampleType &&& unparsedSampleFieldsBeforeCgroup ≠ 0 then panicked
    else place offset 8
  else .ok (.reset, offset)

end PerfData

/-- The part of `parse_perf_data` for a sample. -/
def sampleFields (data : PerfData) : Exec SampleRefs := do
  let offset := Header.dataOffset
  let (id, offset) ← placeIf (data.hasFormat sampleIdentifier) offset 8
  let (ip, offset) ← placeIf (data.hasFormat sampleIp) offset 8
  let (pid, offset) ← placeIf (data.hasFormat sampleTid) offset 4
  let (tid, offset) ← placeIf (data.hasFormat sampleTid) offset 4
  let (time, offset) ← placeIf (data.hasFormat sampleTime) offset 8
  let (address, offset) ← placeIf (data.hasFormat sampleAddr) offset 8
  -- updated only, never reset
  let (id', offset) ← placeIf (data.hasFormat sampleId) offset 8
  let id := if data.hasFormat sampleId then id' else id
  let (streamId, offset) ← placeIf (data.hasFormat sampleStreamId) offset 8
  let (cpu, offset) ← placeIf (data.hasFormat sampleCpu) offset 8
  let (period, offset) ← placeIf (data.hasFormat samplePeriod) offset 8
  let (read, offset) ← placeIf (data.hasFormat sampleRead) offset data.readFormatSize
  let (callchain, offset) ← data.callchainAt offset
  let (raw, offset) ← data.rawAt offset
  let (branchStack, offset) ← data.branchStackAt offset
  let (regsUser, offset) ← data.regsUserAt offset
  let (stackUser, offset) ← data.stackUserAt offset
  let (cgroup, _offset) ← data.cgroupAt offset
  .ok {
    id, ip, pid, tid, time, address, streamId, cpu, period, read, callchain, raw, branchStack
    regsUser, stackUser, cgroup }

/-! ## The layout -/

/-- An entry of a read format. -/
structure ReadEntry where
  value : Nat
  id : Nat
  lost : Nat
  deriving DecidableEq, Repr

/-- A `read_format`: one entry, or with a group any number of them. -/
structure ReadValue where
  timeEnabled : Nat := 0
  timeRunning : Nat := 0
  single : ReadEntry := ⟨0, 0, 0⟩
  group : List ReadEntry := []
  deriving DecidableEq, Repr

structure BranchEntry where
  source : Nat
  target : Nat
  flags : Nat
  deriving DecidableEq, Repr

/-- The values of a sample. `rawPad` fills the raw data up, and `stackRest` is the part of
the stack that was not read. -/
structure Sample where
  identifier : Nat := 0
  ip : Nat := 0
  pid : Nat := 0
  tid : Nat := 0
  time : Nat := 0
  addr : Nat := 0
  id : Nat := 0
  streamId : Nat := 0
  cpu : Nat := 0
  res : Nat := 0
  period : Nat := 0
  read : ReadValue := {}
  ips : List Nat := []
  raw : Bytes := []
  rawPad : Bytes := []
  lbr : List BranchEntry := []
  abi : Nat := 0
  regs : List Nat := []
  stack : Bytes := []
  stackRest : Bytes := []
  cgroup : Nat := 0
  deriving DecidableEq, Repr

def wordIf (present : Bool) (n : Nat) : Bytes := if present then toLe 8 n else []

def ReadEntry.bytes (attributes : EventAttr) (entry : ReadEntry) : Bytes :=
  toLe 8 entry.value ++ wordIf (attributes.hasReadFormat formatId) entry.id ++
    wordIf (attributes.hasReadFormat formatLost) entry.lost

def ReadValue.bytes (attributes : EventAttr) (value : ReadValue) : Bytes :=
  if attributes.hasReadFormat formatGroup then
    toLe 8 value.group.length ++
      wordIf (attributes.hasReadFormat formatTotalTimeEnabled) value.timeEnabled ++
      wordIf (attributes.hasReadFormat formatTotalTimeRunning) value.timeRunning ++
      value.group.flatMap (ReadEntry.bytes attributes)
  else
    toLe 8 value.single.value ++
      wordIf (attributes.hasReadFormat formatTotalTimeEnabled) value.timeEnabled ++
      wordIf (attributes.hasReadFormat formatTotalTimeRunning) value.timeRunning ++
      wordIf (attributes.hasReadFormat formatId) value.single.id ++
      wordIf (attributes.hasReadFormat formatLost) value.single.lost

def words (values : List Nat) : Bytes := values.flatMap (toLe 8)

def BranchEntry.bytes (entry : BranchEntry) : Bytes :=
  toLe 8 entry.source ++ toLe 8 entry.target ++ toLe 8 entry.flags

namespace Sample

/-- The parts of a sample body, in the documented order. -/
def parts (attributes : EventAttr) (s : Sample) : List Part :=
  let has := attributes.hasFormat
  [ { present := has sampleIdentifier, own := toLe 8 s.identifier },
    { present := has sampleIp, own := toLe 8 s.ip },
    { present := has sampleTid, own := toLe 4 s.pid },
    { present := has sampleTid, own := toLe 4 s.tid },
    { present := has sampleTime, own := toLe 8 s.time },
    { present := has sampleAddr, own := toLe 8 s.addr },
    { present := has sampleId, own := toLe 8 s.id },
    { present := has sampleStreamId, own := toLe 8 s.streamId },
    { present := has sampleCpu, own := toLe 4 s.cpu ++ toLe 4 s.res },
    { present := has samplePeriod, own := toLe 8 s.period },
    { present := has sampleRead, own := s.read.bytes attributes },
    { present := has sampleCallchain, lead := toLe 8 s.ips.length, own := words s.ips },
    { present := has sampleRaw, lead := toLe 4 s.raw.length, own := s.raw, trail := s.rawPad },
    { present := has sampleBranchStack, lead := toLe 8 s.lbr.length
      own := s.lbr.flatMap BranchEntry.bytes },
    { present := has sampleRegsUser, lead := toLe 8 s.abi, own := words s.regs },
    { present := has sampleStackUser, lead := toLe 8 (s.stack ++ s.stackRest).length
      own := s.stack
      trail := s.stackRest ++
        wordIf (decide (s.stack ++ s.stackRest ≠ [])) s.stack.length },
    { present := has sampleCgroup, own := toLe 8 s.cgroup } ]

/-- The record of a sample: any header of eight bytes, the body, and whatever follows. -/
def record (attributes : EventAttr) (header : Bytes) (s : Sample) (rest : Bytes) : Bytes :=
  header ++ Part.layOut (s.parts attributes) ++ rest

/-- The range of a part in the record; an absent part has the empty one of `reset`. -/
def rangeOf (attributes : EventAttr) (s : Sample) (k : Nat) : DataField :=
  match (s.parts attributes)[k]? with
  | some part =>
    let start := Header.dataOffset + Part.position (s.parts attributes) k + part.lead.length
    if part.present then ⟨start, start + part.own.length⟩ else .reset
  | none => .reset

/-- Every field delimits its own bytes. The id is the second one where both are present, and
a stack of no bytes is the empty range of `reset`. -/
def refs (attributes : EventAttr) (s : Sample) : SampleRefs :=
  let range := s.rangeOf attributes
  { id := if attributes.hasFormat sampleId then range 6 else range 0
    ip := range 1, pid := range 2, tid := range 3, time := range 4, address := range 5
    streamId := range 7, cpu := range 8, period := range 9, read := range 10
    callchain := range 11, raw := range 12, branchStack := range 13, regsUser := range 14
    stackUser := if s.stack ++ s.stackRest = [] then .reset else range 15
    cgroup := range 16 }

/-- A sample of the layout: as many registers as the mask has bits unless the ABI is none, and
raw data filled up to eight bytes with its size. The record has a 32-bit length. -/
structure WellFormed (attributes : EventAttr) (header : Bytes) (s : Sample) (rest : Bytes) :
    Prop where
  headerLength : header.length = Header.dataOffset
  rawPad : attributes.hasFormat sampleRaw = true →
    s.rawPad.length = alignToPerfRecord (4 + s.raw.length) - (4 + s.raw.length)
  abi : attributes.hasFormat sampleRegsUser = true →
    s.abi ∈ [sampleRegsAbiNone, sampleRegsAbi32, sampleRegsAbi64]
  regs : attributes.hasFormat sampleRegsUser = true → s.regs.length =
    if s.abi = sampleRegsAbiNone then 0 else countOnes attributes.sampleRegsUser
  between : attributes.sampleType &&& PerfData.unparsedSampleFieldsBeforeCgroup = 0
  fits : (s.record attributes header rest).length < 2 ^ 32

/-! ## Locating a part -/

def offsetOf (attributes : EventAttr) (s : Sample) (k : Nat) : Nat :=
  Header.dataOffset + Part.position (s.parts attributes) k

section Locate

variable {attributes : EventAttr} {header rest : Bytes} {s : Sample} {k : Nat} {part : Part}

/-- A part stands at its offset in the record. -/
theorem record_split (hw : s.WellFormed attributes header rest)
    (h : (s.parts attributes)[k]? = some part) :
    ∃ before after, s.record attributes header rest = before ++ part.bytes ++ after ∧
      before.length = s.offsetOf attributes k := by
  refine ⟨header ++ Part.layOut ((s.parts attributes).take k),
    Part.layOut ((s.parts attributes).drop (k + 1)) ++ rest, ?_, ?_⟩
  · rw [record, Part.layOut_split h]
    simp only [List.append_assoc]
  · rw [List.length_append, hw.headerLength]
    rfl

theorem offsetOf_succ (h : (s.parts attributes)[k]? = some part) :
    s.offsetOf attributes (k + 1) = s.offsetOf attributes k + part.bytes.length := by
  rw [offsetOf, offsetOf, Part.position_succ h, Nat.add_assoc]

theorem offsetOf_le (hw : s.WellFormed attributes header rest)
    (h : (s.parts attributes)[k]? = some part) :
    s.offsetOf attributes k + part.bytes.length ≤ (s.record attributes header rest).length := by
  obtain ⟨before, after, hsplit, hbefore⟩ := record_split hw h
  rw [hsplit, List.length_append, List.length_append, hbefore]
  omega

theorem bytes_present {lead own trail : Bytes} :
    Part.bytes ⟨true, lead, own, trail⟩ = lead ++ own ++ trail := rfl

theorem bytes_absent {lead own trail : Bytes} : Part.bytes ⟨false, lead, own, trail⟩ = [] := rfl

theorem rangeOf_present {lead own trail : Bytes}
    (h : (s.parts attributes)[k]? = some ⟨true, lead, own, trail⟩) :
    s.rangeOf attributes k = ⟨s.offsetOf attributes k + lead.length,
      s.offsetOf attributes k + lead.length + own.length⟩ := by
  simp only [rangeOf, h, if_true]
  rfl

theorem rangeOf_absent {lead own trail : Bytes}
    (h : (s.parts attributes)[k]? = some ⟨false, lead, own, trail⟩) :
    s.rangeOf attributes k = .reset ∧ s.offsetOf attributes (k + 1) = s.offsetOf attributes k := by
  constructor
  · simp [rangeOf, h]
  · rw [offsetOf_succ h, bytes_absent]
    rfl

/-- The word in front of a part. -/
theorem readLe_lead (hw : s.WellFormed attributes header rest) {width n : Nat}
    {own trail : Bytes} (h : (s.parts attributes)[k]? = some ⟨true, toLe width n, own, trail⟩)
    (hn : n < 256 ^ width) :
    readLe width (s.record attributes header rest) (s.offsetOf attributes k) = .ok n := by
  obtain ⟨before, after, hsplit, hbefore⟩ := record_split hw h
  rw [hsplit, bytes_present, ← hbefore, List.append_assoc, List.append_assoc, List.append_assoc,
    ← List.append_assoc before]
  exact readLe_append before (toLe width n) _ (length_toLe width n) (fromLe_toLe_of_lt hn).symm

/-- The word at the end of a part. -/
theorem readLe_trail (hw : s.WellFormed attributes header rest) {width n : Nat}
    {lead own front : Bytes}
    (h : (s.parts attributes)[k]? = some ⟨true, lead, own, front ++ toLe width n⟩)
    (hn : n < 256 ^ width) :
    readLe width (s.record attributes header rest)
      (s.offsetOf attributes k + (lead.length + own.length + front.length)) = .ok n := by
  obtain ⟨before, after, hsplit, hbefore⟩ := record_split hw h
  have hfront : (before ++ (lead ++ own ++ front)).length =
      s.offsetOf attributes k + (lead.length + own.length + front.length) := by
    simp only [List.length_append, hbefore]
  have hassoc : before ++ (lead ++ own ++ (front ++ toLe width n)) ++ after =
      before ++ (lead ++ own ++ front) ++ toLe width n ++ after := by
    simp only [List.append_assoc]
  rw [hsplit, bytes_present, hassoc, ← hfront]
  exact readLe_append _ (toLe width n) after (length_toLe width n) (fromLe_toLe_of_lt hn).symm

/-- The own bytes of a part, behind its lead. -/
theorem place_own (hw : s.WellFormed attributes header rest) {lead own trail : Bytes}
    (h : (s.parts attributes)[k]? = some ⟨true, lead, own, trail⟩) :
    place (s.offsetOf attributes k + lead.length) own.length =
      .ok (s.rangeOf attributes k,
        s.offsetOf attributes k + lead.length + own.length) := by
  have hle := offsetOf_le hw h
  have hfits := hw.fits
  rw [bytes_present, List.length_append, List.length_append] at hle
  rw [place, addU64_eq_ok.mpr ⟨by omega, rfl⟩, ok_bind, update_of_lt (by omega),
    rangeOf_present h]

/-- A part of a fixed length. -/
theorem placeIf_part (hw : s.WellFormed attributes header rest) {present : Bool} {own : Bytes}
    (h : (s.parts attributes)[k]? = some ⟨present, [], own, []⟩) {len : Nat}
    (hlen : own.length = len) :
    placeIf present (s.offsetOf attributes k) len =
      .ok (s.rangeOf attributes k, s.offsetOf attributes (k + 1)) := by
  cases present with
  | false =>
    obtain ⟨hrange, hnext⟩ := rangeOf_absent h
    rw [hrange, hnext]
    rfl
  | true =>
    have hplace := place_own hw h
    rw [List.length_nil, Nat.add_zero, hlen] at hplace
    rw [placeIf, if_pos rfl, hplace, offsetOf_succ h, bytes_present, List.nil_append,
      List.append_nil, hlen]

/-- The lead of a part is within the words of the machine. -/
theorem addU64_lead (hw : s.WellFormed attributes header rest) {lead own trail : Bytes}
    (h : (s.parts attributes)[k]? = some ⟨true, lead, own, trail⟩) :
    addU64 (s.offsetOf attributes k) lead.length =
      .ok (s.offsetOf attributes k + lead.length) := by
  have hle := offsetOf_le hw h
  have hfits := hw.fits
  rw [bytes_present, List.length_append, List.length_append] at hle
  exact addU64_eq_ok.mpr ⟨by omega, rfl⟩

/-- A part is shorter than the record. -/
theorem part_lt (hw : s.WellFormed attributes header rest) {lead own trail : Bytes}
    (h : (s.parts attributes)[k]? = some ⟨true, lead, own, trail⟩) :
    lead.length + own.length + trail.length < 2 ^ 32 := by
  have hle := offsetOf_le hw h
  have hfits := hw.fits
  rw [bytes_present, List.length_append, List.length_append] at hle
  omega

/-! ### The parts of variable length -/

theorem length_words (values : List Nat) : (words values).length = values.length * 8 :=
  length_flatMap_of_length (length_toLe 8) values

theorem length_branches (entries : List BranchEntry) :
    (entries.flatMap BranchEntry.bytes).length = entries.length * 24 := by
  refine length_flatMap_of_length (fun entry => ?_) entries
  simp only [BranchEntry.bytes, List.length_append, length_toLe]

variable {cpu : Nat}

/-- The data of the record. -/
def data (cpu : Nat) (attributes : EventAttr) (header : Bytes) (s : Sample) (rest : Bytes) :
    PerfData :=
  ⟨⟨cpu, attributes⟩, s.record attributes header rest⟩

theorem callchainAt_eq (hw : s.WellFormed attributes header rest) :
    (s.data cpu attributes header rest).callchainAt (s.offsetOf attributes 11) =
      .ok (s.rangeOf attributes 11, s.offsetOf attributes 12) := by
  have h : (s.parts attributes)[11]? = some ⟨attributes.hasFormat sampleCallchain,
    toLe 8 s.ips.length, words s.ips, []⟩ := rfl
  change (if attributes.hasFormat sampleCallchain then _ else _) = _
  cases hp : attributes.hasFormat sampleCallchain with
  | false =>
    rw [hp] at h
    obtain ⟨hrange, hnext⟩ := rangeOf_absent h
    rw [hrange, hnext]
    rfl
  | true =>
    rw [hp] at h
    have hlt := part_lt hw h
    rw [length_words] at hlt
    have hlead := addU64_lead hw h
    have hplace := place_own hw h
    rw [length_toLe] at hlead hplace
    rw [if_pos rfl]
    change (readLe 8 (s.record attributes header rest) _ >>= _) = _
    rw [readLe_lead hw h (by omega), ok_bind, mulU64_eq_ok.mpr ⟨by omega, rfl⟩, ok_bind, hlead,
      ok_bind, ← length_words, hplace, offsetOf_succ h, bytes_present]
    simp [Nat.add_assoc]

theorem branchStackAt_eq (hw : s.WellFormed attributes header rest) :
    (s.data cpu attributes header rest).branchStackAt (s.offsetOf attributes 13) =
      .ok (s.rangeOf attributes 13, s.offsetOf attributes 14) := by
  have h : (s.parts attributes)[13]? = some ⟨attributes.hasFormat sampleBranchStack,
    toLe 8 s.lbr.length, s.lbr.flatMap BranchEntry.bytes, []⟩ := rfl
  change (if attributes.hasFormat sampleBranchStack then _ else _) = _
  cases hp : attributes.hasFormat sampleBranchStack with
  | false =>
    rw [hp] at h
    obtain ⟨hrange, hnext⟩ := rangeOf_absent h
    rw [hrange, hnext]
    rfl
  | true =>
    rw [hp] at h
    have hlt := part_lt hw h
    rw [length_branches] at hlt
    have hlead := addU64_lead hw h
    have hplace := place_own hw h
    rw [length_toLe] at hlead hplace
    rw [if_pos rfl]
    change (readLe 8 (s.record attributes header rest) _ >>= _) = _
    rw [readLe_lead hw h (by omega), ok_bind, hlead, ok_bind,
      mulU64_eq_ok.mpr ⟨by omega, rfl⟩, ok_bind, ← length_branches, hplace, offsetOf_succ h,
      bytes_present]
    simp [Nat.add_assoc]

theorem rawAt_eq (hw : s.WellFormed attributes header rest) :
    (s.data cpu attributes header rest).rawAt (s.offsetOf attributes 12) =
      .ok (s.rangeOf attributes 12, s.offsetOf attributes 13) := by
  have h : (s.parts attributes)[12]? = some ⟨attributes.hasFormat sampleRaw,
    toLe 4 s.raw.length, s.raw, s.rawPad⟩ := rfl
  change (if attributes.hasFormat sampleRaw then _ else _) = _
  cases hp : attributes.hasFormat sampleRaw with
  | false =>
    rw [hp] at h
    obtain ⟨hrange, hnext⟩ := rangeOf_absent h
    rw [hrange, hnext]
    rfl
  | true =>
    rw [hp] at h
    have hlt := part_lt hw h
    have hlead := addU64_lead hw h
    have hplace := place_own hw h
    have hle := offsetOf_le hw h
    have hfits := hw.fits
    have halign := alignToPerfRecord_bounds (4 + s.raw.length)
    have hpad := hw.rawPad hp
    rw [bytes_present, List.length_append, List.length_append] at hle
    rw [length_toLe] at hlead hplace hlt hle
    -- the padding fills the event id up when the raw data is shorter than it
    have hid : s.offsetOf attributes 12 + 4 + 2 ≤ (s.record attributes header rest).length := by
      omega
    rw [if_pos rfl]
    change (readLe 4 (s.record attributes header rest) _ >>= _) = _
    rw [readLe_lead hw h (by omega), ok_bind]
    change (addU64 (s.offsetOf attributes 12) 4 >>= _) = _
    rw [hlead, ok_bind]
    change (readLe 2 (s.record attributes header rest) _ >>= _) = _
    rw [readLe_eq_ok.mpr ⟨hid, rfl⟩, ok_bind, hplace, ok_bind]
    dsimp only
    rw [← hpad, addU64_eq_ok.mpr ⟨by omega, rfl⟩, ok_bind, offsetOf_succ h, bytes_present]
    simp [Nat.add_assoc]

theorem stackUserAt_eq (hw : s.WellFormed attributes header rest) :
    (s.data cpu attributes header rest).stackUserAt (s.offsetOf attributes 15) =
      .ok (if s.stack ++ s.stackRest = [] then .reset else s.rangeOf attributes 15,
        s.offsetOf attributes 16) := by
  have h : (s.parts attributes)[15]? = some ⟨attributes.hasFormat sampleStackUser,
    toLe 8 (s.stack ++ s.stackRest).length, s.stack,
    s.stackRest ++ wordIf (decide (s.stack ++ s.stackRest ≠ [])) s.stack.length⟩ := rfl
  change (if attributes.hasFormat sampleStackUser then _ else _) = _
  cases hp : attributes.hasFormat sampleStackUser with
  | false =>
    rw [hp] at h
    obtain ⟨hrange, hnext⟩ := rangeOf_absent h
    rw [hrange, hnext, ite_self]
    rfl
  | true =>
    rw [hp] at h
    have hfits := hw.fits
    have hlead := addU64_lead hw h
    have hsize : (s.stack ++ s.stackRest).length < 256 ^ 8 := by
      have hlt := part_lt hw h
      rw [@List.length_append _ s.stackRest] at hlt
      rw [List.length_append]
      omega
    rw [length_toLe] at hlead
    rw [if_pos rfl]
    change (readLe 8 (s.record attributes header rest) _ >>= _) = _
    rw [readLe_lead hw h hsize, ok_bind, hlead, ok_bind]
    by_cases hempty : s.stack ++ s.stackRest = []
    · obtain ⟨hstack, hrest⟩ := List.append_eq_nil_iff.mp hempty
      rw [if_pos hempty, hempty, List.length_nil, if_neg (Nat.lt_irrefl 0), offsetOf_succ h,
        bytes_present, hstack, hrest]
      rfl
    · have hpos : (s.stack ++ s.stackRest).length > 0 := List.length_pos_iff.mpr hempty
      rw [if_neg hempty, if_pos hpos]
      rw [decide_eq_true hempty] at h
      change (s.parts attributes)[15]? =
        some (Theory.Part.mk true _ _ (s.stackRest ++ toLe 8 s.stack.length)) at h
      have hlt := part_lt hw h
      have hle := offsetOf_le hw h
      have hdyn := readLe_trail hw h (by omega)
      rw [bytes_present, List.length_append, List.length_append, @List.length_append _ s.stackRest]
        at hle
      rw [List.length_append] at hlt
      rw [length_toLe] at hle hdyn hlt
      have hend : s.offsetOf attributes 15 + 8 + (s.stack ++ s.stackRest).length =
          s.offsetOf attributes 15 + (8 + s.stack.length + s.stackRest.length) := by
        rw [List.length_append]
        omega
      have hsize : addU64 (s.offsetOf attributes 15 + 8) (s.stack ++ s.stackRest).length =
          .ok (s.offsetOf attributes 15 + (8 + s.stack.length + s.stackRest.length)) :=
        addU64_eq_ok.mpr ⟨by omega, hend.symm⟩
      have hnext : addU64 (s.offsetOf attributes 15 + (8 + s.stack.length + s.stackRest.length))
          8 = .ok (s.offsetOf attributes 16) := by
        refine addU64_eq_ok.mpr ⟨by omega, ?_⟩
        rw [offsetOf_succ h, bytes_present]
        simp only [List.length_append, length_toLe]
        omega
      have hstart : addU64 (s.offsetOf attributes 15 + 8) s.stack.length =
          .ok (s.offsetOf attributes 15 + 8 + s.stack.length) :=
        addU64_eq_ok.mpr ⟨by omega, rfl⟩
      dsimp only
      rw [hsize, ok_bind]
      change (readLe 8 (s.record attributes header rest) _ >>= _) = _
      rw [hdyn, ok_bind, hnext, ok_bind, hstart, ok_bind, update_of_lt (by omega),
        rangeOf_present h, length_toLe]

theorem cgroupAt_eq (hw : s.WellFormed attributes header rest) :
    (s.data cpu attributes header rest).cgroupAt (s.offsetOf attributes 16) =
      .ok (s.rangeOf attributes 16, s.offsetOf attributes 17) := by
  have h : (s.parts attributes)[16]? = some ⟨attributes.hasFormat sampleCgroup, [],
    toLe 8 s.cgroup, []⟩ := rfl
  have hplace := placeIf_part hw h (length_toLe 8 _)
  rw [← hplace]
  unfold PerfData.cgroupAt placeIf
  change (if attributes.hasFormat sampleCgroup then
    if attributes.sampleType &&& PerfData.unparsedSampleFieldsBeforeCgroup ≠ 0 then _ else _
    else _) = _
  rw [if_neg (not_not.mpr hw.between)]

/-! ### The parts whose length is misjudged -/

/-- Neither the value words nor the entries of a group are counted by `readFormatSize`, and the
bits of the id and of a group are counted once. -/
def ReadFits (attributes : EventAttr) (s : Sample) : Prop :=
  attributes.hasFormat sampleRead = true →
    attributes.hasReadFormat formatGroup = true ∧ s.read.group = [] ∧
      attributes.hasReadFormat formatId = false ∧ attributes.hasReadFormat formatLost = false

/-- Registers are eight bytes wide also under the 32-bit ABI. -/
def RegsFit (attributes : EventAttr) (s : Sample) : Prop :=
  attributes.hasFormat sampleRegsUser = true → s.abi = sampleRegsAbi32 →
    countOnes attributes.sampleRegsUser = 0

/-- The size of a word that may be absent. -/
def sizeIf (present : Bool) : Nat := if present then 8 else 0

theorem length_wordIf (present : Bool) (n : Nat) : (wordIf present n).length = sizeIf present := by
  cases present
  · rfl
  · exact length_toLe 8 n

theorem length_entries (entries : List ReadEntry) :
    (entries.flatMap (ReadEntry.bytes attributes)).length =
      entries.length * (8 + sizeIf (attributes.hasReadFormat formatId) +
        sizeIf (attributes.hasReadFormat formatLost)) := by
  refine length_flatMap_of_length (fun entry => ?_) entries
  rw [ReadEntry.bytes, List.length_append, List.length_append, length_toLe, length_wordIf,
    length_wordIf]

/-- The size the parser takes, as a sum. -/
theorem readFormatSize_eq (data : PerfData) :
    data.readFormatSize =
      sizeIf (data.hasReadFormat formatTotalTimeEnabled) +
        sizeIf (data.hasReadFormat formatTotalTimeRunning) +
        sizeIf (data.hasReadFormat formatId) + sizeIf (data.hasReadFormat formatGroup) +
        sizeIf (data.hasReadFormat formatLost) := by
  unfold PerfData.readFormatSize
  cases data.hasReadFormat formatTotalTimeEnabled <;>
    cases data.hasReadFormat formatTotalTimeRunning <;>
    cases data.hasReadFormat formatId <;> cases data.hasReadFormat formatGroup <;>
    cases data.hasReadFormat formatLost <;> rfl

theorem sizeIf_le (present : Bool) : sizeIf present ≤ 8 := by
  cases present
  · exact Nat.zero_le 8
  · exact Nat.le_refl 8

/-- The size taken is the size laid out only for an empty group. -/
theorem readFormatSize_iff :
    (s.data cpu attributes header rest).readFormatSize = (s.read.bytes attributes).length ↔
      attributes.hasReadFormat formatGroup = true ∧ s.read.group = [] ∧
        attributes.hasReadFormat formatId = false ∧
        attributes.hasReadFormat formatLost = false := by
  rw [readFormatSize_eq, ReadValue.bytes]
  change sizeIf (attributes.hasReadFormat _) + sizeIf (attributes.hasReadFormat _) +
    sizeIf (attributes.hasReadFormat _) + sizeIf (attributes.hasReadFormat _) +
    sizeIf (attributes.hasReadFormat _) = _ ↔ _
  cases attributes.hasReadFormat formatGroup with
  | false =>
    rw [if_neg Bool.false_ne_true]
    simp only [List.length_append, length_toLe, length_wordIf]
    have hzero : sizeIf false = 0 := rfl
    constructor
    · omega
    · rintro ⟨hfalse, -⟩
      exact absurd hfalse Bool.false_ne_true
  | true =>
    rw [if_pos rfl]
    simp only [List.length_append, length_toLe, length_wordIf, length_entries]
    have height : sizeIf true = 8 := rfl
    have hzero : sizeIf false = 0 := rfl
    constructor
    · intro hsize
      -- an entry takes its value word and every word that the code counts
      have hnone : s.read.group = [] := by
        cases hgroup : s.read.group with
        | nil => rfl
        | cons entry entries =>
          rw [hgroup, List.length_cons, Nat.succ_mul] at hsize
          omega
      rw [hnone, List.length_nil, Nat.zero_mul] at hsize
      refine ⟨trivial, hnone, ?_, ?_⟩
      · cases hid : attributes.hasReadFormat formatId
        · rfl
        · rw [hid] at hsize
          omega
      · cases hlost : attributes.hasReadFormat formatLost
        · rfl
        · rw [hlost] at hsize
          omega
    · rintro ⟨-, hnone, hid, hlost⟩
      rw [hnone, hid, hlost, List.length_nil, Nat.zero_mul]
      omega

theorem readAt_eq (hw : s.WellFormed attributes header rest) (hread : ReadFits attributes s) :
    placeIf (attributes.hasFormat sampleRead) (s.offsetOf attributes 10)
        (s.data cpu attributes header rest).readFormatSize =
      .ok (s.rangeOf attributes 10, s.offsetOf attributes 11) := by
  have h : (s.parts attributes)[10]? = some ⟨attributes.hasFormat sampleRead, [],
    s.read.bytes attributes, []⟩ := rfl
  cases hp : attributes.hasFormat sampleRead with
  | false =>
    rw [hp] at h
    obtain ⟨hrange, hnext⟩ := rangeOf_absent h
    rw [hrange, hnext]
    rfl
  | true =>
    rw [hp] at h
    exact placeIf_part hw h (readFormatSize_iff.mpr (hread hp)).symm

theorem readFits_of_readAt (hw : s.WellFormed attributes header rest) {next : Nat}
    (hat : placeIf (attributes.hasFormat sampleRead) (s.offsetOf attributes 10)
        (s.data cpu attributes header rest).readFormatSize =
      .ok (s.rangeOf attributes 10, next)) :
    ReadFits attributes s := by
  intro hp
  have h : (s.parts attributes)[10]? = some ⟨attributes.hasFormat sampleRead, [],
    s.read.bytes attributes, []⟩ := rfl
  rw [hp] at h
  have hfits := hw.fits
  have hle := offsetOf_le hw h
  rw [bytes_present, List.append_nil, List.nil_append] at hle
  have hsize : (s.data cpu attributes header rest).readFormatSize ≤ 40 := by
    rw [readFormatSize_eq]
    have hbound := sizeIf_le
    grind
  rw [hp, placeIf, if_pos rfl, place, addU64_eq_ok.mpr ⟨by omega, rfl⟩, ok_bind,
    Except.ok.injEq, Prod.mk.injEq, rangeOf_present h, List.length_nil, Nat.add_zero,
    DataField.update, DataField.mk.injEq] at hat
  have hsame : (s.data cpu attributes header rest).readFormatSize =
      (s.read.bytes attributes).length := by
    omega
  exact readFormatSize_iff.mp hsame

theorem countOnes_le (n : Nat) : countOnes n ≤ 64 := by
  have hle := @List.countP_le_length _ n.testBit (List.range 64)
  rwa [List.length_range] at hle

/-- What the parser takes for the registers, and what they are. -/
theorem regsUserAt_size (hw : s.WellFormed attributes header rest)
    (hp : attributes.hasFormat sampleRegsUser = true) :
    (s.data cpu attributes header rest).regsUserAt (s.offsetOf attributes 14) =
      place (s.offsetOf attributes 14 + 8)
        (countOnes attributes.sampleRegsUser * (s.abi * 4)) := by
  have h : (s.parts attributes)[14]? = some ⟨true, toLe 8 s.abi, words s.regs, []⟩ := by
    rw [← hp]
    rfl
  have hcount := countOnes_le attributes.sampleRegsUser
  have hlead := addU64_lead hw h
  have habi : s.abi ≤ 2 := by
    have hmem := hw.abi hp
    simp only [List.mem_cons, List.not_mem_nil, or_false] at hmem
    rcases hmem with hnone | h32 | h64
    · rw [hnone]
      decide
    · rw [h32]
      decide
    · rw [h64]
      decide
  have hsize : countOnes attributes.sampleRegsUser * (s.abi * 4) ≤ 64 * (2 * 4) :=
    Nat.mul_le_mul hcount (Nat.mul_le_mul_right 4 habi)
  rw [length_toLe] at hlead
  change (if attributes.hasFormat sampleRegsUser then _ else _) = _
  rw [if_pos hp]
  change (readLe 8 (s.record attributes header rest) _ >>= _) = _
  rw [readLe_lead hw h (by omega), ok_bind, hlead, ok_bind, mulU64_eq_ok.mpr ⟨by omega, rfl⟩,
    ok_bind]
  change (mulU64 (countOnes attributes.sampleRegsUser) (s.abi * 4) >>= _) = _
  rw [mulU64_eq_ok.mpr ⟨by omega, rfl⟩, ok_bind]

theorem regsUserAt_eq (hw : s.WellFormed attributes header rest) (hregs : RegsFit attributes s) :
    (s.data cpu attributes header rest).regsUserAt (s.offsetOf attributes 14) =
      .ok (s.rangeOf attributes 14, s.offsetOf attributes 15) := by
  have h : (s.parts attributes)[14]? = some ⟨attributes.hasFormat sampleRegsUser,
    toLe 8 s.abi, words s.regs, []⟩ := rfl
  cases hp : attributes.hasFormat sampleRegsUser with
  | false =>
    rw [hp] at h
    obtain ⟨hrange, hnext⟩ := rangeOf_absent h
    rw [hrange, hnext]
    change (if attributes.hasFormat sampleRegsUser then _ else _) = _
    rw [hp]
    rfl
  | true =>
    rw [hp] at h
    have hplace := place_own hw h
    rw [length_toLe, length_words] at hplace
    have hsize : countOnes attributes.sampleRegsUser * (s.abi * 4) = s.regs.length * 8 := by
      have hmem := hw.abi hp
      have hlen := hw.regs hp
      simp only [List.mem_cons, List.not_mem_nil, or_false] at hmem
      rcases hmem with hnone | h32 | h64
      · rw [if_pos hnone] at hlen
        rw [hnone, hlen]
        rfl
      · rw [hlen, h32, hregs hp h32]
        rfl
      · rw [hlen, h64]
        rfl
    rw [regsUserAt_size hw hp, hsize, hplace, offsetOf_succ h, bytes_present]
    simp only [List.append_nil, List.length_append, length_toLe, length_words, Nat.add_assoc]

theorem regsFit_of_regsUserAt (hw : s.WellFormed attributes header rest) {next : Nat}
    (hat : (s.data cpu attributes header rest).regsUserAt (s.offsetOf attributes 14) =
      .ok (s.rangeOf attributes 14, next)) :
    RegsFit attributes s := by
  intro hp h32
  have h : (s.parts attributes)[14]? = some ⟨true, toLe 8 s.abi, words s.regs, []⟩ := by
    rw [← hp]
    rfl
  have hfits := hw.fits
  have hle := offsetOf_le hw h
  have hcount := countOnes_le attributes.sampleRegsUser
  have hlen := hw.regs hp
  rw [h32, if_neg (by decide)] at hlen
  rw [bytes_present, List.append_nil, List.length_append, length_toLe, length_words, hlen] at hle
  rw [regsUserAt_size hw hp, h32, sampleRegsAbi32, place, addU64_eq_ok.mpr ⟨by omega, rfl⟩,
    ok_bind, Except.ok.injEq, Prod.mk.injEq, rangeOf_present h, DataField.update,
    DataField.mk.injEq, length_words, length_toLe, hlen] at hat
  omega

end Locate

/-! ## The main result -/

variable (cpu : Nat) (attributes : EventAttr) (header rest : Bytes) (s : Sample)

/-- The fields of a fixed length in front of the read format are always right. -/
theorem sampleFields_eq (hw : s.WellFormed attributes header rest) :
    sampleFields (s.data cpu attributes header rest) = (do
      let data := s.data cpu attributes header rest
      let (read, offset) ← placeIf (attributes.hasFormat sampleRead) (s.offsetOf attributes 10)
        data.readFormatSize
      let (callchain, offset) ← data.callchainAt offset
      let (raw, offset) ← data.rawAt offset
      let (branchStack, offset) ← data.branchStackAt offset
      let (regsUser, offset) ← data.regsUserAt offset
      let (stackUser, offset) ← data.stackUserAt offset
      let (cgroup, _) ← data.cgroupAt offset
      .ok { s.refs attributes with
        read, callchain, raw, branchStack, regsUser, stackUser, cgroup }) := by
  have fixed {k len format : Nat} {own : Bytes} (hlen : own.length = len)
      (h : (s.parts attributes)[k]? = some ⟨attributes.hasFormat format, [], own, []⟩)
      (next : DataField × Nat → Exec SampleRefs) :
      placeIf ((s.data cpu attributes header rest).hasFormat format) (s.offsetOf attributes k)
        len >>= next = next (s.rangeOf attributes k, s.offsetOf attributes (k + 1)) := by
    have hplace : placeIf ((s.data cpu attributes header rest).hasFormat format)
        (s.offsetOf attributes k) len =
          .ok (s.rangeOf attributes k, s.offsetOf attributes (k + 1)) := placeIf_part hw h hlen
    rw [hplace, ok_bind]
  have hcpu : (toLe 4 s.cpu ++ toLe 4 s.res).length = 8 := by
    rw [List.length_append, length_toLe, length_toLe]
  have hstart : Header.dataOffset = s.offsetOf attributes 0 := rfl
  unfold sampleFields
  refine (fixed (length_toLe 8 s.identifier) (k := 0) rfl _).trans ?_
  refine (fixed (length_toLe 8 s.ip) (k := 1) rfl _).trans ?_
  refine (fixed (length_toLe 4 s.pid) (k := 2) rfl _).trans ?_
  refine (fixed (length_toLe 4 s.tid) (k := 3) rfl _).trans ?_
  refine (fixed (length_toLe 8 s.time) (k := 4) rfl _).trans ?_
  refine (fixed (length_toLe 8 s.addr) (k := 5) rfl _).trans ?_
  refine (fixed (length_toLe 8 s.id) (k := 6) rfl _).trans ?_
  refine (fixed (length_toLe 8 s.streamId) (k := 7) rfl _).trans ?_
  refine (fixed hcpu (k := 8) rfl _).trans ?_
  refine (fixed (length_toLe 8 s.period) (k := 9) rfl _).trans ?_
  rfl

/-- **The fields of a sample.** Each of them delimits its own bytes, and an absent one none,
if and only if there is no read format but an empty group without further words, and there
are no registers of the 32-bit ABI. -/
theorem sampleFields_refs_iff (hw : s.WellFormed attributes header rest) :
    sampleFields (s.data cpu attributes header rest) = .ok (s.refs attributes) ↔
      ReadFits attributes s ∧ RegsFit attributes s := by
  rw [sampleFields_eq cpu attributes header rest s hw]
  dsimp only
  constructor
  · intro h
    obtain ⟨⟨read, offset⟩, hreadAt, h⟩ := bind_eq_ok.mp h
    obtain ⟨⟨callchain, offset₁⟩, hcallchain, h⟩ := bind_eq_ok.mp h
    obtain ⟨⟨raw, offset₂⟩, hraw, h⟩ := bind_eq_ok.mp h
    obtain ⟨⟨branchStack, offset₃⟩, hbranches, h⟩ := bind_eq_ok.mp h
    obtain ⟨⟨regsUser, offset₄⟩, hregsAt, h⟩ := bind_eq_ok.mp h
    obtain ⟨⟨stackUser, offset₅⟩, -, h⟩ := bind_eq_ok.mp h
    obtain ⟨⟨cgroup, offset₆⟩, -, h⟩ := bind_eq_ok.mp h
    have hrefs := Except.ok.inj h
    have hfield : read = s.rangeOf attributes 10 := congrArg SampleRefs.read hrefs
    have hregsField : regsUser = s.rangeOf attributes 14 := congrArg SampleRefs.regsUser hrefs
    rw [hfield] at hreadAt
    have hread := readFits_of_readAt hw hreadAt
    -- so that the registers are looked for where they are
    rw [readAt_eq hw hread, Except.ok.injEq, Prod.mk.injEq] at hreadAt
    dsimp only at hcallchain hraw hbranches hregsAt
    rw [← hreadAt.2, callchainAt_eq hw, Except.ok.injEq, Prod.mk.injEq] at hcallchain
    rw [← hcallchain.2, rawAt_eq hw, Except.ok.injEq, Prod.mk.injEq] at hraw
    rw [← hraw.2, branchStackAt_eq hw, Except.ok.injEq, Prod.mk.injEq] at hbranches
    rw [← hbranches.2, hregsField] at hregsAt
    exact ⟨hread, regsFit_of_regsUserAt hw hregsAt⟩
  · rintro ⟨hread, hregs⟩
    simp only [readAt_eq hw hread, callchainAt_eq hw, rawAt_eq hw, branchStackAt_eq hw,
      regsUserAt_eq hw hregs, stackUserAt_eq hw, cgroupAt_eq hw, ok_bind]
    rfl

/-- 64-bit registers, a stack of which three of eight bytes were read, and an empty group. -/
theorem sampleFields_refs_stack :
    let attributes : EventAttr :=
      { sampleType := sampleIp ||| sampleTid ||| sampleRead ||| sampleCallchain ||| sampleRaw |||
          sampleRegsUser ||| sampleStackUser ||| sampleCgroup
        readFormat := formatGroup, sampleRegsUser := 0b101 }
    let s : Sample :=
      { ip := 0x1000, pid := 7, tid := 8, ips := [0x1000, 0x2000], raw := [1, 2, 3]
        rawPad := [0], abi := sampleRegsAbi64, regs := [4, 5], stack := [6, 6, 6]
        stackRest := [0, 0, 0, 0, 0], cgroup := 9 }
    sampleFields (s.data 0 attributes (toLe 8 0) []) = .ok (s.refs attributes) :=
  (sampleFields_refs_iff 0 _ (toLe 8 0) [] _
    ⟨by decide, by decide, by decide, by decide, by decide, by decide⟩).mpr
    ⟨fun _ => by decide, fun _ h => absurd h (by decide)⟩

/-- The one value word of a read format is taken for the count of the call chain, and of two
registers of the 32-bit ABI only the first is delimited. -/
theorem sampleFields_misplaced :
    let counted : EventAttr := { sampleType := sampleRead ||| sampleCallchain }
    let counts : Sample := { read := { single := ⟨2, 0, 0⟩ }, ips := [0x1000, 0x2000] }
    let registered : EventAttr := { sampleType := sampleRegsUser, sampleRegsUser := 0b11 }
    let registers : Sample := { abi := sampleRegsAbi32, regs := [4, 5] }
    (counts.WellFormed counted (toLe 8 0) [] ∧
      (sampleFields (counts.data 0 counted (toLe 8 0) [])).map (·.read) = .ok ⟨8, 8⟩ ∧
      (sampleFields (counts.data 0 counted (toLe 8 0) [])).map (·.callchain) = .ok ⟨16, 32⟩ ∧
      (counts.refs counted).read = ⟨8, 16⟩ ∧ (counts.refs counted).callchain = ⟨24, 40⟩) ∧
    (registers.WellFormed registered (toLe 8 0) [] ∧
      (sampleFields (registers.data 0 registered (toLe 8 0) [])).map (·.regsUser) =
        .ok ⟨16, 24⟩ ∧
      (registers.refs registered).regsUser = ⟨16, 32⟩) := by
  refine ⟨⟨⟨?_, ?_, ?_, ?_, ?_, ?_⟩, ?_, ?_, ?_, ?_⟩, ⟨⟨?_, ?_, ?_, ?_, ?_, ?_⟩, ?_, ?_⟩⟩ <;>
    decide

end Sample

end OneCollect.Perf
