import OneCollect.Theory.Bytes

/-! Record headers and sample-id trailers of `abi.rs`. A record is a byte list: a header of
eight bytes with the type, the flags and the size, then the payload, then zeros up to a
multiple of eight. `write_eq_ok` says which records `Header.write` builds, `fromSlice_write`
that the header is read back from them. -/

namespace OneCollect.Perf
open Theory

abbrev Bytes := List UInt8

def perfRecordAlignment : Nat := 8

/-- Clearing the low bits is rounding down to a multiple. -/
def alignToPerfRecord (size : Nat) : Nat :=
  (size + (perfRecordAlignment - 1)) / perfRecordAlignment * perfRecordAlignment

def sampleIp : Nat := 1 <<< 0
def sampleTid : Nat := 1 <<< 1
def sampleTime : Nat := 1 <<< 2
def sampleAddr : Nat := 1 <<< 3
def sampleRead : Nat := 1 <<< 4
def sampleCallchain : Nat := 1 <<< 5
def sampleId : Nat := 1 <<< 6
def sampleCpu : Nat := 1 <<< 7
def samplePeriod : Nat := 1 <<< 8
def sampleStreamId : Nat := 1 <<< 9
def sampleRaw : Nat := 1 <<< 10
def sampleBranchStack : Nat := 1 <<< 11
def sampleRegsUser : Nat := 1 <<< 12
def sampleStackUser : Nat := 1 <<< 13
def sampleWeight : Nat := 1 <<< 14
def sampleDataSrc : Nat := 1 <<< 15
def sampleIdentifier : Nat := 1 <<< 16
def sampleTransaction : Nat := 1 <<< 17
def sampleRegsIntr : Nat := 1 <<< 18
def samplePhysAddr : Nat := 1 <<< 19
def sampleCgroup : Nat := 1 <<< 21

def sampleRegsAbiNone : Nat := 0
def sampleRegsAbi32 : Nat := 1
def sampleRegsAbi64 : Nat := 2

def recordLost : Nat := 2
def recordComm : Nat := 3
def recordSample : Nat := 9
def recordMmap2 : Nat := 10

def formatTotalTimeEnabled : Nat := 1 <<< 0
def formatTotalTimeRunning : Nat := 1 <<< 1
def formatId : Nat := 1 <<< 2
def formatGroup : Nat := 1 <<< 3
def formatLost : Nat := 1 <<< 4

def flagDisabled : Nat := 1 <<< 0
def flagInherit : Nat := 1 <<< 1
def flagExcludeHv : Nat := 1 <<< 6
def flagExcludeIdle : Nat := 1 <<< 7
def flagSampleIdAll : Nat := 1 <<< 18
def flagUseClockid : Nat := 1 <<< 25

/-- The fields of `perf_event_attr` that a reader of records looks at. -/
structure EventAttr where
  sampleType : Nat := 0
  readFormat : Nat := 0
  flags : Nat := 0
  sampleRegsUser : Nat := 0
  deriving DecidableEq, Repr

/-- Positions within the trailer of a record that is not a sample. -/
structure SampleIdOffsets where
  pid : Option Nat := none
  tid : Option Nat := none
  time : Option Nat := none
  id : Option Nat := none
  streamId : Option Nat := none
  cpu : Option Nat := none
  identifier : Option Nat := none
  size : Nat := 0
  deriving DecidableEq, Repr

namespace EventAttr

def hasFlag (self : EventAttr) (flag : Nat) : Bool := self.flags &&& flag == flag

def hasFormat (self : EventAttr) (format : Nat) : Bool := self.sampleType &&& format == format

def hasReadFormat (self : EventAttr) (format : Nat) : Bool :=
  self.readFormat &&& format == format

def nonSampledIdOffsets (self : EventAttr) : Option SampleIdOffsets :=
  if !self.hasFlag flagSampleIdAll then none else
  let offset : SampleIdOffsets := {}
  let offset := if self.hasFormat sampleTid then
    { offset with pid := some offset.size, tid := some (offset.size + 4), size := offset.size + 8 }
    else offset
  let offset := if self.hasFormat sampleTime then
    { offset with time := some offset.size, size := offset.size + 8 } else offset
  let offset := if self.hasFormat sampleId then
    { offset with id := some offset.size, size := offset.size + 8 } else offset
  let offset := if self.hasFormat sampleStreamId then
    { offset with streamId := some offset.size, size := offset.size + 8 } else offset
  let offset := if self.hasFormat sampleCpu then
    { offset with cpu := some offset.size, size := offset.size + 8 } else offset
  let offset := if self.hasFormat sampleIdentifier then
    { offset with identifier := some offset.size, size := offset.size + 8 } else offset
  some offset

end EventAttr

structure Header where
  entryType : Nat
  misc : Nat
  size : Nat
  data : Bytes
  deriving DecidableEq, Repr

namespace Header

def dataOffset : Nat := 8

/-- The conversions of the slices cannot fail: indexing has given them their length. -/
def fromSlice (bytes : Bytes) : Exec Header := do
  let entryType ← readLe 4 bytes 0
  let misc ← readLe 2 bytes 4
  let size ← readLe 2 bytes 6
  let data ← slice bytes dataOffset bytes.length
  .ok ⟨entryType, misc, size, data⟩

def write (entryType misc : Nat) (data output : Bytes) : Exec Bytes := do
  let unalignedSize := data.length + 8
  let size := alignToPerfRecord unalignedSize % 2 ^ 16
  let padding ← subU64 size unalignedSize
  .ok (output ++ toLe 4 entryType ++ toLe 2 misc ++ toLe 2 size ++ data ++
    List.replicate padding 0)

end Header

/-! ## What a written record is -/

theorem alignToPerfRecord_bounds (size : Nat) :
    size ≤ alignToPerfRecord size ∧ alignToPerfRecord size < size + 8 ∧
      alignToPerfRecord size % 8 = 0 := by
  unfold alignToPerfRecord perfRecordAlignment
  omega

theorem alignToPerfRecord_of_mod {size : Nat} (h : size % 8 = 0) : alignToPerfRecord size = size := by
  unfold alignToPerfRecord perfRecordAlignment
  omega

/-- The record with a given payload, `size` bytes long with its padding. -/
def recordOf (entryType misc size : Nat) (data : Bytes) : Bytes :=
  toLe 4 entryType ++ toLe 2 misc ++ toLe 2 size ++ data ++
    List.replicate (size - (data.length + 8)) 0

/-- A payload fits when the record with its padding has a 16-bit size. -/
def Fits (data : Bytes) : Prop := alignToPerfRecord (data.length + 8) < 2 ^ 16

theorem length_recordOf (entryType misc : Nat) {size : Nat} {data : Bytes}
    (h : data.length + 8 ≤ size) :
    (recordOf entryType misc size data).length = size := by
  simp only [recordOf, List.length_append, length_toLe, List.length_replicate]
  omega

/-- **`Header.write`** appends the padded record, and panics on a payload too long for it. -/
theorem write_eq_ok {entryType misc : Nat} {data output out : Bytes} :
    Header.write entryType misc data output = .ok out ↔
      Fits data ∧
        out = output ++ recordOf entryType misc (alignToPerfRecord (data.length + 8)) data := by
  have hb := alignToPerfRecord_bounds (data.length + 8)
  unfold Header.write Fits
  rw [bind_eq_ok]
  constructor
  · rintro ⟨padding, hpad, hout⟩
    obtain ⟨hle, rfl⟩ := subU64_eq_ok.mp hpad
    -- a size that was cut to 16 bits is below the payload
    have hfits : alignToPerfRecord (data.length + 8) < 2 ^ 16 := by omega
    refine ⟨hfits, ?_⟩
    cases hout
    rw [Nat.mod_eq_of_lt hfits]
    simp [recordOf]
  · rintro ⟨hfits, rfl⟩
    refine ⟨_, subU64_eq_ok.mpr ⟨?_, rfl⟩, ?_⟩
    · rw [Nat.mod_eq_of_lt hfits]
      exact hb.1
    · rw [Nat.mod_eq_of_lt hfits]
      simp [recordOf]

/-- The header of a record, from its first eight bytes on. -/
theorem fromSlice_recordOf (entryType misc : Nat) {size n : Nat} (data : Bytes)
    (hs : size < 2 ^ 16) (hn : 8 ≤ n) :
    ∃ rest, Header.fromSlice ((recordOf entryType misc size data).take n) =
      .ok ⟨entryType % 2 ^ 32, misc % 2 ^ 16, size, rest⟩ := by
  obtain ⟨tail, htail⟩ : ∃ tail, (recordOf entryType misc size data).take n =
      toLe 4 entryType ++ toLe 2 misc ++ toLe 2 size ++ tail := by
    have hlen : (toLe 4 entryType ++ toLe 2 misc ++ toLe 2 size).length = 8 := by simp
    refine ⟨(data ++ List.replicate (size - (data.length + 8)) 0).take (n - 8), ?_⟩
    rw [recordOf, List.append_assoc _ data, List.take_append, hlen,
      List.take_of_length_le (by omega)]
  have h₀ := readLe_append [] (toLe 4 entryType) (toLe 2 misc ++ toLe 2 size ++ tail)
    (length_toLe 4 _) (fromLe_toLe 4 entryType).symm
  have h₄ := readLe_append (toLe 4 entryType) (toLe 2 misc) (toLe 2 size ++ tail)
    (length_toLe 2 _) (fromLe_toLe 2 misc).symm
  have h₆ := readLe_append (toLe 4 entryType ++ toLe 2 misc) (toLe 2 size) tail
    (length_toLe 2 _) (fromLe_toLe_of_lt hs).symm
  simp only [List.nil_append, List.length_nil, length_toLe, List.length_append,
    ← List.append_assoc] at h₀ h₄ h₆
  obtain ⟨rest, hrest⟩ : ∃ rest, slice (toLe 4 entryType ++ toLe 2 misc ++ toLe 2 size ++ tail)
      Header.dataOffset (toLe 4 entryType ++ toLe 2 misc ++ toLe 2 size ++ tail).length =
        .ok rest := ⟨_, slice_eq_ok.mpr ⟨⟨by simp [Header.dataOffset]; omega, Nat.le_refl _⟩, rfl⟩⟩
  refine ⟨rest, ?_⟩
  rw [htail, Header.fromSlice, h₀, ok_bind, h₄, ok_bind, h₆, ok_bind, hrest, ok_bind]
  rfl

end OneCollect.Perf
