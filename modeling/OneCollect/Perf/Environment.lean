import OneCollect.Perf.Source

/-! The records that `capture_environment` writes for what runs already, and the sample-id
trailer by which `read_time` and `parse_perf_data` read them back.

A record ends with the time, the id and then its padding, while both readers count from the
end of the padded record. So the id is always read as 0, the time only comes back without
padding or when it is 0, and the process id comes back when the four bytes that stand where
it is looked for spell it (`readsBack_iff`). The trailer of a module record has no process id:
it is read from the end of the path. -/

namespace OneCollect.Perf
open Theory Circular

/-! ## Fields -/

/-- A part of the event data, by its start and its end. -/
structure DataField where
  start : Nat := 0
  stop : Nat := 0
  deriving DecidableEq, Repr

namespace DataField

/-- The field set by `update`; the call also returns `len`. -/
def update (start len : Nat) : DataField := ⟨start % 2 ^ 32, (start + len) % 2 ^ 32⟩

def reset : DataField := update 0 0

def getData (self : DataField) (data : Bytes) : Exec Bytes :=
  if data.length < self.stop then .ok [] else slice data self.start self.stop

def tryGetU64 (self : DataField) (data : Bytes) : Exec (Option Nat) := do
  let bytes ← self.getData data
  if bytes.length < 8 then .ok none else .ok (some (fromLe (bytes.take 8)))

def tryGetU32 (self : DataField) (data : Bytes) : Exec (Option Nat) := do
  let bytes ← self.getData data
  if bytes.length < 4 then .ok none else .ok (some (fromLe (bytes.take 4)))

end DataField

/-- The fields of the session that the trailer of a record sets. -/
structure SampleFields where
  pid : DataField
  tid : DataField
  time : DataField
  id : DataField
  streamId : DataField
  cpu : DataField
  deriving DecidableEq, Repr

/-- A field at `offset` when it is present, and the offset behind it. -/
def fieldAt (present : Option Nat) (offset len : Nat) : DataField × Nat :=
  if present.isSome then (DataField.update offset len, offset + len) else (DataField.reset, offset)

@[simp] theorem fieldAt_some (position offset len : Nat) :
    fieldAt (some position) offset len = (DataField.update offset len, offset + len) := rfl

@[simp] theorem fieldAt_none (offset len : Nat) :
    fieldAt none offset len = (DataField.reset, offset) := rfl

/-- The part of `parse_perf_data` for a record that is not a sample. -/
def nonSampleFields (data : PerfData) : Exec SampleFields := do
  let header ← Header.fromSlice data.rawData
  match data.ancillary.attributes.nonSampledIdOffsets with
  | some offsets => do
    let offset ← subU64 header.size offsets.size
    let (pid, offset) := fieldAt offsets.pid offset 4
    let (tid, offset) := fieldAt offsets.tid offset 4
    let (time, offset) := fieldAt offsets.time offset 8
    let (id, offset) := fieldAt offsets.id offset 8
    let (streamId, offset) := fieldAt offsets.streamId offset 8
    let (cpu, offset) := fieldAt offsets.cpu offset 8
    let id := if offsets.identifier.isSome then DataField.update offset 8 else id
    .ok ⟨pid, tid, time, id, streamId, cpu⟩
  | none => .ok ⟨.reset, .reset, .reset, .reset, .reset, .reset⟩

/-! ## Records of the environment -/

def commonAttributes : EventAttr :=
  { flags := flagUseClockid ||| flagSampleIdAll ||| flagDisabled ||| flagExcludeHv |||
      flagExcludeIdle ||| flagInherit
    readFormat := formatId
    sampleType := sampleIdentifier ||| sampleTime ||| sampleTid }

/-- The buffer of id 0. -/
def environmentBuf : CpuRingBuf := ⟨0, commonAttributes⟩

/-- The record `write_environment_comms` hands to its writer for one process. -/
def commRecord (pid : UInt32) (comm : Bytes) (captureTime : UInt64) : Exec Bytes :=
  Header.write recordComm 0
    (toLe 4 pid.toNat ++ toLe 4 pid.toNat ++ comm ++ [0] ++
      toLe 4 pid.toNat ++ toLe 4 pid.toNat ++
      toLe 8 captureTime.toNat ++ toLe 8 0) []

structure ModuleInfo where
  startAddr : UInt64 := 0
  endAddr : UInt64 := 0
  offset : UInt64 := 0
  ino : UInt64 := 0
  devMaj : UInt32 := 0
  devMin : UInt32 := 0
  path : Option Bytes := none
  flags : UInt8 := 0

def ModuleInfo.len (self : ModuleInfo) : Exec Nat := do
  let size ← subU64 self.endAddr.toNat self.startAddr.toNat
  addU64 size 1

/-- What a module record says before its trailer. -/
def moduleFields (pid : UInt32) (module : ModuleInfo) (len : Nat) : Bytes :=
  toLe 4 pid.toNat ++ toLe 4 pid.toNat ++ toLe 8 module.startAddr.toNat ++ toLe 8 len ++
    toLe 8 module.offset.toNat ++ toLe 4 module.devMaj.toNat ++ toLe 4 module.devMin.toNat ++
    toLe 8 module.ino.toNat ++ toLe 8 0 ++ toLe 4 4 ++ toLe 4 0 ++ module.path.getD [] ++ [0]

/-- The record `write_environment_modules` hands to its writer for one module. -/
def moduleRecord (pid : UInt32) (module : ModuleInfo) (captureTime : UInt64) : Exec Bytes := do
  let len ← module.len
  Header.write recordMmap2 0
    (moduleFields pid module len ++ toLe 8 captureTime.toNat ++ toLe 8 0) []

/-- A record is built, and wherever it lies in a ring `read_time` finds its time and its
buffer, `read` gives it back, and the fields of `parse_perf_data` hold its time, the id 0 and
the process id. -/
def ReadsBack (build : Exec Bytes) (time pid : Nat) : Prop :=
  ∃ record, build = .ok record ∧
    (∀ (ringBufs : RingBufs) (ring : CpuRing) (done rest : List Bytes),
      ringBufs 0 = some environmentBuf → ring.At ringBufs done (record :: rest) →
        readTime ring.reader ring.pages ring.cursor ringBufs =
            .ok (some (time, environmentBuf), ring.cursor) ∧
          ∃ cursor, ring.reader.read ring.pages ring.cursor = .ok (record, cursor)) ∧
    ∃ fields, nonSampleFields ⟨environmentBuf.ancillary, record⟩ = .ok fields ∧
      fields.time.tryGetU64 record = .ok (some time) ∧
      fields.id.tryGetU64 record = .ok (some 0) ∧
      fields.pid.tryGetU32 record = .ok (some pid)

/-! ## The trailer -/

/-- The zeros behind a payload. -/
def paddingOf (payload : Bytes) : Nat :=
  alignToPerfRecord (payload.length + 8) - (payload.length + 8)

section Trailer

variable {entryType time : Nat} {front : Bytes}

/-- The record of a payload that ends with a time and the id 0, up to its zeros. -/
theorem record_shape (entryType : Nat) (front : Bytes) (time : Nat) :
    ∃ header : Bytes, header.length = 8 ∧
      recordOf entryType 0
          (alignToPerfRecord ((front ++ toLe 8 time ++ toLe 8 0).length + 8))
          (front ++ toLe 8 time ++ toLe 8 0) =
        header ++ front ++ toLe 8 time ++
          List.replicate (8 + paddingOf (front ++ toLe 8 time ++ toLe 8 0)) 0 := by
  refine ⟨toLe 4 entryType ++ toLe 2 0 ++
    toLe 2 (alignToPerfRecord ((front ++ toLe 8 time ++ toLe 8 0).length + 8)), by simp, ?_⟩
  rw [List.replicate_add, ← toLe_zero 8]
  simp only [recordOf, paddingOf, List.append_assoc]

/-- The bytes of a record from the end of its front on. -/
theorem drop_front {header : Bytes} (front rest : Bytes) (h : header.length = 8) (j : Nat) :
    (header ++ front ++ rest).drop (8 + front.length + j) = rest.drop j := by
  have hlen : (header ++ front).length = 8 + front.length := by rw [List.length_append, h]
  rw [← hlen, List.drop_append]
  simp

variable {header : Bytes} {k : Nat}

theorem time_word (h : header.length = 8) (ht : time < 2 ^ 64) (hk : k < 8) :
    fromLe (((header ++ front ++ toLe 8 time ++ List.replicate (8 + k) 0).drop
      (8 + front.length + k)).take 8) = time / 256 ^ k := by
  have hlen : ((toLe 8 time).drop k).length = 8 - k := by simp
  have hcut : (8 - (8 - k)) = k := by omega
  rw [List.append_assoc _ (toLe 8 time), drop_front _ _ h,
    List.drop_append_of_le_length (by simp; omega),
    List.take_append, hlen, List.take_of_length_le (by omega), hcut, List.take_replicate,
    fromLe_append, fromLe_replicate, Nat.mul_zero, Nat.add_zero, fromLe_drop (by simp; omega),
    fromLe_toLe_of_lt (by norm_num; exact ht)]

theorem id_word (h : header.length = 8) :
    fromLe (((header ++ front ++ toLe 8 time ++ List.replicate (8 + k) 0).drop
      (8 + front.length + (8 + k))).take 8) = 0 := by
  rw [List.append_assoc _ (toLe 8 time), drop_front _ _ h, List.drop_append]
  simp only [length_toLe, Nat.add_sub_cancel_left, List.drop_replicate, List.take_append]
  rw [List.drop_eq_nil_of_le (by simp), List.take_nil, List.nil_append, List.take_replicate,
    fromLe_replicate]

/-- Where the process id is looked for: in the last eight bytes before the time and in the
time. -/
theorem pid_word (h : header.length = 8) (hf : 8 ≤ front.length) (hk : k < 8) :
    ((header ++ front ++ toLe 8 time ++ List.replicate (8 + k) 0).drop (front.length + k)).take 4 =
      ((front.drop (front.length - 8) ++ toLe 8 time).drop k).take 4 := by
  have hsplit : header ++ front ++ toLe 8 time ++ List.replicate (8 + k) 0 =
      header ++ front.take (front.length - 8) ++
        ((front.drop (front.length - 8) ++ toLe 8 time) ++ List.replicate (8 + k) 0) := by
    conv_lhs => rw [← List.take_append_drop (front.length - 8) front]
    simp only [List.append_assoc]
  have hlen : (front.take (front.length - 8)).length = front.length - 8 := by
    rw [List.length_take]; omega
  have hdrop := drop_front (front.take (front.length - 8))
    ((front.drop (front.length - 8) ++ toLe 8 time) ++ List.replicate (8 + k) 0) h k
  rw [hlen, show 8 + (front.length - 8) + k = front.length + k by omega] at hdrop
  have hend : (front.drop (front.length - 8) ++ toLe 8 time).length = 16 := by
    rw [List.length_append, List.length_drop, length_toLe]; omega
  rw [hsplit, hdrop, List.drop_append_of_le_length (by omega), List.take_append_of_le_length]
  rw [List.length_drop]
  omega

end Trailer

/-! ## Reading back -/

section ReadBack

theorem tryGetU64_eq {field : DataField} {data : Bytes} {start : Nat}
    (hf : field = ⟨start, start + 8⟩) (hle : start + 8 ≤ data.length) :
    field.tryGetU64 data = .ok (some (fromLe ((data.drop start).take 8))) := by
  have hlen : ((data.drop start).take 8).length = 8 := by
    rw [List.length_take, List.length_drop]; omega
  subst hf
  unfold DataField.tryGetU64 DataField.getData
  rw [if_neg (by simp only; omega), slice, if_pos (by simp only; omega), ok_bind,
    Nat.add_sub_cancel_left, hlen, if_neg (by omega), List.take_take]
  rfl

theorem tryGetU32_eq {field : DataField} {data : Bytes} {start : Nat}
    (hf : field = ⟨start, start + 4⟩) (hle : start + 4 ≤ data.length) :
    field.tryGetU32 data = .ok (some (fromLe ((data.drop start).take 4))) := by
  have hlen : ((data.drop start).take 4).length = 4 := by
    rw [List.length_take, List.length_drop]; omega
  subst hf
  unfold DataField.tryGetU32 DataField.getData
  rw [if_neg (by simp only; omega), slice, if_pos (by simp only; omega), ok_bind,
    Nat.add_sub_cancel_left, hlen, if_neg (by omega), List.take_take]
  rfl

theorem update_of_lt {start len : Nat} (h : start + len < 2 ^ 32) :
    DataField.update start len = ⟨start, start + len⟩ := by
  rw [DataField.update, Nat.mod_eq_of_lt (by omega), Nat.mod_eq_of_lt h]

/-- The trailer of the common attributes is the last 24 bytes of the record. -/
theorem nonSampleFields_eq {record : Bytes} {n : Nat} (hb : Built record)
    (hn : record.length = n + 24) :
    nonSampleFields ⟨environmentBuf.ancillary, record⟩ = .ok
      { pid := ⟨n, n + 4⟩, tid := ⟨n + 4, n + 8⟩, time := ⟨n + 8, n + 16⟩
        id := ⟨n + 16, n + 24⟩, streamId := ⟨0, 0⟩, cpu := ⟨0, 0⟩ } := by
  have hoffsets : environmentBuf.ancillary.attributes.nonSampledIdOffsets =
      some { pid := some 0, tid := some 4, time := some 8, identifier := some 16, size := 24 } := rfl
  have hbounds := hb.length_bounds
  obtain ⟨header, hheader, hsize⟩ : ∃ header, Header.fromSlice record = .ok header ∧
      header.size = record.length := by
    obtain ⟨entryType, misc, payload, hwrite⟩ := hb
    obtain ⟨hfits, rfl⟩ := write_eq_ok.mp hwrite
    have halign := alignToPerfRecord_bounds (payload.length + 8)
    rw [List.nil_append] at hbounds ⊢
    have hrecord := length_recordOf entryType misc halign.1
    obtain ⟨rest, hrest⟩ := fromSlice_recordOf entryType misc payload hfits hbounds.1
    rw [List.take_length] at hrest
    exact ⟨_, hrest, hrecord.symm⟩
  have hsub : subU64 (n + 24) 24 = .ok n := by simp [subU64]
  unfold nonSampleFields
  simp only [hheader, ok_bind, hoffsets, hsize, hn, hsub, fieldAt_some, fieldAt_none,
    Option.isSome_some, if_true, Nat.add_assoc]
  rw [update_of_lt (by omega), update_of_lt (by omega), update_of_lt (by omega),
    update_of_lt (by omega)]
  rfl

variable {time pid : Nat} {front : Bytes}

/-- **Reading back** a record that ends with its time and the id 0. -/
theorem readsBack_iff (entryType : Nat) (he : entryType % 2 ^ 32 ≠ recordSample)
    (hfront : 8 ≤ front.length) (ht : time < 2 ^ 64) :
    ReadsBack (Header.write entryType 0 (front ++ toLe 8 time ++ toLe 8 0) []) time pid ↔
      Fits (front ++ toLe 8 time ++ toLe 8 0) ∧
        (paddingOf (front ++ toLe 8 time ++ toLe 8 0) = 0 ∨ time = 0) ∧
        fromLe (((front.drop (front.length - 8) ++ toLe 8 time).drop
          (paddingOf (front ++ toLe 8 time ++ toLe 8 0))).take 4) = pid := by
  obtain ⟨header, hheader, hshape⟩ := record_shape entryType front time
  have halign := alignToPerfRecord_bounds ((front ++ toLe 8 time ++ toLe 8 0).length + 8)
  have hsize := length_recordOf entryType 0 halign.1
  have hk : paddingOf (front ++ toLe 8 time ++ toLe 8 0) < 8 := by
    unfold paddingOf
    omega
  have htotal : alignToPerfRecord ((front ++ toLe 8 time ++ toLe 8 0).length + 8) =
      front.length + paddingOf (front ++ toLe 8 time ++ toLe 8 0) + 24 := by
    unfold paddingOf
    simp only [List.length_append, length_toLe] at halign ⊢
    omega
  rw [htotal] at hsize
  generalize hrec : recordOf entryType 0
    (alignToPerfRecord ((front ++ toLe 8 time ++ toLe 8 0).length + 8))
    (front ++ toLe 8 time ++ toLe 8 0) = record at hshape
  rw [← htotal, hrec, htotal] at hsize
  generalize hkdef : paddingOf (front ++ toLe 8 time ++ toLe 8 0) = k at *
  -- the three words, from their places in the record
  have hpid : ((record.drop (front.length + k)).take 4) =
      ((front.drop (front.length - 8) ++ toLe 8 time).drop k).take 4 := by
    rw [hshape]
    exact pid_word hheader hfront hk
  have htime : fromLe ((record.drop (front.length + k + 8)).take 8) = time / 256 ^ k := by
    rw [hshape, show front.length + k + 8 = 8 + front.length + k by omega]
    exact time_word hheader ht hk
  have hid : fromLe ((record.drop (front.length + k + 16)).take 8) = 0 := by
    rw [hshape, show front.length + k + 16 = 8 + front.length + (8 + k) by omega]
    exact id_word hheader
  have hquot : time / 256 ^ k = time ↔ k = 0 ∨ time = 0 := by
    rw [Nat.div_eq_self, Nat.pow_eq_one]
    omega
  have hfields : Built record → nonSampleFields ⟨environmentBuf.ancillary, record⟩ = .ok _ :=
    fun hb => nonSampleFields_eq hb hsize
  constructor
  · rintro ⟨r, hwrite, -, fields, hfields', hft, -, hfp⟩
    obtain ⟨hfits, hr⟩ := write_eq_ok.mp hwrite
    rw [List.nil_append, hrec] at hr
    subst hr
    rw [hfields ⟨_, _, _, hwrite⟩] at hfields'
    cases hfields'
    rw [tryGetU64_eq rfl (by omega), htime] at hft
    rw [tryGetU32_eq rfl (by omega), hpid] at hfp
    refine ⟨hfits, hquot.mp ?_, ?_⟩
    · simpa using hft
    · simpa using hfp
  · rintro ⟨hfits, hzero, hfp⟩
    have hwrite : Header.write entryType 0 (front ++ toLe 8 time ++ toLe 8 0) [] = .ok record :=
      write_eq_ok.mpr ⟨hfits, by rw [List.nil_append, hrec]⟩
    rw [hquot.mpr hzero] at htime
    refine ⟨record, hwrite, ?_, _, hfields ⟨_, _, _, hwrite⟩, ?_, ?_, ?_⟩
    · intro ringBufs ring done rest hbuf hat
      have hsample : isSample record = false := by
        have hb : Built record := ⟨_, _, _, hwrite⟩
        obtain ⟨rest', hslice⟩ := fromSlice_recordOf entryType 0
          (front ++ toLe 8 time ++ toLe 8 0) hfits (Nat.le_refl 8)
        rw [hrec] at hslice
        have htype := fromSlice_entryType hslice
        unfold isSample
        rw [← htype]
        simpa using he
      have hrid : recordId record = 0 := by
        unfold recordId
        rw [hsample, if_neg Bool.false_ne_true, hsize]
        exact hid
      have hread := readTime_cons hat
      unfold recordTime at hread
      rw [hrid, hbuf] at hread
      simp only [Option.map_some, hsample, Bool.false_eq_true, if_false, hsize] at hread
      rw [show front.length + k + 24 - 16 = front.length + k + 8 by omega, htime] at hread
      exact ⟨hread, _, read_at hat⟩
    · rw [tryGetU64_eq rfl (by omega), htime]
    · rw [tryGetU64_eq rfl (by omega), hid]
    · rw [tryGetU32_eq rfl (by omega), hpid, hfp]

end ReadBack

/-! ## Processes and modules -/

/-- Four bytes as a number, from position `k` of the last eight bytes before a time on. -/
def pidAt (last : Bytes) (time : UInt64) (k : Nat) : Nat :=
  fromLe (((last ++ toLe 8 time.toNat).drop k).take 4)

theorem uint64_toNat_eq_zero {x : UInt64} : x.toNat = 0 ↔ x = 0 := by
  rw [← UInt64.toNat_inj]
  rfl

theorem fits_iff {payload : Bytes} : Fits payload ↔ payload.length ≤ 65520 := by
  unfold Fits alignToPerfRecord perfRecordAlignment
  omega

theorem paddingOf_eq (payload : Bytes) (n : Nat) (h : payload.length = n + 1) :
    paddingOf payload = 7 - n % 8 := by
  unfold paddingOf alignToPerfRecord perfRecordAlignment
  omega

/-- The record of a process. -/
theorem commRecord_readsBack_iff (pid : UInt32) (comm : Bytes) (time : UInt64) :
    ReadsBack (commRecord pid comm time) time.toNat pid.toNat ↔
      comm.length ≤ 65487 ∧ (comm.length % 8 = 7 ∨
        time = 0 ∧ pidAt (toLe 4 pid.toNat ++ toLe 4 pid.toNat) 0 (7 - comm.length % 8) =
          pid.toNat) := by
  have hlen : (toLe 4 pid.toNat ++ toLe 4 pid.toNat ++ comm ++ [0] ++
      toLe 4 pid.toNat ++ toLe 4 pid.toNat).length = comm.length + 9 + 8 := by
    simp only [List.length_append, length_toLe, List.length_cons, List.length_nil]
    omega
  have hlast : (toLe 4 pid.toNat ++ toLe 4 pid.toNat ++ comm ++ [0] ++
      toLe 4 pid.toNat ++ toLe 4 pid.toNat).drop (comm.length + 9) =
        toLe 4 pid.toNat ++ toLe 4 pid.toNat := by
    have hpre : (toLe 4 pid.toNat ++ toLe 4 pid.toNat ++ comm ++ [0]).length =
        comm.length + 9 := by
      simp only [List.length_append, length_toLe, List.length_cons, List.length_nil]
      omega
    rw [List.append_assoc _ (toLe 4 pid.toNat) (toLe 4 pid.toNat), ← hpre, List.drop_left]
  have hpad := paddingOf_eq (toLe 4 pid.toNat ++ toLe 4 pid.toNat ++ comm ++ [0] ++
      toLe 4 pid.toNat ++ toLe 4 pid.toNat ++ toLe 8 time.toNat ++ toLe 8 0) (comm.length + 32)
    (by rw [List.length_append, List.length_append, hlen, length_toLe, length_toLe])
  have hpid : fromLe (toLe 4 pid.toNat) = pid.toNat :=
    fromLe_toLe_of_lt (by norm_num; exact pid.toNat_lt)
  unfold commRecord
  rw [readsBack_iff recordComm (by decide) (by omega) time.toNat_lt, fits_iff, hpad, hlen,
    Nat.add_sub_cancel, hlast, uint64_toNat_eq_zero, List.length_append, List.length_append, hlen,
    length_toLe, length_toLe]
  have hmod : (comm.length + 32) % 8 = comm.length % 8 := by omega
  rw [hmod]
  constructor
  · rintro ⟨hfits, hzero, hp⟩
    refine ⟨by omega, ?_⟩
    by_cases h7 : comm.length % 8 = 7
    · exact Or.inl h7
    · have htime : time = 0 := hzero.resolve_left (by omega)
      subst htime
      exact Or.inr ⟨rfl, hp⟩
  · rintro ⟨hfits, h7 | ⟨rfl, hp⟩⟩
    · rw [h7]
      refine ⟨by omega, Or.inl rfl, ?_⟩
      rw [Nat.sub_self, List.drop_zero, List.append_assoc,
        List.take_append_of_le_length (by rw [length_toLe]),
        List.take_of_length_le (by rw [length_toLe])]
      exact hpid
    · exact ⟨by omega, Or.inr rfl, hp⟩

/-- The last eight bytes of a module record before its time: the end of the path and its zero,
for a short path behind the protection and the flags. -/
def moduleTail (path : Bytes) : Bytes :=
  (toLe 4 4 ++ toLe 4 0 ++ path ++ [0]).drop (path.length + 1)

theorem len_eq_ok {module : ModuleInfo} {len : Nat} :
    module.len = .ok len ↔ module.startAddr.toNat ≤ module.endAddr.toNat ∧
      module.endAddr.toNat - module.startAddr.toNat + 1 < 2 ^ 64 ∧
      len = module.endAddr.toNat - module.startAddr.toNat + 1 := by
  unfold ModuleInfo.len
  rw [bind_eq_ok]
  constructor
  · rintro ⟨size, hsize, hlen⟩
    obtain ⟨hle, rfl⟩ := subU64_eq_ok.mp hsize
    exact ⟨hle, addU64_eq_ok.mp hlen⟩
  · rintro ⟨hle, hlt, rfl⟩
    exact ⟨_, subU64_eq_ok.mpr ⟨hle, rfl⟩, addU64_eq_ok.mpr ⟨hlt, rfl⟩⟩

/-- The record of a module. -/
theorem moduleRecord_readsBack_iff (pid : UInt32) (module : ModuleInfo) (time : UInt64) :
    ReadsBack (moduleRecord pid module time) time.toNat pid.toNat ↔
      (module.startAddr.toNat ≤ module.endAddr.toNat ∧
        module.endAddr.toNat - module.startAddr.toNat + 1 < 2 ^ 64) ∧
      (module.path.getD []).length ≤ 65439 ∧
      ((module.path.getD []).length % 8 = 7 ∨ time = 0) ∧
      pidAt (moduleTail (module.path.getD [])) time (7 - (module.path.getD []).length % 8) =
        pid.toNat := by
  generalize hpath : module.path.getD [] = path
  have hlen : ∀ len, (moduleFields pid module len).length = path.length + 57 + 8 := by
    intro len
    simp only [moduleFields, hpath, List.length_append, length_toLe, List.length_cons,
      List.length_nil]
    omega
  have hlast : ∀ len, (moduleFields pid module len).drop (path.length + 57) = moduleTail path := by
    intro len
    have hpre : (toLe 4 pid.toNat ++ toLe 4 pid.toNat ++ toLe 8 module.startAddr.toNat ++
        toLe 8 len ++ toLe 8 module.offset.toNat ++ toLe 4 module.devMaj.toNat ++
        toLe 4 module.devMin.toNat ++ toLe 8 module.ino.toNat ++ toLe 8 0).length = 56 := by
      simp
    have hsplit : moduleFields pid module len =
        (toLe 4 pid.toNat ++ toLe 4 pid.toNat ++ toLe 8 module.startAddr.toNat ++
        toLe 8 len ++ toLe 8 module.offset.toNat ++ toLe 4 module.devMaj.toNat ++
        toLe 4 module.devMin.toNat ++ toLe 8 module.ino.toNat ++ toLe 8 0) ++
          (toLe 4 4 ++ toLe 4 0 ++ path ++ [0]) := by
      simp only [moduleFields, hpath, List.append_assoc]
    rw [hsplit, show path.length + 57 = 56 + (path.length + 1) by omega, ← hpre, List.drop_append]
    simp [moduleTail]
  have hone : ∀ len, ReadsBack (Header.write recordMmap2 0
        (moduleFields pid module len ++ toLe 8 time.toNat ++ toLe 8 0) []) time.toNat pid.toNat ↔
      path.length ≤ 65439 ∧ (path.length % 8 = 7 ∨ time = 0) ∧
        pidAt (moduleTail path) time (7 - path.length % 8) = pid.toNat := by
    intro len
    have hpad := paddingOf_eq (moduleFields pid module len ++ toLe 8 time.toNat ++ toLe 8 0)
      (path.length + 80)
      (by rw [List.length_append, List.length_append, hlen, length_toLe, length_toLe])
    have hmod : (path.length + 80) % 8 = path.length % 8 := by omega
    rw [readsBack_iff recordMmap2 (by decide) (by rw [hlen]; omega) time.toNat_lt, fits_iff, hpad,
      hlen, Nat.add_sub_cancel, hlast, uint64_toNat_eq_zero, List.length_append,
      List.length_append, hlen, length_toLe, length_toLe, hmod]
    have hfits : path.length + 57 + 8 + 8 + 8 ≤ 65520 ↔ path.length ≤ 65439 := by omega
    have hzero : 7 - path.length % 8 = 0 ↔ path.length % 8 = 7 := by omega
    rw [hfits, hzero]
    rfl
  unfold moduleRecord
  constructor
  · intro h
    have hbuild := h
    obtain ⟨record, hrecord, -⟩ := h
    obtain ⟨len, hmlen, -⟩ := bind_eq_ok.mp hrecord
    obtain ⟨hle, hlt, -⟩ := len_eq_ok.mp hmlen
    rw [hmlen, ok_bind] at hbuild
    exact ⟨⟨hle, hlt⟩, (hone len).mp hbuild⟩
  · rintro ⟨⟨hle, hlt⟩, hrest⟩
    rw [len_eq_ok.mpr ⟨hle, hlt, rfl⟩, ok_bind]
    exact (hone _).mpr hrest

/-- **Records of the environment.** A process record reads back exactly when its name leaves no
padding, or when its time is 0 and the bytes found for the process id spell it; a module
record exactly when its path leaves no padding or its time is 0, and the end of its path
spells the process id. -/
theorem environment_readsBack_iff (pid : UInt32) (comm : Bytes) (module : ModuleInfo)
    (time : UInt64) :
    (ReadsBack (commRecord pid comm time) time.toNat pid.toNat ↔
      comm.length ≤ 65487 ∧ (comm.length % 8 = 7 ∨
        time = 0 ∧ pidAt (toLe 4 pid.toNat ++ toLe 4 pid.toNat) 0 (7 - comm.length % 8) =
          pid.toNat)) ∧
    (ReadsBack (moduleRecord pid module time) time.toNat pid.toNat ↔
      (module.startAddr.toNat ≤ module.endAddr.toNat ∧
        module.endAddr.toNat - module.startAddr.toNat + 1 < 2 ^ 64) ∧
      (module.path.getD []).length ≤ 65439 ∧
      ((module.path.getD []).length % 8 = 7 ∨ time = 0) ∧
      pidAt (moduleTail (module.path.getD [])) time (7 - (module.path.getD []).length % 8) =
        pid.toNat) :=
  ⟨commRecord_readsBack_iff pid comm time, moduleRecord_readsBack_iff pid module time⟩

/-- A process without a name is padded by seven bytes, and its time is lost. -/
theorem environment_not_readsBack :
    ¬ ((∀ (pid : UInt32) (comm : Bytes) (time : UInt64),
        ReadsBack (commRecord pid comm time) time.toNat pid.toNat) ∧
      ∀ (pid : UInt32) (module : ModuleInfo) (time : UInt64),
        ReadsBack (moduleRecord pid module time) time.toNat pid.toNat) := by
  rintro ⟨hcomm, -⟩
  have h := (commRecord_readsBack_iff 1 [] 5).mp (hcomm 1 [] 5)
  cases h.2 with
  | inl h7 => exact absurd h7 (by decide)
  | inr h0 => exact absurd h0.1 (by decide)

end OneCollect.Perf
