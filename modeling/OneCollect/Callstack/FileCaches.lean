import OneCollect.Callstack.Sections
import OneCollect.Ruwind.Walk
import OneCollect.Theory.Provenance

/-! The caches of files: descriptors, `va_offset`s and frame tables, which the callstack helper, the
exporter and the unwinder keep by a `ModuleKey`.

The key of a file has one device number for the two numbers of a record. Different files get one key
where the minor number of one runs into the major number of the other, and in the helper also where
major numbers differ from bit 24 on (`Side.key_eq_iff`). The caches serve every module from its own
file exactly if no two files of a run share a key so (`caches_own_iff`). -/

namespace OneCollect.Ruwind
open Theory

/-! ## What a table is built from -/

section Built

variable {key : ModuleKey} {files more : Option File → Prop} {frames : FrameOffsets}

/-- The table of a module as lookups leave it, for each of which the file of the module was one of
these. -/
inductive FrameOffsets.BuiltFrom (key : ModuleKey) (files : Option File → Prop) :
    FrameOffsets → Prop
  | empty : BuiltFrom key files {}
  | lookup {checks : OverflowChecks} {accessor : ModuleAccessor} {frames frames' : FrameOffsets}
      {rva : Nat} {answer : Option FrameOffset} (hbuilt : BuiltFrom key files frames)
      (hfile : files (accessor key))
      (hlookup : frames.getFrameOffset checks accessor key rva = .ok (answer, frames')) :
      BuiltFrom key files frames'

theorem FrameOffsets.BuiltFrom.mono (h : frames.BuiltFrom key files)
    (hmore : ∀ file, files file → more file) : frames.BuiltFrom key more := by
  induction h with
  | empty => exact .empty
  | lookup _ hfile hlookup ih => exact ih.lookup (hmore _ hfile) hlookup

/-- A walk looks up the tables of modules in their files. -/
theorem builtFrom_assumed (checks : OverflowChecks) (accessor : ModuleAccessor) (stackData : Bytes)
    (files : ModuleKey → Option File → Prop) (haccessor : ∀ key, files key (accessor key)) :
    Unwinder.Assumed False checks accessor stackData
      fun cache => ∀ key, (cache key).BuiltFrom key (files key) where
  checks_off := False.elim
  stack_lt := False.elim
  lookup := by
    intro cache key rva hcache
    have hends := @FrameOffsets.getFrameOffset_ends accessor key False checks False.elim
      (cache key) False.elim False.elim rva
    obtain ⟨out, hout, -⟩ | hpanic := hends
    · refine .inl ⟨out, hout, fun other => ?_⟩
      by_cases hother : other = key
      · subst hother
        rw [Function.update_self]
        exact (hcache other).lookup (haccessor other) hout
      · rw [Function.update_of_ne hother]
        exact hcache other
    · exact .inr hpanic

/-- **The tables after a walk.** -/
theorem loop_builtFrom {checks : OverflowChecks} {accessor : ModuleAccessor} {stackData : Bytes}
    {process : Unwindable} {files : ModuleKey → Option File → Prop} {unwinder : Unwinder}
    {rip rbp rsp : Nat} {ended : Option Walk} (haccessor : ∀ key, files key (accessor key))
    (hprocess : Unwinder.HasPositions False process)
    (hcache : ∀ key, (unwinder.frameCache key).BuiltFrom key (files key))
    (h : (Walk.mk (unwinder.reset rip rbp rsp) [rip] { framesPushed := 1 }).loop checks process
      accessor stackData 129 = .ok ended) :
    ∃ walk, ended = some walk ∧
      ∀ key, (walk.unwinder.frameCache key).BuiltFrom key (files key) := by
  have hassumed := builtFrom_assumed checks accessor stackData files haccessor
  have hhead : Walk.AtHead (fun cache => ∀ key, (cache key).BuiltFrom key (files key)) process [] rip
      (Walk.mk (unwinder.reset rip rbp rsp) [rip] { framesPushed := 1 }) :=
    ⟨⟨unwinder.reset_sized rip rbp rsp, hcache⟩, .inl ⟨rfl, rfl, rfl⟩⟩
  have hends := Walk.loop_ends hassumed hprocess 129 hhead (Nat.le_add_right 129 1)
  obtain ⟨walk, hwalk, hended⟩ := hends.of_ok h
  exact ⟨walk, hwalk, hended.2.cache⟩

end Built

end OneCollect.Ruwind

namespace OneCollect.Callstack
open Theory Ruwind Exporting Provenance

/-! ## Keys -/

/-- The numbers by which a record names a file. -/
structure FileId where
  maj : Nat
  min : Nat
  ino : Nat
  deriving DecidableEq, Repr

/-- Who keeps descriptors for the unwinder. -/
inductive Side where
  | callstack
  | exporter
  deriving DecidableEq, Repr

namespace Side

/-- `ModuleKey::new` of the device in `MachineState::add_mmap_exec`, `ModuleKey::from_parts` in
`ExportMachine::add_mmap_exec`. -/
def key : Side → FileId → ModuleKey
  | callstack, id => ⟨MachineState.deviceOf id.maj id.min, id.ino⟩
  | exporter, id =>
    let node := ExportDevNode.fromParts id.maj id.min id.ino
    ⟨node.dev, node.ino⟩

/-- The bits of a major number that a side keeps. -/
def majorBits : Side → FileId → Nat
  | callstack, id => id.maj % 2 ^ 24
  | exporter, id => id.maj

/-- What two files with one key have in common: the inode, the low byte of the minor number, and the
bits of the major number together with those of the minor number above its low byte. -/
def Collide (side : Side) (id other : FileId) : Prop :=
  id.ino = other.ino ∧ id.min % 256 = other.min % 256 ∧
    side.majorBits id ||| id.min / 256 = side.majorBits other ||| other.min / 256

end Side

/-- The high bits of a minor number end up in those of the major number. -/
theorem device_eq (maj min : Nat) :
    maj <<< 8 ||| min = 256 * (maj ||| min / 256) + min % 256 := by
  have hdiv : (maj <<< 8 ||| min) / 2 ^ 8 = maj ||| min / 256 := by
    rw [Nat.or_div_two_pow, Nat.shiftLeft_eq, Nat.mul_div_cancel _ (by decide)]
  have hmod : (maj <<< 8 ||| min) % 2 ^ 8 = min % 256 := by
    rw [Nat.or_mod_two_pow, Nat.shiftLeft_eq, Nat.mul_mod_left, Nat.zero_or]
  have hsplit := Nat.div_add_mod (maj <<< 8 ||| min) (2 ^ 8)
  rw [hdiv, hmod] at hsplit
  omega

theorem shifted_mod (maj : Nat) : (maj <<< 8) % 2 ^ 32 = (maj % 2 ^ 24) <<< 8 := by
  rw [Nat.shiftLeft_eq, Nat.shiftLeft_eq]
  omega

namespace Side

variable {side : Side} {id other : FileId}

theorem dev_key (side : Side) (id : FileId) :
    (side.key id).dev = 256 * (side.majorBits id ||| id.min / 256) + id.min % 256 := by
  cases side with
  | callstack => exact (congrArg (· ||| id.min) (shifted_mod id.maj)).trans (device_eq _ _)
  | exporter => exact device_eq _ _

/-- **Shared keys.** -/
theorem key_eq_iff : side.key id = side.key other ↔ side.Collide id other := by
  have hino : ∀ id, (side.key id).ino = id.ino := by
    intro id
    cases side with
    | callstack => rfl
    | exporter => rfl
  have hkey : ∀ a b : ModuleKey, a = b ↔ a.dev = b.dev ∧ a.ino = b.ino := by
    intro a b
    cases a
    cases b
    exact ModuleKey.mk.injEq .. ▸ Iff.rfl
  rw [hkey, hino, hino, dev_key, dev_key, Collide, and_comm]
  refine and_congr_right fun _ => ?_
  omega

end Side

/-! ## What records change -/

/-- The file that a side takes a record to map. Neither has one for memory; to the exporter a mapping
without a name is memory, and it leaves out those of pid 0. -/
def Side.file (side : Side) : TaskRecord → Option FileId
  | .mmap _ pid _ _ _ _ maj min ino prot filename _ _ =>
    if prot &&& protExec ≠ protExec then none
    else
      match side with
      | callstack => if MachineState.memBacked filename then none else some ⟨maj, min, ino⟩
      | exporter => if pid = 0 ∨ isAnon filename then none else some ⟨maj, min, ino⟩
  | _ => none

/-- A descriptor is kept under a key. -/
def Side.keeps (side : Side) (s : Trackers) (key : ModuleKey) : Bool :=
  match side with
  | callstack => (s.callstack.modules.fds key).isSome
  | exporter => s.exporter.os.devNodes ⟨key.dev, key.ino⟩

def Side.vaOffset (side : Side) (s : Trackers) (key : ModuleKey) : Option Nat :=
  match side with
  | callstack => s.callstack.modules.vaOffsets key
  | exporter => s.exporter.os.vaOffsets ⟨key.dev, key.ino⟩

/-- A record changes the descriptors and the offsets of a side under the key of its file only. -/
def Side.ChangesOwn (side : Side) (s t : Trackers) (record : TaskRecord) : Prop :=
  ChangesAt side.key (side.keeps s) (side.keeps t) (side.file record) ∧
    ChangesAt side.key (side.vaOffset s) (side.vaOffset t) (side.file record)

section Helper

variable {checks : OverflowChecks} {modules modules' : ModuleLookup} {key : ModuleKey}

theorem keepFile_fds (key : Option ModuleKey) (file : Option OpenedFile) {k : ModuleKey}
    (h : (modules.keepFile key file).fds k ≠ modules.fds k) : key = some k := by
  unfold ModuleLookup.keepFile at h
  split at h
  · split at h
    · exact absurd rfl h
    · by_contra hne
      exact h (Function.update_of_ne (fun heq => hne (congrArg some heq.symm)) _ _)
  · exact absurd rfl h

theorem keepFile_vaOffsets (key : Option ModuleKey) (file : Option OpenedFile) :
    (modules.keepFile key file).vaOffsets = modules.vaOffsets := by
  unfold ModuleLookup.keepFile
  split
  · split
    · rfl
    · rfl
  · rfl

theorem vaOffset_fds : (modules.vaOffset key).2.fds = modules.fds := by
  unfold ModuleLookup.vaOffset
  split
  · rfl
  · rfl

theorem vaOffset_vaOffsets {k : ModuleKey}
    (h : (modules.vaOffset key).2.vaOffsets k ≠ modules.vaOffsets k) : key = k := by
  unfold ModuleLookup.vaOffset at h
  split at h
  · exact absurd rfl h
  · by_contra hne
    exact h (Function.update_of_ne (Ne.symm hne) _ _)

/-- The lookup that a new module leaves. -/
theorem newModule_modules {addr len offset maj min ino : Nat} {filename : String} {module : Module}
    (h : MachineState.newModule checks modules addr len offset maj min ino filename =
      .ok (module, modules')) :
    modules'.fds = modules.fds ∧ ∀ k, modules'.vaOffsets k ≠ modules.vaOffsets k →
      MachineState.moduleKey maj min ino filename = some k := by
  unfold MachineState.newModule at h
  obtain ⟨stop, -, h⟩ := bind_eq_ok.mp h
  cases hkey : MachineState.moduleKey maj min ino filename with
  | none =>
    rw [hkey] at h
    cases h
    exact ⟨rfl, fun k hk => absurd rfl hk⟩
  | some key =>
    rw [hkey] at h
    cases h
    exact ⟨vaOffset_fds, fun k hk => congrArg some (vaOffset_vaOffsets hk)⟩

theorem moduleKey_eq_some {maj min ino : Nat} {filename : String} {k : ModuleKey}
    (h : MachineState.moduleKey maj min ino filename = some k) :
    MachineState.memBacked filename = false ∧ Side.callstack.key ⟨maj, min, ino⟩ = k := by
  unfold MachineState.moduleKey at h
  split at h
  · cases h
  · rename_i hmem
    exact ⟨by simpa using hmem, Option.some.inj h⟩

end Helper

/-- The descriptors and offsets of the helper after a record. -/
theorem helper_changes {checks : OverflowChecks} {s t : MachineState} {record : TaskRecord}
    (h : s.hook checks record = .ok t) (k : ModuleKey)
    (hk : t.modules.fds k ≠ s.modules.fds k ∨ t.modules.vaOffsets k ≠ s.modules.vaOffsets k) :
    ∃ id, Side.callstack.file record = some id ∧ Side.callstack.key id = k := by
  have hsame : t.modules = s.modules → False := fun heq => by
    rw [heq] at hk
    exact hk.elim (fun hne => hne rfl) fun hne => hne rfl
  cases record with
  | comm pid tid comm time nsPid =>
    refine (hsame ?_).elim
    rw [← Except.ok.inj h]
    split
    · rfl
    · rfl
  | fork pid ppid tid =>
    refine (hsame ?_).elim
    rw [← Except.ok.inj h]
    split
    · rfl
    · rfl
  | exit pid tid time =>
    refine (hsame ?_).elim
    rw [← Except.ok.inj h]
    rfl
  | mmap time pid tid addr len pgoffset maj min ino prot filename file openedFile =>
    simp only [MachineState.hook] at h
    split at h
    · exact (hsame (congrArg _ (Except.ok.inj h).symm)).elim
    · rename_i hexec
      let key := MachineState.moduleKey maj min ino filename
      have hkey : key = some k := by
        simp only [MachineState.addMmapExec] at h
        split at h
        · cases h
          rcases hk with hfd | hoffset
          · exact keepFile_fds key file hfd
          · exact absurd (congrFun (keepFile_vaOffsets key file) k) hoffset
        · obtain ⟨⟨module, modules⟩, hmodule, h⟩ := bind_eq_ok.mp h
          cases h
          obtain ⟨hfds, hoffsets⟩ := newModule_modules hmodule
          rcases hk with hfd | hoffset
          · exact keepFile_fds key file (fun heq => hfd ((congrFun hfds k).trans heq))
          · refine hoffsets k fun heq => hoffset (heq.trans ?_)
            exact congrFun (keepFile_vaOffsets key file) k
      obtain ⟨hmem, hk⟩ := moduleKey_eq_some hkey
      refine ⟨⟨maj, min, ino⟩, ?_, hk⟩
      simp only [Side.file, if_neg hexec, hmem]
      rfl

section Exporter

variable {pid : Nat} {mapping : ProcessMapping}

/-- A new mapping changes the maps at its node only. -/
theorem osAddMmapExec_os (self : RecordingMachine) {file : Option OpenedFile}
    {node : ExportDevNode}
    (h : (self.osAddMmapExec pid mapping file).2.os.devNodes node ≠ self.os.devNodes node ∨
      (self.osAddMmapExec pid mapping file).2.os.vaOffsets node ≠ self.os.vaOffsets node) :
    mapping.node = some node := by
  unfold RecordingMachine.osAddMmapExec at h
  cases hnode : mapping.node with
  | none =>
    rw [hnode] at h
    exact (h.elim (fun hne => hne rfl) fun hne => hne rfl).elim
  | some other =>
    rw [hnode] at h
    by_contra hne
    have hother : node ≠ other := fun heq => hne (congrArg some heq.symm)
    dsimp only at h
    split at h
    · exact h.elim (fun hne => hne rfl) fun hne => hne rfl
    · rcases h with h | h
      · exact h (Function.update_of_ne hother _ _)
      · exact h (Function.update_of_ne hother _ _)

theorem newMapping_node {checks : OverflowChecks}
    {filenameId id time addr len pgoffset maj min ino : Nat} {filename : String}
    (h : RecordingMachine.newMapping checks filenameId id time addr len pgoffset maj min ino
      filename = .ok mapping) :
    mapping.node = if isAnon filename then none else some (.fromParts maj min ino) := by
  unfold RecordingMachine.newMapping at h
  obtain ⟨stop, -, h⟩ := bind_eq_ok.mp h
  obtain ⟨stop', -, h⟩ := bind_eq_ok.mp h
  cases h
  rfl

/-- The maps of the exporter after a record. -/
theorem exporter_changes {checks : OverflowChecks} {s t : RecordingMachine} {record : TaskRecord}
    (h : s.hook checks record = .ok t) (node : ExportDevNode)
    (hk : t.os.devNodes node ≠ s.os.devNodes node ∨ t.os.vaOffsets node ≠ s.os.vaOffsets node) :
    ∃ id, Side.exporter.file record = some id ∧
      ExportDevNode.fromParts id.maj id.min id.ino = node := by
  have hsame : t.os = s.os → False := fun heq => by
    rw [heq] at hk
    exact hk.elim (fun hne => hne rfl) fun hne => hne rfl
  cases record with
  | comm pid tid comm time nsPid =>
    refine (hsame ?_).elim
    rw [← Except.ok.inj h]
    unfold RecordingMachine.addCommExec
    split
    · rfl
    · split
      · rfl
      · rfl
  | fork pid ppid tid =>
    refine (hsame ?_).elim
    rw [← Except.ok.inj h]
    split
    · rfl
    · rfl
  | exit pid tid time =>
    refine (hsame ?_).elim
    rw [← Except.ok.inj h]
    unfold RecordingMachine.addCommExit
    split
    · rfl
    · rfl
  | mmap time pid tid addr len pgoffset maj min ino prot filename file openedFile =>
    simp only [RecordingMachine.hook, RecordingMachine.addMmapExec] at h
    split at h
    · exact (hsame (congrArg _ (Except.ok.inj h).symm)).elim
    · rename_i hexec
      split at h
      · exact (hsame (congrArg _ (Except.ok.inj h).symm)).elim
      · rename_i hpid
        obtain ⟨mapping, hmapping, h⟩ := bind_eq_ok.mp h
        cases h
        have hnode := osAddMmapExec_os (s.intern filename).2 hk
        rw [newMapping_node hmapping] at hnode
        split at hnode
        · cases hnode
        · rename_i hanon
          refine ⟨⟨maj, min, ino⟩, ?_, Option.some.inj hnode⟩
          simp only [Side.file, if_neg hexec]
          exact if_neg fun hor => hor.elim hpid hanon

end Exporter

/-- **What a record changes.** -/
theorem changesOwn {checks : OverflowChecks} {s t : Trackers} {record : TaskRecord}
    (h : s.hook checks record = .ok t) (side : Side) : side.ChangesOwn s t record := by
  obtain ⟨hcallstack, hexporter⟩ := hook_eq_ok.mp h
  cases side with
  | callstack =>
    refine ⟨fun k hk => helper_changes hcallstack k (.inl fun heq => hk ?_),
      fun k hk => helper_changes hcallstack k (.inr hk)⟩
    exact congrArg Option.isSome heq
  | exporter =>
    have hnode : ∀ k : ModuleKey, (∃ id, Side.exporter.file record = some id ∧
        ExportDevNode.fromParts id.maj id.min id.ino = ⟨k.dev, k.ino⟩) →
        ∃ id, Side.exporter.file record = some id ∧ Side.exporter.key id = k := by
      rintro k ⟨id, hid, hnode⟩
      refine ⟨id, hid, ?_⟩
      exact congrArg (fun node : ExportDevNode => ModuleKey.mk node.dev node.ino) hnode
    exact ⟨fun k hk => hnode k (exporter_changes hexporter _ (.inl hk)),
      fun k hk => hnode k (exporter_changes hexporter _ (.inr hk))⟩

/-! ## Sessions -/

/-- What the unwinder is asked for addresses: sections that tell a position, or panic. -/
structure MappedProcess where
  find : Unwindable
  positions : Unwinder.HasPositions False find

inductive SessionEvent where
  | record (record : TaskRecord)
  /-- A sample that is unwound; `reads` is what a descriptor of a file reads then, if it can be
  duplicated. -/
  | unwind (process : MappedProcess) (rip rbp rsp : Nat) (stackData : Bytes)
    (reads : FileId → Option File)

/-- The trackers and the unwinder. For every descriptor and every `va_offset` of a side it is noted
of which file the record was that put it there. -/
structure UnwindSession where
  trackers : Trackers
  unwinder : Unwinder := {}
  openedFor : Side → ModuleKey → Option FileId := fun _ _ => none
  offsetFrom : Side → ModuleKey → Option FileId := fun _ _ => none

namespace UnwindSession

/-- `open` of `ModuleLookup` and of `ExportDevNodeLookup`. -/
def accessor (side : Side) (self : UnwindSession) (reads : FileId → Option File) :
    ModuleAccessor :=
  fun key =>
    if side.keeps self.trackers key then (self.openedFor side key).bind reads else none

def addRecord (checks : OverflowChecks) (self : UnwindSession) (record : TaskRecord) :
    Exec UnwindSession := do
  let trackers ← self.trackers.hook checks record
  .ok
    { self with
      trackers
      openedFor := fun keeper =>
        putBy (keeper.keeps self.trackers) (keeper.keeps trackers) (keeper.file record)
          (self.openedFor keeper)
      offsetFrom := fun keeper =>
        putBy (keeper.vaOffset self.trackers) (keeper.vaOffset trackers) (keeper.file record)
          (self.offsetFrom keeper) }

/-- The samples are unwound with the descriptors of one side. -/
def act (checks : OverflowChecks) (side : Side) (self : UnwindSession) :
    SessionEvent → Exec UnwindSession
  | .record record => self.addRecord checks record
  | .unwind process rip rbp rsp stackData reads => do
    let walk : Walk :=
      { unwinder := self.unwinder.reset rip rbp rsp, stackFrames := [rip]
        result := { framesPushed := 1 } }
    let ended ← walk.loop checks process.find (self.accessor side reads) stackData 129
    .ok { self with unwinder := (ended.map Walk.unwinder).getD self.unwinder }

end UnwindSession

def session (checks : OverflowChecks) (side : Side) : System UnwindSession SessionEvent :=
  .ofExec (fun s => ∃ t, (trackers checks).init t ∧ s = { trackers := t })
    (UnwindSession.act checks side)

/-- Records of the file came in. -/
def Side.Maps (side : Side) (events : List SessionEvent) (id : FileId) : Prop :=
  ∃ record, .record record ∈ events ∧ side.file record = some id

/-- What was read through descriptors of the file, or nothing. -/
def ReadOf (events : List SessionEvent) (id : FileId) (file : Option File) : Prop :=
  file = none ∨ ∃ process rip rbp rsp stackData reads,
    .unwind process rip rbp rsp stackData reads ∈ events ∧ file = reads id

/-- The caches under the key of a file are its own: descriptors and offsets are from records of the
file, tables from what descriptors of the file read. -/
structure CachesOwn (side : Side) (events : List SessionEvent) (s : UnwindSession) : Prop where
  descriptor : ∀ (keeper : Side) id, keeper.Maps events id →
    keeper.keeps s.trackers (keeper.key id) = true →
      s.openedFor keeper (keeper.key id) = some id
  vaOffset : ∀ (keeper : Side) id, keeper.Maps events id →
    keeper.vaOffset s.trackers (keeper.key id) ≠ none →
      s.offsetFrom keeper (keeper.key id) = some id
  table : ∀ id, side.Maps events id →
    (s.unwinder.frameCache (side.key id)).BuiltFrom (side.key id) (ReadOf events id)
  keys : ∀ keeper : Side, KeysApart keeper.key (keeper.Maps events)

/-- No two files of the records share a key. -/
def NoCollision (events : List SessionEvent) : Prop :=
  ∀ (keeper : Side) (id other : FileId), keeper.Maps events id → keeper.Maps events other →
    keeper.Collide id other → id = other

/-! ## Runs -/

/-- Descriptors, offsets and tables are under the keys of files of the records. -/
structure Traced (side : Side) (events : List SessionEvent) (s : UnwindSession) : Prop where
  opened : ∀ keeper : Side, Keyed keeper.key (keeper.Maps events) (s.openedFor keeper)
  openedNoted : ∀ keeper : Side, Noted false (keeper.keeps s.trackers) (s.openedFor keeper)
  offset : ∀ keeper : Side, Keyed keeper.key (keeper.Maps events) (s.offsetFrom keeper)
  offsetNoted : ∀ keeper : Side, Noted none (keeper.vaOffset s.trackers) (s.offsetFrom keeper)
  table : ∀ key, (s.unwinder.frameCache key).BuiltFrom key fun file =>
    file = none ∨ ∃ id, side.Maps events id ∧ side.key id = key ∧ ReadOf events id file

section Runs

variable {checks : OverflowChecks} {side : Side} {events : List SessionEvent}
  {s t : UnwindSession} {event : SessionEvent}

theorem Side.Maps.concat {keeper : Side} {id : FileId} (h : keeper.Maps events id) :
    keeper.Maps (events ++ [event]) id := by
  obtain ⟨record, hmem, hfile⟩ := h
  exact ⟨record, List.mem_append_left _ hmem, hfile⟩

theorem ReadOf.concat {id : FileId} {file : Option File} (h : ReadOf events id file) :
    ReadOf (events ++ [event]) id file := by
  obtain hnone | ⟨process, rip, rbp, rsp, stackData, reads, hmem, hfile⟩ := h
  · exact .inl hnone
  · exact .inr ⟨process, rip, rbp, rsp, stackData, reads, List.mem_append_left _ hmem, hfile⟩

/-- **One event.** -/
theorem Traced.act (h : Traced side events s) (hstep : s.act checks side event = .ok t) :
    Traced side (events ++ [event]) t := by
  have hopened : ∀ keeper : Side,
      Keyed keeper.key (keeper.Maps (events ++ [event])) (s.openedFor keeper) := fun keeper =>
    (h.opened keeper).mono fun _ hmaps => hmaps.concat
  have hoffset : ∀ keeper : Side,
      Keyed keeper.key (keeper.Maps (events ++ [event])) (s.offsetFrom keeper) := fun keeper =>
    (h.offset keeper).mono fun _ hmaps => hmaps.concat
  have htable : ∀ key, (s.unwinder.frameCache key).BuiltFrom key fun file =>
      file = none ∨ ∃ id, side.Maps (events ++ [event]) id ∧ side.key id = key ∧
        ReadOf (events ++ [event]) id file := by
    refine fun key => (h.table key).mono fun file hfile => hfile.imp_right ?_
    rintro ⟨id, hmaps, hkey, hread⟩
    exact ⟨id, hmaps.concat, hkey, hread.concat⟩
  cases event with
  | record record =>
    obtain ⟨trackers, hhook, hstep⟩ := bind_eq_ok.mp hstep
    cases hstep
    have hmaps : ∀ (keeper : Side) id, keeper.file record = some id →
        keeper.Maps (events ++ [.record record]) id := fun keeper id hid =>
      ⟨record, List.mem_append_right _ List.mem_cons_self, hid⟩
    have hchanges := changesOwn hhook
    exact
      { opened := fun keeper => (hopened keeper).putBy (hchanges keeper).1 (hmaps keeper)
        openedNoted := fun keeper => (h.openedNoted keeper).putBy (hchanges keeper).1
        offset := fun keeper => (hoffset keeper).putBy (hchanges keeper).2 (hmaps keeper)
        offsetNoted := fun keeper => (h.offsetNoted keeper).putBy (hchanges keeper).2
        table := htable }
  | unwind process rip rbp rsp stackData reads =>
    obtain ⟨ended, hloop, hstep⟩ := bind_eq_ok.mp hstep
    cases hstep
    have haccessor : ∀ key, s.accessor side reads key = none ∨ ∃ id,
        side.Maps (events ++ [.unwind process rip rbp rsp stackData reads]) id ∧
          side.key id = key ∧ ReadOf (events ++ [.unwind process rip rbp rsp stackData reads]) id
            (s.accessor side reads key) := by
      intro key
      unfold UnwindSession.accessor
      split
      · cases hid : s.openedFor side key with
        | none => exact .inl rfl
        | some id =>
          obtain ⟨hkey, hmaps⟩ := hopened side key id hid
          refine .inr ⟨id, hmaps, hkey, .inr ⟨process, rip, rbp, rsp, stackData, reads, ?_, rfl⟩⟩
          exact List.mem_append_right _ List.mem_cons_self
      · exact .inl rfl
    obtain ⟨walk, rfl, hcache⟩ := loop_builtFrom haccessor process.positions htable hloop
    exact
      { opened := hopened
        openedNoted := h.openedNoted
        offset := hoffset
        offsetNoted := h.offsetNoted
        table := hcache }

theorem traced_init (h : (session checks side).init s) : Traced side [] s := by
  obtain ⟨t, ⟨hcallstack, hooks, hexporter⟩, rfl⟩ := h
  have hkeeps : ∀ (keeper : Side) key, keeper.keeps t key = false ∧
      keeper.vaOffset t key = none := by
    intro keeper key
    cases keeper with
    | callstack =>
      rw [Side.keeps, Side.vaOffset, hcallstack]
      exact ⟨rfl, rfl⟩
    | exporter =>
      rw [Side.keeps, Side.vaOffset, hexporter]
      exact ⟨rfl, rfl⟩
  exact
    { opened := fun keeper => keyed_none
      openedNoted := fun keeper key hkept => absurd (hkeeps keeper key).1 hkept
      offset := fun keeper => keyed_none
      offsetNoted := fun keeper key hkept => absurd (hkeeps keeper key).2 hkept
      table := fun key => .empty }

theorem traced_run (hs : (session checks side).init s)
    (h : (session checks side).Runs s events t) : Traced side events t := by
  induction h with
  | refl => exact traced_init hs
  | snoc _ hstep ih => exact ih.act hstep

theorem keysApart_iff : (∀ keeper : Side, KeysApart keeper.key (keeper.Maps events)) ↔
    NoCollision events := by
  refine forall_congr' fun keeper => forall₂_congr fun id other => ?_
  rw [Side.key_eq_iff]

/-- **The caches of files.** In every state of a run the descriptors, offsets and tables under the
key of a file are from its own records, and the keys of files differ, exactly if no two files of the
records collide. -/
theorem caches_own_iff (hs : (session checks side).init s)
    (h : (session checks side).Runs s events t) :
    CachesOwn side events t ↔ NoCollision events := by
  rw [← keysApart_iff]
  refine ⟨fun hown => hown.keys, fun hapart => ?_⟩
  have htraced := traced_run hs h
  exact
    { descriptor := fun keeper id hmaps hkept => (htraced.opened keeper).own_of_noted
        (htraced.openedNoted keeper) (hapart keeper) hmaps (by rw [hkept]; decide)
      vaOffset := fun keeper id hmaps hthere => (htraced.offset keeper).own_of_noted
        (htraced.offsetNoted keeper) (hapart keeper) hmaps hthere
      table := by
        refine fun id hmaps => (htraced.table _).mono fun file hfile => ?_
        obtain hnone | ⟨other, hother, hkey, hread⟩ := hfile
        · exact .inl hnone
        · rwa [hapart side other id hother hmaps hkey] at hread
      keys := hapart }

end Runs

/-- A library on device `maj:min`, mapped by process 7. -/
def libraryRecord (maj min : Nat) (filename : String) : TaskRecord :=
  .mmap 1 7 7 4096 4096 0 maj min 7 5 filename (some ⟨none⟩) (some ⟨none⟩)

def unwindFresh : UnwindSession := { trackers := ⟨{}, .new []⟩ }

theorem unwindFresh_init (checks : OverflowChecks) (side : Side) :
    (session checks side).init unwindFresh :=
  ⟨_, ⟨rfl, [], rfl⟩, rfl⟩

theorem noCollision_one {record : TaskRecord} : NoCollision [.record record] := by
  rintro keeper id other ⟨_, hmem, hfile⟩ ⟨_, hmem', hfile'⟩ -
  obtain rfl := SessionEvent.record.inj (List.mem_singleton.mp hmem)
  obtain rfl := SessionEvent.record.inj (List.mem_singleton.mp hmem')
  exact Option.some.inj (hfile.symm.trans hfile')

theorem caches_own_one : ∃ t,
    (session .on .callstack).Runs unwindFresh [.record (libraryRecord 8 1 "/lib/a.so")] t ∧
      CachesOwn .callstack [.record (libraryRecord 8 1 "/lib/a.so")] t := by
  have hruns : ∃ t, (session .on .callstack).Runs unwindFresh
      [.record (libraryRecord 8 1 "/lib/a.so")] t := ⟨_, .snoc .refl rfl⟩
  obtain ⟨t, hruns⟩ := hruns
  exact ⟨t, hruns, (caches_own_iff (unwindFresh_init .on .callstack) hruns).mpr noCollision_one⟩

theorem runs_two {checks : OverflowChecks} {side : Side} {s t u : UnwindSession}
    {first second : SessionEvent} (h : s.act checks side first = .ok t)
    (h' : t.act checks side second = .ok u) : (session checks side).Runs s [first, second] u := by
  have hfirst : (session checks side).Runs s [first] t := .snoc .refl h
  exact .snoc hfirst h'

/-- Minor number 256 of device 0 and minor number 0 of device 1 give one key. -/
theorem caches_not_own : ¬ ∀ (checks : OverflowChecks) (side : Side) (s t : UnwindSession)
    (events : List SessionEvent), (session checks side).init s →
      (session checks side).Runs s events t → CachesOwn side events t := by
  intro h
  have hown := h .on .callstack unwindFresh _
    [.record (libraryRecord 0 256 "/lib/a.so"), .record (libraryRecord 1 0 "/lib/b.so")]
    (unwindFresh_init _ _) (runs_two rfl rfl)
  have hfirst := hown.descriptor .callstack ⟨0, 256, 7⟩ ⟨_, List.mem_cons_self, rfl⟩ rfl
  have hsecond := hown.descriptor .callstack ⟨1, 0, 7⟩
    ⟨_, List.mem_cons_of_mem _ List.mem_cons_self, rfl⟩ rfl
  exact absurd (hfirst.symm.trans hsecond) (by decide)

end OneCollect.Callstack
