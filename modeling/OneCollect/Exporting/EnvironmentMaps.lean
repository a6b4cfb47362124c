import OneCollect.Callstack.Records
import OneCollect.Event.Decode
import OneCollect.Perf.Environment
import OneCollect.Theory.Layout
import Mathlib.Tactic.IntervalCases

/-! What a session learns of the mappings that are there before it starts: the maps files of the
running processes are parsed (`procfs.rs`), written as records (`write_environment_modules`), and
the mmap hook of the exporter decodes the records for `add_mmap_exec`.

A start of 0 is taken for a start that is still missing, the length counts the byte at the end of
the range, a path ends at its first blank, and every record says `PROT_EXEC`. -/

namespace OneCollect.Perf
open Theory

/-! ## Parsing -/

def modFlagRead : UInt8 := (1 : UInt8) <<< 0
def modFlagWrite : UInt8 := (1 : UInt8) <<< 1
def modFlagExec : UInt8 := (1 : UInt8) <<< 2
def modFlagPrivate : UInt8 := (1 : UInt8) <<< 3

namespace ModuleInfo

def isExec (self : ModuleInfo) : Bool := self.flags &&& modFlagExec ≠ 0

/-- One turn of the loop over the addresses. -/
def addAddress (module : ModuleInfo) (address : List Char) : Option ModuleInfo := do
  let address ← fromHex 64 address
  if module.startAddr = 0 then some { module with startAddr := .ofNat address }
  else some { module with endAddr := .ofNat address }

def addFlag (module : ModuleInfo) (part : List Char) (c : Char) (flag : UInt8) : ModuleInfo :=
  if part.contains c then { module with flags := module.flags ||| flag } else module

def addFlags (module : ModuleInfo) (part : List Char) : ModuleInfo :=
  (((module.addFlag part 'r' modFlagRead).addFlag part 'w' modFlagWrite).addFlag part
    'x' modFlagExec).addFlag part 'p' modFlagPrivate

/-- One turn of the loop over the parts of the device. -/
def addDevice (module : ModuleInfo) (part : List Char × Nat) : Option ModuleInfo := do
  let value ← fromHex 32 part.1
  if part.2 = 0 then some { module with devMaj := .ofNat value }
  else some { module with devMin := .ofNat value }

/-- One turn of the loop over the parts of a line. -/
def addPart (module : ModuleInfo) (part : List Char × Nat) : Option ModuleInfo :=
  match part.2 with
  | 0 => (part.1.splitOn '-').foldlM addAddress module
  | 1 => some (module.addFlags part.1)
  | 2 => (fromHex 64 part.1).map fun offset => { module with offset := .ofNat offset }
  | 3 => (part.1.splitOn ':').zipIdx.foldlM addDevice module
  | 4 => (fromDecimal 64 part.1).map fun ino => { module with ino := .ofNat ino }
  | 5 => some { module with path := some (encodeUtf8 part.1) }
  -- not interesting
  | _ => some module

def fromLine (line : List Char) : Option ModuleInfo :=
  (splitWhitespace line).zipIdx.foldlM addPart {}

end ModuleInfo

/-- The lines of a maps file, up to one that is not UTF-8. -/
abbrev MapsFile := List (Option (List Char))

/-- The modules of one process; `lines` takes the end of a line off. -/
def procModules : MapsFile → List ModuleInfo
  | [] => []
  | none :: _ => []
  | some line :: file => (ModuleInfo.fromLine (popIf '\r' line)).toList ++ procModules file

def iterModules (procs : List (UInt32 × MapsFile)) : List (UInt32 × ModuleInfo) :=
  procs.flatMap fun proc => (procModules proc.2).map (proc.1, ·)

/-! ## Writing -/

/-- What decides which modules are written; `clock` is the time of the n-th record. -/
structure EnvironmentOptions where
  pidLookup : Option (List Int32) := none
  capturesAll : Bool := false
  clock : Nat → UInt64

namespace EnvironmentOptions

def follows (self : EnvironmentOptions) (pid : UInt32) : Bool :=
  self.pidLookup.all (·.contains pid.toInt32)

/-- One call of the closure of `write_environment_modules`. -/
def writeModule (self : EnvironmentOptions) (written : List Bytes) (module : UInt32 × ModuleInfo) :
    Exec (List Bytes) :=
  if !self.capturesAll && !module.2.isExec then .ok written
  else if !self.follows module.1 then .ok written
  else do
    let record ← moduleRecord module.1 module.2 (self.clock written.length)
    .ok (written ++ [record])

def writeEnvironmentModules (self : EnvironmentOptions) (procs : List (UInt32 × MapsFile)) :
    Exec (List Bytes) :=
  (iterModules procs).foldlM self.writeModule []

end EnvironmentOptions

end OneCollect.Perf

namespace OneCollect.EventFormat
open Theory

/-! ## Decoding -/

/-- The format of `mmap` records. -/
def mmap : EventFormat :=
  ⟨[⟨"pid", "u32", .static, 0, 4⟩, ⟨"tid", "u32", .static, 4, 4⟩,
    ⟨"addr", "u64", .static, 8, 8⟩, ⟨"len", "u64", .static, 16, 8⟩,
    ⟨"pgoffset", "u64", .static, 24, 8⟩, ⟨"maj", "u32", .static, 32, 4⟩,
    ⟨"min", "u32", .static, 36, 4⟩, ⟨"ino", "u64", .static, 40, 8⟩,
    ⟨"ino_generation", "u64", .static, 48, 8⟩, ⟨"prot", "u32", .static, 56, 4⟩,
    ⟨"flags", "u32", .static, 60, 4⟩, ⟨"filename[]", "char", .staticString, 64, 0⟩]⟩

end OneCollect.EventFormat

namespace OneCollect.Exporting
open Theory Perf Callstack

/-- What the mmap hook gives to `add_mmap_exec`, but for the time. -/
structure MmapExec where
  pid : Nat
  addr : Nat
  len : Nat
  pgoffset : Nat
  maj : Nat
  min : Nat
  ino : Nat
  filename : String
  deriving DecidableEq, Repr

/-- The mmap hook of the exporter, up to its call. -/
def mmapHook (data : Bytes) : Exec (Option MmapExec) := do
  let prot ← EventFormat.mmap.getU32 "prot" data
  if prot &&& protExec ≠ protExec then .ok none
  else do
    let pid ← EventFormat.mmap.getU32 "pid" data
    let addr ← EventFormat.mmap.getU64 "addr" data
    let len ← EventFormat.mmap.getU64 "len" data
    let pgoffset ← EventFormat.mmap.getU64 "pgoffset" data
    let maj ← EventFormat.mmap.getU32 "maj" data
    let min ← EventFormat.mmap.getU32 "min" data
    let ino ← EventFormat.mmap.getU64 "ino" data
    let filename ← EventFormat.mmap.getStr "filename[]" data
    .ok (some ⟨pid, addr, len, pgoffset, maj, min, ino, filename⟩)

/-- The data of the event that a record becomes. -/
def eventData (record : Bytes) : Bytes := record.drop Header.dataOffset

/-! ## Lines of a maps file -/

/-- A line as the kernel prints it. Its path is empty for anonymous memory, and may have any
characters but those that end a line or a string; `none` stands for a path that is not UTF-8. -/
structure MapsLine where
  start : UInt64
  stop : UInt64
  nonempty : start < stop
  readable : Bool := true
  writable : Bool := false
  executable : Bool := true
  shared : Bool := false
  offset : UInt64 := 0
  maj : UInt32 := 0
  min : UInt32 := 0
  ino : UInt64 := 0
  blanks : Nat := 0
  path : Option (List Char) := some []
  path_ok : ∀ text, path = some text → '\n' ∉ text ∧ '\x00' ∉ text := by simp

namespace MapsLine

def perms (line : MapsLine) : List Char :=
  [if line.readable then 'r' else '-', if line.writable then 'w' else '-',
    if line.executable then 'x' else '-', if line.shared then 's' else 'p']

/-- A line up to its path. -/
def front (line : MapsLine) : List Char :=
  (toHex 8 line.start.toNat ++ '-' :: toHex 8 line.stop.toNat) ++ ' ' ::
    (line.perms ++ ' ' :: (toHex 8 line.offset.toNat ++ ' ' ::
      ((toHex 2 line.maj.toNat ++ ':' :: toHex 2 line.min.toNat) ++ ' ' ::
        (toDecimal line.ino.toNat ++ List.replicate (line.blanks + 1) ' '))))

def text (line : MapsLine) : Option (List Char) := line.path.map (line.front ++ ·)

/-- What `from_line` makes of a line with the path. -/
def parsed (line : MapsLine) (path : List Char) : ModuleInfo where
  startAddr := if line.start = 0 then line.stop else line.start
  endAddr := if line.start = 0 then 0 else line.stop
  offset := line.offset
  ino := line.ino
  devMaj := line.maj
  devMin := line.min
  path := (splitWhitespace (popIf '\r' path)).head?.map encodeUtf8
  flags := (ModuleInfo.addFlags {} line.perms).flags

end MapsLine

example : MapsLine.text
    { start := 0x400000, stop := 0x401000, nonempty := by decide, maj := 8, ino := 42, blanks := 2
      path := some "/a b".toList, path_ok := by decide } =
    some "00400000-00401000 r-xp 00000000 08:00 42   /a b".toList := by decide

/-! ## What becomes of a line -/

section Lines

variable (line : MapsLine)

theorem MapsLine.perms_ok : ∀ c ∈ line.perms, isWhiteSpace c = false ∧ c ≠ '\r' := by
  have hbit : ∀ (bit : Bool) (set clear : Char),
      isWhiteSpace set = false ∧ set ≠ '\r' → isWhiteSpace clear = false ∧ clear ≠ '\r' →
        isWhiteSpace (if bit then set else clear) = false ∧ (if bit then set else clear) ≠ '\r' := by
    intro bit set clear hset hclear
    cases bit with
    | false => exact hclear
    | true => exact hset
  unfold MapsLine.perms
  simp only [List.forall_mem_cons]
  exact ⟨hbit _ _ _ (by decide) (by decide), hbit _ _ _ (by decide) (by decide),
    hbit _ _ _ (by decide) (by decide), hbit _ _ _ (by decide) (by decide),
    fun _ hc => (List.not_mem_nil hc).elim⟩

theorem MapsLine.parsed_isExec (path : List Char) : (line.parsed path).isExec = line.executable := by
  have hall : ∀ r w x s : Bool, decide ((ModuleInfo.addFlags {} [if r then 'r' else '-',
      if w then 'w' else '-', if x then 'x' else '-', if s then 's' else 'p']).flags &&&
        modFlagExec ≠ 0) = x := by
    decide
  exact hall _ _ _ _

/-- The words of a line. -/
theorem splitWhitespace_front (path : List Char) :
    splitWhitespace (line.front ++ path) =
      (toHex 8 line.start.toNat ++ '-' :: toHex 8 line.stop.toNat) :: line.perms ::
        toHex 8 line.offset.toNat :: (toHex 2 line.maj.toNat ++ ':' :: toHex 2 line.min.toNat) ::
          toDecimal line.ino.toNat :: splitWhitespace path := by
  have hhex : ∀ {width n : Nat}, ∀ c ∈ toHex width n, isWhiteSpace c = false := by
    intro width n c hc
    obtain ⟨d, hd, rfl⟩ := mem_toHex hc
    exact (digitChar_ok d hd).1
  have hino : ∀ c ∈ toDecimal line.ino.toNat, isWhiteSpace c = false := by
    intro c hc
    obtain ⟨d, hd, rfl⟩ := mem_toDecimal hc
    exact (digitChar_ok d hd).1
  have hpair : ∀ {width a b : Nat} {c : Char}, isWhiteSpace c = false →
      ∀ d ∈ toHex width a ++ c :: toHex width b, isWhiteSpace d = false := by
    intro width a b c hc d hd
    rcases List.mem_append.mp hd with hd | hd
    · exact hhex d hd
    · rcases List.mem_cons.mp hd with rfl | hd
      · exact hc
      · exact hhex d hd
  unfold MapsLine.front
  simp only [List.append_assoc, List.cons_append, List.replicate_succ]
  rw [← List.cons_append, ← List.append_assoc,
    splitWhitespace_word (by simp) (hpair (by decide)) (by decide),
    splitWhitespace_word (by simp [MapsLine.perms]) (fun c hc => (line.perms_ok c hc).1)
      (by decide),
    splitWhitespace_word (toHex_ne_nil _ _) hhex (by decide), ← List.cons_append,
    ← List.append_assoc, splitWhitespace_word (by simp) (hpair (by decide)) (by decide),
    splitWhitespace_word (toDecimal_ne_nil _) hino (by decide), splitWhitespace_blanks]

theorem toHex_not_mem {width n : Nat} {c : Char} (h : ∀ d < 16, d.digitChar ≠ c) :
    c ∉ toHex width n := by
  intro hc
  obtain ⟨d, hd, rfl⟩ := mem_toHex hc
  exact h d hd rfl

theorem addAddresses (module : ModuleInfo) (h0 : module.startAddr = 0 ∧ module.endAddr = 0) :
    ((toHex 8 line.start.toNat ++ '-' :: toHex 8 line.stop.toNat).splitOn '-').foldlM
        ModuleInfo.addAddress module =
      some { module with
        startAddr := if line.start = 0 then line.stop else line.start
        endAddr := if line.start = 0 then 0 else line.stop } := by
  have hminus : ∀ n, '-' ∉ toHex 8 n := fun n => toHex_not_mem fun d hd => (digitChar_ok d hd).2.2.1
  rw [List.splitOn_append_cons_self_of_not_mem (hminus _), List.splitOn_eq_singleton (hminus _)]
  have hstart : module.addAddress (toHex 8 line.start.toNat) =
      some { module with startAddr := line.start } := by
    simp [ModuleInfo.addAddress, @fromHex_toHex 64 8 _ line.start.toNat_lt, h0]
  have hstop := @fromHex_toHex 64 8 _ line.stop.toNat_lt
  rw [List.foldlM_cons, hstart]
  by_cases h : line.start = 0
  · simp [ModuleInfo.addAddress, hstop, h0, h]
  · simp [ModuleInfo.addAddress, hstop, h]

theorem addDevices (module : ModuleInfo) :
    ((toHex 2 line.maj.toNat ++ ':' :: toHex 2 line.min.toNat).splitOn ':').zipIdx.foldlM
        ModuleInfo.addDevice module =
      some { module with devMaj := line.maj, devMin := line.min } := by
  have hcolon : ∀ n, ':' ∉ toHex 2 n :=
    fun n => toHex_not_mem fun d hd => (digitChar_ok d hd).2.2.2.1
  rw [List.splitOn_append_cons_self_of_not_mem (hcolon _), List.splitOn_eq_singleton (hcolon _)]
  have hmaj := @fromHex_toHex 32 2 _ line.maj.toNat_lt
  have hmin := @fromHex_toHex 32 2 _ line.min.toNat_lt
  simp [ModuleInfo.addDevice, hmaj, hmin]

/-- Only the flags change. -/
theorem addFlags_eq (module : ModuleInfo) (part : List Char) (h : module.flags = 0) :
    module.addFlags part = { module with flags := (ModuleInfo.addFlags {} part).flags } := by
  unfold ModuleInfo.addFlags ModuleInfo.addFlag
  split_ifs <;> rw [← h]

/-- The parts behind the inode: the first is the path. -/
theorem addPart_rest (words : List (List Char)) (module : ModuleInfo) (h : module.path = none) :
    (words.zipIdx 5).foldlM ModuleInfo.addPart module =
      some { module with path := words.head?.map encodeUtf8 } := by
  have hskip : ∀ (words : List (List Char)) (n : Nat) (module : ModuleInfo),
      (words.zipIdx (n + 6)).foldlM ModuleInfo.addPart module = some module := by
    intro words
    induction words with
    | nil => exact fun _ _ => rfl
    | cons word words ih =>
      intro n module
      rw [List.zipIdx_cons, List.foldlM_cons]
      exact ih (n + 1) module
  cases words with
  | nil =>
    rw [List.head?_nil, Option.map_none, ← h]
    rfl
  | cons word words =>
    rw [List.zipIdx_cons, List.foldlM_cons]
    exact hskip words 0 _

/-- **A parsed line.** -/
theorem fromLine_front (path : List Char) :
    ModuleInfo.fromLine (popIf '\r' (line.front ++ path)) = some (line.parsed path) := by
  have hpop : popIf '\r' (line.front ++ path) = line.front ++ popIf '\r' path := by
    refine popIf_append ?_ path
    simp [MapsLine.front, List.getLast?_append, List.getLast?_cons, List.getLast?_replicate]
  have hoffset := @fromHex_toHex 64 8 _ line.offset.toNat_lt
  have hino := @fromDecimal_toDecimal 64 _ line.ino.toNat_lt
  rw [ModuleInfo.fromLine, hpop, splitWhitespace_front]
  simp only [List.zipIdx_cons, List.foldlM_cons, Nat.zero_add, Nat.reduceAdd]
  simp only [ModuleInfo.addPart, addAddresses line {} ⟨rfl, rfl⟩]
  rw [Option.bind_eq_bind, Option.bind_some, addFlags_eq _ line.perms rfl]
  simp only [addDevices, hoffset, hino, Option.bind_some, Option.map_some, UInt64.ofNat_toNat]
  exact addPart_rest _ _ rfl

end Lines

/-! ## What becomes of a record -/

section Record

variable {pid : UInt32} {module : ModuleInfo} {time : UInt64} {record : Bytes}

theorem getData_layOut {parts : List Part} {part : Part} {k : Nat} (h : parts[k]? = some part)
    {name : String} {typeName : String} {offset size : Nat}
    (hfield : EventFormat.mmap.fields.find? (·.name = name) =
      some ⟨name, typeName, .static, offset, size⟩)
    (hoffset : Part.position parts k = offset) (hsize : part.bytes.length = size) :
    EventFormat.mmap.getData name (Part.layOut parts) = .ok part.bytes := by
  have hle := Part.position_le h
  have hsplit := Part.layOut_split h
  unfold EventFormat.getData
  rw [hfield]
  simp only [EventFormat.getDataWithOffsetDirect]
  rw [if_neg (by omega), ← hoffset, hsplit, Part.position, List.append_assoc, List.drop_left,
    ← hsize, List.take_left]

section Words

variable {parts : List Part} {k n offset : Nat} {name typeName : String}

/-- A word of the data, as it is laid out. -/
theorem getWord_layOut {width : Nat} (h : parts[k]? = some { own := toLe width n })
    (hfield : EventFormat.mmap.fields.find? (·.name = name) =
      some ⟨name, typeName, .static, offset, width⟩)
    (hoffset : Part.position parts k = offset) :
    EventFormat.mmap.getData name (Part.layOut parts) = .ok (toLe width n) := by
  have hdata := getData_layOut h hfield hoffset (by simp [Part.bytes])
  simpa only [Part.bytes, if_true, List.nil_append, List.append_nil] using hdata

theorem getU32_layOut (h : parts[k]? = some { own := toLe 4 n })
    (hfield : EventFormat.mmap.fields.find? (·.name = name) =
      some ⟨name, typeName, .static, offset, 4⟩)
    (hoffset : Part.position parts k = offset) (hn : n < 2 ^ 32) :
    EventFormat.mmap.getU32 name (Part.layOut parts) = .ok n := by
  rw [EventFormat.getU32, getWord_layOut h hfield hoffset, ok_bind, length_toLe,
    if_neg (Nat.lt_irrefl 4), List.take_of_length_le (by rw [length_toLe]),
    fromLe_toLe_of_lt (by norm_num; exact hn)]

theorem getU64_layOut (h : parts[k]? = some { own := toLe 8 n })
    (hfield : EventFormat.mmap.fields.find? (·.name = name) =
      some ⟨name, typeName, .static, offset, 8⟩)
    (hoffset : Part.position parts k = offset) (hn : n < 2 ^ 64) :
    EventFormat.mmap.getU64 name (Part.layOut parts) = .ok n := by
  rw [EventFormat.getU64, getWord_layOut h hfield hoffset, ok_bind, length_toLe,
    if_neg (Nat.lt_irrefl 8), List.take_of_length_le (by rw [length_toLe]),
    fromLe_toLe_of_lt (by norm_num; exact hn)]

end Words

/-- The parts of the data of a module record, and what follows them. -/
def moduleParts (pid : UInt32) (module : ModuleInfo) (len : Nat) (rest : Bytes) : List Part :=
  [toLe 4 pid.toNat, toLe 4 pid.toNat, toLe 8 module.startAddr.toNat, toLe 8 len,
    toLe 8 module.offset.toNat, toLe 4 module.devMaj.toNat, toLe 4 module.devMin.toNat,
    toLe 8 module.ino.toNat, toLe 8 0, toLe 4 4, toLe 4 0, module.path.getD [] ++ 0 :: rest].map
      fun own => { own }

/-- The data of the record of a module. -/
theorem eventData_moduleRecord (h : moduleRecord pid module time = .ok record) :
    module.startAddr.toNat ≤ module.endAddr.toNat ∧
      ∃ rest, eventData record = Part.layOut (moduleParts pid module
        (module.endAddr.toNat - module.startAddr.toNat + 1) rest) := by
  obtain ⟨len, hlen, hrecord⟩ := bind_eq_ok.mp h
  obtain ⟨hle, -, rfl⟩ := len_eq_ok.mp hlen
  obtain ⟨-, rfl⟩ := write_eq_ok.mp hrecord
  have hheader : ∀ size : Nat, (toLe 4 recordMmap2 ++ toLe 2 0 ++ toLe 2 size).length = 8 := by
    simp
  generalize hpayload : moduleFields pid module
    (module.endAddr.toNat - module.startAddr.toNat + 1) ++ toLe 8 time.toNat ++ toLe 8 0 = payload
  refine ⟨hle, toLe 8 time.toNat ++ (toLe 8 0 ++ List.replicate
    (alignToPerfRecord (payload.length + 8) - (payload.length + 8)) 0), ?_⟩
  rw [List.nil_append, recordOf, eventData, Header.dataOffset, List.append_assoc,
    List.drop_left' (hheader _)]
  generalize List.replicate (alignToPerfRecord (payload.length + 8) - (payload.length + 8)) 0 =
    padding
  rw [← hpayload]
  simp only [moduleFields, moduleParts, Part.layOut, Part.bytes, List.map_cons, List.map_nil,
    List.flatMap_cons, List.flatMap_nil, if_true, List.nil_append, List.append_nil,
    List.append_assoc, List.cons_append]

/-- The parts before the path are words of fixed sizes. -/
theorem position_moduleParts (len : Nat) (rest : Bytes) {k : Nat} (hk : k ≤ 11) :
    Part.position (moduleParts pid module len rest) k =
      ([4, 4, 8, 8, 8, 4, 4, 8, 8, 4, 4].take k).sum := by
  interval_cases k <;> simp [Part.position, Part.layOut, Part.bytes, moduleParts]

theorem getU32_prot (len : Nat) (rest : Bytes) :
    EventFormat.mmap.getU32 "prot" (Part.layOut (moduleParts pid module len rest)) = .ok 4 :=
  getU32_layOut (k := 9) rfl rfl (position_moduleParts len rest (by decide)) (by decide)

/-- The path is read up to its zero. -/
theorem getStr_filename {text : List Char} (htext : '\x00' ∉ text)
    (hpath : module.path.getD [] = encodeUtf8 text) (len : Nat) (rest : Bytes) :
    EventFormat.mmap.getStr "filename[]" (Part.layOut (moduleParts pid module len rest)) =
      .ok (String.ofList text) := by
  have hlength : (Part.layOut ((moduleParts pid module len rest).take 11)).length = 64 :=
    @position_moduleParts pid module len rest 11 (Nat.le_refl 11)
  have hsplit : Part.layOut (moduleParts pid module len rest) =
      Part.layOut ((moduleParts pid module len rest).take 11) ++ (encodeUtf8 text ++ 0 :: rest) := by
    rw [← hpath]
    simp [moduleParts, Part.layOut, Part.bytes]
  have htake : (encodeUtf8 text ++ 0 :: rest).takeWhile (· ≠ 0) = encodeUtf8 text := by
    have hne : ∀ byte ∈ encodeUtf8 text, decide (byte ≠ 0) = true := by
      intro byte hbyte
      have := zero_not_mem_encodeUtf8 htext
      grind
    rw [List.takeWhile_append_of_pos hne]
    simp
  have hdata : EventFormat.mmap.getData "filename[]"
      (Part.layOut (moduleParts pid module len rest)) = .ok (encodeUtf8 text) := by
    have hfind : EventFormat.mmap.fields.find? (·.name = "filename[]") =
        some ⟨"filename[]", "char", .staticString, 64, 0⟩ := rfl
    unfold EventFormat.getData
    rw [hfind, hsplit]
    simp only [EventFormat.getDataWithOffsetDirect]
    rw [if_neg (by rw [List.length_append]; omega), List.drop_left' hlength, htake]
  rw [EventFormat.getStr, hdata, ok_bind, decodeUtf8_encodeUtf8]
  split
  · rename_i hempty
    have hnil : text = [] := encodeUtf8_eq_nil.mp (List.isEmpty_iff.mp hempty)
    rw [hnil]
  · rfl

/-- What the mmap hook makes of the data of a module record. -/
theorem mmapHook_layOut {text : List Char} (htext : '\x00' ∉ text)
    (hpath : module.path.getD [] = encodeUtf8 text) {len : Nat} (hlen : len < 2 ^ 64)
    (rest : Bytes) :
    mmapHook (Part.layOut (moduleParts pid module len rest)) =
      .ok (some ⟨pid.toNat, module.startAddr.toNat, len, module.offset.toNat,
        module.devMaj.toNat, module.devMin.toNat, module.ino.toNat, String.ofList text⟩) := by
  have hat {k : Nat} (hk : k ≤ 11) := @position_moduleParts pid module len rest k hk
  generalize hdata : Part.layOut (moduleParts pid module len rest) = data
  have hprot : EventFormat.mmap.getU32 "prot" data = .ok 4 := hdata ▸ getU32_prot len rest
  have hpid : EventFormat.mmap.getU32 "pid" data = .ok pid.toNat :=
    hdata ▸ getU32_layOut (k := 0) rfl rfl (hat (by decide)) pid.toNat_lt
  have haddr : EventFormat.mmap.getU64 "addr" data = .ok module.startAddr.toNat :=
    hdata ▸ getU64_layOut (k := 2) rfl rfl (hat (by decide)) module.startAddr.toNat_lt
  have hlen' : EventFormat.mmap.getU64 "len" data = .ok len :=
    hdata ▸ getU64_layOut (k := 3) rfl rfl (hat (by decide)) hlen
  have hpgoffset : EventFormat.mmap.getU64 "pgoffset" data = .ok module.offset.toNat :=
    hdata ▸ getU64_layOut (k := 4) rfl rfl (hat (by decide)) module.offset.toNat_lt
  have hmaj : EventFormat.mmap.getU32 "maj" data = .ok module.devMaj.toNat :=
    hdata ▸ getU32_layOut (k := 5) rfl rfl (hat (by decide)) module.devMaj.toNat_lt
  have hmin : EventFormat.mmap.getU32 "min" data = .ok module.devMin.toNat :=
    hdata ▸ getU32_layOut (k := 6) rfl rfl (hat (by decide)) module.devMin.toNat_lt
  have hino : EventFormat.mmap.getU64 "ino" data = .ok module.ino.toNat :=
    hdata ▸ getU64_layOut (k := 7) rfl rfl (hat (by decide)) module.ino.toNat_lt
  have hfilename : EventFormat.mmap.getStr "filename[]" data = .ok (String.ofList text) :=
    hdata ▸ getStr_filename htext hpath len rest
  rw [mmapHook, hprot, ok_bind, if_neg (by decide), hpid, ok_bind, haddr, ok_bind, hlen', ok_bind,
    hpgoffset, ok_bind, hmaj, ok_bind, hmin, ok_bind, hino, ok_bind, hfilename, ok_bind]

end Record

/-! ## What becomes of the files -/

namespace MapsLine

/-- The path as far as `from_line` keeps it. -/
def firstWord (path : List Char) : List Char := (splitWhitespace (popIf '\r' path)).head?.getD []

def module (line : MapsLine) : ModuleInfo := line.parsed (line.path.getD [])

/-- The call that a line should lead to. -/
def call (pid : UInt32) (line : MapsLine) (path : List Char) : MmapExec where
  pid := pid.toNat
  addr := line.start.toNat
  len := line.stop.toNat - line.start.toNat
  pgoffset := line.offset.toNat
  maj := line.maj.toNat
  min := line.min.toNat
  ino := line.ino.toNat
  filename := String.ofList path

end MapsLine

/-- A record is the one a line should have: the call of the mmap hook is that of the line, with
its complete path, and the record says `PROT_EXEC` exactly for an executable line. -/
def Mirrored (entry : UInt32 × MapsLine) (record : Bytes) : Prop :=
  ∃ path prot, entry.2.path = some path ∧
    mmapHook (eventData record) = .ok (some (entry.2.call entry.1 path)) ∧
    EventFormat.mmap.getU32 "prot" (eventData record) = .ok prot ∧
    (prot &&& protExec = protExec ↔ entry.2.executable = true)

/-- The lines of all processes. -/
def entries (procs : List (UInt32 × List MapsLine)) : List (UInt32 × MapsLine) :=
  procs.flatMap fun proc => proc.2.map (proc.1, ·)

/-- The files of all processes. -/
def mapsFiles (procs : List (UInt32 × List MapsLine)) : List (UInt32 × MapsFile) :=
  procs.map fun proc => (proc.1, proc.2.map MapsLine.text)

/-- The executable lines or all are to be captured, of the processes that are followed. -/
def captures (options : EnvironmentOptions) (entry : UInt32 × MapsLine) : Bool :=
  (options.capturesAll || entry.2.executable) && options.follows entry.1

def captured (options : EnvironmentOptions) (procs : List (UInt32 × List MapsLine)) :
    List (UInt32 × MapsLine) :=
  (entries procs).filter (captures options)

/-- Every line to be captured has exactly one record, in their order, and there are no others. -/
def Mirrors (options : EnvironmentOptions) (procs : List (UInt32 × List MapsLine)) : Prop :=
  ∃ records, options.writeEnvironmentModules (mapsFiles procs) = .ok records ∧
    List.Forall₂ Mirrored (captured options procs) records

section Files

variable {options : EnvironmentOptions} {pid : UInt32} {line : MapsLine} {path : List Char}
  {time : UInt64} {record : Bytes}

/-- **The call of a line**: the length is one too long, and the path ends at its first blank. A
line that starts at 0 has no record. -/
theorem mmapHook_line (hpath : line.path = some path)
    (h : moduleRecord pid line.module time = .ok record) :
    line.start ≠ 0 ∧
      EventFormat.mmap.getU32 "prot" (eventData record) = .ok 4 ∧
      mmapHook (eventData record) = .ok (some { line.call pid path with
        len := line.stop.toNat - line.start.toNat + 1
        filename := String.ofList (MapsLine.firstWord path) }) := by
  obtain ⟨hle, rest, hdata⟩ := eventData_moduleRecord h
  have hstart : line.start ≠ 0 := by
    intro h0
    have hlt := UInt64.lt_iff_toNat_lt.mp line.nonempty
    simp only [MapsLine.module, MapsLine.parsed, h0, if_true] at hle hlt
    exact absurd hlt (not_lt.mpr hle)
  have hmodule : line.module = line.parsed path := by rw [MapsLine.module, hpath]; rfl
  have hword : (line.parsed path).path.getD [] = encodeUtf8 (MapsLine.firstWord path) := by
    unfold MapsLine.firstWord MapsLine.parsed
    cases (splitWhitespace (popIf '\r' path)).head? with
    | none => exact (encodeUtf8_eq_nil.mpr rfl).symm
    | some word => rfl
  have hzero : '\x00' ∉ MapsLine.firstWord path := by
    intro hmem
    refine (line.path_ok path hpath).2 (mem_of_mem_popIf (c := '\r') ?_)
    unfold MapsLine.firstWord at hmem
    cases hwords : splitWhitespace (popIf '\r' path) with
    | nil =>
      rw [hwords] at hmem
      exact (List.not_mem_nil hmem).elim
    | cons word words =>
      have hword : word ∈ splitWhitespace (popIf '\r' path) := by
        rw [hwords]
        exact List.mem_cons_self
      rw [hwords] at hmem
      exact mem_of_mem_splitWhitespace hword hmem
  refine ⟨hstart, ?_, ?_⟩
  · rw [hdata]
    exact getU32_prot _ rest
  · have hlen : line.stop.toNat - line.start.toNat + 1 < 2 ^ 64 := by
      have := line.stop.toNat_lt
      have : line.start.toNat ≠ 0 := fun h0 => hstart (UInt64.toNat_inj.mp h0)
      omega
    rw [hdata, hmodule]
    have hcall := @mmapHook_layOut pid (line.parsed path) _ hzero hword _ hlen rest
    simp only [MapsLine.parsed, hstart, if_false] at hcall ⊢
    exact hcall

/-- The length is always wrong. -/
theorem not_mirrored (h : moduleRecord pid line.module time = .ok record) :
    ¬ Mirrored (pid, line) record := by
  rintro ⟨path, prot, hpath, hhook, -, -⟩
  have hcall := (mmapHook_line hpath h).2.2
  rw [hhook] at hcall
  have hlen := congrArg MmapExec.len (Option.some.inj (Except.ok.inj hcall))
  simp only [MapsLine.call] at hlen
  omega

/-- The lines of a file that are read. -/
def readLines (lines : List MapsLine) : List MapsLine := lines.takeWhile (·.path.isSome)

theorem procModules_text (lines : List MapsLine) :
    procModules (lines.map MapsLine.text) = (readLines lines).map MapsLine.module := by
  induction lines with
  | nil => rfl
  | cons line lines ih =>
    rw [List.map_cons, readLines, List.takeWhile_cons, MapsLine.text]
    cases hpath : line.path with
    | none => rfl
    | some path =>
      rw [Option.map_some, procModules, fromLine_front, ih, readLines]
      simp [MapsLine.module, hpath]

/-- The lines of all processes that are read. -/
def readEntries (procs : List (UInt32 × List MapsLine)) : List (UInt32 × MapsLine) :=
  procs.flatMap fun proc => (readLines proc.2).map (proc.1, ·)

theorem readEntries_sublist (procs : List (UInt32 × List MapsLine)) :
    (readEntries procs).Sublist (entries procs) := by
  induction procs with
  | nil => exact List.Sublist.refl []
  | cons proc procs ih =>
    exact List.Sublist.append ((List.takeWhile_sublist _).map _) ih

theorem iterModules_mapsFiles (procs : List (UInt32 × List MapsLine)) :
    iterModules (mapsFiles procs) =
      (readEntries procs).map fun entry => (entry.1, entry.2.module) := by
  induction procs with
  | nil => rfl
  | cons proc procs ih =>
    have hproc := procModules_text proc.2
    simp only [iterModules, mapsFiles, readEntries, List.map_cons, List.flatMap_cons,
      List.map_append, List.map_map, hproc] at ih ⊢
    rw [ih]
    rfl

/-- What one line of a file adds. -/
theorem writeModule_eq (written : List Bytes) (entry : UInt32 × MapsLine) :
    options.writeModule written (entry.1, entry.2.module) =
      if captures options entry then do
        let record ← moduleRecord entry.1 entry.2.module (options.clock written.length)
        .ok (written ++ [record])
      else .ok written := by
  have hexec : entry.2.module.isExec = entry.2.executable := entry.2.parsed_isExec _
  unfold EnvironmentOptions.writeModule captures
  rw [hexec]
  cases options.capturesAll <;> cases entry.2.executable <;> cases options.follows entry.1 <;> rfl

/-- The records are those of the lines that are captured. -/
theorem records_sources {lines : List (UInt32 × MapsLine)} {written records : List Bytes}
    (h : (lines.map fun entry => (entry.1, entry.2.module)).foldlM options.writeModule written =
      .ok records) :
    ∃ new, records = written ++ new ∧ List.Forall₂
      (fun entry record => ∃ time, moduleRecord entry.1 entry.2.module time = .ok record)
      (lines.filter (captures options)) new := by
  induction lines generalizing written with
  | nil =>
    cases h
    exact ⟨[], (List.append_nil _).symm, .nil⟩
  | cons entry lines ih =>
    rw [List.map_cons, List.foldlM_cons, writeModule_eq] at h
    obtain ⟨written', hstep, hrest⟩ := bind_eq_ok.mp h
    obtain ⟨new, rfl, hnew⟩ := ih hrest
    rw [List.filter_cons]
    split at hstep
    · rename_i hcaptures
      obtain ⟨record, hrecord, hwritten⟩ := bind_eq_ok.mp hstep
      cases hwritten
      rw [if_pos hcaptures]
      exact ⟨record :: new, by simp, .cons ⟨_, hrecord⟩ hnew⟩
    · rename_i hcaptures
      cases hstep
      rw [if_neg hcaptures]
      exact ⟨new, rfl, hnew⟩

theorem records_none {lines : List (UInt32 × MapsLine)}
    (h : lines.filter (captures options) = []) (written : List Bytes) :
    (lines.map fun entry => (entry.1, entry.2.module)).foldlM options.writeModule written =
      .ok written := by
  induction lines with
  | nil => rfl
  | cons entry lines ih =>
    have hnone := List.filter_eq_nil_iff.mp h
    rw [List.map_cons, List.foldlM_cons, writeModule_eq,
      if_neg (hnone entry List.mem_cons_self), ok_bind]
    exact ih (List.filter_eq_nil_iff.mpr fun e he => hnone e (List.mem_cons_of_mem _ he))

theorem captured_of_mirrors {procs : List (UInt32 × List MapsLine)} (h : Mirrors options procs) :
    captured options procs = [] := by
  obtain ⟨records, hrun, hall⟩ := h
  have hsub : ((readEntries procs).filter (captures options)).Sublist (captured options procs) :=
    (readEntries_sublist procs).filter _
  rw [EnvironmentOptions.writeEnvironmentModules, iterModules_mapsFiles] at hrun
  obtain ⟨new, rfl, hfrom⟩ := records_sources hrun
  -- as many records as lines: every captured line is read
  have hsame := hsub.eq_of_length (hfrom.length_eq.trans hall.length_eq.symm)
  rw [hsame] at hfrom
  revert hall hfrom
  generalize captured options procs = lines
  intro hall hfrom
  cases hall with
  | nil => rfl
  | cons hmirrored _ =>
    cases hfrom with
    | cons hrecord _ =>
      obtain ⟨time, hrecord⟩ := hrecord
      exact absurd hmirrored (not_mirrored hrecord)

/-- **The maps of the environment** are mirrored exactly when no line is to be captured. -/
theorem mirrors_iff (options : EnvironmentOptions) (procs : List (UInt32 × List MapsLine)) :
    Mirrors options procs ↔ captured options procs = [] := by
  constructor
  · exact captured_of_mirrors
  · intro hnone
    have hsub := (readEntries_sublist procs).filter (captures options)
    have hread : (readEntries procs).filter (captures options) = [] :=
      List.sublist_nil.mp (hnone ▸ hsub)
    refine ⟨[], ?_, hnone ▸ .nil⟩
    rw [EnvironmentOptions.writeEnvironmentModules, iterModules_mapsFiles]
    exact records_none hread []

/-- One page of code in process 7. -/
theorem maps_not_mirrored :
    ¬ ∀ (options : EnvironmentOptions) (procs : List (UInt32 × List MapsLine)),
      Mirrors options procs := by
  intro h
  have hpage := h { clock := fun _ => 0 }
    [(7, [{ start := 0x400000, stop := 0x401000, nonempty := by decide }])]
  exact absurd (captured_of_mirrors hpage) (List.cons_ne_nil _ _)

end Files

end OneCollect.Exporting
