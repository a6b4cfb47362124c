import OneCollect.Ruwind.FrameHeaders

/-! The search table of `.eh_frame_hdr`. Its pointers are relative to the section, and the code
takes the section to be where it lies in the file: `parseLocTable_eq` says what it reads of a table
that is well formed, wherever the two are. -/

namespace OneCollect.Ruwind
open Theory CallFrame

/-! ## Addresses in a section -/

/-- A pointer at `cursor` of a section at `base`, relative to itself or to the section. -/
structure Encodes (enc : UInt8) (base cursor : Nat) (bytes : Bytes) (address : Nat) : Prop where
  relative : applicationOf enc = 0x10 ∨ applicationOf enc = 0x30
  number : ∃ raw, formatRaw (formatOf enc) bytes = some raw ∧
    toU64 (raw + origin enc base cursor) = address

/-- A number that the code can read: not a pointer of the machine, nor one of too many bytes. -/
def NumberFits (enc : UInt8) (bytes : Bytes) : Prop :=
  formatOf enc ≠ 0 ∧
    ∀ raw, formatRaw (formatOf enc) bytes = some raw → FormatFits (formatOf enc) bytes raw

/-- A number of a width of its own. -/
theorem numberFits_of_width {enc : UInt8} (hformat : formatOf enc ≠ 0) (huleb : formatOf enc ≠ 0x01)
    (hsleb : formatOf enc ≠ 0x09) (bytes : Bytes) : NumberFits enc bytes :=
  ⟨hformat, fun _ _ => ⟨fun h => absurd h huleb, fun h => absurd h hsleb⟩⟩

theorem inI64_wrap (n : Int) : InI64 (wrap n) :=
  ⟨BitVec.le_toInt _, BitVec.toInt_lt⟩

theorem origin_of_relative {enc : UInt8} (h : applicationOf enc = 0x10 ∨ applicationOf enc = 0x30)
    (cursor : Nat) : ∃ step : Nat, step ≤ cursor ∧
      (enc &&& DW_EH_PE_APPL_MASK = DW_EH_PE_PCREL → step = cursor) ∧
      ∀ base : Int, origin enc base cursor = base + step := by
  obtain hpcrel | hdatarel := h
  · exact ⟨cursor, Nat.le_refl _, fun _ => rfl, fun base => origin_of_pcrel hpcrel base cursor⟩
  · have hd : (enc &&& DW_EH_PE_APPL_MASK).toNat = DW_EH_PE_DATAREL.toNat := hdatarel
    have hp : ¬ enc &&& DW_EH_PE_APPL_MASK = DW_EH_PE_PCREL := by
      rw [UInt8.toNat_inj.mp hd]
      decide
    refine ⟨0, Nat.zero_le _, fun h => absurd h hp, fun base => ?_⟩
    rw [origin, if_neg hp, if_pos (UInt8.toNat_inj.mp hd)]
    exact (Int.add_zero _).symm

/-- **A pointer is read** from another base as much further on. -/
theorem readValue_encodes {enc : UInt8} {base address offset : Nat} {before bytes after : Bytes}
    (h : Encodes enc base before.length bytes address) (hnumber : NumberFits enc bytes)
    (hbase : base < 2 ^ 62) (haddress : address < 2 ^ 62) (hoffset : offset < 2 ^ 62)
    (hbefore : before.length < 2 ^ 62) :
    readValue enc offset (before ++ bytes ++ after) before.length =
      .ok ((address : Int) + ((offset : Int) - base), before.length + bytes.length) := by
  obtain ⟨raw, hraw, hto⟩ := h.number
  obtain ⟨step, hstep, hpcrel, horigin⟩ := origin_of_relative h.relative before.length
  have hwrap : wrap raw = (address : Int) - base - step := by
    have hrange := inI64_wrap raw
    have hmod := toU64_wrap_add raw (base + step)
    rw [← horigin, hto, horigin] at hmod
    unfold InI64 at hrange
    unfold toU64 at hmod
    omega
  have hsums : OriginFits enc offset before.length (wrap raw) := by
    unfold OriginFits InI64
    rw [hwrap]
    refine ⟨fun hp => ?_, fun _ => ?_⟩
    · have := hpcrel hp
      omega
    · omega
  rw [readValue_eq, valueOperand_of_fits hraw ⟨hnumber.1, hnumber.2 raw hraw, hsums⟩, horigin,
    hwrap]
  have hvalue : (address : Int) - base - step + (offset + step) = address + (offset - base) := by
    omega
  rw [hvalue]
  rfl

/-! ## The search table -/

structure TableRow where
  start : Nat
  startBytes : Bytes
  fde : Nat
  fdeBytes : Bytes

def TableRow.bytes (row : TableRow) : Bytes := row.startBytes ++ row.fdeBytes

def tableBytes (rows : List TableRow) : Bytes := rows.flatMap TableRow.bytes

/-- The rows from a position of the section on. -/
def RowsEncode (enc : UInt8) (base : Nat) : (cursor : Nat) → List TableRow → Prop
  | _, [] => True
  | cursor, row :: rows =>
    Encodes enc base cursor row.startBytes row.start ∧
      Encodes enc base (cursor + row.startBytes.length) row.fdeBytes row.fde ∧
      RowsEncode enc base (cursor + row.bytes.length) rows

/-- An entry of the code for a row, whose pointers it reads `d` further on. -/
def codeRow (d : Int) (ehOffset secPtr : Nat) (row : TableRow) : Exec FrameOffset := do
  let back ← subU64 (toU64 (row.fde + d)) secPtr
  let fde ← addU64 ehOffset back
  .ok { rva := toU64 (row.start + d), fde }

theorem tableBytes_cons (row : TableRow) (rows : List TableRow) :
    tableBytes (row :: rows) = row.startBytes ++ (row.fdeBytes ++ tableBytes rows) :=
  (List.flatMap_cons ..).trans (List.append_assoc _ _ _)

theorem formatRaw_nil (format : Nat) : formatRaw format [] = none := by
  unfold formatRaw
  split <;> rfl

theorem length_le_tableBytes {enc : UInt8} {base cursor : Nat} {rows : List TableRow}
    (h : RowsEncode enc base cursor rows) : rows.length ≤ (tableBytes rows).length := by
  induction rows generalizing cursor with
  | nil => exact Nat.le_refl _
  | cons row rows ih =>
    obtain ⟨hstart, -, hrest⟩ := h
    obtain ⟨raw, hraw, -⟩ := hstart.number
    have hpos : row.startBytes ≠ [] := by
      intro hnil
      rw [hnil, formatRaw_nil] at hraw
      cases hraw
    have := List.length_pos_of_ne_nil hpos
    have := ih hrest
    simp only [tableBytes_cons, List.length_append, List.length_cons]
    omega

section Rows

variable {enc : UInt8} {base offset ehOffset secPtr : Nat} {before after : Bytes}
  {rows : List TableRow}

theorem locLoop_eq (hrows : RowsEncode enc base before.length rows)
    (hnumbers : ∀ row ∈ rows, NumberFits enc row.startBytes ∧ NumberFits enc row.fdeBytes)
    (hbase : base < 2 ^ 62)
    (haddress : ∀ row ∈ rows, row.start < 2 ^ 62 ∧ row.fde < 2 ^ 62) (hoffset : offset < 2 ^ 62)
    (hlen : before.length + (tableBytes rows).length < 2 ^ 62) (offsets : List FrameOffset) :
    FrameOffset.locLoop enc offset ehOffset secPtr (before ++ (tableBytes rows ++ after))
      rows.length before.length offsets =
        (rows.mapM (codeRow ((offset : Int) - base) ehOffset secPtr) >>= fun new =>
          .ok (offsets ++ new)) := by
  induction rows generalizing before offsets with
  | nil => exact congrArg Except.ok (List.append_nil _).symm
  | cons row rows ih =>
    obtain ⟨hstart, hfde, hrest⟩ := hrows
    obtain ⟨⟨hstartLt, hfdeLt⟩, haddress⟩ := List.forall_mem_cons.mp haddress
    obtain ⟨⟨hstartFits, hfdeFits⟩, hnumbers⟩ := List.forall_mem_cons.mp hnumbers
    have hnext : (before ++ row.startBytes).length = before.length + row.startBytes.length :=
      List.length_append
    have hlast : (before ++ row.startBytes ++ row.fdeBytes).length =
        before.length + row.bytes.length := by
      simp [TableRow.bytes]
    have hentry : before ++ (tableBytes (row :: rows) ++ after) =
        before ++ row.startBytes ++ (row.fdeBytes ++ (tableBytes rows ++ after)) := by
      simp [tableBytes_cons]
    rw [tableBytes_cons, List.length_append, List.length_append] at hlen
    rw [← hnext] at hfde
    rw [← hlast] at hrest
    have hread := @readValue_encodes _ _ _ offset before _
      (row.fdeBytes ++ (tableBytes rows ++ after)) hstart hstartFits hbase hstartLt hoffset (by omega)
    have hread' := @readValue_encodes _ _ _ offset (before ++ row.startBytes) _
      (tableBytes rows ++ after) hfde hfdeFits hbase hfdeLt hoffset (by omega)
    rw [List.append_assoc (before ++ row.startBytes), ← List.length_append] at hread'
    have htail := @ih (before ++ row.startBytes ++ row.fdeBytes) hrest hnumbers haddress (by
      rw [hlast, TableRow.bytes, List.length_append]
      omega)
    rw [hentry, List.length_cons, FrameOffset.locLoop, hread, ok_bind, List.mapM_cons, codeRow]
    dsimp only
    rw [← hnext, hread', ok_bind]
    dsimp only
    cases subU64 (toU64 ((row.fde : Int) + ((offset : Int) - base))) secPtr with
    | error fault => rfl
    | ok back =>
      rw [ok_bind, ok_bind]
      cases addU64 ehOffset back with
      | error fault => rfl
      | ok fde =>
        rw [ok_bind, ok_bind]
        rw [List.append_assoc (before ++ row.startBytes)] at htail
        refine (htail _).trans ?_
        cases rows.mapM (codeRow ((offset : Int) - base) ehOffset secPtr) with
        | error fault => rfl
        | ok new => exact congrArg Except.ok (List.append_assoc _ _ _)

end Rows

/-- The section `.eh_frame_hdr`. -/
structure HeaderTable where
  ptrEnc : UInt8
  countEnc : UInt8
  tableEnc : UInt8
  ptrBytes : Bytes
  countBytes : Bytes
  rows : List TableRow

namespace HeaderTable

def head (table : HeaderTable) : Bytes := [1, table.ptrEnc, table.countEnc, table.tableEnc]

def bytes (table : HeaderTable) : Bytes :=
  table.head ++ table.ptrBytes ++ (table.countBytes ++ (tableBytes table.rows))

/-- The pointer to `.eh_frame` and the rows are relative to the section, and the count is not. -/
structure WellFormed (table : HeaderTable) (address frameAddress : Nat) : Prop where
  ptr : Encodes table.ptrEnc address 4 table.ptrBytes frameAddress
  countEnc : applicationOf table.countEnc = 0x00
  count : formatRaw (formatOf table.countEnc) table.countBytes = some (table.rows.length : Int)
  rows : RowsEncode table.tableEnc address (4 + table.ptrBytes.length + table.countBytes.length)
    table.rows
  tableEnc : applicationOf table.tableEnc = 0x10 ∨ applicationOf table.tableEnc = 0x30

/-- The code can read the numbers. -/
structure Fits (table : HeaderTable) : Prop where
  ptr : NumberFits table.ptrEnc table.ptrBytes
  count : NumberFits table.countEnc table.countBytes
  rows : ∀ row ∈ table.rows,
    NumberFits table.tableEnc row.startBytes ∧ NumberFits table.tableEnc row.fdeBytes

end HeaderTable

/-- **The table is read** into one entry for each row. -/
theorem parseLocTable_eq {content : Bytes} {table : HeaderTable} {metadata : SectionMetadata}
    {address frameAddress ehOffset : Nat} (h : table.WellFormed address frameAddress)
    (hnumbers : table.Fits)
    (hplaced : (content.drop metadata.offset).take metadata.size = table.bytes)
    (hsize : metadata.size = table.bytes.length) (hoffset : metadata.offset < 2 ^ 62)
    (hlen : table.bytes.length < 2 ^ 62) (haddress : address < 2 ^ 62)
    (hframe : frameAddress < 2 ^ 62)
    (hrows : ∀ row ∈ table.rows, row.start < 2 ^ 62 ∧ row.fde < 2 ^ 62) :
    FrameOffset.parseLocTable (File.ofBytes content) metadata ehOffset [] =
      table.rows.mapM (codeRow ((metadata.offset : Int) - address) ehOffset
        (toU64 (frameAddress + ((metadata.offset : Int) - address)))) := by
  have hread : (File.ofBytes content).readExact metadata.offset metadata.size =
      .ok table.bytes := by
    rw [← hplaced]
    exact readExact_ofBytes (by rw [hplaced, hsize])
  have hseek : (File.ofBytes content).seek metadata.offset = .ok () := rfl
  have hresize : FrameOffset.resize metadata.size = .ok () := if_pos (by omega)
  have hat (i : Nat) (byte : UInt8) (hi : table.head[i]? = some byte) :
      getAt table.bytes i = .ok byte := by
    refine getAt_eq_ok.mpr ?_
    rw [HeaderTable.bytes, List.append_assoc]
    rw [List.getElem?_append_left (List.getElem?_eq_some_iff.mp hi).1]
    exact hi
  unfold FrameOffset.parseLocTable
  rw [hseek, ok_bind, hresize, ok_bind, hread, ok_bind, hat 0 1 rfl, ok_bind, if_neg (by decide),
    hat 1 _ rfl, ok_bind, hat 2 _ rfl, ok_bind, hat 3 _ rfl, ok_bind]
  have homit {enc : UInt8} (happ : applicationOf enc ≠ 0xf0) : enc ≠ DW_EH_PE_OMIT := by
    rintro rfl
    exact happ (by decide)
  have hptrEnc : table.ptrEnc ≠ DW_EH_PE_OMIT := homit (by have := h.ptr.relative; omega)
  have hcountEnc : table.countEnc ≠ DW_EH_PE_OMIT := homit (by have := h.countEnc; omega)
  have htableEnc : table.tableEnc ≠ DW_EH_PE_OMIT := homit (by have := h.tableEnc; omega)
  have hdata : toI64 metadata.offset = (metadata.offset : Int) := if_pos (by omega)
  have hlength : table.bytes.length = 4 + table.ptrBytes.length + table.countBytes.length +
      (tableBytes table.rows).length := by
    simp [HeaderTable.bytes, HeaderTable.head]
    omega
  have hhead : (table.head ++ table.ptrBytes).length = 4 + table.ptrBytes.length :=
    List.length_append
  have hfront : (table.head ++ table.ptrBytes ++ table.countBytes).length =
      4 + table.ptrBytes.length + table.countBytes.length := by
    rw [List.length_append, hhead]
  have hptr : readValue table.ptrEnc metadata.offset table.bytes 4 =
      .ok ((frameAddress : Int) + ((metadata.offset : Int) - address),
        4 + table.ptrBytes.length) :=
    @readValue_encodes _ _ _ metadata.offset table.head _
      (table.countBytes ++ tableBytes table.rows) h.ptr hnumbers.ptr haddress hframe hoffset
      (by simp [HeaderTable.head])
  have hcount : readValue table.countEnc metadata.offset table.bytes (4 + table.ptrBytes.length) =
      .ok ((table.rows.length : Int), 4 + table.ptrBytes.length + table.countBytes.length) := by
    have happ := h.countEnc
    obtain ⟨hformat, hfits⟩ := hnumbers.count
    have hcountLt := length_le_tableBytes h.rows
    have hplain : ∀ base cursor, origin table.countEnc base cursor = 0 :=
      origin_of_absolute (by omega) (by omega)
    have hsums : OriginFits table.countEnc metadata.offset (table.head ++ table.ptrBytes).length
        (wrap (table.rows.length : Int)) := by
      have hp : ¬ table.countEnc &&& DW_EH_PE_APPL_MASK = DW_EH_PE_PCREL := fun heq => by
        rw [applicationOf, heq] at happ
        exact absurd happ (by decide)
      have hd : ¬ table.countEnc &&& DW_EH_PE_APPL_MASK = DW_EH_PE_DATAREL := fun heq => by
        rw [applicationOf, heq] at happ
        exact absurd happ (by decide)
      exact ⟨fun heq => absurd heq hp, fun heq => absurd heq hd⟩
    have hread := @valueOperand_of_fits table.countEnc metadata.offset
      (table.head ++ table.ptrBytes) table.countBytes (tableBytes table.rows) _ h.count
      ⟨hformat, hfits _ h.count, hsums⟩
    rw [hplain, hhead, wrap_of_inI64 (by unfold InI64; omega), Int.add_zero,
      List.append_assoc] at hread
    rw [readValue_eq, HeaderTable.bytes, hread]
    rfl
  have hloop := @locLoop_eq table.tableEnc address metadata.offset ehOffset
    (toU64 (frameAddress + ((metadata.offset : Int) - address)))
    (table.head ++ table.ptrBytes ++ table.countBytes) [] table.rows (hfront ▸ h.rows) hnumbers.rows
    haddress
    hrows hoffset (by omega) []
  rw [if_neg (by simp [hptrEnc, hcountEnc, htableEnc])]
  dsimp only
  rw [hdata, hptr, ok_bind]
  dsimp only
  rw [hcount, ok_bind]
  dsimp only
  rw [hfront, List.append_nil] at hloop
  have hbytes : table.bytes =
      table.head ++ table.ptrBytes ++ table.countBytes ++ tableBytes table.rows := by
    rw [HeaderTable.bytes, List.append_assoc _ table.countBytes]
  rw [hbytes, Int.toNat_natCast]
  exact hloop.trans (bind_pure _)

end OneCollect.Ruwind
