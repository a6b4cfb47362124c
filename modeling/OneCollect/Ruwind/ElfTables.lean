import OneCollect.Ruwind.Elf
import OneCollect.Theory.Pointwise
import OneCollect.Theory.Stride

/-! The section table as `get_section_offsets` and `enum_section_metadata` of `elf.rs` walk it.

Both walks read the same headers (`walked`). With `e_shnum = 0` the number of sections is the size
of section 0, and the walks have then moved on by one: they show each section as the one behind it.
-/

namespace OneCollect.Ruwind.Elf
open Theory

def SHT_SYMTAB : Nat := 2
def SHT_NOTE : Nat := 7
def SHT_DYNSYM : Nat := 11

/-- The class in an identification read before, or else in that of the file. -/
def getClass (reader : File) : (ident : Option Bytes) → Exec UInt8
  | some slice => do
    let class_ ← getAt slice EI_CLASS
    reader.seek 16
    .ok class_
  | none => do
    reader.seek 0
    let slice ← reader.readExact 0 16
    getAt slice EI_CLASS

section Walks

variable (checks : OverflowChecks) (layout : ElfLayout) (class_ : UInt8) (reader : File)

/-- What is read ahead of the loops: the number of sections, and a section and its position. -/
structure Opening where
  header : Bytes
  secCount : Nat
  secOffset : Nat
  sec : Bytes

def openTable : Exec Opening := do
  let header ← reader.readExact 16 layout.headerSize
  let secCount := field header layout.e_shnum
  let secOffset := field header layout.e_shoff
  let sec ← getSectionHeader layout reader secOffset
  if secCount = 0 then do
    let secCount := field sec layout.sh_size % 2 ^ 32
    let (secOffset, sec) ←
      Stride.next checks (getSectionHeader layout reader) (field header layout.e_shentsize)
        secOffset
    .ok { header, secCount, secOffset, sec }
  else
    .ok { header, secCount, secOffset, sec }

/-- `get_section_offsets32` and `get_section_offsets64`. -/
def getSectionOffsetsOf (offsets : List Nat) : Exec (List Nat) := do
  let table ← openTable checks layout reader
  Stride.loop checks (getSectionHeader layout reader) (field table.header layout.e_shentsize)
    (fun _ sec offsets => offsets ++ [field sec layout.sh_offset])
    table.secCount 0 table.secOffset table.sec offsets

/-- What is pushed for a section: its name is not placed yet. -/
def sectionEntry (sec : Bytes) : SectionMetadata where
  secType := field sec layout.sh_type
  address := field sec layout.sh_addr
  offset := field sec layout.sh_offset
  size := field sec layout.sh_size
  entrySize := field sec layout.sh_entsize
  nameOffset := field sec layout.sh_name
  link := field sec layout.sh_link
  class_ := class_

def wanted (secType : Option Nat) (m : SectionMetadata) : Bool :=
  match secType with
  | some secType => m.secType = secType
  | none => true

/-- The body of the loop of `get_section_metadata32` and `get_section_metadata64`. -/
def collect (header : Bytes) (secType : Option Nat) (i : Nat) (sec : Bytes)
    (state : Nat × List SectionMetadata) : Nat × List SectionMetadata :=
  let strOffset :=
    if i = field header layout.e_shstrndx then field sec layout.sh_offset else state.1
  let m := sectionEntry layout class_ sec
  (strOffset, if wanted secType m then state.2 ++ [m] else state.2)

def addNameOffset (strOffset : Nat) (m : SectionMetadata) : Exec SectionMetadata := do
  let nameOffset ← checks.addU64 m.nameOffset strOffset
  .ok { m with nameOffset }

/-- `get_section_metadata32` and `get_section_metadata64`. -/
def getSectionMetadataOf (secType : Option Nat) (metadata : List SectionMetadata) :
    Exec (List SectionMetadata) := do
  let table ← openTable checks layout reader
  let addedIndex := metadata.length
  let (strOffset, metadata) ←
    Stride.loop checks (getSectionHeader layout reader) (field table.header layout.e_shentsize)
      (collect layout class_ table.header secType)
      table.secCount 0 table.secOffset table.sec (0, metadata)
  let added ← (metadata.drop addedIndex).mapM (addNameOffset checks strOffset)
  .ok (metadata.take addedIndex ++ added)

end Walks

section Entry

variable (checks : OverflowChecks) (reader : File)

def getSectionOffsets32 (offsets : List Nat) : Exec (List Nat) :=
  getSectionOffsetsOf checks elf32 reader offsets

def getSectionOffsets64 (offsets : List Nat) : Exec (List Nat) :=
  getSectionOffsetsOf checks elf64 reader offsets

def getSectionMetadata32 (secType : Option Nat) (metadata : List SectionMetadata) :
    Exec (List SectionMetadata) :=
  getSectionMetadataOf checks elf32 ELFCLASS32 reader secType metadata

def getSectionMetadata64 (secType : Option Nat) (metadata : List SectionMetadata) :
    Exec (List SectionMetadata) :=
  getSectionMetadataOf checks elf64 ELFCLASS64 reader secType metadata

def getSectionOffsets (ident : Option Bytes) (offsets : List Nat) : Exec (List Nat) := do
  let class_ ← getClass reader ident
  if class_ = ELFCLASS32 then getSectionOffsets32 checks reader offsets
  else if class_ = ELFCLASS64 then getSectionOffsets64 checks reader offsets
  else .ok offsets

def enumSectionMetadata (ident : Option Bytes) (secType : Option Nat)
    (metadata : List SectionMetadata) : Exec (List SectionMetadata) := do
  let class_ ← getClass reader ident
  if class_ = ELFCLASS32 then getSectionMetadata32 checks reader secType metadata
  else if class_ = ELFCLASS64 then getSectionMetadata64 checks reader secType metadata
  else .ok metadata

def getSectionMetadata (ident : Option Bytes) (secType : Nat) (metadata : List SectionMetadata) :
    Exec (List SectionMetadata) :=
  enumSectionMetadata checks reader ident (some secType) metadata

end Entry

/-! ## The headers both walks come by -/

section Walked

variable {checks : OverflowChecks} {layout : ElfLayout} {class_ : UInt8} {reader : File}

def walked (checks : OverflowChecks) (layout : ElfLayout) (reader : File) :
    Exec (Bytes × List Bytes) := do
  let table ← openTable checks layout reader
  match table.secCount with
  | 0 => .ok (table.header, [])
  | count + 1 => do
    let secs ← Stride.walk checks (getSectionHeader layout reader)
      (field table.header layout.e_shentsize) count table.secOffset
    .ok (table.header, table.sec :: secs)

/-- A loop of a walk folds over them. -/
theorem loop_eq_walked {σ : Type} (body : Bytes → Nat → Bytes → σ → σ) (state : σ) :
    (openTable checks layout reader >>= fun table =>
      Stride.loop checks (getSectionHeader layout reader) (field table.header layout.e_shentsize)
        (body table.header) table.secCount 0 table.secOffset table.sec state) =
      (walked checks layout reader).map fun found =>
        Stride.foldFrom (body found.1) 0 found.2 state := by
  unfold walked
  cases openTable checks layout reader with
  | error fault => rfl
  | ok table =>
    obtain ⟨header, secCount, secOffset, sec⟩ := table
    rw [ok_bind, ok_bind]
    cases secCount with
    | zero => rfl
    | succ count =>
      dsimp only
      rw [Stride.loop_zero]
      cases Stride.walk checks (getSectionHeader layout reader)
        (field header layout.e_shentsize) count secOffset with
      | error fault => rfl
      | ok secs => rfl

/-- The offset of the section with the names, 0 without one. -/
def stringOffset (layout : ElfLayout) (header : Bytes) (entries : List SectionMetadata) : Nat :=
  (entries[field header layout.e_shstrndx]?.map (·.offset)).getD 0

theorem foldFrom_offsets (i : Nat) (secs : List Bytes) (offsets : List Nat) :
    Stride.foldFrom (fun _ sec offsets => offsets ++ [field sec layout.sh_offset]) i secs offsets =
      offsets ++ secs.map fun sec => field sec layout.sh_offset := by
  induction secs generalizing i offsets with
  | nil => simp [Stride.foldFrom]
  | cons sec secs ih => simp [Stride.foldFrom, ih]

theorem foldFrom_collect_snd (header : Bytes) (secType : Option Nat) (i : Nat) (secs : List Bytes)
    (state : Nat × List SectionMetadata) :
    (Stride.foldFrom (collect layout class_ header secType) i secs state).2 =
      state.2 ++ (secs.map (sectionEntry layout class_)).filter (wanted secType) := by
  induction secs generalizing i state with
  | nil => simp [Stride.foldFrom]
  | cons sec secs ih =>
    rw [Stride.foldFrom, ih, collect]
    by_cases hw : wanted secType (sectionEntry layout class_ sec) = true
    · simp [hw]
    · simp [hw]

theorem foldFrom_collect_fst (header : Bytes) (secType : Option Nat) (i : Nat) (secs : List Bytes)
    (state : Nat × List SectionMetadata) :
    (Stride.foldFrom (collect layout class_ header secType) i secs state).1 =
      if i ≤ field header layout.e_shstrndx then
        (secs[field header layout.e_shstrndx - i]?.map (field · layout.sh_offset)).getD state.1
      else state.1 := by
  induction secs generalizing i state with
  | nil => simp [Stride.foldFrom]
  | cons sec secs ih =>
    rw [Stride.foldFrom, ih, collect]
    dsimp only
    generalize field header layout.e_shstrndx = strndx
    rcases Nat.lt_trichotomy i strndx with hlt | rfl | hgt
    · have hsub : strndx - i = strndx - (i + 1) + 1 := by omega
      rw [if_pos (Nat.succ_le_of_lt hlt), if_pos hlt.le, if_neg hlt.ne, hsub,
        List.getElem?_cons_succ]
    · rw [if_neg (Nat.not_succ_le_self i), if_pos rfl, if_pos (Nat.le_refl i), Nat.sub_self]
      rfl
    · rw [if_neg (by omega), if_neg (by omega), if_neg (by omega)]

theorem getSectionOffsetsOf_eq (offsets : List Nat) :
    getSectionOffsetsOf checks layout reader offsets =
      (walked checks layout reader).map fun found =>
        offsets ++ found.2.map fun sec => field sec layout.sh_offset := by
  rw [getSectionOffsetsOf,
    loop_eq_walked fun _ _ sec offsets => offsets ++ [field sec layout.sh_offset]]
  simp only [foldFrom_offsets]

/-- The names placed, behind the sections of earlier calls. -/
def placeNames (checks : OverflowChecks) (strOffset : Nat) (metadata added : List SectionMetadata) :
    Exec (List SectionMetadata) := do
  let added ← added.mapM (addNameOffset checks strOffset)
  .ok (metadata ++ added)

theorem getSectionMetadataOf_eq (secType : Option Nat) (metadata : List SectionMetadata) :
    getSectionMetadataOf checks layout class_ reader secType metadata =
      (do
        let found ← walked checks layout reader
        let entries := found.2.map (sectionEntry layout class_)
        placeNames checks (stringOffset layout found.1 entries) metadata
          (entries.filter (wanted secType))) := by
  have hloop := @loop_eq_walked checks layout reader _
    (fun header => collect layout class_ header secType) (0, metadata)
  unfold getSectionMetadataOf
  dsimp only
  rw [← bind_assoc, hloop]
  cases walked checks layout reader with
  | error fault => rfl
  | ok found =>
    have hstr : (Stride.foldFrom (collect layout class_ found.1 secType) 0 found.2
        (0, metadata)).1 = stringOffset layout found.1 (found.2.map (sectionEntry layout class_)) := by
      rw [foldFrom_collect_fst, if_pos (Nat.zero_le _), stringOffset, List.getElem?_map,
        Option.map_map]
      rfl
    have hmeta := @foldFrom_collect_snd layout class_ found.1 secType 0 found.2 (0, metadata)
    simp only [Except.map, ok_bind]
    generalize Stride.foldFrom (collect layout class_ found.1 secType) 0 found.2 (0, metadata) =
      result at hstr hmeta ⊢
    obtain ⟨strOffset, all⟩ := result
    dsimp only at hstr hmeta ⊢
    subst hstr hmeta
    rw [List.drop_left, List.take_left]
    rfl

/-- The layout of a class that is known. -/
def layoutOf (class_ : UInt8) : Option ElfLayout :=
  if class_ = ELFCLASS32 then some elf32
  else if class_ = ELFCLASS64 then some elf64
  else none

theorem getSectionOffsets_eq (ident : Option Bytes) (offsets : List Nat) :
    getSectionOffsets checks reader ident offsets = (do
      let class_ ← getClass reader ident
      match layoutOf class_ with
      | some layout => getSectionOffsetsOf checks layout reader offsets
      | none => .ok offsets) := by
  unfold getSectionOffsets layoutOf getSectionOffsets32 getSectionOffsets64
  cases getClass reader ident with
  | error fault => rfl
  | ok class_ =>
    rw [ok_bind, ok_bind]
    by_cases h32 : class_ = ELFCLASS32
    · rw [if_pos h32, if_pos h32]
    · by_cases h64 : class_ = ELFCLASS64
      · rw [if_neg h32, if_neg h32, if_pos h64, if_pos h64]
      · rw [if_neg h32, if_neg h32, if_neg h64, if_neg h64]

theorem enumSectionMetadata_eq (ident : Option Bytes) (secType : Option Nat)
    (metadata : List SectionMetadata) :
    enumSectionMetadata checks reader ident secType metadata = (do
      let class_ ← getClass reader ident
      match layoutOf class_ with
      | some layout => getSectionMetadataOf checks layout class_ reader secType metadata
      | none => .ok metadata) := by
  unfold enumSectionMetadata layoutOf getSectionMetadata32 getSectionMetadata64
  cases getClass reader ident with
  | error fault => rfl
  | ok class_ =>
    rw [ok_bind, ok_bind]
    by_cases h32 : class_ = ELFCLASS32
    · rw [if_pos h32, if_pos h32, h32]
    · by_cases h64 : class_ = ELFCLASS64
      · rw [if_neg h32, if_neg h32, if_pos h64, if_pos h64, h64]
      · rw [if_neg h32, if_neg h32, if_neg h64, if_neg h64]

end Walked

/-! ## Tables that can be read -/

def sectionPos (layout : ElfLayout) (header : Bytes) (i : Nat) : Nat :=
  field header layout.e_shoff + i * field header layout.e_shentsize

/-- The table of a file: `n` sections, `sec i` the header of section `i`. -/
structure SectionTable (layout : ElfLayout) (reader : File) (header : Bytes) (sec : Nat → Bytes)
    (n : Nat) : Prop where
  opened : reader.readExact 16 layout.headerSize = .ok header
  first : getSectionHeader layout reader (field header layout.e_shoff) = .ok (sec 0)
  count : n = if field header layout.e_shnum = 0 then field (sec 0) layout.sh_size
    else field header layout.e_shnum
  inside : ∀ i < n, sectionPos layout header i < 2 ^ 64
  readable : ∀ i < n, getSectionHeader layout reader (sectionPos layout header i) = .ok (sec i)

/-- The sections in the order of the table, their names not placed yet. -/
def entriesOf (layout : ElfLayout) (class_ : UInt8) (sec : Nat → Bytes) (n : Nat) :
    List SectionMetadata :=
  (List.range n).map fun i => sectionEntry layout class_ (sec i)

/-- A section whose name lies in the strings at `strOffset`. -/
def named (strOffset : Nat) (m : SectionMetadata) : SectionMetadata :=
  { m with nameOffset := m.nameOffset + strOffset }

/-- What the two functions are for. -/
structure TablesRight (checks : OverflowChecks) (reader : File) (ident : Option Bytes)
    (layout : ElfLayout) (class_ : UInt8) (header : Bytes) (sec : Nat → Bytes) (n : Nat) :
    Prop where
  offsets : getSectionOffsets checks reader ident [] =
    .ok ((List.range n).map fun i => field (sec i) layout.sh_offset)
  metadata : ∀ secType metadata, enumSectionMetadata checks reader ident secType metadata =
    .ok (metadata ++ ((entriesOf layout class_ sec n).filter (wanted secType)).map
      (named (stringOffset layout header (entriesOf layout class_ sec n))))

/-- No name lies past the end of the address space. -/
def NamesFit (layout : ElfLayout) (class_ : UInt8) (header : Bytes) (sec : Nat → Bytes) (n : Nat) :
    Prop :=
  ∀ i < n, field (sec i) layout.sh_name +
    stringOffset layout header (entriesOf layout class_ sec n) < 2 ^ 64

/-- What lies one entry behind the last section. -/
def pastLast (checks : OverflowChecks) (layout : ElfLayout) (reader : File) (header : Bytes)
    (n : Nat) : Exec (Nat × Bytes) :=
  Stride.next checks (getSectionHeader layout reader) (field header layout.e_shentsize)
    (sectionPos layout header (n - 1))

/-- Every section up to the last looks like what lies one entry behind it. -/
def Repeats (checks : OverflowChecks) (layout : ElfLayout) (class_ : UInt8) (reader : File)
    (header : Bytes) (sec : Nat → Bytes) (n : Nat) : Prop :=
  ∃ pos last, pastLast checks layout reader header n = .ok (pos, last) ∧
    ∀ i < n, sectionEntry layout class_ (if i + 1 < n then sec (i + 1) else last) =
      sectionEntry layout class_ (sec i)

section Tables

variable {checks : OverflowChecks} {layout : ElfLayout} {class_ : UInt8} {reader : File}
  {ident : Option Bytes} {header : Bytes} {sec : Nat → Bytes} {n : Nat}

theorem SectionTable.walked_numbered (h : SectionTable layout reader header sec n)
    (hnum : field header layout.e_shnum ≠ 0) :
    walked checks layout reader = .ok (header, (List.range n).map sec) := by
  have hcount := h.count
  rw [if_neg hnum] at hcount
  have hopen : openTable checks layout reader =
      .ok { header, secCount := n, secOffset := field header layout.e_shoff, sec := sec 0 } := by
    unfold openTable
    rw [h.opened, ok_bind]
    dsimp only
    rw [h.first, ok_bind, if_neg hnum, hcount]
  unfold walked
  rw [hopen, ok_bind]
  dsimp only
  cases n with
  | zero => rfl
  | succ m =>
    have hwalk : Stride.walk checks (getSectionHeader layout reader)
        (field header layout.e_shentsize) m (field header layout.e_shoff) =
          .ok ((List.range m).map fun i => sec (i + 1)) :=
      Stride.walk_of_known (fun i hi => h.inside (i + 1) (Nat.succ_lt_succ hi))
        fun i hi => h.readable (i + 1) (Nat.succ_lt_succ hi)
    dsimp only
    rw [hwalk, ok_bind, List.range_succ_eq_map, List.map_cons, List.map_map]
    rfl

theorem SectionTable.openTable_extended (h : SectionTable layout reader header sec n)
    (hnum : field header layout.e_shnum = 0) :
    openTable checks layout reader = (do
      let (secOffset, sec) ← Stride.next checks (getSectionHeader layout reader)
        (field header layout.e_shentsize) (field header layout.e_shoff)
      .ok { header, secCount := n % 2 ^ 32, secOffset, sec }) := by
  have hcount := h.count
  rw [if_pos hnum] at hcount
  unfold openTable
  rw [h.opened, ok_bind]
  dsimp only
  rw [h.first, ok_bind, if_pos hnum, ← hcount]

/-- With the number of sections in section 0 the walks have moved on by one. -/
theorem SectionTable.walked_extended (h : SectionTable layout reader header sec n)
    (hnum : field header layout.e_shnum = 0) (hn : n < 2 ^ 32) :
    walked checks layout reader = (pastLast checks layout reader header n).map fun last =>
      (header, (List.range n).map fun i => if i + 1 < n then sec (i + 1) else last.2) := by
  unfold walked
  rw [h.openTable_extended hnum, Nat.mod_eq_of_lt hn, bind_assoc]
  cases n with
  | zero =>
    have hpos : sectionPos layout header (0 - 1) = field header layout.e_shoff := by
      simp [sectionPos]
    rw [pastLast, hpos]
    cases Stride.next checks (getSectionHeader layout reader) (field header layout.e_shentsize)
        (field header layout.e_shoff) with
    | error fault => rfl
    | ok last => rfl
  | succ m =>
    have hwalk : Stride.walk checks (getSectionHeader layout reader)
        (field header layout.e_shentsize) (m + 1) (field header layout.e_shoff) = (do
          let (_, last) ← pastLast checks layout reader header (m + 1)
          .ok (((List.range m).map fun i => sec (i + 1)) ++ [last])) :=
      Stride.walk_past_known (fun i hi => h.inside (i + 1) (Nat.succ_lt_succ hi))
        fun i hi => h.readable (i + 1) (Nat.succ_lt_succ hi)
    have hshown (last : Bytes) : ((List.range (m + 1)).map fun i =>
        if i + 1 < m + 1 then sec (i + 1) else last) =
          ((List.range m).map fun i => sec (i + 1)) ++ [last] := by
      rw [List.range_succ, List.map_append]
      congr 1
      · refine List.map_congr_left fun i hi => ?_
        rw [if_pos (Nat.succ_lt_succ (List.mem_range.mp hi))]
      · simp
    have hpair : (do
        let (secOffset, sec) ← Stride.next checks (getSectionHeader layout reader)
          (field header layout.e_shentsize) (field header layout.e_shoff)
        let secs ← Stride.walk checks (getSectionHeader layout reader)
          (field header layout.e_shentsize) m secOffset
        .ok (header, sec :: secs)) =
          (Stride.walk checks (getSectionHeader layout reader) (field header layout.e_shentsize)
            (m + 1) (field header layout.e_shoff)).map (Prod.mk header) := by
      rw [Stride.walk_succ]
      cases Stride.next checks (getSectionHeader layout reader)
          (field header layout.e_shentsize) (field header layout.e_shoff) with
      | error fault => rfl
      | ok moved =>
        rw [ok_bind, ok_bind]
        dsimp only
        cases Stride.walk checks (getSectionHeader layout reader)
            (field header layout.e_shentsize) m moved.1 with
        | error fault => rfl
        | ok rest => rfl
    refine hpair.trans ?_
    rw [hwalk]
    simp only [hshown]
    cases pastLast checks layout reader header (m + 1) with
    | error fault => rfl
    | ok last => rfl

/-- The walks end with as many headers as they have counted. -/
theorem walked_length {found : Bytes × List Bytes} (h : walked checks layout reader = .ok found) :
    ∃ table, openTable checks layout reader = .ok table ∧ found.2.length = table.secCount := by
  obtain ⟨table, hopen, h⟩ := bind_eq_ok.mp h
  refine ⟨table, hopen, ?_⟩
  cases hcount : table.secCount with
  | zero =>
    rw [hcount] at h
    cases h
    rfl
  | succ count =>
    rw [hcount] at h
    obtain ⟨secs, hwalk, h⟩ := bind_eq_ok.mp h
    cases h
    rw [List.length_cons, Stride.length_walk hwalk]

theorem SectionTable.walked_length_extended (h : SectionTable layout reader header sec n)
    (hnum : field header layout.e_shnum = 0) {found : Bytes × List Bytes}
    (hfound : walked checks layout reader = .ok found) : found.2.length = n % 2 ^ 32 := by
  obtain ⟨table, hopen, hlen⟩ := walked_length hfound
  rw [h.openTable_extended hnum] at hopen
  obtain ⟨moved, -, hopen⟩ := bind_eq_ok.mp hopen
  cases hopen
  exact hlen

/-! ## When the tables are right -/

theorem addNameOffset_named {strOffset : Nat} {m : SectionMetadata}
    (h : m.nameOffset + strOffset < 2 ^ 64) :
    addNameOffset checks strOffset m = .ok (named strOffset m) := by
  rw [addNameOffset, checks.addU64_of_lt h]
  rfl

/-- A name is placed right only where its place is a word, and then it was that name. -/
theorem eq_of_addNameOffset {strOffset : Nat} {m m' : SectionMetadata}
    (hm : m.nameOffset < 2 ^ 64) (hm' : m'.nameOffset < 2 ^ 64)
    (h : addNameOffset checks strOffset m = .ok (named strOffset m')) :
    m = m' ∧ m'.nameOffset + strOffset < 2 ^ 64 := by
  obtain ⟨nameOffset, hadd, h⟩ := bind_eq_ok.mp h
  have hrest := Except.ok.inj h
  obtain ⟨secType, address, offset, size, entrySize, name, link, class_⟩ := m
  obtain ⟨secType', address', offset', size', entrySize', name', link', class'⟩ := m'
  simp only [named, SectionMetadata.mk.injEq] at hrest
  obtain ⟨rfl, rfl, rfl, rfl, rfl, rfl, rfl, rfl⟩ := hrest
  dsimp only at hm hm' hadd ⊢
  have hword : name + strOffset = name' + strOffset ∧ name' + strOffset < 2 ^ 64 := by
    cases checks with
    | on =>
      obtain ⟨hlt, heq⟩ := addU64_eq_ok.mp hadd
      omega
    | off =>
      have heq := Except.ok.inj hadd
      omega
  obtain ⟨hsame, hlt⟩ := hword
  have hname : name = name' := by omega
  exact ⟨by rw [hname], hlt⟩

theorem sectionEntry_nameOffset_lt (hlayout : layoutOf class_ = some layout) (sec : Bytes) :
    (sectionEntry layout class_ sec).nameOffset < 2 ^ 64 := by
  have hname : layout.sh_name = (0, 4) := by
    unfold layoutOf at hlayout
    split at hlayout
    · cases hlayout
      rfl
    · split at hlayout
      · cases hlayout
        rfl
      · cases hlayout
  have hlen : ((sec.drop 0).take 4).length ≤ 4 := List.length_take_le 4 _
  calc field sec layout.sh_name
      = fromLe ((sec.drop 0).take 4) := by rw [hname, field]
    _ < 256 ^ ((sec.drop 0).take 4).length := fromLe_lt _
    _ ≤ 256 ^ 4 := Nat.pow_le_pow_right (by decide) hlen
    _ < 2 ^ 64 := by decide

section Found

variable {secs : List Bytes}

theorem getSectionOffsets_of_walked (hclass : getClass reader ident = .ok class_)
    (hlayout : layoutOf class_ = some layout)
    (hw : walked checks layout reader = .ok (header, secs)) (offsets : List Nat) :
    getSectionOffsets checks reader ident offsets =
      .ok (offsets ++ secs.map fun sec => field sec layout.sh_offset) := by
  rw [getSectionOffsets_eq, hclass, ok_bind, hlayout]
  dsimp only
  rw [getSectionOffsetsOf_eq, hw]
  rfl

theorem enumSectionMetadata_of_walked (hclass : getClass reader ident = .ok class_)
    (hlayout : layoutOf class_ = some layout)
    (hw : walked checks layout reader = .ok (header, secs)) (secType : Option Nat)
    (metadata : List SectionMetadata) :
    enumSectionMetadata checks reader ident secType metadata =
      placeNames checks (stringOffset layout header (secs.map (sectionEntry layout class_))) metadata
        ((secs.map (sectionEntry layout class_)).filter (wanted secType)) := by
  rw [enumSectionMetadata_eq, hclass, ok_bind, hlayout]
  dsimp only
  rw [getSectionMetadataOf_eq, hw, ok_bind]

theorem placeNames_of_fit {strOffset : Nat} {metadata added : List SectionMetadata}
    (h : ∀ m ∈ added, m.nameOffset + strOffset < 2 ^ 64) :
    placeNames checks strOffset metadata added =
      .ok (metadata ++ added.map (named strOffset)) := by
  have hadded : added.mapM (addNameOffset checks strOffset) = .ok (added.map (named strOffset)) := by
    rw [mapM_eq_ok_iff, List.forall₂_map_right_iff]
    exact List.forall₂_same.mpr fun m hm => addNameOffset_named (h m hm)
  rw [placeNames, hadded]
  rfl

theorem filter_wanted_none (entries : List SectionMetadata) :
    entries.filter (wanted none) = entries :=
  List.filter_eq_self.mpr fun _ _ => rfl

/-- Right tables come from walks that end, and end with all sections. -/
theorem TablesRight.walked (h : TablesRight checks reader ident layout class_ header sec n)
    (hclass : getClass reader ident = .ok class_) (hlayout : layoutOf class_ = some layout) :
    ∃ found, walked checks layout reader = .ok found ∧ found.2.length = n := by
  have hoffsets := h.offsets
  rw [getSectionOffsets_eq, hclass, ok_bind, hlayout] at hoffsets
  dsimp only at hoffsets
  rw [getSectionOffsetsOf_eq] at hoffsets
  cases hw : Elf.walked checks layout reader with
  | error fault =>
    rw [hw] at hoffsets
    cases hoffsets
  | ok found =>
    rw [hw] at hoffsets
    have hlen := congrArg List.length (Except.ok.inj hoffsets)
    dsimp only at hlen
    rw [List.nil_append, List.length_map, List.length_map, List.length_range] at hlen
    exact ⟨found, rfl, hlen⟩

/-- The tables are right where the walks come by the sections and their names can be placed. -/
theorem tablesRight_iff_of_walked (hclass : getClass reader ident = .ok class_)
    (hlayout : layoutOf class_ = some layout)
    (hw : walked checks layout reader = .ok (header, secs)) :
    TablesRight checks reader ident layout class_ header sec n ↔
      NamesFit layout class_ header sec n ∧
        secs.map (sectionEntry layout class_) = entriesOf layout class_ sec n := by
  constructor
  · intro h
    have hoffsets : (secs.map fun sec => field sec layout.sh_offset) =
        (List.range n).map fun i => field (sec i) layout.sh_offset :=
      Except.ok.inj ((getSectionOffsets_of_walked hclass hlayout hw []).symm.trans h.offsets)
    have hstr : stringOffset layout header (secs.map (sectionEntry layout class_)) =
        stringOffset layout header (entriesOf layout class_ sec n) := by
      have hmaps : (secs.map (sectionEntry layout class_)).map (·.offset) =
          (entriesOf layout class_ sec n).map (·.offset) := by
        rw [entriesOf, List.map_map, List.map_map]
        exact hoffsets
      rw [stringOffset, stringOffset, ← List.getElem?_map, ← List.getElem?_map, hmaps]
    have hall := (enumSectionMetadata_of_walked hclass hlayout hw none []).symm.trans
      (h.metadata none [])
    rw [hstr] at hall
    generalize hoffset : stringOffset layout header (entriesOf layout class_ sec n) = strOffset
      at hall
    obtain ⟨added, hadded, hret⟩ := bind_eq_ok.mp hall
    have hsame : added = ((entriesOf layout class_ sec n).filter (wanted none)).map
        (named strOffset) := by
      simpa using hret
    rw [hsame, mapM_eq_ok_iff, List.forall₂_map_right_iff, filter_wanted_none,
      filter_wanted_none, entriesOf, List.forall₂_map_left_iff,
      List.forall₂_map_right_iff] at hadded
    have hplaced := hadded.imp fun found i hi => eq_of_addNameOffset
      (sectionEntry_nameOffset_lt hlayout found) (sectionEntry_nameOffset_lt hlayout (sec i)) hi
    refine ⟨fun i hi => ?_, ?_⟩
    · obtain ⟨found, -, -, hlt⟩ := forall₂_mem_right hplaced (List.mem_range.mpr hi)
      rw [hoffset]
      exact hlt
    · rw [entriesOf, ← List.forall₂_eq_eq_eq, List.forall₂_map_left_iff,
        List.forall₂_map_right_iff]
      exact hplaced.imp fun _ _ hi => hi.1
  · rintro ⟨hnames, hsame⟩
    refine ⟨?_, fun secType metadata => ?_⟩
    · have hoffsets := congrArg (List.map (·.offset)) hsame
      rw [entriesOf, List.map_map, List.map_map] at hoffsets
      rw [getSectionOffsets_of_walked hclass hlayout hw, List.nil_append]
      exact congrArg _ hoffsets
    · rw [enumSectionMetadata_of_walked hclass hlayout hw, hsame]
      refine placeNames_of_fit fun m hm => ?_
      obtain ⟨i, hi, rfl⟩ := List.mem_map.mp (List.mem_of_mem_filter hm)
      exact hnames i (List.mem_range.mp hi)

end Found

/-- **Where the section tables are right.** An image whose section headers can be read shows its
sections, one entry each and under its own number, exactly when every name can be placed and, where
section 0 has the number of sections, each section looks like what lies one entry behind it. -/
theorem sectionTables_iff (hclass : getClass reader ident = .ok class_)
    (hlayout : layoutOf class_ = some layout) (htable : SectionTable layout reader header sec n) :
    TablesRight checks reader ident layout class_ header sec n ↔
      NamesFit layout class_ header sec n ∧
        (field header layout.e_shnum = 0 →
          n < 2 ^ 32 ∧ Repeats checks layout class_ reader header sec n) := by
  by_cases hnum : field header layout.e_shnum = 0
  · have himp : (field header layout.e_shnum = 0 →
        n < 2 ^ 32 ∧ Repeats checks layout class_ reader header sec n) ↔
          n < 2 ^ 32 ∧ Repeats checks layout class_ reader header sec n :=
      ⟨fun h => h hnum, fun h _ => h⟩
    rw [himp]
    by_cases hn : n < 2 ^ 32
    · cases hlast : pastLast checks layout reader header n with
      | error fault =>
        refine iff_of_false (fun h => ?_) ?_
        · obtain ⟨found, hw, -⟩ := h.walked hclass hlayout
          rw [htable.walked_extended hnum hn, hlast] at hw
          cases hw
        · rintro ⟨-, -, pos, last, hok, -⟩
          rw [hlast] at hok
          cases hok
      | ok past =>
        obtain ⟨pos, last⟩ := past
        have hw : walked checks layout reader =
            .ok (header, (List.range n).map fun i => if i + 1 < n then sec (i + 1) else last) := by
          rw [htable.walked_extended hnum hn, hlast]
          rfl
        rw [tablesRight_iff_of_walked hclass hlayout hw]
        refine and_congr_right fun _ => ?_
        rw [entriesOf, List.map_map, List.map_inj_left]
        constructor
        · exact fun h => ⟨hn, pos, last, hlast, fun i hi => h i (List.mem_range.mpr hi)⟩
        · rintro ⟨-, pos', last', hok, h⟩ i hi
          rw [hlast] at hok
          cases hok
          exact h i (List.mem_range.mp hi)
    · refine iff_of_false (fun h => ?_) fun h => hn h.2.1
      obtain ⟨found, hw, hlen⟩ := h.walked hclass hlayout
      have hcounted := htable.walked_length_extended hnum hw
      omega
  · rw [tablesRight_iff_of_walked hclass hlayout (htable.walked_numbered hnum)]
    refine and_congr_right fun _ => ⟨fun _ h => absurd h hnum, fun _ => ?_⟩
    rw [entriesOf, List.map_map]
    rfl

end Tables

/-! ## With overflow checks

The walk that the unwinder makes for its tables is this one. -/

/-! ### An image of two sections

The second has the strings. Its number is in the header, or else in section 0. -/

def twoSections (shnum size : Nat) : Bytes :=
  [127, 69, 76, 70, 1, 1, 1, 0] ++ toLe 8 0 ++
  toLe 16 0 ++ toLe 4 52 ++ toLe 10 0 ++ toLe 2 40 ++ toLe 2 shnum ++ toLe 2 1 ++
  toLe 20 0 ++ toLe 4 size ++ toLe 16 0 ++
  toLe 4 1 ++ toLe 4 3 ++ toLe 8 0 ++ toLe 4 132 ++ toLe 4 40 ++ toLe 16 0 ++
  toLe 40 0

def twoSectionsHeader (shnum : Nat) : Bytes :=
  toLe 16 0 ++ toLe 4 52 ++ toLe 10 0 ++ toLe 2 40 ++ toLe 2 shnum ++ toLe 2 1

def twoSectionsTable (size : Nat) : Nat → Bytes
  | 0 => toLe 20 0 ++ toLe 4 size ++ toLe 16 0
  | _ => toLe 4 1 ++ toLe 4 3 ++ toLe 8 0 ++ toLe 4 132 ++ toLe 4 40 ++ toLe 16 0

theorem twoSections_numbered : SectionTable elf32 (File.ofBytes (twoSections 2 0))
    (twoSectionsHeader 2) (twoSectionsTable 0) 2 where
  opened := rfl
  first := rfl
  count := rfl
  inside := by decide
  readable := by
    intro i hi
    obtain rfl | rfl : i = 0 ∨ i = 1 := by omega
    · rfl
    · rfl

theorem twoSections_extended : SectionTable elf32 (File.ofBytes (twoSections 0 2))
    (twoSectionsHeader 0) (twoSectionsTable 2) 2 where
  opened := rfl
  first := rfl
  count := rfl
  inside := by decide
  readable := by
    intro i hi
    obtain rfl | rfl : i = 0 ∨ i = 1 := by omega
    · rfl
    · rfl

theorem sectionTables_twoSections :
    TablesRight .on (File.ofBytes (twoSections 2 0)) none elf32 ELFCLASS32 (twoSectionsHeader 2)
      (twoSectionsTable 0) 2 :=
  (sectionTables_iff rfl rfl twoSections_numbered).mpr
    ⟨by unfold NamesFit; decide, fun h => absurd h (by decide)⟩

/-- The offsets of the two sections have moved on by one. -/
theorem sectionTables_shifted :
    ¬ ∀ (checks : OverflowChecks) (reader : File) (ident : Option Bytes) (layout : ElfLayout)
      (class_ : UInt8) (header : Bytes) (sec : Nat → Bytes) (n : Nat),
      getClass reader ident = .ok class_ → layoutOf class_ = some layout →
      SectionTable layout reader header sec n →
      TablesRight checks reader ident layout class_ header sec n := by
  intro h
  have hright := (h .on (File.ofBytes (twoSections 0 2)) none elf32 ELFCLASS32 _ _ 2 rfl rfl
    twoSections_extended).offsets
  have hshifted : getSectionOffsets .on (File.ofBytes (twoSections 0 2)) none [] =
      .ok [132, 0] := rfl
  have hoffsets : [132, 0] = [0, 132] := Except.ok.inj (hshifted.symm.trans hright)
  exact absurd hoffsets (by decide)

end OneCollect.Ruwind.Elf
