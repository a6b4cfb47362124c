import OneCollect.Ruwind.ElfReads
import OneCollect.Ruwind.RowsInForce
import OneCollect.Ruwind.SearchTable

/-! Images with an `.eh_frame_hdr`, an `.eh_frame` and an executable segment, and what the code
reads of them: the table (`parse_eq`) and the FDEs with their rows (`loaded_shows`), each as much
further on as its section lies in the file. -/

namespace OneCollect.Ruwind
open Theory CallFrame
open Elf (ElfLoadHeader)

namespace Cie

theorem readString_aug (c : Cie) : readString c.bytes 9 = .ok (c.aug.length, c.head.length) := by
  have hlength := c.wellFormed.lengthWidth
  obtain ⟨rest, hbytes⟩ : ∃ rest, c.bytes = c.length ++ toLe 4 0 ++ 1 :: (c.aug ++ 0 :: rest) :=
    ⟨c.codeAlign ++ (c.dataAlign ++ c.retReg :: (c.augPart ++ c.rules)), by
      simp [CieFields.bytes, CieFields.toRetReg, CieFields.head]⟩
  have height : (c.length ++ toLe 4 0).length = 8 := by
    rw [List.length_append, hlength, length_toLe]
  have hdrop : c.bytes.drop 9 = c.aug ++ 0 :: rest := by
    have hdrop : c.bytes.drop (c.length ++ toLe 4 0).length = 1 :: (c.aug ++ 0 :: rest) := by
      rw [hbytes, List.drop_left]
    rw [height] at hdrop
    rw [show (9 : Nat) = 8 + 1 from rfl, ← List.drop_drop, hdrop]
    rfl
  have hfind : (c.aug ++ 0 :: rest).findIdx? (· == 0) = some c.aug.length := by
    rw [List.findIdx?_append, List.findIdx?_eq_none_iff.mpr]
    · rw [List.findIdx?_cons]
      simp
    · intro byte hmem
      exact beq_false_of_ne fun hzero => c.zero_not_mem_aug (hzero ▸ hmem)
  rw [readString_eq, stringOperand, hdrop, hfind, c.length_head]
  have hnext : 9 + c.aug.length + 1 = 10 + c.aug.length := by omega
  rw [← hnext]
  rfl

theorem factorsAt_bytes (c : Cie) : factorsAt c.bytes = some ⟨c.code, c.data⟩ := by
  have hcode : ulebAt c.bytes c.head.length = some (c.code, (c.head ++ c.codeAlign).length) := by
    have hbytes : c.bytes =
        c.head ++ c.codeAlign ++ (c.dataAlign ++ c.retReg :: (c.augPart ++ c.rules)) := by
      rw [CieFields.bytes, CieFields.toRetReg, List.append_assoc _ c.dataAlign]
    rw [hbytes, ulebAt_append c.wellFormed.codeIs, List.length_append]
  have hdata : slebAt c.bytes (c.head ++ c.codeAlign).length =
      some (c.data, c.toRetReg.length) := by
    rw [CieFields.bytes, CieFields.toRetReg, slebAt_append c.wellFormed.dataIs,
      @List.length_append _ (c.head ++ c.codeAlign)]
  simp only [factorsAt, c.readString_aug, hcode, hdata, Option.bind_eq_bind, Option.bind_some]

end Cie

/-! ## Images -/

/-- An FDE with its row in the table. -/
structure ImageFde where
  row : TableRow
  range : Nat
  position : Nat
  cie : Cie
  fde : Fde cie.toCieFields

/-- The entry that an FDE and its CIE describe. -/
def ImageFde.entry (f : ImageFde) : Entry where
  start := f.row.start
  factors := ⟨f.cie.code, f.cie.data⟩
  cie := program (pointer f.cie.enc (toI64 f.position) f.cie.bytes) f.cie.bytes f.cie.bytes.length
    f.cie.rulesAt
  fde := program (pointer f.cie.enc (toI64 f.position) f.fde.entry) f.fde.entry f.fde.entry.length
    (f.fde.rulesAt f.cie.toCieFields)

/-- A file with the two sections and the header of its executable segment. -/
structure FrameImage where
  content : Bytes
  load : ElfLoadHeader
  p_filesz : Nat
  frame : SectionMetadata
  hdr : SectionMetadata
  table : HeaderTable
  fdes : List ImageFde

namespace FrameImage

variable (image : FrameImage)

def reader : File := File.ofBytes image.content

/-- Positions and addresses are those of a program: an address space has far fewer. -/
structure Small : Prop where
  hdr : image.hdr.offset < 2 ^ 62 ∧ image.hdr.address < 2 ^ 62 ∧ image.table.bytes.length < 2 ^ 62
  frame : image.frame.offset < 2 ^ 62 ∧ image.frame.address < 2 ^ 62
  load : image.load.p_offset + image.p_filesz < 2 ^ 62 ∧
    image.load.p_vaddr + image.p_filesz < 2 ^ 62
  fdes : ∀ f ∈ image.fdes, f.row.start + f.range < 2 ^ 62 ∧ f.position < 2 ^ 62 ∧
    f.row.fde < 2 ^ 62

/-- The FDE lies in `.eh_frame` and has the start and the range of its row, both in the segment; its
rows lie in the range. -/
structure FdeWellFormed (f : ImageFde) : Prop where
  refers : Refers image.content f.position f.cie f.fde
  inFrame : image.frame.offset ≤ f.position
  address : f.row.fde = image.frame.address + (f.position - image.frame.offset)
  pcrel : applicationOf f.cie.enc = 0x10
  start : toU64 (f.fde.loc + (f.row.fde + 8)) = f.row.start
  range : toU64 f.fde.rng = f.range
  inSegment : 0 < f.range → image.load.p_vaddr ≤ f.row.start ∧
    f.row.start + f.range ≤ image.load.p_vaddr + image.p_filesz
  rows : ∀ table, f.entry.table = some table → ∀ located ∈ table,
    located.loc ≤ (f.row.start + f.range : Nat)

/-- The segment and the sections are found, these by their names. The rows of the table are those of
the FDEs, in the order of their ranges, which do not overlap. -/
structure WellFormed : Prop where
  load : ∀ checks, Elf.getLoadHeader checks image.reader = .ok image.load
  sections : ∃ metadata, getSectionMetadata image.reader SHT_PROGBITS = .ok metadata ∧
    FrameHeaderTable.findSection image.reader ".eh_frame" metadata = .ok (some image.frame) ∧
    FrameHeaderTable.findSection image.reader ".eh_frame_hdr" metadata = .ok (some image.hdr)
  placed : (image.content.drop image.hdr.offset).take image.hdr.size = image.table.bytes
  size : image.hdr.size = image.table.bytes.length
  table : image.table.WellFormed image.hdr.address image.frame.address
  rows : image.table.rows = image.fdes.map (·.row)
  small : image.Small
  fdes : ∀ f ∈ image.fdes, image.FdeWellFormed f
  sorted : image.fdes.Pairwise fun f g => f.row.start + f.range ≤ g.row.start
  apart : (image.fdes.map (·.position)).Nodup

/-! ## What the code makes of an image -/

/-- `va_offset`: the difference is taken by `saturating_sub`. -/
def vaOffset (load : ElfLoadHeader) : Nat := load.p_vaddr - load.p_offset

/-- How much further on the code reads the addresses of `.eh_frame_hdr`. -/
def delta : Int := (image.hdr.offset : Int) - image.hdr.address

/-- How much further on the code asks for an address. -/
def excess : Nat := image.load.p_offset - image.load.p_vaddr

def codeOffset (f : ImageFde) : FrameOffset :=
  { rva := toU64 (f.row.start + image.delta), fde := f.position }

/-- What an FDE has to be for the code to load it. -/
structure FdeReadable (f : ImageFde) : Prop where
  fits : EntriesFit f.position f.cie f.fde
  loads : ∃ loaded, (image.codeOffset f).loadRules image.reader = .ok loaded
  operands : FitsEntry f.entry
  noAddress : NoAddress f.entry.cie ∧ NoAddress f.entry.fde

end FrameImage

section Table

variable {image : FrameImage}

theorem codeRow_eq_ok (h : image.WellFormed) {f : ImageFde} (hf : f ∈ image.fdes)
    {offset : FrameOffset}
    (hrow : codeRow image.delta image.frame.offset (toU64 (image.frame.address + image.delta))
      f.row = .ok offset) : offset = image.codeOffset f := by
  obtain ⟨back, hback, hrow⟩ := bind_eq_ok.mp hrow
  obtain ⟨fde, hfde, hrow⟩ := bind_eq_ok.mp hrow
  cases hrow
  obtain ⟨hle, rfl⟩ := subU64_eq_ok.mp hback
  obtain ⟨-, rfl⟩ := addU64_eq_ok.mp hfde
  have haddress := (h.fdes f hf).address
  have hinFrame := (h.fdes f hf).inFrame
  obtain ⟨-, hposition, hrowFde⟩ := h.small.fdes f hf
  have hhdr := h.small.hdr
  have hframe := h.small.frame
  have hat : image.frame.offset +
      (toU64 (f.row.fde + image.delta) - toU64 (image.frame.address + image.delta)) =
        f.position := by
    unfold FrameImage.delta toU64 at hle ⊢
    omega
  rw [FrameImage.codeOffset, hat]

theorem codeRow_of_delta (h : image.WellFormed) (hdelta : image.delta = image.excess)
    {f : ImageFde} (hf : f ∈ image.fdes) :
    codeRow image.delta image.frame.offset (toU64 (image.frame.address + image.delta)) f.row =
      .ok (image.codeOffset f) := by
  have haddress := (h.fdes f hf).address
  obtain ⟨-, hposition, hrowFde⟩ := h.small.fdes f hf
  have hframe := h.small.frame
  have hload := h.small.load
  have hle : toU64 (image.frame.address + image.delta) ≤ toU64 (f.row.fde + image.delta) ∧
      toU64 (f.row.fde + image.delta) < 2 ^ 63 := by
    rw [hdelta]
    unfold FrameImage.excess toU64
    omega
  have hback : subU64 (toU64 (f.row.fde + image.delta))
      (toU64 (image.frame.address + image.delta)) = .ok _ := subU64_eq_ok.mpr ⟨hle.1, rfl⟩
  have hsum : addU64 image.frame.offset
      (toU64 (f.row.fde + image.delta) - toU64 (image.frame.address + image.delta)) = .ok _ :=
    addU64_eq_ok.mpr ⟨by omega, rfl⟩
  obtain ⟨offset, hrow⟩ : ∃ offset, codeRow image.delta image.frame.offset
      (toU64 (image.frame.address + image.delta)) f.row = .ok offset :=
    ⟨_, by rw [codeRow, hback, ok_bind, hsum, ok_bind]⟩
  rw [hrow, codeRow_eq_ok h hf hrow]

/-- What is parsed, if anything is. -/
theorem parse_eq (h : image.WellFormed) (hnumbers : image.table.Fits) :
    FrameHeaderTable.parse image.reader = (image.fdes.map (·.row)).mapM (codeRow image.delta
      image.frame.offset (toU64 (image.frame.address + image.delta))) := by
  obtain ⟨metadata, hmetadata, hframe, hhdr⟩ := h.sections
  have hrows : ∀ row ∈ image.table.rows, row.start < 2 ^ 62 ∧ row.fde < 2 ^ 62 := by
    intro row hrow
    rw [h.rows] at hrow
    obtain ⟨f, hf, rfl⟩ := List.mem_map.mp hrow
    obtain ⟨hend, -, hfde⟩ := h.small.fdes f hf
    exact ⟨by omega, hfde⟩
  obtain ⟨hoffset, haddress, hlen⟩ := h.small.hdr
  have hparse := @parseLocTable_eq _ _ _ _ _ image.frame.offset h.table hnumbers h.placed h.size
    hoffset hlen haddress h.small.frame.2 hrows
  rw [FrameHeaderTable.parse, hmetadata, ok_bind, hframe, ok_bind, hhdr, ok_bind]
  dsimp only
  rw [← h.rows]
  exact hparse

theorem parse_eq_ok (h : image.WellFormed) (hnumbers : image.table.Fits)
    {offsets : List FrameOffset} (hparse : FrameHeaderTable.parse image.reader = .ok offsets) :
    offsets = image.fdes.map image.codeOffset := by
  rw [parse_eq h hnumbers, mapM_eq_ok_iff, List.forall₂_map_left_iff] at hparse
  exact forall₂_map_of_mem (fun f hf offset hrow => codeRow_eq_ok h hf hrow) hparse

theorem parse_of_delta (h : image.WellFormed) (hnumbers : image.table.Fits)
    (hdelta : image.delta = image.excess) :
    FrameHeaderTable.parse image.reader = .ok (image.fdes.map image.codeOffset) := by
  rw [parse_eq h hnumbers, mapM_eq_ok_iff, List.forall₂_map_left_iff, List.forall₂_map_right_iff]
  exact List.forall₂_same.mpr fun f hf => codeRow_of_delta h hdelta hf

end Table

/-! ## What is loaded -/

section Loading

variable {image : FrameImage} {f : ImageFde}

/-- Where the code puts an FDE. -/
def FrameImage.frameDelta (image : FrameImage) : Int :=
  (image.frame.offset : Int) - image.frame.address

theorem pcStart_eq (h : image.WellFormed) (hf : f ∈ image.fdes) :
    wrap f.fde.loc + origin f.cie.enc (toI64 f.position) 8 = f.row.start + image.frameDelta := by
  have hfde := h.fdes f hf
  have hstart := hfde.start
  have hinFrame := hfde.inFrame
  have haddress := hfde.address
  obtain ⟨hend, hposition, hrowFde⟩ := h.small.fdes f hf
  have hframe := h.small.frame
  have hrange := inI64_wrap f.fde.loc
  have hmod := toU64_wrap_add f.fde.loc (f.row.fde + 8)
  have htoI64 : toI64 f.position = f.position := if_pos (by omega)
  rw [origin_of_pcrel hfde.pcrel, htoI64, FrameImage.frameDelta]
  unfold InI64 at hrange
  unfold toU64 at hstart hmod
  omega

/-- The code reads the entry at the place of its own. -/
theorem entry_eq (h : image.WellFormed) (hf : f ∈ image.fdes) (hreadable : image.FdeReadable f) :
    (image.codeOffset f).entry image.reader =
      .ok (f.cie.enc, { f.entry with start := f.row.start + image.frameDelta }) := by
  have hfit := hreadable.fits
  obtain ⟨options, retReg, hheader⟩ :=
    @readHeader_of_fits (image.codeOffset f) f.cie f.fde hfit.cie hfit.fde
  obtain ⟨options', retReg', hcie, henc, -⟩ := f.cie.parseCie_of_fits hfit.cie
  have hparse := FrameOffset.parseCie_of_readHeader hheader
  rw [hcie] at hparse
  cases hparse
  have hentries := (readEntries_iff (h.fdes f hf).refers).mpr ⟨hfit.fdeSize, hfit.cieSize⟩
  have hstart : wrap f.fde.loc + origin f.cie.enc (toI64 (image.codeOffset f).fde) 8 =
      f.row.start + image.frameDelta := pcStart_eq h hf
  rw [FrameOffset.entry]
  have hentries' : FrameOffset.readEntries image.reader (image.codeOffset f).fde =
      .ok (f.fde.entry, f.cie.bytes) := hentries
  rw [hentries', ok_bind]
  dsimp only
  rw [hheader, ok_bind, f.cie.factorsAt_bytes]
  dsimp only
  rw [hstart, henc]
  rfl

/-- **An FDE is loaded** with its range, and with its rows as far on as the section is. -/
theorem loaded_shows (h : image.WellFormed) (hf : f ∈ image.fdes) (hreadable : image.FdeReadable f)
    {loaded : FrameOffset} (hload : (image.codeOffset f).loadRules image.reader = .ok loaded) :
    loaded.rva = (image.codeOffset f).rva ∧ loaded.fde = f.position ∧ loaded.pcSize = f.range ∧
      loaded.state = .valid ∧
      ∃ table, f.entry.table = some table ∧
        List.Forall₂ (ShowsAt image.frameDelta) loaded.frameStates table := by
  have hfit := hreadable.fits
  have hfde := h.fdes f hf
  obtain ⟨table, htable, hshows⟩ := loadRules_shows rfl hload (entry_eq h hf hreadable)
    ⟨hreadable.operands.code, hreadable.operands.data, hreadable.operands.cie,
      hreadable.operands.fde⟩ hreadable.noAddress.1 hreadable.noAddress.2 f.row.start
  have hd : f.row.start + image.frameDelta - f.row.start = image.frameDelta := by omega
  dsimp only at hshows
  rw [hd] at hshows
  obtain ⟨fdeSlice, cieSlice, header, frameStates, hentries, hheader, -, rfl⟩ :=
    FrameOffset.loadRules_eq_ok.mp hload
  have hread := (readEntries_iff hfde.refers).mpr ⟨hfit.fdeSize, hfit.cieSize⟩
  cases hread.symm.trans hentries
  obtain ⟨options, retReg, hown⟩ :=
    @readHeader_of_fits (image.codeOffset f) f.cie f.fde hfit.cie hfit.fde
  cases hown.symm.trans hheader
  obtain habsolute | ⟨-, hwidth⟩ := hfit.fde.application
  · exact absurd (habsolute.symm.trans hfde.pcrel) (by decide)
  refine ⟨rfl, rfl, ?_, rfl, table, htable, hshows⟩
  dsimp only
  rw [toU64_wrap_add, origin_of_pcrel hfde.pcrel, hwidth, ← hfde.range]
  congr 1
  omega

end Loading

end OneCollect.Ruwind
