import OneCollect.Ruwind.FrameImages

/-! The selection of an FDE by address (`FrameOffsets::get_frame_offset` with `Module::rva`).
`findsRows_iff_aligned` says in which images an address selects the FDE that it lies in and the row
in force there: the two sections have to be as far from their places in the file as the segment is
taken to be. -/

namespace OneCollect.Ruwind
open Theory CallFrame

namespace FrameOffset

variable {rva index : Nat} {offset : FrameOffset} {before after table : List FrameOffset}

/-- Between the entries that start below and those that start above. -/
theorem find_append (hbefore : ∀ other ∈ before, other.rva ≤ rva) (hoffset : offset.rva ≤ rva)
    (hafter : ∀ other ∈ after, rva < other.rva) :
    find rva (before ++ offset :: after) = some before.length := by
  have hpoint : partitionPoint (fun other : FrameOffset => decide (other.rva ≤ rva))
      (before ++ offset :: after) = before.length + 1 := by
    rw [List.append_cons, partitionPoint_append]
    · exact List.length_append
    · simpa [or_imp, forall_and] using ⟨hbefore, hoffset⟩
    · simpa using hafter
  have hget : (before ++ offset :: after)[before.length]? = some offset := by simp
  rw [find, if_neg (by simp), hpoint, Nat.add_sub_cancel]
  simp only [hget, if_pos hoffset]

theorem find_eq_some (h : find rva table = some index) :
    ∃ offset, table[index]? = some offset ∧ offset.rva ≤ rva := by
  unfold find at h
  by_cases hempty : table = []
  · rw [if_pos hempty] at h
    cases h
  · rw [if_neg hempty] at h
    cases hget : table[partitionPoint (fun offset => decide (offset.rva ≤ rva)) table - 1]? with
    | none => simp [hget] at h
    | some offset =>
      simp only [hget] at h
      by_cases hle : offset.rva ≤ rva
      · rw [if_pos hle] at h
        cases h
        exact ⟨offset, hget, hle⟩
      · rw [if_neg hle] at h
        cases h

end FrameOffset

namespace FrameOffsets

variable {checks : OverflowChecks} {accessor : ModuleAccessor} {key : ModuleKey} {rva : Nat}
  {table : List FrameOffset} {loaded : FrameOffset}

/-- **A lookup finds** the entry of the table that is loaded for the address. -/
theorem getFrameOffset_of_find {before after : List FrameOffset} {offset : FrameOffset}
    (hload : load accessor key = .ok (before ++ offset :: after))
    (hbefore : ∀ other ∈ before, other.rva ≤ rva) (hoffset : offset.rva ≤ rva)
    (hafter : ∀ other ∈ after, rva < other.rva)
    (hparsed : ensureParsed accessor key offset = .ok loaded) (hvalid : loaded.isValid = true)
    {stop : Nat} (hstop : checks.addU64 loaded.rva loaded.pcSize = .ok stop) (hlt : rva < stop) :
    ∃ self', getFrameOffset checks accessor {} key rva = .ok (some loaded, self') := by
  have hget : (before ++ offset :: after)[before.length]? = some offset := by simp
  have hfind := FrameOffset.find_append hbefore hoffset hafter
  unfold getFrameOffset fill
  simp only [Bool.false_eq_true, if_false, hload, ok_bind, hfind, getAt_eq_ok.mpr hget, hparsed,
    if_pos hvalid]
  by_cases hsize : loaded.pcSize ≠ 0
  · simp only [if_pos hsize, hstop, ok_bind, if_neg (Nat.not_le.mpr hlt)]
    exact ⟨_, rfl⟩
  · simp only [if_neg hsize]
    exact ⟨_, rfl⟩

/-- An entry that is found is one of the table, loaded, and the address is in its range. -/
theorem getFrameOffset_eq_some {self' : FrameOffsets}
    (h : getFrameOffset checks accessor {} key rva = .ok (some loaded, self')) :
    ∃ table offset, load accessor key = .ok table ∧ offset ∈ table ∧ offset.rva ≤ rva ∧
      ensureParsed accessor key offset = .ok loaded ∧
      (loaded.pcSize ≠ 0 →
        ∃ stop, checks.addU64 loaded.rva loaded.pcSize = .ok stop ∧ rva < stop) := by
  obtain ⟨filled, hfill, ⟨hnone, -⟩ | ⟨index, offset, parsed, hfind, hget, hparsed, -, hanswer⟩⟩ :=
    getFrameOffset_cases h
  · cases hnone
  · obtain ⟨rfl, hstop⟩ := hanswer loaded rfl
    obtain ⟨table, hload, hfilled⟩ := bind_eq_ok.mp hfill
    cases hfilled
    obtain ⟨found, hfound, hle⟩ := FrameOffset.find_eq_some hfind
    cases hfound.symm.trans (getAt_eq_ok.mp hget)
    exact ⟨table, offset, hload, List.mem_of_getElem? hfound, hle, hparsed, hstop⟩

end FrameOffsets

namespace FrameImage

/-! ## Mappings -/

variable (image : FrameImage)

/-- The segment is mapped, at the pages of its file; the address `ip` of the process is the address
`v` of the image. -/
structure MappedAt (module : Module) (ip v : Nat) : Prop where
  pages : 4096 ∣ module.start ∧ 4096 ∣ module.offset
  vaOffset : module.vaOffset = vaOffset image.load
  inside : module.start ≤ ip ∧ ip < module.stop ∧ module.stop ≤ 2 ^ 64
  position : image.load.p_offset ≤ ip - module.start + module.offset ∧
    ip - module.start + module.offset < image.load.p_offset + image.p_filesz
  address : v + image.load.p_offset =
    image.load.p_vaddr + (ip - module.start + module.offset)

/-- **FDEs are selected by address.** Whatever was looked up before, an address in the range of an
FDE selects the FDE, and the row in force there is used. -/
def FindsRows : Prop :=
  ∀ (checks : OverflowChecks) (accessor : ModuleAccessor) (module : Module) (frames : FrameOffsets)
    (ip v : Nat) (f : ImageFde), f ∈ image.fdes → accessor module.key = some image.reader →
    frames.Coherent accessor module.key → image.MappedAt module ip v → f.row.start ≤ v →
    v < f.row.start + f.range →
    ∃ rva loaded frames', module.rva checks ip = .ok rva ∧
      frames.getFrameOffset checks accessor module.key rva = .ok (some loaded, frames') ∧
      loaded.fde = f.position ∧ UsesRow loaded rva f.entry v

/-- The code can read the numbers of the table and the FDEs that have a range. -/
structure Readable : Prop where
  numbers : image.table.Fits
  fdes : ∀ f ∈ image.fdes, 0 < f.range → image.FdeReadable f

/-- The sections lie in the file as far from their addresses as the code expects of the segment:
`.eh_frame_hdr` just so, and `.eh_frame` too, unless it lies nearer and its FDEs have no rows behind
their starts. -/
def Aligned : Prop :=
  ∀ f ∈ image.fdes, 0 < f.range →
    image.hdr.address + image.excess = image.hdr.offset ∧
      (image.frame.address + image.excess = image.frame.offset ∨
        (image.frame.offset < image.frame.address + image.excess ∧
          image.frame.address ≤ f.row.start + image.frame.offset ∧
          ∀ table, f.entry.table = some table → ∀ located ∈ table, located.loc = f.row.start))

end FrameImage

section Selection

variable {image : FrameImage} {f : ImageFde}

theorem rva_eq (h : image.WellFormed) (checks : OverflowChecks) {module : Module} {ip v : Nat}
    (hmapped : image.MappedAt module ip v) : module.rva checks ip = .ok (v + image.excess) := by
  obtain ⟨hstart, hip, hstop⟩ := hmapped.inside
  have hposition := hmapped.position
  have haddress := hmapped.address
  have hload := h.small.load
  have hsub : subU64 ip module.start = .ok (ip - module.start) := subU64_eq_ok.mpr ⟨hstart, rfl⟩
  rw [Module.rva, hsub, ok_bind, checks.addU64_of_lt (by omega), ok_bind, hmapped.vaOffset,
    checks.addU64_of_lt (by unfold FrameImage.vaOffset; omega)]
  congr 1
  unfold FrameImage.vaOffset FrameImage.excess
  omega

/-- Every address of an FDE is mapped by some module. -/
theorem exists_mappedAt (h : image.WellFormed) (hf : f ∈ image.fdes) {v : Nat}
    (hle : f.row.start ≤ v) (hlt : v < f.row.start + f.range) :
    ∃ module ip, image.MappedAt module ip v := by
  obtain ⟨hfrom, hto⟩ := (h.fdes f hf).inSegment (by omega)
  have hload := h.small.load
  refine ⟨.new 4096 (2 ^ 63) (image.load.p_offset / 4096 * 4096) (FrameImage.vaOffset image.load)
      0 0 .DWARF, 4096 + (image.load.p_offset % 4096 + (v - image.load.p_vaddr)),
    ⟨Dvd.intro 1 rfl, Dvd.intro_left _ rfl⟩, rfl, ⟨?_, ?_, ?_⟩, ⟨?_, ?_⟩, ?_⟩ <;>
  · dsimp only [Module.new]
    omega

/-- What is loaded for an FDE of the image. -/
theorem ensureParsed_codeOffset {accessor : ModuleAccessor} {key : ModuleKey}
    (haccessor : accessor key = some image.reader) {loaded : FrameOffset}
    (hload : (image.codeOffset f).loadRules image.reader = .ok loaded) :
    FrameOffsets.ensureParsed accessor key (image.codeOffset f) = .ok loaded := by
  have hparse : FrameHeaderTable.parseOffset image.reader (image.codeOffset f) = .ok loaded := hload
  have hunparsed : (image.codeOffset f).isUnparsed = true := rfl
  unfold FrameOffsets.ensureParsed
  rw [if_pos hunparsed, haccessor]
  simp only [hparse]

theorem load_of_delta (h : image.WellFormed) (hnumbers : image.table.Fits)
    (hdelta : image.delta = image.excess) {accessor : ModuleAccessor} {key : ModuleKey}
    (haccessor : accessor key = some image.reader) :
    FrameOffsets.load accessor key = .ok (image.fdes.map image.codeOffset) := by
  unfold FrameOffsets.load
  rw [haccessor]
  simp only [parse_of_delta h hnumbers hdelta]

/-- The FDEs in front of one end at its start, and those behind it start at its end. -/
theorem sorted_split (h : image.WellFormed) (hf : f ∈ image.fdes) :
    ∃ before after, image.fdes = before ++ f :: after ∧
      (∀ g ∈ before, g.row.start + g.range ≤ f.row.start) ∧
      ∀ g ∈ after, f.row.start + f.range ≤ g.row.start := by
  obtain ⟨before, after, hsplit⟩ := List.append_of_mem hf
  have hsorted := h.sorted
  rw [hsplit, List.pairwise_append, List.pairwise_cons] at hsorted
  obtain ⟨-, ⟨hafter, -⟩, hbefore⟩ := hsorted
  exact ⟨before, after, hsplit, fun g hg => hbefore g hg f List.mem_cons_self, hafter⟩

/-- **Selected.** Where the code expects the table to be, an address in the range of an FDE selects
it. -/
theorem selects_of_delta (h : image.WellFormed) (hnumbers : image.table.Fits)
    (hdelta : image.delta = image.excess) (hf : f ∈ image.fdes)
    (hreadable : image.FdeReadable f) (checks : OverflowChecks)
    {accessor : ModuleAccessor} {key : ModuleKey} (haccessor : accessor key = some image.reader)
    {loaded : FrameOffset} (hload : (image.codeOffset f).loadRules image.reader = .ok loaded)
    {v : Nat} (hle : f.row.start ≤ v) (hlt : v < f.row.start + f.range) :
    ∃ frames, FrameOffsets.getFrameOffset checks accessor {} key (v + image.excess) =
      .ok (some loaded, frames) := by
  obtain ⟨before, after, hsplit, hbefore, hafter⟩ := sorted_split h hf
  have hsegment := h.small.load
  have hrva : ∀ g ∈ image.fdes, (image.codeOffset g).rva = g.row.start + image.excess := by
    intro g hg
    obtain ⟨hend, -, -⟩ := h.small.fdes g hg
    have hexcess : image.excess < 2 ^ 62 := by
      unfold FrameImage.excess
      omega
    show toU64 (g.row.start + image.delta) = _
    rw [hdelta]
    unfold toU64
    omega
  have htable := load_of_delta h hnumbers hdelta haccessor
  rw [hsplit, List.map_append, List.map_cons] at htable
  obtain ⟨hloadedRva, -, hloadedSize, hvalid, -⟩ := loaded_shows h hf hreadable hload
  have hfRva := hrva f hf
  obtain ⟨hend, -, -⟩ := h.small.fdes f hf
  have hstop : checks.addU64 loaded.rva loaded.pcSize =
      .ok (f.row.start + image.excess + f.range) := by
    rw [hloadedRva, hfRva, hloadedSize, checks.addU64_of_lt]
    unfold FrameImage.excess
    omega
  refine FrameOffsets.getFrameOffset_of_find htable ?_ (by omega) ?_
    (ensureParsed_codeOffset haccessor hload) ?_ hstop (by omega)
  · intro other hother
    obtain ⟨g, hg, rfl⟩ := List.mem_map.mp hother
    have hgRva := hrva g (hsplit ▸ List.mem_append_left _ hg)
    have := hbefore g hg
    omega
  · intro other hother
    obtain ⟨g, hg, rfl⟩ := List.mem_map.mp hother
    have hgRva := hrva g (hsplit ▸ List.mem_append_right _ (List.mem_cons_of_mem _ hg))
    have := hafter g hg
    omega
  · rw [FrameOffset.isValid, hvalid]
    rfl

/-- The rows of an FDE lie in its range, and it is short of the end of the address space. -/
theorem table_bounds (h : image.WellFormed) (hf : f ∈ image.fdes) (hreadable : image.FdeReadable f)
    {table : List Located} (htable : f.entry.table = some table) :
    (∃ row rest, table = ⟨f.row.start, row⟩ :: rest) ∧
      ∀ located ∈ table, (f.row.start : Int) ≤ located.loc ∧
        located.loc ≤ (f.row.start + f.range : Nat) := by
  obtain ⟨hhead, hge⟩ := table_starts hreadable.noAddress.2 htable
  exact ⟨hhead, fun located hmem =>
    ⟨hge located hmem, (h.fdes f hf).rows table htable located hmem⟩⟩

theorem small_deltas (h : image.WellFormed) :
    image.excess < 2 ^ 62 ∧ (-2 ^ 62 < image.delta ∧ image.delta < 2 ^ 62) ∧
      -2 ^ 62 < image.frameDelta ∧ image.frameDelta < 2 ^ 62 := by
  have hhdr := h.small.hdr
  have hframe := h.small.frame
  have hload := h.small.load
  unfold FrameImage.excess FrameImage.delta FrameImage.frameDelta
  omega

/-- The rows that are used are those in force at every address of an FDE, exactly where its section
is as far away as the code expects, or nearer and the FDE has no rows behind its start. -/
theorem usesRows_iff (h : image.WellFormed) (hf : f ∈ image.fdes) (hrange : 0 < f.range)
    (hreadable : image.FdeReadable f) {loaded : FrameOffset}
    (hload : (image.codeOffset f).loadRules image.reader = .ok loaded) :
    (∀ v, f.row.start ≤ v → v < f.row.start + f.range →
      UsesRow loaded (v + image.excess) f.entry v) ↔
    image.frame.address + image.excess = image.frame.offset ∨
      (image.frame.offset < image.frame.address + image.excess ∧
        image.frame.address ≤ f.row.start + image.frame.offset ∧
        ∀ table, f.entry.table = some table → ∀ located ∈ table, located.loc = f.row.start) := by
  obtain ⟨-, -, -, -, table, htable, hshows⟩ := loaded_shows h hf hreadable hload
  obtain ⟨hhead, hall⟩ := table_bounds h hf hreadable htable
  obtain ⟨hexcess, -, hd⟩ := small_deltas h
  obtain ⟨hend, -, -⟩ := h.small.fdes f hf
  have hbelow : ∀ v, f.row.start ≤ v → rowsBelow v table ≠ [] := by
    intro v hle
    obtain ⟨row, rest, rfl⟩ := hhead
    have hfirst : toU64 (f.row.start : Int) ≤ v := by
      unfold toU64
      omega
    rw [rowsBelow, List.takeWhile_cons_of_pos (by simpa using hfirst)]
    exact List.cons_ne_nil _ _
  have hsame := sameRows_iff hhead hall (by omega) hend hd hexcess
  have huses : ∀ v, f.row.start ≤ v → (UsesRow loaded (v + image.excess) f.entry v ↔
      (table.takeWhile fun located => decide (toU64 (located.loc + image.frameDelta) ≤
        v + image.excess)).length = (rowsBelow v table).length) := by
    have hown : ({ f.entry with start := f.row.start } : Entry).table = some table := htable
    exact fun v hle => usesRow_iff hown hshows (hbelow v hle)
  have honly : (∀ table, f.entry.table = some table → ∀ located ∈ table,
      located.loc = f.row.start) ↔ ∀ located ∈ table, located.loc = f.row.start := by
    rw [htable]
    exact ⟨fun hall => hall table rfl, fun hall table' h' => Option.some.inj h' ▸ hall⟩
  rw [forall_congr' fun v => forall_congr' fun hle => imp_congr_right fun _ => huses v hle, hsame,
    honly]
  unfold FrameImage.frameDelta
  constructor
  · rintro (hd | ⟨hlt, hnonneg, hrows⟩)
    · exact Or.inl (by omega)
    · exact Or.inr ⟨by omega, by omega, hrows⟩
  · rintro (hd | ⟨hlt, hnonneg, hrows⟩)
    · exact Or.inl (by omega)
    · exact Or.inr ⟨by omega, by omega, hrows⟩

/-- An answer with the position of an FDE is the FDE loaded, and the address is in its range. -/
theorem loaded_of_selected (h : image.WellFormed) (hnumbers : image.table.Fits)
    (hf : f ∈ image.fdes) (hrange : 0 < f.range) (hreadable : image.FdeReadable f)
    {accessor : ModuleAccessor} {key : ModuleKey}
    (haccessor : accessor key = some image.reader) {rva : Nat} {loaded : FrameOffset}
    {frames : FrameOffsets}
    (hget : FrameOffsets.getFrameOffset .on accessor {} key rva = .ok (some loaded, frames))
    (hfde : loaded.fde = f.position) :
    (image.codeOffset f).loadRules image.reader = .ok loaded ∧
      (image.codeOffset f).rva ≤ rva ∧ rva < (image.codeOffset f).rva + f.range := by
  obtain ⟨table, offset, hload, hmem, hle, hparsed, hstop⟩ :=
    FrameOffsets.getFrameOffset_eq_some hget
  have htable : table = image.fdes.map image.codeOffset := by
    unfold FrameOffsets.load at hload
    rw [haccessor] at hload
    dsimp only at hload
    cases hparse : FrameHeaderTable.parse image.reader with
    | ok offsets =>
      rw [hparse] at hload
      cases hload
      exact parse_eq_ok h hnumbers hparse
    | error fault =>
      rw [hparse] at hload
      cases fault with
      | panic => cases hload
      | error text =>
        cases hload
        exact absurd hmem List.not_mem_nil
  obtain ⟨g, hg, rfl⟩ := List.mem_map.mp (htable ▸ hmem)
  have hposition : g.position = f.position := (FrameOffsets.ensureParsed_keeps hparsed).2.symm.trans hfde
  obtain rfl : g = f := List.inj_on_of_nodup_map h.apart hg hf hposition
  obtain ⟨own, hown⟩ := hreadable.loads
  cases (ensureParsed_codeOffset haccessor hown).symm.trans hparsed
  obtain ⟨hrva, -, hsize, -⟩ := loaded_shows h hf hreadable hown
  obtain ⟨stop, hsum, hlt⟩ := hstop (by omega)
  obtain ⟨-, rfl⟩ := addU64_eq_ok.mp hsum
  exact ⟨hown, hle, by omega⟩

end Selection

/-! ## Two images -/

/-- A CIE with the CFA behind the return address. -/
def callCie : Cie where
  length := toLe 4 16
  augmentation := some [.encoding 0x1b]
  codeAlign := [1]
  code := 1
  dataAlign := [0x78]
  data := -8
  retReg := 16
  augLen := [1]
  rules := [0x0c, 7, 8]
  wellFormed :=
    { lengthWidth := rfl
      lengthIs := rfl
      codeIs := rfl
      dataIs := rfl
      items := by
        rintro items ⟨⟩
        exact ⟨fun item hmem => List.eq_of_mem_singleton hmem ▸ trivial, Nat.zero_le _, rfl⟩ }

/-- A function of 32 bytes, 60 bytes in front of where its location is: its first instruction pushes
a register. -/
def pushFde : Fde callCie.toCieFields where
  length := toLe 4 16
  ciePointer := toLe 4 24
  location := toLe 4 (2 ^ 32 - 60)
  loc := -60
  range := toLe 4 32
  rng := 32
  augLen := [0]
  augData := []
  rules := [0x41, 0x0e, 16]
  wellFormed := ⟨rfl, rfl, rfl, by decide, rfl, rfl, fun _ => rfl⟩

/-- The header table: one row, 76 and 24 bytes in front of it. -/
def pushTable (base : Nat) : HeaderTable where
  ptrEnc := 0x1b
  countEnc := 0x03
  tableEnc := 0x3b
  ptrBytes := toLe 4 (2 ^ 32 - 48)
  countBytes := toLe 4 1
  rows := [⟨base + 0x78, toLe 4 (2 ^ 32 - 76), base + 0xac, toLe 4 (2 ^ 32 - 24)⟩]

def sectionBytes (name type address offset size : Nat) : Bytes :=
  toLe 4 name ++ toLe 4 type ++ toLe 8 0 ++ toLe 8 address ++ toLe 8 offset ++ toLe 8 size ++
    toLe 24 0

/-- A program of one segment, which is all of the file, and a table of sections. -/
def pushFile (base : Nat) : Bytes :=
  [0x7f, 69, 76, 70, 2, 1, 1] ++ toLe 9 0 ++
    toLe 2 3 ++ toLe 2 62 ++ toLe 4 1 ++ toLe 8 0 ++ toLe 8 0x40 ++ toLe 8 0xf8 ++ toLe 4 0 ++
    toLe 2 64 ++ toLe 2 56 ++ toLe 2 1 ++ toLe 2 64 ++ toLe 2 4 ++ toLe 2 3 ++
    toLe 4 1 ++ toLe 4 5 ++ toLe 8 0 ++ toLe 8 base ++ toLe 8 base ++ toLe 8 0x1f8 ++
    toLe 8 0x1f8 ++ toLe 8 0x1000 ++
    (0x55 :: List.replicate 31 0x90) ++
    callCie.bytes ++ pushFde.entry ++ toLe 4 0 ++
    (pushTable base).bytes ++
    (0 :: ".eh_frame".toUTF8.data.toList ++ 0 :: ".eh_frame_hdr".toUTF8.data.toList ++ toLe 8 0) ++
    sectionBytes 0 0 0 0 0 ++ sectionBytes 1 1 (base + 0x98) 0x98 44 ++
    sectionBytes 11 1 (base + 0xc4) 0xc4 20 ++ sectionBytes 0 3 0 0xd8 25

def pushImageFde (base : Nat) : ImageFde where
  row := ⟨base + 0x78, toLe 4 (2 ^ 32 - 76), base + 0xac, toLe 4 (2 ^ 32 - 24)⟩
  range := 32
  position := 0xac
  cie := callCie
  fde := pushFde

def pushImage (base : Nat) : FrameImage where
  content := pushFile base
  load := { p_offset := 0, p_vaddr := base }
  p_filesz := 0x1f8
  frame := ⟨1, base + 0x98, 0x98, 44, 0, 0xd9, 0, 2⟩
  hdr := ⟨1, base + 0xc4, 0xc4, 20, 0, 0xe3, 0, 2⟩
  table := pushTable base
  fdes := [pushImageFde base]

theorem pushImage_sections {base : Nat} (hbase : base = 0 ∨ base = 0x400000) :
    ∃ metadata, getSectionMetadata (pushImage base).reader SHT_PROGBITS = .ok metadata ∧
      FrameHeaderTable.findSection (pushImage base).reader ".eh_frame" metadata =
        .ok (some (pushImage base).frame) ∧
      FrameHeaderTable.findSection (pushImage base).reader ".eh_frame_hdr" metadata =
        .ok (some (pushImage base).hdr) := by
  refine ⟨[(pushImage base).frame, (pushImage base).hdr], ?_, ?_, ?_⟩ <;>
  · obtain rfl | rfl := hbase <;> decide +kernel

theorem pushImage_load {base : Nat} (hbase : base = 0 ∨ base = 0x400000) (checks : OverflowChecks) :
    Elf.getLoadHeader checks (pushImage base).reader = .ok (pushImage base).load := by
  obtain rfl | rfl := hbase <;> cases checks <;> decide +kernel

theorem pushTable_wellFormed {base : Nat} (hbase : base < 2 ^ 61) :
    (pushTable base).WellFormed (base + 0xc4) (base + 0x98) := by
  have hptr : Encodes 0x1b (base + 0xc4) 4 (toLe 4 (2 ^ 32 - 48)) (base + 0x98) := by
    refine ⟨Or.inl (by decide), -48, by decide, ?_⟩
    rw [origin_of_pcrel (by decide)]
    unfold toU64
    omega
  -- a pointer of the rows
  have hrow {back address : Nat} {bytes : Bytes}
      (hraw : formatRaw (formatOf 0x3b) bytes = some (-(back : Int)))
      (haddress : address + back = base + 0xc4) (cursor : Nat) :
      Encodes 0x3b (base + 0xc4) cursor bytes address := by
    refine ⟨Or.inr (by decide), -back, hraw, ?_⟩
    rw [origin, if_neg (by decide), if_pos (by decide)]
    unfold toU64
    omega
  have hstart : formatRaw (formatOf 0x3b) (toLe 4 (2 ^ 32 - 76)) = some (-(76 : Nat) : Int) := by
    decide
  have hfde : formatRaw (formatOf 0x3b) (toLe 4 (2 ^ 32 - 24)) = some (-(24 : Nat) : Int) := by
    decide
  have hcount : formatRaw (formatOf 0x03) (toLe 4 1) = some 1 := by decide
  have hfirst : ∀ cursor, Encodes 0x3b (base + 0xc4) cursor (toLe 4 (2 ^ 32 - 76)) (base + 0x78) :=
    hrow hstart (by omega)
  have hsecond : ∀ cursor, Encodes 0x3b (base + 0xc4) cursor (toLe 4 (2 ^ 32 - 24)) (base + 0xac) :=
    hrow hfde (by omega)
  exact ⟨hptr, (by decide : applicationOf 0x03 = 0x00), hcount, ⟨hfirst _, hsecond _, trivial⟩,
    Or.inr (by decide : applicationOf 0x3b = 0x30)⟩

theorem pushImage_small {base : Nat} (hbase : base < 2 ^ 61) : (pushImage base).Small where
  hdr := by
    change 0xc4 < 2 ^ 62 ∧ base + 0xc4 < 2 ^ 62 ∧ (pushTable base).bytes.length < 2 ^ 62
    have hlength : (pushTable base).bytes.length = 20 := rfl
    omega
  frame := by
    change 0x98 < 2 ^ 62 ∧ base + 0x98 < 2 ^ 62
    omega
  load := by
    change 0 + 0x1f8 < 2 ^ 62 ∧ base + 0x1f8 < 2 ^ 62
    omega
  fdes := by
    intro f hf
    obtain rfl := List.eq_of_mem_singleton hf
    change base + 0x78 + 32 < 2 ^ 62 ∧ 0xac < 2 ^ 62 ∧ base + 0xac < 2 ^ 62
    omega

theorem pushImageFde_table (base : Nat) : ∃ first last, (pushImageFde base).entry.table =
    some [⟨(base + 0x78 : Nat), first⟩, ⟨(base + 0x78 : Nat) + (1 : Nat) * (1 : Nat), last⟩] :=
  ⟨_, _, rfl⟩

theorem refers_pushFile {base : Nat} (hbase : base = 0 ∨ base = 0x400000) :
    Refers (pushFile base) 0xac callCie pushFde := by
  obtain rfl | rfl := hbase
  · exact ⟨by decide +kernel, by decide, by decide, by decide +kernel⟩
  · exact ⟨by decide +kernel, by decide, by decide, by decide +kernel⟩

theorem pushImageFde_wellFormed {base : Nat} (hbase : base = 0 ∨ base = 0x400000) :
    (pushImage base).FdeWellFormed (pushImageFde base) where
  refers := refers_pushFile hbase
  inFrame := (by decide : 0x98 ≤ 0xac)
  address := by
    change base + 0xac = base + 0x98 + (0xac - 0x98)
    omega
  pcrel := (by decide : applicationOf 0x1b = 0x10)
  start := by
    change toU64 (-60 + (((base + 0xac : Nat) : Int) + 8)) = base + 0x78
    unfold toU64
    omega
  range := (by decide : toU64 32 = 32)
  inSegment := by
    intro _
    change base ≤ base + 0x78 ∧ base + 0x78 + 32 ≤ base + 0x1f8
    omega
  rows := by
    intro table htable located hmem
    obtain ⟨first, last, htable'⟩ := pushImageFde_table base
    cases htable.symm.trans htable'
    change located.loc ≤ ((base + 0x78 + 32 : Nat) : Int)
    simp only [List.mem_cons, List.not_mem_nil, or_false] at hmem
    obtain rfl | rfl := hmem
    · dsimp only
      omega
    · dsimp only
      omega

theorem pushImage_wellFormed {base : Nat} (hbase : base = 0 ∨ base = 0x400000) :
    (pushImage base).WellFormed where
  load := pushImage_load hbase
  sections := pushImage_sections hbase
  placed := by obtain rfl | rfl := hbase <;> decide +kernel
  size := rfl
  table := pushTable_wellFormed (by omega)
  rows := rfl
  small := pushImage_small (by omega)
  fdes := fun _ hf => List.eq_of_mem_singleton hf ▸ pushImageFde_wellFormed hbase
  sorted := List.pairwise_singleton _ _
  apart := List.nodup_singleton _

theorem pushFde_fits : EntriesFit 0xac callCie pushFde := by
  refine ⟨?_, ?_, by decide, by decide⟩
  · exact ⟨rfl, by decide, by decide, by unfold FrameOffset.Accepted; decide, by decide, by decide,
      trivial, trivial⟩
  · exact ⟨Or.inr ⟨by decide, by decide⟩, ⟨by decide, by decide, by decide⟩,
      ⟨by decide, by decide, by decide⟩, by decide⟩

theorem pushImageFde_programs (base : Nat) : (pushImageFde base).entry.cie = [.defCfa 7 8] ∧
    (pushImageFde base).entry.fde = [.advance 1, .defCfaOffset 16] :=
  ⟨rfl, rfl⟩

theorem pushImage_readable {base : Nat} (hbase : base = 0 ∨ base = 0x400000) :
    (pushImage base).Readable where
  numbers := by
    have hword := @numberFits_of_width 0x03 (by decide) (by decide) (by decide)
    have hptr := @numberFits_of_width 0x1b (by decide) (by decide) (by decide)
    have hrow := @numberFits_of_width 0x3b (by decide) (by decide) (by decide)
    exact ⟨hptr _, hword _, fun row _ => ⟨hrow _, hrow _⟩⟩
  fdes := by
    intro f hf hrange
    obtain rfl := List.eq_of_mem_singleton hf
    obtain ⟨hcie, hfde⟩ := pushImageFde_programs base
    refine ⟨pushFde_fits, exists_eq_ok ?_, ⟨?_, ?_, ?_, ?_⟩, ?_, ?_⟩
    · obtain rfl | rfl := hbase <;> decide +kernel
    · exact (by decide : Fits62 1)
    · exact (by decide : Fits62 (-8))
    · rw [hcie]
      decide
    · rw [hfde]
      decide
    · rw [hcie]
      unfold NoAddress
      simp
    · rw [hfde]
      unfold NoAddress
      simp

end OneCollect.Ruwind
