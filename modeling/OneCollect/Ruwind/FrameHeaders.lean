import OneCollect.Ruwind.CieHeaders
import OneCollect.Ruwind.FrameTable

/-! The headers of FDEs, read from the file that they lie in together with their CIEs.

`headersTaken_iff` says for which entries the code takes the location and the range that the FDE
gives, and starts the rules of both behind their headers. -/

namespace OneCollect.Ruwind
open Theory CallFrame

/-! ## Entries in a file -/

section Files

variable {content entry : Bytes} {pos : Nat}

theorem readExact_ofBytes {len : Nat} (h : ((content.drop pos).take len).length = len) :
    (File.ofBytes content).readExact pos len = .ok ((content.drop pos).take len) := by
  cases len with
  | zero => rfl
  | succ len =>
    have hne : (content.drop pos).take (len + 1) ≠ [] := by
      intro hnil
      rw [hnil] at h
      cases h
    have hnone (turns pos : Nat) : (File.ofBytes content).readLoop turns pos 0 = .ok [] := by
      cases turns <;> rfl
    rw [File.readExact, File.readLoop, if_neg (Nat.succ_ne_zero len)]
    change (if (content.drop pos).take (len + 1) = [] then _ else _) = _
    rw [if_neg hne, h, Nat.sub_self, hnone]
    exact congrArg Except.ok (List.append_nil _)

/-- An entry lies at a position; its length is in front of it. -/
structure EntryAt (content : Bytes) (pos : Nat) (entry : Bytes) : Prop where
  bytes : (content.drop pos).take entry.length = entry
  length : fromLe (entry.take 4) + 4 = entry.length
  most : 8 ≤ entry.length

/-- An entry is read in full, unless it is really large. -/
theorem readFrameEntry_eq (h : EntryAt content pos entry) :
    FrameOffset.readFrameEntry (File.ofBytes content) pos =
      if fromLe (entry.take 4) ≤ 2048 then .ok entry else fail "Too large length" := by
  have hlength := h.length
  have hmost := h.most
  have hall : entry.length ≤ (content.drop pos).length := by
    have hlen := congrArg List.length h.bytes
    rw [List.length_take] at hlen
    omega
  have hbuf : ((content.drop pos).take 256).length = min 256 (content.drop pos).length :=
    List.length_take
  have hword : ((content.drop pos).take 256).take 4 = entry.take 4 := by
    rw [List.take_take, ← h.bytes, List.take_take]
    congr 1
    omega
  have hshort : ¬ ((content.drop pos).take 256).length < 4 := by omega
  have hzero : ¬ fromLe (entry.take 4) = 0 := by omega
  have hread : (File.ofBytes content).read pos 256 = .ok ((content.drop pos).take 256) := rfl
  have hseek : (File.ofBytes content).seek pos = .ok () := rfl
  unfold FrameOffset.readFrameEntry
  simp only [hseek, hread, ok_bind, if_neg hshort, hword, if_neg hzero, hlength]
  by_cases hlarge : fromLe (entry.take 4) > 2048
  · rw [if_pos hlarge, if_neg (Nat.not_le.mpr hlarge)]
    rfl
  rw [if_neg hlarge, if_pos (Nat.not_lt.mp hlarge)]
  by_cases hmore : ((content.drop pos).take 256).length < entry.length
  · have hbuf' : ((content.drop pos).take 256).length = 256 := by omega
    have hrest : ((content.drop (pos + 256)).take (entry.length - 256)).length =
        entry.length - 256 := by
      rw [List.length_take, ← List.drop_drop, List.length_drop]
      omega
    rw [if_pos hmore, hbuf', readExact_ofBytes hrest, ok_bind, ← List.drop_drop, ← List.take_add]
    have hall : 256 + (entry.length - 256) = entry.length := by omega
    rw [hall, h.bytes]
  · rw [if_neg hmore, List.take_take, Nat.min_eq_left (by omega), h.bytes]

end Files

/-! ## The FDEs of a CIE -/

/-- What the positions of a program are that pointers count from, and the pointers it stores. -/
structure Bases where
  text : Nat
  data : Nat
  func : Nat
  stored : Nat → Nat

namespace Bases

def base (bases : Bases) (enc : UInt8) (pos : Nat) : Nat :=
  if applicationOf enc % 0x80 = 0x10 then pos
  else if applicationOf enc % 0x80 = 0x20 then bases.text
  else if applicationOf enc % 0x80 = 0x30 then bases.data
  else if applicationOf enc % 0x80 = 0x40 then bases.func
  else 0

/-- The position that a pointer at `pos` stands for. -/
def location (bases : Bases) (enc : UInt8) (pos : Nat) (raw : Int) : Nat :=
  if applicationOf enc < 0x80 then toU64 (raw + bases.base enc pos)
  else bases.stored (toU64 (raw + bases.base enc pos))

theorem location_absolute (bases : Bases) {enc : UInt8} (h : applicationOf enc = 0x00) (pos : Nat)
    (raw : Int) : bases.location enc pos raw = toU64 raw := by
  simp [location, base, h]

theorem location_pcrel (bases : Bases) {enc : UInt8} (h : applicationOf enc = 0x10) (pos : Nat)
    (raw : Int) : bases.location enc pos raw = toU64 (raw + pos) := by
  simp [location, base, h]

/-- A position that no base matters for is absolute, or relative to the pointer. -/
theorem location_cases {enc : UInt8} {pos n : Nat} {raw : Int}
    (h : ∀ bases : Bases, bases.location enc pos raw = n) :
    (applicationOf enc = 0x10 ∧ toU64 (raw + pos) = n) ∨
      (applicationOf enc ≠ 0x10 ∧ applicationOf enc ≠ 0x30 ∧ applicationOf enc % 0x80 ≠ 0x20 ∧
        applicationOf enc % 0x80 ≠ 0x40 ∧ applicationOf enc < 0x80 ∧ toU64 raw = n) := by
  have hzero := h ⟨0, 0, 0, fun _ => n + 1⟩
  have hone := h ⟨1, 1, 1, fun _ => n + 1⟩
  simp only [location, base, toU64] at hzero hone ⊢
  split_ifs at hzero hone <;> omega

end Bases

structure FdeFields where
  length : Bytes
  ciePointer : Bytes
  location : Bytes
  loc : Int
  range : Bytes
  rng : Int
  augLen : Bytes
  augData : Bytes
  rules : Bytes

namespace FdeFields

variable (c : CieFields) (f : FdeFields)

/-- Only with an augmentation string there is augmentation data. -/
def augPart : Bytes :=
  match c.augmentation with
  | none => []
  | some _ => f.augLen ++ f.augData

def toRange : Bytes := f.length ++ f.ciePointer ++ f.location

def toAug : Bytes := f.toRange ++ f.range

def bytes : Bytes := f.toAug ++ (f.augPart c ++ f.rules)

/-- Behind the augmentation data. -/
def rulesAt : Nat := f.toAug.length + (f.augPart c).length

/-- The range has the format of the location, and no application. -/
structure WellFormed : Prop where
  lengthWidth : f.length.length = 4
  lengthIs : fromLe f.length + 4 = (f.bytes c).length
  pointerWidth : f.ciePointer.length = 4
  pointerIs : fromLe f.ciePointer ≠ 0
  locationIs : rawOf c.enc f.location = some f.loc
  rangeIs : formatRaw (formatOf c.enc) f.range = some f.rng
  augLenIs : c.augmentation.isSome → uleb f.augLen = some (f.augData.length, f.augLen.length)

end FdeFields

structure Fde (c : CieFields) extends FdeFields where
  wellFormed : toFdeFields.WellFormed c

namespace Fde

variable {c : CieFields} (f : Fde c)

abbrev entry : Bytes := f.bytes c

theorem length_toLocation : (f.length ++ f.ciePointer).length = 8 := by
  rw [List.length_append, f.wellFormed.lengthWidth, f.wellFormed.pointerWidth]

theorem length_toRange : f.toRange.length = 8 + f.location.length := by
  rw [FdeFields.toRange, List.length_append, f.length_toLocation]

theorem length_toAug : f.toAug.length = 8 + f.location.length + f.range.length := by
  rw [FdeFields.toAug, List.length_append, f.length_toRange]

theorem length_entry : f.entry.length = f.rulesAt c + f.rules.length := by
  simp only [entry, FdeFields.bytes, FdeFields.rulesAt, List.length_append]
  omega

theorem length_entry_lt : f.entry.length < 2 ^ 33 := by
  have hlt := fromLe_lt f.length
  rw [f.wellFormed.lengthWidth] at hlt
  have hlen : _ = f.entry.length := f.wellFormed.lengthIs
  omega

/-- What an FDE has to be for the code to take its headers. -/
structure Fits (fde : Nat) : Prop where
  application : applicationOf c.enc = 0x00 ∨ (applicationOf c.enc = 0x10 ∧ f.location.length = 4)
  location : PointerFits c.enc (toI64 fde) 8 f.location f.loc
  range : PointerFits c.enc (-12) (8 + f.location.length) f.range f.rng
  augLen : f.augLen.length ≤ 10

theorem entry_eq_location :
    f.entry = (f.length ++ f.ciePointer) ++ f.location ++ (f.range ++ (f.augPart c ++ f.rules)) := by
  simp [entry, FdeFields.bytes, FdeFields.toAug, FdeFields.toRange]

theorem entry_eq_range : f.entry = f.toRange ++ f.range ++ (f.augPart c ++ f.rules) := rfl

theorem take_entry : f.entry.take 4 = f.length := by
  rw [f.entry_eq_location, ← f.wellFormed.lengthWidth]
  simp

theorem pointer_entry : (f.entry.drop 4).take 4 = f.ciePointer := by
  have hdrop : f.entry.drop f.length.length =
      f.ciePointer ++ (f.location ++ (f.range ++ (f.augPart c ++ f.rules))) := by
    rw [f.entry_eq_location]
    simp
  rw [f.wellFormed.lengthWidth] at hdrop
  rw [hdrop, ← f.wellFormed.pointerWidth, List.take_left]

theorem locationOperand_eq {base : Int} (hfits : PointerFits c.enc base 8 f.location f.loc) :
    valueOperand c.enc base f.entry 8 = some (wrap f.loc + origin c.enc base 8, f.toRange.length) := by
  have hraw := formatRaw_of_rawOf f.wellFormed.locationIs hfits.format
  rw [← f.length_toLocation] at hfits
  have hread := @valueOperand_of_fits _ _ _ _ (f.range ++ (f.augPart c ++ f.rules)) _ hraw hfits
  rwa [← f.entry_eq_location, f.length_toLocation, ← f.length_toRange] at hread

theorem rangeOperand_eq {base : Int}
    (hfits : PointerFits c.enc base (8 + f.location.length) f.range f.rng) :
    valueOperand c.enc base f.entry f.toRange.length =
      some (wrap f.rng + origin c.enc base (8 + f.location.length), f.toAug.length) := by
  rw [← f.length_toRange] at hfits ⊢
  have hread := @valueOperand_of_fits _ _ _ _ (f.augPart c ++ f.rules) _ f.wellFormed.rangeIs hfits
  rw [← f.entry_eq_range] at hread
  rw [hread, f.length_toAug, f.length_toRange]

/-- What is read of the location and the range fits. -/
theorem fits_of_locationOperand (hformat : formatOf c.enc ≠ 0) {base n : Int} {next : Nat}
    (h : valueOperand c.enc base f.entry 8 = some (n, next)) :
    PointerFits c.enc base 8 f.location f.loc := by
  rw [f.entry_eq_location, ← f.length_toLocation] at h
  rw [← f.length_toLocation]
  exact fits_of_valueOperand (formatRaw_of_rawOf f.wellFormed.locationIs hformat) hformat h

theorem fits_of_rangeOperand (hformat : formatOf c.enc ≠ 0) {base n : Int} {next : Nat}
    (h : valueOperand c.enc base f.entry f.toRange.length = some (n, next)) :
    PointerFits c.enc base (8 + f.location.length) f.range f.rng := by
  rw [f.entry_eq_range] at h
  rw [← f.length_toRange]
  exact fits_of_valueOperand f.wellFormed.rangeIs hformat h

theorem sizeOperand_eq (haug : c.augmentation.isSome) : ulebOperand f.entry f.toAug.length =
    if f.augLen.length ≤ 10 then
      some ((f.augData.length : Int), f.toAug.length + f.augLen.length)
    else none := by
  obtain ⟨items, haug'⟩ := Option.isSome_iff_exists.mp haug
  have hpart : f.augPart c = f.augLen ++ f.augData := by
    rw [FdeFields.augPart, haug']
  have hentry : f.entry = f.toAug ++ f.augLen ++ (f.augData ++ f.rules) := by
    simp [entry, FdeFields.bytes, hpart]
  have hle : f.augData.length ≤ f.entry.length := by
    rw [hentry]
    simp only [List.length_append]
    omega
  have hlt := f.length_entry_lt
  rw [hentry, ulebOperand_append (f.wellFormed.augLenIs haug),
    wrap_of_inI64 (by unfold InI64; omega)]

theorem rulesAt_eq (haug : c.augmentation.isSome) :
    f.rulesAt c = f.toAug.length + f.augLen.length + f.augData.length := by
  obtain ⟨items, haug⟩ := Option.isSome_iff_exists.mp haug
  rw [FdeFields.rulesAt, FdeFields.augPart, haug, List.length_append, Nat.add_assoc]

end Fde

/-! ## The headers -/

theorem toU64_wrap_add (n m : Int) : toU64 (wrap n + m) = toU64 (n + m) := by
  have hwrap : wrap n % 2 ^ 64 = n % 2 ^ 64 := by
    rw [wrap, BitVec.toInt_ofInt, Int.bmod_def]
    split <;> omega
  unfold toU64
  omega

theorem origin_of_absolute {enc : UInt8} (hpcrel : applicationOf enc ≠ 0x10)
    (hdatarel : applicationOf enc ≠ 0x30) (base : Int) (cursor : Nat) : origin enc base cursor = 0 := by
  have hp : ¬ enc &&& DW_EH_PE_APPL_MASK = DW_EH_PE_PCREL := fun h =>
    hpcrel (congrArg UInt8.toNat h)
  have hd : ¬ enc &&& DW_EH_PE_APPL_MASK = DW_EH_PE_DATAREL := fun h =>
    hdatarel (congrArg UInt8.toNat h)
  rw [origin, if_neg hp, if_neg hd]

theorem origin_of_pcrel {enc : UInt8} (h : applicationOf enc = 0x10) (base : Int) (cursor : Nat) :
    origin enc base cursor = base + cursor := by
  have hp : (enc &&& DW_EH_PE_APPL_MASK).toNat = DW_EH_PE_PCREL.toNat := h
  rw [origin, if_pos (UInt8.toNat_inj.mp hp)]

/-- The FDE lies at the position, and its CIE as far back as it says. -/
structure Refers (content : Bytes) (fde : Nat) (c : Cie) (f : Fde c.toCieFields) : Prop where
  fdeAt : (content.drop fde).take f.entry.length = f.entry
  inFile : fde + 4 < 2 ^ 64
  back : fromLe f.ciePointer ≤ fde + 4
  cieAt : (content.drop (fde + 4 - fromLe f.ciePointer)).take c.bytes.length = c.bytes

/-- **The headers of an FDE and its CIE are taken.** Both entries are read. The CIE's rules start
behind its augmentation data, and the FDE's behind its own; the location is the one that the FDE
gives wherever the sections of the program are, and the range is its own. -/
def HeadersTaken (content : Bytes) (self : FrameOffset) (c : Cie) (f : Fde c.toCieFields) : Prop :=
  ∃ header, FrameOffset.readEntries (File.ofBytes content) self.fde = .ok (f.entry, c.bytes) ∧
    self.readHeader f.entry c.bytes = .ok header ∧ header.cieCursor = c.rulesAt ∧
    (∀ bases : Bases, bases.location c.enc (self.fde + 8) f.loc = toU64 header.pcStart) ∧
    header.pcSize = toU64 f.rng ∧ header.fdeCursor = f.rulesAt c.toCieFields

section Headers

variable {content : Bytes} {fde : Nat} {self : FrameOffset} {c : Cie} {f : Fde c.toCieFields}

theorem Refers.fde_entryAt (h : Refers content fde c f) : EntryAt content fde f.entry where
  bytes := h.fdeAt
  length := by
    rw [f.take_entry]
    exact f.wellFormed.lengthIs
  most := by
    rw [f.length_entry, FdeFields.rulesAt, f.length_toAug]
    omega

theorem Refers.cie_entryAt (h : Refers content fde c f) :
    EntryAt content (fde + 4 - fromLe f.ciePointer) c.bytes where
  bytes := h.cieAt
  length := by
    rw [c.take_bytes]
    exact c.wellFormed.lengthIs
  most := by
    simp only [CieFields.bytes, CieFields.toRetReg, List.length_append, c.length_head]
    omega

/-- The entries are read unless one of them is really large. -/
theorem readEntries_iff (h : Refers content fde c f) :
    FrameOffset.readEntries (File.ofBytes content) fde = .ok (f.entry, c.bytes) ↔
      fromLe f.length ≤ 2048 ∧ fromLe c.length ≤ 2048 := by
  have hfde := readFrameEntry_eq h.fde_entryAt
  have hcie := readFrameEntry_eq h.cie_entryAt
  rw [f.take_entry] at hfde
  rw [c.take_bytes] at hcie
  have hlen : ¬ f.entry.length < 8 := Nat.not_lt.mpr h.fde_entryAt.most
  have hpos : addU64 fde 4 = .ok (fde + 4) := addU64_eq_ok.mpr ⟨h.inFile, rfl⟩
  have hback : subU64 (fde + 4) (fromLe f.ciePointer) = .ok (fde + 4 - fromLe f.ciePointer) :=
    subU64_eq_ok.mpr ⟨h.back, rfl⟩
  unfold FrameOffset.readEntries
  rw [hfde]
  by_cases hsmall : fromLe f.length ≤ 2048
  · simp only [if_pos hsmall, ok_bind, if_neg hlen, f.pointer_entry, if_neg f.wellFormed.pointerIs,
      hpos, hback, hcie]
    by_cases hcieSmall : fromLe c.length ≤ 2048
    · rw [if_pos hcieSmall]
      exact iff_of_true rfl ⟨hsmall, hcieSmall⟩
    · rw [if_neg hcieSmall]
      exact iff_of_false (fun hok => nomatch hok) fun hall => hcieSmall hall.2
  · rw [if_neg hsmall]
    exact iff_of_false (fun hok => nomatch hok) fun hall => hsmall hall.1

/-- Headers that fit are read with what they say. -/
theorem readHeader_of_fits (hc : c.Fits) (hf : f.Fits self.fde) :
    ∃ options retReg, self.readHeader f.entry c.bytes = .ok
      { pcStart := wrap f.loc + origin c.enc (toI64 self.fde) 8
        pcSize := toU64 (wrap f.rng + origin c.enc (-12) (8 + f.location.length))
        retReg, options, cieCursor := c.rulesAt, fdeCursor := f.rulesAt c.toCieFields } := by
  obtain ⟨options, retReg, hcie, henc, haug⟩ := c.parseCie_of_fits hc
  have hlocation : readValue c.enc (toI64 self.fde) f.entry 8 =
      .ok (wrap f.loc + origin c.enc (toI64 self.fde) 8, f.toRange.length) := by
    rw [readValue_eq, f.locationOperand_eq hf.location]
    rfl
  have hrange : readValue c.enc (-12) f.entry f.toRange.length =
      .ok (wrap f.rng + origin c.enc (-12) (8 + f.location.length), f.toAug.length) := by
    rw [readValue_eq, f.rangeOperand_eq hf.range]
    rfl
  have hsize : readUleb f.entry f.toAug.length =
      .ok ((f.augData.length : Int), f.toAug.length + f.augLen.length) := by
    rw [readUleb_eq, f.sizeOperand_eq hc.augmented, if_pos hf.augLen]
    rfl
  have hlt := f.length_entry_lt
  rw [f.length_entry] at hlt
  have hrules := f.rulesAt_eq hc.augmented
  have hsum : addU64 (f.toAug.length + f.augLen.length) (toU64 f.augData.length) =
      .ok (f.rulesAt c.toCieFields) := by
    rw [toU64_of_nonneg (by omega) (by omega)]
    exact addU64_eq_ok.mpr ⟨by omega, hrules⟩
  refine ⟨options, retReg, ?_⟩
  rw [FrameOffset.readHeader, hcie, ok_bind]
  simp only [henc, haug, hlocation, hrange, hsize, hsum, ok_bind, if_true]

/-- What reading the headers reads. -/
theorem reads_of_readHeader {header : FrameOffset.Header} {options : FrameOptions} {retReg : Nat}
    (hcie : FrameOffset.parseCie c.bytes {} = .ok (c.rulesAt, options, retReg))
    (hoptions : options.enc = c.enc ∧ options.hasAugData = true)
    (h : self.readHeader f.entry c.bytes = .ok header) :
    ∃ next₁, valueOperand c.enc (toI64 self.fde) f.entry 8 = some (header.pcStart, next₁) ∧
    ∃ range next₂, valueOperand c.enc (-12) f.entry next₁ = some (range, next₂) ∧
      header.pcSize = toU64 range ∧
    ∃ size next₃, ulebOperand f.entry next₂ = some (size, next₃) ∧
      header.fdeCursor = next₃ + toU64 size := by
  rw [FrameOffset.readHeader, hcie, ok_bind] at h
  simp only [hoptions, if_true, readValue_eq, readUleb_eq, bind_eq_ok, orPanic_eq_ok,
    Prod.exists, addU64_eq_ok] at h
  obtain ⟨pcStart, next₁, hstart, range, next₂, hrange, size, next₃, hsize, _, ⟨-, rfl⟩, heq⟩ := h
  cases heq
  exact ⟨next₁, hstart, range, next₂, hrange, rfl, size, next₃, hsize, rfl⟩

/-- A location without a format of its own is not read, so the entry is not left behind. -/
theorem cursor_ne_of_pointer (hformat : formatOf c.enc = 0) {pcStart range size : Int}
    {next₁ next₂ next₃ : Nat}
    (hlocation : valueOperand c.enc (toI64 self.fde) f.entry 8 = some (pcStart, next₁))
    (hrange : valueOperand c.enc (-12) f.entry next₁ = some (range, next₂))
    (hsize : ulebOperand f.entry next₂ = some (size, next₃)) (hinFile : self.fde + 4 < 2 ^ 64)
    (hright : ∀ bases : Bases, bases.location c.enc (self.fde + 8) f.loc = toU64 pcStart) :
    next₃ + toU64 size ≠ f.rulesAt c.toCieFields := by
  obtain ⟨rfl, rfl⟩ := valueOperand_of_pointer hformat hlocation
  obtain ⟨-, rfl⟩ := valueOperand_of_pointer hformat hrange
  have hloc : f.loc % 2 ^ 64 = 0 := by
    obtain ⟨hpcrel, heq⟩ | ⟨hpcrel, hdatarel, -, -, -, heq⟩ := Bases.location_cases hright
    · rw [origin_of_pcrel hpcrel] at heq
      unfold toU64 toI64 at heq
      split at heq <;> omega
    · rw [origin_of_absolute hpcrel hdatarel] at heq
      unfold toU64 at heq
      omega
  have hwide := length_of_pointer f.wellFormed.locationIs hformat
  have hzero := zero_of_pointer f.wellFormed.locationIs hformat hloc
  obtain ⟨rest, hbytes⟩ : ∃ rest, f.location = 0 :: rest := by
    cases hbytes : f.location with
    | nil => simp [hbytes] at hwide
    | cons byte rest =>
      rw [hbytes, fromLe] at hzero
      exact ⟨rest, by rw [UInt8.toNat_inj.mp (show byte.toNat = (0 : UInt8).toNat by simp; omega)]⟩
  have hentry : f.entry = (f.length ++ f.ciePointer) ++ [0] ++
      (rest ++ (f.range ++ (f.augPart c.toCieFields ++ f.rules))) := by
    rw [f.entry_eq_location, hbytes]
    simp
  have hread : uleb [0] = some (0, 1) := by decide
  rw [hentry, ← f.length_toLocation, ulebOperand_append hread] at hsize
  cases hsize
  have hnone : toU64 (wrap ((0 : Nat) : Int)) = 0 := by decide
  rw [FdeFields.rulesAt, f.length_toAug, f.length_toLocation, hnone, List.length_singleton]
  omega

/-- What an FDE and its CIE have to be for the code to take their headers. -/
structure EntriesFit (fde : Nat) (c : Cie) (f : Fde c.toCieFields) : Prop where
  cie : c.Fits
  fde : f.Fits fde
  cieSize : fromLe c.length ≤ 2048
  fdeSize : fromLe f.length ≤ 2048

theorem headersTaken_of_fit (h : Refers content self.fde c f) (hfit : EntriesFit self.fde c f) :
    HeadersTaken content self c f := by
  obtain ⟨options, retReg, hheader⟩ := readHeader_of_fits hfit.cie hfit.fde
  have hentries := (readEntries_iff h).mpr ⟨hfit.fdeSize, hfit.cieSize⟩
  refine ⟨_, hentries, hheader, rfl, fun bases => ?_, ?_, rfl⟩
  · dsimp only
    rw [toU64_wrap_add]
    obtain habs | ⟨hpcrel, -⟩ := hfit.fde.application
    · rw [origin_of_absolute (by omega) (by omega), bases.location_absolute habs, Int.add_zero]
    · rw [origin_of_pcrel hpcrel, bases.location_pcrel hpcrel]
      unfold toU64 toI64
      split <;> omega
  · dsimp only
    rw [toU64_wrap_add]
    obtain habs | ⟨hpcrel, hwidth⟩ := hfit.fde.application
    · rw [origin_of_absolute (by omega) (by omega), Int.add_zero]
    · rw [origin_of_pcrel hpcrel, hwidth]
      congr 1
      omega

theorem fit_of_headersTaken (h : Refers content self.fde c f) (htaken : HeadersTaken content self c f) :
    EntriesFit self.fde c f := by
  obtain ⟨header, hentries, hheader, hcie, hlocation, hsize, hcursor⟩ := htaken
  obtain ⟨hfdeSize, hcieSize⟩ := (readEntries_iff h).mp hentries
  have hparse := FrameOffset.parseCie_of_readHeader hheader
  rw [hcie] at hparse
  have hcieFits := c.fits_of_parseCie hparse
  obtain ⟨options, retReg, hparse, hoptions⟩ := c.parseCie_of_fits hcieFits
  obtain ⟨next₁, hstart, range, next₂, hrange, hpcSize, size, next₃, haug, hfdeCursor⟩ :=
    reads_of_readHeader hparse hoptions hheader
  have hformat : formatOf c.enc ≠ 0 := fun hformat =>
    cursor_ne_of_pointer hformat hstart hrange haug h.inFile hlocation (hfdeCursor.symm.trans hcursor)
  have hlocationFits := f.fits_of_locationOperand hformat hstart
  have hread := f.locationOperand_eq hlocationFits
  obtain ⟨hpcStart, rfl⟩ := Prod.mk.inj (Option.some.inj (hstart.symm.trans hread))
  have hrangeFits := f.fits_of_rangeOperand hformat hrange
  obtain ⟨rfl, rfl⟩ := Prod.mk.inj
    (Option.some.inj (hrange.symm.trans (f.rangeOperand_eq hrangeFits)))
  have haugLen : f.augLen.length ≤ 10 := by
    rw [f.sizeOperand_eq hcieFits.augmented] at haug
    by_contra hlen
    rw [if_neg hlen] at haug
    cases haug
  refine ⟨hcieFits, ⟨?_, hlocationFits, hrangeFits, haugLen⟩, hcieSize, hfdeSize⟩
  obtain ⟨hpcrel, -⟩ | ⟨hpcrel, hdatarel, htext, hfunc, hstored, -⟩ :=
    Bases.location_cases hlocation
  · refine Or.inr ⟨hpcrel, ?_⟩
    rw [hpcSize, toU64_wrap_add, origin_of_pcrel hpcrel] at hsize
    have hlt := f.length_entry_lt
    rw [f.length_entry, FdeFields.rulesAt, f.length_toAug] at hlt
    unfold toU64 at hsize
    omega
  · have hknown := application_of_rawOf f.wellFormed.locationIs hformat
    have hstep := applicationOf_mod c.enc
    exact Or.inl (by omega)

/-- **The headers of CIEs and FDEs.** -/
theorem headersTaken_iff (h : Refers content self.fde c f) :
    HeadersTaken content self c f ↔ EntriesFit self.fde c f :=
  ⟨fit_of_headersTaken h, headersTaken_of_fit h⟩

end Headers

/-! ### Three files -/

/-- A CIE without an augmentation string. -/
def bareCie : Cie where
  length := toLe 4 12
  augmentation := none
  codeAlign := [1]
  code := 1
  dataAlign := [0x78]
  data := -8
  retReg := 16
  augLen := []
  rules := [0, 0, 0]
  wellFormed := ⟨rfl, rfl, rfl, rfl, fun _ h => nomatch h⟩

/-- A CIE with the augmentation `zR`. -/
def encodedCie (enc : UInt8) : Cie where
  length := toLe 4 16
  augmentation := some [.encoding enc]
  codeAlign := [1]
  code := 1
  dataAlign := [0x78]
  data := -8
  retReg := 16
  augLen := [1]
  rules := [0, 0, 0]
  wellFormed :=
    { lengthWidth := rfl
      lengthIs := rfl
      codeIs := rfl
      dataIs := rfl
      items := by
        rintro items ⟨⟩
        exact ⟨fun item hmem => List.eq_of_mem_singleton hmem ▸ trivial, Nat.zero_le _, rfl⟩ }

/-- An FDE of signed words that are relative to the file. -/
def relativeFde : Fde (encodedCie 0x1b).toCieFields where
  length := toLe 4 16
  ciePointer := toLe 4 24
  location := toLe 4 0x100
  loc := 0x100
  range := toLe 4 0x20
  rng := 0x20
  augLen := [0]
  augData := []
  rules := [0, 0, 0]
  wellFormed := ⟨rfl, rfl, rfl, by decide, rfl, rfl, fun _ => rfl⟩

/-- An FDE of pointers of the machine. -/
def pointerFde : Fde (encodedCie 0x00).toCieFields where
  length := toLe 4 24
  ciePointer := toLe 4 24
  location := toLe 8 0x100
  loc := 0x100
  range := toLe 8 0x20
  rng := 0x20
  augLen := [0]
  augData := []
  rules := [0, 0, 0]
  wellFormed := ⟨rfl, rfl, rfl, by decide, rfl, rfl, fun _ => rfl⟩

/-- An FDE without augmentation data. -/
def bareFde : Fde bareCie.toCieFields where
  length := toLe 4 24
  ciePointer := toLe 4 20
  location := toLe 8 0x100
  loc := 0x100
  range := toLe 8 0x20
  rng := 0x20
  augLen := []
  augData := []
  rules := [0, 0, 0, 0]
  wellFormed := ⟨rfl, rfl, rfl, by decide, rfl, rfl, fun h => nomatch h⟩

def relativeFile : Bytes := (encodedCie 0x1b).bytes ++ relativeFde.entry

def pointerFile : Bytes := (encodedCie 0x00).bytes ++ pointerFde.entry

def bareFile : Bytes := bareCie.bytes ++ bareFde.entry

theorem refers_relativeFile : Refers relativeFile 20 (encodedCie 0x1b) relativeFde :=
  ⟨by decide +kernel, by decide, by decide, by decide +kernel⟩

theorem refers_pointerFile : Refers pointerFile 20 (encodedCie 0x00) pointerFde :=
  ⟨by decide +kernel, by decide, by decide, by decide +kernel⟩

theorem refers_bareFile : Refers bareFile 16 bareCie bareFde :=
  ⟨by decide +kernel, by decide, by decide, by decide +kernel⟩

theorem headersTaken_relativeFile :
    HeadersTaken relativeFile { rva := 0, fde := 20 } (encodedCie 0x1b) relativeFde := by
  refine (headersTaken_iff refers_relativeFile).mpr ⟨?_, ?_, by decide, by decide⟩
  · exact ⟨rfl, by decide, by decide, by unfold FrameOffset.Accepted; decide, by decide, by decide,
      trivial, trivial⟩
  · exact ⟨Or.inr ⟨by decide, by decide⟩, ⟨by decide, by decide, by decide⟩,
      ⟨by decide, by decide, by decide⟩, by decide⟩

/-- The empty augmentation string has no first letter, and a pointer of the machine has no bytes for
the code. -/
theorem headersTaken_misses :
    (Refers bareFile 16 bareCie bareFde ∧
      ¬ HeadersTaken bareFile { rva := 0, fde := 16 } bareCie bareFde) ∧
    (Refers pointerFile 20 (encodedCie 0x00) pointerFde ∧
      ¬ HeadersTaken pointerFile { rva := 0, fde := 20 } (encodedCie 0x00) pointerFde) := by
  refine ⟨⟨refers_bareFile, fun htaken => ?_⟩, refers_pointerFile, fun htaken => ?_⟩
  · have hfit := @fit_of_headersTaken _ { rva := 0, fde := 16 } _ _ refers_bareFile htaken
    exact absurd hfit.cie.augmented (by decide)
  · have hfit := @fit_of_headersTaken _ { rva := 0, fde := 20 } _ _ refers_pointerFile htaken
    exact hfit.fde.location.format (by decide)

end OneCollect.Ruwind
