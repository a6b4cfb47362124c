import OneCollect.Theory.Text
import OneCollect.Theory.Utf16

/-! The blocks of a version resource (`get_pe_info` of `pe_file.rs`): a header, a name in UTF-16 and
a value, one block after another. `noPanic_readBlocks` says which blocks can be read without a panic:
the length of a value in characters does not overflow, and a block that is looked for is not cut
short behind its name. -/

namespace OneCollect.Exporting.PeFile
open Theory

/-! ## The loop over the blocks -/

/-- `get_unicode_string`. At an odd address the first byte belongs to no unit. -/
def getUnicodeString (odd : Bool) (name : List UInt8) : Exec String :=
  let values := codeUnits (if odd then name.drop 1 else name)
  match decodeUtf16 (values.takeWhile (· ≠ 0)) with
  | some text => .ok (String.ofList text)
  | none => fail "invalid utf-16: lone surrogate found"

/-- What has been found. -/
structure VersionInfo where
  product : Option String := none
  fileVer : Option String := none
  fileDesc : Option String := none
  deriving DecidableEq, Repr

/-- The length of a header, aligned; the name is measured in UTF-8. -/
def headerLen (name : String) : Nat := (8 + name.utf8ByteSize * 2 + 3) / 4 * 4

section Blocks

variable (checks : OverflowChecks) (odd : Bool)

def valueAt (block : List UInt8) (start : Nat) : Exec String := do
  let value ← slice block start block.length
  getUnicodeString odd value

/-- The value of the block, where it is one that is looked for. -/
def addValue (block : List UInt8) (name : String) (info : VersionInfo) : Exec VersionInfo :=
  if name = "ProductVersion" ∧ info.product = none then do
    let product ← valueAt odd block (headerLen name)
    .ok { info with product := some product }
  else if name = "FileVersion" ∧ info.fileVer = none then do
    let fileVer ← valueAt odd block (headerLen name)
    .ok { info with fileVer := some fileVer }
  else if name = "FileDescription" ∧ info.fileDesc = none then do
    let fileDesc ← valueAt odd block (headerLen name)
    .ok { info with fileDesc := some fileDesc }
  else .ok info

/-- The length of a value in bytes; that of a text is in characters. -/
def dataBytes (dataType dataLen : Nat) : Exec Nat :=
  if dataType = 1 then checks.word 16 (dataLen * 2) else .ok dataLen

/-- One turn: what is found, and the blocks that are left unless there is no more to get. -/
def turn (info : VersionInfo) (block : List UInt8) :
    Exec (VersionInfo × Option (List UInt8)) := do
  let dataLen ← readLe 2 block 2
  let dataType ← readLe 2 block 4
  let dataLen ← dataBytes checks dataType dataLen
  let text ← slice block 6 block.length
  let name ← getUnicodeString odd text
  let info ← addValue odd block name info
  let totalLen := (headerLen name + dataLen + 3) / 4 * 4
  if block.length ≤ totalLen then .ok (info, none)
  else if info.product.isSome ∧ info.fileVer.isSome ∧ info.fileDesc.isSome then .ok (info, none)
  else .ok (info, some (block.drop totalLen))

/-- Every turn that goes on leaves fewer bytes: a header alone has eight. -/
theorem turn_shortens {info after : VersionInfo} {block rest : List UInt8}
    (h : turn checks odd info block = .ok (after, some rest)) : rest.length + 8 ≤ block.length := by
  obtain ⟨dataLen, -, h⟩ := bind_eq_ok.mp h
  obtain ⟨dataType, -, h⟩ := bind_eq_ok.mp h
  obtain ⟨dataLen, -, h⟩ := bind_eq_ok.mp h
  obtain ⟨text, -, h⟩ := bind_eq_ok.mp h
  obtain ⟨name, -, h⟩ := bind_eq_ok.mp h
  obtain ⟨info, -, h⟩ := bind_eq_ok.mp h
  have hheader : 8 ≤ (headerLen name + dataLen + 3) / 4 * 4 := by
    unfold headerLen
    omega
  dsimp only at h
  split_ifs at h with hend
  · cases h
  · cases h
  · cases h
    rw [List.length_drop]
    omega

/-- The loop over the blocks. -/
def readBlocks (info : VersionInfo) (block : List UInt8) : Exec VersionInfo :=
  if 8 < block.length then
    match _hturn : turn checks odd info block with
    | .error fault => .error fault
    | .ok (info, none) => .ok info
    | .ok (info, some rest) => readBlocks info rest
  else .ok info
termination_by block.length
decreasing_by
  have hshorter := turn_shortens checks odd _hturn
  omega

/-! ## Blocks that can be read -/

/-- The name is one that is still looked for. -/
def VersionInfo.Wants (info : VersionInfo) (name : String) : Prop :=
  name = "ProductVersion" ∧ info.product = none ∨ name = "FileVersion" ∧ info.fileVer = none ∨
    name = "FileDescription" ∧ info.fileDesc = none

/-- **A block fits.** The length of a value in characters is a word as one in bytes too, and the
header of a block that is looked for is all there. -/
def BlockFits (info : VersionInfo) (block : List UInt8) : Prop :=
  (fromLe ((block.drop 4).take 2) = 1 → checks = .on →
    fromLe ((block.drop 2).take 2) * 2 < 2 ^ 16) ∧
  ∀ name, getUnicodeString odd (block.drop 6) = .ok name → info.Wants name →
    headerLen name ≤ block.length

/-- What the turns make of a block and of what has been found before it. -/
inductive Reached : VersionInfo → List UInt8 → VersionInfo → List UInt8 → Prop where
  | refl (info : VersionInfo) (block : List UInt8) : Reached info block info block
  | turn {info info' after : VersionInfo} {block rest last : List UInt8} (hlong : 8 < block.length)
    (hturn : turn checks odd info block = .ok (info', some rest))
    (h : Reached info' rest after last) : Reached info block after last

/-- The blocks that are reached fit. -/
def BlocksFit (info : VersionInfo) (block : List UInt8) : Prop :=
  ∀ after last, Reached checks odd info block after last → 8 < last.length →
    BlockFits checks odd after last

end Blocks

section NoPanic

variable {checks : OverflowChecks} {odd : Bool} {info : VersionInfo} {block : List UInt8}

theorem noPanic_getUnicodeString (name : List UInt8) : NoPanic (getUnicodeString odd name) := by
  unfold getUnicodeString
  dsimp only
  split
  · exact noPanic_ok _
  · exact noPanic_fail _

theorem noPanic_valueAt {start : Nat} :
    NoPanic (valueAt odd block start) ↔ start ≤ block.length := by
  rw [valueAt, noPanic_bind, noPanic_slice]
  exact ⟨fun h => h.1.1, fun h => ⟨⟨h, le_refl _⟩, fun _ _ => noPanic_getUnicodeString _⟩⟩

theorem noPanic_addValue {name : String} :
    NoPanic (addValue odd block name info) ↔ (info.Wants name → headerLen name ≤ block.length) := by
  have hvalue {f : String → VersionInfo} :
      NoPanic (valueAt odd block (headerLen name) >>= fun value => .ok (f value)) ↔
        headerLen name ≤ block.length := by
    rw [noPanic_bind, noPanic_valueAt]
    exact and_iff_left fun _ _ => noPanic_ok _
  unfold addValue VersionInfo.Wants
  by_cases hproduct : name = "ProductVersion" ∧ info.product = none
  · rw [if_pos hproduct, hvalue, forall_prop_of_true (.inl hproduct)]
  by_cases hversion : name = "FileVersion" ∧ info.fileVer = none
  · rw [if_neg hproduct, if_pos hversion, hvalue, forall_prop_of_true (.inr (.inl hversion))]
  by_cases hdesc : name = "FileDescription" ∧ info.fileDesc = none
  · rw [if_neg hproduct, if_neg hversion, if_pos hdesc, hvalue,
      forall_prop_of_true (.inr (.inr hdesc))]
  · rw [if_neg hproduct, if_neg hversion, if_neg hdesc]
    refine iff_of_true (noPanic_ok info) fun hwants => ?_
    rcases hwants with h | h | h
    · exact absurd h hproduct
    · exact absurd h hversion
    · exact absurd h hdesc

theorem dataBytes_cases (checks : OverflowChecks) (dataType dataLen : Nat) :
    ((dataType = 1 → checks = .on → dataLen * 2 < 2 ^ 16) ∧
      ∃ bytes, dataBytes checks dataType dataLen = .ok bytes) ∨
    (¬ (dataType = 1 → checks = .on → dataLen * 2 < 2 ^ 16) ∧
      dataBytes checks dataType dataLen = panicked) := by
  unfold dataBytes
  by_cases htype : dataType = 1
  · rw [if_pos htype]
    cases checks with
    | off => exact .inl ⟨fun _ h => (nomatch h), _, rfl⟩
    | on =>
      by_cases hlt : dataLen * 2 < 2 ^ 16
      · exact .inl ⟨fun _ _ => hlt, _, if_pos hlt⟩
      · exact .inr ⟨fun h => hlt (h htype rfl), if_neg hlt⟩
  · rw [if_neg htype]
    exact .inl ⟨fun h => absurd h htype, _, rfl⟩

theorem noPanic_turn (hlong : 8 < block.length) :
    NoPanic (turn checks odd info block) ↔ BlockFits checks odd info block := by
  have hlen : readLe 2 block 2 = .ok (fromLe ((block.drop 2).take 2)) :=
    readLe_eq_ok.mpr ⟨by omega, rfl⟩
  have htype : readLe 2 block 4 = .ok (fromLe ((block.drop 4).take 2)) :=
    readLe_eq_ok.mpr ⟨by omega, rfl⟩
  have htext : slice block 6 block.length = .ok (block.drop 6) := by
    refine slice_eq_ok.mpr ⟨⟨by omega, le_refl _⟩, (List.take_of_length_le ?_).symm⟩
    rw [List.length_drop]
  unfold turn BlockFits
  rw [hlen, ok_bind, htype, ok_bind]
  obtain ⟨hfits, bytes, hbytes⟩ | ⟨hfits, hbytes⟩ := dataBytes_cases checks
    (fromLe ((block.drop 4).take 2)) (fromLe ((block.drop 2).take 2))
  · rw [hbytes, ok_bind, htext, ok_bind, and_iff_right hfits, noPanic_bind,
      and_iff_right (noPanic_getUnicodeString _)]
    refine forall_congr' fun name => imp_congr_right fun _ => ?_
    rw [← noPanic_addValue, noPanic_bind]
    refine and_iff_left fun found _ => ?_
    simp only [noPanic_ite, noPanic_ok, implies_true, and_self]
  · rw [hbytes]
    exact iff_of_false not_noPanic_panicked fun h => hfits h.1

/-- **The loop over the blocks** does not panic exactly where those that it reaches fit. By
induction on the turns: one that goes on fits, and leaves what is behind it. -/
theorem noPanic_readBlocks (info : VersionInfo) (block : List UInt8) :
    NoPanic (readBlocks checks odd info block) ↔ BlocksFit checks odd info block := by
  -- behind a block that is the last, no other is reached
  have hlast {info : VersionInfo} {block : List UInt8} (hlong : 8 < block.length)
      (hend : ∀ info' rest, turn checks odd info block ≠ .ok (info', some rest)) :
      BlocksFit checks odd info block ↔ BlockFits checks odd info block := by
    refine ⟨fun h => h _ _ (.refl _ _) hlong, fun h after last hreached _ => ?_⟩
    cases hreached with
    | refl => exact h
    | turn _ hturn _ => exact absurd hturn (hend _ _)
  induction info, block using readBlocks.induct_unfolding checks odd with
  | case1 info block hlong fault hturn =>
    have hend : ∀ info' rest, turn checks odd info block ≠ .ok (info', some rest) := by
      rw [hturn]
      intro info' rest h
      cases h
    rw [hlast hlong hend, ← noPanic_turn hlong, hturn]
    simp only [NoPanic, panicked, ne_eq, Except.error.injEq]
  | case2 info block hlong found hturn =>
    have hend : ∀ info' rest, turn checks odd info block ≠ .ok (info', some rest) := by
      rw [hturn]
      intro info' rest h
      cases h
    rw [hlast hlong hend, ← noPanic_turn hlong, hturn]
    exact iff_of_true (noPanic_ok _) (noPanic_ok _)
  | case3 info block hlong found rest hturn ih =>
    have hfits : BlockFits checks odd info block := by
      rw [← noPanic_turn hlong, hturn]
      exact noPanic_ok _
    refine ih.trans ⟨fun h after last hreached => ?_, fun h after last hreached =>
      h after last (.turn hlong hturn hreached)⟩
    cases hreached with
    | refl => exact fun _ => hfits
    | turn _ hother hreached =>
      obtain ⟨rfl, hrest⟩ := Prod.mk.inj (Except.ok.inj (hother.symm.trans hturn))
      obtain rfl := Option.some.inj hrest
      exact h after last hreached
  | case4 info block hshort =>
    refine iff_of_true (noPanic_ok info) fun after last hreached hlong => ?_
    cases hreached with
    | refl => exact absurd hlong hshort
    | turn hother => exact absurd hother hshort

end NoPanic

end OneCollect.Exporting.PeFile
