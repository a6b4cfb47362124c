import OneCollect.Ruwind.EncodedPointers
import OneCollect.Ruwind.TableBounds

/-! The header of a CIE, against the format of version 1.

A `Cie` is laid out as the format has it, with the letters of its augmentation string and their
data as items. `parseCie` comes to the end of the augmentation data exactly where the header fits
(`Cie.Fits`): the code goes over the data letter by letter, and misses the end where it misreads
the return register or the personality. -/

namespace OneCollect.Ruwind
open Theory CallFrame

/-! ## The augmentation of a CIE -/

/-- A letter of the augmentation string with its data. -/
inductive AugItem where
  | lsda (enc : UInt8)
  | personality (enc : UInt8) (pointer : Bytes)
  | encoding (enc : UInt8)
  | plain (letter : UInt8)
  deriving DecidableEq, Repr

namespace AugItem

def letter : AugItem → UInt8
  | lsda _ => 'L'.toUInt8
  | personality _ _ => 'P'.toUInt8
  | encoding _ => 'R'.toUInt8
  | plain letter => letter

def data : AugItem → Bytes
  | lsda enc => [enc]
  | personality enc pointer => enc :: pointer
  | encoding enc => [enc]
  | plain _ => []

def isPersonality : AugItem → Bool
  | personality _ _ => true
  | _ => false

/-- The encoding of addresses behind an item. -/
def encAfter (enc : UInt8) : AugItem → UInt8
  | encoding enc => enc
  | _ => enc

/-- A pointer that is left out has no bytes, and other letters have no data. -/
def WellFormed : AugItem → Prop
  | personality enc pointer =>
    (enc = DW_EH_PE_OMIT ∧ pointer = []) ∨ ∃ raw, rawOf enc pointer = some raw
  | plain letter => letter ≠ 0 ∧ letter ≠ 'L'.toUInt8 ∧ letter ≠ 'P'.toUInt8 ∧ letter ≠ 'R'.toUInt8
  | _ => True

/-- The code reads all of an item's data. -/
def Fits (cursor : Nat) : AugItem → Prop
  | personality enc pointer =>
    enc = DW_EH_PE_OMIT ∨
      ∃ raw, rawOf enc pointer = some raw ∧ PointerFits enc 0 (cursor + 1) pointer raw
  | _ => True

end AugItem

def letters (items : List AugItem) : Bytes := items.map AugItem.letter

def augData (items : List AugItem) : Bytes := items.flatMap AugItem.data

def encAfter (enc : UInt8) (items : List AugItem) : UInt8 := items.foldl AugItem.encAfter enc

def ItemsFit : (cursor : Nat) → List AugItem → Prop
  | _, [] => True
  | cursor, item :: items => item.Fits cursor ∧ ItemsFit (cursor + item.data.length) items

section Letters

variable {entry : Bytes} {cursor : Nat} {options : FrameOptions} {out : Nat × FrameOptions}

theorem augLoop_cons (a : UInt8) (aug : Bytes) (cursor : Nat) (options : FrameOptions) :
    augLoop entry (a :: aug) cursor options =
      if a = 'L'.toUInt8 then do
        let (_, cursor) ← readByte entry cursor
        augLoop entry aug cursor options
      else if a = 'P'.toUInt8 then do
        let (pEnc, cursor) ← readByte entry cursor
        let (_, cursor) ← readValue pEnc 0 entry cursor
        augLoop entry aug cursor options
      else if a = 'R'.toUInt8 then do
        let (enc, cursor) ← readByte entry cursor
        augLoop entry aug cursor { options with enc }
      else augLoop entry aug cursor options := by
  rw [augLoop]
  by_cases hl : a = 'L'.toUInt8
  · rw [if_pos hl, if_pos hl]
    cases readByte entry cursor <;> rfl
  rw [if_neg hl, if_neg hl]
  by_cases hp : a = 'P'.toUInt8
  · rw [if_pos hp, if_pos hp]
    cases readByte entry cursor with
    | error fault => rfl
    | ok read =>
      rw [ok_bind, ok_bind]
      dsimp only
      cases readValue read.1 0 entry read.2 <;> rfl
  rw [if_neg hp, if_neg hp]
  by_cases hr : a = 'R'.toUInt8
  · rw [if_pos hr, if_pos hr]
    cases readByte entry cursor <;> rfl
  · rw [if_neg hr, if_neg hr]
    rfl

/-- One turn: a letter moves the cursor over its data, and a personality over its encoding at
least. -/
theorem augLoop_turn {item : AugItem} (hitem : item.WellFormed) {aug : Bytes}
    (h : augLoop entry (item.letter :: aug) cursor options = .ok out) :
    ∃ next options', augLoop entry aug next options' = .ok out ∧
      (item.isPersonality = false → next = cursor + item.data.length) ∧ cursor ≤ next ∧
      (item.data ≠ [] → cursor < next) := by
  cases item with
  | lsda enc =>
    change augLoop entry ('L'.toUInt8 :: aug) cursor options = .ok out at h
    rw [augLoop_cons, if_pos rfl] at h
    obtain ⟨byte, -, h⟩ := readByte_bind h
    exact ⟨_, _, h, fun _ => rfl, Nat.le_succ _, fun _ => Nat.lt_succ_self _⟩
  | personality enc pointer =>
    change augLoop entry ('P'.toUInt8 :: aug) cursor options = .ok out at h
    rw [augLoop_cons, if_neg (by decide), if_pos rfl] at h
    obtain ⟨byte, -, h⟩ := readByte_bind h
    obtain ⟨⟨value, next⟩, hread, h⟩ := bind_eq_ok.mp h
    rw [readValue_eq] at hread
    have hle : cursor + 1 ≤ next := valueOperand_le (orPanic_eq_ok.mp hread)
    exact ⟨next, _, h, fun hp => (nomatch hp), by omega, fun _ => hle⟩
  | encoding enc =>
    change augLoop entry ('R'.toUInt8 :: aug) cursor options = .ok out at h
    rw [augLoop_cons, if_neg (by decide), if_neg (by decide), if_pos rfl] at h
    obtain ⟨byte, -, h⟩ := readByte_bind h
    exact ⟨_, _, h, fun _ => rfl, Nat.le_succ _, fun _ => Nat.lt_succ_self _⟩
  | plain letter =>
    obtain ⟨-, hl, hp, hr⟩ := hitem
    change augLoop entry (letter :: aug) cursor options = .ok out at h
    rw [augLoop_cons, if_neg hl, if_neg hp, if_neg hr] at h
    exact ⟨_, _, h, fun _ => rfl, Nat.le_refl _, fun hdata => absurd rfl hdata⟩

/-- Without a personality the cursor moves by as many bytes as the letters have, wherever it is. -/
theorem augLoop_plain {items : List AugItem} (hitems : ∀ item ∈ items, item.WellFormed)
    (hplain : ∀ item ∈ items, item.isPersonality = false)
    (h : augLoop entry (letters items) cursor options = .ok out) :
    out.1 = cursor + (augData items).length := by
  induction items generalizing cursor options with
  | nil =>
    cases h
    rfl
  | cons item items ih =>
    obtain ⟨hitem, hitems⟩ := List.forall_mem_cons.mp hitems
    obtain ⟨hfirst, hplain⟩ := List.forall_mem_cons.mp hplain
    obtain ⟨next, options', hrest, hnext, -⟩ := augLoop_turn hitem h
    rw [ih hitems hplain hrest, hnext hfirst, augData, augData, List.flatMap_cons,
      List.length_append, Nat.add_assoc]

/-- Each letter with data moves the cursor. -/
theorem augLoop_least {items : List AugItem} (hitems : ∀ item ∈ items, item.WellFormed)
    (h : augLoop entry (letters items) cursor options = .ok out) :
    cursor ≤ out.1 ∧ (augData items ≠ [] → cursor < out.1) := by
  induction items generalizing cursor options with
  | nil =>
    cases h
    exact ⟨Nat.le_refl _, fun hdata => absurd rfl hdata⟩
  | cons item items ih =>
    obtain ⟨hitem, hitems⟩ := List.forall_mem_cons.mp hitems
    obtain ⟨next, options', hrest, -, hle, hlt⟩ := augLoop_turn hitem h
    obtain ⟨hleast, hmore⟩ := ih hitems hrest
    refine ⟨hle.trans hleast, fun hdata => ?_⟩
    by_cases hfirst : item.data = []
    · refine lt_of_le_of_lt hle (hmore fun hnone => hdata ?_)
      have hcons : augData (item :: items) = item.data ++ augData items := List.flatMap_cons
      rw [hcons, hfirst, hnone]
      rfl
    · exact lt_of_lt_of_le (hlt hfirst) hleast

end Letters

section Items

variable {before after : Bytes} {options : FrameOptions}

theorem valueOperand_omit (base : Int) (slice : Bytes) (cursor : Nat) :
    valueOperand DW_EH_PE_OMIT base slice cursor = some (0, cursor) := by
  have hsums : OriginFits DW_EH_PE_OMIT base cursor 0 :=
    ⟨fun h => absurd h (by decide), fun h => absurd h (by decide)⟩
  change (if OriginFits DW_EH_PE_OMIT base cursor 0 then some _ else none) = _
  rw [if_pos hsums]
  rfl

/-- A turn over data that the code reads. -/
theorem augLoop_turn_fits {item : AugItem} (hitem : item.WellFormed)
    (hfits : item.Fits before.length) (aug : Bytes) :
    augLoop (before ++ item.data ++ after) (item.letter :: aug) before.length options =
      augLoop (before ++ item.data ++ after) aug (before.length + item.data.length)
        { options with enc := item.encAfter options.enc } := by
  have hbyte (enc : UInt8) (rest : Bytes) :
      readByte (before ++ enc :: rest) before.length = .ok (enc, before.length + 1) := by
    rw [readByte_eq, byteAt_append]
    rfl
  cases item with
  | lsda enc =>
    have hentry : before ++ (AugItem.lsda enc).data ++ after = before ++ enc :: after := by
      simp [AugItem.data]
    rw [hentry]
    change augLoop _ ('L'.toUInt8 :: aug) _ _ = _
    rw [augLoop_cons, if_pos rfl, hbyte, ok_bind]
    rfl
  | personality enc pointer =>
    have hentry : before ++ (AugItem.personality enc pointer).data ++ after =
        before ++ enc :: (pointer ++ after) := by
      simp [AugItem.data]
    have hpointer : ∃ value, valueOperand enc 0 (before ++ enc :: (pointer ++ after))
        (before.length + 1) = some (value, before.length + 1 + pointer.length) := by
      obtain rfl | ⟨raw, hraw, hvalue⟩ := hfits
      · obtain ⟨-, rfl⟩ | ⟨raw, hraw⟩ := hitem
        · exact ⟨0, valueOperand_omit _ _ _⟩
        · cases hraw
      · have hlen : (before ++ [enc]).length = before.length + 1 := by simp
        rw [← hlen] at hvalue
        have hread : valueOperand enc 0 (before ++ [enc] ++ pointer ++ after)
            (before ++ [enc]).length = some _ :=
          valueOperand_of_fits (formatRaw_of_rawOf hraw hvalue.format) hvalue
        rw [hlen, List.append_assoc, List.append_assoc, List.singleton_append] at hread
        exact ⟨_, hread⟩
    obtain ⟨value, hvalue⟩ := hpointer
    rw [hentry]
    change augLoop _ ('P'.toUInt8 :: aug) _ _ = _
    rw [augLoop_cons, if_neg (by decide), if_pos rfl, hbyte, ok_bind]
    dsimp only
    rw [readValue_eq, hvalue]
    have hnext : before.length + 1 + pointer.length =
        before.length + (AugItem.personality enc pointer).data.length := by
      simp [AugItem.data, Nat.add_comm, Nat.add_left_comm]
    rw [← hnext]
    rfl
  | encoding enc =>
    have hentry : before ++ (AugItem.encoding enc).data ++ after = before ++ enc :: after := by
      simp [AugItem.data]
    rw [hentry]
    change augLoop _ ('R'.toUInt8 :: aug) _ _ = _
    rw [augLoop_cons, if_neg (by decide), if_neg (by decide), if_pos rfl, hbyte, ok_bind]
    rfl
  | plain letter =>
    obtain ⟨-, hl, hp, hr⟩ := hitem
    change augLoop _ (letter :: aug) _ _ = _
    rw [augLoop_cons, if_neg hl, if_neg hp, if_neg hr]
    rfl

theorem augData_cons (item : AugItem) (items : List AugItem) :
    before ++ augData (item :: items) ++ after = before ++ item.data ++ (augData items ++ after) := by
  rw [augData, List.flatMap_cons, List.append_assoc, List.append_assoc, List.append_assoc]
  rfl

/-- Data that the code reads is read to its end. -/
theorem augLoop_of_fit {items : List AugItem} (hitems : ∀ item ∈ items, item.WellFormed)
    (hfit : ItemsFit before.length items) :
    augLoop (before ++ augData items ++ after) (letters items) before.length options =
      .ok (before.length + (augData items).length,
        { options with enc := encAfter options.enc items }) := by
  induction items generalizing before options with
  | nil => rfl
  | cons item items ih =>
    obtain ⟨hitem, hitems⟩ := List.forall_mem_cons.mp hitems
    obtain ⟨hfirst, hrest⟩ := hfit
    have hlen : (before ++ item.data).length = before.length + item.data.length :=
      List.length_append
    rw [← hlen] at hrest
    have hread := @ih _ { options with enc := item.encAfter options.enc } hitems hrest
    rw [hlen, List.append_assoc] at hread
    rw [augData_cons]
    refine (augLoop_turn_fits hitem hfirst _).trans (hread.trans ?_)
    rw [augData, augData, List.flatMap_cons, List.length_append, Nat.add_assoc]
    rfl

/-- At most one personality is given. -/
def OnePersonality (items : List AugItem) : Prop :=
  (items.filter AugItem.isPersonality).length ≤ 1

/-- Where the code cannot read the personality it does not come to the end of the data. -/
theorem augLoop_misses {items : List AugItem} (hitems : ∀ item ∈ items, item.WellFormed)
    (hone : OnePersonality items) (hfit : ¬ ItemsFit before.length items) {out : Nat × FrameOptions}
    (h : augLoop (before ++ augData items ++ after) (letters items) before.length options = .ok out) :
    out.1 ≠ before.length + (augData items).length := by
  induction items generalizing before options with
  | nil => exact absurd trivial hfit
  | cons item items ih =>
    obtain ⟨hitem, hothers⟩ := List.forall_mem_cons.mp hitems
    have hlength : (augData (item :: items)).length = item.data.length + (augData items).length :=
      List.length_append
    rw [augData_cons] at h
    by_cases hfirst : item.Fits before.length
    · have hlen : (before ++ item.data).length = before.length + item.data.length :=
        List.length_append
      have hrest : ¬ ItemsFit (before ++ item.data).length items := by
        rw [hlen]
        exact fun hrest => hfit ⟨hfirst, hrest⟩
      have htail : OnePersonality items := by
        unfold OnePersonality at hone ⊢
        rw [List.filter_cons] at hone
        split at hone
        · rw [List.length_cons] at hone
          omega
        · exact hone
      have hturn := (augLoop_turn_fits hitem hfirst (letters items)).symm.trans h
      rw [← hlen, ← List.append_assoc] at hturn
      have hout := ih hothers htail hrest hturn
      rw [hlen] at hout
      rw [hlength]
      omega
    · cases item with
      | personality enc pointer =>
        have hplain : ∀ item ∈ items, item.isPersonality = false := by
          intro other hmem
          by_contra hother
          have hmem' : other ∈ items.filter AugItem.isPersonality :=
            List.mem_filter.mpr ⟨hmem, by simpa using hother⟩
          have hpos := List.length_pos_of_mem hmem'
          have hcons : ((AugItem.personality enc pointer :: items).filter
              AugItem.isPersonality).length = (items.filter AugItem.isPersonality).length + 1 := rfl
          unfold OnePersonality at hone
          omega
        obtain ⟨henc, -⟩ | ⟨raw, hraw⟩ := hitem
        · exact absurd (Or.inl henc) hfirst
        have hentry : before ++ (AugItem.personality enc pointer).data ++ (augData items ++ after) =
            before ++ enc :: (pointer ++ (augData items ++ after)) := by
          simp [AugItem.data]
        rw [hentry] at h
        change augLoop _ ('P'.toUInt8 :: letters items) _ _ = _ at h
        rw [augLoop_cons, if_neg (by decide), if_pos rfl, readByte_eq, byteAt_append] at h
        obtain ⟨⟨_, _⟩, hbyte, h⟩ := bind_eq_ok.mp h
        cases hbyte
        obtain ⟨⟨value, next⟩, hread, h⟩ := bind_eq_ok.mp h
        rw [readValue_eq, orPanic_eq_ok] at hread
        by_cases hformat : formatOf enc = 0
        · obtain ⟨-, rfl⟩ := valueOperand_of_pointer hformat hread
          have hout := augLoop_plain hothers hplain h
          have hwide := length_of_pointer hraw hformat
          rw [hout, hlength, AugItem.data, List.length_cons]
          omega
        · have hlen : (before ++ [enc]).length = before.length + 1 := by simp
          have hsplit : before ++ enc :: (pointer ++ (augData items ++ after)) =
              before ++ [enc] ++ pointer ++ (augData items ++ after) := by simp
          rw [hsplit, ← hlen] at hread
          have hvalue := fits_of_valueOperand (formatRaw_of_rawOf hraw hformat) hformat hread
          rw [hlen] at hvalue
          exact absurd (Or.inr ⟨raw, hraw, hvalue⟩) hfirst
      | lsda enc => exact absurd trivial hfirst
      | encoding enc => exact absurd trivial hfirst
      | plain letter => exact absurd trivial hfirst

end Items

/-! ## Entries

A CIE without an augmentation string has no augmentation data; else the string starts with `z`, and
the length of the data comes before them. -/

structure CieFields where
  length : Bytes
  augmentation : Option (List AugItem)
  codeAlign : Bytes
  code : Nat
  dataAlign : Bytes
  data : Int
  retReg : UInt8
  augLen : Bytes
  rules : Bytes

namespace CieFields

def aug (c : CieFields) : Bytes :=
  match c.augmentation with
  | none => []
  | some items => letters (.plain 'z'.toUInt8 :: items)

def augPart (c : CieFields) : Bytes :=
  match c.augmentation with
  | none => []
  | some items => c.augLen ++ augData items

/-- Without an encoding the addresses are plain pointers of eight bytes. -/
def enc (c : CieFields) : UInt8 :=
  encAfter (DW_EH_PE_UDATA8 ||| DW_EH_PE_ABSPTR) (c.augmentation.getD [])

/-- Up to the zero byte of the augmentation string; a CIE has the number 0, and the version 1. -/
def head (c : CieFields) : Bytes := c.length ++ toLe 4 0 ++ 1 :: (c.aug ++ [0])

def toRetReg (c : CieFields) : Bytes := c.head ++ c.codeAlign ++ c.dataAlign

def bytes (c : CieFields) : Bytes := c.toRetReg ++ c.retReg :: (c.augPart ++ c.rules)

/-- Behind the augmentation data. -/
def rulesAt (c : CieFields) : Nat := c.toRetReg.length + 1 + c.augPart.length

structure WellFormed (c : CieFields) : Prop where
  lengthWidth : c.length.length = 4
  lengthIs : fromLe c.length + 4 = c.bytes.length
  codeIs : uleb c.codeAlign = some (c.code, c.codeAlign.length)
  dataIs : sleb c.dataAlign = some (c.data, c.dataAlign.length)
  items : ∀ items, c.augmentation = some items →
    (∀ item ∈ items, item.WellFormed) ∧ OnePersonality items ∧
      uleb c.augLen = some ((augData items).length, c.augLen.length)

end CieFields

structure Cie extends CieFields where
  wellFormed : toCieFields.WellFormed

theorem refuse_eq_ok {α β : Type} {c : Prop} [Decidable c] {text : String} {f : α → Exec β}
    {x : Exec β} {out : β} : (if c then fail text >>= f else x) = .ok out ↔ ¬ c ∧ x = .ok out := by
  by_cases hc : c
  · rw [if_pos hc]
    exact iff_of_false (fun h => nomatch h) fun h => h.1 hc
  · rw [if_neg hc]
    exact (and_iff_right hc).symm

namespace Cie

variable (c : Cie)

/-- The string itself is a list of items, of which the first has no data. -/
theorem letters_wellFormed {items : List AugItem} (haug : c.augmentation = some items) :
    ∀ item ∈ .plain 'z'.toUInt8 :: items, item.WellFormed :=
  List.forall_mem_cons.mpr
    ⟨⟨by decide, by decide, by decide, by decide⟩, (c.wellFormed.items items haug).1⟩

theorem aug_cases : c.aug = [] ∨ ∃ letters, c.aug = 'z'.toUInt8 :: letters := by
  unfold CieFields.aug
  cases c.augmentation with
  | none => exact Or.inl rfl
  | some items => exact Or.inr ⟨letters items, rfl⟩

theorem zero_not_mem_aug : 0 ∉ c.aug := by
  have hnamed {item : AugItem} (hitem : item.WellFormed) : item.letter ≠ 0 := by
    cases item with
    | plain letter => exact hitem.1
    | lsda enc => exact (by decide : 'L'.toUInt8 ≠ 0)
    | personality enc pointer => exact (by decide : 'P'.toUInt8 ≠ 0)
    | encoding enc => exact (by decide : 'R'.toUInt8 ≠ 0)
  unfold CieFields.aug
  cases haug : c.augmentation with
  | none => exact List.not_mem_nil
  | some items =>
    intro hmem
    obtain ⟨item, hmem, hletter⟩ := List.mem_map.mp hmem
    exact hnamed (c.letters_wellFormed haug item hmem) hletter

theorem bytes_length_lt : c.bytes.length < 2 ^ 33 := by
  have hlt := fromLe_lt c.length
  rw [c.wellFormed.lengthWidth] at hlt
  have hlen := c.wellFormed.lengthIs
  omega

theorem take_bytes : c.bytes.take 4 = c.length := by
  rw [← c.wellFormed.lengthWidth]
  simp [CieFields.bytes, CieFields.toRetReg, CieFields.head]

theorem length_head : c.head.length = 10 + c.aug.length := by
  have hlength := c.wellFormed.lengthWidth
  simp only [CieFields.head, List.length_append, List.length_cons, List.length_nil, length_toLe,
    hlength]
  omega

/-- The header of a CIE up to its augmentation string is read. -/
theorem parseCie_eq_ok {out : Nat × FrameOptions × Nat} :
    FrameOffset.parseCie c.bytes {} = .ok out ↔
      ∃ code next₁, ulebOperand c.bytes c.head.length = some (code, next₁) ∧
      ∃ data next₂, slebOperand c.bytes next₁ = some (data, next₂) ∧
      ∃ ret next₃, ulebOperand c.bytes next₂ = some (ret, next₃) ∧
        FrameOffset.Accepted code data ret ∧ c.aug ≠ [] ∧
        ∃ len next₄, ulebOperand c.bytes next₃ = some (len, next₄) ∧
        ∃ read, augLoop c.bytes c.aug next₄
            { codeAlign := signed 16 (code % 2 ^ 16).toNat, dataAlign := data
              hasAugData := true } = .ok read ∧
          (read.1, read.2, (ret % 256).toNat) = out := by
  have hlength := c.wellFormed.lengthWidth
  have hhead := c.length_head
  obtain ⟨rest, hbytes⟩ : ∃ rest, c.bytes = c.length ++ toLe 4 0 ++ 1 :: (c.aug ++ 0 :: rest) :=
    ⟨c.codeAlign ++ (c.dataAlign ++ c.retReg :: (c.augPart ++ c.rules)), by
      simp [CieFields.bytes, CieFields.toRetReg, CieFields.head]⟩
  have hlen : ¬ c.bytes.length < 8 := by
    simp only [hbytes, List.length_append, length_toLe, hlength]
    omega
  have height : (c.length ++ toLe 4 0).length = 8 := by
    rw [List.length_append, hlength, length_toLe]
  have hid : readLe 4 c.bytes 4 = .ok 0 := by
    refine readLe_eq_ok.mpr ⟨by omega, ?_⟩
    have hdrop : c.bytes.drop c.length.length = toLe 4 0 ++ 1 :: (c.aug ++ 0 :: rest) := by
      rw [hbytes, List.append_assoc, List.drop_left]
    rw [hlength] at hdrop
    rw [hdrop]
    rfl
  have hversion : readByte c.bytes 8 = .ok (1, 9) := by
    have hread : byteAt c.bytes (c.length ++ toLe 4 0).length = some (1, 8 + 1) := by
      rw [hbytes, byteAt_append, height]
    rw [height] at hread
    rw [readByte_eq, hread]
    rfl
  have hdrop : c.bytes.drop 9 = c.aug ++ 0 :: rest := by
    have hdrop : c.bytes.drop (c.length ++ toLe 4 0).length = 1 :: (c.aug ++ 0 :: rest) := by
      rw [hbytes, List.drop_left]
    rw [height] at hdrop
    rw [show (9 : Nat) = 8 + 1 from rfl, ← List.drop_drop, hdrop]
    rfl
  have hstring : readString c.bytes 9 = .ok (c.aug.length, c.head.length) := by
    have hfind : (c.aug ++ 0 :: rest).findIdx? (· == 0) = some c.aug.length := by
      rw [List.findIdx?_append, List.findIdx?_eq_none_iff.mpr]
      · rw [List.findIdx?_cons]
        simp
      · intro byte hmem
        exact beq_false_of_ne fun hzero => c.zero_not_mem_aug (hzero ▸ hmem)
    rw [readString_eq, stringOperand, hdrop, hfind, hhead]
    have hnext : 9 + c.aug.length + 1 = 10 + c.aug.length := by omega
    rw [← hnext]
    rfl
  have haug : slice c.bytes 9 (9 + c.aug.length) = .ok c.aug := by
    refine slice_eq_ok.mpr ⟨⟨by omega, ?_⟩, ?_⟩
    · simp only [hbytes, List.length_append, List.length_cons, length_toLe, hlength]
      omega
    · rw [Nat.add_sub_cancel_left, hdrop, List.take_left]
  unfold FrameOffset.parseCie
  simp only [if_neg hlen, hid, hversion, hstring, haug, ok_bind, ne_eq, not_true_eq_false, if_false,
    readUleb_eq, readSleb_eq, bind_eq_ok, orPanic_eq_ok, Prod.exists, refuse_eq_ok, getAt_eq_ok]
  refine exists_congr fun code => exists_congr fun next₁ => and_congr_right fun _ =>
    exists_congr fun data => exists_congr fun next₂ => and_congr_right fun _ =>
    exists_congr fun ret => exists_congr fun next₃ => and_congr_right fun _ =>
    and_congr_right fun _ => ?_
  obtain hempty | ⟨letters, hz⟩ := c.aug_cases
  · exact iff_of_false (fun ⟨_, hfirst, _⟩ => by simp [hempty] at hfirst) fun h => h.1 hempty
  · simp only [hz, List.getElem?_cons_zero, Option.some.injEq, exists_eq_left', ↓reduceIte,
      bind_eq_ok, orPanic_eq_ok, Prod.exists, Except.ok.injEq, List.cons_ne_nil, not_false_eq_true,
      true_and]

/-! ### Where the header of a CIE is read -/

/-- The start of the augmentation data. -/
def dataAt : Nat := c.toRetReg.length + 1 + c.augLen.length

theorem length_toAugData : (c.toRetReg ++ c.retReg :: c.augLen).length = c.dataAt := by
  rw [List.length_append, List.length_cons, dataAt]
  omega

/-- What the header of a CIE has to be for the code to come to the end of it. -/
structure Fits : Prop where
  augmented : c.augmentation.isSome
  code : c.codeAlign.length ≤ 10
  data : SlebFits c.dataAlign c.data
  accepted : FrameOffset.Accepted (wrap c.code) (wrap c.data) c.retReg.toNat
  retReg : c.retReg.toNat < 128
  augLen : c.augLen.length ≤ 10
  items : ItemsFit c.dataAt (c.augmentation.getD [])

theorem codeOperand_eq : ulebOperand c.bytes c.head.length =
    if c.codeAlign.length ≤ 10 then some (wrap c.code, (c.head ++ c.codeAlign).length) else none := by
  have hbytes : c.bytes =
      c.head ++ c.codeAlign ++ (c.dataAlign ++ c.retReg :: (c.augPart ++ c.rules)) := by
    rw [CieFields.bytes, CieFields.toRetReg, List.append_assoc _ c.dataAlign]
  rw [hbytes, ulebOperand_append c.wellFormed.codeIs, List.length_append]

theorem dataOperand_eq : slebOperand c.bytes (c.head ++ c.codeAlign).length =
    if SlebFits c.dataAlign c.data then some (wrap c.data, c.toRetReg.length) else none := by
  rw [CieFields.bytes, CieFields.toRetReg, slebOperand_append c.wellFormed.dataIs,
    @List.length_append _ (c.head ++ c.codeAlign)]

theorem retOperand_of_lt (hsmall : c.retReg.toNat < 128) :
    ulebOperand c.bytes c.toRetReg.length = some ((c.retReg.toNat : Int), c.toRetReg.length + 1) := by
  have hread : uleb [c.retReg] = some (c.retReg.toNat, [c.retReg].length) := by
    rw [uleb, if_pos hsmall]
    rfl
  have hbytes : c.bytes = c.toRetReg ++ [c.retReg] ++ (c.augPart ++ c.rules) := by
    rw [CieFields.bytes, List.append_assoc]
    rfl
  rw [hbytes, ulebOperand_append hread, if_pos (by simp), wrap_of_inI64 (by unfold InI64; omega)]
  rfl

section Augmentation

variable {c} {items : List AugItem} (haug : c.augmentation = some items)

include haug

theorem augPart_eq : c.augPart = c.augLen ++ augData items := by
  rw [CieFields.augPart, haug]

theorem rulesAt_eq : c.rulesAt = c.dataAt + (augData items).length := by
  rw [CieFields.rulesAt, augPart_eq haug, List.length_append, dataAt]
  omega

theorem augLenOperand_eq : ulebOperand c.bytes (c.toRetReg.length + 1) =
    if c.augLen.length ≤ 10 then some (wrap (augData items).length, c.dataAt) else none := by
  obtain ⟨-, -, hread⟩ := c.wellFormed.items items haug
  have hbytes : c.bytes = c.toRetReg ++ [c.retReg] ++ c.augLen ++ (augData items ++ c.rules) := by
    simp [CieFields.bytes, augPart_eq haug]
  have hlen : (c.toRetReg ++ [c.retReg]).length = c.toRetReg.length + 1 := List.length_append
  rw [hbytes, ← hlen, ulebOperand_append hread, hlen]
  rfl

/-- A return register from 128 on is read together with the length of the data. -/
theorem retOperand_of_ge (hlarge : 128 ≤ c.retReg.toNat) {ret : Int} {next : Nat}
    (h : ulebOperand c.bytes c.toRetReg.length = some (ret, next)) :
    next = c.dataAt ∧ 128 * ((augData items).length : Int) ≤ ret := by
  obtain ⟨-, -, hlength⟩ := c.wellFormed.items items haug
  have hread : uleb (c.retReg :: c.augLen) =
      some (c.retReg.toNat % 128 + 128 * (augData items).length, (c.retReg :: c.augLen).length) := by
    rw [uleb, if_neg (Nat.not_lt.mpr hlarge), hlength]
    rfl
  have hbytes : c.bytes = c.toRetReg ++ (c.retReg :: c.augLen) ++ (augData items ++ c.rules) := by
    simp [CieFields.bytes, augPart_eq haug]
  have hle : (augData items).length ≤ c.bytes.length := by
    rw [hbytes]
    simp only [List.length_append]
    omega
  have hlt := c.bytes_length_lt
  rw [hbytes, ulebOperand_append hread] at h
  split at h
  · cases h
    rw [wrap_of_inI64 (by unfold InI64; omega), dataAt, List.length_cons]
    omega
  · cases h

theorem bytes_eq_items :
    c.bytes = (c.toRetReg ++ c.retReg :: c.augLen) ++ augData items ++ c.rules := by
  simp [CieFields.bytes, augPart_eq haug]

theorem aug_eq : c.aug = letters (.plain 'z'.toUInt8 :: items) := by
  rw [CieFields.aug, haug]

theorem augLoop_of_items (hfit : ItemsFit c.dataAt items) (options : FrameOptions) :
    augLoop c.bytes c.aug c.dataAt options =
      .ok (c.rulesAt, { options with enc := encAfter options.enc items }) := by
  rw [bytes_eq_items haug, aug_eq haug, rulesAt_eq haug, ← length_toAugData]
  rw [← length_toAugData] at hfit
  exact @augLoop_of_fit _ c.rules options (.plain 'z'.toUInt8 :: items) (c.letters_wellFormed haug)
    ⟨trivial, hfit⟩

theorem augLoop_of_items_not_fit (hfit : ¬ ItemsFit c.dataAt items) {options : FrameOptions}
    {out : Nat × FrameOptions} (h : augLoop c.bytes c.aug c.dataAt options = .ok out) :
    out.1 ≠ c.rulesAt := by
  rw [bytes_eq_items haug, aug_eq haug, ← length_toAugData] at h
  rw [rulesAt_eq haug, ← length_toAugData]
  rw [← length_toAugData] at hfit
  exact augLoop_misses (c.letters_wellFormed haug) (c.wellFormed.items items haug).2.1
    (fun hz => hfit hz.2) h

/-- A data length that is read too late leaves the data behind. -/
theorem rulesAt_lt_of_augLoop {options : FrameOptions} {out : Nat × FrameOptions} {cursor : Nat}
    (hcursor : c.dataAt < cursor) (hshort : (augData items).length ≤ 1)
    (h : augLoop c.bytes c.aug cursor options = .ok out) : c.rulesAt < out.1 := by
  rw [aug_eq haug] at h
  obtain ⟨hle, hlt⟩ := augLoop_least (c.letters_wellFormed haug) h
  rw [rulesAt_eq haug]
  by_cases hdata : augData items = []
  · rw [hdata, List.length_nil]
    omega
  · have := hlt hdata
    omega

end Augmentation

/-- A header that fits is read to its end. -/
theorem parseCie_of_fits (h : c.Fits) :
    ∃ options retReg, FrameOffset.parseCie c.bytes {} = .ok (c.rulesAt, options, retReg) ∧
      options.enc = c.enc ∧ options.hasAugData = true := by
  obtain ⟨items, haug⟩ := Option.isSome_iff_exists.mp h.augmented
  have hcode := c.codeOperand_eq.trans (if_pos h.code)
  have hdata := c.dataOperand_eq.trans (if_pos h.data)
  have hsize := (augLenOperand_eq haug).trans (if_pos h.augLen)
  have hitems := h.items
  rw [haug] at hitems
  have hloop := augLoop_of_items haug hitems
  have hne : c.aug ≠ [] := by
    rw [aug_eq haug]
    exact List.cons_ne_nil _ _
  refine ⟨_, _, c.parseCie_eq_ok.mpr ⟨_, _, hcode, _, _, hdata, _, _, c.retOperand_of_lt h.retReg,
    h.accepted, hne, _, _, hsize, _, hloop _, rfl⟩, ?_, rfl⟩
  rw [CieFields.enc, haug]
  rfl

/-- A header that is read to its end fits. -/
theorem fits_of_parseCie {options : FrameOptions} {retReg : Nat}
    (h : FrameOffset.parseCie c.bytes {} = .ok (c.rulesAt, options, retReg)) : c.Fits := by
  obtain ⟨code, next₁, hcode, data, next₂, hdata, ret, next₃, hret, haccepted, hne, len, next₄, hsize,
    read, hloop, hout⟩ := c.parseCie_eq_ok.mp h
  have hend : read.1 = c.rulesAt := congrArg Prod.fst hout
  obtain ⟨items, haug⟩ : ∃ items, c.augmentation = some items := by
    cases haug : c.augmentation with
    | none => exact absurd (by rw [CieFields.aug, haug]) hne
    | some items => exact ⟨items, rfl⟩
  rw [codeOperand_eq] at hcode
  split at hcode
  case isFalse => cases hcode
  next hcodeFits =>
  cases hcode
  rw [dataOperand_eq] at hdata
  split at hdata
  case isFalse => cases hdata
  next hdataFits =>
  cases hdata
  by_cases hsmall : c.retReg.toNat < 128
  · rw [retOperand_of_lt c hsmall] at hret
    cases hret
    rw [augLenOperand_eq haug] at hsize
    split at hsize
    case isFalse => cases hsize
    next hsizeFits =>
    cases hsize
    have hitems : ItemsFit c.dataAt items := by
      by_contra hfit
      exact augLoop_of_items_not_fit haug hfit hloop hend
    exact
      { augmented := by rw [haug]; rfl
        code := hcodeFits
        data := hdataFits
        accepted := haccepted
        retReg := hsmall
        augLen := hsizeFits
        items := by rwa [haug] }
  · obtain ⟨rfl, hdata⟩ := retOperand_of_ge haug (Nat.not_lt.mp hsmall) hret
    have hle : ret ≤ 255 := by
      unfold FrameOffset.Accepted at haccepted
      omega
    have hnext := ulebOperand_lt hsize
    have hlt := rulesAt_lt_of_augLoop haug hnext (by omega) hloop
    omega

end Cie

end OneCollect.Ruwind
