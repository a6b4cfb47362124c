import OneCollect.Dotnet.Metadata

/-! The extension of an event and the metadata in it, against what is decoded of them
(`nettrace.rs`, `parse_event_extension_v1` and `MetaParserV5`). An extension is a row of blocks,
and the labels that are parsed are the first three of the longest row that it starts with; the
metadata of an event is read back part by part. Both come from any process, so the functions are
here again with each index and each slice that could be out of range. -/

namespace OneCollect.Dotnet
open Theory FieldsParserV5

/-! ## Every index and slice -/

namespace Sliced

/-- `from_le_bytes` of a slice that has to have as many bytes. -/
def fromLeBytes (width : Nat) (bytes : List UInt8) : Exec Nat :=
  if bytes.length = width then .ok (fromLe bytes) else panicked

/-- `chunks_exact(2)`. -/
def chunksExact : List UInt8 → List (List UInt8)
  | a :: b :: rest => [a, b] :: chunksExact rest
  | _ => []

/-- The loop over the labels, with the number of them that may still come. -/
def parseLabels : Nat → List UInt8 → Exec (List (UInt8 × List UInt8))
  | 0, _ => .ok []
  | left + 1, extension =>
    if 1 < extension.length then do
      let label ← getAt extension 0
      let extension ← slice extension 1 extension.length
      if label = labelMeta then
        if extension.length < 4 then .ok []
        else
          let word ← slice extension 0 4
          let len ← fromLeBytes 4 word
          let extension ← slice extension 4 extension.length
          if extension.length < len then .ok []
          else
            let bytes ← slice extension 0 len
            let extension ← slice extension len extension.length
            let labels ← parseLabels left extension
            .ok ((labelMeta, bytes) :: labels)
      else if label = labelActivity ∨ label = labelRelatedActivity then
        if extension.length < 16 then .ok []
        else
          let bytes ← slice extension 0 16
          let extension ← slice extension 16 extension.length
          let labels ← parseLabels left extension
          .ok ((label, bytes) :: labels)
      else .ok []
    else .ok []

def parseEventExtensionV1 (bytes : List UInt8) : Exec (List (UInt8 × List UInt8)) :=
  parseLabels 3 bytes

/-- The loop of `read_string_len`. -/
def stringLen : List (List UInt8) → Exec Nat
  | [] => .ok 0
  | chunk :: chunks => do
    let a ← getAt chunk 0
    let isNull ← if a = 0 then do
        let b ← getAt chunk 1
        .ok (decide (b = 0))
      else .ok false
    if isNull then .ok 2
    else
      let len ← stringLen chunks
      .ok (len + 2)

def readStringLen (bytes : List UInt8) : Exec Nat := stringLen (chunksExact bytes)

def advance (bytes : List UInt8) (len : Nat) : Exec (List UInt8 × List UInt8) :=
  if bytes.length < len then .ok ([], [])
  else do
    let front ← slice bytes 0 len
    let back ← slice bytes len bytes.length
    .ok (front, back)

def parse (bytes : List UInt8) : Exec MetaParserV5 := do
  let len ← readStringLen bytes
  let (providerName, buffer) ← advance bytes len
  let (eventId, buffer) ← advance buffer 4
  let len ← readStringLen buffer
  let (eventName, buffer) ← advance buffer len
  let (keywords, buffer) ← advance buffer 8
  let (version, buffer) ← advance buffer 4
  let (level, fields) ← advance buffer 4
  .ok ⟨providerName, eventId, eventName, keywords, version, level, fields⟩

/-- `read_int` and `read_long`, by their width. -/
def readWord (width : Nat) (bytes : List UInt8) : Exec (Option Nat) :=
  if bytes.length < width then .ok none
  else do
    let word ← slice bytes 0 width
    let n ← fromLeBytes width word
    .ok (some n)

/-- The loop of `push_unicode_string`. -/
def unicodeString : List (List UInt8) → Exec (List Char)
  | [] => .ok []
  | chunk :: chunks => do
    let unit ← fromLeBytes 2 chunk
    if unit = 0 then .ok []
    else
      let text ← unicodeString chunks
      .ok (unitChar unit :: text)

def pushUnicodeString (bytes : List UInt8) : Exec (List Char) := unicodeString (chunksExact bytes)

def providerName (parser : MetaParserV5) : Exec (List Char) :=
  pushUnicodeString parser.providerName

def eventId (parser : MetaParserV5) : Exec (Option Nat) := readWord 4 parser.eventId

def eventName (parser : MetaParserV5) : Exec (List Char) := pushUnicodeString parser.eventName

def keywords (parser : MetaParserV5) : Exec (Option Nat) := readWord 8 parser.keywords

def version (parser : MetaParserV5) : Exec (Option Nat) := readWord 4 parser.version

def level (parser : MetaParserV5) : Exec (Option Nat) := readWord 4 parser.level

/-! ### None is out of range -/

theorem slice_front {bytes : List UInt8} {n : Nat} (h : n ≤ bytes.length) :
    slice bytes 0 n = .ok (bytes.take n) :=
  slice_eq_ok.mpr ⟨⟨Nat.zero_le n, h⟩, rfl⟩

theorem slice_back {bytes : List UInt8} {n : Nat} (h : n ≤ bytes.length) :
    slice bytes n bytes.length = .ok (bytes.drop n) := by
  refine slice_eq_ok.mpr ⟨⟨h, le_refl _⟩, ?_⟩
  rw [List.take_of_length_le (by rw [List.length_drop])]

theorem fromLeBytes_take {bytes : List UInt8} {width : Nat} (h : width ≤ bytes.length) :
    fromLeBytes width (bytes.take width) = .ok (fromLe (bytes.take width)) :=
  if_pos (by rw [List.length_take, Nat.min_eq_left h])

theorem parseLabels_eq (left : Nat) (extension : List UInt8) :
    parseLabels left extension = .ok (Dotnet.parseLabels left extension) := by
  induction left generalizing extension with
  | zero => rfl
  | succ left ih =>
    rw [parseLabels]
    rcases extension with _ | ⟨label, extension⟩
    · rfl
    rw [Dotnet.parseLabels]
    by_cases hone : extension = []
    · rw [hone]
      rfl
    have hlong : 1 < (label :: extension).length := by
      have := List.length_pos_iff.mpr hone
      rw [List.length_cons]
      omega
    have hlabel : getAt (label :: extension) 0 = .ok label := rfl
    have hnot : ¬ extension.isEmpty := by simpa using hone
    rw [if_pos hlong, hlabel, ok_bind, slice_back (by rw [List.length_cons]; omega), ok_bind,
      List.drop_one, List.tail_cons, if_neg hnot]
    by_cases hmeta : label = labelMeta
    · rw [if_pos hmeta, if_pos hmeta]
      by_cases hshort : extension.length < 4
      · rw [if_pos hshort, if_pos hshort]
      have hword : 4 ≤ extension.length := Nat.not_lt.mp hshort
      rw [if_neg hshort, if_neg hshort, slice_front hword, ok_bind, fromLeBytes_take hword,
        ok_bind, slice_back hword, ok_bind]
      dsimp only
      split
      · rfl
      · rename_i hlen
        rw [slice_front (Nat.not_lt.mp hlen), ok_bind, slice_back (Nat.not_lt.mp hlen), ok_bind,
          ih, ok_bind, hmeta]
    · rw [if_neg hmeta, if_neg hmeta]
      split
      · split
        · rfl
        · rename_i hlen
          rw [slice_front (Nat.not_lt.mp hlen), ok_bind, slice_back (Nat.not_lt.mp hlen), ok_bind,
            ih, ok_bind]
      · rfl

theorem parseEventExtensionV1_eq (bytes : List UInt8) :
    parseEventExtensionV1 bytes = .ok (Dotnet.parseEventExtensionV1 bytes) :=
  parseLabels_eq 3 bytes

theorem readStringLen_eq (bytes : List UInt8) :
    readStringLen bytes = .ok (MetaParserV5.readStringLen bytes) := by
  rw [readStringLen]
  fun_induction MetaParserV5.readStringLen bytes with
  | case1 a b rest hnull =>
    rw [chunksExact, stringLen]
    simp [getAt, hnull]
  | case2 a b rest hnull ih =>
    rw [chunksExact, stringLen, ih]
    by_cases ha : a = 0
    · have hb : b ≠ 0 := fun hb => hnull ⟨ha, hb⟩
      simp [getAt, ha, hb]
    · simp [getAt, ha]
  | case3 bytes hshort =>
    obtain rfl | ⟨a, rfl⟩ := nil_or_singleton hshort
    · rfl
    · rfl

theorem advance_eq (bytes : List UInt8) (len : Nat) :
    advance bytes len = .ok (MetaParserV5.advance bytes len) := by
  unfold advance MetaParserV5.advance
  split
  · rfl
  · rename_i hlen
    rw [slice_front (Nat.not_lt.mp hlen), ok_bind, slice_back (Nat.not_lt.mp hlen)]
    rfl

theorem parse_eq (bytes : List UInt8) : parse bytes = .ok (MetaParserV5.parse bytes) := by
  simp only [parse, MetaParserV5.parse, readStringLen_eq, advance_eq, ok_bind]

theorem readWord_eq (width : Nat) (bytes : List UInt8) :
    readWord width bytes =
      .ok (if bytes.length < width then none else some (fromLe (bytes.take width))) := by
  unfold readWord
  split
  · rfl
  · rename_i hlen
    rw [slice_front (Nat.not_lt.mp hlen), ok_bind, fromLeBytes_take (Nat.not_lt.mp hlen), ok_bind]

end Sliced

/-! ## Blocks of an extension -/

/-- A label with its data, of which the label says how much there is. -/
structure Block where
  label : UInt8
  data : List UInt8
  fits : (label = labelMeta ∧ data.length < 2 ^ 32) ∨
    ((label = labelActivity ∨ label = labelRelatedActivity) ∧ data.length = 16)

namespace Block

/-- The bytes of a block; metadata has its length in front. -/
def bytes (block : Block) : List UInt8 :=
  block.label :: ((if block.label = labelMeta then toLe 4 block.data.length else []) ++ block.data)

/-- The call of the output. -/
def output (block : Block) : UInt8 × List UInt8 := (block.label, block.data)

theorem output_inj {a b : Block} (h : a.output = b.output) : a = b := by
  cases a
  cases b
  simp only [output, Prod.mk.injEq] at h
  obtain ⟨rfl, rfl⟩ := h
  rfl

theorem ne_labelMeta {label : UInt8} (h : label = labelActivity ∨ label = labelRelatedActivity) :
    label ≠ labelMeta := by
  rcases h with rfl | rfl <;> decide

/-- A block in front is the next label. -/
theorem parseLabels_bytes (left : Nat) (block : Block) (rest : List UInt8) :
    parseLabels (left + 1) (block.bytes ++ rest) = block.output :: parseLabels left rest := by
  obtain ⟨label, data, ⟨rfl, hlen⟩ | ⟨hlabel, hlen⟩⟩ := block
  · have hfront : toLe 4 data.length ++ data ++ rest = toLe 4 data.length ++ (data ++ rest) :=
      List.append_assoc _ _ _
    have hword : (toLe 4 data.length).length = 4 := length_toLe 4 _
    have hvalue : fromLe (toLe 4 data.length) = data.length := fromLe_toLe_of_lt hlen
    rw [bytes, if_pos rfl, List.cons_append, hfront, parseLabels,
      if_neg (by simp [← List.length_eq_zero_iff]), if_pos rfl, if_neg (by simp)]
    dsimp only
    rw [List.take_left' hword, List.drop_left' hword, hvalue, if_neg (by simp), List.take_left,
      List.drop_left, output]
  · rw [bytes, if_neg (ne_labelMeta hlabel), List.nil_append, List.cons_append, parseLabels,
      if_neg (by simp [← List.length_eq_zero_iff, hlen]), if_neg (ne_labelMeta hlabel),
      if_pos hlabel, if_neg (by simp [hlen]), List.take_left' hlen, List.drop_left' hlen, output]

/-- Without a block in front there is no label. -/
theorem parseLabels_eq_nil {extension : List UInt8}
    (h : ∀ block rest, extension ≠ bytes block ++ rest) (left : Nat) :
    parseLabels left extension = [] := by
  fun_cases parseLabels left extension with
  | case1 | case2 | case3 | case4 | case5 | case7 | case9 => rfl
  | case6 left extension hempty hshort len extension' hlen =>
    have hword : (extension.take 4).length = 4 := List.length_take_of_le (Nat.not_lt.mp hshort)
    have hdata : (extension'.take len).length = len := List.length_take_of_le (Nat.not_lt.mp hlen)
    have hlt : len < 2 ^ 32 := by
      have := fromLe_lt (extension.take 4)
      rwa [hword] at this
    have hbytes : toLe 4 len = extension.take 4 := toLe_fromLe hword
    refine absurd ?_ (h ⟨labelMeta, extension'.take len, .inl ⟨rfl, hdata.symm ▸ hlt⟩⟩
      (extension'.drop len))
    simp only [bytes, if_pos, hdata, hbytes]
    rw [List.cons_append, List.append_assoc, List.take_append_drop, List.take_append_drop]
  | case8 left label extension hempty hmeta hlabel hlen =>
    have hdata : (extension.take 16).length = 16 := List.length_take_of_le (Nat.not_lt.mp hlen)
    refine absurd ?_ (h ⟨label, extension.take 16, .inr ⟨hlabel, hdata⟩⟩ (extension.drop 16))
    rw [bytes, if_neg hmeta, List.nil_append, List.cons_append, List.take_append_drop]

theorem codewords_bytes : Codewords bytes where
  nonempty block := List.cons_ne_nil _ _
  determined {a b xs ys} h := by
    have hlabels := congrArg (parseLabels 1) h
    rw [parseLabels_bytes, parseLabels_bytes] at hlabels
    exact output_inj (List.cons.inj hlabels).1

/-- The labels are the first blocks of the longest row in front. -/
theorem parseLabels_longestRow (extension : List UInt8) :
    ∃ blocks, LongestRow bytes extension blocks ∧
      ∀ left, parseLabels left extension = (blocks.take left).map output := by
  refine codewords_bytes.exists_longestRow
    (motive := fun extension blocks =>
      ∀ left, parseLabels left extension = (blocks.take left).map output) ?_ ?_ extension
  · intro extension hnone left
    rw [parseLabels_eq_nil hnone, List.take_nil, List.map_nil]
  · intro block extension blocks ih left
    cases left with
    | zero => rfl
    | succ left => rw [parseLabels_bytes, ih, List.take_succ_cons, List.map_cons]

end Block

/-! ## Metadata of an event -/

/-- The text of bytes: their units up to a null, each on its own. -/
def textOf (bytes : List UInt8) : List Char :=
  ((codeUnits bytes).takeWhile (· ≠ 0)).map unitChar

/-- What the metadata of an event says. -/
structure EventMetadata where
  providerName : Name
  eventId : UInt32
  eventName : Name
  keywords : UInt64
  version : UInt32
  level : UInt32
  fields : List UInt8

def EventMetadata.bytes (metadata : EventMetadata) : List UInt8 :=
  metadata.providerName.bytes ++ (toLe 4 metadata.eventId.toNat ++ (metadata.eventName.bytes ++
    (toLe 8 metadata.keywords.toNat ++ (toLe 4 metadata.version.toNat ++
      (toLe 4 metadata.level.toNat ++ metadata.fields)))))

theorem textOf_bytes (name : Name) : textOf name.bytes = name.chars := by
  have hunits : ∀ unit ∈ name.chars.map Char.toNat, unit < 2 ^ 16 ∧ unit ≠ 0 :=
    fun unit => name.unit_bounds
  have hnull : codeUnits [0, 0] = [0] := rfl
  rw [textOf, Name.bytes, name.units_eq, codeUnits_unitBytes fun unit h => (hunits unit h).1, hnull,
    List.takeWhile_append_of_pos fun unit h => decide_eq_true (hunits unit h).2,
    List.takeWhile_cons_of_neg (by decide), List.append_nil, map_unitChar]

theorem readStringLen_unit {unit : Nat} (hlt : unit < 2 ^ 16) (hne : unit ≠ 0) (rest : List UInt8) :
    MetaParserV5.readStringLen (toLe 2 unit ++ rest) = MetaParserV5.readStringLen rest + 2 := by
  have hvalue : fromLe (toLe 2 unit) = unit := fromLe_toLe_of_lt hlt
  have hpair := not_congr (fromLe_pair (UInt8.ofNat unit) (UInt8.ofNat (unit / 256)))
  exact if_neg (hpair.mp fun h => hne (hvalue.symm.trans h))

theorem readStringLen_bytes (name : Name) (rest : List UInt8) :
    MetaParserV5.readStringLen (name.bytes ++ rest) = name.bytes.length := by
  have hunits : ∀ unit ∈ name.chars.map Char.toNat, unit < 2 ^ 16 ∧ unit ≠ 0 :=
    fun unit => name.unit_bounds
  rw [Name.bytes, name.units_eq]
  generalize name.chars.map Char.toNat = units at hunits
  induction units with
  | nil => rfl
  | cons unit units ih =>
    obtain ⟨⟨hlt, hne⟩, hunits⟩ := List.forall_mem_cons.mp hunits
    have hcons : unitBytes (unit :: units) = toLe 2 unit ++ unitBytes units := rfl
    rw [hcons, List.append_assoc, List.append_assoc, readStringLen_unit hlt hne,
      ← List.append_assoc, ih hunits, List.length_append, List.length_append, List.length_append,
      length_toLe]
    omega

namespace Sliced

theorem pushUnicodeString_eq (bytes : List UInt8) : pushUnicodeString bytes = .ok (textOf bytes) := by
  rw [pushUnicodeString, textOf]
  fun_induction chunksExact bytes with
  | case1 a b rest ih =>
    have hunit : fromLeBytes 2 [a, b] = .ok (fromLe [a, b]) := rfl
    rw [unicodeString, hunit, ok_bind, codeUnits]
    by_cases hzero : fromLe [a, b] = 0
    · simp [hzero]
    · rw [if_neg hzero, ih, ok_bind, List.takeWhile_cons_of_pos (by simpa using hzero),
        List.map_cons]
  | case2 bytes hshort =>
    obtain rfl | ⟨a, rfl⟩ := nil_or_singleton hshort
    · rfl
    · rfl

end Sliced

theorem advance_append {front : List UInt8} {len : Nat} (h : front.length = len)
    (back : List UInt8) : MetaParserV5.advance (front ++ back) len = (front, back) := by
  rw [MetaParserV5.advance, if_neg (by rw [List.length_append]; omega), List.take_left' h,
    List.drop_left' h]

/-- The parts of encoded metadata are those that were encoded. -/
theorem EventMetadata.parse_bytes (metadata : EventMetadata) :
    MetaParserV5.parse metadata.bytes =
      ⟨metadata.providerName.bytes, toLe 4 metadata.eventId.toNat, metadata.eventName.bytes,
        toLe 8 metadata.keywords.toNat, toLe 4 metadata.version.toNat,
        toLe 4 metadata.level.toNat, metadata.fields⟩ := by
  simp only [MetaParserV5.parse, EventMetadata.bytes, readStringLen_bytes, advance_append,
    length_toLe]

/-- What is left out behind a part that is too short is all of the rest. -/
theorem advance_inFront (bytes : List UInt8) (len : Nat) :
    (MetaParserV5.advance bytes len).1 ++ (MetaParserV5.advance bytes len).2 <+: bytes := by
  unfold MetaParserV5.advance
  split
  · exact List.nil_prefix
  · exact (List.take_append_drop len bytes).symm ▸ List.prefix_rfl

/-- The parts of any bytes are one behind the other. -/
theorem parts_inFront (bytes : List UInt8) :
    let parser := MetaParserV5.parse bytes
    parser.providerName ++ (parser.eventId ++ (parser.eventName ++ (parser.keywords ++
      (parser.version ++ (parser.level ++ parser.fields))))) <+: bytes := by
  have hstep : ∀ (buffer : List UInt8) (len : Nat) {rest : List UInt8},
      rest <+: (MetaParserV5.advance buffer len).2 →
      (MetaParserV5.advance buffer len).1 ++ rest <+: buffer := fun buffer len rest hrest =>
    ((List.prefix_append_right_inj _).mpr hrest).trans (advance_inFront buffer len)
  dsimp only [MetaParserV5.parse]
  exact hstep _ _ (hstep _ _ (hstep _ _ (hstep _ _ (hstep _ _ (advance_inFront _ _)))))

/-- As many bytes as are asked for, or none. -/
theorem length_advance (bytes : List UInt8) (len : Nat) :
    (MetaParserV5.advance bytes len).1.length = len ∨ (MetaParserV5.advance bytes len).1 = [] := by
  unfold MetaParserV5.advance
  split
  · exact .inr rfl
  · exact .inl (List.length_take_of_le (by omega))

theorem parts_width (bytes : List UInt8) :
    let parser := MetaParserV5.parse bytes
    (parser.eventId.length = 4 ∨ parser.eventId = []) ∧
      (parser.keywords.length = 8 ∨ parser.keywords = []) ∧
      (parser.version.length = 4 ∨ parser.version = []) ∧
      (parser.level.length = 4 ∨ parser.level = []) := by
  dsimp only [MetaParserV5.parse]
  exact ⟨length_advance _ _, length_advance _ _, length_advance _ _, length_advance _ _⟩

/-- A number is none, or that of all of the part. -/
def NoneOrNumber (width : Nat) (part : List UInt8) (value : Exec (Option Nat)) : Prop :=
  value = .ok none ∨ part.length = width ∧ value = .ok (some (fromLe part))

/-- Every accessor returns what was encoded. -/
structure ReadsBack (metadata : EventMetadata) (parser : MetaParserV5) : Prop where
  providerName : Sliced.providerName parser = .ok metadata.providerName.chars
  eventId : Sliced.eventId parser = .ok (some metadata.eventId.toNat)
  eventName : Sliced.eventName parser = .ok metadata.eventName.chars
  keywords : Sliced.keywords parser = .ok (some metadata.keywords.toNat)
  version : Sliced.version parser = .ok (some metadata.version.toNat)
  level : Sliced.level parser = .ok (some metadata.level.toNat)
  fields : parser.fields = metadata.fields

/-- The parts are parts of the bytes, in order, and every accessor returns none or its part. -/
structure ReadsParts (bytes : List UInt8) (parser : MetaParserV5) : Prop where
  parts : parser.providerName ++ (parser.eventId ++ (parser.eventName ++ (parser.keywords ++
    (parser.version ++ (parser.level ++ parser.fields))))) <+: bytes
  providerName : Sliced.providerName parser = .ok (textOf parser.providerName)
  eventId : NoneOrNumber 4 parser.eventId (Sliced.eventId parser)
  eventName : Sliced.eventName parser = .ok (textOf parser.eventName)
  keywords : NoneOrNumber 8 parser.keywords (Sliced.keywords parser)
  version : NoneOrNumber 4 parser.version (Sliced.version parser)
  level : NoneOrNumber 4 parser.level (Sliced.level parser)

theorem readWord_toLe {width n : Nat} (h : n < 256 ^ width) :
    Sliced.readWord width (toLe width n) = .ok (some n) := by
  rw [Sliced.readWord_eq, if_neg (by rw [length_toLe]; omega),
    List.take_of_length_le (by rw [length_toLe]), fromLe_toLe_of_lt h]

theorem readsBack (metadata : EventMetadata) :
    ReadsBack metadata (MetaParserV5.parse metadata.bytes) := by
  rw [metadata.parse_bytes]
  exact
    { providerName := (Sliced.pushUnicodeString_eq _).trans (by rw [textOf_bytes])
      eventId := readWord_toLe metadata.eventId.toNat_lt
      eventName := (Sliced.pushUnicodeString_eq _).trans (by rw [textOf_bytes])
      keywords := readWord_toLe metadata.keywords.toNat_lt
      version := readWord_toLe metadata.version.toNat_lt
      level := readWord_toLe metadata.level.toNat_lt
      fields := rfl }

theorem noneOrNumber_readWord {width : Nat} {part : List UInt8} (hwidth : 0 < width)
    (h : part.length = width ∨ part = []) :
    NoneOrNumber width part (Sliced.readWord width part) := by
  rw [Sliced.readWord_eq]
  rcases h with hlen | rfl
  · rw [if_neg (by omega), List.take_of_length_le (by omega)]
    exact .inr ⟨hlen, rfl⟩
  · rw [if_pos (by simpa using hwidth)]
    exact .inl rfl

theorem readsParts (bytes : List UInt8) : ReadsParts bytes (MetaParserV5.parse bytes) := by
  have hparts := parts_inFront bytes
  obtain ⟨hid, hkeywords, hversion, hlevel⟩ := parts_width bytes
  generalize MetaParserV5.parse bytes = parser at *
  exact
    { parts := hparts
      providerName := Sliced.pushUnicodeString_eq _
      eventId := noneOrNumber_readWord (by decide) hid
      eventName := Sliced.pushUnicodeString_eq _
      keywords := noneOrNumber_readWord (by decide) hkeywords
      version := noneOrNumber_readWord (by decide) hversion
      level := noneOrNumber_readWord (by decide) hlevel }

/-- **An extension is decoded.** Of any bytes the labels are the first three blocks of the longest
row of blocks that they start with. Metadata is read back as it was encoded, and of any other
bytes each part is one of theirs. Nothing panics. -/
theorem eventExtension_decoded :
    (∀ extension, ∃ blocks, LongestRow Block.bytes extension blocks ∧
      Sliced.parseEventExtensionV1 extension = .ok ((blocks.take 3).map Block.output)) ∧
    (∀ metadata : EventMetadata, ∃ parser,
      Sliced.parse metadata.bytes = .ok parser ∧ ReadsBack metadata parser) ∧
    ∀ bytes, ∃ parser, Sliced.parse bytes = .ok parser ∧ ReadsParts bytes parser := by
  refine ⟨fun extension => ?_, fun metadata => ?_, fun bytes => ?_⟩
  · obtain ⟨blocks, hblocks, hlabels⟩ := Block.parseLabels_longestRow extension
    refine ⟨blocks, hblocks, ?_⟩
    rw [Sliced.parseEventExtensionV1_eq, parseEventExtensionV1, hlabels]
  · exact ⟨_, Sliced.parse_eq _, readsBack metadata⟩
  · exact ⟨_, Sliced.parse_eq bytes, readsParts bytes⟩

end OneCollect.Dotnet
