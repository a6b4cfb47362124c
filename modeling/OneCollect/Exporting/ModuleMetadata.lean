import OneCollect.Exporting.Machine
import OneCollect.Theory.Json

/-! The metadata of a module in JSON (`modulemetadata.rs`, `pe_file.rs`). Each member is put
together by hand, with the interned strings as they are, and a comma behind it. The object is read
back exactly when no string has a quotation mark, a backslash or a control character. -/

namespace OneCollect.Exporting
open Theory Json

structure ElfModuleMetadata where
  buildId : Option (List UInt8) := none
  debugLinkId : Nat := 0
  pVaddr : Nat := 0
  pOffset : Nat := 0
  deriving DecidableEq, Repr

structure PEModuleMetadata where
  machine : Nat := 0
  dateTime : Nat := 0
  symbolNameId : Nat := 0
  symbolAge : Nat := 0
  symbolSig : List UInt8 := List.replicate 16 0
  versionNameId : Nat := 0
  perfmapSig : List UInt8 := List.replicate 16 0
  perfmapVersion : Nat := 0
  perfmapNameId : Nat := 0
  textLoadedLayoutOffset : Nat := 0
  deriving DecidableEq, Repr

/-- `{:02x}` of each byte. -/
def hexBytes (bytes : List UInt8) : List Char := bytes.flatMap fun byte => toHex 2 byte.toNat

/-- `0x{:x}`. -/
def hexNumber (n : Nat) : List Char := '0' :: 'x' :: Nat.toDigits 16 n

/-- A text between two others, where there is one. -/
def pushString (opening : String) (text : Option (List Char)) : List Char :=
  match text with
  | some text => opening.toList ++ (text ++ "\",".toList)
  | none => []

def pushNumber (opening : String) (n : Nat) : List Char :=
  opening.toList ++ (toDecimal n ++ [','])

namespace ElfModuleMetadata

variable (strings : InternedStrings) (elf : ElfModuleMetadata)

def toSymbolMetadata : List Char :=
  let out := ['{']
  let out := out ++ "\"type\": \"ELF\",".toList
  let out := out ++ pushString "\"debug_link\": \""
    ((strings.fromId elf.debugLinkId).map String.toList)
  let out := out ++ pushString "\"build_id\": \"" (elf.buildId.map hexBytes)
  let out := out ++ pushString "\"p_vaddr\": \"" (some (hexNumber elf.pVaddr))
  let out := out ++ pushString "\"p_offset\": \"" (some (hexNumber elf.pOffset))
  popIf ',' out ++ ['}']

end ElfModuleMetadata

namespace PEModuleMetadata

variable (strings : InternedStrings) (pe : PEModuleMetadata)

def toSymbolMetadata : List Char :=
  let out := ['{']
  let out := out ++ "\"type\": \"PE\",".toList
  let out := out ++ pushString "\"name\": \""
    ((strings.fromId pe.symbolNameId).map String.toList)
  let out := out ++ pushNumber "\"date_time\": " pe.dateTime
  let out := out ++ pushNumber "\"age\": " pe.symbolAge
  let out := out ++ pushString "\"signature\": \"" (some (hexBytes pe.symbolSig))
  let out := out ++ pushString "\"perfmap_signature\": \"" (some (hexBytes pe.perfmapSig))
  let out := out ++ pushNumber "\"perfmap_version\": " pe.perfmapVersion
  let out := out ++ pushString "\"perfmap_name\": \""
    ((strings.fromId pe.perfmapNameId).map String.toList)
  let out := out ++ pushNumber "\"text_offset\": " pe.textLoadedLayoutOffset
  popIf ',' out ++ ['}']

def toVersionMetadata : List Char :=
  let out := ['{']
  let out := match strings.fromId pe.versionNameId with
    | some versionName =>
      out ++ ("\"version\": \"".toList ++ (versionName.toList ++ "\"".toList))
    | none => out
  out ++ ['}']

end PEModuleMetadata

/-! ## Members

What is stored, under its keys. -/

/-- A member for a text, where there is one. -/
def textMember (key : String) (text : Option (List Char)) : List Member :=
  match text with
  | some text => [(key.toList, .text text)]
  | none => []

def numberMember (key : String) (n : Nat) : List Member := [(key.toList, .number n)]

def ElfModuleMetadata.members (strings : InternedStrings) (elf : ElfModuleMetadata) :
    List Member :=
  textMember "type" (some "ELF".toList) ++
    (textMember "debug_link" ((strings.fromId elf.debugLinkId).map String.toList) ++
      (textMember "build_id" (elf.buildId.map hexBytes) ++
        (textMember "p_vaddr" (some (hexNumber elf.pVaddr)) ++
          textMember "p_offset" (some (hexNumber elf.pOffset)))))

def PEModuleMetadata.members (strings : InternedStrings) (pe : PEModuleMetadata) : List Member :=
  textMember "type" (some "PE".toList) ++
    (textMember "name" ((strings.fromId pe.symbolNameId).map String.toList) ++
      (numberMember "date_time" pe.dateTime ++ (numberMember "age" pe.symbolAge ++
        (textMember "signature" (some (hexBytes pe.symbolSig)) ++
          (textMember "perfmap_signature" (some (hexBytes pe.perfmapSig)) ++
            (numberMember "perfmap_version" pe.perfmapVersion ++
              (textMember "perfmap_name" ((strings.fromId pe.perfmapNameId).map String.toList) ++
                numberMember "text_offset" pe.textLoadedLayoutOffset)))))))

def PEModuleMetadata.versionMembers (strings : InternedStrings) (pe : PEModuleMetadata) :
    List Member :=
  textMember "version" ((strings.fromId pe.versionNameId).map String.toList)

/-! ## The text is the printed members -/

/-- Each member with a comma. -/
def withCommas (members : List Member) : List Char :=
  members.flatMap fun member => member.print ++ [',']

theorem withCommas_append (members others : List Member) :
    withCommas (members ++ others) = withCommas members ++ withCommas others := List.flatMap_append

theorem withCommas_eq {members : List Member} (hne : members ≠ []) :
    withCommas members = join members ++ [','] := by
  induction members with
  | nil => exact absurd rfl hne
  | cons member members ih =>
    cases members with
    | nil => exact List.append_nil _
    | cons next members =>
      have hcons : withCommas (member :: next :: members) =
          member.print ++ [','] ++ withCommas (next :: members) := rfl
      rw [hcons, ih (List.cons_ne_nil _ _), join_cons_cons, List.append_assoc, List.append_assoc]
      rfl

/-- The comma behind the last member is taken away. -/
theorem popIf_withCommas {members : List Member} (hne : members ≠ []) :
    popIf ',' ('{' :: withCommas members) ++ ['}'] = printObject members := by
  have hcomma : '{' :: withCommas members = ('{' :: join members) ++ [','] := by
    rw [withCommas_eq hne]
    rfl
  rw [hcomma, popIf, if_pos List.getLast?_concat, List.dropLast_concat]
  rfl

theorem pushString_eq (opening key : String)
    (h : opening.toList = '"' :: (key.toList ++ ['"', ':', ' ', '"'])) (text : Option (List Char)) :
    pushString opening text = withCommas (textMember key text) := by
  cases text with
  | none => rfl
  | some text =>
    simp [pushString, textMember, withCommas, Member.print, Field.print, h]

theorem pushNumber_eq (opening key : String)
    (h : opening.toList = '"' :: (key.toList ++ ['"', ':', ' '])) (n : Nat) :
    pushNumber opening n = withCommas (numberMember key n) := by
  simp [pushNumber, numberMember, withCommas, Member.print, Field.print, h]

theorem ElfModuleMetadata.toSymbolMetadata_eq (strings : InternedStrings)
    (elf : ElfModuleMetadata) :
    elf.toSymbolMetadata strings = printObject (elf.members strings) := by
  have htype : "\"type\": \"ELF\",".toList = withCommas (textMember "type" (some "ELF".toList)) := by
    decide
  have hne : elf.members strings ≠ [] := List.cons_ne_nil _ _
  rw [← popIf_withCommas hne, ElfModuleMetadata.members, toSymbolMetadata, htype,
    pushString_eq "\"debug_link\": \"" "debug_link" (by decide),
    pushString_eq "\"build_id\": \"" "build_id" (by decide),
    pushString_eq "\"p_vaddr\": \"" "p_vaddr" (by decide),
    pushString_eq "\"p_offset\": \"" "p_offset" (by decide)]
  simp only [withCommas_append, List.append_assoc, List.cons_append, List.nil_append]

theorem PEModuleMetadata.toSymbolMetadata_eq (strings : InternedStrings) (pe : PEModuleMetadata) :
    pe.toSymbolMetadata strings = printObject (pe.members strings) := by
  have htype : "\"type\": \"PE\",".toList = withCommas (textMember "type" (some "PE".toList)) := by
    decide
  have hne : pe.members strings ≠ [] := List.cons_ne_nil _ _
  rw [← popIf_withCommas hne, PEModuleMetadata.members, toSymbolMetadata, htype,
    pushString_eq "\"name\": \"" "name" (by decide),
    pushNumber_eq "\"date_time\": " "date_time" (by decide),
    pushNumber_eq "\"age\": " "age" (by decide),
    pushString_eq "\"signature\": \"" "signature" (by decide),
    pushString_eq "\"perfmap_signature\": \"" "perfmap_signature" (by decide),
    pushNumber_eq "\"perfmap_version\": " "perfmap_version" (by decide),
    pushString_eq "\"perfmap_name\": \"" "perfmap_name" (by decide),
    pushNumber_eq "\"text_offset\": " "text_offset" (by decide)]
  simp only [withCommas_append, List.append_assoc, List.cons_append, List.nil_append]

theorem PEModuleMetadata.toVersionMetadata_eq (strings : InternedStrings)
    (pe : PEModuleMetadata) :
    pe.toVersionMetadata strings = printObject (pe.versionMembers strings) := by
  unfold toVersionMetadata versionMembers
  cases strings.fromId pe.versionNameId with
  | none => rfl
  | some versionName =>
    have hopening : "\"version\": \"".toList =
        '"' :: ("version".toList ++ ['"', ':', ' ', '"']) := by decide
    simp [textMember, printObject, join, Member.print, Field.print, hopening]

/-! ## Reading back -/

/-- The string, if there is one, has only characters that stand for themselves. -/
def PlainString (strings : InternedStrings) (id : Nat) : Prop :=
  ∀ string, strings.fromId id = some string → ∀ c ∈ string.toList, IsPlain c

/-- The text is an object with exactly these members. -/
def ReadsBack (text : List Char) (members : List Member) : Prop :=
  parse text = some (.object (members.map Member.json))

theorem plain_hexBytes (bytes : List UInt8) : ∀ c ∈ hexBytes bytes, IsPlain c := by
  have hdigits : ∀ d < 16, IsPlain d.digitChar := by decide
  intro c hc
  obtain ⟨byte, -, hc⟩ := List.mem_flatMap.mp hc
  obtain ⟨d, hd, rfl⟩ := mem_toHex hc
  exact hdigits d hd

theorem plain_hexNumber (n : Nat) : ∀ c ∈ hexNumber n, IsPlain c := by
  have hdigits : ∀ d < 16, IsPlain d.digitChar := by decide
  refine List.forall_mem_cons.mpr ⟨by decide, List.forall_mem_cons.mpr ⟨by decide, fun c hc => ?_⟩⟩
  obtain ⟨d, hd, rfl⟩ := mem_toDigits (by decide) hc
  exact hdigits d hd

/-- Every member of a list is plain, in its key and in its value. -/
def AllPlain (members : List Member) : Prop := ∀ member ∈ members, member.2.Plain

theorem allPlain_append {members others : List Member} :
    AllPlain (members ++ others) ↔ AllPlain members ∧ AllPlain others := List.forall_mem_append

theorem allPlain_numberMember (key : String) (n : Nat) : AllPlain (numberMember key n) :=
  List.forall_mem_singleton.mpr trivial

theorem allPlain_textMember (key : String) {text : Option (List Char)}
    (h : ∀ chars, text = some chars → ∀ c ∈ chars, IsPlain c) : AllPlain (textMember key text) := by
  cases text with
  | none => exact fun _ h => absurd h List.not_mem_nil
  | some chars => exact List.forall_mem_singleton.mpr (h chars rfl)

theorem allPlain_string_iff (key : String) (strings : InternedStrings) (id : Nat) :
    AllPlain (textMember key ((strings.fromId id).map String.toList)) ↔ PlainString strings id := by
  unfold PlainString
  cases strings.fromId id with
  | none => exact iff_of_true (fun _ h => absurd h List.not_mem_nil) fun _ h => by cases h
  | some string =>
    refine ⟨fun h string' heq => ?_, fun h => List.forall_mem_singleton.mpr (h string rfl)⟩
    obtain rfl := Option.some.inj heq
    exact List.forall_mem_singleton.mp h

/-- Every key of a list is plain. -/
def PlainKeys (members : List Member) : Prop := ∀ member ∈ members, ∀ c ∈ member.1, IsPlain c

theorem plainKeys_append {members others : List Member} (h : PlainKeys members)
    (h' : PlainKeys others) : PlainKeys (members ++ others) := List.forall_mem_append.mpr ⟨h, h'⟩

theorem plainKeys_textMember {key : String} (h : ∀ c ∈ key.toList, IsPlain c)
    (text : Option (List Char)) : PlainKeys (textMember key text) := by
  cases text with
  | none => exact fun _ h => absurd h List.not_mem_nil
  | some chars => exact List.forall_mem_singleton.mpr h

theorem plainKeys_numberMember {key : String} (h : ∀ c ∈ key.toList, IsPlain c) (n : Nat) :
    PlainKeys (numberMember key n) := List.forall_mem_singleton.mpr h

theorem ElfModuleMetadata.readsBack_iff (strings : InternedStrings) (elf : ElfModuleMetadata) :
    ReadsBack (elf.toSymbolMetadata strings) (elf.members strings) ↔
      PlainString strings elf.debugLinkId := by
  have hkeys : PlainKeys (elf.members strings) := by
    unfold ElfModuleMetadata.members
    refine plainKeys_append (plainKeys_textMember (by decide) _)
      (plainKeys_append (plainKeys_textMember (by decide) _)
        (plainKeys_append (plainKeys_textMember (by decide) _)
          (plainKeys_append (plainKeys_textMember (by decide) _)
            (plainKeys_textMember (by decide) _))))
  rw [ReadsBack, elf.toSymbolMetadata_eq, parse_printObject_iff hkeys]
  change AllPlain (elf.members strings) ↔ _
  have htype : AllPlain (textMember "type" (some "ELF".toList)) :=
    allPlain_textMember "type" fun chars h => Option.some.inj h ▸ by decide
  have hbuildId : AllPlain (textMember "build_id" (elf.buildId.map hexBytes)) := by
    refine allPlain_textMember "build_id" fun chars h => ?_
    obtain ⟨bytes, -, rfl⟩ := Option.map_eq_some_iff.mp h
    exact plain_hexBytes bytes
  have hvaddr : AllPlain (textMember "p_vaddr" (some (hexNumber elf.pVaddr))) :=
    allPlain_textMember "p_vaddr" fun chars h => Option.some.inj h ▸ plain_hexNumber _
  have hoffset : AllPlain (textMember "p_offset" (some (hexNumber elf.pOffset))) :=
    allPlain_textMember "p_offset" fun chars h => Option.some.inj h ▸ plain_hexNumber _
  simp only [ElfModuleMetadata.members, allPlain_append, allPlain_string_iff, htype, hbuildId,
    hvaddr, hoffset, true_and, and_true]

theorem PEModuleMetadata.readsBack_iff (strings : InternedStrings) (pe : PEModuleMetadata) :
    ReadsBack (pe.toSymbolMetadata strings) (pe.members strings) ↔
      PlainString strings pe.symbolNameId ∧ PlainString strings pe.perfmapNameId := by
  have hkeys : PlainKeys (pe.members strings) := by
    unfold PEModuleMetadata.members
    refine plainKeys_append (plainKeys_textMember (by decide) _)
      (plainKeys_append (plainKeys_textMember (by decide) _)
        (plainKeys_append (plainKeys_numberMember (by decide) _)
          (plainKeys_append (plainKeys_numberMember (by decide) _)
            (plainKeys_append (plainKeys_textMember (by decide) _)
              (plainKeys_append (plainKeys_textMember (by decide) _)
                (plainKeys_append (plainKeys_numberMember (by decide) _)
                  (plainKeys_append (plainKeys_textMember (by decide) _)
                    (plainKeys_numberMember (by decide) _))))))))
  rw [ReadsBack, pe.toSymbolMetadata_eq, parse_printObject_iff hkeys]
  change AllPlain (pe.members strings) ↔ _
  have htype : AllPlain (textMember "type" (some "PE".toList)) :=
    allPlain_textMember "type" fun chars h => Option.some.inj h ▸ by decide
  have hsignature : ∀ key bytes, AllPlain (textMember key (some (hexBytes bytes))) :=
    fun key bytes => allPlain_textMember key fun chars h => Option.some.inj h ▸ plain_hexBytes bytes
  simp only [PEModuleMetadata.members, allPlain_append, allPlain_string_iff,
    allPlain_numberMember, htype, hsignature, true_and, and_true]

theorem PEModuleMetadata.readsBack_version_iff (strings : InternedStrings)
    (pe : PEModuleMetadata) :
    ReadsBack (pe.toVersionMetadata strings) (pe.versionMembers strings) ↔
      PlainString strings pe.versionNameId := by
  have hkeys : PlainKeys (pe.versionMembers strings) := plainKeys_textMember (by decide) _
  rw [ReadsBack, pe.toVersionMetadata_eq, parse_printObject_iff hkeys]
  exact allPlain_string_iff "version" strings pe.versionNameId

/-- **Metadata is read back.** The text of a module is one object with what is stored, under its
keys, exactly when the strings in it have no quotation mark, backslash or control character. -/
theorem metadata_readsBack_iff (strings : InternedStrings) :
    (∀ elf : ElfModuleMetadata,
      ReadsBack (elf.toSymbolMetadata strings) (elf.members strings) ↔
        PlainString strings elf.debugLinkId) ∧
    (∀ pe : PEModuleMetadata,
      ReadsBack (pe.toSymbolMetadata strings) (pe.members strings) ↔
        PlainString strings pe.symbolNameId ∧ PlainString strings pe.perfmapNameId) ∧
    ∀ pe : PEModuleMetadata,
      ReadsBack (pe.toVersionMetadata strings) (pe.versionMembers strings) ↔
        PlainString strings pe.versionNameId :=
  ⟨ElfModuleMetadata.readsBack_iff strings, PEModuleMetadata.readsBack_iff strings,
    PEModuleMetadata.readsBack_version_iff strings⟩

/-- A name with a quotation mark, as an image may have it. -/
def markStrings : InternedStrings := ⟨["", "a\"b.pdb"]⟩

/-- The text is not an object at all. -/
theorem not_readsBack_mark :
    ¬ ReadsBack (PEModuleMetadata.toSymbolMetadata markStrings { symbolNameId := 1 })
      (PEModuleMetadata.members markStrings { symbolNameId := 1 }) := by
  have hnone : (parse (PEModuleMetadata.toSymbolMetadata markStrings
      { symbolNameId := 1 })).isNone = true := by decide +kernel
  intro h
  rw [h] at hnone
  exact absurd hnone (by decide)

end OneCollect.Exporting
