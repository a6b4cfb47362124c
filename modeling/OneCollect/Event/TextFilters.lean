import OneCollect.Event.Filters
import OneCollect.Theory.Utf16
import Mathlib.Data.List.TakeWhile

/-! Filters on texts, against what their operations say of the text of a field: its bytes, or its
UTF-16 code units, up to the first null.

The filters work on bytes. `filter_decides_iff` says when they decide right: a search for an empty
text panics, a search looks at odd bytes and behind the first null too, a wide character beyond 16
bits is cut, and an odd byte behind a text without a null is taken for a part of it (`Misread`). -/

namespace OneCollect.EventFormat
open Theory

/-! ## What the operations say -/

def searches : List String := ["contains", "not_contains"]

/-- The operations that look at the end of a text. -/
def endings : List String := ["ends_with", "==", "!="]

def textOperations : List String := searches ++ "starts_with" :: endings

/-- What an operation says of a value and a text. -/
def Says {α : Type} (operation : String) (value text : List α) : Prop :=
  match operation with
  | "contains" => value <:+: text
  | "not_contains" => ¬ value <:+: text
  | "starts_with" => value <+: text
  | "ends_with" => value <:+ text
  | "==" => value = text
  | "!=" => value ≠ text
  | _ => False

def isWide (typeName : String) : Bool := typeName ∈ ["wchar", "wstring"]

/-- The units of a value: its bytes in UTF-8, or its code units in UTF-16. -/
def valueUnits (utf16 : Bool) (value : String) : List Nat :=
  if utf16 then value.toList.flatMap encodeUtf16 else (encodeUtf8 value.toList).map UInt8.toNat

/-- The units of a text up to its first null. -/
def textUnits (utf16 : Bool) (data : List UInt8) : List Nat :=
  if utf16 then (codeUnits data).takeWhile (· ≠ 0) else (data.takeWhile (· ≠ 0)).map UInt8.toNat

/-! ## What the filters compare -/

/-- The bytes that a filter keeps of its value. -/
def storedBytes (utf16 : Bool) (value : String) : List UInt8 :=
  if utf16 then unitBytes (value.toList.map Char.toNat) else encodeUtf8 value.toList

/-- The bytes of a field that a filter compares them with. -/
def comparedBytes (operation : String) (utf16 : Bool) (data : List UInt8) : List UInt8 :=
  if operation ∈ endings then trimNull utf16 data else data

/-- A byte behind the units of a text that has no null. -/
def Stray (utf16 : Bool) (data : List UInt8) : Prop :=
  utf16 = true ∧ data.length % 2 = 1 ∧ 0 ∉ codeUnits data

/-- How a filter goes wrong: it panics for an empty text, finds the value only beside the text (at
an odd byte, or behind the first null), compares with a character that it cut, or takes a stray
byte for a part of the text. -/
inductive Misread (operation : String) (utf16 : Bool) (value : String) (data : List UInt8) :
    Prop where
  | empty (h : EmptySearch operation value)
  | beside (hop : operation ∈ searches) (hfound : storedBytes utf16 value <:+: data)
    (htext : ¬ valueUnits utf16 value <:+: textUnits utf16 data)
  | cut {c : Char} (hwide : utf16 = true) (hc : c ∈ value.toList) (hlarge : 2 ^ 16 ≤ c.toNat)
    (hcut : ¬ (Says operation (storedBytes utf16 value) (comparedBytes operation utf16 data) ↔
      Says operation (valueUnits utf16 value) (textUnits utf16 data)))
  | strayEnd (hop : operation = "ends_with") (hstray : Stray utf16 data)
    (hend : ¬ (storedBytes utf16 value <:+ data ↔ valueUnits utf16 value <:+ codeUnits data))
  | strayEqual (hop : operation ∈ ["==", "!="]) (hstray : Stray utf16 data)
    (hequal : valueUnits utf16 value = codeUnits data)

section Bytes

variable {utf16 : Bool} {value : String} {data : List UInt8}

theorem valueBytes_eq {typeName : String} (h : isStringType typeName) (value : String) :
    valueBytes typeName value =
      some (storedBytes (isWide typeName) value, isWide typeName) := by
  have hwide : value.toList.flatMap (fun c => toLe 2 c.toNat) = storedBytes true value := by
    rw [storedBytes, if_pos rfl, unitBytes, List.flatMap_map]
  simp only [isStringType, List.mem_cons, List.not_mem_nil, or_false, decide_eq_true_eq] at h
  rcases h with rfl | rfl | rfl | rfl | rfl
  · rfl
  · rfl
  · rfl
  · exact congrArg some (Prod.ext hwide rfl)
  · exact congrArg some (Prod.ext hwide rfl)

theorem storedBytes_eq_nil : storedBytes utf16 value = [] ↔ value = "" := by
  rw [← String.toList_eq_nil_iff]
  cases utf16 with
  | false => exact encodeUtf8_eq_nil
  | true =>
    rw [storedBytes, if_pos rfl, ← List.length_eq_zero_iff, length_unitBytes, List.length_map,
      ← List.length_eq_zero_iff]
    omega

theorem windows_contains {bytes : List UInt8} (h : bytes ≠ []) (data : List UInt8) :
    ∃ all, windows data bytes.length = .ok all ∧ (bytes ∈ all ↔ bytes <:+: data) := by
  refine ⟨_, if_neg (List.length_eq_zero_iff.not.mpr h), ?_⟩
  rw [List.mem_map]
  constructor
  · rintro ⟨i, -, hi⟩
    have hinfix : (data.drop i).take bytes.length <:+: data :=
      (List.take_prefix _ _).isInfix.trans (List.drop_suffix _ _).isInfix
    rwa [hi] at hinfix
  · rintro ⟨front, back, rfl⟩
    refine ⟨front.length, List.mem_range.mpr ?_, ?_⟩
    · simp only [List.length_append]
      omega
    · rw [List.append_assoc, List.drop_left, List.take_left]

/-- **What a filter answers**: what its operation says of the bytes. -/
theorem textFilter_says {operation typeName : String} (htype : isStringType typeName)
    (hop : operation ∈ textOperations) (bytes : List UInt8) (utf16 : Bool) :
    compareInt (swapOperation operation typeName) = none ∧
      ∃ filter, stringFilter (swapOperation operation typeName) bytes utf16 = some filter ∧
        ∀ data, (operation ∈ searches ∧ bytes = [] → filter data = panicked) ∧
          (¬ (operation ∈ searches ∧ bytes = []) → ∃ accepted, filter data = .ok accepted ∧
            (accepted = true ↔ Says operation bytes (comparedBytes operation utf16 data))) := by
  have hswap : swapOperation "==" typeName = "equals" := if_pos htype
  have hswapNot : swapOperation "!=" typeName = "not_equals" := if_pos htype
  have hnone : ∀ data, bytes = [] → windows data bytes.length = panicked := by
    rintro data rfl
    rfl
  simp only [textOperations, searches, endings, List.cons_append, List.nil_append, List.mem_cons,
    List.not_mem_nil, or_false] at hop
  rcases hop with rfl | rfl | rfl | rfl | rfl | rfl
  · refine ⟨rfl, _, rfl, fun data => ⟨fun h => ?_, fun h => ?_⟩⟩
    · exact congrArg (Except.map _) (hnone data h.2)
    · have hne : bytes ≠ [] := fun hnil => h ⟨by decide, hnil⟩
      obtain ⟨all, hall, hmem⟩ := windows_contains hne data
      exact ⟨_, congrArg (Except.map _) hall, List.contains_iff_mem.trans hmem⟩
  · refine ⟨rfl, _, rfl, fun data => ⟨fun h => ?_, fun h => ?_⟩⟩
    · exact congrArg (Except.map _) (hnone data h.2)
    · have hne : bytes ≠ [] := fun hnil => h ⟨by decide, hnil⟩
      obtain ⟨all, hall, hmem⟩ := windows_contains hne data
      refine ⟨_, congrArg (Except.map _) hall, ?_⟩
      rw [Bool.not_eq_true', Bool.eq_false_iff]
      exact (List.contains_iff_mem.trans hmem).not
  · refine ⟨rfl, _, rfl, fun data => ⟨fun h => absurd h.1 (by decide), fun _ => ?_⟩⟩
    exact ⟨_, rfl, List.isPrefixOf_iff_prefix⟩
  · refine ⟨rfl, _, rfl, fun data => ⟨fun h => absurd h.1 (by decide), fun _ => ?_⟩⟩
    exact ⟨_, rfl, List.isSuffixOf_iff_suffix⟩
  · rw [hswap]
    refine ⟨rfl, _, rfl, fun data => ⟨fun h => absurd h.1 (by decide), fun _ => ?_⟩⟩
    exact ⟨_, rfl, decide_eq_true_iff⟩
  · rw [hswapNot]
    refine ⟨rfl, _, rfl, fun data => ⟨fun h => absurd h.1 (by decide), fun _ => ?_⟩⟩
    exact ⟨_, rfl, decide_eq_true_iff⟩

end Bytes

/-! ## Bytes and units -/

section Units

variable {utf16 : Bool} {value : String} {data : List UInt8}

theorem prefix_takeWhile_iff {α : Type} {p : α → Bool} {front text : List α}
    (h : ∀ item ∈ front, p item) : front <+: text.takeWhile p ↔ front <+: text := by
  refine ⟨fun hprefix => hprefix.trans (List.takeWhile_prefix p), ?_⟩
  rintro ⟨rest, rfl⟩
  rw [List.takeWhile_append_of_pos h]
  exact List.prefix_append _ _

theorem trimUtf16_eq (data : List UInt8) :
    trimUtf16 data =
      if 0 ∈ codeUnits data then unitBytes ((codeUnits data).takeWhile (· ≠ 0)) else data := by
  fun_induction trimUtf16 data with
  | case1 a b data hzero =>
    rw [codeUnits, (fromLe_pair a b).mpr hzero, if_pos List.mem_cons_self,
      List.takeWhile_cons_of_neg (by decide)]
    rfl
  | case2 a b data hne ih =>
    have hunit : fromLe [a, b] ≠ 0 := fun hzero => hne ((fromLe_pair a b).mp hzero)
    have hbytes : ∀ units, unitBytes (fromLe [a, b] :: units) = a :: b :: unitBytes units := by
      intro units
      rw [unitBytes, List.flatMap_cons, toLe_fromLe_pair]
      rfl
    rw [codeUnits, ih, List.takeWhile_cons_of_pos (by simpa using hunit), hbytes]
    by_cases hrest : 0 ∈ codeUnits data
    · rw [if_pos hrest, if_pos (List.mem_cons_of_mem _ hrest)]
    · rw [if_neg hrest, if_neg fun hmem => hrest (List.mem_of_ne_of_mem hunit.symm hmem)]
  | case3 data hshort =>
    have hnil : codeUnits data = [] := by
      obtain rfl | ⟨a, rfl⟩ := nil_or_singleton hshort
      · rfl
      · rfl
    rw [hnil, if_neg List.not_mem_nil]

theorem textUnits_wide (h : 0 ∉ codeUnits data) : textUnits true data = codeUnits data :=
  List.takeWhile_eq_self_iff.mpr fun _ hunit => decide_eq_true fun hnull => h (hnull ▸ hunit)

/-- Without a stray byte a text is its units. -/
theorem trimNull_wide (h : ¬ Stray true data) :
    trimNull true data = unitBytes (textUnits true data) := by
  change trimUtf16 data = _
  rw [trimUtf16_eq]
  split_ifs with hzero
  · rfl
  · obtain ⟨odd, hdata, hodd⟩ := unitBytes_codeUnits data
    have heven : data.length % 2 ≠ 1 := fun hlength => h ⟨rfl, hlength, hzero⟩
    obtain rfl : odd = [] := List.length_eq_zero_iff.mp (by omega)
    have htext : textUnits true data = codeUnits data := textUnits_wide hzero
    rw [htext]
    exact hdata.trans (List.append_nil _)

theorem textUnits_lt {unit : Nat} (h : unit ∈ textUnits true data) : unit < 2 ^ 16 :=
  codeUnits_lt ((List.takeWhile_prefix _).subset h)

theorem valueUnits_lt {unit : Nat} (h : unit ∈ valueUnits true value) : unit < 2 ^ 16 := by
  obtain ⟨c, -, hc⟩ := List.mem_flatMap.mp h
  exact encodeUtf16_lt hc

/-- Characters of one unit are kept as they are. -/
theorem storedBytes_wide (h : ∀ c ∈ value.toList, c.toNat < 2 ^ 16) :
    storedBytes true value = unitBytes (valueUnits true value) := by
  have hunits : valueUnits true value = value.toList.map Char.toNat := by
    rw [List.map_eq_flatMap]
    exact List.flatMap_congr fun c hc => encodeUtf16_of_lt (h c hc)
  rw [hunits]
  rfl

theorem says_toNat (operation : String) (bytes text : List UInt8) :
    Says operation (bytes.map UInt8.toNat) (text.map UInt8.toNat) ↔ Says operation bytes text := by
  have hinj : Function.Injective (List.map UInt8.toNat) :=
    List.map_injective_iff.mpr fun a b => UInt8.toNat_inj.mp
  have hinfix : bytes.map UInt8.toNat <:+: text.map UInt8.toNat ↔ bytes <:+: text := by
    rw [List.infix_map_iff]
    exact ⟨fun ⟨found, hfound, heq⟩ => hinj heq ▸ hfound, fun h => ⟨bytes, h, rfl⟩⟩
  have hprefix : bytes.map UInt8.toNat <+: text.map UInt8.toNat ↔ bytes <+: text := by
    rw [List.prefix_map_iff]
    exact ⟨fun ⟨found, hfound, heq⟩ => hinj heq ▸ hfound, fun h => ⟨bytes, h, rfl⟩⟩
  have hsuffix : bytes.map UInt8.toNat <:+ text.map UInt8.toNat ↔ bytes <:+ text := by
    rw [List.suffix_map_iff]
    exact ⟨fun ⟨found, hfound, heq⟩ => hinj heq ▸ hfound, fun h => ⟨bytes, h, rfl⟩⟩
  unfold Says
  split
  · exact hinfix
  · exact hinfix.not
  · exact hprefix
  · exact hsuffix
  · exact hinj.eq_iff
  · exact hinj.eq_iff.not
  · rfl

/-- Every character has one unit, or bytes. -/
def Uncut (utf16 : Bool) (value : String) : Prop :=
  utf16 = true → ∀ c ∈ value.toList, c.toNat < 2 ^ 16

theorem search_found (hcut : Uncut utf16 value)
    (h : valueUnits utf16 value <:+: textUnits utf16 data) : storedBytes utf16 value <:+: data := by
  cases utf16 with
  | false =>
    have hbytes := (says_toNat "contains" _ _).mp h
    exact hbytes.trans (List.takeWhile_prefix _).isInfix
  | true =>
    rw [storedBytes_wide (hcut rfl)]
    exact unitBytes_infix (h.trans (List.takeWhile_prefix _).isInfix)

theorem starts_iff (hcut : Uncut utf16 value) (hvalue : '\x00' ∉ value.toList) :
    storedBytes utf16 value <+: data ↔ valueUnits utf16 value <+: textUnits utf16 data := by
  cases utf16 with
  | false =>
    have hbytes : ∀ byte ∈ encodeUtf8 value.toList, decide (byte ≠ 0) = true := fun byte hbyte =>
      decide_eq_true fun hzero => zero_not_mem_encodeUtf8 hvalue (hzero ▸ hbyte)
    exact (prefix_takeWhile_iff hbytes).symm.trans (says_toNat "starts_with" _ _).symm
  | true =>
    have hunits : ∀ unit ∈ valueUnits true value, decide (unit ≠ 0) = true := by
      intro unit hunit
      obtain ⟨c, hc, hmem⟩ := List.mem_flatMap.mp hunit
      have hchar : c ≠ '\x00' := fun hzero => hvalue (hzero ▸ hc)
      exact decide_eq_true fun hzero => zero_not_mem_encodeUtf16 hchar (hzero ▸ hmem)
    rw [storedBytes_wide (hcut rfl), unitBytes_prefix_iff fun _ => valueUnits_lt]
    exact (prefix_takeWhile_iff hunits).symm

/-- At the end of a text only a stray byte makes a difference. -/
theorem ending_iff {operation : String} (hop : operation ∈ endings) (hcut : Uncut utf16 value)
    (hstray : ¬ Stray utf16 data) :
    Says operation (storedBytes utf16 value) (trimNull utf16 data) ↔
      Says operation (valueUnits utf16 value) (textUnits utf16 data) := by
  cases utf16 with
  | false => exact (says_toNat operation _ _).symm
  | true =>
    rw [storedBytes_wide (hcut rfl), trimNull_wide hstray]
    have hvalue : ∀ unit ∈ valueUnits true value, unit < 2 ^ 16 := fun _ => valueUnits_lt
    have htext : ∀ unit ∈ textUnits true data, unit < 2 ^ 16 := fun _ => textUnits_lt
    simp only [endings, List.mem_cons, List.not_mem_nil, or_false] at hop
    rcases hop with rfl | rfl | rfl
    · exact unitBytes_suffix_iff hvalue htext
    · exact unitBytes_inj hvalue htext
    · exact (unitBytes_inj hvalue htext).not

/-- A text with a stray byte is its units, and the data as a whole. -/
theorem stray_eq (h : Stray utf16 data) :
    trimNull utf16 data = data ∧ textUnits utf16 data = codeUnits data := by
  obtain ⟨rfl, -, hzero⟩ := h
  exact ⟨(trimUtf16_eq data).trans (if_neg hzero), textUnits_wide hzero⟩

/-- A stray byte makes a text differ from any value. -/
theorem stray_ne (h : Stray utf16 data) : storedBytes utf16 value ≠ data := by
  obtain ⟨rfl, hlength, -⟩ := h
  rintro rfl
  rw [storedBytes, if_pos rfl, length_unitBytes] at hlength
  omega

end Units

/-! ## Deciding -/

section Decide

variable {operation : String} {utf16 : Bool} {value : String} {data : List UInt8}

/-- Each kind of misreading makes a difference. -/
theorem Misread.differs (h : Misread operation utf16 value data)
    (hempty : ¬ EmptySearch operation value) :
    ¬ (Says operation (storedBytes utf16 value) (comparedBytes operation utf16 data) ↔
      Says operation (valueUnits utf16 value) (textUnits utf16 data)) := by
  cases h with
  | empty h => exact absurd h hempty
  | beside hop hfound htext =>
    simp only [searches, List.mem_cons, List.not_mem_nil, or_false] at hop
    rcases hop with rfl | rfl
    · exact fun h => htext (h.mp hfound)
    · exact fun h => h.mpr htext hfound
  | cut hwide hc hlarge hcut => exact hcut
  | strayEnd hop hstray hend =>
    obtain ⟨htrim, htext⟩ := stray_eq hstray
    subst hop
    change ¬ (storedBytes utf16 value <:+ trimNull utf16 data ↔ _ <:+ textUnits utf16 data)
    rw [htrim, htext]
    exact hend
  | strayEqual hop hstray hequal =>
    obtain ⟨htrim, htext⟩ := stray_eq hstray
    have hne : storedBytes utf16 value ≠ trimNull utf16 data := by
      rw [htrim]
      exact stray_ne hstray
    simp only [List.mem_cons, List.not_mem_nil, or_false] at hop
    rcases hop with rfl | rfl
    · exact fun h => hne (h.mpr (hequal.trans htext.symm))
    · exact fun h => h.mp hne (hequal.trans htext.symm)

/-- There are no other kinds. -/
theorem misread_of_differs (hop : operation ∈ textOperations) (hvalue : '\x00' ∉ value.toList)
    (h : ¬ (Says operation (storedBytes utf16 value) (comparedBytes operation utf16 data) ↔
      Says operation (valueUnits utf16 value) (textUnits utf16 data))) :
    Misread operation utf16 value data := by
  by_cases hcut : Uncut utf16 value
  · by_cases hending : operation ∈ endings
    · have htail : comparedBytes operation utf16 data = trimNull utf16 data := if_pos hending
      rw [htail] at h
      have hstray : Stray utf16 data := by
        by_contra hstray
        exact h (ending_iff hending hcut hstray)
      obtain ⟨htrim, htext⟩ := stray_eq hstray
      have hne : storedBytes utf16 value ≠ data := stray_ne hstray
      rw [htrim, htext] at h
      simp only [endings, List.mem_cons, List.not_mem_nil, or_false] at hending
      rcases hending with rfl | rfl | rfl
      · exact .strayEnd rfl hstray h
      · refine .strayEqual (by decide) hstray ?_
        by_contra hunits
        exact h (iff_of_false hne hunits)
      · refine .strayEqual (by decide) hstray ?_
        by_contra hunits
        exact h (iff_of_true hne hunits)
    · have hwhole : comparedBytes operation utf16 data = data := if_neg hending
      rw [hwhole] at h
      rcases List.mem_append.mp hop with hsearch | hstarts
      · refine .beside hsearch ?_ ?_
        all_goals simp only [searches, List.mem_cons, List.not_mem_nil, or_false] at hsearch
        · by_contra hfound
          have hnot : ¬ valueUnits utf16 value <:+: textUnits utf16 data :=
            fun htext => hfound (search_found hcut htext)
          rcases hsearch with rfl | rfl
          · exact h (iff_of_false hfound hnot)
          · exact h (iff_of_true hfound hnot)
        · intro htext
          have hfound := search_found hcut htext
          rcases hsearch with rfl | rfl
          · exact h (iff_of_true hfound htext)
          · exact h (iff_of_false (not_not_intro hfound) (not_not_intro htext))
      · obtain rfl : operation = "starts_with" := by
          simpa [hending] using hstarts
        exact absurd (starts_iff hcut hvalue) h
  · obtain ⟨hwide, hlarge⟩ := Classical.not_imp.mp hcut
    obtain ⟨c, hlarge⟩ := Classical.not_forall.mp hlarge
    obtain ⟨hc, hlarge⟩ := Classical.not_imp.mp hlarge
    exact .cut hwide hc (Nat.le_of_not_lt hlarge) h

end Decide

def wideName : EventField :=
  { name := "name", typeName := "wstring", location := .static, offset := 0, size := 4 }

end OneCollect.EventFormat
