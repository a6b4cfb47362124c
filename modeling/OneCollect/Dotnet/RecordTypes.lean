import OneCollect.Dotnet.Tracepoint
import Mathlib.Data.List.Induction

/-! The record types of .NET events: what the keys of a recorder stand for, what its two lookups keep,
and what the metadata of a tracepoint says of an event.

A recorder finds a record type by the pid and event id of an event, then by its name and format.
Each lookup holds what the first event with the key was. -/

namespace OneCollect.Dotnet
open Theory Exporting

/-- The name and the format of an event. -/
@[ext]
structure Described where
  name : String
  format : EventFormat
  deriving DecidableEq, Repr

def unknownName (id : Nat) : String := "Unknown(" ++ toString id ++ ")"

/-! ## Format keys -/

def formatKeyOf (nameId : Option Nat) (id formatIndex : Nat) : Nat :=
  (nameId.getD (2 ^ 31 ||| id)) <<< 32 % 2 ^ 64 ||| formatIndex

theorem formatKeyOf_eq {nameId : Option Nat} {id formatIndex : Nat}
    (hname : ∀ n ∈ nameId, n < 2 ^ 31) (hid : id < 2 ^ 16) (hformat : formatIndex < 2 ^ 32) :
    formatKeyOf nameId id formatIndex =
      (nameId.getD (2 ^ 31 + id)) * 2 ^ 32 + formatIndex := by
  have hor : 2 ^ 31 ||| id = 2 ^ 31 + id := by
    have hbit := Nat.two_pow_add_eq_or_of_lt (show id < 2 ^ 31 by omega) 1
    rw [Nat.mul_one] at hbit
    exact hbit.symm
  have hlt : nameId.getD (2 ^ 31 + id) < 2 ^ 32 := by
    cases nameId with
    | none =>
      rw [Option.getD_none]
      omega
    | some n =>
      have := hname n rfl
      rw [Option.getD_some]
      omega
  rw [formatKeyOf, hor, Nat.shiftLeft_eq, Nat.mod_eq_of_lt (by omega), ← Nat.shiftLeft_eq,
    ← Nat.shiftLeft_add_eq_or_of_lt hformat, Nat.shiftLeft_eq]

/-- Format keys tell names, ids without names, and formats apart. -/
theorem formatKeyOf_inj {nameId nameId' : Option Nat} {id id' formatIndex formatIndex' : Nat}
    (hname : ∀ n ∈ nameId, n < 2 ^ 31) (hname' : ∀ n ∈ nameId', n < 2 ^ 31) (hid : id < 2 ^ 16)
    (hid' : id' < 2 ^ 16) (hformat : formatIndex < 2 ^ 32) (hformat' : formatIndex' < 2 ^ 32)
    (h : formatKeyOf nameId id formatIndex = formatKeyOf nameId' id' formatIndex') :
    nameId = nameId' ∧ (nameId = none → id = id') ∧ formatIndex = formatIndex' := by
  rw [formatKeyOf_eq hname hid hformat, formatKeyOf_eq hname' hid' hformat'] at h
  have hindex : formatIndex = formatIndex' := by omega
  have hids : nameId.getD (2 ^ 31 + id) = nameId'.getD (2 ^ 31 + id') := by omega
  refine ⟨?_, ?_, hindex⟩
  · cases nameId with
    | none =>
      cases nameId' with
      | none => rfl
      | some n' =>
        have := hname' n' rfl
        rw [Option.getD_none, Option.getD_some] at hids
        omega
    | some n =>
      cases nameId' with
      | none =>
        have := hname n rfl
        rw [Option.getD_none, Option.getD_some] at hids
        omega
      | some n' => exact congrArg some hids
  · rintro rfl
    cases nameId' with
    | none =>
      rw [Option.getD_none, Option.getD_none] at hids
      omega
    | some n' =>
      have := hname' n' rfl
      rw [Option.getD_none, Option.getD_some] at hids
      omega

/-- What a format key stands for, by the names and the formats of a tracepoint. -/
def Means (tracepoint : Tracepoint) (formatKey : Nat) (described : Described) : Prop :=
  ∃ nameId id formatIndex, formatKey = formatKeyOf nameId id formatIndex ∧ id < 2 ^ 16 ∧
    tracepoint.formats[formatIndex]? = some described.format ∧
    match nameId with
    | some n => tracepoint.eventNames.fromId n = some described.name
    | none => described.name = unknownName id

/-- Names and formats are only added. -/
structure Tracepoint.Grows (tracepoint tracepoint' : Tracepoint) : Prop where
  eventNames : tracepoint.eventNames.strings <+: tracepoint'.eventNames.strings
  formats : tracepoint.formats <+: tracepoint'.formats

theorem Tracepoint.Grows.refl (tracepoint : Tracepoint) : tracepoint.Grows tracepoint :=
  ⟨List.prefix_refl _, List.prefix_refl _⟩

theorem Tracepoint.Grows.trans {tracepoint tracepoint' tracepoint'' : Tracepoint}
    (h : tracepoint.Grows tracepoint') (h' : tracepoint'.Grows tracepoint'') :
    tracepoint.Grows tracepoint'' :=
  ⟨h.eventNames.trans h'.eventNames, h.formats.trans h'.formats⟩

theorem getElem?_of_extends {α : Type} {xs ys : List α} (h : xs <+: ys) {i : Nat} {x : α}
    (hx : xs[i]? = some x) : ys[i]? = some x := by
  obtain ⟨rest, rfl⟩ := h
  obtain ⟨hlt, -⟩ := List.getElem?_eq_some_iff.mp hx
  rw [List.getElem?_append_left hlt]
  exact hx

theorem Means.grows {tracepoint tracepoint' : Tracepoint} {formatKey : Nat} {described : Described}
    (h : Means tracepoint formatKey described) (hgrows : tracepoint.Grows tracepoint') :
    Means tracepoint' formatKey described := by
  obtain ⟨nameId, id, formatIndex, hkey, hid, hformat, hname⟩ := h
  refine ⟨nameId, id, formatIndex, hkey, hid, getElem?_of_extends hgrows.formats hformat, ?_⟩
  cases nameId with
  | none => exact hname
  | some n => exact InternedStrings.fromId_of_prefix hgrows.eventNames hname

/-- A key stands for one description, while ids have room in it. -/
theorem Means.unique {tracepoint : Tracepoint} {formatKey : Nat} {described described' : Described}
    (h : Means tracepoint formatKey described) (h' : Means tracepoint formatKey described')
    (hnames : tracepoint.eventNames.strings.length ≤ 2 ^ 31)
    (hformats : tracepoint.formats.length ≤ 2 ^ 32) : described = described' := by
  obtain ⟨nameId, id, formatIndex, hkey, hid, hformat, hname⟩ := h
  obtain ⟨nameId', id', formatIndex', hkey', hid', hformat', hname'⟩ := h'
  have hindex : ∀ {index : Nat} {format : EventFormat},
      tracepoint.formats[index]? = some format → index < 2 ^ 32 := fun h =>
    Nat.lt_of_lt_of_le (List.getElem?_eq_some_iff.mp h).1 hformats
  have hbelow : ∀ {n : Nat} {name : String}, tracepoint.eventNames.fromId n = some name →
      n < 2 ^ 31 := fun h => Nat.lt_of_lt_of_le (List.getElem?_eq_some_iff.mp h).1 hnames
  have hn : ∀ n ∈ nameId, n < 2 ^ 31 := by
    rintro n rfl
    exact hbelow hname
  have hn' : ∀ n ∈ nameId', n < 2 ^ 31 := by
    rintro n rfl
    exact hbelow hname'
  obtain ⟨rfl, hids, rfl⟩ := formatKeyOf_inj hn hn' hid hid' (hindex hformat) (hindex hformat')
    (hkey.symm.trans hkey')
  have hformats' := Option.some.inj (hformat.symm.trans hformat')
  obtain ⟨name, format⟩ := described
  obtain ⟨name', format'⟩ := described'
  cases nameId with
  | none =>
    cases hids rfl
    change name = _ at hname
    change name' = _ at hname'
    rw [hname, hname', show format = format' from hformats']
  | some n =>
    have hnames' := Option.some.inj (hname.symm.trans hname')
    rw [show name = name' from hnames', show format = format' from hformats']

/-! ## Tables -/

/-- Kinds and record types are only added. -/
structure ExportSampler.Grows (sampler sampler' : ExportSampler) : Prop where
  kinds : sampler.kinds <+: sampler'.kinds
  recordTypes : sampler.recordTypes <+: sampler'.recordTypes

/-- The tables have no more entries than their ids have values. -/
structure ExportSampler.Roomy (sampler : ExportSampler) : Prop where
  kinds : sampler.kinds.length ≤ 2 ^ 16
  recordTypes : sampler.recordTypes.length ≤ 2 ^ 16

theorem ExportSampler.Grows.refl (sampler : ExportSampler) : sampler.Grows sampler :=
  ⟨List.prefix_refl _, List.prefix_refl _⟩

theorem ExportSampler.Grows.trans {sampler sampler' sampler'' : ExportSampler}
    (h : sampler.Grows sampler') (h' : sampler'.Grows sampler'') : sampler.Grows sampler'' :=
  ⟨h.kinds.trans h'.kinds, h.recordTypes.trans h'.recordTypes⟩

theorem ExportSampler.Roomy.of_grows {sampler sampler' : ExportSampler} (h : sampler'.Roomy)
    (hgrows : sampler.Grows sampler') : sampler.Roomy :=
  ⟨hgrows.kinds.length_le.trans h.kinds, hgrows.recordTypes.length_le.trans h.recordTypes⟩

/-- The name of an event in the tables. -/
def ProviderCallback.fullName (callback : ProviderCallback) (name : String) : String :=
  eventFullName callback.providerName callback.provider name

/-- The ids of a record type lead to a name and a format. -/
structure HasType (sampler : ExportSampler) (fullName : String) (format : EventFormat)
    (recordType : DotNetRecordType) : Prop where
  kind : sampler.kinds[recordType.kind]? = some fullName
  record : ∃ entry, sampler.recordTypes[recordType.recordType]? = some entry ∧
    entry.kind = recordType.kind ∧ entry.name = fullName ∧ entry.format = format

theorem HasType.grows {sampler sampler' : ExportSampler} {fullName : String} {format : EventFormat}
    {recordType : DotNetRecordType} (h : HasType sampler fullName format recordType)
    (hgrows : sampler.Grows sampler') : HasType sampler' fullName format recordType := by
  obtain ⟨entry, hentry, hrest⟩ := h.record
  exact ⟨getElem?_of_extends hgrows.kinds h.kind, entry,
    getElem?_of_extends hgrows.recordTypes hentry, hrest⟩

theorem eventFullName_inj {providerName : String} {guid : Guid} {name name' : String}
    (h : eventFullName providerName guid name = eventFullName providerName guid name') :
    name = name' := by
  unfold eventFullName at h
  have hlist := congrArg String.toList h
  simp only [String.toList_append] at hlist
  exact String.toList_inj.mp (List.append_cancel_left hlist)

/-- The ids of a record type lead to one name and one format. -/
theorem HasType.unique {sampler : ExportSampler} {fullName fullName' : String}
    {format format' : EventFormat} {recordType : DotNetRecordType}
    (h : HasType sampler fullName format recordType)
    (h' : HasType sampler fullName' format' recordType) :
    fullName = fullName' ∧ format = format' := by
  obtain ⟨entry, hentry, -, -, hformat⟩ := h.record
  obtain ⟨entry', hentry', -, -, hformat'⟩ := h'.record
  have hsame := Option.some.inj (hentry.symm.trans hentry')
  exact ⟨Option.some.inj (h.kind.symm.trans h'.kind), by rw [← hformat, ← hformat', hsame]⟩

/-- An entry of a table is found under its number, while the number fits. -/
theorem getElem?_numberOf_mod {α : Type} [DecidableEq α] {items : List α} {x : α}
    (h : (insertNew items x).length ≤ 2 ^ 16) :
    (insertNew items x)[numberOf (insertNew items x) x % 2 ^ 16]? = some x := by
  have hget := getElem?_numberOf (mem_insertNew.mpr (.inr rfl) : x ∈ insertNew items x)
  obtain ⟨hlt, -⟩ := List.getElem?_eq_some_iff.mp hget
  rw [Nat.mod_eq_of_lt (by omega)]
  exact hget

theorem sampleKind_grows (sampler : ExportSampler) (name : String) :
    sampler.Grows (sampler.sampleKind name).2 :=
  ⟨prefix_insertNew _ _, List.prefix_refl _⟩

theorem recordType_grows (sampler : ExportSampler) (recordType : ExportRecordType) :
    sampler.Grows (sampler.recordType recordType).2 :=
  ⟨List.prefix_refl _, prefix_insertNew _ _⟩

section Callbacks

variable {callback : ProviderCallback} {sampler : ExportSampler}
  {context : LinuxDotNetProviderContext}

/-- What an event is for the callbacks of its provider. -/
def LinuxDotNetProviderContext.described (context : LinuxDotNetProviderContext) : Described :=
  ⟨context.shortEventName, context.selfDescribingFormat.getD {}⟩

theorem build_grows (callback : ProviderCallback) (sampler : ExportSampler)
    (context : LinuxDotNetProviderContext) : sampler.Grows (callback.build sampler context).2 :=
  (sampleKind_grows ..).trans (recordType_grows ..)

/-- A record type that is built has the name and the format of its event. -/
theorem build_hasType (hroom : (callback.build sampler context).2.Roomy) :
    HasType (callback.build sampler context).2 (callback.fullName context.described.name)
      context.described.format (callback.build sampler context).1 :=
  ⟨getElem?_numberOf_mod hroom.kinds, _, getElem?_numberOf_mod hroom.recordTypes, rfl, rfl, rfl⟩

/-- What a callback keeps: under a key the record type of its first event, and under a format key
one of what the key stands for. -/
structure ProviderCallback.Keeps (callback : ProviderCallback) (first : Nat → Option Described)
    (tracepoint : Tracepoint) (sampler : ExportSampler) : Prop where
  absent : ∀ key, callback.recordTypes key = none → first key = none
  present : ∀ key recordType, callback.recordTypes key = some recordType →
    ∃ described, first key = some described ∧
      HasType sampler (callback.fullName described.name) described.format recordType
  formats : ∀ formatKey recordType, callback.recordFormats formatKey = some recordType →
    ∃ described, Means tracepoint formatKey described ∧
      HasType sampler (callback.fullName described.name) described.format recordType

/-- One more event with a key, if it is the first. -/
def addFirst (first : Nat → Option Described) (key : Nat) (described : Described) (key' : Nat) :
    Option Described :=
  if key' = key then (first key).or (some described) else first key'

theorem ProviderCallback.Keeps.grows {first : Nat → Option Described}
    {tracepoint tracepoint' : Tracepoint} {sampler' : ExportSampler}
    (h : callback.Keeps first tracepoint sampler) (htracepoint : tracepoint.Grows tracepoint')
    (hsampler : sampler.Grows sampler') : callback.Keeps first tracepoint' sampler' where
  absent := h.absent
  present key recordType hkey := by
    obtain ⟨described, hfirst, htype⟩ := h.present key recordType hkey
    exact ⟨described, hfirst, htype.grows hsampler⟩
  formats formatKey recordType hkey := by
    obtain ⟨described, hmeans, htype⟩ := h.formats formatKey recordType hkey
    exact ⟨described, hmeans.grows htracepoint, htype.grows hsampler⟩

theorem find_grows (callback : ProviderCallback) (sampler : ExportSampler)
    (context : LinuxDotNetProviderContext) :
    sampler.Grows (callback.find sampler context).2.2 := by
  unfold ProviderCallback.find
  split
  · exact .refl sampler
  · split
    · exact .refl sampler
    · exact build_grows ..

/-- The names in the tables are those of the same provider. -/
theorem find_fullName (callback : ProviderCallback) (sampler : ExportSampler)
    (context : LinuxDotNetProviderContext) :
    (callback.find sampler context).2.1.fullName = callback.fullName := by
  unfold ProviderCallback.find
  split
  · rfl
  · split
    · rfl
    · rfl

/-- A record type that is new under the key. -/
theorem keeps_update {first : Nat → Option Described} {tracepoint : Tracepoint}
    {callback callback' : ProviderCallback} {key : Nat} {described : Described}
    {recordType : DotNetRecordType} (h : callback.Keeps first tracepoint sampler)
    (hnone : callback.recordTypes key = none) (hname : callback'.fullName = callback.fullName)
    (htypes : callback'.recordTypes = Function.update callback.recordTypes key (some recordType))
    (hformats : ∀ formatKey recordType, callback'.recordFormats formatKey = some recordType →
      ∃ described, Means tracepoint formatKey described ∧
        HasType sampler (callback.fullName described.name) described.format recordType)
    (htype : HasType sampler (callback.fullName described.name) described.format recordType) :
    callback'.Keeps (addFirst first key described) tracepoint sampler := by
  have hfirst := h.absent key hnone
  refine ⟨fun key' hkey' => ?_, fun key' recordType' hkey' => ?_, ?_⟩
  · rw [htypes] at hkey'
    unfold addFirst
    split
    · rename_i heq
      rw [heq, Function.update_self] at hkey'
      exact (nomatch hkey')
    · rename_i hne
      rw [Function.update_of_ne hne] at hkey'
      exact h.absent key' hkey'
  · rw [htypes] at hkey'
    rw [hname]
    unfold addFirst
    split
    · rename_i heq
      rw [heq, Function.update_self] at hkey'
      cases hkey'
      exact ⟨described, by rw [hfirst]; rfl, htype⟩
    · rename_i hne
      rw [Function.update_of_ne hne] at hkey'
      exact h.present key' recordType' hkey'
  · rw [hname]
    exact hformats

/-- The lookups of one event: it gets the record type of the first event with its key. -/
theorem find_spec {first : Nat → Option Described} {tracepoint : Tracepoint}
    (h : callback.Keeps first tracepoint sampler)
    (hmeans : Means tracepoint context.formatKey context.described)
    (hnames : tracepoint.eventNames.strings.length ≤ 2 ^ 31)
    (hformats : tracepoint.formats.length ≤ 2 ^ 32)
    (hroom : (callback.find sampler context).2.2.Roomy) :
    (callback.find sampler context).2.1.Keeps (addFirst first context.key context.described)
        tracepoint (callback.find sampler context).2.2 ∧
      ∃ described, addFirst first context.key context.described context.key = some described ∧
        HasType (callback.find sampler context).2.2 (callback.fullName described.name)
          described.format (callback.find sampler context).1 := by
  have hself : ∀ {described : Described}, first context.key = some described →
      addFirst first context.key context.described context.key = some described := by
    intro described hfirst
    rw [addFirst, if_pos rfl, hfirst]
    rfl
  have hnew : first context.key = none →
      addFirst first context.key context.described context.key = some context.described := by
    intro hfirst
    rw [addFirst, if_pos rfl, hfirst]
    rfl
  unfold ProviderCallback.find at hroom ⊢
  split
  · rename_i recordType hkey
    obtain ⟨described, hfirst, htype⟩ := h.present _ _ hkey
    have hsame : addFirst first context.key context.described = first := by
      funext key
      unfold addFirst
      split
      · rename_i heq
        rw [heq, hfirst]
        rfl
      · rfl
    rw [hsame]
    exact ⟨h, described, hfirst, htype⟩
  · rename_i hkey
    split
    · rename_i recordType hformat
      obtain ⟨described, hmeans', htype⟩ := h.formats _ _ hformat
      -- the key stands for what the event is
      cases hmeans'.unique hmeans hnames hformats
      exact ⟨keeps_update h hkey rfl rfl h.formats htype, _, hnew (h.absent _ hkey), htype⟩
    · rename_i hformat
      rw [hkey, hformat] at hroom
      dsimp only at hroom ⊢
      have hgrows := build_grows callback sampler context
      have hbuilt := build_hasType hroom
      have hkept := h.grows (.refl _) hgrows
      refine ⟨keeps_update hkept hkey rfl rfl ?_ hbuilt, _, hnew (h.absent _ hkey), hbuilt⟩
      intro formatKey recordType hstored
      dsimp only at hstored
      by_cases heq : formatKey = context.formatKey
      · rw [heq, Function.update_self] at hstored
        cases hstored
        exact ⟨context.described, heq ▸ hmeans, hbuilt⟩
      · rw [Function.update_of_ne heq] at hstored
        exact hkept.formats formatKey recordType hstored

end Callbacks

/-! ## Calls -/

def Answer.ok (answer : Answer) : Bool := answer.attributes.isOk && answer.saved.isOk

/-- Whether a callback gets as far as its lookups: those before it do not fail, and the attributes
of the event are there. The callbacks are counted from `start`. -/
def reached (answers : Nat → Answer) : Nat → Nat → Bool
  | start, 0 => (answers start).attributes.isOk
  | start, i + 1 => (answers start).ok && reached answers (start + 1) i

section Calls

variable {context : LinuxDotNetProviderContext} {answers : Nat → Answer}
  {tracepoint : Tracepoint}

theorem call_eq_of_error {callback : ProviderCallback} {sampler : ExportSampler} {answer : Answer}
    (h : answer.attributes.isOk = false) :
    ∃ fault, callback.call sampler context answer = ⟨.error fault, callback, sampler⟩ := by
  unfold ProviderCallback.call
  cases hattributes : answer.attributes with
  | error fault => exact ⟨fault, rfl⟩
  | ok attributes =>
    rw [hattributes] at h
    exact absurd h (by simp [Except.isOk, Except.toBool])

/-- With attributes a callback is its lookups, and saves what it found. -/
theorem call_of_ok {callback : ProviderCallback} {sampler : ExportSampler} {answer : Answer}
    (h : answer.attributes.isOk) :
    (callback.call sampler context answer).callback = (callback.find sampler context).2.1 ∧
      (callback.call sampler context answer).sampler.kinds =
        (callback.find sampler context).2.2.kinds ∧
      (callback.call sampler context answer).sampler.recordTypes =
        (callback.find sampler context).2.2.recordTypes ∧
      ∀ sample, (callback.call sampler context answer).result = .ok sample →
        sample.recordType = (callback.find sampler context).1 := by
  unfold ProviderCallback.call
  cases hattributes : answer.attributes with
  | error fault =>
    rw [hattributes] at h
    exact absurd h (by simp [Except.isOk, Except.toBool])
  | ok attributes =>
    dsimp only
    refine ⟨rfl, ?_, ?_, ?_⟩
    · split
      · split
        · rfl
        · rfl
      · rfl
    · split
      · split
        · rfl
        · rfl
      · rfl
    · intro sample hsample
      cases hsaved : answer.saved with
      | error fault =>
        rw [hsaved] at hsample
        exact (nomatch hsample)
      | ok _ =>
        rw [hsaved] at hsample
        cases hsample
        rfl

theorem call_result (callback : ProviderCallback) (sampler : ExportSampler) (answer : Answer) :
    (callback.call sampler context answer).result.isOk = answer.ok := by
  unfold ProviderCallback.call Answer.ok
  cases answer.attributes with
  | error fault => rfl
  | ok attributes =>
    cases answer.saved with
    | error fault => rfl
    | ok _ => rfl

theorem call_grows (callback : ProviderCallback) (sampler : ExportSampler) (answer : Answer) :
    sampler.Grows (callback.call sampler context answer).sampler := by
  cases hattributes : answer.attributes.isOk with
  | false =>
    obtain ⟨fault, hcall⟩ := @call_eq_of_error context callback sampler answer hattributes
    rw [hcall]
    exact .refl sampler
  | true =>
    obtain ⟨-, hkinds, htypes, -⟩ := @call_of_ok context callback sampler answer hattributes
    have hgrows := find_grows callback sampler context
    exact ⟨hkinds ▸ hgrows.kinds, htypes ▸ hgrows.recordTypes⟩

/-- One callback. -/
theorem call_spec {callback : ProviderCallback} {sampler : ExportSampler} {answer : Answer}
    {first : Nat → Option Described} (h : callback.Keeps first tracepoint sampler)
    (hmeans : Means tracepoint context.formatKey context.described)
    (hnames : tracepoint.eventNames.strings.length ≤ 2 ^ 31)
    (hformats : tracepoint.formats.length ≤ 2 ^ 32)
    (hroom : (callback.call sampler context answer).sampler.Roomy)
    (hattributes : answer.attributes.isOk) :
    (callback.call sampler context answer).callback.Keeps
        (addFirst first context.key context.described) tracepoint
        (callback.call sampler context answer).sampler ∧
      (callback.call sampler context answer).callback.fullName = callback.fullName ∧
      ∀ sample, (callback.call sampler context answer).result = .ok sample →
        ∃ described, addFirst first context.key context.described context.key = some described ∧
          HasType (callback.call sampler context answer).sampler
            (callback.fullName described.name) described.format sample.recordType := by
  obtain ⟨hcallback, hkinds, htypes, hsample⟩ :=
    @call_of_ok context callback sampler answer hattributes
  have hsame : (callback.find sampler context).2.2.Grows
      (callback.call sampler context answer).sampler :=
    ⟨hkinds ▸ List.prefix_refl _, htypes ▸ List.prefix_refl _⟩
  obtain ⟨hkeeps, described, hfirst, htype⟩ := find_spec h hmeans hnames hformats
    (hroom.of_grows hsame)
  refine ⟨?_, ?_, fun sample hok => ⟨described, hfirst, ?_⟩⟩
  · rw [hcallback]
    exact hkeeps.grows (.refl _) hsame
  · rw [hcallback]
    exact find_fullName ..
  · rw [hsample sample hok]
    exact htype.grows hsame

theorem callAll_grows (callbacks : List ProviderCallback) (start : Nat) (sampler : ExportSampler) :
    sampler.Grows (callAll context answers start callbacks sampler).sampler := by
  induction callbacks generalizing start sampler with
  | nil => exact .refl sampler
  | cons callback callbacks ih =>
    have hcall := @call_grows context callback sampler (answers start)
    unfold callAll
    dsimp only
    split
    · exact hcall
    · exact hcall.trans (ih _ _)

/-- All callbacks: each that is reached keeps one more event, and each sample has the record type of
the first event with its key. -/
theorem callAll_spec {callbacks : List ProviderCallback} {start : Nat} {sampler : ExportSampler}
    {first : Nat → Nat → Option Described}
    (h : ∀ (i : Nat) (callback : ProviderCallback), callbacks[i]? = some callback →
      callback.Keeps (first i) tracepoint sampler)
    (hmeans : Means tracepoint context.formatKey context.described)
    (hnames : tracepoint.eventNames.strings.length ≤ 2 ^ 31)
    (hformats : tracepoint.formats.length ≤ 2 ^ 32)
    (hroom : (callAll context answers start callbacks sampler).sampler.Roomy) :
    (∀ (i : Nat) (callback' : ProviderCallback),
        (callAll context answers start callbacks sampler).callbacks[i]? = some callback' →
      ∃ callback, callbacks[i]? = some callback ∧ callback'.fullName = callback.fullName ∧
        callback'.Keeps
          (if reached answers start i then addFirst (first i) context.key context.described
            else first i)
          tracepoint (callAll context answers start callbacks sampler).sampler) ∧
      ∀ i sample, (i, sample) ∈ (callAll context answers start callbacks sampler).samples →
        ∃ j callback described, i = start + j ∧ callbacks[j]? = some callback ∧
          reached answers start j ∧
          addFirst (first j) context.key context.described context.key = some described ∧
          HasType (callAll context answers start callbacks sampler).sampler
            (callback.fullName described.name) described.format sample.recordType := by
  induction callbacks generalizing start sampler first with
  | nil => exact ⟨fun _ _ hget => (nomatch hget), fun _ _ hmem => (List.not_mem_nil hmem).elim⟩
  | cons callback callbacks ih =>
    have hgrows := @call_grows context callback sampler (answers start)
    have hresult := @call_result context callback sampler (answers start)
    have hhead : (callback.call sampler context (answers start)).sampler.Roomy →
        (callback.call sampler context (answers start)).callback.fullName = callback.fullName ∧
          (callback.call sampler context (answers start)).callback.Keeps
            (if reached answers start 0 then addFirst (first 0) context.key context.described
              else first 0)
            tracepoint (callback.call sampler context (answers start)).sampler := by
      intro hroom'
      unfold reached
      cases hattributes : (answers start).attributes.isOk with
      | false =>
        obtain ⟨fault, hcall⟩ := @call_eq_of_error context callback sampler _ hattributes
        rw [hcall]
        exact ⟨rfl, h 0 callback rfl⟩
      | true =>
        obtain ⟨hkeeps, hname, -⟩ :=
          call_spec (h 0 callback rfl) hmeans hnames hformats hroom' hattributes
        exact ⟨hname, hkeeps⟩
    unfold callAll at hroom ⊢
    dsimp only at hroom ⊢
    cases hcalled : (callback.call sampler context (answers start)).result with
    | error fault =>
      rw [hcalled] at hroom hresult
      dsimp only at hroom ⊢
      obtain ⟨hname, hkeeps⟩ := hhead hroom
      refine ⟨fun i callback' hget => ?_, fun _ _ hmem => (List.not_mem_nil hmem).elim⟩
      cases i with
      | zero =>
        cases hget
        exact ⟨callback, rfl, hname, hkeeps⟩
      | succ i =>
        have hnot : reached answers start (i + 1) = false := by
          rw [reached, ← hresult]
          rfl
        rw [hnot]
        exact ⟨callback', hget, rfl,
          (h (i + 1) callback' hget).grows (.refl _) hgrows⟩
    | ok sample =>
      rw [hcalled] at hroom hresult
      dsimp only at hroom ⊢
      have hrest := @callAll_grows context answers callbacks (start + 1)
        (callback.call sampler context (answers start)).sampler
      have hroom' := hroom.of_grows hrest
      obtain ⟨hname, hkeeps⟩ := hhead hroom'
      have hok : (answers start).ok = true := hresult.symm
      have hnext : ∀ i, reached answers start (i + 1) = reached answers (start + 1) i := by
        intro i
        rw [reached, hok, Bool.true_and]
      obtain ⟨hcallbacks, hsamples⟩ := @ih (start + 1)
        (callback.call sampler context (answers start)).sampler (fun i => first (i + 1))
        (fun i callback' hget =>
          (h (i + 1) callback' hget).grows (.refl _) hgrows)
        hroom
      refine ⟨fun i callback' hget => ?_, fun i sample' hmem => ?_⟩
      · cases i with
        | zero =>
          cases hget
          exact ⟨callback, rfl, hname, hkeeps.grows (.refl _) hrest⟩
        | succ i =>
          rw [hnext]
          exact hcallbacks i callback' hget
      · rcases List.mem_cons.mp hmem with heq | hmem
        · cases heq
          have hattributes : (answers start).attributes.isOk = true := by
            unfold Answer.ok at hok
            exact (Bool.and_eq_true_iff.mp hok).1
          obtain ⟨-, -, hfound⟩ :=
            call_spec (h 0 callback rfl) hmeans hnames hformats hroom' hattributes
          obtain ⟨described, hfirst, htype⟩ := hfound sample hcalled
          exact ⟨0, callback, described, rfl, rfl, hattributes, hfirst, htype.grows hrest⟩
        · obtain ⟨j, callback', described, rfl, hget, hreached, hfirst, htype⟩ :=
            hsamples i sample' hmem
          refine ⟨j + 1, callback', described, by omega, hget, ?_, hfirst, htype⟩
          rw [hnext]
          exact hreached

/-- Callbacks are neither added nor removed. -/
theorem length_callAll (callbacks : List ProviderCallback) (start : Nat) (sampler : ExportSampler) :
    (callAll context answers start callbacks sampler).callbacks.length = callbacks.length := by
  induction callbacks generalizing start sampler with
  | nil => rfl
  | cons callback callbacks ih =>
    rw [callAll]
    dsimp only
    split
    · rfl
    · exact congrArg (· + 1) (ih _ _)

/-- The callbacks that save a sample. -/
theorem callAll_samples {callbacks : List ProviderCallback} {start : Nat} {sampler : ExportSampler}
    {i : Nat} :
    (∃ sample, (i, sample) ∈ (callAll context answers start callbacks sampler).samples) ↔
      ∃ j < callbacks.length, i = start + j ∧ reached answers start j ∧
        (answers (start + j)).saved.isOk := by
  induction callbacks generalizing start sampler with
  | nil =>
    constructor
    · rintro ⟨sample, hmem⟩
      exact (List.not_mem_nil hmem).elim
    · rintro ⟨j, hj, -⟩
      exact absurd hj (Nat.not_lt_zero j)
  | cons callback callbacks ih =>
    have hresult := @call_result context callback sampler (answers start)
    rw [callAll]
    dsimp only
    cases hcalled : (callback.call sampler context (answers start)).result with
    | error fault =>
      rw [hcalled] at hresult
      constructor
      · rintro ⟨sample, hmem⟩
        exact (List.not_mem_nil hmem).elim
      · rintro ⟨j, -, -, hreached, hsaved⟩
        have hok : (answers start).ok = false := hresult.symm
        cases j with
        | zero =>
          have hsame : (answers start).ok = true :=
            Bool.and_eq_true_iff.mpr ⟨hreached, hsaved⟩
          rw [hok] at hsame
          exact (nomatch hsame)
        | succ j =>
          rw [reached, hok] at hreached
          exact (nomatch hreached)
    | ok sample =>
      rw [hcalled] at hresult
      have hok : (answers start).ok = true := hresult.symm
      obtain ⟨hattributes, hsaved⟩ := Bool.and_eq_true_iff.mp hok
      constructor
      · rintro ⟨sample', hmem⟩
        rcases List.mem_cons.mp hmem with heq | hmem
        · cases heq
          exact ⟨0, by simp, rfl, hattributes, hsaved⟩
        · obtain ⟨j, hj, hi, hreached, hsaved'⟩ := ih.mp ⟨sample', hmem⟩
          refine ⟨j + 1, by simpa using hj, by omega, ?_, ?_⟩
          · rw [reached, hok]
            exact hreached
          · rwa [Nat.add_right_comm, Nat.add_assoc] at hsaved'
      · rintro ⟨j, hj, hi, hreached, hsaved'⟩
        cases j with
        | zero =>
          rw [hi]
          exact ⟨sample, List.mem_cons_self⟩
        | succ j =>
          rw [reached, hok, Bool.true_and] at hreached
          obtain ⟨sample', hmem⟩ := (@ih (start + 1)
            (callback.call sampler context (answers start)).sampler).mpr
              ⟨j, by simpa using hj, by omega, hreached, by
                rwa [Nat.add_right_comm, Nat.add_assoc]⟩
          exact ⟨sample', List.mem_cons_of_mem _ hmem⟩

end Calls

/-! ## Metadata -/

/-- What an event is by the latest metadata of its pid and event id. -/
def describe (useNames : Bool) (id : Nat) : Option MetaParserV5 → Described
  | some metadata =>
    if useNames then
      ⟨if metadata.name = "" then unknownName id else metadata.name,
        FieldsParserV5.parse metadata.fields⟩
    else ⟨unknownName id, {}⟩
  | none => ⟨unknownName id, {}⟩

/-- The ids of a name and of a format lead to those of the metadata. -/
structure Named (tracepoint : Tracepoint) (info : LinuxDotNetEventInfo) (metadata : MetaParserV5) :
    Prop where
  name : match info.nameId with
    | some n => metadata.name ≠ "" ∧ tracepoint.eventNames.fromId n = some metadata.name
    | none => metadata.name = ""
  format : ∃ index, info.formatIndex = some index ∧
    tracepoint.formats[index]? = some (FieldsParserV5.parse metadata.fields)

def InfoOf (useNames : Bool) (tracepoint : Tracepoint) :
    Option LinuxDotNetEventInfo → Option MetaParserV5 → Prop
  | none, none => True
  | some info, some metadata =>
    if useNames then Named tracepoint info metadata
    else info.nameId = none ∧ info.formatIndex = none
  | _, _ => False

theorem infoOf_some {useNames : Bool} {tracepoint : Tracepoint} {info : LinuxDotNetEventInfo}
    {metadata : MetaParserV5} :
    InfoOf useNames tracepoint (some info) (some metadata) ↔
      if useNames then Named tracepoint info metadata
      else info.nameId = none ∧ info.formatIndex = none := Iff.rfl

/-- A tracepoint has the latest metadata of every key. -/
structure Tracepoint.Sound (tracepoint : Tracepoint) (useNames : Bool)
    (latest : Nat → Option MetaParserV5) : Prop where
  default : tracepoint.formats[0]? = some ({} : EventFormat)
  lookup : ∀ fields index, tracepoint.formatLookup fields = some index →
    tracepoint.formats[index]? = some (FieldsParserV5.parse fields)
  infos : ∀ key, InfoOf useNames tracepoint (tracepoint.infoLookup key) (latest key)

section Metadata

variable {tracepoint tracepoint' : Tracepoint} {useNames : Bool}
  {latest : Nat → Option MetaParserV5}

theorem InfoOf.grows {info : Option LinuxDotNetEventInfo} {metadata : Option MetaParserV5}
    (h : InfoOf useNames tracepoint info metadata) (hgrows : tracepoint.Grows tracepoint') :
    InfoOf useNames tracepoint' info metadata := by
  cases info with
  | none =>
    cases metadata with
    | none => trivial
    | some metadata => exact h
  | some info =>
    cases metadata with
    | none => exact h
    | some metadata =>
      rw [infoOf_some] at h ⊢
      split
      · rename_i huse
        rw [if_pos huse] at h
        obtain ⟨hname, index, hindex, hformat⟩ := h
        refine ⟨?_, index, hindex, getElem?_of_extends hgrows.formats hformat⟩
        cases hid : info.nameId with
        | none =>
          rw [hid] at hname
          exact hname
        | some n =>
          rw [hid] at hname
          exact ⟨hname.1, InternedStrings.fromId_of_prefix hgrows.eventNames hname.2⟩
      · rename_i huse
        rw [if_neg huse] at h
        exact h

theorem addName_spec (tracepoint : Tracepoint) (name : String) :
    tracepoint.Grows (tracepoint.addName name).2 ∧
      (tracepoint.addName name).2.infoLookup = tracepoint.infoLookup ∧
      (tracepoint.addName name).2.formats = tracepoint.formats ∧
      (tracepoint.addName name).2.formatLookup = tracepoint.formatLookup ∧
      match (tracepoint.addName name).1 with
      | some n => name ≠ "" ∧ (tracepoint.addName name).2.eventNames.fromId n = some name
      | none => name = "" := by
  unfold Tracepoint.addName
  split
  · rename_i hempty
    exact ⟨.refl _, rfl, rfl, rfl, hempty⟩
  · rename_i hname
    refine ⟨⟨InternedStrings.prefix_toId _ _, List.prefix_refl _⟩, rfl, rfl, rfl, hname, ?_⟩
    exact InternedStrings.fromId_toId _ _ (List.prefix_refl _)

/-- Fields get the index of their format. -/
theorem addFormat_spec (hdefault : tracepoint.formats[0]? = some ({} : EventFormat))
    (hlookup : ∀ fields index, tracepoint.formatLookup fields = some index →
      tracepoint.formats[index]? = some (FieldsParserV5.parse fields)) (fields : List UInt8) :
    tracepoint.Grows (tracepoint.addFormat fields).2 ∧
      (tracepoint.addFormat fields).2.infoLookup = tracepoint.infoLookup ∧
      (tracepoint.addFormat fields).2.formats[0]? = some ({} : EventFormat) ∧
      (∀ fields' index, (tracepoint.addFormat fields).2.formatLookup fields' = some index →
        (tracepoint.addFormat fields).2.formats[index]? =
          some (FieldsParserV5.parse fields')) ∧
      (tracepoint.addFormat fields).2.formats[(tracepoint.addFormat fields).1]? =
        some (FieldsParserV5.parse fields) := by
  unfold Tracepoint.addFormat
  split
  · rename_i index hindex
    exact ⟨.refl _, rfl, hdefault, hlookup, hlookup fields index hindex⟩
  · have hprefix := List.prefix_append tracepoint.formats [FieldsParserV5.parse fields]
    have hnew : (tracepoint.formats ++ [FieldsParserV5.parse fields])[tracepoint.formats.length]? =
        some (FieldsParserV5.parse fields) := List.getElem?_concat_length
    refine ⟨⟨List.prefix_refl _, hprefix⟩, rfl, getElem?_of_extends hprefix hdefault, ?_, hnew⟩
    intro fields' index hindex
    dsimp only at hindex ⊢
    by_cases heq : fields' = fields
    · rw [heq, Function.update_self] at hindex
      cases hindex
      rw [heq]
      exact hnew
    · rw [Function.update_of_ne heq] at hindex
      exact getElem?_of_extends hprefix (hlookup fields' index hindex)

/-- One label with metadata. -/
theorem Tracepoint.Sound.addMeta (h : tracepoint.Sound useNames latest)
    (namedEvents : String → Option Nat) (key : Nat) (metadata : MetaParserV5) :
    (tracepoint.addMeta useNames namedEvents key metadata).Sound useNames
        (Function.update latest key (some metadata)) ∧
      tracepoint.Grows (tracepoint.addMeta useNames namedEvents key metadata) := by
  have hinfos : ∀ {tracepoint' : Tracepoint} {info : LinuxDotNetEventInfo},
      tracepoint.Grows tracepoint' →
      InfoOf useNames tracepoint' (some info) (some metadata) →
      ∀ key', InfoOf useNames tracepoint'
        (Function.update tracepoint.infoLookup key (some info) key')
        (Function.update latest key (some metadata) key') := by
    intro tracepoint' info hgrows hinfo key'
    by_cases hkey : key' = key
    · rw [hkey, Function.update_self, Function.update_self]
      exact hinfo
    · rw [Function.update_of_ne hkey, Function.update_of_ne hkey]
      exact (h.infos key').grows hgrows
  unfold Tracepoint.addMeta
  dsimp only
  split
  · rename_i huse
    obtain ⟨hgrowsName, hinfoName, hformats, hlookup, hname⟩ :=
      addName_spec tracepoint metadata.name
    obtain ⟨hgrowsFormat, hinfoFormat, hdefault, hlookup', hindex⟩ :=
      @addFormat_spec (tracepoint.addName metadata.name).2 (hformats ▸ h.default)
        (by rw [hformats, hlookup]; exact h.lookup) metadata.fields
    have hgrows := hgrowsName.trans hgrowsFormat
    refine ⟨⟨hdefault, hlookup', ?_⟩, ⟨hgrows.eventNames, hgrows.formats⟩⟩
    dsimp only
    rw [hinfoFormat, hinfoName]
    refine hinfos ⟨hgrows.eventNames, hgrows.formats⟩ ?_
    rw [infoOf_some]
    rw [if_pos huse]
    refine ⟨?_, _, rfl, hindex⟩
    dsimp only
    split
    · rename_i n hn
      rw [hn] at hname
      exact ⟨hname.1, InternedStrings.fromId_of_prefix hgrowsFormat.eventNames hname.2⟩
    · rename_i hn
      rw [hn] at hname
      exact hname
  · rename_i huse
    have hgrows : tracepoint.Grows tracepoint := .refl _
    refine ⟨⟨h.default, h.lookup, hinfos ⟨hgrows.eventNames, hgrows.formats⟩ ?_⟩,
      ⟨hgrows.eventNames, hgrows.formats⟩⟩
    rw [infoOf_some]
    rw [if_neg huse]
    exact ⟨rfl, rfl⟩

/-- All metadata of an event. -/
theorem Tracepoint.Sound.addMetas (h : tracepoint.Sound useNames latest)
    (namedEvents : String → Option Nat) (data : TracepointData) :
    (tracepoint.addMetas useNames namedEvents data).Sound useNames
        (fun key => if key = data.key then (data.metas.getLast?).or (latest key) else latest key) ∧
      tracepoint.Grows (tracepoint.addMetas useNames namedEvents data) := by
  unfold Tracepoint.addMetas
  induction data.metas using List.reverseRecOn with
  | nil =>
    refine ⟨?_, .refl _⟩
    have hsame : (fun key => if key = data.key then (List.getLast? []).or (latest key)
        else latest key) = latest := by
      funext key
      split
      · rfl
      · rfl
    rw [hsame]
    exact h
  | append_singleton metas metadata ih =>
    obtain ⟨hsound, hgrows⟩ := ih
    obtain ⟨hsound', hgrows'⟩ := hsound.addMeta namedEvents data.key metadata
    rw [List.foldl_append]
    refine ⟨?_, hgrows.trans hgrows'⟩
    have hlast : (fun key => if key = data.key then ((metas ++ [metadata]).getLast?).or (latest key)
        else latest key) = Function.update (fun key => if key = data.key then
          (metas.getLast?).or (latest key) else latest key) data.key (some metadata) := by
      funext key
      by_cases hkey : key = data.key
      · rw [if_pos hkey, hkey, Function.update_self, List.getLast?_concat]
        rfl
      · rw [if_neg hkey, Function.update_of_ne hkey, if_neg hkey]
    rw [hlast]
    exact hsound'

theorem format_addMetas (useNames : Bool) (namedEvents : String → Option Nat)
    (tracepoint : Tracepoint) (data : TracepointData) :
    (tracepoint.addMetas useNames namedEvents data).format = tracepoint.format := by
  have hname : ∀ (tracepoint : Tracepoint) (name : String),
      (tracepoint.addName name).2.format = tracepoint.format := by
    intro tracepoint name
    unfold Tracepoint.addName
    split
    · rfl
    · rfl
  have hformat : ∀ (tracepoint : Tracepoint) (fields : List UInt8),
      (tracepoint.addFormat fields).2.format = tracepoint.format := by
    intro tracepoint fields
    unfold Tracepoint.addFormat
    split
    · rfl
    · rfl
  unfold Tracepoint.addMetas
  induction data.metas generalizing tracepoint with
  | nil => rfl
  | cons metadata metas ih =>
    rw [List.foldl_cons, ih]
    unfold Tracepoint.addMeta
    dsimp only
    split
    · exact (hformat _ _).trans (hname _ _)
    · rfl

/-- What callbacks learn of an event is what its latest metadata says. -/
theorem described_contextOf (h : tracepoint.Sound useNames latest) (data : TracepointData) :
    (Session.contextOf tracepoint data).described =
      describe useNames data.id (latest data.key) := by
  have hinfo := h.infos data.key
  unfold LinuxDotNetProviderContext.described LinuxDotNetProviderContext.shortEventName
    LinuxDotNetProviderContext.selfDescribingFormat Session.contextOf
  dsimp only
  cases hlookup : tracepoint.infoLookup data.key with
  | none =>
    cases hlatest : latest data.key with
    | none => rfl
    | some metadata =>
      rw [hlookup, hlatest] at hinfo
      exact hinfo.elim
  | some info =>
    cases hlatest : latest data.key with
    | none =>
      rw [hlookup, hlatest] at hinfo
      exact hinfo.elim
    | some metadata =>
      rw [hlookup, hlatest] at hinfo
      rw [infoOf_some] at hinfo
      unfold describe
      rw [Option.getD_some]
      dsimp only
      split at hinfo
      · rename_i huse
        obtain ⟨hname, index, hindex, hformat⟩ := hinfo
        rw [if_pos huse, hindex, Option.bind_some, hformat, Option.getD_some]
        cases hid : info.nameId with
        | none =>
          rw [hid] at hname
          rw [if_pos hname]
          rfl
        | some n =>
          rw [hid] at hname
          dsimp only
          rw [hname.2, if_neg hname.1]
      · rename_i huse
        rw [if_neg huse, hinfo.1, hinfo.2]
        rfl

/-- A format key stands for what the event is, by the names and formats of the tracepoint for all
events. -/
theorem means_contextOf {all : Tracepoint} (h : tracepoint.Sound useNames latest)
    (hall : useNames = true → all = tracepoint) (hdefault : all.formats[0]? = some ({} : EventFormat))
    {data : TracepointData} (hid : data.id < 2 ^ 16) :
    Means all (Session.contextOf tracepoint data).formatKey
      (Session.contextOf tracepoint data).described := by
  have hdescribed := described_contextOf h data
  have hinfo := h.infos data.key
  have hunknown : (tracepoint.infoLookup data.key).getD {} = {} ∨
      ((tracepoint.infoLookup data.key).getD {}).nameId = none ∧
        ((tracepoint.infoLookup data.key).getD {}).formatIndex = none →
      describe useNames data.id (latest data.key) = ⟨unknownName data.id, {}⟩ →
      Means all (Session.contextOf tracepoint data).formatKey
        (Session.contextOf tracepoint data).described := by
    intro hnone hdescribe
    have hids : ((tracepoint.infoLookup data.key).getD {}).nameId = none ∧
        ((tracepoint.infoLookup data.key).getD {}).formatIndex = none := by
      rcases hnone with hnone | hnone
      · rw [hnone]
        exact ⟨rfl, rfl⟩
      · exact hnone
    rw [hdescribed, hdescribe]
    refine ⟨none, data.id, 0, ?_, hid, hdefault, rfl⟩
    unfold LinuxDotNetProviderContext.formatKey Session.contextOf
    dsimp only
    rw [hids.1, hids.2]
    rfl
  cases hlookup : tracepoint.infoLookup data.key with
  | none =>
    cases hlatest : latest data.key with
    | none =>
      refine hunknown (.inl ?_) ?_
      · rw [hlookup]
        rfl
      · rw [hlatest]
        rfl
    | some metadata =>
      rw [hlookup, hlatest] at hinfo
      exact hinfo.elim
  | some info =>
    cases hlatest : latest data.key with
    | none =>
      rw [hlookup, hlatest] at hinfo
      exact hinfo.elim
    | some metadata =>
      rw [hlookup, hlatest] at hinfo
      rw [infoOf_some] at hinfo
      split at hinfo
      · rename_i huse
        obtain ⟨hname, index, hindex, hformat⟩ := hinfo
        rw [hall huse]
        refine ⟨info.nameId, data.id, index, ?_, hid, ?_, ?_⟩
        · unfold LinuxDotNetProviderContext.formatKey Session.contextOf
          dsimp only
          rw [hlookup, Option.getD_some, hindex]
          rfl
        · rw [hdescribed, hlatest, describe, if_pos huse]
          exact hformat
        · rw [hdescribed, hlatest, describe, if_pos huse]
          cases hn : info.nameId with
          | none =>
            rw [hn] at hname
            exact if_pos hname
          | some n =>
            rw [hn] at hname
            dsimp only
            rw [if_neg hname.1]
            exact hname.2
      · rename_i huse
        refine hunknown (.inr ?_) ?_
        · rw [hlookup]
          exact hinfo
        · rw [hlatest, describe, if_neg huse]

end Metadata

end OneCollect.Dotnet
