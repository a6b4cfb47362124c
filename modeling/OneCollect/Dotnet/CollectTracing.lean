import OneCollect.Dotnet.EventFactory
import OneCollect.Theory.Parser

/-! The request that turns on the events of a .NET runtime (`os/linux.rs`,
`UserEventTracker::enable_events`), and what the runtime reads of it. Texts are written one unit
for each character, and the size is cut to 16 bits, so the request is read back exactly when each
character is a unit and the size is one of 16 bits. -/

namespace OneCollect.Dotnet
open Theory

/-! ## Settings -/

/-- A provider with its filter arguments, in the types that its parts have. -/
structure UserEventProvider extends UserEventProviderEvents where
  name : List Char
  filterArgs : List Char
  keyword_lt : keyword < 2 ^ 64
  level_lt : level < 2 ^ 8
  event_lt : ∀ tracepoint ∈ events, ∀ event ∈ tracepoint.events, event < 2 ^ 32

/-- The providers in the order of their map. -/
structure UserEventTrackerSettings where
  providers : List UserEventProvider

namespace UserEventTracker

/-- `as u32 + 1u32`. -/
def textCount (value : List Char) : Exec Nat :=
  if value.length % 2 ^ 32 + 1 < 2 ^ 32 then .ok (value.length % 2 ^ 32 + 1) else panicked

def writeString (value : List Char) : Exec (List UInt8) :=
  if value.isEmpty then .ok (toLe 4 0)
  else do
    let count ← textCount value
    .ok (toLe 4 count ++ (value.flatMap (fun c => toLe 2 c.toNat) ++ toLe 2 0))

def writeTracepoint (tracepoint : UserEventTracepointEvents) : Exec (List UInt8) := do
  let name ← writeString tracepoint.tracepoint
  .ok (name ++ (toLe 4 tracepoint.events.length ++ tracepoint.events.flatMap (toLe 4)))

/-- One after another. -/
def writeAll {α : Type} (write : α → Exec (List UInt8)) : List α → Exec (List UInt8)
  | [] => .ok []
  | x :: xs => do
    let front ← write x
    let back ← writeAll write xs
    .ok (front ++ back)

/-- All ids that are listed for a tracepoint. -/
def listed (provider : UserEventProvider) : List Nat := provider.events.flatMap (·.events)

/-- The event filter: all events where there is a default tracepoint, else those that are listed. -/
def eventFilter (provider : UserEventProvider) : List UInt8 :=
  if provider.defaultTracepoint.isSome then toLe 1 0 ++ toLe 4 0
  else toLe 1 1 ++ (toLe 4 (listed provider).length ++ (listed provider).flatMap (toLe 4))

def writeProvider (provider : UserEventProvider) : Exec (List UInt8) := do
  let name ← writeString provider.name
  let filterArgs ← writeString provider.filterArgs
  let defaultTracepoint ← writeString (provider.defaultTracepoint.getD [])
  let tracepoints ← writeAll writeTracepoint provider.events
  .ok (toLe 8 provider.keyword ++ (toLe 4 provider.level ++ (name ++ (filterArgs ++
    (eventFilter provider ++ (defaultTracepoint ++
      (toLe 4 provider.events.length ++ tracepoints)))))))

def magic : List UInt8 := [68, 79, 84, 78, 69, 84, 95, 73, 80, 67, 95, 86, 49, 0]

/-- The message; its size is filled in behind the magic when all of it is there. -/
def enableEvents (settings : UserEventTrackerSettings) : Exec (List UInt8) := do
  let providers ← writeAll writeProvider settings.providers
  let buffer := magic ++ (toLe 2 0 ++ ([2, 6, 0, 0] ++ (toLe 4 1 ++ (toLe 8 0 ++
    (toLe 4 settings.providers.length ++ providers)))))
  .ok (buffer.take 14 ++ (toLe 2 buffer.length ++ buffer.drop 16))

end UserEventTracker

/-! ## What the runtime reads -/

namespace CollectTracing

structure Tracepoint where
  name : List Nat
  events : List Nat
  deriving DecidableEq, Repr

structure Provider where
  keyword : Nat
  level : Nat
  name : List Nat
  filterData : List Nat
  allow : Nat
  filter : List Nat
  defaultTracepoint : List Nat
  tracepoints : List Tracepoint
  deriving DecidableEq, Repr

structure Request where
  size : Nat
  outputFormat : Nat
  rundownKeyword : Nat
  providers : List Provider
  deriving DecidableEq, Repr

open Parser

/-- The code units of a text, of which the last is a null; without any there is no text. -/
def readText : Parser (List Nat) := do
  let count ← word 4
  if count = 0 then return []
  else
    let units ← replicate (word 2) (count - 1)
    expect 0 (word 2)
    return units

def readWords : Parser (List Nat) := do
  let count ← word 4
  replicate (word 4) count

def readTracepoint : Parser Tracepoint := do
  let name ← readText
  let events ← readWords
  return ⟨name, events⟩

def readProvider : Parser Provider := do
  let keyword ← word 8
  let level ← word 4
  let name ← readText
  let filterData ← readText
  let allow ← word 1
  let filter ← readWords
  let defaultTracepoint ← readText
  let count ← word 4
  let tracepoints ← replicate readTracepoint count
  return ⟨keyword, level, name, filterData, allow, filter, defaultTracepoint, tracepoints⟩

/-- The fixed bytes of a message. -/
def expectBytes (bytes : List UInt8) : Parser Unit := do
  let front ← take bytes.length
  if front = bytes then return () else failure

def readRequest : Parser Request := do
  expectBytes UserEventTracker.magic
  let size ← word 2
  expectBytes [2, 6, 0, 0]
  let outputFormat ← word 4
  let rundownKeyword ← word 8
  let count ← word 4
  let providers ← replicate readProvider count
  return ⟨size, outputFormat, rundownKeyword, providers⟩

/-! ### The settings on the wire

With the units that are taken for a text. -/

def ofTracepoint (units : List Char → List Nat) (tracepoint : UserEventTracepointEvents) :
    Tracepoint :=
  ⟨units tracepoint.tracepoint, tracepoint.events⟩

def ofProvider (units : List Char → List Nat) (provider : UserEventProvider) : Provider :=
  { keyword := provider.keyword
    level := provider.level
    name := units provider.name
    filterData := units provider.filterArgs
    allow := if provider.defaultTracepoint.isSome then 0 else 1
    filter := if provider.defaultTracepoint.isSome then [] else UserEventTracker.listed provider
    defaultTracepoint := units (provider.defaultTracepoint.getD [])
    tracepoints := provider.events.map (ofTracepoint units) }

def ofSettings (units : List Char → List Nat) (settings : UserEventTrackerSettings) (size : Nat) :
    Request :=
  ⟨size, 1, 0, settings.providers.map (ofProvider units)⟩

/-- The code units of a text. -/
def textUnits (value : List Char) : List Nat := value.flatMap encodeUtf16

/-- The units that are written: each character is cut to one. -/
def sentUnits (value : List Char) : List Nat := value.map (·.toNat % 2 ^ 16)

/-! ### Sizes -/

def textSize (value : List Char) : Nat := if value.isEmpty then 4 else 6 + 2 * value.length

def tracepointSize (tracepoint : UserEventTracepointEvents) : Nat :=
  textSize tracepoint.tracepoint + (4 + 4 * tracepoint.events.length)

def filterSize (provider : UserEventProvider) : Nat :=
  if provider.defaultTracepoint.isSome then 5
  else 5 + 4 * (UserEventTracker.listed provider).length

def providerSize (provider : UserEventProvider) : Nat :=
  12 + textSize provider.name + textSize provider.filterArgs + filterSize provider +
    textSize (provider.defaultTracepoint.getD []) + (4 + (provider.events.map tracepointSize).sum)

def requestSize (settings : UserEventTrackerSettings) : Nat :=
  36 + (settings.providers.map providerSize).sum

/-! ## What is written is read

A writer has a size, and where that fits a reader reads what was written. -/

/-- The bytes have this size; when it fits there are bytes, and they are read. -/
def Writes {α : Type} (run : Exec (List UInt8)) (size : Nat) (p : Parser α) (value : α) : Prop :=
  (∀ bytes, run = .ok bytes → bytes.length = size) ∧
    (size < 2 ^ 16 → ∃ bytes, run = .ok bytes ∧ Parses p bytes value)

theorem writes_ok {α : Type} {bytes : List UInt8} {size : Nat} {p : Parser α} {value : α}
    (hsize : bytes.length = size) (hparses : size < 2 ^ 16 → Parses p bytes value) :
    Writes (.ok bytes) size p value :=
  ⟨fun _ h => Except.ok.inj h ▸ hsize, fun h => ⟨bytes, rfl, hparses h⟩⟩

theorem parses_units (value : List Char) :
    Parses (replicate (word 2) value.length) (value.flatMap fun c => toLe 2 c.toNat)
      (sentUnits value) := by
  refine parses_replicate_map value fun c _ => ?_
  have hword : Parses (word 2) (toLe 2 c.toNat) (fromLe (toLe 2 c.toNat)) :=
    (parses_take_of_length (length_toLe 2 _)).map (f := fromLe)
  rwa [fromLe_toLe] at hword

theorem length_units (value : List Char) :
    (value.flatMap fun c => toLe 2 c.toNat).length = value.length * 2 :=
  length_flatMap_of_length (fun c => length_toLe 2 c.toNat) value

theorem writes_text (value : List Char) :
    Writes (UserEventTracker.writeString value) (textSize value) readText (sentUnits value) := by
  unfold UserEventTracker.writeString textSize
  split
  · rename_i hempty
    obtain rfl := List.isEmpty_iff.mp hempty
    refine writes_ok (length_toLe 4 0) fun _ => ?_
    rw [← List.append_nil (toLe 4 0)]
    exact (parses_word (by decide)).bind (parses_pure [])
  · unfold UserEventTracker.textCount
    split
    · rename_i hne hcount
      rw [ok_bind]
      refine writes_ok ?_ fun hsize => ?_
      · simp only [List.length_append, length_toLe, length_units]
        omega
      · have hlength : value.length % 2 ^ 32 + 1 = value.length + 1 := by omega
        rw [hlength, ← List.append_nil (toLe 2 0)]
        refine (parses_word (by omega)).bind ?_
        rw [if_neg (Nat.succ_ne_zero _), Nat.add_sub_cancel]
        exact (parses_units value).bind
          ((parses_expect (parses_word (by decide))).bind (parses_pure _))
    · rename_i hcount
      refine ⟨fun bytes h => absurd h (panicked_ne_ok bytes), fun hsize => ?_⟩
      omega

theorem parses_words {words : List Nat} (hcount : words.length < 2 ^ 32)
    (h : ∀ word ∈ words, word < 2 ^ 32) :
    Parses readWords (toLe 4 words.length ++ words.flatMap (toLe 4)) words :=
  (parses_word hcount).bind (parses_replicate words fun word hword => parses_word (h word hword))

theorem writes_tracepoint {tracepoint : UserEventTracepointEvents}
    (hevents : ∀ event ∈ tracepoint.events, event < 2 ^ 32) :
    Writes (UserEventTracker.writeTracepoint tracepoint) (tracepointSize tracepoint) readTracepoint
      (ofTracepoint sentUnits tracepoint) := by
  obtain ⟨hlength, hreads⟩ := writes_text tracepoint.tracepoint
  unfold UserEventTracker.writeTracepoint tracepointSize
  refine ⟨fun bytes hrun => ?_, fun hsize => ?_⟩
  · obtain ⟨name, hname, hrun⟩ := bind_eq_ok.mp hrun
    cases hrun
    rw [List.length_append, List.length_append, length_toLe, length_flatMap_toLe, hlength name hname]
  · obtain ⟨name, hname, hparses⟩ := hreads (by omega)
    refine ⟨_, by rw [hname, ok_bind], hparses.bind ?_⟩
    exact (parses_words (by omega) hevents).map (f := Tracepoint.mk _)

/-- Writers one after another. -/
theorem writes_all {α β : Type} {write : α → Exec (List UInt8)} {size : α → Nat} {p : Parser β}
    {value : α → β} {items : List α} (h : ∀ x ∈ items, Writes (write x) (size x) p (value x)) :
    Writes (UserEventTracker.writeAll write items) (items.map size).sum
      (replicate p items.length) (items.map value) := by
  induction items with
  | nil => exact writes_ok rfl fun _ => parses_pure []
  | cons x items ih =>
    obtain ⟨hhead, htail⟩ := List.forall_mem_cons.mp h
    obtain ⟨hlength, hreads⟩ := hhead
    obtain ⟨hlengths, hreadsAll⟩ := ih htail
    rw [UserEventTracker.writeAll, List.map_cons, List.sum_cons]
    refine ⟨fun bytes hrun => ?_, fun hsize => ?_⟩
    · obtain ⟨front, hfront, hrun⟩ := bind_eq_ok.mp hrun
      obtain ⟨back, hback, hrun⟩ := bind_eq_ok.mp hrun
      cases hrun
      rw [List.length_append, hlength front hfront, hlengths back hback]
    · obtain ⟨front, hfront, hparses⟩ := hreads (by omega)
      obtain ⟨back, hback, hparsesAll⟩ := hreadsAll (by omega)
      refine ⟨front ++ back, by rw [hfront, ok_bind, hback, ok_bind], ?_⟩
      exact hparses.bind (hparsesAll.map (f := (value x :: ·)))

theorem length_eventFilter (provider : UserEventProvider) :
    (UserEventTracker.eventFilter provider).length = filterSize provider := by
  unfold UserEventTracker.eventFilter filterSize
  split
  · rfl
  · simp only [List.length_append, length_toLe, length_flatMap_toLe]
    omega

theorem listed_lt (provider : UserEventProvider) :
    ∀ event ∈ UserEventTracker.listed provider, event < 2 ^ 32 := by
  intro event hevent
  obtain ⟨tracepoint, htracepoint, hevent⟩ := List.mem_flatMap.mp hevent
  exact provider.event_lt tracepoint htracepoint event hevent

/-- The filter is a kind and the ids for it, and more bytes follow. -/
theorem parses_eventFilter {α : Type} {provider : UserEventProvider}
    (hsize : filterSize provider < 2 ^ 16) {f : Nat → List Nat → Parser α} {bytes : List UInt8}
    {value : α}
    (hf : Parses (f (if provider.defaultTracepoint.isSome then 0 else 1)
      (if provider.defaultTracepoint.isSome then [] else UserEventTracker.listed provider))
      bytes value) :
    Parses (do
      let allow ← word 1
      let filter ← readWords
      f allow filter) (UserEventTracker.eventFilter provider ++ bytes) value := by
  unfold UserEventTracker.eventFilter
  unfold filterSize at hsize
  split_ifs at hsize hf ⊢ with hdefault
  · rw [List.append_assoc]
    have hnone := @parses_words [] (by decide) fun _ h => absurd h List.not_mem_nil
    rw [List.flatMap_nil, List.append_nil, List.length_nil] at hnone
    exact (parses_word (by decide)).bind (hnone.bind hf)
  · rw [List.append_assoc]
    exact (parses_word (by decide)).bind
      ((parses_words (by omega) (listed_lt provider)).bind hf)

theorem length_le_sum {α : Type} {size : α → Nat} {items : List α} (h : ∀ x ∈ items, 1 ≤ size x) :
    items.length ≤ (items.map size).sum := by
  induction items with
  | nil => exact Nat.zero_le _
  | cons x items ih =>
    obtain ⟨hx, hitems⟩ := List.forall_mem_cons.mp h
    have hrest := ih hitems
    rw [List.length_cons, List.map_cons, List.sum_cons]
    omega

theorem writes_provider (provider : UserEventProvider) :
    Writes (UserEventTracker.writeProvider provider) (providerSize provider) readProvider
      (ofProvider sentUnits provider) := by
  obtain ⟨hnameLength, hname⟩ := writes_text provider.name
  obtain ⟨hargsLength, hargs⟩ := writes_text provider.filterArgs
  obtain ⟨hdefaultLength, hdefault⟩ := writes_text (provider.defaultTracepoint.getD [])
  obtain ⟨htracepointsLength, htracepoints⟩ :
      Writes (UserEventTracker.writeAll UserEventTracker.writeTracepoint provider.events)
        (provider.events.map tracepointSize).sum
        (replicate readTracepoint provider.events.length)
        (provider.events.map (ofTracepoint sentUnits)) :=
    writes_all fun tracepoint h => writes_tracepoint (provider.event_lt tracepoint h)
  have hfilterLength := length_eventFilter provider
  unfold UserEventTracker.writeProvider providerSize
  refine ⟨fun bytes hrun => ?_, fun hsize => ?_⟩
  · obtain ⟨nameBytes, hnameRun, hrun⟩ := bind_eq_ok.mp hrun
    obtain ⟨argsBytes, hargsRun, hrun⟩ := bind_eq_ok.mp hrun
    obtain ⟨defaultBytes, hdefaultRun, hrun⟩ := bind_eq_ok.mp hrun
    obtain ⟨tracepointBytes, htracepointsRun, hrun⟩ := bind_eq_ok.mp hrun
    cases hrun
    simp only [List.length_append, length_toLe, hnameLength _ hnameRun, hargsLength _ hargsRun,
      hdefaultLength _ hdefaultRun, htracepointsLength _ htracepointsRun, hfilterLength]
    omega
  · have hcount : provider.events.length ≤ (provider.events.map tracepointSize).sum :=
      length_le_sum fun tracepoint _ => by unfold tracepointSize; omega
    obtain ⟨nameBytes, hnameRun, hnameParses⟩ := hname (by omega)
    obtain ⟨argsBytes, hargsRun, hargsParses⟩ := hargs (by omega)
    obtain ⟨defaultBytes, hdefaultRun, hdefaultParses⟩ := hdefault (by omega)
    obtain ⟨tracepointBytes, htracepointsRun, htracepointsParses⟩ := htracepoints (by omega)
    have hlevel := provider.level_lt
    refine ⟨_, by rw [hnameRun, ok_bind, hargsRun, ok_bind, hdefaultRun, ok_bind, htracepointsRun,
      ok_bind], ?_⟩
    unfold readProvider
    refine (parses_word provider.keyword_lt).bind ((parses_word (by omega)).bind
      (hnameParses.bind (hargsParses.bind ?_)))
    refine parses_eventFilter (by omega) (hdefaultParses.bind ?_)
    exact (parses_word (by omega)).bind (htracepointsParses.map (f := fun tracepoints => _))

theorem parses_expectBytes (bytes : List UInt8) : Parses (expectBytes bytes) bytes () := by
  have hcheck : Parses (if bytes = bytes then pure () else failure : Parser Unit) [] () := by
    rw [if_pos rfl]
    exact parses_pure ()
  have hbind := (parses_take bytes).bind
    (f := fun front => if front = bytes then pure () else failure) hcheck
  rwa [List.append_nil] at hbind

/-- The message with its size in place. -/
theorem enableEvents_eq {settings : UserEventTrackerSettings} {providers : List UInt8}
    (h : UserEventTracker.writeAll UserEventTracker.writeProvider settings.providers =
      .ok providers) :
    UserEventTracker.enableEvents settings =
      .ok (UserEventTracker.magic ++ (toLe 2 (36 + providers.length) ++ ([2, 6, 0, 0] ++
        (toLe 4 1 ++ (toLe 8 0 ++ (toLe 4 settings.providers.length ++ providers)))))) := by
  have hmagic : UserEventTracker.magic.length = 14 := rfl
  unfold UserEventTracker.enableEvents
  rw [h, ok_bind]
  generalize hrest : [2, 6, 0, 0] ++ (toLe 4 1 ++ (toLe 8 0 ++
    (toLe 4 settings.providers.length ++ providers))) = rest
  have hlength : rest.length = 20 + providers.length := by
    simp only [← hrest, List.length_append, length_toLe, List.length_cons, List.length_nil]
    omega
  have hbuffer : (UserEventTracker.magic ++ (toLe 2 0 ++ rest)).length = 36 + providers.length := by
    simp only [List.length_append, hmagic, length_toLe, hlength]
    omega
  have hdrop : (UserEventTracker.magic ++ (toLe 2 0 ++ rest)).drop 16 = rest := by
    rw [← List.append_assoc]
    exact List.drop_left' rfl
  dsimp only
  rw [hbuffer, hdrop, List.take_left' hmagic]

theorem writes_request (settings : UserEventTrackerSettings) :
    Writes (UserEventTracker.enableEvents settings) (requestSize settings) readRequest
      (ofSettings sentUnits settings (requestSize settings)) := by
  obtain ⟨hlength, hreads⟩ :
      Writes (UserEventTracker.writeAll UserEventTracker.writeProvider settings.providers)
        (settings.providers.map providerSize).sum
        (replicate readProvider settings.providers.length)
        (settings.providers.map (ofProvider sentUnits)) :=
    writes_all fun provider _ => writes_provider provider
  have hmagic : UserEventTracker.magic.length = 14 := rfl
  unfold requestSize
  refine ⟨fun bytes hrun => ?_, fun hsize => ?_⟩
  · obtain ⟨providers, hproviders, -⟩ := bind_eq_ok.mp hrun
    rw [enableEvents_eq hproviders] at hrun
    cases hrun
    simp only [List.length_append, hmagic, length_toLe, hlength providers hproviders,
      List.length_cons, List.length_nil]
    omega
  · have hcount : settings.providers.length ≤ (settings.providers.map providerSize).sum :=
      length_le_sum fun provider _ => by unfold providerSize; omega
    obtain ⟨providers, hproviders, hparses⟩ := hreads (by omega)
    refine ⟨_, enableEvents_eq hproviders, ?_⟩
    rw [hlength providers hproviders]
    unfold readRequest
    refine (parses_expectBytes _).bind ((parses_word (by omega)).bind
      ((parses_expectBytes _).bind ((parses_word (by decide)).bind
        ((parses_word (by decide)).bind ((parses_word (by omega)).bind ?_)))))
    exact hparses.map (f := fun providers => _)

/-! ## Requests that are read back -/

/-- The size of the message is its length, and all of it is read as the settings. -/
def Decodes (settings : UserEventTrackerSettings) : Prop :=
  ∃ message, UserEventTracker.enableEvents settings = .ok message ∧
    fromLe ((message.drop 14).take 2) = message.length ∧
    readAll readRequest message = some (ofSettings textUnits settings message.length)

/-- All texts of a provider. -/
def texts (provider : UserEventProvider) : List (List Char) :=
  provider.name :: provider.filterArgs :: provider.defaultTracepoint.getD [] ::
    provider.events.map (·.tracepoint)

/-- The characters are single units, and the size is one of 16 bits. -/
structure Fits (settings : UserEventTrackerSettings) : Prop where
  size : requestSize settings < 2 ^ 16
  single : ∀ provider ∈ settings.providers, ∀ text ∈ texts provider, ∀ c ∈ text, c.toNat < 2 ^ 16

theorem textUnits_of_single {text : List Char} (h : ∀ c ∈ text, c.toNat < 2 ^ 16) :
    textUnits text = sentUnits text := by
  rw [textUnits, sentUnits, List.map_eq_flatMap]
  refine List.flatMap_congr fun c hc => ?_
  rw [encodeUtf16_of_lt (h c hc), Nat.mod_eq_of_lt (h c hc)]

/-- A pair of units for a character is one too many. -/
theorem length_textUnits (text : List Char) : text.length ≤ (textUnits text).length ∧
    ((textUnits text).length = text.length → ∀ c ∈ text, c.toNat < 2 ^ 16) := by
  induction text with
  | nil => exact ⟨le_refl _, fun _ c hc => absurd hc List.not_mem_nil⟩
  | cons c text ih =>
    obtain ⟨hle, heq⟩ := ih
    rw [textUnits, List.flatMap_cons, List.length_append, ← textUnits, List.length_cons]
    by_cases hc : c.toNat < 2 ^ 16
    · rw [encodeUtf16_of_lt hc, List.length_singleton]
      refine ⟨by omega, fun hlength => ?_⟩
      exact List.forall_mem_cons.mpr ⟨hc, heq (by omega)⟩
    · have hpair : (encodeUtf16 c).length = 2 := by rw [encodeUtf16, if_neg hc]; rfl
      rw [hpair]
      exact ⟨by omega, fun hlength => by omega⟩

theorem single_iff {text : List Char} :
    sentUnits text = textUnits text ↔ ∀ c ∈ text, c.toNat < 2 ^ 16 := by
  refine ⟨fun h => (length_textUnits text).2 ?_, fun h => (textUnits_of_single h).symm⟩
  rw [← h, sentUnits, List.length_map]

theorem ofProvider_iff {provider : UserEventProvider} :
    ofProvider sentUnits provider = ofProvider textUnits provider ↔
      ∀ text ∈ texts provider, ∀ c ∈ text, c.toNat < 2 ^ 16 := by
  simp only [ofProvider, Provider.mk.injEq, true_and, and_true, List.map_inj_left, ofTracepoint,
    Tracepoint.mk.injEq, texts, List.forall_mem_cons, List.forall_mem_map, single_iff]

theorem ofSettings_iff {settings : UserEventTrackerSettings} {size : Nat} :
    ofSettings sentUnits settings size = ofSettings textUnits settings size ↔
      ∀ provider ∈ settings.providers, ∀ text ∈ texts provider, ∀ c ∈ text, c.toNat < 2 ^ 16 := by
  simp only [ofSettings, Request.mk.injEq, true_and, List.map_inj_left, ofProvider_iff]

/-- The field is the length, cut to 16 bits. -/
theorem size_field {settings : UserEventTrackerSettings} {message : List UInt8}
    (h : UserEventTracker.enableEvents settings = .ok message) :
    fromLe ((message.drop 14).take 2) = message.length % 2 ^ 16 := by
  obtain ⟨providers, hproviders, -⟩ := bind_eq_ok.mp h
  have hmagic : UserEventTracker.magic.length = 14 := rfl
  rw [enableEvents_eq hproviders] at h
  cases h
  rw [List.drop_left' hmagic, List.take_left' (length_toLe 2 _), fromLe_toLe]
  congr 1
  simp only [List.length_append, hmagic, length_toLe, List.length_cons, List.length_nil]
  omega

/-- **Requests are read back.** The size is right and the message is read as the settings exactly
when every character is a single unit and the size is one of 16 bits. -/
theorem decodes_iff_fits (settings : UserEventTrackerSettings) :
    Decodes settings ↔ Fits settings := by
  obtain ⟨hlength, hreads⟩ := writes_request settings
  constructor
  · rintro ⟨message, hmessage, hfield, hread⟩
    have hsize : requestSize settings < 2 ^ 16 := by
      rw [size_field hmessage, hlength message hmessage] at hfield
      omega
    obtain ⟨message', hmessage', hparses⟩ := hreads hsize
    obtain rfl := Except.ok.inj (hmessage.symm.trans hmessage')
    rw [hparses.readAll, hlength message hmessage] at hread
    exact ⟨hsize, ofSettings_iff.mp (Option.some.inj hread)⟩
  · rintro ⟨hsize, hsingle⟩
    obtain ⟨message, hmessage, hparses⟩ := hreads hsize
    have hmessageLength := hlength message hmessage
    refine ⟨message, hmessage, ?_, ?_⟩
    · rw [size_field hmessage, hmessageLength, Nat.mod_eq_of_lt hsize]
    · rw [hparses.readAll, hmessageLength, ofSettings_iff.mpr hsingle]

/-- A provider whose name has a character that is a pair of units. -/
def pairName : UserEventTrackerSettings :=
  ⟨[{ name := [Char.ofNat 0x1F600], filterArgs := [], events := [], keyword := 1, level := 4
      defaultTracepoint := none, keyword_lt := by decide, level_lt := by decide
      event_lt := fun _ h => absurd h List.not_mem_nil }]⟩

/-- The runtime reads one unit of another character. -/
theorem not_decodes_pairName : ¬ Decodes pairName := by
  rintro ⟨message, hmessage, -, hread⟩
  have hall : (match UserEventTracker.enableEvents pairName with
      | .ok message => decide (readAll readRequest message =
          some (ofSettings textUnits pairName message.length))
      | .error _ => false) = false := by decide +kernel
  rw [hmessage] at hall
  exact of_decide_eq_false hall hread

end CollectTracing

end OneCollect.Dotnet
