import OneCollect.Dotnet.FieldsParser
import OneCollect.Event.Decode

/-! What a tracepoint event of a .NET runtime carries (`nettrace.rs`, `register_dotnet_tracepoint`):
a header, the range of its payload, and an extension with metadata and activity ids. -/

namespace OneCollect.Dotnet
open Theory

/-! ## Extensions -/

def labelMeta : UInt8 := 1

def labelActivity : UInt8 := 2

def labelRelatedActivity : UInt8 := 3

/-- The labels with their data, up to a number of them; a label that is cut off ends the loop. -/
def parseLabels : Nat → List UInt8 → List (UInt8 × List UInt8)
  | 0, _ => []
  | _, [] => []
  | left + 1, label :: extension =>
    if extension.isEmpty then []
    else if label = labelMeta then
      if extension.length < 4 then []
      else
        let len := fromLe (extension.take 4)
        let extension := extension.drop 4
        if extension.length < len then []
        else (label, extension.take len) :: parseLabels left (extension.drop len)
    else if label = labelActivity ∨ label = labelRelatedActivity then
      if extension.length < 16 then []
      else (label, extension.take 16) :: parseLabels left (extension.drop 16)
    else []

def parseEventExtensionV1 (bytes : List UInt8) : List (UInt8 × List UInt8) := parseLabels 3 bytes

/-! ## Metadata -/

structure MetaParserV5 where
  providerName : List UInt8
  eventId : List UInt8
  eventName : List UInt8
  keywords : List UInt8
  version : List UInt8
  level : List UInt8
  fields : List UInt8
  deriving DecidableEq, Repr

namespace MetaParserV5

/-- The length of a text with its null, or of all pairs. -/
def readStringLen : List UInt8 → Nat
  | a :: b :: rest => if a = 0 ∧ b = 0 then 2 else readStringLen rest + 2
  | _ => 0

def advance (bytes : List UInt8) (len : Nat) : List UInt8 × List UInt8 :=
  if bytes.length < len then ([], []) else (bytes.take len, bytes.drop len)

def parse (bytes : List UInt8) : MetaParserV5 :=
  let (providerName, buffer) := advance bytes (readStringLen bytes)
  let (eventId, buffer) := advance buffer 4
  let (eventName, buffer) := advance buffer (readStringLen buffer)
  let (keywords, buffer) := advance buffer 8
  let (version, buffer) := advance buffer 4
  let (level, fields) := advance buffer 4
  ⟨providerName, eventId, eventName, keywords, version, level, fields⟩

def readInt (bytes : List UInt8) : Option Nat :=
  if bytes.length < 4 then none else some (fromLe (bytes.take 4))

def readLong (bytes : List UInt8) : Option Nat :=
  if bytes.length < 8 then none else some (fromLe (bytes.take 8))

/-- `event_name`. -/
def name (self : MetaParserV5) : String :=
  String.ofList (FieldsParserV5.readString self.eventName).1

/-- `keywords`. -/
def keywordBits (self : MetaParserV5) : Option Nat := readLong self.keywords

/-- `version`, as the 16 bits that are kept of it. -/
def versionBits (self : MetaParserV5) : Option Nat := (readInt self.version).map (· % 2 ^ 16)

end MetaParserV5

/-! ## Events -/

/-- The attributes of an event that can be overridden. -/
structure Attributes where
  version : Option Nat := none
  activityId : Option (List UInt8) := none
  relatedActivityId : Option (List UInt8) := none
  deriving DecidableEq, Repr

/-- The values that the first has, and those of the second for the others. -/
def Attributes.orElse (self other : Attributes) : Attributes :=
  ⟨self.version.or other.version, self.activityId.or other.activityId,
    self.relatedActivityId.or other.relatedActivityId⟩

/-- An event as its tracepoint reads it. -/
structure TracepointData where
  id : Nat
  pid : Nat
  payloadRange : Nat × Nat
  metas : List MetaParserV5 := []
  activityId : Option (List UInt8) := none
  relatedActivityId : Option (List UInt8) := none
  deriving DecidableEq, Repr

namespace TracepointData

/-- Lookups within a provider are by pid and event id. -/
def key (self : TracepointData) : Nat := self.pid <<< 32 ||| self.id

/-- The data of the last label of a kind. -/
def lastLabel (label : UInt8) (labels : List (UInt8 × List UInt8)) : Option (List UInt8) :=
  ((labels.filter (·.1 = label)).getLast?).map (·.2)

def decode (format : EventFormat) (pid : Exec Nat) (eventData : List UInt8) :
    Exec TracepointData := do
  let version ← format.getU8 "version" eventData
  let id ← format.getU16 "event_id" eventData
  let payloadRange ← format.getRelLoc "payload" eventData
  let pid ← pid
  if version = 1 then
    let range ← format.getRelLoc "extension" eventData
    let labels := parseEventExtensionV1 ((eventData.drop range.1).take (range.2 - range.1))
    .ok
      { id, pid, payloadRange
        metas := (labels.filter (·.1 = labelMeta)).map fun label => MetaParserV5.parse label.2
        activityId := lastLabel labelActivity labels
        relatedActivityId := lastLabel labelRelatedActivity labels }
  else .ok { id, pid, payloadRange }

end TracepointData

end OneCollect.Dotnet
