import OneCollect.Exporting.Formats.Pprof
import OneCollect.Theory.Markup

/-! The stacks of `formats/perf_view.rs`, written and read.

`toPerfViewXml` writes a graph as a document of frames, stacks and samples: a frame for each target
below the root, a stack for each node with the stack of its caller, a sample for each node with a
value. A frame shows the name of its target only. `readDocument` reads a document, and
`toPerfViewXml_reads` says that what was written is read back: the names on the paths and the
values, in a document whose ids are defined once and whose counts are those of its elements. -/

namespace OneCollect.Exporting.PerfView
open Theory Markup

/-- The order in which a `HashMap` of frames is iterated: any permutation of its entries. -/
structure FrameOrder where
  iter : List (Target × Nat) → List (Target × Nat)
  perm : ∀ frames, (iter frames).Perm frames

/-! ## Writing -/

section Writing

/-- The targets of the nodes below the root; the id of a frame is its position. -/
def collectFrames (nodes : List Node) : Exec (List Target) :=
  popLoop nodes (·.childIds) (fun frames id node =>
    if id = 0 then .ok frames else .ok (insertNew frames node.target)) nodes.length [0] []

def stringAt (strings : InternedStrings) (id : Nat) : Exec (List Char) :=
  match strings.fromId id with
  | some string => .ok string.toList
  | none => fail "ID not found."

def hasResolvable (frame : Target) : Bool := frame.resolvableId != 0

def resolvableText (self : NodeGraph) (frame : Target) : Exec (List Char) :=
  if hasResolvable frame then do
    let resolvable ← getAt self.resolvables frame.resolvableId
    stringAt self.strings resolvable.nameId
  else .ok unknown.toList

def methodText (self : NodeGraph) (frame : Target) : Exec (List Char) :=
  if frame.hasMethod then stringAt self.strings frame.methodId
  else .ok ('0' :: 'x' :: toHex 0 frame.address)

def frameName (self : NodeGraph) (frame : Target) : Exec (List Char) := do
  let resolvable ← resolvableText self frame
  let method ← methodText self frame
  .ok (resolvable ++ '!' :: method)

def replaceMarks (name : List Char) : List Char :=
  if '<' ∈ name ∨ '>' ∈ name ∨ '&' ∈ name then
    replaceChar '>' ['&', 'g', 't', ';'] (replaceChar '<' ['&', 'l', 't', ';']
      (replaceChar '&' ['&', 'a', 'm', 'p', ';'] name))
  else name

def frameElement (id : Nat) (name : List Char) : List Char :=
  "<Frame ID=".toList ++ (quote (toDecimal id) ++ (">".toList ++ (name ++ "</Frame>\n".toList)))

def writeFrame (self : NodeGraph) (entry : Target × Nat) : Exec (List Char) := do
  let name ← frameName self entry.1
  .ok (frameElement entry.2 (replaceMarks name))

def stackElement (id : Nat) (callerId frameId : Int) : List Char :=
  "<Stack ID=".toList ++ (quote (toDecimal id) ++ (" CallerID=".toList ++
    (quote (toSigned callerId) ++ (" FrameID=".toList ++
      (quote (toSigned frameId) ++ "/>\n".toList)))))

def callerIdOf (node : Node) : Int := if node.parentId = 0 then -1 else node.parentId

def frameIdOf (frames : List Target) (node : Node) : Int :=
  if node.target ∈ frames then numberOf frames node.target else -1

/-- The stacks, and the number of the nodes with a value, the root among them. -/
def writeStacks (nodes : List Node) (frames : List Target) : Exec (Nat × List Char) :=
  popLoop nodes (·.childIds) (fun (sampleCount, out) id node =>
    let sampleCount := if node.exclusive > 0 then sampleCount + 1 else sampleCount
    if id = 0 then .ok (sampleCount, out)
    else .ok (sampleCount, out ++ stackElement id (callerIdOf node) (frameIdOf frames node)))
    nodes.length [0] (0, [])

def sampleElement (id exclusive : Nat) : List Char :=
  "<Sample ID=".toList ++ (quote (toDecimal id) ++ (" Count=\"1\" StackID=".toList ++
    (quote (toDecimal id) ++ (" Metric=".toList ++
      (quote (toDecimal exclusive) ++ "/>\n".toList)))))

def writeSamples (nodes : List Node) : Exec (List Char) :=
  popLoop nodes (·.childIds) (fun out id node =>
    if id = 0 then .ok out
    else if node.exclusive > 0 then .ok (out ++ sampleElement id node.exclusive)
    else .ok out) nodes.length [0] []

/-- The elements with their counts. -/
def documentText (frameCount : Nat) (frames : List Char) (stackCount : Nat) (stackItems : List Char)
    (sampleCount : Nat) (samples : List Char) : List Char :=
  "<StackWindow>\n<StackSource>\n<Frames Count=".toList ++ (quote (toDecimal frameCount) ++
    (">\n".toList ++ (frames ++ ("</Frames>\n<Stacks Count=".toList ++
      (quote (toDecimal stackCount) ++ (">\n".toList ++ (stackItems ++
        ("</Stacks>\n<Samples Count=".toList ++ (quote (toDecimal sampleCount) ++
          (">\n".toList ++ (samples ++
            "</Samples>\n</StackSource>\n</StackWindow>\n".toList)))))))))))

/-- The text of `to_perf_view_xml`. -/
def toPerfViewXml (order : FrameOrder) (self : NodeGraph) : Exec (List Char) := do
  let frames ← collectFrames self.nodes
  let frameElements ← (order.iter frames.zipIdx).mapM (writeFrame self)
  let stackCount ← subU64 self.nodes.length 1
  let (sampleCount, stackItems) ← writeStacks self.nodes frames
  let samples ← writeSamples self.nodes
  .ok (documentText frames.length frameElements.flatten stackCount stackItems sampleCount samples)

end Writing

/-! ## Reading -/

structure Frame where
  id : Nat
  name : List Char
  deriving DecidableEq, Repr

structure Stack where
  id : Nat
  callerId : Int
  frameId : Int
  deriving DecidableEq, Repr

structure Sample where
  id : Nat
  stackId : Nat
  metric : Nat
  deriving DecidableEq, Repr

structure Document where
  frameCount : Nat
  frames : List Frame
  stackCount : Nat
  stackItems : List Stack
  sampleCount : Nat
  samples : List Sample
  deriving DecidableEq, Repr

def readFrame : Reader Frame := do
  literal "<Frame ID=".toList
  let id ← quoted readDecimal
  literal ">".toList
  let name ← upTo '<'
  literal "/Frame>\n".toList
  let name ← StateT.lift (unescape name)
  pure ⟨id, name⟩

def readStack : Reader Stack := do
  literal "<Stack ID=".toList
  let id ← quoted readDecimal
  literal " CallerID=".toList
  let callerId ← quoted readSigned
  literal " FrameID=".toList
  let frameId ← quoted readSigned
  literal "/>\n".toList
  pure ⟨id, callerId, frameId⟩

def readSample : Reader Sample := do
  literal "<Sample ID=".toList
  let id ← quoted readDecimal
  literal " Count=\"1\" StackID=".toList
  let stackId ← quoted readDecimal
  literal " Metric=".toList
  let metric ← quoted readDecimal
  literal "/>\n".toList
  pure ⟨id, stackId, metric⟩

def document : Reader Document := do
  literal "<StackWindow>\n<StackSource>\n<Frames Count=".toList
  let frameCount ← quoted readDecimal
  literal ">\n".toList
  let frames ← elements "Frames".toList readFrame
  literal ">\n<Stacks Count=".toList
  let stackCount ← quoted readDecimal
  literal ">\n".toList
  let stackItems ← elements "Stacks".toList readStack
  literal ">\n<Samples Count=".toList
  let sampleCount ← quoted readDecimal
  literal ">\n".toList
  let samples ← elements "Samples".toList readSample
  literal ">\n</StackSource>\n</StackWindow>\n".toList
  pure { frameCount, frames, stackCount, stackItems, sampleCount, samples }

def readDocument (text : List Char) : Option Document := readText document text

namespace Document

/-- The names of a stack and its callers. A stack has no more callers than there are stacks. -/
def chain (self : Document) : (fuel : Nat) → (stackId : Int) → Option (List (List Char))
  | 0, _ => none
  | fuel + 1, stackId =>
    if stackId = -1 then some []
    else do
      let stack ← self.stackItems.find? fun stack => (stack.id : Int) = stackId
      let frame ← self.frames.find? fun frame => (frame.id : Int) = stack.frameId
      let names ← self.chain fuel stack.callerId
      some (frame.name :: names)

/-- The names from the root down to a sample, and its value. -/
def pathOf (self : Document) (sample : Sample) : Option (List (List Char) × Nat) := do
  let names ← self.chain (self.stackItems.length + 1) sample.stackId
  some (names.reverse, sample.metric)

def paths (self : Document) : Option (List (List (List Char) × Nat)) :=
  self.samples.mapM self.pathOf

/-- The number is one of the ids, once. -/
def DefinedOnce (ids : List Nat) (number : Int) : Prop := ∃ id : Nat, number = id ∧ ids.count id = 1

/-- **Every id that is referred to is defined once.** The caller of the outermost stacks is -1. -/
structure Closed (self : Document) : Prop where
  frames : ∀ stack ∈ self.stackItems, DefinedOnce (self.frames.map (·.id)) stack.frameId
  callers : ∀ stack ∈ self.stackItems,
    stack.callerId = -1 ∨ DefinedOnce (self.stackItems.map (·.id)) stack.callerId
  samples : ∀ sample ∈ self.samples, DefinedOnce (self.stackItems.map (·.id)) sample.stackId

/-- The counts are the numbers of the elements. -/
structure Counted (self : Document) : Prop where
  frames : self.frameCount = self.frames.length
  stackItems : self.stackCount = self.stackItems.length
  samples : self.sampleCount = self.samples.length

end Document

/-! ## What is written is read -/

theorem reads_frame (id : Nat) (name : List Char) :
    Reads readFrame (frameElement id (escape name)) ⟨id, name⟩ := by
  have hclose : escape name ++ "</Frame>\n".toList =
      (escape name ++ ['<']) ++ ("/Frame>\n".toList ++ []) := by
    rw [List.append_assoc, List.append_nil]
    exact congrArg (escape name ++ ·) (by decide)
  unfold frameElement
  rw [hclose]
  exact (reads_literal _).bind ((reads_decimal id).bind ((reads_literal _).bind
    ((reads_upTo (lt_not_mem_escape name)).bind ((reads_literal _).bind
      (reads_lift (unescape_escape name)).map))))

theorem reads_stack (id : Nat) (callerId frameId : Int) :
    Reads readStack (stackElement id callerId frameId) ⟨id, callerId, frameId⟩ :=
  (reads_literal _).bind ((reads_decimal id).bind ((reads_literal _).bind
    ((reads_signed callerId).bind ((reads_literal _).bind ((reads_signed frameId).bind
      (reads_literal _).map)))))

theorem reads_sample (id metric : Nat) :
    Reads readSample (sampleElement id metric) ⟨id, id, metric⟩ :=
  (reads_literal _).bind ((reads_decimal id).bind ((reads_literal _).bind
    ((reads_decimal id).bind ((reads_literal _).bind ((reads_decimal metric).bind
      (reads_literal _).map)))))

/-- The text of a document. -/
def Document.text (self : Document) : List Char :=
  documentText self.frameCount
    (self.frames.flatMap fun frame => frameElement frame.id (escape frame.name)) self.stackCount
    (self.stackItems.flatMap fun stack => stackElement stack.id stack.callerId stack.frameId)
    self.sampleCount (self.samples.flatMap fun sample => sampleElement sample.id sample.metric)

theorem split_closing {name after whole : List Char} (h : whole = closingTag name ++ after)
    (text rest : List Char) :
    text ++ (whole ++ rest) = text ++ closingTag name ++ (after ++ rest) := by
  rw [h, List.append_assoc, List.append_assoc]

theorem reads_document {self : Document}
    (hsamples : ∀ sample ∈ self.samples, sample.stackId = sample.id) :
    Reads document self.text self := by
  have hframes := reads_elements "Frames".toList (p := readFrame) self.frames
    (fun frame _ => reads_frame frame.id frame.name) fun frame _ => ⟨'F', _, rfl, by decide⟩
  have hstacks := reads_elements "Stacks".toList (p := readStack) self.stackItems
    (fun stack _ => reads_stack stack.id stack.callerId stack.frameId)
    fun stack _ => ⟨'S', _, rfl, by decide⟩
  have hsample (sample : Sample) (hmem : sample ∈ self.samples) :
      Reads readSample (sampleElement sample.id sample.metric) sample := by
    have hid : sample = ⟨sample.id, sample.id, sample.metric⟩ :=
      congrArg (fun id => (⟨sample.id, id, sample.metric⟩ : Sample)) (hsamples sample hmem)
    rw [hid]
    exact reads_sample sample.id sample.metric
  have hall := reads_elements "Samples".toList self.samples hsample
    fun sample _ => ⟨'S', _, rfl, by decide⟩
  have hframesEnd : "</Frames>\n<Stacks Count=".toList =
      closingTag "Frames".toList ++ ">\n<Stacks Count=".toList := by decide
  have hstacksEnd : "</Stacks>\n<Samples Count=".toList =
      closingTag "Stacks".toList ++ ">\n<Samples Count=".toList := by decide
  have hsamplesEnd : "</Samples>\n</StackSource>\n</StackWindow>\n".toList =
      closingTag "Samples".toList ++ ">\n</StackSource>\n</StackWindow>\n".toList := by decide
  unfold Document.text documentText
  rw [split_closing hframesEnd, split_closing hstacksEnd, hsamplesEnd,
    ← List.append_assoc (self.samples.flatMap _)]
  exact (reads_literal _).bind ((reads_decimal self.frameCount).bind ((reads_literal _).bind
    (hframes.bind ((reads_literal _).bind ((reads_decimal self.stackCount).bind
      ((reads_literal _).bind (hstacks.bind ((reads_literal _).bind
        ((reads_decimal self.sampleCount).bind ((reads_literal _).bind (hall.bind
          (reads_literal _).map)))))))))))

/-! ## The document -/

section File

variable {g : NodeGraph}

/-- The name that a frame shows. -/
def displayName (self : NodeGraph) (target : Target) : List Char :=
  let resolvable :=
    if hasResolvable target then
      ((self.resolvables[target.resolvableId]?.bind (self.strings.fromId ·.nameId)).getD "").toList
    else unknown.toList
  let method :=
    if target.hasMethod then ((self.strings.fromId target.methodId).getD "").toList
    else '0' :: 'x' :: toHex 0 target.address
  resolvable ++ '!' :: method

/-- The targets below the root, in the order of the frames. -/
def framesOf (g : NodeGraph) : List Target := distinct (g.located.map g.targetOf)

def shownFrame (g : NodeGraph) (entry : Target × Nat) : Frame := ⟨entry.2, displayName g entry.1⟩

def shownStack (g : NodeGraph) (id : Nat) : Stack :=
  ⟨id, if g.parentOf id = 0 then -1 else g.parentOf id, numberOf (framesOf g) (g.targetOf id)⟩

def shownSample (g : NodeGraph) (id : Nat) : Sample := ⟨id, id, g.exclusiveOf id⟩

/-- The document that a reader makes of the file. -/
def documentOf (order : FrameOrder) (g : NodeGraph) : Document where
  frameCount := (framesOf g).length
  frames := (order.iter (framesOf g).zipIdx).map (shownFrame g)
  stackCount := g.nodes.length - 1
  stackItems := g.located.map (shownStack g)
  sampleCount := g.valued.length
  samples := g.valued.map (shownSample g)

theorem stringAt_eq {strings : InternedStrings} {id : Nat} (h : id < strings.strings.length) :
    stringAt strings id = .ok ((strings.fromId id).getD "").toList := by
  have hid : strings.fromId id = some strings.strings[id] := List.getElem?_eq_getElem h
  rw [stringAt, hid, Option.getD_some]

theorem frameName_eq (h : g.Grown) {target : Target} (hknown : g.Known target) :
    frameName g target = .ok (displayName g target) := by
  obtain ⟨resolvable, hresolvable⟩ : ∃ resolvable,
    g.resolvables[target.resolvableId]? = some resolvable := ⟨_, List.getElem?_eq_getElem hknown.1⟩
  obtain ⟨nameId, hname, rfl⟩ := h.tabled.named _ (List.mem_of_getElem? hresolvable)
  have hleft : resolvableText g target = .ok (if hasResolvable target then
      ((g.resolvables[target.resolvableId]?.bind (g.strings.fromId ·.nameId)).getD "").toList
      else unknown.toList) := by
    unfold resolvableText
    split
    · rw [getAt_eq_ok.mpr hresolvable, ok_bind, stringAt_eq hname, hresolvable, Option.bind_some]
    · rfl
  have hright : methodText g target = .ok (if target.hasMethod then
      ((g.strings.fromId target.methodId).getD "").toList
      else '0' :: 'x' :: toHex 0 target.address) := by
    unfold methodText
    split
    · exact stringAt_eq hknown.2
    · rfl
  rw [frameName, hleft, ok_bind, hright, ok_bind]
  rfl

/-- A name without marks is what its escape is. -/
theorem replaceMarks_eq (name : List Char) : replaceMarks name = escape name := by
  unfold replaceMarks
  split
  · exact replaceChar_eq_escape name
  · rename_i hnone
    rw [not_or, not_or] at hnone
    refine (escape_of_forall fun c hc => ⟨?_, ?_, ?_⟩).symm
    · exact fun heq => hnone.2.2 (heq ▸ hc)
    · exact fun heq => hnone.1 (heq ▸ hc)
    · exact fun heq => hnone.2.1 (heq ▸ hc)

theorem collectFrames_eq (h : g.Grown) : collectFrames g.nodes = .ok (framesOf g) := by
  have hbody : ∀ id < g.nodes.length, ∀ frames : List Target,
      (if id = 0 then .ok frames else .ok (insertNew frames (g.nodeAt id).target) : Exec _) =
        .ok (if id ≠ 0 then insertNew frames (g.targetOf id) else frames) := by
    intro id _ frames
    by_cases hzero : id = 0
    · rw [if_pos hzero, if_neg (not_not_intro hzero)]
    · rw [if_neg hzero, if_pos hzero]
      rfl
  rw [collectFrames, h.popLoop_foldl hbody, framesOf, distinct, NodeGraph.located, List.foldl_map,
    List.foldl_filter]
  simp only [decide_eq_true_eq]

theorem mem_framesOf (h : g.Grown) {target : Target} :
    target ∈ framesOf g ↔ ∃ id < g.nodes.length, id ≠ 0 ∧ g.targetOf id = target := by
  rw [framesOf, mem_distinct, List.mem_map]
  simp only [h.mem_located, and_assoc]

theorem writeFrames_eq (h : g.Grown) (order : FrameOrder) :
    (order.iter (framesOf g).zipIdx).mapM (writeFrame g) =
      .ok ((order.iter (framesOf g).zipIdx).map fun entry =>
        frameElement entry.2 (escape (displayName g entry.1))) := by
  have hknown : ∀ entry ∈ order.iter (framesOf g).zipIdx, g.Known entry.1 := by
    intro entry hentry
    have hmem := List.fst_mem_of_mem_zipIdx ((order.perm _).mem_iff.mp hentry)
    obtain ⟨id, hid, -, htarget⟩ := (mem_framesOf h).mp hmem
    rw [← htarget]
    exact h.known id hid
  generalize order.iter (framesOf g).zipIdx = entries at hknown
  induction entries with
  | nil => rfl
  | cons entry entries ih =>
    obtain ⟨hentry, hknown⟩ := List.forall_mem_cons.mp hknown
    rw [List.mapM_cons, writeFrame, frameName_eq h hentry, ok_bind, replaceMarks_eq, ok_bind,
      ih hknown]
    rfl

def stackText (g : NodeGraph) (id : Nat) : List Char :=
  stackElement id (shownStack g id).callerId (shownStack g id).frameId

/-- What the loop of the stacks does at a node. -/
def stackTurn (g : NodeGraph) (state : Nat × List Char) (id : Nat) : Nat × List Char :=
  (if g.exclusiveOf id > 0 then state.1 + 1 else state.1,
    if id = 0 then state.2 else state.2 ++ stackText g id)

theorem foldl_stackTurn (g : NodeGraph) (order : List Nat) (state : Nat × List Char) :
    order.foldl (stackTurn g) state =
      (state.1 + (order.filter fun id => g.exclusiveOf id > 0).length,
        state.2 ++ (order.filter fun id => id ≠ 0).flatMap (stackText g)) := by
  induction order generalizing state with
  | nil => simp
  | cons id order ih =>
    rw [List.foldl_cons, ih, stackTurn, List.filter_cons, List.filter_cons]
    refine Prod.ext ?_ ?_
    · by_cases hvalue : g.exclusiveOf id > 0
      · simp only [hvalue, if_true, decide_true, List.length_cons]
        omega
      · simp only [hvalue, if_false, decide_false, Bool.false_eq_true]
    · by_cases hzero : id = 0
      · simp [hzero]
      · simp [hzero]

theorem writeStacks_eq (h : g.Grown) :
    writeStacks g.nodes (framesOf g) = .ok (g.valued.length, g.located.flatMap (stackText g)) := by
  have hrun : writeStacks g.nodes (framesOf g) =
      .ok (g.visited.foldl (stackTurn g) (0, [])) := by
    refine h.popLoop_foldl (fun id hid state => ?_) _
    by_cases hzero : id = 0
    · rw [stackTurn, if_pos hzero]
      dsimp only
      rw [if_pos hzero]
      rfl
    · have hframe : frameIdOf (framesOf g) (g.nodeAt id) =
          numberOf (framesOf g) (g.targetOf id) :=
        if_pos ((mem_framesOf h).mpr ⟨id, hid, hzero, rfl⟩)
      rw [stackTurn, if_neg hzero]
      dsimp only
      rw [if_neg hzero, hframe]
      rfl
  rw [hrun, foldl_stackTurn, Nat.zero_add, List.nil_append]
  rfl

theorem writeSamples_eq (h : g.Grown) :
    writeSamples g.nodes = .ok (g.valued.flatMap fun id => sampleElement id (g.exclusiveOf id)) := by
  refine h.popLoop_flatMap (fun id => g.exclusiveOf id > 0) _ fun id hid out => ?_
  by_cases hzero : id = 0
  · rw [if_pos hzero, hzero, h.rootExclusive]
    rfl
  · rw [if_neg hzero]
    change (if g.exclusiveOf id > 0 then _ else _) = _
    by_cases hvalue : g.exclusiveOf id > 0
    · rw [if_pos hvalue, if_pos (decide_eq_true hvalue)]
      rfl
    · rw [if_neg hvalue, if_neg (by simpa using hvalue)]

/-- **The text** is that of the document. -/
theorem toPerfViewXml_eq (h : g.Grown) (order : FrameOrder) :
    toPerfViewXml order g = .ok (documentOf order g).text := by
  have hcount : subU64 g.nodes.length 1 = .ok (g.nodes.length - 1) :=
    subU64_eq_ok.mpr ⟨h.rooted.pos, rfl⟩
  unfold toPerfViewXml
  rw [collectFrames_eq h, ok_bind, writeFrames_eq h, ok_bind, hcount, ok_bind, writeStacks_eq h,
    ok_bind]
  dsimp only
  rw [writeSamples_eq h, ok_bind]
  unfold Document.text documentOf
  dsimp only
  rw [List.flatMap_map, List.flatMap_map, List.flatMap_map]
  rfl

theorem readDocument_text (order : FrameOrder) (g : NodeGraph) :
    readDocument (documentOf order g).text = some (documentOf order g) := by
  refine (reads_document fun sample hsample => ?_).readText
  obtain ⟨id, -, rfl⟩ := List.mem_map.mp hsample
  rfl

theorem length_located (h : g.Grown) : g.located.length = g.nodes.length - 1 := by
  have herase : g.located = g.visited.erase 0 := by
    rw [h.visited_nodup.erase_eq_filter]
    exact List.filter_congr fun id _ => decide_not
  rw [herase, List.length_erase_of_mem (h.mem_visited.mpr h.rooted.pos), h.visited_perm.length_eq,
    List.length_range]

theorem counted_documentOf (h : g.Grown) (order : FrameOrder) : (documentOf order g).Counted where
  frames := by
    change _ = ((order.iter (framesOf g).zipIdx).map (shownFrame g)).length
    rw [List.length_map, (order.perm _).length_eq, List.length_zipIdx]
    rfl
  stackItems := by
    change _ = (g.located.map (shownStack g)).length
    rw [List.length_map, length_located h]
    rfl
  samples := by
    change _ = (g.valued.map (shownSample g)).length
    rw [List.length_map]
    rfl

theorem frameIds_perm (order : FrameOrder) (g : NodeGraph) :
    ((documentOf order g).frames.map (·.id)).Perm (List.range (framesOf g).length) := by
  have hids : (documentOf order g).frames.map (·.id) =
      (order.iter (framesOf g).zipIdx).map Prod.snd := List.map_map
  rw [hids, List.range_eq_range', ← List.zipIdx_map_snd]
  exact (order.perm _).map Prod.snd

theorem definedOnce_stack (h : g.Grown) (order : FrameOrder) {id : Nat} (hid : id < g.nodes.length)
    (hzero : id ≠ 0) :
    Document.DefinedOnce ((documentOf order g).stackItems.map (·.id)) id :=
  ⟨id, rfl, count_map_key (fun _ => rfl) h.located_nodup (h.mem_located.mpr ⟨hid, hzero⟩)⟩

/-- The root has no value. -/
theorem mem_valued_ne (h : g.Grown) {id : Nat} (hid : id ∈ g.valued) :
    id < g.nodes.length ∧ id ≠ 0 := by
  obtain ⟨hlt, hvalue⟩ := h.mem_valued.mp hid
  refine ⟨hlt, fun hzero => ?_⟩
  rw [hzero, h.rootExclusive] at hvalue
  exact Nat.lt_irrefl 0 hvalue

theorem closed_documentOf (h : g.Grown) (order : FrameOrder) : (documentOf order g).Closed where
  frames := by
    intro stack hstack
    obtain ⟨id, hid, rfl⟩ := List.mem_map.mp hstack
    obtain ⟨hlt, hzero⟩ := h.mem_located.mp hid
    have hframe : g.targetOf id ∈ framesOf g := (mem_framesOf h).mpr ⟨id, hlt, hzero, rfl⟩
    refine ⟨_, rfl, ?_⟩
    rw [(frameIds_perm order g).count_eq]
    exact List.count_eq_one_of_mem List.nodup_range (List.mem_range.mpr (numberOf_lt hframe))
  callers := by
    intro stack hstack
    obtain ⟨id, hid, rfl⟩ := List.mem_map.mp hstack
    obtain ⟨hlt, hzero⟩ := h.mem_located.mp hid
    by_cases hparent : g.parentOf id = 0
    · exact Or.inl (if_pos hparent)
    · have hparent_lt := h.rooted.parent_lt id (Nat.pos_of_ne_zero hzero) hlt
      refine Or.inr ?_
      rw [shownStack, if_neg hparent]
      exact definedOnce_stack h order (hparent_lt.trans hlt) hparent
  samples := by
    intro sample hsample
    obtain ⟨id, hid, rfl⟩ := List.mem_map.mp hsample
    obtain ⟨hlt, hzero⟩ := mem_valued_ne h hid
    exact definedOnce_stack h order hlt hzero

/-- The frame of a target shows its name. -/
theorem find?_frame (order : FrameOrder) {target : Target} (htarget : target ∈ framesOf g) :
    ∃ frame, (documentOf order g).frames.find?
        (fun frame => (frame.id : Int) = numberOf (framesOf g) target) = some frame ∧
      frame.name = displayName g target := by
  have hmem : (target, numberOf (framesOf g) target) ∈ order.iter (framesOf g).zipIdx :=
    (order.perm _).mem_iff.mpr (List.mem_zipIdx_iff_getElem?.mpr (getElem?_numberOf htarget))
  have hsome : ((documentOf order g).frames.find? fun frame =>
      (frame.id : Int) = numberOf (framesOf g) target).isSome :=
    List.find?_isSome.mpr ⟨_, List.mem_map_of_mem hmem, decide_eq_true rfl⟩
  obtain ⟨frame, hframe⟩ := Option.isSome_iff_exists.mp hsome
  have hid : frame.id = numberOf (framesOf g) target := by simpa using List.find?_some hframe
  obtain ⟨⟨other, i⟩, hother, rfl⟩ := List.mem_map.mp (List.mem_of_find?_eq_some hframe)
  have hat : (framesOf g)[i]? = some other :=
    List.mem_zipIdx_iff_getElem?.mp ((order.perm _).mem_iff.mp hother)
  have hi : i = numberOf (framesOf g) target := hid
  rw [hi, getElem?_numberOf htarget] at hat
  cases hat
  exact ⟨_, hframe, rfl⟩

theorem find?_stack (h : g.Grown) (order : FrameOrder) {id : Nat} (hid : id < g.nodes.length)
    (hzero : id ≠ 0) :
    (documentOf order g).stackItems.find? (fun stack => (stack.id : Int) = id) =
      some (shownStack g id) := by
  have hsame : (fun stack : Stack => decide ((stack.id : Int) = id)) =
      fun stack => decide (stack.id = id) := by
    funext stack
    exact decide_eq_decide.mpr Int.natCast_inj
  rw [hsame]
  exact find?_map_key (fun _ => rfl) (h.mem_located.mpr ⟨hid, hzero⟩)

/-- The chain of callers is that of the parents. -/
theorem chain_documentOf (h : g.Grown) (order : FrameOrder) {fuel id : Nat}
    (hid : id < g.nodes.length) (hzero : id ≠ 0) (hfuel : id < fuel) :
    (documentOf order g).chain fuel id =
      some ((g.lineageOf id).map fun x => displayName g (g.targetOf x)) := by
  induction fuel generalizing id with
  | zero => exact absurd hfuel (Nat.not_lt_zero id)
  | succ fuel ih =>
    have hpos := Nat.pos_of_ne_zero hzero
    have hparent_lt := h.rooted.parent_lt id hpos hid
    have hlineage : g.lineageOf id = id :: g.lineageOf (g.parentOf id) :=
      h.rooted.lineage_of_pos hpos hid
    obtain ⟨frame, hframe, hname⟩ := find?_frame order
      ((mem_framesOf h).mpr ⟨id, hid, hzero, rfl⟩)
    have hrest : (documentOf order g).chain fuel (shownStack g id).callerId =
        some ((g.lineageOf (g.parentOf id)).map fun x => displayName g (g.targetOf x)) := by
      by_cases hparent : g.parentOf id = 0
      · obtain ⟨k, rfl⟩ := Nat.exists_eq_succ_of_ne_zero (n := fuel) (by omega)
        rw [shownStack, if_pos hparent, hparent]
        rfl
      · rw [shownStack, if_neg hparent]
        exact ih (hparent_lt.trans hid) hparent (by omega)
    rw [Document.chain, if_neg (by omega), find?_stack h order hid hzero, Option.bind_eq_bind,
      Option.bind_some]
    change ((documentOf order g).frames.find?
      (fun frame => (frame.id : Int) = numberOf (framesOf g) (g.targetOf id)) >>= _) = _
    rw [hframe, Option.bind_eq_bind, Option.bind_some, hrest, hlineage, List.map_cons, ← hname]
    rfl

theorem pathOf_documentOf (h : g.Grown) (order : FrameOrder) {id : Nat} (hid : id ∈ g.valued) :
    (documentOf order g).pathOf (shownSample g id) =
      some ((g.path id).map (displayName g), g.exclusiveOf id) := by
  obtain ⟨hlt, hzero⟩ := mem_valued_ne h hid
  have hlen : (documentOf order g).stackItems.length = g.nodes.length - 1 := by
    rw [← length_located h]
    exact List.length_map _
  have hchain : (documentOf order g).chain ((documentOf order g).stackItems.length + 1) id = _ :=
    chain_documentOf h order hlt hzero (by omega)
  unfold Document.pathOf
  change ((documentOf order g).chain _ (id : Int) >>= _) = _
  rw [hchain, NodeGraph.path, List.map_reverse, List.map_map]
  rfl

theorem paths_documentOf (h : g.Grown) (order : FrameOrder) :
    (documentOf order g).paths =
      some ((g.weighted g.visited).map fun pair => (pair.1.map (displayName g), pair.2)) := by
  have hpaths : (g.valued.map (shownSample g)).mapM (documentOf order g).pathOf =
      some (g.valued.map fun id => ((g.path id).map (displayName g), g.exclusiveOf id)) := by
    rw [List.mapM_map]
    exact mapM_eq_some_map fun id hid => pathOf_documentOf h order hid
  unfold Document.paths
  change (g.valued.map (shownSample g)).mapM _ = _
  rw [hpaths, NodeGraph.weighted, List.map_map]
  rfl

/-- **The document carries the names and values of the graph.** -/
theorem toPerfViewXml_reads (h : g.Grown) (order : FrameOrder) :
    ∃ text document pairs, toPerfViewXml order g = .ok text ∧
      readDocument text = some document ∧ document.Closed ∧ document.Counted ∧
      document.paths = some pairs ∧
      pairs.Perm (g.weightedPaths.map fun pair => (pair.1.map (displayName g), pair.2)) :=
  ⟨_, _, _, toPerfViewXml_eq h order, readDocument_text order g, closed_documentOf h order,
    counted_documentOf h order, paths_documentOf h order, h.weighted_visited.map _⟩

end File

end OneCollect.Exporting.PerfView
