import OneCollect.Exporting.WindowsCpu

/-! Pid reuse on Windows. A start record makes a global pid for its local pid, and image loads
and callstacks look the global pid up when they come.

A local pid is mapped to the global pid of its last start so far (`PidsNumbered`). A callstack comes
later than its event, and one that is left to the flush comes at the end and with 16 bits of its
pid: it finds the process of the event if that pid was not used again (`pidsRight_iff`). -/

namespace OneCollect.Exporting
open Theory Callstack

/-- A record of the session: one of the events, or frames of a callstack. -/
inductive KernelRecord where
  | logged (event : WinEvent)
  | frames (call : AddFrames)
  deriving DecidableEq, Repr

/-- What comes to the exporter. Some frames complete no callstack; a callstack comes with the ids
that its frames were added with. -/
inductive PidMove where
  | logged (event : WinEvent)
  | waits
  | callstack (key : StackKey) (stack : CompletedCallstack)
  deriving DecidableEq, Repr

/-- The callstacks of a flush, with the ids in the key of the map. -/
def flushMoves (order : MapOrder Nat) (lookup : PartialCallstackLookup) : List PidMove :=
  (drain order lookup.threadStacks).flatMap fun entry =>
    (drain order entry.2.partials).map fun stack =>
      .callstack ⟨entry.1 >>> 32, entry.1 % 2 ^ 32, stack.1⟩
        ⟨stack.1, entry.1 >>> 32 &&& 0xFFFF, entry.1 &&& 0xFFFF, stack.2.frames⟩

/-- The records in their order, and then the flush. -/
def movesFrom (order : MapOrder Nat) : PartialCallstackLookup → List KernelRecord → List PidMove
  | lookup, [] => flushMoves order lookup
  | lookup, .logged event :: records => .logged event :: movesFrom order lookup records
  | lookup, .frames call :: records =>
    let added := lookup.addFrames call
    (match added.1 with
      | some stack => .callstack call.key stack
      | none => .waits) :: movesFrom order added.2 records

def PidMove.stack? : PidMove → Option CompletedCallstack
  | .callstack _ stack => some stack
  | _ => none

namespace PidMove

/-- The time of an event, and for a callstack that of the event it belongs to. -/
def time : PidMove → Nat
  | .logged event => event.time
  | .waits => 0
  | .callstack key _ => key.time

/-- A record of a process other than its start. -/
def Of (pid : Nat) : PidMove → Prop
  | .logged (.imageLoad event) => event.pid = pid
  | .logged (.processEnd event) => event.pid = pid
  | .callstack key _ => key.pid = pid
  | _ => False

/-- Starts, ends, image loads and profile events with their callstacks. -/
def OfPids : PidMove → Prop
  | .logged (.fault _) => False
  | .logged (.cswitch _) => False
  | .logged (.callstack _) => False
  | _ => True

def act (kinds : WinKinds) (machine : WindowsMachine) : PidMove → WindowsMachine
  | .logged event => machine.hook kinds event
  | .waits => machine
  | .callstack _ stack => machine.hook kinds (.callstack stack)

end PidMove

section Spec

variable (kinds : WinKinds) (moves : List PidMove)

/-- A process with the pid starts at the position. -/
def StartsAt (pid s : Nat) (start : ProcessStartEvent) : Prop :=
  moves[s]? = some (.logged (.processStart start)) ∧ start.pid = pid

/-- The events are ordered by time, a start is later than what came before it, and a process has
its start before its other records. -/
structure PidTrace : Prop where
  only : ∀ move ∈ moves, move.OfPids
  later : ∀ (i k : Nat) (move : PidMove) (start : ProcessStartEvent), i < k →
    moves[i]? = some move → moves[k]? = some (.logged (.processStart start)) →
    move.time < start.time
  ordered : ∀ (i k : Nat) (start : ProcessStartEvent) (event : WinEvent), i < k →
    moves[i]? = some (.logged (.processStart start)) → moves[k]? = some (.logged event) →
    start.time ≤ (PidMove.logged event).time
  started : ∀ (n pid : Nat) (move : PidMove), moves[n]? = some move → move.Of pid →
    ∃ k < n, ∃ start, StartsAt moves pid k start ∧ start.time ≤ move.time

/-- The latest start of a pid at or before a time. -/
def LatestStart (pid time s : Nat) : Prop :=
  (∃ start, StartsAt moves pid s start ∧ start.time ≤ time) ∧
    ∀ k start, s < k → StartsAt moves pid k start → time < start.time

/-- The machine before the move at a position. -/
def machineAt (n : Nat) : WindowsMachine :=
  (moves.take n).foldl (PidMove.act kinds) (WindowsMachine.new [])

/-- The global pid that the start at a position makes. -/
def globalPid (s : Nat) : Nat := (machineAt kinds moves s).newGlobalPid.1

/-- Every mapping and every sample of a callstack is added to the global process of the latest
start of its pid at or before its time, and no two starts have one global process. -/
structure PidsRight : Prop where
  loads : ∀ (n : Nat) (event : ImageLoadEvent), moves[n]? = some (.logged (.imageLoad event)) →
    ∃ s mapping, LatestStart moves event.pid event.time s ∧
      mapping.time = event.time ∧ mapping.start = event.addr ∧
      ∀ q, (machineAt kinds moves (n + 1)).process q =
        if q = globalPid kinds moves s then
          ((machineAt kinds moves n).process q).addMapping mapping
        else (machineAt kinds moves n).process q
  samples : ∀ (n : Nat) (key : StackKey) (stack : CompletedCallstack),
    moves[n]? = some (.callstack key stack) → ∀ pid sample,
    (machineAt kinds moves (n + 1)).held = (machineAt kinds moves n).held + {(pid, sample)} →
    ∃ s, LatestStart moves key.pid key.time s ∧ pid = globalPid kinds moves s
  apart : ∀ (pid pid' s s' : Nat) (start start' : ProcessStartEvent), StartsAt moves pid s start →
    StartsAt moves pid' s' start' → globalPid kinds moves s = globalPid kinds moves s' → s = s'

/-- A profile event waits for the callstack. -/
def FindsProfile (machine : WindowsMachine) (stack : CompletedCallstack) : Prop :=
  ∃ samples value, machine.cpuSamples = some samples ∧
    samples.lookup (cpuKey stack) = some value

/-- A callstack for which an event waits comes with its own pid, and its pid was not used again
since the event. -/
def NotReused : Prop :=
  ∀ (n : Nat) (key : StackKey) (stack : CompletedCallstack),
    moves[n]? = some (.callstack key stack) → FindsProfile (machineAt kinds moves n) stack →
    stack.pid = key.pid ∧
      ∀ k < n, ∀ start, StartsAt moves key.pid k start → start.time ≤ key.time

end Spec

/-! ## What the callbacks do -/

namespace WindowsMachine

/-- Only the processes and strings change. -/
structure Rebuilt (machine after : WindowsMachine) : Prop where
  cswitches : after.cswitches = machine.cswitches
  faults : after.faults = machine.faults
  pidMapping : after.pidMapping = machine.pidMapping
  cpuSamples : after.cpuSamples = machine.cpuSamples
  pidIndex : after.pidIndex = machine.pidIndex
  hooks : after.sampleHooks = machine.sampleHooks

variable {self after : WindowsMachine}

theorem Rebuilt.refl (self : WindowsMachine) : Rebuilt self self :=
  ⟨rfl, rfl, rfl, rfl, rfl, rfl⟩

theorem Rebuilt.trans {middle : WindowsMachine} (h : Rebuilt self middle)
    (h' : Rebuilt middle after) : Rebuilt self after := by
  obtain ⟨hcswitches, hfaults, hmapping, hsamples, hindex, hhooks⟩ := h
  obtain ⟨hcswitches', hfaults', hmapping', hsamples', hindex', hhooks'⟩ := h'
  exact ⟨hcswitches'.trans hcswitches, hfaults'.trans hfaults, hmapping'.trans hmapping,
    hsamples'.trans hsamples, hindex'.trans hindex, hhooks'.trans hhooks⟩

theorem rebuilt_processMut (self : WindowsMachine) (pid : Nat)
    (f : ExportProcess → ExportProcess) : Rebuilt self (self.processMut pid f) :=
  ⟨rfl, rfl, rfl, rfl, rfl, rfl⟩

theorem rebuilt_addCommExec (self : WindowsMachine) (pid : Nat) (comm : String) (time : Nat) :
    Rebuilt self (self.addCommExec pid comm time) := by
  unfold addCommExec
  split
  · exact .refl self
  · exact ⟨rfl, rfl, rfl, rfl, rfl, rfl⟩

theorem rebuilt_addCommExit (self : WindowsMachine) (pid time : Nat) :
    Rebuilt self (self.addCommExit pid time) := by
  unfold addCommExit
  split
  · exact .refl self
  · exact ⟨rfl, rfl, rfl, rfl, rfl, rfl⟩

/-- The machine to which a mapping of a file is added. -/
def internMapping (self : WindowsMachine) (filename : String) : WindowsMachine :=
  { (self.intern filename).2 with mapIndex := (self.intern filename).2.mapIndex + 1 }

theorem addMmapExec_eq (self : WindowsMachine) {pid : Nat} (hpid : pid ≠ 0)
    (time addr len pgoffset maj min ino : Nat) (filename : String) :
    ∃ mapping, mapping.time = time ∧ mapping.start = addr ∧
      self.addMmapExec time pid addr len pgoffset maj min ino filename =
        (self.internMapping filename).processMut pid (·.addMapping mapping) := by
  let mapping : ProcessMapping :=
    { time, filenameId := (self.intern filename).1, start := addr,
      stop := (addr + len + 2 ^ 64 - 1) % 2 ^ 64, fileOffset := pgoffset, anon := isAnon filename,
      id := (self.intern filename).2.mapIndex,
      unwindType := if isAnon filename || isPe filename then .Prolog else .DWARF
      node := if isAnon filename then none else some (.fromParts maj min ino) }
  refine ⟨mapping, rfl, rfl, ?_⟩
  unfold addMmapExec
  rw [if_neg hpid]
  rfl

theorem rebuilt_addMmapExec (self : WindowsMachine) (time pid addr len pgoffset maj min ino : Nat)
    (filename : String) :
    Rebuilt self (self.addMmapExec time pid addr len pgoffset maj min ino filename) := by
  by_cases hpid : pid = 0
  · unfold addMmapExec
    rw [if_pos hpid]
    exact .refl self
  · obtain ⟨mapping, -, -, heq⟩ :=
      self.addMmapExec_eq hpid time addr len pgoffset maj min ino filename
    rw [heq]
    exact ⟨rfl, rfl, rfl, rfl, rfl, rfl⟩

theorem rebuilt_intern (self : WindowsMachine) (value : String) :
    Rebuilt self (self.intern value).2 :=
  ⟨rfl, rfl, rfl, rfl, rfl, rfl⟩

theorem hookMmapEvent_eq (self : WindowsMachine) (event : ImageLoadEvent) :
    self.hookMmapEvent event =
      let path := "\\\\?\\GlobalRoot" ++ event.filename
      let found := self.getOrAllocGlobalPid event.pid
      (found.2.intern path).2.addMmapExec event.time found.1 event.addr event.len 0 0 0
        (found.2.intern path).1 path := rfl

theorem rebuilt_hookMmapEvent (self : WindowsMachine) (event : ImageLoadEvent) :
    Rebuilt (self.getOrAllocGlobalPid event.pid).2 (self.hookMmapEvent event) := by
  rw [hookMmapEvent_eq]
  exact (rebuilt_intern _ _).trans (rebuilt_addMmapExec _ _ _ _ _ _ _ _ _ _)

theorem rebuilt_hookCommEvent (self : WindowsMachine) (event : ProcessStartEvent) :
    Rebuilt (self.allocGlobalPid event.pid).2 (self.hookCommEvent event) := by
  unfold hookCommEvent
  cases event.comm with
  | some comm => exact (rebuilt_addCommExec _ _ _ _).trans (rebuilt_processMut _ _ _)
  | none => exact .refl _

theorem rebuilt_hookCommEnd (self : WindowsMachine) (event : ProcessEndEvent) :
    Rebuilt (self.getOrAllocGlobalPid event.pid).2 (self.hookCommEnd event) :=
  rebuilt_addCommExit _ _ _

/-- A mapping comes to the process of a pid other than 0. -/
theorem process_addMmapExec (self : WindowsMachine) {pid : Nat} (hpid : pid ≠ 0)
    (time addr len pgoffset maj min ino : Nat) (filename : String) :
    ∃ mapping, mapping.time = time ∧ mapping.start = addr ∧
      ∀ q, (self.addMmapExec time pid addr len pgoffset maj min ino filename).process q =
        if q = pid then (self.process q).addMapping mapping else self.process q := by
  obtain ⟨mapping, htime, hstart, heq⟩ :=
    self.addMmapExec_eq hpid time addr len pgoffset maj min ino filename
  refine ⟨mapping, htime, hstart, fun q => ?_⟩
  rw [heq]
  refine ((self.internMapping filename).toRecordingMachine.process_processMut pid
    (f := (·.addMapping mapping)) (fun _ => rfl) q).trans ?_
  split
  · rename_i hq
    rw [hq]
    rfl
  · rfl

/-- Looking up a global pid makes one only for a local pid without one. -/
theorem getOrAllocGlobalPid_some {localPid globalPid : Nat}
    (h : self.pidMapping localPid = some globalPid) :
    self.getOrAllocGlobalPid localPid = (globalPid, self) := by
  unfold getOrAllocGlobalPid
  rw [h]

theorem getOrAllocGlobalPid_none {localPid : Nat} (h : self.pidMapping localPid = none) :
    self.getOrAllocGlobalPid localPid = self.allocGlobalPid localPid := by
  unfold getOrAllocGlobalPid
  rw [h]

/-- The pending events do not matter to the pids. -/
theorem getOrAllocGlobalPid_cpuSamples (self : WindowsMachine) (localPid : Nat)
    (cpuSamples : Option CpuSamples) :
    { self with cpuSamples }.getOrAllocGlobalPid localPid =
      ((self.getOrAllocGlobalPid localPid).1,
        { (self.getOrAllocGlobalPid localPid).2 with cpuSamples }) := by
  cases hmapping : self.pidMapping localPid with
  | some globalPid =>
    rw [getOrAllocGlobalPid_some hmapping]
    exact getOrAllocGlobalPid_some hmapping
  | none =>
    rw [getOrAllocGlobalPid_none hmapping]
    exact getOrAllocGlobalPid_none hmapping

end WindowsMachine

/-- The sample of a callstack for which an event waits comes to the global pid of its pid. -/
theorem CpuState.callstack_found {machine : WindowsMachine} {samples : CpuSamples}
    (kinds : WinKinds) (h : CpuState machine samples) {stack : CompletedCallstack}
    {value : CpuProfile} (hsome : samples.lookup (cpuKey stack) = some value) :
    machine.hook kinds (.callstack stack) =
      { (machine.getOrAllocGlobalPid stack.pid).2 with
        cpuSamples := some (samples.erase (cpuKey stack)) }.addSample stack.time (.count 1)
          (machine.getOrAllocGlobalPid stack.pid).1 stack.tid (toU16 value.cpu) kinds.cpu
          stack.frames := by
  rw [h.hookCallstack]
  unfold WindowsMachine.cpuCallstack
  rw [h.cpuSamples]
  dsimp only
  rw [show samples.lookup ⟨stack.time, stack.tid⟩ = some value from hsome]
  dsimp only
  rw [WindowsMachine.getOrAllocGlobalPid_cpuSamples]
  rfl

/-! ## Global pids of one move -/

/-- The global pids stay as they are. -/
structure PidsKept (machine after : WindowsMachine) : Prop where
  mapping : after.pidMapping = machine.pidMapping
  index : after.pidIndex = machine.pidIndex

/-- A global pid is made for a local pid. -/
structure PidMade (pid : Nat) (machine after : WindowsMachine) : Prop where
  mapping : after.pidMapping = Function.update machine.pidMapping pid (some machine.pidIndex)
  index : after.pidIndex = toU32 (machine.pidIndex + 1)

section Steps

variable {kinds : WinKinds} {machine after : WindowsMachine} {samples : CpuSamples}

theorem CpuState.rebuilt (h : CpuState machine samples)
    (hrebuilt : WindowsMachine.Rebuilt machine after) : CpuState after samples :=
  ⟨hrebuilt.cpuSamples.trans h.cpuSamples, hrebuilt.cswitches.trans h.cswitches,
    hrebuilt.faults.trans h.faults, hrebuilt.hooks.trans h.hooks⟩

theorem CpuState.getOrAllocGlobalPid (h : CpuState machine samples) (pid : Nat) :
    CpuState (machine.getOrAllocGlobalPid pid).2 samples := by
  obtain ⟨pidMapping, pidIndex, heq⟩ := machine.getOrAllocGlobalPid_eq pid
  rw [heq]
  exact ⟨h.cpuSamples, h.cswitches, h.faults, h.hooks⟩

/-- Only profile events wait after each move. -/
theorem CpuState.act (kinds : WinKinds) (h : CpuState machine samples) {move : PidMove}
    (hmove : move.OfPids) : ∃ samples', CpuState (move.act kinds machine) samples' := by
  cases move with
  | waits => exact ⟨samples, h⟩
  | callstack key stack =>
    cases hlookup : samples.lookup (cpuKey stack) with
    | none =>
      have hsame : (PidMove.callstack key stack).act kinds machine = machine :=
        h.callstack_none hlookup
      exact ⟨samples, hsame.symm ▸ h⟩
    | some value =>
      obtain ⟨pid, pidMapping, pidIndex, hhook⟩ := h.callstack_some kinds hlookup
      refine ⟨samples.erase (cpuKey stack), ?_⟩
      show CpuState (machine.hook kinds (.callstack stack)) _
      rw [hhook]
      exact h.addSample stack pid _ _ pidMapping pidIndex
  | logged event =>
    cases event with
    | profile event => exact ⟨_, h.profile kinds event⟩
    | imageLoad event =>
      exact ⟨samples, (h.getOrAllocGlobalPid event.pid).rebuilt
        (machine.rebuilt_hookMmapEvent event)⟩
    | processStart event =>
      have halloc : CpuState (machine.allocGlobalPid event.pid).2 samples :=
        ⟨h.cpuSamples, h.cswitches, h.faults, h.hooks⟩
      exact ⟨samples, halloc.rebuilt (machine.rebuilt_hookCommEvent event)⟩
    | processEnd event =>
      exact ⟨samples, (h.getOrAllocGlobalPid event.pid).rebuilt
        (machine.rebuilt_hookCommEnd event)⟩
    | fault event => exact hmove.elim
    | cswitch event => exact hmove.elim
    | callstack stack => exact hmove.elim

theorem pidsKept_or_made (machine : WindowsMachine) (pid : Nat) :
    PidsKept machine (machine.getOrAllocGlobalPid pid).2 ∨
      machine.pidMapping pid = none ∧ PidMade pid machine (machine.getOrAllocGlobalPid pid).2 := by
  cases hmapping : machine.pidMapping pid with
  | some globalPid =>
    rw [WindowsMachine.getOrAllocGlobalPid_some hmapping]
    exact .inl ⟨rfl, rfl⟩
  | none =>
    rw [WindowsMachine.getOrAllocGlobalPid_none hmapping]
    exact .inr ⟨rfl, rfl, rfl⟩

/-- What a move other than a start can do to the global pids. -/
def PidsLooked (machine after : WindowsMachine) : Prop :=
  PidsKept machine after ∨ ∃ pid, machine.pidMapping pid = none ∧ PidMade pid machine after

theorem pidsLooked_getOrAlloc (machine : WindowsMachine) (pid : Nat)
    (hmapping : after.pidMapping = (machine.getOrAllocGlobalPid pid).2.pidMapping)
    (hindex : after.pidIndex = (machine.getOrAllocGlobalPid pid).2.pidIndex) :
    PidsLooked machine after := by
  rcases pidsKept_or_made machine pid with hkept | ⟨hnone, hmade⟩
  · exact .inl ⟨hmapping.trans hkept.mapping, hindex.trans hkept.index⟩
  · exact .inr ⟨pid, hnone, hmapping.trans hmade.mapping, hindex.trans hmade.index⟩

/-- **Pids of a move.** A start makes a global pid, other moves look them up. -/
theorem CpuState.act_pids (kinds : WinKinds) (h : CpuState machine samples) {move : PidMove}
    (hmove : move.OfPids) :
    (∃ start, move = .logged (.processStart start) ∧
        PidMade start.pid machine (move.act kinds machine)) ∨
      (∀ start, move ≠ .logged (.processStart start)) ∧
        PidsLooked machine (move.act kinds machine) := by
  cases move with
  | waits => exact .inr ⟨fun start hsame => (by cases hsame), .inl ⟨rfl, rfl⟩⟩
  | callstack key stack =>
    refine .inr ⟨fun start hsame => (by cases hsame), ?_⟩
    cases hlookup : samples.lookup (cpuKey stack) with
    | none =>
      have hsame : (PidMove.callstack key stack).act kinds machine = machine :=
        h.callstack_none hlookup
      rw [hsame]
      exact .inl ⟨rfl, rfl⟩
    | some value =>
      have hhook := h.callstack_found kinds hlookup
      exact pidsLooked_getOrAlloc machine stack.pid
        (congrArg (·.pidMapping) hhook) (congrArg (·.pidIndex) hhook)
  | logged event =>
    cases event with
    | processStart event =>
      have hrebuilt := machine.rebuilt_hookCommEvent event
      exact .inl ⟨event, rfl, hrebuilt.pidMapping, hrebuilt.pidIndex⟩
    | imageLoad event =>
      have hrebuilt := machine.rebuilt_hookMmapEvent event
      exact .inr ⟨fun start hsame => (by cases hsame),
        pidsLooked_getOrAlloc machine event.pid hrebuilt.pidMapping hrebuilt.pidIndex⟩
    | processEnd event =>
      have hrebuilt := machine.rebuilt_hookCommEnd event
      exact .inr ⟨fun start hsame => (by cases hsame),
        pidsLooked_getOrAlloc machine event.pid hrebuilt.pidMapping hrebuilt.pidIndex⟩
    | profile event =>
      have hsame : (machine.hookProfileEvent event).pidMapping = machine.pidMapping ∧
          (machine.hookProfileEvent event).pidIndex = machine.pidIndex := by
        unfold WindowsMachine.hookProfileEvent
        split
        · exact ⟨rfl, rfl⟩
        · split <;> exact ⟨rfl, rfl⟩
      exact .inr ⟨fun start hstart => (by cases hstart), .inl ⟨hsame.1, hsame.2⟩⟩
    | fault event => exact hmove.elim
    | cswitch event => exact hmove.elim
    | callstack stack => exact hmove.elim

end Steps

/-! ## Global pids along the moves -/

/-- The local pids are mapped to the global pids of their last starts, and each global pid was
made once. -/
structure PidsNumbered (kinds : WinKinds) (moves : List PidMove) (n : Nat) : Prop where
  index : (machineAt kinds moves n).pidIndex ≤ n + 1
  positive : 0 < (machineAt kinds moves n).pidIndex
  fresh : ∀ pid global, (machineAt kinds moves n).pidMapping pid = some global →
    global < (machineAt kinds moves n).pidIndex
  made : ∀ s < n, ∀ pid start, StartsAt moves pid s start →
    globalPid kinds moves s < (machineAt kinds moves n).pidIndex
  last : ∀ s < n, ∀ pid start, StartsAt moves pid s start →
    (∀ k start', s < k → k < n → ¬ StartsAt moves pid k start') →
    (machineAt kinds moves n).pidMapping pid = some (globalPid kinds moves s)
  owner : ∀ s < n, ∀ pid pid' start, StartsAt moves pid' s start →
    (machineAt kinds moves n).pidMapping pid = some (globalPid kinds moves s) →
    pid' = pid ∧ ∀ k start', s < k → k < n → ¬ StartsAt moves pid k start'

section Runs

variable {kinds : WinKinds} {moves : List PidMove}

theorem machineAt_succ (kinds : WinKinds) {n : Nat} {move : PidMove}
    (h : moves[n]? = some move) :
    machineAt kinds moves (n + 1) = move.act kinds (machineAt kinds moves n) := by
  unfold machineAt
  rw [List.take_add_one, h, List.foldl_append]
  rfl

theorem StartsAt.unique {s pid pid' : Nat} {start start' : ProcessStartEvent}
    (h : StartsAt moves pid s start) (h' : StartsAt moves pid' s start') : pid = pid' := by
  have hsame := h.1.symm.trans h'.1
  obtain rfl := WinEvent.processStart.inj (PidMove.logged.inj (Option.some.inj hsame))
  exact h.2.symm.trans h'.2

theorem PidTrace.state (h : PidTrace moves) (kinds : WinKinds) {n : Nat}
    (hn : n ≤ moves.length) : ∃ samples, CpuState (machineAt kinds moves n) samples := by
  induction n with
  | zero => exact ⟨∅, rfl, rfl, rfl, rfl⟩
  | succ n ih =>
    obtain ⟨samples, hstate⟩ := ih (Nat.le_of_succ_le hn)
    have hmove : moves[n]? = some (moves.get ⟨n, hn⟩) := List.getElem?_eq_getElem hn
    rw [machineAt_succ kinds hmove]
    exact hstate.act kinds (h.only _ (List.mem_of_getElem? hmove))

/-- A global pid is made, by a start or for a local pid without one. -/
theorem PidsNumbered.made_step {n pid : Nat} (h : PidsNumbered kinds moves n) (hn : n + 2 < 2 ^ 32)
    (hmade : PidMade pid (machineAt kinds moves n) (machineAt kinds moves (n + 1)))
    (hstarts : ∀ pid' start, StartsAt moves pid' n start → pid' = pid)
    (hknown : (∃ start, StartsAt moves pid n start) ∨
      (machineAt kinds moves n).pidMapping pid = none) :
    PidsNumbered kinds moves (n + 1) := by
  have hindex : (machineAt kinds moves (n + 1)).pidIndex =
      (machineAt kinds moves n).pidIndex + 1 := by
    rw [hmade.index, toU32]
    have := h.index
    omega
  have hglobal : globalPid kinds moves n = (machineAt kinds moves n).pidIndex := rfl
  have hself : (machineAt kinds moves (n + 1)).pidMapping pid =
      some (machineAt kinds moves n).pidIndex := by
    rw [hmade.mapping, Function.update_self]
  have hother : ∀ q, q ≠ pid → (machineAt kinds moves (n + 1)).pidMapping q =
      (machineAt kinds moves n).pidMapping q := by
    intro q hq
    rw [hmade.mapping, Function.update_of_ne hq]
  refine ⟨?_, ?_, ?_, ?_, ?_, ?_⟩
  · have := h.index
    omega
  · omega
  · intro q global hq
    rw [hindex]
    by_cases hqp : q = pid
    · rw [hqp, hself] at hq
      obtain rfl := Option.some.inj hq
      omega
    · rw [hother q hqp] at hq
      have := h.fresh q global hq
      omega
  · intro s hs q start hstart
    rw [hindex]
    rcases Nat.lt_succ_iff_lt_or_eq.mp hs with hlt | rfl
    · have := h.made s hlt q start hstart
      omega
    · omega
  · intro s hs q start hstart hnone
    rcases Nat.lt_succ_iff_lt_or_eq.mp hs with hlt | rfl
    · have hlast := h.last s hlt q start hstart fun k start' hsk hkn =>
        hnone k start' hsk (Nat.lt_succ_of_lt hkn)
      by_cases hqp : q = pid
      · subst hqp
        rcases hknown with ⟨start', hstart'⟩ | hunknown
        · exact absurd hstart' (hnone n start' hlt (Nat.lt_succ_self n))
        · rw [hunknown] at hlast
          cases hlast
      · rw [hother q hqp]
        exact hlast
    · obtain rfl := hstarts q start hstart
      exact hself
  · intro s hs q q' start hstart hq
    by_cases hqp : q = pid
    · rw [hqp, hself] at hq
      have hsame := Option.some.inj hq
      rcases Nat.lt_succ_iff_lt_or_eq.mp hs with hlt | rfl
      · have := h.made s hlt q' start hstart
        omega
      · exact ⟨(hstarts q' start hstart).trans hqp.symm, fun k start' hsk hkn => by omega⟩
    · rw [hother q hqp] at hq
      rcases Nat.lt_succ_iff_lt_or_eq.mp hs with hlt | rfl
      · obtain ⟨hsame, hnone⟩ := h.owner s hlt q q' start hstart hq
        refine ⟨hsame, fun k start' hsk hkn hk => ?_⟩
        rcases Nat.lt_succ_iff_lt_or_eq.mp hkn with hlt' | rfl
        · exact hnone k start' hsk hlt' hk
        · exact hqp (hstarts q start' hk)
      · have := h.fresh q _ hq
        omega

/-- The global pids stay, and no process starts. -/
theorem PidsNumbered.kept_step {n : Nat} (h : PidsNumbered kinds moves n)
    (hkept : PidsKept (machineAt kinds moves n) (machineAt kinds moves (n + 1)))
    (hstarts : ∀ pid start, ¬ StartsAt moves pid n start) : PidsNumbered kinds moves (n + 1) := by
  have hbefore : ∀ {s pid start}, s < n + 1 → StartsAt moves pid s start → s < n := by
    intro s pid start hs hstart
    rcases Nat.lt_succ_iff_lt_or_eq.mp hs with hlt | rfl
    · exact hlt
    · exact absurd hstart (hstarts pid start)
  refine ⟨?_, ?_, ?_, ?_, ?_, ?_⟩
  · rw [hkept.index]
    exact Nat.le_succ_of_le h.index
  · rw [hkept.index]
    exact h.positive
  · rw [hkept.index, hkept.mapping]
    exact h.fresh
  · rw [hkept.index]
    exact fun s hs pid start hstart => h.made s (hbefore hs hstart) pid start hstart
  · rw [hkept.mapping]
    exact fun s hs pid start hstart hnone => h.last s (hbefore hs hstart) pid start hstart
      fun k start' hsk hkn => hnone k start' hsk (Nat.lt_succ_of_lt hkn)
  · rw [hkept.mapping]
    intro s hs pid pid' start hstart hpid
    obtain ⟨hsame, hnone⟩ := h.owner s (hbefore hs hstart) pid pid' start hstart hpid
    exact ⟨hsame, fun k start' hsk hkn hk => hnone k start' hsk (hbefore hkn hk) hk⟩

theorem PidTrace.numbered (h : PidTrace moves) (hfits : moves.length + 1 < 2 ^ 32)
    (kinds : WinKinds) {n : Nat} (hn : n ≤ moves.length) : PidsNumbered kinds moves n := by
  induction n with
  | zero =>
    refine ⟨Nat.le_refl 1, Nat.one_pos, fun pid global hpid => ?_, ?_, ?_, ?_⟩
    · have hnew : (machineAt kinds moves 0).pidMapping =
          Function.update (fun _ => none) 0 (some 0) := rfl
      rw [hnew] at hpid
      by_cases hzero : pid = 0
      · rw [hzero, Function.update_self] at hpid
        obtain rfl := Option.some.inj hpid
        exact Nat.one_pos
      · rw [Function.update_of_ne hzero] at hpid
        cases hpid
    · exact fun s hs => absurd hs (Nat.not_lt_zero s)
    · exact fun s hs => absurd hs (Nat.not_lt_zero s)
    · exact fun s hs => absurd hs (Nat.not_lt_zero s)
  | succ n ih =>
    have hmove : moves[n]? = some (moves.get ⟨n, hn⟩) := List.getElem?_eq_getElem hn
    have hbefore := ih (Nat.le_of_succ_le hn)
    obtain ⟨samples, hstate⟩ := h.state kinds (Nat.le_of_succ_le hn)
    have hpids := hstate.act_pids kinds (h.only _ (List.mem_of_getElem? hmove))
    rw [← machineAt_succ kinds hmove] at hpids
    rcases hpids with ⟨start, heq, hmade⟩ | ⟨hother, hlooked⟩
    · rw [heq] at hmove
      exact hbefore.made_step (by omega) hmade
        (fun pid' start' hstart' => hstart'.unique ⟨hmove, rfl⟩) (.inl ⟨start, hmove, rfl⟩)
    · have hnone : ∀ pid start, ¬ StartsAt moves pid n start := fun pid start hstart =>
        hother start (Option.some.inj (hmove.symm.trans hstart.1))
      rcases hlooked with hkept | ⟨pid, hunknown, hmade⟩
      · exact hbefore.kept_step hkept hnone
      · exact hbefore.made_step (by omega) hmade
          (fun pid' start hstart => absurd hstart (hnone pid' start)) (.inr hunknown)

/-! ## Starts before a position -/

/-- A pid that was started before a position has a last start before it. -/
theorem exists_last {n k pid : Nat} {start : ProcessStartEvent} (hk : k < n)
    (hstart : StartsAt moves pid k start) :
    ∃ s < n, ∃ last, StartsAt moves pid s last ∧
      ∀ k' start', s < k' → k' < n → ¬ StartsAt moves pid k' start' := by
  induction n with
  | zero => exact absurd hk (Nat.not_lt_zero k)
  | succ n ih =>
    by_cases hn : ∃ start', StartsAt moves pid n start'
    · obtain ⟨start', hstart'⟩ := hn
      exact ⟨n, Nat.lt_succ_self n, start', hstart', fun k' _ hnk hkn => by omega⟩
    · have hlt : k < n := by
        rcases Nat.lt_succ_iff_lt_or_eq.mp hk with hlt | rfl
        · exact hlt
        · exact absurd ⟨start, hstart⟩ hn
      obtain ⟨s, hs, last, hlast, hnone⟩ := ih hlt
      refine ⟨s, Nat.lt_succ_of_lt hs, last, hlast, fun k' start' hsk hkn hk' => ?_⟩
      rcases Nat.lt_succ_iff_lt_or_eq.mp hkn with hlt' | rfl
      · exact hnone k' start' hsk hlt' hk'
      · exact hn ⟨start', hk'⟩

/-- The last start before a move is the latest at or before its time, unless it is later. -/
theorem PidTrace.latest (h : PidTrace moves) {n s pid : Nat} {move : PidMove}
    {last : ProcessStartEvent} (hmove : moves[n]? = some move)
    (hother : ∀ start, move ≠ .logged (.processStart start))
    (hlast : StartsAt moves pid s last) (htime : last.time ≤ move.time)
    (hnone : ∀ k start, s < k → k < n → ¬ StartsAt moves pid k start) :
    LatestStart moves pid move.time s := by
  refine ⟨⟨last, hlast, htime⟩, fun k start hsk hstart => ?_⟩
  rcases Nat.lt_trichotomy k n with hlt | rfl | hgt
  · exact absurd hstart (hnone k start hsk hlt)
  · exact absurd (Option.some.inj (hmove.symm.trans hstart.1)) (hother start)
  · exact h.later n k move start hgt hmove hstart.1

/-- A latest start at or before the time of a move comes before it. -/
theorem PidTrace.latest_lt (h : PidTrace moves) {n s pid : Nat} {move : PidMove}
    (hmove : moves[n]? = some move) (hother : ∀ start, move ≠ .logged (.processStart start))
    (hlatest : LatestStart moves pid move.time s) : s < n := by
  obtain ⟨⟨start, hstart, htime⟩, -⟩ := hlatest
  rcases Nat.lt_trichotomy s n with hlt | rfl | hgt
  · exact hlt
  · exact absurd (Option.some.inj (hmove.symm.trans hstart.1)) (hother start)
  · have := h.later n s move start hgt hmove hstart.1
    omega

/-! ## Loads and callstacks -/

theorem PidTrace.load (h : PidTrace moves) (hfits : moves.length + 1 < 2 ^ 32) (kinds : WinKinds)
    {n : Nat} {event : ImageLoadEvent} (hload : moves[n]? = some (.logged (.imageLoad event))) :
    ∃ s mapping, LatestStart moves event.pid event.time s ∧
      mapping.time = event.time ∧ mapping.start = event.addr ∧
      ∀ q, (machineAt kinds moves (n + 1)).process q =
        if q = globalPid kinds moves s then
          ((machineAt kinds moves n).process q).addMapping mapping
        else (machineAt kinds moves n).process q := by
  obtain ⟨hn, -⟩ := List.getElem?_eq_some_iff.mp hload
  have hpids := h.numbered hfits kinds (Nat.le_of_lt hn)
  obtain ⟨k, hk, start, hstart, -⟩ := h.started n event.pid _ hload rfl
  obtain ⟨s, hs, last, hlast, hnone⟩ := exists_last hk hstart
  have hmapped := hpids.last s hs event.pid last hlast hnone
  have hpos : globalPid kinds moves s ≠ 0 :=
    Nat.ne_of_gt (h.numbered hfits kinds (by omega : s ≤ moves.length)).positive
  let path := "\\\\?\\GlobalRoot" ++ event.filename
  obtain ⟨mapping, htime, haddr, hprocess⟩ :=
    (((machineAt kinds moves n).intern path).2).process_addMmapExec hpos event.time event.addr
      event.len 0 0 0 ((machineAt kinds moves n).intern path).1 path
  refine ⟨s, mapping, h.latest hload (fun start hsame => (by cases hsame)) hlast
    (h.ordered s n last _ hs hlast.1 hload) hnone, htime, haddr, fun q => ?_⟩
  have hact : machineAt kinds moves (n + 1) = ((machineAt kinds moves n).intern path).2.addMmapExec
      event.time (globalPid kinds moves s) event.addr event.len 0 0 0
      ((machineAt kinds moves n).intern path).1 path := by
    rw [machineAt_succ kinds hload]
    show (machineAt kinds moves n).hookMmapEvent event = _
    rw [WindowsMachine.hookMmapEvent_eq, WindowsMachine.getOrAllocGlobalPid_some hmapped]
  rw [hact]
  exact hprocess q

/-- The sample of a callstack, if an event waits for it, comes to the global pid of its pid. -/
theorem PidTrace.callstack (h : PidTrace moves) (kinds : WinKinds) {n : Nat} {key : StackKey}
    {stack : CompletedCallstack} (hstack : moves[n]? = some (.callstack key stack)) :
    (¬ FindsProfile (machineAt kinds moves n) stack ∧
        machineAt kinds moves (n + 1) = machineAt kinds moves n) ∨
      FindsProfile (machineAt kinds moves n) stack ∧
        ∃ sample, (machineAt kinds moves (n + 1)).held = (machineAt kinds moves n).held +
          {(((machineAt kinds moves n).getOrAllocGlobalPid stack.pid).1, sample)} := by
  obtain ⟨hn, -⟩ := List.getElem?_eq_some_iff.mp hstack
  obtain ⟨samples, hstate⟩ := h.state kinds (Nat.le_of_lt hn)
  rw [machineAt_succ kinds hstack]
  cases hlookup : samples.lookup (cpuKey stack) with
  | none =>
    refine .inl ⟨?_, hstate.callstack_none hlookup⟩
    rintro ⟨found, value, hfound, hvalue⟩
    obtain rfl := Option.some.inj (hstate.cpuSamples.symm.trans hfound)
    rw [hlookup] at hvalue
    cases hvalue
  | some value =>
    refine .inr ⟨⟨samples, value, hstate.cpuSamples, hlookup⟩, ?_⟩
    show ∃ sample, ((machineAt kinds moves n).hook kinds (.callstack stack)).held = _
    rw [hstate.callstack_found kinds hlookup]
    obtain ⟨pidMapping, pidIndex, heq⟩ :=
      (machineAt kinds moves n).getOrAllocGlobalPid_eq stack.pid
    rw [WindowsMachine.held_addSample]
    · rw [heq]
      exact ⟨_, rfl⟩
    · rw [heq]
      exact hstate.hooks

theorem PidTrace.sample_of_notReused (h : PidTrace moves) (hfits : moves.length + 1 < 2 ^ 32)
    (hfresh : NotReused kinds moves) {n : Nat} {key : StackKey} {stack : CompletedCallstack}
    (hstack : moves[n]? = some (.callstack key stack)) {pid : Nat} {sample : ExportProcessSample}
    (hheld : (machineAt kinds moves (n + 1)).held =
      (machineAt kinds moves n).held + {(pid, sample)}) :
    ∃ s, LatestStart moves key.pid key.time s ∧ pid = globalPid kinds moves s := by
  obtain ⟨hn, -⟩ := List.getElem?_eq_some_iff.mp hstack
  rcases h.callstack kinds hstack with ⟨-, hsame⟩ | ⟨hfinds, made, hmade⟩
  · rw [hsame] at hheld
    have hcard := congrArg Multiset.card hheld
    rw [Multiset.card_add, Multiset.card_singleton] at hcard
    omega
  · obtain ⟨hpid, hstarts⟩ := hfresh n key stack hstack hfinds
    obtain ⟨k, hk, start, hstart, -⟩ := h.started n key.pid _ hstack rfl
    obtain ⟨s, hs, last, hlast, hnone⟩ := exists_last hk hstart
    have hmapped := (h.numbered hfits kinds (Nat.le_of_lt hn)).last s hs key.pid last hlast hnone
    rw [hpid, WindowsMachine.getOrAllocGlobalPid_some hmapped, hheld] at hmade
    have hsame := Multiset.singleton_inj.mp (add_left_cancel hmade)
    exact ⟨s, h.latest hstack (fun start hsame => (by cases hsame)) hlast
      (hstarts s hs last hlast) hnone, congrArg Prod.fst hsame⟩

theorem PidTrace.notReused_of_sample (h : PidTrace moves) (hfits : moves.length + 1 < 2 ^ 32)
    (hright : PidsRight kinds moves) : NotReused kinds moves := by
  intro n key stack hstack hfinds
  obtain ⟨hn, -⟩ := List.getElem?_eq_some_iff.mp hstack
  have hpids := h.numbered hfits kinds (Nat.le_of_lt hn)
  rcases h.callstack kinds hstack with ⟨hnot, -⟩ | ⟨-, sample, hheld⟩
  · exact absurd hfinds hnot
  · have hother : ∀ start, PidMove.callstack key stack ≠ .logged (.processStart start) :=
      fun start hsame => (by cases hsame)
    obtain ⟨s, hlatest, hglobal⟩ := hright.samples n key stack hstack _ sample hheld
    have hs : s < n := h.latest_lt hstack hother hlatest
    obtain ⟨⟨start, hstart, htime⟩, -⟩ := hlatest
    cases hmapping : (machineAt kinds moves n).pidMapping stack.pid with
    | none =>
      -- the global pid that is made now is not that of the start
      rw [WindowsMachine.getOrAllocGlobalPid_none hmapping] at hglobal
      have hlt := hpids.made s hs key.pid start hstart
      exact absurd hglobal (Nat.ne_of_gt hlt)
    | some global =>
      rw [WindowsMachine.getOrAllocGlobalPid_some hmapping] at hglobal
      obtain rfl : global = globalPid kinds moves s := hglobal
      obtain ⟨hpid, hnone⟩ := hpids.owner s hs stack.pid key.pid start hstart hmapping
      refine ⟨hpid.symm, fun k hk start' hstart' => ?_⟩
      rcases Nat.lt_trichotomy k s with hlt | rfl | hgt
      · have := h.later k s _ start hlt hstart'.1 hstart.1
        exact Nat.le_trans (Nat.le_of_lt this) htime
      · obtain rfl := WinEvent.processStart.inj
          (PidMove.logged.inj (Option.some.inj (hstart'.1.symm.trans hstart.1)))
        exact htime
      · exact absurd (hpid ▸ hstart') (hnone k start' hgt hk)

theorem PidTrace.globalPid_inj (h : PidTrace moves) (hfits : moves.length + 1 < 2 ^ 32)
    (kinds : WinKinds) {pid pid' s s' : Nat} {start start' : ProcessStartEvent}
    (hstart : StartsAt moves pid s start) (hstart' : StartsAt moves pid' s' start')
    (hsame : globalPid kinds moves s = globalPid kinds moves s') : s = s' := by
  have hbefore : ∀ {a b pid start}, a < b → StartsAt moves pid a start → b < moves.length →
      globalPid kinds moves a < globalPid kinds moves b := fun hab ha hb =>
    (h.numbered hfits kinds (Nat.le_of_lt hb)).made _ hab _ _ ha
  obtain ⟨hs, -⟩ := List.getElem?_eq_some_iff.mp hstart.1
  obtain ⟨hs', -⟩ := List.getElem?_eq_some_iff.mp hstart'.1
  rcases Nat.lt_trichotomy s s' with hlt | heq | hgt
  · exact absurd hsame (Nat.ne_of_lt (hbefore hlt hstart hs'))
  · exact heq
  · exact absurd hsame (Nat.ne_of_gt (hbefore hgt hstart' hs))

end Runs

/-- **Pid reuse.** Mappings and samples come to the global process of the latest start of their
pid at or before their time, if and only if each callstack for which an event waits comes with its
own pid and before the pid is used again. -/
theorem pidsRight_iff (kinds : WinKinds) (order : MapOrder Nat) (records : List KernelRecord)
    (htrace : PidTrace (movesFrom order {} records))
    (hfits : (movesFrom order {} records).length + 1 < 2 ^ 32) :
    PidsRight kinds (movesFrom order {} records) ↔ NotReused kinds (movesFrom order {} records) := by
  refine ⟨htrace.notReused_of_sample hfits, fun hfresh => ⟨?_, ?_, ?_⟩⟩
  · exact fun n event hload => htrace.load hfits kinds hload
  · exact fun n key stack hstack pid sample hheld =>
      htrace.sample_of_notReused hfits hfresh hstack hheld
  · exact fun pid pid' s s' start start' hstart hstart' hsame =>
      htrace.globalPid_inj hfits kinds hstart hstart' hsame

/-- A process starts, is profiled, and its callstack comes. -/
def profiledProcess : List KernelRecord :=
  [.logged (.processStart ⟨5, 3, false, some "a"⟩), .logged (.profile ⟨10, 7, 0, 0x1000, 1⟩),
    .frames ⟨10, 3, 7, [0x1000]⟩]

theorem moves_profiledProcess : movesFrom (.inserted Nat) {} profiledProcess =
    [.logged (.processStart ⟨5, 3, false, some "a"⟩), .logged (.profile ⟨10, 7, 0, 0x1000, 1⟩),
      .callstack ⟨3, 7, 10⟩ ⟨10, 3, 7, [0x1000]⟩] := rfl

theorem profiledProcess_trace : PidTrace (movesFrom (.inserted Nat) {} profiledProcess) := by
  rw [moves_profiledProcess]
  refine ⟨?_, ?_, ?_, ?_⟩
  · simp [PidMove.OfPids]
  · intro i k move start hik hmove hstart
    rcases k with _ | _ | _ | k <;> simp at hstart hik
  · intro i k start event hik hstart hevent
    rcases i with _ | _ | _ | i <;> simp at hstart
    subst hstart
    rcases k with _ | _ | _ | k <;> simp at hevent hik
    subst hevent
    decide
  · intro n pid move hmove hof
    rcases n with _ | _ | _ | n <;> simp at hmove <;> subst hmove
    · exact hof.elim
    · exact hof.elim
    · exact ⟨0, by decide, _, ⟨rfl, hof⟩, by decide⟩

theorem pidsRight_profiledProcess : PidsRight {} (movesFrom (.inserted Nat) {} profiledProcess) := by
  refine (pidsRight_iff {} _ _ profiledProcess_trace (by decide)).mpr ?_
  intro n key stack hstack _
  rw [moves_profiledProcess] at hstack
  rcases n with _ | _ | _ | n <;> simp at hstack
  obtain ⟨rfl, rfl⟩ := hstack
  refine ⟨rfl, fun k hk start hstart => ?_⟩
  obtain ⟨hstart, -⟩ := hstart
  rw [moves_profiledProcess] at hstart
  rcases k with _ | _ | k <;> simp at hstart
  · subst hstart
    decide
  · omega

/-- The pid is used again before the callstack of the first process comes. -/
def reusedPid : List KernelRecord :=
  [.logged (.processStart ⟨5, 3, false, some "a"⟩), .logged (.profile ⟨10, 7, 0, 0x1000, 1⟩),
    .logged (.processEnd ⟨15, 3⟩), .logged (.processStart ⟨20, 3, false, some "b"⟩),
    .frames ⟨10, 3, 7, [0x1000]⟩]

theorem moves_reusedPid : movesFrom (.inserted Nat) {} reusedPid =
    [.logged (.processStart ⟨5, 3, false, some "a"⟩), .logged (.profile ⟨10, 7, 0, 0x1000, 1⟩),
      .logged (.processEnd ⟨15, 3⟩), .logged (.processStart ⟨20, 3, false, some "b"⟩),
      .callstack ⟨3, 7, 10⟩ ⟨10, 3, 7, [0x1000]⟩] := rfl

theorem reusedPid_trace : PidTrace (movesFrom (.inserted Nat) {} reusedPid) := by
  rw [moves_reusedPid]
  refine ⟨?_, ?_, ?_, ?_⟩
  · simp [PidMove.OfPids]
  · intro i k move start hik hmove hstart
    rcases k with _ | _ | _ | _ | _ | k <;> simp at hstart hik
    subst hstart
    rcases i with _ | _ | _ | i
    · exact Option.some.inj hmove ▸ (by decide)
    · exact Option.some.inj hmove ▸ (by decide)
    · exact Option.some.inj hmove ▸ (by decide)
    · omega
  · intro i k start event hik hstart hevent
    rcases i with _ | _ | _ | _ | _ | i <;> simp at hstart
    all_goals subst hstart
    all_goals rcases k with _ | _ | _ | _ | _ | k
    all_goals simp at hevent hik
    all_goals subst hevent; decide
  · intro n pid move hmove hof
    rcases n with _ | _ | _ | _ | _ | n <;> simp at hmove <;> subst hmove
    · exact hof.elim
    · exact hof.elim
    · exact ⟨0, by decide, _, ⟨rfl, hof⟩, by decide⟩
    · exact hof.elim
    · exact ⟨0, by decide, _, ⟨rfl, hof⟩, by decide⟩

/-- The sample of the first process comes to the second. -/
theorem pidsRight_reusedPid : PidTrace (movesFrom (.inserted Nat) {} reusedPid) ∧
    ¬ PidsRight {} (movesFrom (.inserted Nat) {} reusedPid) := by
  refine ⟨reusedPid_trace, fun hright => ?_⟩
  have hfresh := reusedPid_trace.notReused_of_sample (by decide) hright
  obtain ⟨-, hstarts⟩ := hfresh 4 ⟨3, 7, 10⟩ ⟨10, 3, 7, [0x1000]⟩ rfl ⟨_, _, rfl, rfl⟩
  exact absurd (hstarts 3 (by decide) ⟨20, 3, false, some "b"⟩ ⟨rfl, rfl⟩) (by decide)

end OneCollect.Exporting
