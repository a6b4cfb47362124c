import OneCollect.Exporting.Machine
import OneCollect.Theory.Drain

/-! Partial callstacks (`helpers/callstack/os/windows.rs`). The kernel part of a stack waits, by the
thread and the time, for the user part of the same time, and what still waits at the end is
flushed.

What is delivered for a thread and a time is told by the lists that were added for them alone
(`addAll_assembled`). The flush reads the pid and the tid back out of the key of the map, and it
keeps 16 bits of each. -/

namespace OneCollect.Callstack
open Theory Exporting

/-- `PartialCallstack::frames_end_in_userspace`. -/
def framesEndInUserspace (frames : List Nat) : Bool :=
  match frames.getLast? with
  | some frame => frame < kernelStart
  | none => false

structure PartialCallstack where
  frames : List Nat := []
  deriving DecidableEq, Repr

def PartialCallstack.addFrames (self : PartialCallstack) (frames : List Nat) : PartialCallstack :=
  ⟨self.frames ++ frames⟩

structure PartialThreadCallstacks where
  partials : Entries Nat PartialCallstack := ∅

/-- The frames that are complete, if any. -/
def PartialThreadCallstacks.addFrames (self : PartialThreadCallstacks) (time : Nat)
    (frames : List Nat) : Option (List Nat) × PartialThreadCallstacks :=
  match self.partials.lookup time with
  | none =>
    if framesEndInUserspace frames then (some frames, self)
    else (none, ⟨self.partials.insert time (PartialCallstack.addFrames {} frames)⟩)
  | some waiting =>
    if framesEndInUserspace frames then
      (some (waiting.frames ++ frames), ⟨self.partials.erase time⟩)
    else (none, ⟨self.partials.insert time (waiting.addFrames frames)⟩)

structure CompletedCallstack where
  time : Nat
  pid : Nat
  tid : Nat
  frames : List Nat
  deriving DecidableEq, Repr

structure PartialCallstackLookup where
  threadStacks : Entries Nat PartialThreadCallstacks := ∅

/-- A call of `add_frames`. -/
structure AddFrames where
  time : Nat
  pid : Nat
  tid : Nat
  frames : List Nat
  deriving DecidableEq, Repr

/-- The pid and the tid in one word. -/
def packIds (pid tid : Nat) : Nat := pid <<< 32 ||| tid

namespace PartialCallstackLookup

/-- The callstack that is delivered, if any, and the lookup after the call. -/
def addFrames (self : PartialCallstackLookup) (call : AddFrames) :
    Option CompletedCallstack × PartialCallstackLookup :=
  if call.frames.isEmpty then (none, self)
  else
    let key := packIds call.pid call.tid
    let (frames, threads) :=
      ((self.threadStacks.lookup key).getD {}).addFrames call.time call.frames
    (frames.map fun frames => ⟨call.time, call.pid, call.tid, frames⟩,
      ⟨self.threadStacks.insert key threads⟩)

/-- The callstacks that a flush delivers. -/
def flush (order : MapOrder Nat) (self : PartialCallstackLookup) : List CompletedCallstack :=
  (drain order self.threadStacks).flatMap fun entry =>
    let pid := entry.1 >>> 32 &&& 0xFFFF
    let tid := entry.1 &&& 0xFFFF
    (drain order entry.2.partials).map fun stack => ⟨stack.1, pid, tid, stack.2.frames⟩

def addAll : PartialCallstackLookup → List AddFrames →
    List CompletedCallstack × PartialCallstackLookup
  | self, [] => ([], self)
  | self, call :: calls =>
    let added := self.addFrames call
    let rest := added.2.addAll calls
    (added.1.toList ++ rest.1, rest.2)

/-- All that is delivered: by the calls, and then by the flush. -/
def deliveries (order : MapOrder Nat) (calls : List AddFrames) : List CompletedCallstack :=
  let added := addAll {} calls
  added.1 ++ added.2.flush order

end PartialCallstackLookup

/-! ## Threads and times -/

/-- What the lists of a stack have in common. -/
structure StackKey where
  pid : Nat
  tid : Nat
  time : Nat
  deriving DecidableEq, Repr

def AddFrames.key (self : AddFrames) : StackKey := ⟨self.pid, self.tid, self.time⟩

def CompletedCallstack.key (self : CompletedCallstack) : StackKey :=
  ⟨self.pid, self.tid, self.time⟩

/-- The lists of frames that were added for a key, but for empty ones. -/
def listsOf (key : StackKey) (calls : List AddFrames) : List (List Nat) :=
  (calls.filter fun call => call.key = key ∧ call.frames ≠ []).map (·.frames)

/-- The stacks that were delivered under a key. -/
def deliveredTo (key : StackKey) (delivered : List CompletedCallstack) : List (List Nat) :=
  (delivered.filter fun stack => stack.key = key).map (·.frames)

/-- A stack is made of some lists, and only the last of them may end in user mode. -/
def Chunk (lists : List (List Nat)) : Prop :=
  lists ≠ [] ∧ ∀ frames ∈ lists.dropLast, ¬ framesEndInUserspace frames

/-- Under each key the lists that were added, in their order, are cut into chunks, and each chunk
is delivered as one stack. -/
def Assembled (calls : List AddFrames) (delivered : List CompletedCallstack) : Prop :=
  ∀ key : StackKey, ∃ chunks : List (List (List Nat)),
    chunks.flatten = listsOf key calls ∧ (∀ chunk ∈ chunks, Chunk chunk) ∧
      deliveredTo key delivered = chunks.map List.flatten

/-- The stack of a key still waits after the calls: its last list does not end in user mode. -/
def Waits (key : StackKey) (calls : List AddFrames) : Prop :=
  ∃ frames, (listsOf key calls).getLast? = some frames ∧ ¬ framesEndInUserspace frames

/-- Every stack that is left to the flush has a pid and a tid of 16 bits. -/
def ShortAtFlush (calls : List AddFrames) : Prop :=
  ∀ key : StackKey, Waits key calls → key.pid < 2 ^ 16 ∧ key.tid < 2 ^ 16

/-! ## One call -/

theorem packIds_eq {pid tid : Nat} (h : tid < 2 ^ 32) : packIds pid tid = pid * 2 ^ 32 + tid := by
  unfold packIds
  rw [← Nat.shiftLeft_add_eq_or_of_lt h, Nat.shiftLeft_eq]

theorem packIds_inj {pid tid pid' tid' : Nat} (h : tid < 2 ^ 32) (h' : tid' < 2 ^ 32) :
    packIds pid tid = packIds pid' tid' ↔ pid = pid' ∧ tid = tid' := by
  rw [packIds_eq h, packIds_eq h']
  omega

/-- What waits for a time. -/
def PartialThreadCallstacks.waiting (self : PartialThreadCallstacks) (time : Nat) :
    Option (List Nat) :=
  (self.partials.lookup time).map (·.frames)

/-- A list with a user part completes what waits for its time. -/
theorem PartialThreadCallstacks.addFrames_fst (self : PartialThreadCallstacks) (time : Nat)
    (frames : List Nat) :
    (self.addFrames time frames).1 =
      if framesEndInUserspace frames then some ((self.waiting time).getD [] ++ frames)
      else none := by
  unfold addFrames waiting
  by_cases huser : framesEndInUserspace frames = true
  · cases self.partials.lookup time with
    | none => simp [huser]
    | some stack => simp [huser]
  · cases self.partials.lookup time with
    | none => simp [huser]
    | some stack => simp [huser]

theorem PartialThreadCallstacks.waiting_addFrames (self : PartialThreadCallstacks) (time : Nat)
    (frames : List Nat) (t : Nat) :
    (self.addFrames time frames).2.waiting t =
      if t = time then
        if framesEndInUserspace frames then none
        else some ((self.waiting time).getD [] ++ frames)
      else self.waiting t := by
  unfold addFrames waiting
  by_cases huser : framesEndInUserspace frames = true
  · rcases eq_or_ne t time with rfl | ht
    · cases hwaiting : self.partials.lookup t with
      | none => simp [huser, hwaiting]
      | some stack => simp [huser]
    · cases self.partials.lookup time with
      | none => simp [huser, ht]
      | some stack => simp [huser, ht]
  · rcases eq_or_ne t time with rfl | ht
    · cases self.partials.lookup t with
      | none => simp [huser, PartialCallstack.addFrames]
      | some stack => simp [huser, PartialCallstack.addFrames]
    · cases self.partials.lookup time with
      | none => simp [huser, ht]
      | some stack => simp [huser, ht]

namespace PartialCallstackLookup

/-- The stacks of a thread. -/
def threads (self : PartialCallstackLookup) (pid tid : Nat) : PartialThreadCallstacks :=
  (self.threadStacks.lookup (packIds pid tid)).getD {}

/-- What waits under a key. -/
def waiting (self : PartialCallstackLookup) (key : StackKey) : Option (List Nat) :=
  (self.threads key.pid key.tid).waiting key.time

variable {self : PartialCallstackLookup} {call : AddFrames} {key : StackKey}

theorem addFrames_empty (self : PartialCallstackLookup) (h : call.frames = []) :
    self.addFrames call = (none, self) := by
  unfold addFrames
  rw [h]
  rfl

theorem addFrames_eq (self : PartialCallstackLookup) (h : call.frames ≠ []) :
    self.addFrames call =
      (((self.threads call.pid call.tid).addFrames call.time call.frames).1.map fun frames =>
          ⟨call.time, call.pid, call.tid, frames⟩,
        ⟨self.threadStacks.insert (packIds call.pid call.tid)
          ((self.threads call.pid call.tid).addFrames call.time call.frames).2⟩) := by
  have hempty : call.frames.isEmpty = false := List.isEmpty_eq_false_iff.mpr h
  unfold addFrames
  rw [hempty, if_neg Bool.false_ne_true]
  rfl

/-- A list with a user part completes the stack that waits, with itself. -/
theorem addFrames_fst (self : PartialCallstackLookup) (h : call.frames ≠ []) :
    (self.addFrames call).1 =
      if framesEndInUserspace call.frames then
        some ⟨call.time, call.pid, call.tid, (self.waiting call.key).getD [] ++ call.frames⟩
      else none := by
  rw [self.addFrames_eq h, PartialThreadCallstacks.addFrames_fst]
  split <;> rfl

/-- What waits under a key after a list was added for some key. -/
theorem waiting_addFrames (self : PartialCallstackLookup) (h : call.frames ≠ [])
    (hcall : call.tid < 2 ^ 32) (hkey : key.tid < 2 ^ 32) :
    (self.addFrames call).2.waiting key =
      if key = call.key then
        if framesEndInUserspace call.frames then none
        else some ((self.waiting call.key).getD [] ++ call.frames)
      else self.waiting key := by
  obtain ⟨pid, tid, time⟩ := key
  rw [self.addFrames_eq h]
  unfold waiting threads
  dsimp only
  rw [lookup_insert_eq]
  by_cases hthread : packIds pid tid = packIds call.pid call.tid
  · obtain ⟨rfl, rfl⟩ := (packIds_inj hkey hcall).mp hthread
    rw [if_pos rfl, Option.getD_some, PartialThreadCallstacks.waiting_addFrames]
    simp [AddFrames.key]
  · have hne : (⟨pid, tid, time⟩ : StackKey) ≠ call.key := by
      intro hsame
      cases hsame
      exact hthread rfl
    rw [if_neg hthread, if_neg hne]

end PartialCallstackLookup

/-! ## Chunks -/

/-- Lists without a user part, and one with. -/
def Complete (lists : List (List Nat)) : Prop :=
  ∃ front last, lists = front ++ [last] ∧ framesEndInUserspace last ∧
    ∀ frames ∈ front, ¬ framesEndInUserspace frames

theorem Complete.chunk {lists : List (List Nat)} (h : Complete lists) : Chunk lists := by
  obtain ⟨front, last, rfl, -, hfront⟩ := h
  refine ⟨by simp, ?_⟩
  rw [List.dropLast_concat]
  exact hfront

/-- What waits when some lists were added since the last delivery. -/
def waitingOf (lists : List (List Nat)) : Option (List Nat) :=
  if lists = [] then none else some lists.flatten

theorem getD_waitingOf (lists : List (List Nat)) :
    (waitingOf lists).getD [] = lists.flatten := by
  unfold waitingOf
  split
  · rename_i h
    rw [h]
    rfl
  · rfl

/-- The lists of a key, cut after each one with a user part: what is delivered by the calls, and
the rest that waits. -/
structure Cut (key : StackKey) (waitingLists : List (List Nat)) (calls : List AddFrames)
    (delivered : List CompletedCallstack) (after : PartialCallstackLookup)
    (chunks : List (List (List Nat))) (rest : List (List Nat)) : Prop where
  lists : waitingLists ++ listsOf key calls = chunks.flatten ++ rest
  complete : ∀ chunk ∈ chunks, Complete chunk
  delivered : deliveredTo key delivered = chunks.map List.flatten
  waiting : after.waiting key = waitingOf rest
  kernel : ∀ frames ∈ rest, ¬ framesEndInUserspace frames

/-- What a key still waits for after all calls. -/
theorem Cut.waits_iff {key : StackKey} {calls : List AddFrames}
    {delivered : List CompletedCallstack} {after : PartialCallstackLookup}
    {chunks : List (List (List Nat))} {rest : List (List Nat)}
    (h : Cut key [] calls delivered after chunks rest) : Waits key calls ↔ rest ≠ [] := by
  have hlists := h.lists
  rw [List.nil_append] at hlists
  unfold Waits
  rw [hlists]
  constructor
  · rintro ⟨frames, hlast, hkernel⟩ rfl
    rw [List.append_nil] at hlast
    rcases List.eq_nil_or_concat' chunks with rfl | ⟨before, chunk, rfl⟩
    · cases hlast
    · obtain ⟨front, last, rfl, huser, -⟩ := h.complete chunk (by simp)
      simp only [List.flatten_append, List.flatten_cons, List.flatten_nil, List.append_nil,
        ← List.append_assoc, List.getLast?_concat, Option.some.injEq] at hlast
      exact hkernel (hlast ▸ huser)
  · intro hne
    obtain ⟨front, last, rfl⟩ := (List.eq_nil_or_concat' rest).resolve_left hne
    refine ⟨last, ?_, h.kernel last (by simp)⟩
    rw [← List.append_assoc, List.getLast?_concat]

namespace PartialCallstackLookup

theorem listsOf_cons (key : StackKey) (call : AddFrames) (calls : List AddFrames) :
    listsOf key (call :: calls) =
      (if call.key = key ∧ call.frames ≠ [] then [call.frames] else []) ++ listsOf key calls := by
  unfold listsOf
  by_cases h : call.key = key ∧ call.frames ≠ []
  · rw [List.filter_cons_of_pos (by simpa using h), if_pos h]
    rfl
  · rw [List.filter_cons_of_neg (by simpa using h), if_neg h]
    rfl

theorem deliveredTo_append (key : StackKey) (xs ys : List CompletedCallstack) :
    deliveredTo key (xs ++ ys) = deliveredTo key xs ++ deliveredTo key ys := by
  unfold deliveredTo
  rw [List.filter_append, List.map_append]

theorem deliveredTo_addFrames (self : PartialCallstackLookup) {call : AddFrames}
    (h : call.frames ≠ []) (key : StackKey) :
    deliveredTo key (self.addFrames call).1.toList =
      if key = call.key ∧ framesEndInUserspace call.frames then
        [(self.waiting call.key).getD [] ++ call.frames]
      else [] := by
  rw [self.addFrames_fst h]
  by_cases huser : framesEndInUserspace call.frames = true
  · rw [if_pos huser]
    by_cases hkey : key = call.key
    · subst hkey
      simp [deliveredTo, huser, CompletedCallstack.key, AddFrames.key]
    · simp only [AddFrames.key] at hkey
      simp [deliveredTo, CompletedCallstack.key, AddFrames.key, hkey, Ne.symm hkey]
  · simp [deliveredTo, huser]

/-- **Calls.** By induction on the calls, with the lists that wait before them. -/
theorem addAll_cut {key : StackKey} (hkey : key.tid < 2 ^ 32) {calls : List AddFrames}
    (hcalls : ∀ call ∈ calls, call.tid < 2 ^ 32) :
    ∀ (self : PartialCallstackLookup) (lists : List (List Nat)),
      self.waiting key = waitingOf lists →
      (∀ frames ∈ lists, ¬ framesEndInUserspace frames) →
      ∃ chunks rest,
        Cut key lists calls (self.addAll calls).1 (self.addAll calls).2 chunks rest := by
  induction calls with
  | nil =>
    intro self lists hwaiting hlists
    exact ⟨[], lists, by simp [listsOf], by simp, rfl, hwaiting, hlists⟩
  | cons call calls ih =>
    intro self lists hwaiting hlists
    have hcall := hcalls call List.mem_cons_self
    have ih := ih fun c hc => hcalls c (List.mem_cons_of_mem _ hc)
    -- the lists that wait after the call, and the chunk that it delivers
    have hnext : ∃ lists' chunk, (self.addFrames call).2.waiting key = waitingOf lists' ∧
        (∀ frames ∈ lists', ¬ framesEndInUserspace frames) ∧
        deliveredTo key (self.addFrames call).1.toList = List.map List.flatten chunk ∧
        (∀ lists ∈ chunk, Complete lists) ∧
        lists ++ (if call.key = key ∧ call.frames ≠ [] then [call.frames] else []) =
          chunk.flatten ++ lists' := by
      by_cases hempty : call.frames = []
      · refine ⟨lists, [], ?_, hlists, ?_, by simp, by simp [hempty]⟩
        · rw [self.addFrames_empty hempty]
          exact hwaiting
        · rw [self.addFrames_empty hempty]
          rfl
      · have hafter := self.waiting_addFrames hempty hcall hkey
        rw [self.deliveredTo_addFrames hempty]
        by_cases hsame : key = call.key
        · subst hsame
          rw [if_pos rfl] at hafter
          rw [hafter, hwaiting, getD_waitingOf]
          by_cases huser : framesEndInUserspace call.frames = true
          · refine ⟨[], [lists ++ [call.frames]], ?_, by simp, by simp [huser], ?_,
              by simp [hempty]⟩
            · rw [if_pos huser]
              rfl
            · rw [List.forall_mem_singleton]
              exact ⟨lists, call.frames, rfl, huser, hlists⟩
          · refine ⟨lists ++ [call.frames], [], ?_, ?_, by simp [huser], by simp,
              by simp [hempty]⟩
            · rw [if_neg huser]
              simp [waitingOf]
            · intro frames hframes
              rcases List.mem_append.mp hframes with hold | hnew
              · exact hlists frames hold
              · rw [List.mem_singleton.mp hnew]
                exact huser
        · rw [if_neg hsame] at hafter
          exact ⟨lists, [], hafter.trans hwaiting, hlists, by simp [hsame], by simp,
            by simp [Ne.symm hsame]⟩
    obtain ⟨lists', chunk, hwaiting', hlists', hdelivered, hcomplete, hcut⟩ := hnext
    obtain ⟨chunks, rest, h⟩ := ih (self.addFrames call).2 lists' hwaiting' hlists'
    refine ⟨chunk ++ chunks, rest, ?_, ?_, ?_, h.waiting, h.kernel⟩
    · rw [listsOf_cons, ← List.append_assoc, hcut, List.append_assoc, h.lists,
        List.flatten_append, List.append_assoc]
    · exact List.forall_mem_append.mpr ⟨hcomplete, h.complete⟩
    · unfold addAll
      dsimp only
      rw [deliveredTo_append, hdelivered, h.delivered, List.map_append]

theorem waiting_empty (key : StackKey) : ({} : PartialCallstackLookup).waiting key = none :=
  rfl

/-! ## The flush -/

/-- The keys of the map are packed from ids of 32 bits. -/
def Packed (self : PartialCallstackLookup) : Prop :=
  ∀ key threads, self.threadStacks.lookup key = some threads →
    ∃ pid tid, pid < 2 ^ 32 ∧ tid < 2 ^ 32 ∧ key = packIds pid tid

theorem packed_addFrames {self : PartialCallstackLookup} (h : self.Packed) {call : AddFrames}
    (hpid : call.pid < 2 ^ 32) (htid : call.tid < 2 ^ 32) : (self.addFrames call).2.Packed := by
  by_cases hempty : call.frames = []
  · rw [self.addFrames_empty hempty]
    exact h
  · rw [self.addFrames_eq hempty]
    intro key threads hkey
    dsimp only at hkey
    rw [lookup_insert_eq] at hkey
    split at hkey
    · rename_i hsame
      exact ⟨call.pid, call.tid, hpid, htid, hsame⟩
    · exact h key threads hkey

theorem packed_addAll {calls : List AddFrames}
    (hcalls : ∀ call ∈ calls, call.pid < 2 ^ 32 ∧ call.tid < 2 ^ 32) :
    ∀ {self : PartialCallstackLookup}, self.Packed → (self.addAll calls).2.Packed := by
  induction calls with
  | nil => exact fun h => h
  | cons call calls ih =>
    intro self h
    have hcall := hcalls call List.mem_cons_self
    exact ih (fun c hc => hcalls c (List.mem_cons_of_mem _ hc))
      (packed_addFrames h hcall.1 hcall.2)

/-- What the flush reads out of a packed key. -/
theorem unpack (pid : Nat) {tid : Nat} (htid : tid < 2 ^ 32) :
    packIds pid tid >>> 32 &&& 0xFFFF = pid % 2 ^ 16 ∧
      packIds pid tid &&& 0xFFFF = tid % 2 ^ 16 := by
  have hmask : ∀ n : Nat, n &&& 0xFFFF = n % 2 ^ 16 := fun n => Nat.and_two_pow_sub_one_eq_mod n 16
  rw [packIds_eq htid, hmask, hmask, Nat.shiftRight_eq_div_pow]
  omega

variable {order : MapOrder Nat} {self : PartialCallstackLookup} {key : StackKey}

theorem key_of_mem_flush {stack : CompletedCallstack} (h : stack ∈ self.flush order) :
    stack.pid < 2 ^ 16 ∧ stack.tid < 2 ^ 16 := by
  obtain ⟨entry, -, hstack⟩ := List.mem_flatMap.mp h
  obtain ⟨waiting, -, rfl⟩ := List.mem_map.mp hstack
  exact ⟨Nat.and_lt_two_pow _ (by decide), Nat.and_lt_two_pow _ (by decide)⟩

/-- Nothing is flushed under a pid or a tid of more than 16 bits. -/
theorem deliveredTo_flush_long (h : ¬ (key.pid < 2 ^ 16 ∧ key.tid < 2 ^ 16)) :
    deliveredTo key (self.flush order) = [] := by
  unfold deliveredTo
  rw [List.map_eq_nil_iff, List.filter_eq_nil_iff]
  intro stack hstack hkey
  obtain rfl := of_decide_eq_true hkey
  exact h (key_of_mem_flush hstack)

/-- The stacks of one thread, when they are flushed under some ids. -/
theorem deliveredTo_thread (threads : PartialThreadCallstacks) (pid tid : Nat) :
    deliveredTo key ((drain order threads.partials).map fun stack =>
        ⟨stack.1, pid, tid, stack.2.frames⟩) =
      if key.pid = pid ∧ key.tid = tid then (threads.waiting key.time).toList else [] := by
  obtain ⟨kpid, ktid, time⟩ := key
  unfold deliveredTo CompletedCallstack.key
  rw [List.filter_map, List.map_map]
  dsimp only
  split
  · rename_i hids
    obtain ⟨rfl, rfl⟩ := hids
    have hfilter : (drain order threads.partials).filter
        ((fun stack : CompletedCallstack => decide
          ((⟨stack.pid, stack.tid, stack.time⟩ : StackKey) = ⟨kpid, ktid, time⟩)) ∘
          fun stack => ⟨stack.1, kpid, ktid, stack.2.frames⟩) =
        (drain order threads.partials).filter fun entry => entry.1 = time := by
      refine congrArg (List.filter · _) (funext fun entry => ?_)
      simp
    rw [hfilter, filter_drain]
    unfold PartialThreadCallstacks.waiting
    cases threads.partials.lookup time <;> rfl
  · rename_i hids
    rw [List.map_eq_nil_iff, List.filter_eq_nil_iff]
    intro entry _ hsame
    have hkey := of_decide_eq_true hsame
    cases hkey
    exact hids ⟨rfl, rfl⟩

/-- Where all that waits has short ids, the flush delivers what waits under a key. -/
theorem deliveredTo_flush (hpacked : self.Packed)
    (hshort : ∀ key : StackKey, key.pid < 2 ^ 32 → key.tid < 2 ^ 32 → self.waiting key ≠ none →
      key.pid < 2 ^ 16 ∧ key.tid < 2 ^ 16)
    (hkey : key.pid < 2 ^ 16 ∧ key.tid < 2 ^ 16) :
    deliveredTo key (self.flush order) = (self.waiting key).toList := by
  have hkey32 : key.tid < 2 ^ 32 := Nat.lt_trans hkey.2 (by decide)
  have hflush : deliveredTo key (self.flush order) =
      (drain order self.threadStacks).flatMap fun entry =>
        deliveredTo key ((drain order entry.2.partials).map fun stack =>
          ⟨stack.1, entry.1 >>> 32 &&& 0xFFFF, entry.1 &&& 0xFFFF, stack.2.frames⟩) := by
    unfold deliveredTo flush
    rw [List.filter_flatMap, List.map_flatMap]
  simp only [deliveredTo_thread] at hflush
  rw [hflush, flatMap_drain (k := packIds key.pid key.tid)]
  · obtain ⟨hpid, htid⟩ := unpack key.pid hkey32
    rw [Nat.mod_eq_of_lt hkey.1] at hpid
    rw [Nat.mod_eq_of_lt hkey.2] at htid
    simp only [hpid, htid, and_self, if_true]
    unfold waiting PartialCallstackLookup.threads
    cases self.threadStacks.lookup (packIds key.pid key.tid) with
    | none => rfl
    | some threads => simp
  · intro packed threads hlookup hne
    obtain ⟨pid, tid, hpid, htid, rfl⟩ := hpacked packed threads hlookup
    obtain ⟨hpidOf, htidOf⟩ := unpack pid htid
    dsimp only
    rw [hpidOf, htidOf]
    split
    · rename_i hids
      by_contra hsome
      have hwaiting : self.waiting ⟨pid, tid, key.time⟩ ≠ none := by
        intro hnone
        unfold waiting PartialCallstackLookup.threads at hnone
        rw [hlookup, Option.getD_some] at hnone
        exact hsome (by rw [hnone]; rfl)
      obtain ⟨hp, ht⟩ := hshort ⟨pid, tid, key.time⟩ hpid htid hwaiting
      rw [Nat.mod_eq_of_lt hp, Nat.mod_eq_of_lt ht] at hids
      exact hne (by rw [hids.1, hids.2])
    · rfl

end PartialCallstackLookup

/-! ## All deliveries -/

section Deliveries

variable {calls : List AddFrames}

theorem mem_addAll {stack : CompletedCallstack} {self : PartialCallstackLookup}
    (h : stack ∈ (self.addAll calls).1) : ∃ call ∈ calls, stack.key = call.key := by
  induction calls generalizing self with
  | nil => cases h
  | cons call calls ih =>
    rcases List.mem_append.mp h with hnew | hlater
    · by_cases hempty : call.frames = []
      · rw [self.addFrames_empty hempty] at hnew
        cases hnew
      · rw [self.addFrames_fst hempty] at hnew
        split at hnew
        · rw [Option.toList_some, List.mem_singleton] at hnew
          exact ⟨call, List.mem_cons_self, by rw [hnew]; rfl⟩
        · cases hnew
    · obtain ⟨c, hc, hkey⟩ := ih hlater
      exact ⟨c, List.mem_cons_of_mem _ hc, hkey⟩

theorem mem_listsOf {key : StackKey} {frames : List Nat} (h : frames ∈ listsOf key calls) :
    frames ≠ [] ∧ ∃ call ∈ calls, call.key = key := by
  obtain ⟨call, hcall, rfl⟩ := List.mem_map.mp h
  obtain ⟨hmem, hcond⟩ := List.mem_filter.mp hcall
  have hand := of_decide_eq_true hcond
  exact ⟨hand.2, call, hmem, hand.1⟩

/-- **Callstack assembly.** Every list is delivered once, in a stack of its own key, exactly when
the stacks that are left to the flush have pids and tids of 16 bits. -/
theorem assembled_iff (order : MapOrder Nat)
    (hcalls : ∀ call ∈ calls, call.pid < 2 ^ 32 ∧ call.tid < 2 ^ 32) :
    Assembled calls (PartialCallstackLookup.deliveries order calls) ↔ ShortAtFlush calls := by
  let added := PartialCallstackLookup.addAll {} calls
  have hcut : ∀ key : StackKey, key.tid < 2 ^ 32 →
      ∃ chunks rest, Cut key [] calls added.1 added.2 chunks rest :=
    fun key hkey => PartialCallstackLookup.addAll_cut hkey (fun c hc => (hcalls c hc).2) {} []
      (PartialCallstackLookup.waiting_empty key) (by simp)
  have hpacked : added.2.Packed :=
    PartialCallstackLookup.packed_addAll hcalls fun key threads h => by cases h
  have hall : ∀ key, deliveredTo key (PartialCallstackLookup.deliveries order calls) =
      deliveredTo key added.1 ++ deliveredTo key (added.2.flush order) :=
    fun key => PartialCallstackLookup.deliveredTo_append key _ _
  constructor
  · intro h key hwaits
    by_contra hlong
    obtain ⟨frames, hlast, -⟩ := id hwaits
    obtain ⟨-, call, hcall, rfl⟩ := mem_listsOf (List.mem_of_getLast? hlast)
    obtain ⟨chunks, rest, hcut⟩ := hcut call.key (hcalls call hcall).2
    obtain ⟨chunks', hlists, -, hdelivered⟩ := h call.key
    have hrest : rest ≠ [] := hcut.waits_iff.mp hwaits
    rw [hall, PartialCallstackLookup.deliveredTo_flush_long hlong, List.append_nil,
      hcut.delivered] at hdelivered
    -- the frames of the rest are in no stack
    have hframes := congrArg List.flatten hdelivered
    rw [← List.flatten_flatten, ← List.flatten_flatten, hlists] at hframes
    have hcutLists := hcut.lists
    rw [List.nil_append] at hcutLists
    rw [hcutLists, List.flatten_append, List.self_eq_append_right, List.flatten_eq_nil_iff]
      at hframes
    obtain ⟨first, more, rfl⟩ := List.exists_cons_of_ne_nil hrest
    have hmem : first ∈ listsOf call.key calls := by
      rw [hcutLists]
      simp
    exact (mem_listsOf hmem).1 (hframes first List.mem_cons_self)
  · intro hshort key
    by_cases hkey : key.tid < 2 ^ 32
    · obtain ⟨chunks, rest, hcut'⟩ := hcut key hkey
      have hlists := hcut'.lists
      rw [List.nil_append] at hlists
      have hshort' : ∀ key : StackKey, key.pid < 2 ^ 32 → key.tid < 2 ^ 32 →
          added.2.waiting key ≠ none → key.pid < 2 ^ 16 ∧ key.tid < 2 ^ 16 := by
        intro key _ htid hwaiting
        obtain ⟨chunks, rest, h⟩ := hcut key htid
        refine hshort key (h.waits_iff.mpr ?_)
        rintro rfl
        exact hwaiting h.waiting
      have hcomplete : ∀ chunk ∈ chunks, Chunk chunk :=
        fun chunk hc => (hcut'.complete chunk hc).chunk
      by_cases hrest : rest = []
      · subst hrest
        rw [List.append_nil] at hlists
        have hflush : deliveredTo key (added.2.flush order) = [] := by
          by_cases hkeyShort : key.pid < 2 ^ 16 ∧ key.tid < 2 ^ 16
          · rw [PartialCallstackLookup.deliveredTo_flush hpacked hshort' hkeyShort,
              hcut'.waiting]
            rfl
          · exact PartialCallstackLookup.deliveredTo_flush_long hkeyShort
        refine ⟨chunks, hlists.symm, hcomplete, ?_⟩
        rw [hall, hflush, List.append_nil, hcut'.delivered]
      · have hkeyShort := hshort key (hcut'.waits_iff.mpr hrest)
        have hlast : Chunk rest :=
          ⟨hrest, fun frames hframes => hcut'.kernel frames (List.dropLast_subset _ hframes)⟩
        refine ⟨chunks ++ [rest], ?_, ?_, ?_⟩
        · rw [hlists, List.flatten_append, List.flatten_singleton]
        · exact List.forall_mem_append.mpr ⟨hcomplete, List.forall_mem_singleton.mpr hlast⟩
        · rw [hall, hcut'.delivered,
            PartialCallstackLookup.deliveredTo_flush hpacked hshort' hkeyShort, hcut'.waiting,
            List.map_append, waitingOf, if_neg hrest]
          rfl
    · -- no list has such a tid, and no stack
      have hlists : listsOf key calls = [] := by
        rw [List.eq_nil_iff_forall_not_mem]
        intro frames hframes
        obtain ⟨-, call, hcall, rfl⟩ := mem_listsOf hframes
        exact hkey (hcalls call hcall).2
      have hadded : deliveredTo key added.1 = [] := by
        unfold deliveredTo
        rw [List.map_eq_nil_iff, List.filter_eq_nil_iff]
        intro stack hstack hsame
        obtain ⟨call, hcall, hcallKey⟩ := mem_addAll hstack
        obtain rfl := of_decide_eq_true hsame
        rw [hcallKey] at hkey
        exact hkey (hcalls call hcall).2
      have hlong : ¬ (key.pid < 2 ^ 16 ∧ key.tid < 2 ^ 16) :=
        fun hand => hkey (Nat.lt_trans hand.2 (by decide))
      refine ⟨[], hlists.symm, by simp, ?_⟩
      rw [hall, hadded, PartialCallstackLookup.deliveredTo_flush_long hlong]
      rfl

/-- A kernel part and a user part of one stack, and a kernel part that is flushed. -/
theorem assembled_three : Assembled
    [⟨10, 3, 4, [kernelStart]⟩, ⟨10, 3, 4, [kernelStart + 1, 0x1000]⟩, ⟨20, 3, 4, [kernelStart]⟩]
    (PartialCallstackLookup.deliveries (.inserted Nat)
      [⟨10, 3, 4, [kernelStart]⟩, ⟨10, 3, 4, [kernelStart + 1, 0x1000]⟩,
        ⟨20, 3, 4, [kernelStart]⟩]) := by
  refine (assembled_iff (.inserted Nat) (by decide)).mpr fun key hwaits => ?_
  obtain ⟨frames, hlast, -⟩ := hwaits
  obtain ⟨-, call, hcall, rfl⟩ := mem_listsOf (List.mem_of_getLast? hlast)
  have hids : ∀ call ∈ [(⟨10, 3, 4, [kernelStart]⟩ : AddFrames),
      ⟨10, 3, 4, [kernelStart + 1, 0x1000]⟩, ⟨20, 3, 4, [kernelStart]⟩],
      call.pid < 2 ^ 16 ∧ call.tid < 2 ^ 16 := by decide
  exact hids call hcall

/-- A kernel stack of the thread 0x10004 is flushed as one of the thread 4. -/
theorem assembled_long : ¬ Assembled [⟨10, 3, 0x10004, [kernelStart]⟩]
    (PartialCallstackLookup.deliveries (.inserted Nat) [⟨10, 3, 0x10004, [kernelStart]⟩]) := by
  intro h
  obtain ⟨chunks, hlists, hchunks, hdelivered⟩ := h ⟨3, 0x10004, 10⟩
  have hnone : deliveredTo ⟨3, 0x10004, 10⟩ (PartialCallstackLookup.deliveries (.inserted Nat)
      [⟨10, 3, 0x10004, [kernelStart]⟩]) = [] := by decide
  have hone : listsOf ⟨3, 0x10004, 10⟩ [⟨10, 3, 0x10004, [kernelStart]⟩] = [[kernelStart]] := by
    decide
  rw [hnone, eq_comm, List.map_eq_nil_iff] at hdelivered
  rw [hdelivered, hone] at hlists
  cases hlists

end Deliveries

end OneCollect.Callstack
