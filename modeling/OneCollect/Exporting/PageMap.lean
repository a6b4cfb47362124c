import Mathlib.Data.Finset.Insert
import OneCollect.Exporting.DynamicSymbols

/-! Which dynamic symbols are needed: `SymbolPageMap` of `symbols.rs` and `needs_dynamic_symbol` of
`process.rs`. A symbol that must match is needed where the pages of its range were seen.

The pages are built once and dropped with the next sample, so in every state of a run they are those
of its samples (`reachable_coherent`). The search adds a page at a time and has no page behind the
last one: a range that ends there is searched to its end only if it is found
(`needsDynamicSymbol_answers_iff`). -/

namespace OneCollect.Exporting
open Theory

/-! ## Pages that were seen -/

structure SymbolPageMap where
  pages : Finset Nat := ∅
  pageSize : Nat
  pageMask : Nat
  deriving DecidableEq

namespace SymbolPageMap

def new (pageSize : Nat) : SymbolPageMap :=
  { pageSize, pageMask := pageSizeToMask pageSize.nextPowerOfTwo }

def markIp (self : SymbolPageMap) (ip : Nat) : SymbolPageMap :=
  { self with pages := insert (ip &&& self.pageMask) self.pages }

/-- The loop of `seen_range`; nothing where it needs more turns. -/
def seenLoop (checks : OverflowChecks) (self : SymbolPageMap) (endPage : Nat) :
    (turns : Nat) → (page : Nat) → Option (Exec Bool)
  | 0, _ => none
  | turns + 1, page =>
    if page ≤ endPage then
      if page ∈ self.pages then some (.ok true)
      else
        match checks.addU64 page self.pageSize with
        | .ok page => seenLoop checks self endPage turns page
        | .error fault => some (.error fault)
    else some (.ok false)

def seenRange (checks : OverflowChecks) (self : SymbolPageMap) (turns start stop : Nat) :
    Option (Exec Bool) :=
  self.seenLoop checks (stop &&& self.pageMask) turns (start &&& self.pageMask)

end SymbolPageMap

/-! ## Processes with their pages -/

def SYM_FLAG_MUST_MATCH : BitVec 8 := 1 <<< 0

structure DynamicSymbol where
  time : Nat
  pid : Nat
  start : Nat
  stop : Nat
  name : String
  flags : BitVec 8 := 0
  deriving DecidableEq, Repr

namespace DynamicSymbol

def setFlag (self : DynamicSymbol) (flag : BitVec 8) : DynamicSymbol :=
  { self with flags := self.flags ||| flag }

def hasFlag (self : DynamicSymbol) (flag : BitVec 8) : Bool := self.flags &&& flag == flag

end DynamicSymbol

structure PagedProcess extends ExportProcess where
  userPageMap : Option SymbolPageMap := none

namespace PagedProcess

/-- Every address seen, marked in the map. -/
def buildPageMap (callstacks : InternedCallstacks) (self : PagedProcess) : SymbolPageMap :=
  (getUniqueUserIps self.samples callstacks none).foldl SymbolPageMap.markIp (.new 256)

def addSample (self : PagedProcess) (sample : ExportProcessSample) : PagedProcess :=
  { self with samples := self.samples ++ [sample], userPageMap := none }

/-- The map, built when it is first asked for, is kept. -/
def needsDynamicSymbol (checks : OverflowChecks) (callstacks : InternedCallstacks) (turns : Nat)
    (self : PagedProcess) (symbol : DynamicSymbol) : Option (Exec (Bool × PagedProcess)) :=
  if symbol.hasFlag SYM_FLAG_MUST_MATCH then
    let pageMap := self.userPageMap.getD (self.buildPageMap callstacks)
    let self := { self with userPageMap := some pageMap }
    match pageMap.seenRange checks turns symbol.start symbol.stop with
    | some (.ok seen) => some (.ok (seen, self))
    | some (.error fault) => some (.error fault)
    | none => none
  else some (.ok (true, self))

/-- The call returns, after some turns. -/
def Returns (checks : OverflowChecks) (callstacks : InternedCallstacks) (self : PagedProcess)
    (symbol : DynamicSymbol) (needed : Bool) (after : PagedProcess) : Prop :=
  ∃ turns, self.needsDynamicSymbol checks callstacks turns symbol = some (.ok (needed, after))

end PagedProcess

inductive PagedOp where
  | addSample (sample : ExportProcessSample)
  | needsDynamicSymbol (symbol : DynamicSymbol)

/-- Samples and questions in any order. -/
def pagedSystem (checks : OverflowChecks) (callstacks : InternedCallstacks) :
    System PagedProcess PagedOp where
  init s := s.userPageMap = none
  step s op s' :=
    match op with
    | .addSample sample => s' = s.addSample sample
    | .needsDynamicSymbol symbol => ∃ needed, s.Returns checks callstacks symbol needed s'

/-! ## The search -/

namespace SymbolPageMap

/-- Pages of 256 bytes. -/
structure Small (pageMap : SymbolPageMap) : Prop where
  size : pageMap.pageSize = 256
  mask : pageMap.pageMask = pageSizeToMask (2 ^ 8)
  pages : ∀ page ∈ pageMap.pages, page % 256 = 0 ∧ page < 2 ^ 64

theorem new_small : (new 256).Small where
  size := rfl
  mask := by decide +kernel
  pages := fun page hpage => by simp [new] at hpage

/-- The page of an address. -/
def pageOf (address : Nat) : Nat := address - address % 256

theorem Small.page_eq {self : SymbolPageMap} (h : self.Small) {address : Nat}
    (haddress : address < 2 ^ 64) : address &&& self.pageMask = pageOf address := by
  rw [h.mask]
  exact and_pageMask (by decide) haddress

theorem pageOf_mod (address : Nat) : pageOf address % 256 = 0 := by
  unfold pageOf
  omega

theorem Small.markIp {self : SymbolPageMap} (h : self.Small) {ip : Nat} (hip : ip < 2 ^ 64) :
    (self.markIp ip).Small ∧ (self.markIp ip).pages = insert (pageOf ip) self.pages := by
  have hpages : (self.markIp ip).pages = insert (pageOf ip) self.pages := by
    rw [← h.page_eq hip]
    rfl
  refine ⟨⟨h.size, h.mask, fun page hpage => ?_⟩, hpages⟩
  rw [hpages] at hpage
  obtain rfl | hpage := Finset.mem_insert.mp hpage
  · exact ⟨pageOf_mod ip, by unfold pageOf; omega⟩
  · exact h.pages page hpage

theorem Small.foldl_markIp {self : SymbolPageMap} (h : self.Small) {ips : List Nat}
    (hips : ∀ ip ∈ ips, ip < 2 ^ 64) :
    (ips.foldl SymbolPageMap.markIp self).Small ∧
      ∀ page, page ∈ (ips.foldl SymbolPageMap.markIp self).pages ↔
        page ∈ self.pages ∨ ∃ ip ∈ ips, pageOf ip = page := by
  induction ips generalizing self with
  | nil => exact ⟨h, fun page => by simp⟩
  | cons ip ips ih =>
    obtain ⟨hip, hips⟩ := List.forall_mem_cons.mp hips
    obtain ⟨hsmall, hpages⟩ := h.markIp hip
    obtain ⟨hsmall', hmem⟩ := ih hsmall hips
    refine ⟨hsmall', fun page => ?_⟩
    rw [List.foldl_cons, hmem page, hpages, Finset.mem_insert, List.exists_mem_cons_iff]
    tauto

section Loop

variable {checks : OverflowChecks} {self : SymbolPageMap} {endPage page : Nat}

/-- The first page of the whole address space that has no page behind it. -/
def lastPage : Nat := 2 ^ 64 - 256

theorem seenLoop_turn (hle : page ≤ endPage) (hnot : page ∉ self.pages) {next : Nat}
    (hnext : checks.addU64 page self.pageSize = .ok next) (turns : Nat) :
    self.seenLoop checks endPage (turns + 1) page = self.seenLoop checks endPage turns next := by
  rw [seenLoop, if_pos hle, if_neg hnot, hnext]

/-- **A page that was seen is found** where it lies ahead. -/
theorem seenLoop_found (h : self.Small) {seen : Nat} (hseen : seen ∈ self.pages)
    (hfrom : page ≤ seen) (hto : seen ≤ endPage) (hpage : page % 256 = 0) :
    ∃ turns, self.seenLoop checks endPage turns page = some (.ok true) := by
  obtain ⟨hmod, hlt⟩ := h.pages seen hseen
  obtain ⟨distance, hdistance⟩ : ∃ distance, seen = page + 256 * distance :=
    ⟨(seen - page) / 256, by omega⟩
  induction distance generalizing page with
  | zero =>
    obtain rfl : page = seen := by omega
    exact ⟨1, by rw [seenLoop, if_pos hto, if_pos hseen]⟩
  | succ distance ih =>
    by_cases hhere : page ∈ self.pages
    · exact ⟨1, by rw [seenLoop, if_pos (by omega), if_pos hhere]⟩
    · have hnext : checks.addU64 page self.pageSize = .ok (page + 256) := by
        rw [h.size]
        exact checks.addU64_of_lt (by omega)
      obtain ⟨turns, hturns⟩ := @ih (page + 256) (by omega) (by omega) (by omega)
      exact ⟨turns + 1, by rw [seenLoop_turn (by omega) hhere hnext, hturns]⟩

/-- **The search ends** where there is a page behind the range. -/
theorem seenLoop_ends (h : self.Small) (hend : endPage < lastPage) (hpage : page % 256 = 0) :
    ∃ turns seen, self.seenLoop checks endPage turns page = some (.ok seen) := by
  have hlast : lastPage = 2 ^ 64 - 256 := rfl
  by_cases hle : page ≤ endPage
  swap
  · exact ⟨1, false, by rw [seenLoop, if_neg hle]⟩
  obtain ⟨distance, hdistance⟩ : ∃ distance, endPage < page + 256 * distance :=
    ⟨endPage + 1, by omega⟩
  induction distance generalizing page with
  | zero => omega
  | succ distance ih =>
    by_cases hhere : page ∈ self.pages
    · exact ⟨1, true, by rw [seenLoop, if_pos hle, if_pos hhere]⟩
    · have hnext : checks.addU64 page self.pageSize = .ok (page + 256) := by
        rw [h.size]
        exact checks.addU64_of_lt (by omega)
      by_cases hmore : page + 256 ≤ endPage
      · obtain ⟨turns, seen, hturns⟩ := ih (by omega) hmore (by omega)
        exact ⟨turns + 1, seen, by rw [seenLoop_turn hle hhere hnext, hturns]⟩
      · refine ⟨2, false, ?_⟩
        rw [seenLoop_turn hle hhere hnext, seenLoop, if_neg hmore]

/-- With overflow checks a search up to the last page ends at a page that was seen. -/
theorem seen_of_seenLoop (h : self.Small) {turns : Nat} {seen : Bool} (hpage : page % 256 = 0)
    (hlt : page < 2 ^ 64)
    (hloop : self.seenLoop .on lastPage turns page = some (.ok seen)) :
    ∃ found ∈ self.pages, page ≤ found := by
  have hlast : lastPage = 2 ^ 64 - 256 := rfl
  induction turns generalizing page with
  | zero => cases hloop
  | succ turns ih =>
    have hle : page ≤ lastPage := by omega
    rw [seenLoop, if_pos hle] at hloop
    by_cases hhere : page ∈ self.pages
    · exact ⟨page, hhere, le_refl _⟩
    · rw [if_neg hhere] at hloop
      cases hnext : OverflowChecks.on.addU64 page self.pageSize with
      | error fault =>
        rw [hnext] at hloop
        cases hloop
      | ok next =>
        rw [hnext] at hloop
        obtain ⟨hsum, rfl⟩ := addU64_eq_ok.mp hnext
        rw [h.size] at hsum hloop
        obtain ⟨found, hfound, hfrom⟩ := ih (by omega) hsum hloop
        exact ⟨found, hfound, by omega⟩

/-- Without them it starts again at the first page. -/
theorem seenLoop_around (h : self.Small) (hpage : page % 256 = 0) (hlt : page < 2 ^ 64)
    (hnone : ∀ seen ∈ self.pages, seen < page) :
    ∃ turns, ∀ more, self.seenLoop .off lastPage (turns + more) page =
      self.seenLoop .off lastPage more 0 := by
  have hlast : lastPage = 2 ^ 64 - 256 := rfl
  obtain ⟨distance, hdistance⟩ : ∃ distance, page + 256 * distance = lastPage :=
    ⟨(lastPage - page) / 256, by omega⟩
  induction distance generalizing page with
  | zero =>
    have hhere : page ∉ self.pages := fun hmem => absurd (hnone page hmem) (lt_irrefl _)
    have hnext : OverflowChecks.off.addU64 page self.pageSize = .ok 0 := by
      rw [h.size, OverflowChecks.addU64]
      congr 1
      omega
    refine ⟨1, fun more => ?_⟩
    rw [Nat.add_comm, seenLoop_turn (by omega) hhere hnext]
  | succ distance ih =>
    have hhere : page ∉ self.pages := fun hmem => absurd (hnone page hmem) (lt_irrefl _)
    have hnext : OverflowChecks.off.addU64 page self.pageSize = .ok (page + 256) := by
      rw [h.size]
      exact OverflowChecks.off.addU64_of_lt (by omega)
    obtain ⟨turns, hturns⟩ := @ih (page + 256) (by omega) (by omega)
      (fun seen hseen => (hnone seen hseen).trans (by omega)) (by omega)
    refine ⟨turns + 1, fun more => ?_⟩
    rw [Nat.add_right_comm, seenLoop_turn (by omega) hhere hnext, hturns more]

/-- Where no page was seen it never ends. -/
theorem seenLoop_never (h : self.Small) (hnone : self.pages = ∅) (turns : Nat)
    (hpage : page % 256 = 0) (hlt : page < 2 ^ 64) :
    self.seenLoop .off lastPage turns page = none := by
  have hlast : lastPage = 2 ^ 64 - 256 := rfl
  induction turns generalizing page with
  | zero => rfl
  | succ turns ih =>
    have hhere : page ∉ self.pages := by
      rw [hnone]
      exact Finset.notMem_empty page
    have hnext : OverflowChecks.off.addU64 page self.pageSize = .ok ((page + 256) % 2 ^ 64) := by
      rw [h.size]
      rfl
    rw [seenLoop_turn (by omega) hhere hnext]
    exact ih (by omega) (by omega)

end Loop

end SymbolPageMap

/-! ## Questions -/

namespace PagedProcess
open SymbolPageMap

variable {checks : OverflowChecks} {callstacks : InternedCallstacks}

/-- A sample shows the user address. -/
def Seen (callstacks : InternedCallstacks) (self : PagedProcess) (ip : Nat) : Prop :=
  (∃ sample ∈ self.samples, sample.Shows callstacks ip) ∧ ip < kernelStart

/-- Some address in the range was seen. -/
def IsNeeded (callstacks : InternedCallstacks) (self : PagedProcess) (symbol : DynamicSymbol) : Prop :=
  ∃ ip, self.Seen callstacks ip ∧ symbol.start ≤ ip ∧ ip ≤ symbol.stop

/-- **A question is answered**: the call returns, and a symbol that is needed is not dropped. -/
def Answers (checks : OverflowChecks) (callstacks : InternedCallstacks) (self : PagedProcess)
    (symbol : DynamicSymbol) : Prop :=
  ∃ needed after, self.Returns checks callstacks symbol needed after ∧
    (self.IsNeeded callstacks symbol → needed = true)

/-- The range does not end in the last page, or some address was seen: with overflow checks one that
is not before the page of the start. -/
def EndsSearch (checks : OverflowChecks) (callstacks : InternedCallstacks) (self : PagedProcess)
    (symbol : DynamicSymbol) : Prop :=
  symbol.stop < lastPage ∨
    ∃ ip, self.Seen callstacks ip ∧ (checks = .on → pageOf symbol.start ≤ ip)

theorem mem_userIps {self : PagedProcess} {ip : Nat} :
    ip ∈ getUniqueUserIps self.samples callstacks none ↔ self.Seen callstacks ip := by
  rw [mem_getUniqueUserIps]
  simp [Seen, UserIp]

theorem buildPageMap_spec (callstacks : InternedCallstacks) (self : PagedProcess) :
    (self.buildPageMap callstacks).Small ∧ ∀ page,
      page ∈ (self.buildPageMap callstacks).pages ↔
        ∃ ip, self.Seen callstacks ip ∧ pageOf ip = page := by
  have hkernel : kernelStart < 2 ^ 64 := by decide
  obtain ⟨hsmall, hpages⟩ := @Small.foldl_markIp _ new_small
    (getUniqueUserIps self.samples callstacks none)
    fun ip hip => (mem_userIps.mp hip).2.trans hkernel
  refine ⟨hsmall, fun page => (hpages page).trans ?_⟩
  simp [new, mem_userIps]

/-- What is kept is what would be built. -/
def Coherent (callstacks : InternedCallstacks) (self : PagedProcess) : Prop :=
  ∀ pageMap ∈ self.userPageMap, pageMap = self.buildPageMap callstacks

theorem Coherent.pageMap_eq {self : PagedProcess} (h : self.Coherent callstacks) :
    self.userPageMap.getD (self.buildPageMap callstacks) = self.buildPageMap callstacks := by
  cases hmap : self.userPageMap with
  | none => rfl
  | some pageMap => exact h pageMap hmap

theorem Coherent.returns {self after : PagedProcess} {symbol : DynamicSymbol} {needed : Bool}
    (h : self.Coherent callstacks) (hreturns : self.Returns checks callstacks symbol needed after) :
    after.Coherent callstacks := by
  obtain ⟨turns, hcall⟩ := hreturns
  unfold needsDynamicSymbol at hcall
  by_cases hflag : symbol.hasFlag SYM_FLAG_MUST_MATCH = true
  · rw [if_pos hflag] at hcall
    dsimp only at hcall
    rw [h.pageMap_eq] at hcall
    split at hcall
    · cases hcall
      rintro pageMap hmap
      cases hmap
      rfl
    · cases hcall
    · cases hcall
  · rw [if_neg hflag] at hcall
    cases hcall
    exact h

/-- **The pages are those of the samples**, in every state of a run. -/
theorem reachable_coherent {self : PagedProcess}
    (h : (pagedSystem checks callstacks).Reachable self) : self.Coherent callstacks := by
  refine System.invariant (S := pagedSystem checks callstacks) ?_ ?_ h
  · intro s hs pageMap hmap
    rw [hs] at hmap
    cases hmap
  · rintro s (sample | symbol) s' hs hstep
    · cases hstep
      exact fun pageMap hmap => nomatch hmap
    · obtain ⟨needed, hreturns⟩ := hstep
      exact hs.returns hreturns

section Question

variable {self : PagedProcess} {symbol : DynamicSymbol}

theorem returns_iff (h : self.Coherent callstacks)
    (hflag : symbol.hasFlag SYM_FLAG_MUST_MATCH = true) (hstart : symbol.start < 2 ^ 64)
    (hstop : symbol.stop < 2 ^ 64) {needed : Bool} :
    (∃ after, self.Returns checks callstacks symbol needed after) ↔
      ∃ turns, (self.buildPageMap callstacks).seenLoop checks (pageOf symbol.stop) turns
        (pageOf symbol.start) = some (.ok needed) := by
  obtain ⟨hsmall, -⟩ := self.buildPageMap_spec callstacks
  have hrange (turns : Nat) : (self.buildPageMap callstacks).seenRange checks turns symbol.start
      symbol.stop = (self.buildPageMap callstacks).seenLoop checks (pageOf symbol.stop) turns
        (pageOf symbol.start) := by
    rw [seenRange, hsmall.page_eq hstart, hsmall.page_eq hstop]
  unfold Returns needsDynamicSymbol
  simp only [if_pos hflag, h.pageMap_eq, hrange]
  constructor
  · rintro ⟨after, turns, hcall⟩
    refine ⟨turns, ?_⟩
    split at hcall
    · rename_i seen hseen
      cases hcall
      exact hseen
    · cases hcall
    · cases hcall
  · rintro ⟨turns, hloop⟩
    exact ⟨{ self with userPageMap := some (self.buildPageMap callstacks) }, turns, by
      simp only [hloop]⟩

theorem seen_of_isNeeded (hneeded : self.IsNeeded callstacks symbol) :
    ∃ page ∈ (self.buildPageMap callstacks).pages,
      pageOf symbol.start ≤ page ∧ page ≤ pageOf symbol.stop := by
  obtain ⟨ip, hseen, hfrom, hto⟩ := hneeded
  refine ⟨pageOf ip, ((self.buildPageMap_spec callstacks).2 _).mpr ⟨ip, hseen, rfl⟩, ?_, ?_⟩
  · unfold pageOf
    omega
  · unfold pageOf
    omega

/-- A page that was seen in the range answers the question. -/
theorem answers_of_page (h : self.Coherent callstacks)
    (hflag : symbol.hasFlag SYM_FLAG_MUST_MATCH = true) (hstart : symbol.start < 2 ^ 64)
    (hstop : symbol.stop < 2 ^ 64) {page : Nat} (hpage : page ∈ (self.buildPageMap callstacks).pages)
    (hfrom : pageOf symbol.start ≤ page) (hto : page ≤ pageOf symbol.stop) :
    self.Answers checks callstacks symbol := by
  obtain ⟨after, hreturns⟩ := (returns_iff h hflag hstart hstop).mpr
    (seenLoop_found (self.buildPageMap_spec callstacks).1 hpage hfrom hto (pageOf_mod _))
  exact ⟨true, after, hreturns, fun _ => rfl⟩

theorem endsSearch_of_answers (h : self.Coherent callstacks)
    (hflag : symbol.hasFlag SYM_FLAG_MUST_MATCH = true) (hstart : symbol.start < 2 ^ 64)
    (hstop : symbol.stop < 2 ^ 64) (hanswers : self.Answers checks callstacks symbol) :
    self.EndsSearch checks callstacks symbol := by
  obtain ⟨needed, after, hreturns, -⟩ := hanswers
  obtain ⟨turns, hloop⟩ := (returns_iff h hflag hstart hstop).mp ⟨after, hreturns⟩
  obtain ⟨hsmall, hpages⟩ := self.buildPageMap_spec callstacks
  have hlast : lastPage = 2 ^ 64 - 256 := rfl
  by_contra hnot
  obtain ⟨hstop', hseen⟩ := not_or.mp hnot
  have hend : pageOf symbol.stop = lastPage := by
    unfold pageOf
    omega
  have hlt : pageOf symbol.start < 2 ^ 64 := (Nat.sub_le _ _).trans_lt hstart
  rw [hend] at hloop
  cases checks with
  | on =>
    obtain ⟨page, hpage, hfrom⟩ := seen_of_seenLoop hsmall (pageOf_mod _) hlt hloop
    obtain ⟨ip, hip, rfl⟩ := (hpages page).mp hpage
    exact hseen ⟨ip, hip, fun _ => hfrom.trans (Nat.sub_le _ _)⟩
  | off =>
    have hnone : (self.buildPageMap callstacks).pages = ∅ := by
      refine Finset.eq_empty_of_forall_notMem fun page hpage => ?_
      obtain ⟨ip, hip, -⟩ := (hpages page).mp hpage
      exact hseen ⟨ip, hip, fun hon => nomatch hon⟩
    exact nomatch (seenLoop_never hsmall hnone turns (pageOf_mod _) hlt).symm.trans hloop

theorem answers_of_endsSearch (h : self.Coherent callstacks)
    (hflag : symbol.hasFlag SYM_FLAG_MUST_MATCH = true) (hordered : symbol.start ≤ symbol.stop)
    (hstop : symbol.stop < 2 ^ 64) (hends : self.EndsSearch checks callstacks symbol) :
    self.Answers checks callstacks symbol := by
  obtain ⟨hsmall, hpages⟩ := self.buildPageMap_spec callstacks
  have hlast : lastPage = 2 ^ 64 - 256 := rfl
  have hstart : symbol.start < 2 ^ 64 := hordered.trans_lt hstop
  by_cases hahead : ∃ page ∈ (self.buildPageMap callstacks).pages,
      pageOf symbol.start ≤ page ∧ page ≤ pageOf symbol.stop
  · obtain ⟨page, hpage, hfrom, hto⟩ := hahead
    exact answers_of_page h hflag hstart hstop hpage hfrom hto
  -- nothing in the range was seen, so any answer will do
  have hnot : ¬ self.IsNeeded callstacks symbol := fun hneeded => hahead (seen_of_isNeeded hneeded)
  suffices hloop : ∃ turns seen, (self.buildPageMap callstacks).seenLoop checks (pageOf symbol.stop)
      turns (pageOf symbol.start) = some (.ok seen) by
    obtain ⟨turns, seen, hloop⟩ := hloop
    obtain ⟨after, hreturns⟩ := (returns_iff h hflag hstart hstop).mpr ⟨turns, hloop⟩
    exact ⟨seen, after, hreturns, fun hneeded => absurd hneeded hnot⟩
  by_cases hlow : symbol.stop < lastPage
  · refine seenLoop_ends hsmall ?_ (pageOf_mod _)
    unfold pageOf
    omega
  obtain ⟨ip, hip, hon⟩ := hends.resolve_left hlow
  have hend : pageOf symbol.stop = lastPage := by
    unfold pageOf
    omega
  have hmem : pageOf ip ∈ (self.buildPageMap callstacks).pages := (hpages _).mpr ⟨ip, hip, rfl⟩
  have hbelow : ∀ page ∈ (self.buildPageMap callstacks).pages, page < pageOf symbol.start := by
    intro page hpage
    by_contra hge
    obtain ⟨hmod, hlt⟩ := hsmall.pages page hpage
    exact hahead ⟨page, hpage, Nat.le_of_not_lt hge, by omega⟩
  have hpast := hbelow _ hmem
  cases checks with
  | on =>
    have hle := hon rfl
    unfold pageOf at hpast hle
    omega
  | off =>
    rw [hend]
    obtain ⟨around, haround⟩ := seenLoop_around hsmall (pageOf_mod symbol.start)
      ((Nat.sub_le _ _).trans_lt hstart) hbelow
    obtain ⟨turns, hloop⟩ := @seenLoop_found .off _ lastPage 0 hsmall _ hmem (Nat.zero_le _)
      (by have := hsmall.pages _ hmem; omega) rfl
    exact ⟨around + turns, true, (haround turns).trans hloop⟩

/-- **No needed symbol is dropped**, and every question is answered, in every state of a run, exactly
where the search ends. -/
theorem needsDynamicSymbol_answers_iff (checks : OverflowChecks) (callstacks : InternedCallstacks)
    {self : PagedProcess} (h : (pagedSystem checks callstacks).Reachable self)
    {symbol : DynamicSymbol} (hflag : symbol.hasFlag SYM_FLAG_MUST_MATCH = true)
    (hordered : symbol.start ≤ symbol.stop) (hstop : symbol.stop < 2 ^ 64) :
    self.Answers checks callstacks symbol ↔ self.EndsSearch checks callstacks symbol :=
  ⟨endsSearch_of_answers (reachable_coherent h) hflag (hordered.trans_lt hstop) hstop,
    answers_of_endsSearch (reachable_coherent h) hflag hordered hstop⟩

end Question

/-- A process with one sample, and the question whether a symbol around it is needed. -/
def sampledProcess : PagedProcess := (⟨{ pid := 1 }, none⟩ : PagedProcess).addSample
  { time := 0, ip := 0x7f0000001080 }

def symbolAt (start stop : Nat) : DynamicSymbol :=
  ({ time := 0, pid := 1, start, stop, name := "f" } : DynamicSymbol).setFlag SYM_FLAG_MUST_MATCH

theorem sampledProcess_reachable (checks : OverflowChecks) (callstacks : InternedCallstacks) :
    (pagedSystem checks callstacks).Reachable sampledProcess :=
  System.reachable_init rfl

theorem needsDynamicSymbol_answers_sampled :
    sampledProcess.Answers .on {} (symbolAt 0x7f0000001000 0x7f00000010ff) :=
  (needsDynamicSymbol_answers_iff .on {} (sampledProcess_reachable .on {}) (by decide) (by decide)
    (by decide)).mpr (Or.inl (by decide))

/-- A range up to the last address. With overflow checks the addition behind the last page panics;
without them, and without a sample, the search goes around forever. -/
theorem needsDynamicSymbol_misses :
    ((pagedSystem .on {}).Reachable sampledProcess ∧
      ¬ sampledProcess.Answers .on {} (symbolAt (2 ^ 64 - 16) (2 ^ 64 - 1))) ∧
    ((pagedSystem .off {}).Reachable ⟨{ pid := 1 }, none⟩ ∧
      ¬ (⟨{ pid := 1 }, none⟩ : PagedProcess).Answers .off {}
        (symbolAt (2 ^ 64 - 16) (2 ^ 64 - 1))) := by
  have hnone : (pagedSystem .off {}).Reachable ⟨{ pid := 1 }, none⟩ := System.reachable_init rfl
  refine ⟨⟨sampledProcess_reachable .on {}, fun hanswers => ?_⟩, hnone, fun hanswers => ?_⟩
  · obtain hlow | ⟨ip, ⟨⟨sample, hsample, hshows⟩, -⟩, hle⟩ := endsSearch_of_answers
      (reachable_coherent (sampledProcess_reachable .on {})) (by decide) (by decide) (by decide) hanswers
    · exact absurd hlow (by decide)
    · obtain rfl := List.mem_singleton.mp hsample
      obtain rfl | ⟨frames, hframes, -⟩ := hshows
      · exact absurd (hle rfl) (by decide)
      · exact nomatch hframes
  · obtain hlow | ⟨ip, ⟨⟨sample, hsample, -⟩, -⟩, -⟩ := endsSearch_of_answers
      (reachable_coherent hnone) (by decide) (by decide) (by decide) hanswers
    · exact absurd hlow (by decide)
    · exact nomatch hsample

end PagedProcess

end OneCollect.Exporting
