import OneCollect.Theory.Bytes
import OneCollect.Theory.Codewords

/-! Texts in UTF-16: the code units in bytes, and those of a character. Units are found in bytes
where they are found among the units of the bytes, as long as they start at an even one. -/

namespace OneCollect.Theory

/-- The code units in bytes; an odd byte at the end is left out. -/
def codeUnits : List UInt8 → List Nat
  | a :: b :: rest => fromLe [a, b] :: codeUnits rest
  | _ => []

/-- The code units of a character: one, or a pair of surrogates. -/
def encodeUtf16 (c : Char) : List Nat :=
  if c.toNat < 2 ^ 16 then [c.toNat]
  else [0xD800 + (c.toNat - 2 ^ 16) / 2 ^ 10, 0xDC00 + (c.toNat - 2 ^ 16) % 2 ^ 10]

/-- `from_utf16`: a surrogate stands in a pair, a high one in front of a low one. -/
def decodeUtf16 : List Nat → Option (List Char)
  | [] => some []
  | [unit] => if 0xD800 ≤ unit ∧ unit < 0xE000 then none else some [Char.ofNat unit]
  | unit :: low :: rest =>
    if 0xD800 ≤ unit ∧ unit < 0xE000 then
      if unit < 0xDC00 ∧ 0xDC00 ≤ low ∧ low < 0xE000 then
        (decodeUtf16 rest).map
          (Char.ofNat (2 ^ 16 + (unit - 0xD800) * 2 ^ 10 + (low - 0xDC00)) :: ·)
      else none
    else (decodeUtf16 (low :: rest)).map (Char.ofNat unit :: ·)

/-- The bytes of code units. -/
def unitBytes (units : List Nat) : List UInt8 := units.flatMap (toLe 2)

theorem encodeUtf16_of_lt {c : Char} (h : c.toNat < 2 ^ 16) : encodeUtf16 c = [c.toNat] := if_pos h

theorem encodeUtf16_lt {c : Char} {unit : Nat} (h : unit ∈ encodeUtf16 c) : unit < 2 ^ 16 := by
  have hchar : c.toNat < 0x110000 := by
    rcases c.valid with hlow | ⟨-, hhigh⟩
    · exact Nat.lt_trans hlow (by decide)
    · exact hhigh
  unfold encodeUtf16 at h
  split_ifs at h with hsmall
  · rw [List.mem_singleton.mp h]
    exact hsmall
  · simp only [List.mem_cons, List.not_mem_nil, or_false] at h
    omega

theorem zero_not_mem_encodeUtf16 {c : Char} (h : c ≠ '\x00') : 0 ∉ encodeUtf16 c := by
  have hzero : c.toNat ≠ 0 := fun h0 => h (Char.ext (UInt32.toNat_inj.mp h0))
  unfold encodeUtf16
  split_ifs
  · exact fun hmem => hzero (List.mem_singleton.mp hmem).symm
  · simp only [List.mem_cons, List.not_mem_nil, or_false]
    omega

theorem encodeUtf16_ne_nil (c : Char) : encodeUtf16 c ≠ [] := by
  unfold encodeUtf16
  split_ifs <;> exact List.cons_ne_nil _ _

theorem fromLe_pair (a b : UInt8) : fromLe [a, b] = 0 ↔ a = 0 ∧ b = 0 := by
  simp only [fromLe, ← UInt8.toNat_inj, UInt8.toNat_zero]
  omega

theorem toLe_fromLe_pair (a b : UInt8) : toLe 2 (fromLe [a, b]) = [a, b] := toLe_fromLe rfl

theorem codeUnits_lt {data : List UInt8} {unit : Nat} (h : unit ∈ codeUnits data) :
    unit < 2 ^ 16 := by
  fun_induction codeUnits data with
  | case1 a b data ih =>
    rcases List.mem_cons.mp h with hunit | hrest
    · have hlt : fromLe [a, b] < 256 ^ 2 := fromLe_lt [a, b]
      omega
    · exact ih hrest
  | case2 data => exact absurd h List.not_mem_nil

/-- Where a loop over pairs ends there is one element at most. -/
theorem nil_or_singleton {α : Type} {xs : List α} (h : ∀ a b rest, xs = a :: b :: rest → False) :
    xs = [] ∨ ∃ a, xs = [a] := by
  cases xs with
  | nil => exact .inl rfl
  | cons a xs =>
    cases xs with
    | nil => exact .inr ⟨a, rfl⟩
    | cons b xs => exact (h a b xs rfl).elim

theorem codeUnits_append {front : List UInt8} (h : front.length % 2 = 0) (rest : List UInt8) :
    codeUnits (front ++ rest) = codeUnits front ++ codeUnits rest := by
  fun_induction codeUnits front with
  | case1 a b front ih =>
    rw [List.length_cons, List.length_cons] at h
    rw [List.cons_append, List.cons_append, codeUnits, ih (by omega), List.cons_append]
  | case2 front hshort =>
    obtain rfl | ⟨a, rfl⟩ := nil_or_singleton hshort
    · rfl
    · simp at h

theorem codeUnits_toLe {n : Nat} (h : n < 2 ^ 16) (rest : List UInt8) :
    codeUnits (toLe 2 n ++ rest) = n :: codeUnits rest := by
  have hvalue : fromLe (toLe 2 n) = n := fromLe_toLe_of_lt h
  change fromLe (toLe 2 n) :: codeUnits rest = _
  rw [hvalue]

/-! ## Units and their bytes -/

section Units

variable {units : List Nat} {data : List UInt8}

theorem length_unitBytes (units : List Nat) : (unitBytes units).length = 2 * units.length :=
  length_flatMap_toLe 2 units

theorem unitBytes_append (front back : List Nat) :
    unitBytes (front ++ back) = unitBytes front ++ unitBytes back := List.flatMap_append

theorem codeUnits_unitBytes (h : ∀ unit ∈ units, unit < 2 ^ 16) (rest : List UInt8) :
    codeUnits (unitBytes units ++ rest) = units ++ codeUnits rest := by
  induction units with
  | nil => rfl
  | cons unit units ih =>
    obtain ⟨hunit, h⟩ := List.forall_mem_cons.mp h
    rw [unitBytes, List.flatMap_cons, List.append_assoc, codeUnits_toLe hunit, ← unitBytes, ih h,
      List.cons_append]

theorem codeUnits_unitBytes_self (h : ∀ unit ∈ units, unit < 2 ^ 16) :
    codeUnits (unitBytes units) = units := by
  have hnil : codeUnits [] = [] := rfl
  have hrest := codeUnits_unitBytes h []
  rwa [List.append_nil, hnil, List.append_nil] at hrest

/-- Data is its units, and maybe one more byte. -/
theorem unitBytes_codeUnits (data : List UInt8) :
    ∃ odd, data = unitBytes (codeUnits data) ++ odd ∧ odd.length = data.length % 2 := by
  fun_induction codeUnits data with
  | case1 a b data ih =>
    obtain ⟨odd, hdata, hodd⟩ := ih
    refine ⟨odd, ?_, ?_⟩
    · rw [unitBytes, List.flatMap_cons, toLe_fromLe_pair, ← unitBytes, List.append_assoc, ← hdata]
      rfl
    · rw [hodd, List.length_cons, List.length_cons]
      omega
  | case2 data hshort =>
    refine ⟨data, rfl, ?_⟩
    obtain rfl | ⟨a, rfl⟩ := nil_or_singleton hshort
    · rfl
    · rfl

theorem unitBytes_prefix_iff (h : ∀ unit ∈ units, unit < 2 ^ 16) :
    unitBytes units <+: data ↔ units <+: codeUnits data := by
  constructor
  · rintro ⟨rest, rfl⟩
    exact ⟨codeUnits rest, (codeUnits_unitBytes h rest).symm⟩
  · rintro ⟨rest, hrest⟩
    obtain ⟨odd, hdata, -⟩ := unitBytes_codeUnits data
    rw [hdata, ← hrest, unitBytes_append, List.append_assoc]
    exact List.prefix_append _ _

theorem unitBytes_infix (h : units <:+: codeUnits data) : unitBytes units <:+: data := by
  obtain ⟨front, back, hsplit⟩ := h
  obtain ⟨odd, hdata, -⟩ := unitBytes_codeUnits data
  rw [hdata, ← hsplit, unitBytes_append, unitBytes_append, List.append_assoc]
  exact ⟨_, _, rfl⟩

/-- A whole number of units ends other units where its bytes end theirs. -/
theorem unitBytes_suffix_iff {text : List Nat} (h : ∀ unit ∈ units, unit < 2 ^ 16)
    (htext : ∀ unit ∈ text, unit < 2 ^ 16) :
    unitBytes units <:+ unitBytes text ↔ units <:+ text := by
  constructor
  · rintro ⟨front, hfront⟩
    have heven : front.length % 2 = 0 := by
      have hlength := congrArg List.length hfront
      rw [List.length_append, length_unitBytes, length_unitBytes] at hlength
      omega
    have hunits := congrArg codeUnits hfront
    rw [codeUnits_append heven] at hunits
    rw [codeUnits_unitBytes_self h, codeUnits_unitBytes_self htext] at hunits
    exact ⟨codeUnits front, hunits⟩
  · rintro ⟨front, rfl⟩
    rw [unitBytes_append]
    exact List.suffix_append _ _

theorem unitBytes_inj {text : List Nat} (h : ∀ unit ∈ units, unit < 2 ^ 16)
    (htext : ∀ unit ∈ text, unit < 2 ^ 16) : unitBytes units = unitBytes text ↔ units = text := by
  refine ⟨fun heq => ?_, congrArg unitBytes⟩
  have hunits := congrArg codeUnits heq
  rwa [codeUnits_unitBytes_self h, codeUnits_unitBytes_self htext] at hunits

end Units

end OneCollect.Theory
