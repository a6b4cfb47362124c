import OneCollect.Theory.Text
import Mathlib.Data.List.DropRight

/-! Paths as text: pushing a part, and the parent.

A path is read from its end, where empty parts and the part `.` do not count. What the parent of a
path keeps is a front of it; of an absolute path it is absolute (`absolute_parent`). -/

namespace OneCollect.Theory

abbrev Path := List Char

namespace Path

def isAbsolute (path : Path) : Bool := path.head? = some '/'

/-- `PathBuf::push`. -/
def push (self path : Path) : Path :=
  if isAbsolute path then path
  else if self ≠ [] ∧ self.getLast? ≠ some '/' then self ++ '/' :: path
  else self ++ path

/-- A `.` in front, which is a part of its own. -/
def includeCurDir : Path → Bool
  | ['.'] => true
  | '.' :: '/' :: _ => true
  | _ => false

/-- What stands in front of the parts. -/
def lenBeforeBody (path : Path) : Nat := if isAbsolute path || includeCurDir path then 1 else 0

/-- An empty part or a `.`, which is skipped. -/
def isSkipped (part : Path) : Bool := part = [] || part = ['.']

/-- The parts behind the front, without those at the end that are skipped. -/
def trimRight (parts : List Path) : List Path := parts.rdropWhile isSkipped

/-- `Path::parent`. -/
def parent (path : Path) : Option Path :=
  let front := path.take (lenBeforeBody path)
  match trimRight ((path.drop (lenBeforeBody path)).splitOn '/') with
  | [] => if includeCurDir path then some [] else none
  | parts => some (front ++ List.intercalate ['/'] (trimRight parts.dropLast))

theorem absolute_parent {path dir : Path} (h : isAbsolute path = true)
    (hdir : parent path = some dir) : isAbsolute dir = true := by
  cases path with
  | nil => cases h
  | cons c rest =>
    obtain rfl : c = '/' := by simpa [isAbsolute] using h
    have hlen : lenBeforeBody ('/' :: rest) = 1 := by simp [lenBeforeBody, isAbsolute]
    have hcur : includeCurDir ('/' :: rest) = false := by
      unfold includeCurDir
      split <;> simp_all
    unfold parent at hdir
    rw [hlen, hcur] at hdir
    dsimp only at hdir
    split at hdir
    · cases hdir
    · cases hdir
      rfl

/-- An absolute path can be cut behind its root. -/
theorem splitAtByte_of_absolute {path : Path} (h : isAbsolute path = true) :
    splitAtByte 1 path = some (['/'], path.tail) := by
  cases path with
  | nil => cases h
  | cons c rest =>
    obtain rfl : c = '/' := by simpa [isAbsolute] using h
    have hone : ∀ c ∈ ['/'], c.utf8Size = 1 := by decide
    exact splitAtByte_append hone rest

example : parent "/usr//lib/./libc.so/".toList = some "/usr//lib".toList ∧
    parent "/libc.so".toList = some ['/'] ∧ parent "libc.so".toList = some [] ∧
    parent ['/'] = none := by decide +kernel

end Path

end OneCollect.Theory
