/-!
# White space

Two classes of blank characters matter to the readers.  A *blank* may not stand in
the path of a type name: the class is the Unicode property White_Space.  A
*separator* may be skipped between the parts of a type name or of a JSON text, and
there are only four of them.

## Main definitions

* `isBlank` — the twenty-five characters of White_Space.
* `isSeparator` — space, tab, carriage return and line feed.
* `skipSeparators` — a text without the separators at its front.

## Main results

* `isBlank_of_isSeparator` — what may be skipped cannot stand in a path.
-/

namespace Generics.Text

/-- The characters that may be skipped between the parts of a text. -/
def isSeparator (c : Char) : Bool :=
  c == ' ' || c == '\t' || c == '\r' || c == '\n'

/-- The text behind any separators. -/
def skipSeparators (s : List Char) : List Char :=
  s.dropWhile isSeparator

/-- The ranges of White_Space, both ends included. -/
def blankRanges : List (Nat × Nat) :=
  [(0x09, 0x0D), (0x20, 0x20), (0x85, 0x85), (0xA0, 0xA0), (0x1680, 0x1680),
   (0x2000, 0x200A), (0x2028, 0x2029), (0x202F, 0x202F), (0x205F, 0x205F),
   (0x3000, 0x3000)]

/-- The Unicode property White_Space. -/
def isBlank (c : Char) : Bool :=
  blankRanges.any fun (low, high) => decide (low ≤ c.toNat) && decide (c.toNat ≤ high)

/-- The property has twenty-five members. -/
example : blankRanges.foldl (fun n (low, high) => n + (high + 1 - low)) 0 = 25 := by decide

theorem isBlank_of_isSeparator {c : Char} (h : isSeparator c = true) : isBlank c = true := by
  simp only [isSeparator, Bool.or_eq_true, beq_iff_eq] at h
  rcases h with ((rfl | rfl) | rfl) | rfl <;> decide

end Generics.Text
