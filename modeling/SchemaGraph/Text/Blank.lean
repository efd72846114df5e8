/-
**White space.**

A name is blank when it has no character outside the property White_Space, which holds 25 code
points.

Main definitions:

* `isSpace` — the property of one character;
* `isBlank` — the property of a whole text.

Main results:

* `isBlank_iff` — a text is blank exactly when all its characters are white space.
-/

set_option autoImplicit false

namespace SchemaGraph.Text

/-- The first and the last code point of each range of white space. -/
def spaceRanges : List (Nat × Nat) := [
  (0x0009, 0x000d), (0x0020, 0x0020), (0x0085, 0x0085), (0x00a0, 0x00a0), (0x1680, 0x1680),
  (0x2000, 0x200a), (0x2028, 0x2029), (0x202f, 0x202f), (0x205f, 0x205f), (0x3000, 0x3000)]

/-- Whether a character is white space. -/
def isSpace (c : Char) : Bool :=
  spaceRanges.any fun r => r.1 ≤ c.toNat && c.toNat ≤ r.2

/-- Whether a text holds nothing but white space. -/
def isBlank (s : String) : Bool := s.toList.all isSpace

theorem isBlank_iff (s : String) : isBlank s = true ↔ ∀ c ∈ s.toList, isSpace c = true := by
  simp [isBlank]

/-- The ranges hold 25 code points. -/
example : (spaceRanges.map fun r => r.2 + 1 - r.1).sum = 25 := by decide

end SchemaGraph.Text
