/-
**Numbers of 64 bits with a binary point.**

A float option is kept as the 64 bits of its interchange format, so that every question about it is
a question about natural numbers.  All finite magnitudes are multiples of `2 ^ -1074`; counted in
quarters of that quantum, both a magnitude and the midpoints to its neighbours are whole numbers.

Main definitions:

* `Binary64` — the bits, with `isFinite`, `isNaN` and the comparison `Binary64.same`;
* `Binary64.quarters` — a finite magnitude, counted in units of `2 ^ -1076`;
* `Binary64.lowerEnd`, `Binary64.upperEnd` — the ends of the interval that rounds to it.

Main results:

* `Binary64.same_comm`, `Binary64.same_self_iff` — the comparison is symmetric, and reflexive on all
  but the values that are not a number.
-/

set_option autoImplicit false

namespace SchemaGraph.Decimal

/-! ### Bits -/

/-- A number of 64 bits in the binary interchange format. -/
structure Binary64 where
  bits : UInt64
deriving DecidableEq, Repr, Inhabited

namespace Binary64

/-- The sign bit. -/
def negative (x : Binary64) : Bool := Nat.pow 2 63 ≤ x.bits.toNat

/-- The eleven bits of the exponent. -/
def exponentField (x : Binary64) : Nat := x.bits.toNat / Nat.pow 2 52 % Nat.pow 2 11

/-- The 52 bits of the fraction. -/
def fraction (x : Binary64) : Nat := x.bits.toNat % Nat.pow 2 52

/-- Neither infinite nor without a value. -/
def isFinite (x : Binary64) : Bool := x.exponentField ≠ 2047

/-- Not a number. -/
def isNaN (x : Binary64) : Bool := x.exponentField = 2047 ∧ x.fraction ≠ 0

/-- One of the two zeros. -/
def isZero (x : Binary64) : Bool := x.exponentField = 0 ∧ x.fraction = 0

/-! ### Comparison -/

/-- Equality as numbers: the two zeros are equal, and what is not a number equals nothing. -/
def same (x y : Binary64) : Bool :=
  !x.isNaN && !y.isNaN && (x.bits == y.bits || (x.isZero && y.isZero))

theorem same_comm (x y : Binary64) : x.same y = y.same x := by
  simp only [same, BEq.comm (a := x.bits), Bool.and_comm x.isZero, Bool.and_comm (!x.isNaN)]

@[simp] theorem same_self_iff (x : Binary64) : x.same x = true ↔ x.isNaN = false := by
  simp [same]

/-! ### Magnitude -/

/-- The significand: below the least normal exponent the fraction alone. -/
def significand (x : Binary64) : Nat :=
  if x.exponentField = 0 then x.fraction else Nat.pow 2 52 + x.fraction

/-- The gap to the next larger magnitude, in units of `2 ^ -1076`. -/
def gap (x : Binary64) : Nat := 4 * Nat.pow 2 (x.exponentField - 1)

/-- A finite magnitude in units of `2 ^ -1076`. -/
def quarters (x : Binary64) : Nat := x.significand * x.gap

/-- Whether the gap below is half the gap above: at a power of two above the least one. -/
def narrowBelow (x : Binary64) : Bool := x.fraction = 0 ∧ 1 < x.exponentField

/-- The midpoint to the next smaller magnitude, in units of `2 ^ -1076`. -/
def lowerEnd (x : Binary64) : Nat :=
  x.quarters - if x.narrowBelow then x.gap / 4 else x.gap / 2

/-- The midpoint to the next larger magnitude, in units of `2 ^ -1076`. -/
def upperEnd (x : Binary64) : Nat := x.quarters + x.gap / 2

end Binary64

end SchemaGraph.Decimal
