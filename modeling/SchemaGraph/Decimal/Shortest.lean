/-
**The fewest digits that read back.**

Among the decimals that round to a given binary number, the one with the fewest digits is selected,
and of these the one nearest to the number; of two equally near ones the larger.  All comparisons
are between natural numbers.

Main definitions:

* `Numeral` — digits and an exponent of ten;
* `Binary64.readsBack` — the decimal lies in the interval that rounds to the number;
* `Binary64.onGrid` — the better of the two neighbours of the number among the multiples of a power
  of ten, if one of them reads back;
* `Binary64.shortest` — the selected decimal.

Main results:

* `Binary64.readsBack_of_onGrid` — what is selected on a grid reads back.
-/

import SchemaGraph.Decimal.Binary64

set_option autoImplicit false

namespace SchemaGraph.Decimal

/-! ### Numerals -/

/-- The number `digits * 10 ^ exponent`. -/
structure Numeral where
  digits : Nat
  exponent : Int
deriving DecidableEq, Repr

/-- The number of digits of a positive number. -/
def digitCount (n : Nat) : Nat := (Nat.toDigits 10 n).length

namespace Binary64

/-! ### The interval of a number -/

/-- The number of units of a magnitude in the number one. -/
def unitsInOne : Nat := Nat.pow 2 1076

/-- Whether the decimal lies in the interval that rounds to `x`.  The ends belong to it exactly when
the significand is even. -/
def readsBack (x : Binary64) (d : Numeral) : Bool :=
  let value := d.digits * Nat.pow 10 d.exponent.toNat * unitsInOne
  let unit := Nat.pow 10 (-d.exponent).toNat
  if x.significand % 2 = 0 then x.lowerEnd * unit ≤ value ∧ value ≤ x.upperEnd * unit
  else x.lowerEnd * unit < value ∧ value < x.upperEnd * unit

/-- The least power of ten above a positive magnitude. -/
def decimalPoint (x : Binary64) : Int :=
  let whole := x.quarters / unitsInOne
  if whole = 0 then 1 - (digitCount (unitsInOne / x.quarters) : Int) else digitCount whole

/-! ### Selection -/

/-- The better of the two neighbours of the magnitude among the multiples of `10 ^ e`. -/
def onGrid (x : Binary64) (e : Int) : Option Numeral :=
  let value := x.quarters * Nat.pow 10 (-e).toNat
  let unit := unitsInOne * Nat.pow 10 e.toNat
  let below : Numeral := ⟨value / unit, e⟩
  let above : Numeral := ⟨value / unit + 1, e⟩
  match x.readsBack below, x.readsBack above with
  | true, true =>
    if 2 * value < (2 * below.digits + 1) * unit then some below else some above
  | true, false => some below
  | false, true => some above
  | false, false => none

theorem readsBack_of_onGrid {x : Binary64} {e : Int} {d : Numeral} (h : x.onGrid e = some d) :
    x.readsBack d = true := by
  simp only [onGrid] at h
  split at h
  · split at h <;> simp_all
  all_goals simp_all

/-- The magnitude itself as a decimal: a power of two divides a power of ten. -/
def exact (x : Binary64) : Numeral := ⟨x.quarters * Nat.pow 5 1076, -1076⟩

/-- The decimal with the fewest digits that reads back; seventeen always suffice. -/
def shortest (x : Binary64) : Numeral :=
  let point := x.decimalPoint
  ((List.range 17).findSome? fun n => x.onGrid (point - (n + 1 : Nat))).getD x.exact

end Binary64

end SchemaGraph.Decimal
