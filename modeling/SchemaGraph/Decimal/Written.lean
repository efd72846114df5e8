/-
**The text of a binary number.**

A number is written with the fewest digits that read back.  From `10 ^ -4` up to, and not including,
`10 ^ 16` the notation is positional with at least one digit after the point; elsewhere it is a
digit, perhaps a point and more digits, and an exponent without a plus sign.

Main definitions:

* `Layout` — the range of the positional notation, and `Layout.plain`, the one in use;
* `Layout.write` — the text of digits with a decimal point;
* `Binary64.written` — the text of a number.
-/

import SchemaGraph.Decimal.Shortest

set_option autoImplicit false

namespace SchemaGraph.Decimal

/-! ### Layout -/

/-- Where the decimal point may stand in positional notation, counted from the first digit. -/
structure Layout where
  /-- the point stands after this place -/
  after : Int
  /-- the point stands at most here -/
  upTo : Int
deriving DecidableEq, Repr

/-- Values from `10 ^ -4` up to `10 ^ 16` are written positionally. -/
def Layout.plain : Layout := ⟨-4, 16⟩

/-- The digits without the zeros at their end. -/
def significantDigits (digits : List Char) : List Char :=
  (digits.reverse.dropWhile (· = '0')).reverse

/-- Positional notation: `0.digits` times ten to the power `point`. -/
def positional (digits : List Char) (point : Int) : List Char :=
  if point ≤ 0 then '0' :: '.' :: (List.replicate (-point).toNat '0' ++ digits)
  else if digits.length ≤ point.toNat then
    digits ++ List.replicate (point.toNat - digits.length) '0' ++ ['.', '0']
  else digits.take point.toNat ++ '.' :: digits.drop point.toNat

/-- Notation with an exponent: `0.digits` times ten to the power `point`. -/
def withExponent (digits : List Char) (point : Int) : List Char :=
  digits.take 1 ++ (if digits.length ≤ 1 then [] else '.' :: digits.drop 1)
    ++ 'e' :: (toString (point - 1)).toList

/-- The text of `0.digits` times ten to the power `point`. -/
def Layout.write (l : Layout) (digits : List Char) (point : Int) : List Char :=
  if l.after < point ∧ point ≤ l.upTo then positional digits point else withExponent digits point

/-! ### Numbers -/

namespace Binary64

/-- The text of a finite magnitude. -/
def writtenMagnitude (x : Binary64) : List Char :=
  if x.isZero then ['0', '.', '0']
  else
    let digits := Nat.toDigits 10 x.shortest.digits
    Layout.plain.write (significantDigits digits) (digits.length + x.shortest.exponent)

/-- The text of a number. -/
def written (x : Binary64) : String :=
  if x.isNaN then "NaN"
  else
    let magnitude := if x.isFinite then x.writtenMagnitude else ['i', 'n', 'f']
    String.ofList (if x.negative then '-' :: magnitude else magnitude)

end Binary64

end SchemaGraph.Decimal
