/-
**Words of a byte string.**

The hash of `SchemaGraph.Hash.Xxh3` reads its input in little-endian words and mixes them by full
64 by 64 bit products.  This module holds these two readings of machine words.

Main definitions:

* `Bytes.word32`, `Bytes.word64` — the little-endian word that starts at an offset;
* `Wide` — a 128-bit value as two words;
* `Wide.product` — the full product of two words, and `foldedProduct`, its two halves combined.
-/

set_option autoImplicit false

namespace SchemaGraph.Hash

/-! ### Bytes -/

/-- A byte string. -/
abbrev Bytes := Array UInt8

/-- The byte at an offset; past the end there are zeros. -/
def Bytes.at (b : Bytes) (i : Nat) : UInt8 := b.getD i 0

/-- The 32-bit word whose least significant byte stands at `i`. -/
def Bytes.word32 (b : Bytes) (i : Nat) : UInt32 :=
  (b.at i).toUInt32 ||| ((b.at (i + 1)).toUInt32 <<< 8)
    ||| ((b.at (i + 2)).toUInt32 <<< 16) ||| ((b.at (i + 3)).toUInt32 <<< 24)

/-- The 64-bit word whose least significant byte stands at `i`. -/
def Bytes.word64 (b : Bytes) (i : Nat) : UInt64 :=
  (b.word32 i).toUInt64 ||| ((b.word32 (i + 4)).toUInt64 <<< 32)

/-- The bytes of a 32-bit word in the opposite order. -/
def reverse32 (x : UInt32) : UInt32 :=
  (x <<< 24) ||| ((x <<< 8) &&& (0x00ff0000 : UInt32)) ||| ((x >>> 8) &&& (0x0000ff00 : UInt32))
    ||| (x >>> 24)

/-- The bytes of a 64-bit word in the opposite order. -/
def reverse64 (x : UInt64) : UInt64 :=
  ((reverse32 x.toUInt32).toUInt64 <<< 32) ||| (reverse32 (x >>> 32).toUInt32).toUInt64

/-- A 32-bit word rotated to the left by `n` places, for `0 < n < 32`. -/
def rotate32 (x n : UInt32) : UInt32 := (x <<< n) ||| (x >>> (32 - n))

/-! ### Values of 128 bits -/

/-- A value of 128 bits as its two halves. -/
structure Wide where
  high : UInt64
  low : UInt64
deriving DecidableEq, Repr, Inhabited

/-- The number that a pair of halves stands for. -/
def Wide.toNat (w : Wide) : Nat := w.high.toNat * Nat.pow 2 64 + w.low.toNat

/-- The full product of two words. -/
def Wide.product (a b : UInt64) : Wide :=
  let p := a.toNat * b.toNat
  ⟨(p / Nat.pow 2 64).toUInt64, p.toUInt64⟩

/-- The two halves of the full product, combined by exclusive or. -/
def foldedProduct (a b : UInt64) : UInt64 :=
  let p := Wide.product a b
  p.low ^^^ p.high

end SchemaGraph.Hash
