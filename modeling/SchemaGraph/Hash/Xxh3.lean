/-
**The 128-bit XXH3 hash with seed zero.**

A key is the hash of a canonical text.  Six length classes have formulas of their own: no byte, one
to three, four to eight, nine to sixteen, up to 128 and up to 240.  Beyond, eight lanes accumulate
stripes of 64 bytes and are scrambled after each block of sixteen stripes.

Main definitions:

* `secret` — the 192 bytes of key material that every class mixes in;
* `Accumulator`, `Accumulator.mix` — the running pair of the two middle classes;
* `Lanes`, `Lanes.accumulate`, `Lanes.scramble` — the eight lanes of the last class;
* `xxh3` — the hash of a byte string.
-/

import SchemaGraph.Hash.Words

set_option autoImplicit false

namespace SchemaGraph.Hash

/-! ### Constants -/

/-- The key material that is mixed into the input. -/
def secret : Bytes := #[
  0xb8, 0xfe, 0x6c, 0x39, 0x23, 0xa4, 0x4b, 0xbe, 0x7c, 0x01, 0x81, 0x2c, 0xf7, 0x21, 0xad, 0x1c,
  0xde, 0xd4, 0x6d, 0xe9, 0x83, 0x90, 0x97, 0xdb, 0x72, 0x40, 0xa4, 0xa4, 0xb7, 0xb3, 0x67, 0x1f,
  0xcb, 0x79, 0xe6, 0x4e, 0xcc, 0xc0, 0xe5, 0x78, 0x82, 0x5a, 0xd0, 0x7d, 0xcc, 0xff, 0x72, 0x21,
  0xb8, 0x08, 0x46, 0x74, 0xf7, 0x43, 0x24, 0x8e, 0xe0, 0x35, 0x90, 0xe6, 0x81, 0x3a, 0x26, 0x4c,
  0x3c, 0x28, 0x52, 0xbb, 0x91, 0xc3, 0x00, 0xcb, 0x88, 0xd0, 0x65, 0x8b, 0x1b, 0x53, 0x2e, 0xa3,
  0x71, 0x64, 0x48, 0x97, 0xa2, 0x0d, 0xf9, 0x4e, 0x38, 0x19, 0xef, 0x46, 0xa9, 0xde, 0xac, 0xd8,
  0xa8, 0xfa, 0x76, 0x3f, 0xe3, 0x9c, 0x34, 0x3f, 0xf9, 0xdc, 0xbb, 0xc7, 0xc7, 0x0b, 0x4f, 0x1d,
  0x8a, 0x51, 0xe0, 0x4b, 0xcd, 0xb4, 0x59, 0x31, 0xc8, 0x9f, 0x7e, 0xc9, 0xd9, 0x78, 0x73, 0x64,
  0xea, 0xc5, 0xac, 0x83, 0x34, 0xd3, 0xeb, 0xc3, 0xc5, 0x81, 0xa0, 0xff, 0xfa, 0x13, 0x63, 0xeb,
  0x17, 0x0d, 0xdd, 0x51, 0xb7, 0xf0, 0xda, 0x49, 0xd3, 0x16, 0x55, 0x26, 0x29, 0xd4, 0x68, 0x9e,
  0x2b, 0x16, 0xbe, 0x58, 0x7d, 0x47, 0xa1, 0xfc, 0x8f, 0xf8, 0xb8, 0xd1, 0x7a, 0xd0, 0x31, 0xce,
  0x45, 0xcb, 0x3a, 0x8f, 0x95, 0x16, 0x04, 0x28, 0xaf, 0xd7, 0xfb, 0xca, 0xbb, 0x4b, 0x40, 0x7e]

/-- The first odd multiplier of 32 bits. -/
def prime32a : UInt64 := 0x9e3779b1

/-- The second odd multiplier of 32 bits. -/
def prime32b : UInt64 := 0x85ebca77

/-- The third odd multiplier of 32 bits. -/
def prime32c : UInt64 := 0xc2b2ae3d

/-- The first odd multiplier of 64 bits. -/
def prime64a : UInt64 := 0x9e3779b185ebca87

/-- The second odd multiplier of 64 bits. -/
def prime64b : UInt64 := 0xc2b2ae3d27d4eb4f

/-- The third odd multiplier of 64 bits. -/
def prime64c : UInt64 := 0x165667b19e3779f9

/-- The fourth odd multiplier of 64 bits. -/
def prime64d : UInt64 := 0x85ebca77c2b2ae63

/-- The fifth odd multiplier of 64 bits. -/
def prime64e : UInt64 := 0x27d4eb2f165667c5

/-! ### Final mixing -/

/-- A word combined with itself shifted to the right. -/
def xorShift (x n : UInt64) : UInt64 := x ^^^ (x >>> n)

/-- The final mixing of the classes from nine bytes on. -/
def avalanche (x : UInt64) : UInt64 :=
  xorShift (xorShift x 37 * 0x165667919e3779f9) 32

/-- The final mixing of the classes of at most three bytes. -/
def strongAvalanche (x : UInt64) : UInt64 :=
  xorShift (xorShift (xorShift x 33 * prime64b) 29 * prime64c) 32

/-! ### Up to sixteen bytes -/

/-- The hash of the empty string depends on the key material alone. -/
def hashEmpty : Wide :=
  ⟨strongAvalanche (secret.word64 80 ^^^ secret.word64 88),
    strongAvalanche (secret.word64 64 ^^^ secret.word64 72)⟩

/-- One to three bytes: the first, the middle and the last byte and the length form one word. -/
def hashUpTo3 (b : Bytes) : Wide :=
  let low : UInt32 := ((b.at 0).toUInt32 <<< 16) ||| ((b.at (b.size / 2)).toUInt32 <<< 24)
    ||| (b.at (b.size - 1)).toUInt32 ||| (b.size.toUInt32 <<< 8)
  let high := rotate32 (reverse32 low) 13
  ⟨strongAvalanche (high.toUInt64 ^^^ (secret.word32 8 ^^^ secret.word32 12).toUInt64),
    strongAvalanche (low.toUInt64 ^^^ (secret.word32 0 ^^^ secret.word32 4).toUInt64)⟩

/-- Four to eight bytes: the first and the last four bytes form one word. -/
def hashUpTo8 (b : Bytes) : Wide :=
  let input := (b.word32 0).toUInt64 + ((b.word32 (b.size - 4)).toUInt64 <<< 32)
  let keyed := input ^^^ (secret.word64 16 ^^^ secret.word64 24)
  let p := Wide.product keyed (prime64a + (b.size.toUInt64 <<< 2))
  let high := p.high + (p.low <<< 1)
  let low := p.low ^^^ (high >>> 3)
  ⟨avalanche high, xorShift (xorShift low 35 * 0x9fb21c651e98df25) 28⟩

/-- Nine to sixteen bytes: the first and the last eight bytes, multiplied twice. -/
def hashUpTo16 (b : Bytes) : Wide :=
  let first := b.word64 0
  let last := b.word64 (b.size - 8)
  let p := Wide.product (first ^^^ last ^^^ (secret.word64 32 ^^^ secret.word64 40)) prime64a
  let low := p.low + ((b.size - 1).toUInt64 <<< 54)
  let keyed := last ^^^ (secret.word64 48 ^^^ secret.word64 56)
  let high := p.high + (keyed + keyed.toUInt32.toUInt64 * (prime32b - 1))
  let q := Wide.product (low ^^^ reverse64 high) prime64b
  ⟨avalanche (q.high + high * prime64b), avalanche q.low⟩

/-! ### Up to 240 bytes -/

/-- The running pair of the two middle classes. -/
structure Accumulator where
  low : UInt64
  high : UInt64
deriving DecidableEq, Repr, Inhabited

/-- Sixteen bytes of input at `i`, keyed by the sixteen bytes of key material at `k`. -/
def mix16 (b : Bytes) (i k : Nat) : UInt64 :=
  foldedProduct (b.word64 i ^^^ secret.word64 k) (b.word64 (i + 8) ^^^ secret.word64 (k + 8))

/-- Two pieces of sixteen bytes, at `i` and at `j`, are taken into the running pair. -/
def Accumulator.mix (a : Accumulator) (b : Bytes) (i j k : Nat) : Accumulator where
  low := (a.low + mix16 b i k) ^^^ (b.word64 j + b.word64 (j + 8))
  high := (a.high + mix16 b j (k + 16)) ^^^ (b.word64 i + b.word64 (i + 8))

/-- The pair before any input: the length is its only content. -/
def Accumulator.start (b : Bytes) : Accumulator := ⟨b.size.toUInt64 * prime64a, 0⟩

/-- The result of the two middle classes. -/
def Accumulator.finish (a : Accumulator) (b : Bytes) : Wide :=
  ⟨0 - avalanche (a.low * prime64a + a.high * prime64d + b.size.toUInt64 * prime64b),
    avalanche (a.low + a.high)⟩

/-- Seventeen to 128 bytes: pieces from both ends, the innermost pair first. -/
def hashUpTo128 (b : Bytes) : Wide :=
  let pairs := (b.size - 1) / 32
  let taken := (List.range (pairs + 1)).reverse.foldl
    (fun a i => a.mix b (16 * i) (b.size - 16 * (i + 1)) (32 * i)) (Accumulator.start b)
  taken.finish b

/-- Up to 240 bytes: four pairs in order, a mixing of the pair, the remaining pairs, and last the
final 32 bytes. -/
def hashUpTo240 (b : Bytes) : Wide :=
  let head := (List.range 4).foldl
    (fun a i => a.mix b (32 * i) (32 * i + 16) (32 * i)) (Accumulator.start b)
  let middle : Accumulator := ⟨avalanche head.low, avalanche head.high⟩
  let tail := (List.range (b.size / 32 - 4)).foldl
    (fun a i => a.mix b (32 * (i + 4)) (32 * (i + 4) + 16) (32 * i + 3)) middle
  (tail.mix b (b.size - 16) (b.size - 32) 103).finish b

/-! ### Longer inputs -/

/-- The eight lanes of the last class. -/
abbrev Lanes := Vector UInt64 8

/-- The lanes before any input. -/
def Lanes.start : Lanes :=
  #v[prime32c, prime64a, prime64b, prime64c, prime64d, prime32b, prime64e, prime32a]

/-- A stripe of 64 bytes at `i`, keyed at `k`: each word goes to the neighbouring lane, and the
product of the two halves of the keyed word to its own. -/
def Lanes.accumulate (l : Lanes) (b : Bytes) (i k : Nat) : Lanes :=
  Vector.ofFn fun n : Fin 8 =>
    let word := b.word64 (i + 8 * n)
    let keyed := word ^^^ secret.word64 (k + 8 * n)
    let neighbour := if n.val % 2 = 0 then n.val + 1 else n.val - 1
    l[n] + b.word64 (i + 8 * neighbour) + (keyed &&& (0xffffffff : UInt64)) * (keyed >>> 32)

/-- After a block the lanes are keyed by the last 64 bytes of key material and multiplied. -/
def Lanes.scramble (l : Lanes) : Lanes :=
  Vector.ofFn fun n : Fin 8 =>
    (xorShift l[n] 47 ^^^ secret.word64 (128 + 8 * n)) * prime32a

/-- The `n` stripes from `i` on, each keyed eight bytes further than the one before. -/
def Lanes.stripes (l : Lanes) (b : Bytes) (i n : Nat) : Lanes :=
  (List.range n).foldl (fun l s => l.accumulate b (i + 64 * s) (8 * s)) l

/-- The lanes merged into one word. -/
def Lanes.merge (l : Lanes) (k : Nat) (start : UInt64) : UInt64 :=
  let pair (n : Fin 8) (m : Fin 8) : UInt64 :=
    foldedProduct (l[n] ^^^ secret.word64 (k + 8 * n)) (l[m] ^^^ secret.word64 (k + 8 * m))
  avalanche (start + pair 0 1 + pair 2 3 + pair 4 5 + pair 6 7)

/-- More than 240 bytes. -/
def hashLong (b : Bytes) : Wide :=
  let blocks := (b.size - 1) / 1024
  let full := (List.range blocks).foldl
    (fun l n => (l.stripes b (1024 * n) 16).scramble) Lanes.start
  let rest := full.stripes b (1024 * blocks) ((b.size - 1 - 1024 * blocks) / 64)
  let all := rest.accumulate b (b.size - 64) 121
  let size := b.size.toUInt64
  ⟨all.merge 117 (~~~(size * prime64b)), all.merge 11 (size * prime64a)⟩

/-! ### The hash -/

/-- The hash of a byte string, by the class of its length. -/
def xxh3 (b : Bytes) : Wide :=
  if b.size = 0 then hashEmpty
  else if b.size ≤ 3 then hashUpTo3 b
  else if b.size ≤ 8 then hashUpTo8 b
  else if b.size ≤ 16 then hashUpTo16 b
  else if b.size ≤ 128 then hashUpTo128 b
  else if b.size ≤ 240 then hashUpTo240 b
  else hashLong b

end SchemaGraph.Hash
