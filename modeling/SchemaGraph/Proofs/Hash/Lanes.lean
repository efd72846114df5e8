/-
**Sums of lanes.**

A text of more than 240 bytes is hashed in eight lanes.  Within a block a stripe adds to each lane
what depends on two words of the stripe alone, and so the order of stripes is lost: texts of one
length whose stripes add up to the same in each lane have the same hash.

Main definitions:

* `Lanes.gain` — what a stripe adds to a lane;
* `crossText` — a text with two letters that count alike;
* `twinText` — a text with three words that make up for the one that it begins with.

Main results:

* `Lanes.getElem_accumulate` — a stripe adds its gain;
* `hashLong_eq_of_gains` — **texts whose gains have the same sums have the same hash**;
* `data_toUTF8_ofList` — the bytes of a text of ASCII characters;
* `xxh3_crossBytes`, `xxh3_twins` — **texts with one hash**.
-/

import SchemaGraph.Hash.Xxh3

set_option autoImplicit false

namespace SchemaGraph.Hash

/-! ### The bytes of a text -/

/-- The byte of an ASCII character. -/
def byteOf (c : Char) : UInt8 := c.val.toUInt8

theorem data_toUTF8_ofList {cs : List Char} (h : ∀ c ∈ cs, c.utf8Size = 1) :
    (String.ofList cs).toUTF8.data = (cs.map byteOf).toArray := by
  have hbytes : cs.flatMap String.utf8EncodeChar = cs.map byteOf := by
    induction cs with
    | nil => rfl
    | cons c cs ih =>
        obtain ⟨hc, hcs⟩ := List.forall_mem_cons.1 h
        rw [List.flatMap_cons, List.map_cons, ih hcs, String.utf8EncodeChar_eq_singleton hc]
        rfl
  rw [String.toUTF8, String.toByteArray_ofList, List.utf8Encode, hbytes, List.data_toByteArray]

/-! ### Gains -/

/-- The lane that a word is added to besides the product of its halves. -/
def neighbour (n : Fin 8) : Nat := if n.val % 2 = 0 then n.val + 1 else n.val - 1

/-- What the stripe at `i`, keyed at `k`, adds to a lane. -/
def Lanes.gain (b : Bytes) (i k : Nat) (n : Fin 8) : UInt64 :=
  let keyed := b.word64 (i + 8 * n) ^^^ secret.word64 (k + 8 * n)
  b.word64 (i + 8 * neighbour n) + (keyed &&& (0xffffffff : UInt64)) * (keyed >>> 32)

theorem Lanes.getElem_accumulate (l : Lanes) (b : Bytes) (i k : Nat) {n : Nat} (hn : n < 8) :
    (l.accumulate b i k)[n] = l[n] + gain b i k ⟨n, hn⟩ := by
  simp only [accumulate, gain, neighbour, Fin.getElem_fin, Vector.getElem_ofFn,
    UInt64.add_assoc]

/-- A lane depends on two words of a stripe. -/
theorem Lanes.gain_congr {b b' : Bytes} {i : Nat} {n : Fin 8} (k : Nat)
    (hword : b.word64 (i + 8 * n) = b'.word64 (i + 8 * n))
    (hnext : b.word64 (i + 8 * neighbour n) = b'.word64 (i + 8 * neighbour n)) :
    gain b i k n = gain b' i k n := by
  rw [gain, gain, hword, hnext]

/-- **Texts whose gains have the same sums have the same hash.**  Here they have three stripes
and a last one that overlaps them. -/
theorem hashLong_eq_of_gains {b b' : Bytes} (hsize : b.size = b'.size) (hmin : 192 < b.size)
    (hmax : b.size ≤ 256)
    (hsum : ∀ n, Lanes.gain b 0 0 n + Lanes.gain b 64 8 n + Lanes.gain b 128 16 n
        + Lanes.gain b (b.size - 64) 121 n
      = Lanes.gain b' 0 0 n + Lanes.gain b' 64 8 n + Lanes.gain b' 128 16 n
        + Lanes.gain b' (b.size - 64) 121 n) : hashLong b = hashLong b' := by
  have hblocks : (b.size - 1) / 1024 = 0 := by omega
  have hstripes : (b.size - 1) / 64 = 3 := by omega
  have hlanes : ∀ c : Bytes, (Lanes.start.stripes c 0 3).accumulate c (b.size - 64) 121
      = Vector.ofFn fun n => Lanes.start[n] + (Lanes.gain c 0 0 n + Lanes.gain c 64 8 n
        + Lanes.gain c 128 16 n + Lanes.gain c (b.size - 64) 121 n) := by
    intro c
    have hthree : Lanes.start.stripes c 0 3
        = ((Lanes.start.accumulate c 0 0).accumulate c 64 8).accumulate c 128 16 := rfl
    refine Vector.ext fun n hn => ?_
    rw [Vector.getElem_ofFn, hthree, Lanes.getElem_accumulate _ _ _ _ hn,
      Lanes.getElem_accumulate _ _ _ _ hn, Lanes.getElem_accumulate _ _ _ _ hn,
      Lanes.getElem_accumulate _ _ _ _ hn]
    simp only [UInt64.add_assoc, Fin.getElem_fin]
  have hall : (Lanes.start.stripes b 0 3).accumulate b (b.size - 64) 121
      = (Lanes.start.stripes b' 0 3).accumulate b' (b.size - 64) 121 := by
    rw [hlanes, hlanes]
    exact congrArg Vector.ofFn (funext fun n => by rw [hsum n])
  simp only [hashLong, ← hsize, hblocks, hstripes, List.range_zero, List.foldl_nil,
    Nat.mul_zero, Nat.sub_zero, hall]

/-! ### A pair of texts -/

/-- Replacing one element leaves the others where they are. -/
theorem getElem?_append_cons_of_ne {α : Type} {as bs : List α} (a b : α) {i : Nat}
    (h : i ≠ as.length) : (as ++ a :: bs)[i]? = (as ++ b :: bs)[i]? := by
  rcases Nat.lt_or_gt_of_ne h with hlt | hgt
  · rw [List.getElem?_append_left hlt, List.getElem?_append_left hlt]
  · obtain ⟨m, hm⟩ := Nat.exists_eq_add_of_lt hgt
    have hle : as.length ≤ i := Nat.le_of_lt hgt
    have hsub : i - as.length = m + 1 := by omega
    rw [List.getElem?_append_right hle, List.getElem?_append_right hle, hsub,
      List.getElem?_cons_succ, List.getElem?_cons_succ]

/-- A word consists of the bytes at its place. -/
theorem Bytes.word64_congr {b b' : Bytes} {i : Nat} (h : ∀ j < 8, b.at (i + j) = b'.at (i + j)) :
    b.word64 i = b'.word64 i := by
  have hword : ∀ j ≤ 4, b.word32 (i + j) = b'.word32 (i + j) := by
    intro j hj
    simp only [Bytes.word32, Nat.add_assoc, h j (by omega), h (j + 1) (by omega),
      h (j + 2) (by omega), h (j + 3) (by omega)]
  rw [Bytes.word64, Bytes.word64, hword 4 (by omega)]
  have hfirst := hword 0 (by omega)
  rw [Nat.add_zero] at hfirst
  rw [hfirst]

/-- The start of a text in which a letter follows. -/
def crossHead : List Char :=
  ['"', 'T', '"', '\x7b', '"', 'a', '"', ':', '"'] ++ List.replicate 14 'x'
    ++ ['"', ',', '"', 'o', 'f', '"', ':', '@', '"', 'p', 'a', 'a', 'a']

/-- The middle of the text, up to another letter. -/
def crossMiddle : List Char :=
  ['"', ',', '"', 'z', '"', ':', '"'] ++ List.replicate 52 'x' ++ ['9', 'B', 'W', 'R']

/-- The end of the text. -/
def crossTail : List Char := List.replicate 136 'x' ++ ['"', '\x7d', '#', '~']

/-- A text with two letters, in different stripes and in the same lane.  What goes before each of
the letters makes them count alike. -/
def crossText (p q : Char) : List Char := crossHead ++ p :: (crossMiddle ++ q :: crossTail)

/-- The bytes of the text. -/
def crossBytes (p q : Char) : Bytes := ((crossText p q).map byteOf).toArray

theorem size_crossBytes (p q : Char) : (crossBytes p q).size = 241 := by
  rw [crossBytes, List.size_toArray, List.length_map]
  rfl

theorem at_crossBytes {p q p' q' : Char} {i : Nat} (hp : i ≠ 36) (hq : i ≠ 100) :
    (crossBytes p q).at i = (crossBytes p' q').at i := by
  have hhead : crossHead.length = 36 := rfl
  have hmiddle : crossMiddle.length = 63 := rfl
  have hleft : (crossText p q)[i]? = (crossText p' q)[i]? :=
    getElem?_append_cons_of_ne p p' (by omega)
  have hright : (crossText p' q)[i]? = (crossText p' q')[i]? := by
    have hassoc : ∀ c, crossText p' c = (crossHead ++ p' :: crossMiddle) ++ c :: crossTail := by
      intro c
      simp [crossText]
    rw [hassoc, hassoc]
    refine getElem?_append_cons_of_ne q q' ?_
    rw [List.length_append, List.length_cons]
    omega
  simp only [Bytes.at, crossBytes, Array.getD_eq_getD_getElem?, List.getElem?_toArray,
    List.getElem?_map, hleft, hright]

/-- Words without the letters are the same. -/
theorem word64_crossBytes {p q p' q' : Char} {i : Nat} (hp : 36 < i ∨ i + 8 ≤ 36)
    (hq : 100 < i ∨ i + 8 ≤ 100) : (crossBytes p q).word64 i = (crossBytes p' q').word64 i :=
  Bytes.word64_congr fun j hj => at_crossBytes (by omega) (by omega)

/-- **Both orders of the letters have one hash.** -/
theorem xxh3_crossBytes : xxh3 (crossBytes 'a' 'c') = xxh3 (crossBytes 'c' 'a') := by
  -- the letters are part of two words, which only two lanes read
  have hsame : ∀ (s k : Nat) (n : Fin 8), n ≠ 4 ∧ n ≠ 5 →
      Lanes.gain (crossBytes 'a' 'c') (64 * s) k n
        = Lanes.gain (crossBytes 'c' 'a') (64 * s) k n := by
    intro s k n hn
    have hlanes : ∀ n : Fin 8, n ≠ 4 ∧ n ≠ 5 →
        n.val ≠ 4 ∧ neighbour n ≠ 4 ∧ n.val < 8 ∧ neighbour n < 8 := by decide
    obtain ⟨hown, hnext, hlt, hlt'⟩ := hlanes n hn
    exact Lanes.gain_congr k (word64_crossBytes (by omega) (by omega))
      (word64_crossBytes (by omega) (by omega))
  have hsame' : ∀ k (n : Fin 8), Lanes.gain (crossBytes 'a' 'c') 128 k n
      = Lanes.gain (crossBytes 'c' 'a') 128 k n := fun k n =>
    Lanes.gain_congr k (word64_crossBytes (by omega) (by omega))
      (word64_crossBytes (by omega) (by omega))
  have hlast : ∀ k (n : Fin 8), Lanes.gain (crossBytes 'a' 'c') 177 k n
      = Lanes.gain (crossBytes 'c' 'a') 177 k n := fun k n =>
    Lanes.gain_congr k (word64_crossBytes (by omega) (by omega))
      (word64_crossBytes (by omega) (by omega))
  -- in these two the stripes add up to the same
  have hfirst : ∀ n : Fin 8, Lanes.gain (crossBytes 'a' 'c') 0 0 n
      + Lanes.gain (crossBytes 'a' 'c') 64 8 n
    = Lanes.gain (crossBytes 'c' 'a') 0 0 n + Lanes.gain (crossBytes 'c' 'a') 64 8 n := by
    intro n
    by_cases hn : n ≠ 4 ∧ n ≠ 5
    · rw [hsame 0 0 n hn, hsame 1 8 n hn]
    · have hcross : n = 4 ∨ n = 5 := by
        revert n
        decide
      rcases hcross with rfl | rfl
      · decide +kernel
      · decide +kernel
  have hlong : hashLong (crossBytes 'a' 'c') = hashLong (crossBytes 'c' 'a') := by
    have hsize : (crossBytes 'a' 'c').size = 241 := size_crossBytes 'a' 'c'
    refine hashLong_eq_of_gains (by rw [size_crossBytes, size_crossBytes]) (by omega) (by omega)
      fun n => ?_
    rw [hsize, hfirst, hsame', hlast]
  have hclass : ∀ b : Bytes, b.size = 241 → xxh3 b = hashLong b := by
    intro b hb
    simp [xxh3, hb]
  rw [hclass _ (size_crossBytes _ _), hclass _ (size_crossBytes _ _), hlong]

/-! ### A pair of texts with different beginnings -/

/-- What stands between the word that a text begins with and the rest of its first stripe. -/
def twinHead : List Char :=
  ['"', '\x7b', '"', 'o', 'f', '"', ':', '@', '"', 'S', 't', 'r', 'i', 'n', 'g', '"', ',', '"',
    'z', '"', ':', '"']

/-- Three words that begin a stripe each, among letters that are always the same. -/
def twinBody (first second third : List Char) : List Char :=
  List.replicate 34 'x' ++ (first ++ (List.replicate 56 'x' ++ (second
    ++ (List.replicate 56 'x' ++ (third ++ List.replicate 52 'x')))))

/-- A text that begins with a word. -/
def twinText (word body : List Char) : List Char :=
  '"' :: (word ++ (twinHead ++ (body ++ ['"', '\x7d', '#', '~'])))

/-- What the text of a wrapper goes on with. -/
def wrapperBody : List Char :=
  twinBody ['A', 'B', 'A', 'B', 'S', 'j', '3', 'S'] ['G', 'n', '8', 'F', 'P', 'I', 'A', 'B']
    ['g', 'm', 'g', 'M', 's', 'R', 'c', 'g']

/-- What the text of a scalar goes on with. -/
def scalarBody : List Char :=
  twinBody ['C', 'k', 'A', 'A', 'S', 'j', '3', 'S'] ['G', 'n', '8', 'F', '2', 'A', 'L', 'D']
    ['e', 'P', 'g', 'M', 's', 'j', 'c', 'c']

/-- The text of a wrapper. -/
def wrapperTwin : List Char := twinText ['N', 'o', 'n', 'N', 'u', 'l', 'l'] wrapperBody

/-- The text of a scalar. -/
def scalarTwin : List Char := twinText ['B', 'o', 'o', 'l', 'e', 'a', 'n'] scalarBody

/-- The words that differ begin the stripes. -/
theorem getElem?_twins {i : Nat} (hi : 8 ≤ i % 64) : wrapperTwin[i]? = scalarTwin[i]? := by
  have hpairs : ∀ p ∈ (wrapperTwin.zip scalarTwin).zipIdx, 8 ≤ p.2 % 64 → p.1.1 = p.1.2 := by
    decide +kernel
  have hlength : wrapperTwin.length = scalarTwin.length := rfl
  by_cases hlt : i < wrapperTwin.length
  · have hlt' := hlength ▸ hlt
    have hpair : ((wrapperTwin[i], scalarTwin[i]), i) ∈ (wrapperTwin.zip scalarTwin).zipIdx := by
      rw [List.mem_zipIdx_iff_getElem?, List.getElem?_zip_eq_some]
      exact ⟨List.getElem?_eq_getElem hlt, List.getElem?_eq_getElem hlt'⟩
    rw [List.getElem?_eq_getElem hlt, List.getElem?_eq_getElem hlt']
    exact congrArg some (hpairs _ hpair hi)
  · have hle := Nat.le_of_not_lt hlt
    rw [List.getElem?_eq_none hle, List.getElem?_eq_none (hlength ▸ hle)]

/-- The bytes of a text. -/
def bytesOf (cs : List Char) : Bytes := (cs.map byteOf).toArray

theorem word64_twins {i : Nat} (hword : 8 ≤ i % 64) (hend : i % 64 + 8 ≤ 64) :
    (bytesOf wrapperTwin).word64 i = (bytesOf scalarTwin).word64 i := by
  refine Bytes.word64_congr fun j hj => ?_
  simp only [Bytes.at, bytesOf, Array.getD_eq_getD_getElem?, List.getElem?_toArray,
    List.getElem?_map, getElem?_twins (by omega : 8 ≤ (i + j) % 64)]

/-- **A wrapper and a scalar have one hash.** -/
theorem xxh3_twins : xxh3 (bytesOf wrapperTwin) = xxh3 (bytesOf scalarTwin) := by
  have hsize : (bytesOf wrapperTwin).size = 256 := by decide +kernel
  have hsize' : (bytesOf scalarTwin).size = 256 := by decide +kernel
  have hlong : hashLong (bytesOf wrapperTwin) = hashLong (bytesOf scalarTwin) := by
    refine hashLong_eq_of_gains (hsize.trans hsize'.symm) (by omega) (by omega) fun n => ?_
    rw [hsize]
    by_cases hn : n = 0 ∨ n = 1
    · -- what the other words add makes up for the first one
      rcases hn with rfl | rfl
      · decide +kernel
      · decide +kernel
    · have hlanes : ∀ n : Fin 8, ¬ (n = 0 ∨ n = 1) →
          0 < n.val ∧ 0 < neighbour n ∧ n.val < 8 ∧ neighbour n < 8 := by decide
      obtain ⟨hown, hnext, hlt, hlt'⟩ := hlanes n hn
      have hgain : ∀ s < 4, ∀ k, Lanes.gain (bytesOf wrapperTwin) (64 * s) k n
          = Lanes.gain (bytesOf scalarTwin) (64 * s) k n := fun s hs k =>
        Lanes.gain_congr k (word64_twins (by omega) (by omega))
          (word64_twins (by omega) (by omega))
      rw [hgain 0 (by decide) 0, hgain 1 (by decide) 8, hgain 2 (by decide) 16,
        hgain 3 (by decide) 121]
  have hclass : ∀ b : Bytes, b.size = 256 → xxh3 b = hashLong b := by
    intro b hb
    simp [xxh3, hb]
  rw [hclass _ hsize, hclass _ hsize', hlong]

end SchemaGraph.Hash
