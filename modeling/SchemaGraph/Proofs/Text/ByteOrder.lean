/-
**The order of texts is the order of their bytes.**

Texts are compared character by character, whereas their encoding is compared byte by byte.  Both
orders are the same, since a character of greater number is encoded by a byte string that is greater
at the first byte where the two differ: more bytes begin with a greater leading byte, and as many
bytes hold the number six bits at a time, from the highest bits down.

Main definitions:

* `bytes` — the bytes of a text;
* `Below` — of two byte strings the first has the smaller byte where they first differ;
* `spread` — a number as a leading byte and bytes of six bits each;
* `width`, `lead` — how many bytes follow the leading byte of a character, and the leading byte.

Main results:

* `below_spread` — the encoding of as many bytes keeps the order of numbers;
* `lead_lt_of_width_ne` — a greater number of more bytes has the greater leading byte;
* `below_encode` — a greater character has the greater encoding, whatever follows;
* `bytes_lt_iff` — **a text comes before another exactly when its bytes do**.
-/

import Mathlib.Data.String.Basic

set_option autoImplicit false

namespace SchemaGraph.Text

/-! ### Byte strings -/

/-- The bytes of a text. -/
def bytes (s : String) : List UInt8 := s.toUTF8.data.toList

theorem bytes_eq_flatMap (s : String) : bytes s = s.toList.flatMap String.utf8EncodeChar := by
  conv_lhs => rw [← s.ofList_toList]
  rw [bytes, String.toUTF8, String.toByteArray_ofList, List.utf8Encode, List.data_toByteArray]

/-- Where the byte strings first differ, the first has the smaller byte. -/
def Below (l m : List UInt8) : Prop :=
  ∃ (p : List UInt8) (x y : UInt8) (l' m' : List UInt8),
    l = p ++ x :: l' ∧ m = p ++ y :: m' ∧ x < y

theorem below_cons {x y : UInt8} (h : x < y) (l m : List UInt8) : Below (x :: l) (y :: m) :=
  ⟨[], x, y, l, m, rfl, rfl, h⟩

theorem Below.append {l m : List UInt8} (h : Below l m) (r r' : List UInt8) :
    Below (l ++ r) (m ++ r') := by
  obtain ⟨p, x, y, l', m', rfl, rfl, hxy⟩ := h
  exact ⟨p, x, y, l' ++ r, m' ++ r', by simp, by simp, hxy⟩

theorem Below.prepend {l m : List UInt8} (h : Below l m) (p : List UInt8) :
    Below (p ++ l) (p ++ m) := by
  obtain ⟨q, x, y, l', m', rfl, rfl, hxy⟩ := h
  exact ⟨p ++ q, x, y, l', m', by simp, by simp, hxy⟩

theorem Below.lt {l m : List UInt8} (h : Below l m) : l < m := by
  obtain ⟨p, x, y, l', m', rfl, rfl, hxy⟩ := h
  exact List.append_left_lt (List.Lex.rel hxy)

theorem ofNat_lt_ofNat {m n : Nat} (h : m < n) (hn : n < 256) : UInt8.ofNat m < UInt8.ofNat n := by
  rw [UInt8.lt_iff_toNat_lt, UInt8.toNat_ofNat', UInt8.toNat_ofNat', Nat.mod_eq_of_lt hn,
    Nat.mod_eq_of_lt (Nat.lt_trans h hn)]
  exact h

/-! ### Numbers of six bits a byte -/

/-- A number as a leading byte and so many bytes that hold six bits each, the lowest in the last. -/
def spread (mark : Nat) : Nat → Nat → List UInt8
  | 0, v => [UInt8.ofNat (mark + v)]
  | k + 1, v => spread mark k (v / 64) ++ [UInt8.ofNat (128 + v % 64)]

/-- The leading byte holds what is left of the number. -/
theorem spread_eq_cons (mark k v : Nat) :
    ∃ l, spread mark k v = UInt8.ofNat (mark + v / 64 ^ k) :: l := by
  induction k generalizing v with
  | zero => exact ⟨[], by simp [spread]⟩
  | succ k ih =>
      obtain ⟨l, hl⟩ := ih (v / 64)
      refine ⟨l ++ [UInt8.ofNat (128 + v % 64)], ?_⟩
      rw [spread, hl, Nat.div_div_eq_div_mul, Nat.pow_succ', List.cons_append]

/-- Of numbers that are spread over as many bytes, the greater one has the greater byte string. -/
theorem below_spread {mark k v w : Nat} (h : v < w) (hw : mark + w / 64 ^ k < 256) :
    Below (spread mark k v) (spread mark k w) := by
  induction k generalizing v w with
  | zero =>
      rw [Nat.pow_zero, Nat.div_one] at hw
      exact below_cons (ofNat_lt_ofNat (Nat.add_lt_add_left h mark) hw) [] []
  | succ k ih =>
      -- either the higher bits differ already, or the last byte tells
      rcases Nat.lt_or_eq_of_le (Nat.div_le_div_right (c := 64) (Nat.le_of_lt h)) with hlt | heq
      · rw [Nat.pow_succ', ← Nat.div_div_eq_div_mul] at hw
        exact (ih hlt hw).append _ _
      · have hlast : 128 + v % 64 < 128 + w % 64 := by omega
        rw [spread, spread, heq]
        exact (below_cons (ofNat_lt_ofNat hlast (by omega)) [] []).prepend _

/-! ### Characters -/

/-- How many bytes follow the leading byte of the character of that number. -/
def width (v : Nat) : Nat :=
  if v ≤ 0x7f then 0 else if v ≤ 0x7ff then 1 else if v ≤ 0xffff then 2 else 3

/-- What marks a leading byte that so many bytes follow. -/
def mark : Nat → Nat
  | 0 => 0
  | 1 => 0xc0
  | 2 => 0xe0
  | _ => 0xf0

/-- The leading byte of the character of that number. -/
def lead (v : Nat) : Nat := mark (width v) + v / 64 ^ width v

theorem lead_lt {v : Nat} (h : v < 0x200000) : lead v < 256 := by
  unfold lead width
  split_ifs <;> simp only [mark] <;> omega

/-- A number of more bytes has the greater leading byte. -/
theorem lead_lt_of_width_ne {v w : Nat} (h : v < w) (hne : width v ≠ width w) :
    lead v < lead w := by
  unfold lead width at *
  split_ifs at * <;> simp only [mark] <;> omega

theorem toNat_lt (c : Char) : c.toNat < 0x200000 := by
  rcases c.valid with h | ⟨-, h⟩
  · exact Nat.lt_trans h (by decide)
  · exact Nat.lt_trans h (by decide)

/-- A character is encoded by its number, spread over as many bytes as that takes. -/
theorem encode_eq_spread (c : Char) :
    String.utf8EncodeChar c = spread (mark (width c.toNat)) (width c.toNat) c.toNat := by
  have hc := toNat_lt c
  simp only [String.utf8EncodeChar, width, Char.toNat_val]
  -- the encoding takes remainders where the number is too small for them to matter
  split_ifs <;> simp (disch := omega) only [mark, spread, Nat.div_div_eq_div_mul, Nat.reduceMul,
    Nat.mod_eq_of_lt, Nat.add_comm, Nat.add_zero, List.cons_append, List.nil_append]

/-- The greater character has the greater encoding, whatever follows. -/
theorem below_encode {c d : Char} (h : c < d) :
    Below (String.utf8EncodeChar c) (String.utf8EncodeChar d) := by
  have hcd : c.toNat < d.toNat := h
  rw [encode_eq_spread, encode_eq_spread]
  by_cases hw : width c.toNat = width d.toNat
  · rw [hw]
    exact below_spread hcd (lead_lt (toNat_lt d))
  · obtain ⟨l, hl⟩ := spread_eq_cons (mark (width c.toNat)) (width c.toNat) c.toNat
    obtain ⟨m, hm⟩ := spread_eq_cons (mark (width d.toNat)) (width d.toNat) d.toNat
    rw [hl, hm]
    exact below_cons (ofNat_lt_ofNat (lead_lt_of_width_ne hcd hw) (lead_lt (toNat_lt d))) l m

/-! ### Texts -/

theorem flatMap_encode_lt {cs ds : List Char} (h : cs < ds) :
    cs.flatMap String.utf8EncodeChar < ds.flatMap String.utf8EncodeChar := by
  induction h with
  | @nil d ds =>
      obtain ⟨m, hm⟩ := spread_eq_cons (mark (width d.toNat)) (width d.toNat) d.toNat
      rw [List.flatMap_cons, encode_eq_spread, hm]
      exact List.Lex.nil
  | @cons c cs ds _ ih =>
      rw [List.flatMap_cons, List.flatMap_cons]
      exact List.append_left_lt ih
  | @rel c cs d ds hcd =>
      rw [List.flatMap_cons, List.flatMap_cons]
      exact ((below_encode hcd).append _ _).lt

theorem bytes_lt_of_lt {s t : String} (h : s < t) : bytes s < bytes t := by
  rw [bytes_eq_flatMap, bytes_eq_flatMap]
  exact flatMap_encode_lt h

/-- **A text comes before another exactly when its bytes do.** -/
theorem bytes_lt_iff {s t : String} : bytes s < bytes t ↔ s < t := by
  refine ⟨fun h => ?_, bytes_lt_of_lt⟩
  rcases lt_trichotomy s t with hst | rfl | hts
  · exact hst
  · exact absurd h (List.lt_irrefl _)
  · exact absurd h (List.lt_asymm (bytes_lt_of_lt hts))

end SchemaGraph.Text
