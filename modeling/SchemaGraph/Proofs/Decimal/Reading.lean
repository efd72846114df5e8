/-
**A written number reads back.**

A written number is read by cutting it at the exponent sign and at the point.  Both notations denote
the digits times the power of ten that they were written from, so the text of a finite number
denotes a decimal that rounds to it, and two finite numbers with one text are the same bits.

Main definitions:

* `cut` — a text before and after a character;
* `reading` — the number that a text denotes;
* `isNumeric`, `Marked` — the characters of a written number, and what they are written to.

Main results:

* `reading_write` — both notations denote the digits at their place;
* `Binary64.attracts_reading` — the text of a magnitude denotes a number that rounds to it;
* `Binary64.written_inj` — **finite numbers with one text are the same bits**;
* `Binary64.marked_written` — a finite number is written with numeric characters, a point or an
  exponent sign among them.
-/

import Mathlib.Data.List.TakeWhile
import Mathlib.Tactic.Ring
import SchemaGraph.Decimal.Written
import SchemaGraph.Proofs.Decimal.Interval

set_option autoImplicit false

namespace SchemaGraph.Decimal

/-! ### Reading -/

/-- A text before and after the first of a character. -/
def cut (c : Char) (text : List Char) : List Char × List Char :=
  (text.takeWhile (· ≠ c), (text.dropWhile (· ≠ c)).tail)

theorem forall_ne_of_not_mem {c : Char} {l : List Char} (h : c ∉ l) :
    ∀ d ∈ l, decide (d ≠ c) = true := by
  intro d hd
  rw [decide_eq_true_eq]
  rintro rfl
  exact h hd

theorem cut_of_not_mem {c : Char} {l : List Char} (h : c ∉ l) : cut c l = (l, []) := by
  have hall := forall_ne_of_not_mem h
  rw [cut, List.takeWhile_eq_self_iff.2 hall, List.dropWhile_eq_nil_iff.2 hall]
  rfl

theorem cut_append {c : Char} {l : List Char} (h : c ∉ l) (r : List Char) :
    cut c (l ++ c :: r) = (l, r) := by
  have hall := forall_ne_of_not_mem h
  rw [cut, List.takeWhile_append_of_pos hall, List.dropWhile_append_of_pos hall]
  simp

/-- The value of decimal digits. -/
abbrev digitsValue (digits : List Char) : Nat := Nat.ofDigitChars 10 digits 0

theorem digitsValue_append (l r : List Char) :
    digitsValue (l ++ r) = digitsValue l * 10 ^ r.length + digitsValue r := by
  rw [digitsValue, Nat.ofDigitChars_append, Nat.ofDigitChars_eq_ofDigitChars_zero, Nat.mul_comm]

theorem digitsValue_zeros (n : Nat) : digitsValue (List.replicate n '0') = 0 := by
  rw [digitsValue, Nat.ofDigitChars_replicate_zero, Nat.mul_zero]

/-- The number that an exponent denotes. -/
def readingExponent (text : List Char) : ℤ :=
  if text.head? = some '-' then -(digitsValue text.tail : ℤ) else digitsValue text

/-- The number that a text denotes. -/
def reading (text : List Char) : ℚ :=
  let parts := cut 'e' text
  let digits := cut '.' parts.1
  digitsValue (digits.1 ++ digits.2) * 10 ^ (readingExponent parts.2 - digits.2.length)

theorem isDigit_of_mem_toDigits {c : Char} {n : Nat} (h : c ∈ Nat.toDigits 10 n) :
    c.isDigit = true :=
  Nat.isDigit_of_mem_toDigits (by decide) (by decide) h

theorem readingExponent_toString (n : ℤ) : readingExponent (toString n).toList = n := by
  rw [Int.toString_eq_repr, Int.repr_eq_if]
  split
  · rename_i hn
    have hhead : (Nat.toDigits 10 n.toNat).head? ≠ some '-' := by
      intro h
      have hd := isDigit_of_mem_toDigits (List.mem_of_mem_head? h)
      exact absurd hd (by decide)
    rw [Nat.toList_repr, readingExponent, if_neg hhead, digitsValue, Nat.ofDigitChars_ten_toDigits,
      Int.toNat_of_nonneg hn]
  · rw [String.toList_append, Nat.toList_repr, readingExponent]
    simp only [String.reduceToList, List.cons_append, List.nil_append, List.head?_cons, if_true,
      List.tail_cons, Nat.ofDigitChars_ten_toDigits]
    omega

theorem reading_eq {text mantissa exponent whole fraction : List Char}
    (he : cut 'e' text = (mantissa, exponent)) (hp : cut '.' mantissa = (whole, fraction)) :
    reading text = digitsValue (whole ++ fraction)
      * 10 ^ (readingExponent exponent - fraction.length) := by
  simp only [reading, he, hp]

/-! ### Both notations -/

theorem not_mem_of_isDigit {c : Char} {l : List Char} (hl : ∀ d ∈ l, d.isDigit = true)
    (hc : c.isDigit = false) : c ∉ l := by
  intro h
  rw [hl c h] at hc
  exact Bool.noConfusion hc

theorem isDigit_of_mem_replicate {n : Nat} {d : Char} (h : d ∈ List.replicate n '0') :
    d.isDigit = true := by
  rw [(List.mem_replicate.1 h).2]
  rfl

theorem isDigit_of_mem_zero : ∀ d ∈ ['0'], d.isDigit = true := by
  intro d h
  rw [List.mem_singleton.1 h]
  rfl

theorem e_not_mem_point {whole fraction : List Char} (hw : ∀ d ∈ whole, d.isDigit = true)
    (hf : ∀ d ∈ fraction, d.isDigit = true) : 'e' ∉ whole ++ '.' :: fraction := by
  rw [List.mem_append, List.mem_cons, not_or, not_or]
  exact ⟨not_mem_of_isDigit hw rfl, by decide, not_mem_of_isDigit hf rfl⟩

/-- Digits before and after a point denote all the digits, moved by those after the point. -/
theorem reading_point {whole fraction : List Char} (hw : ∀ d ∈ whole, d.isDigit = true)
    (hf : ∀ d ∈ fraction, d.isDigit = true) :
    reading (whole ++ '.' :: fraction)
      = digitsValue (whole ++ fraction) * 10 ^ (-(fraction.length : ℤ)) := by
  rw [reading_eq (cut_of_not_mem (e_not_mem_point hw hf))
    (cut_append (not_mem_of_isDigit hw rfl) _)]
  have hexp : readingExponent [] = 0 := rfl
  rw [hexp, zero_sub]

theorem reading_positional {digits : List Char} (hd : ∀ d ∈ digits, d.isDigit = true) (point : ℤ) :
    reading (positional digits point) = digitsValue digits * 10 ^ (point - digits.length) := by
  unfold positional
  split
  · -- the point stands before the digits
    rename_i hpoint
    have hf : ∀ d ∈ List.replicate (-point).toNat '0' ++ digits, d.isDigit = true := by
      intro d h
      rcases List.mem_append.1 h with h | h
      · exact isDigit_of_mem_replicate h
      · exact hd d h
    have hz : digitsValue ('0' :: (List.replicate (-point).toNat '0' ++ digits))
        = digitsValue digits := by
      rw [← List.cons_append, ← List.replicate_succ, digitsValue_append, digitsValue_zeros,
        Nat.zero_mul, Nat.zero_add]
    have hread := reading_point isDigit_of_mem_zero hf
    rw [List.singleton_append, List.singleton_append] at hread
    rw [hread, hz, List.length_append, List.length_replicate]
    congr 2
    push_cast
    omega
  · split
    · -- the point stands after the digits
      rename_i hpoint hlen
      have hw : ∀ d ∈ digits ++ List.replicate (point.toNat - digits.length) '0',
          d.isDigit = true := by
        intro d h
        rcases List.mem_append.1 h with h | h
        · exact hd d h
        · exact isDigit_of_mem_replicate h
      have hread := reading_point hw isDigit_of_mem_zero
      have hz : digitsValue ['0'] = 0 := rfl
      rw [hread, digitsValue_append, digitsValue_append, digitsValue_zeros, hz,
        List.length_replicate]
      have hexp : point - digits.length = ((point.toNat - digits.length : ℕ) : ℤ) := by omega
      rw [hexp, zpow_natCast]
      push_cast
      norm_num
      ring
    · -- the point stands between the digits
      rename_i hpoint hlen
      have hw : ∀ d ∈ digits.take point.toNat, d.isDigit = true :=
        fun d h => hd d (List.mem_of_mem_take h)
      have hf : ∀ d ∈ digits.drop point.toNat, d.isDigit = true :=
        fun d h => hd d (List.mem_of_mem_drop h)
      rw [reading_point hw hf, List.take_append_drop, List.length_drop]
      congr 2
      omega

theorem reading_withExponent {digits : List Char} (hd : ∀ d ∈ digits, d.isDigit = true)
    (hne : digits ≠ []) (point : ℤ) :
    reading (withExponent digits point) = digitsValue digits * 10 ^ (point - digits.length) := by
  obtain ⟨a, rest, rfl⟩ := List.exists_cons_of_ne_nil hne
  have ha : ∀ d ∈ [a], d.isDigit = true := fun d h => hd d (by simp_all)
  have hrest : ∀ d ∈ rest, d.isDigit = true := fun d h => hd d (List.mem_cons_of_mem _ h)
  cases rest with
  | nil =>
      have htext : withExponent [a] point = [a] ++ 'e' :: (toString (point - 1)).toList := rfl
      rw [htext, reading_eq (cut_append (not_mem_of_isDigit ha rfl) _)
        (cut_of_not_mem (not_mem_of_isDigit ha rfl)), readingExponent_toString]
      simp
  | cons b rest =>
      have htext : withExponent (a :: b :: rest) point
          = ([a] ++ '.' :: (b :: rest)) ++ 'e' :: (toString (point - 1)).toList := by
        simp [withExponent]
      rw [htext, reading_eq (cut_append (e_not_mem_point ha hrest) _)
        (cut_append (not_mem_of_isDigit ha rfl) _),
        readingExponent_toString]
      congr 2
      simp only [List.length_cons]
      push_cast
      ring

/-- **Both notations denote the digits at their place.** -/
theorem reading_write (l : Layout) {digits : List Char} (hd : ∀ d ∈ digits, d.isDigit = true)
    (hne : digits ≠ []) (point : ℤ) :
    reading (l.write digits point) = digitsValue digits * 10 ^ (point - digits.length) := by
  unfold Layout.write
  split
  · exact reading_positional hd point
  · exact reading_withExponent hd hne point

/-! ### The text of a magnitude -/

/-- Only zeros are left out, and at the end. -/
theorem exists_zeros (digits : List Char) :
    ∃ k, digits = significantDigits digits ++ List.replicate k '0' := by
  have hzero : ∀ d ∈ digits.reverse.takeWhile (· = '0'), d = '0' := by
    intro d hd
    simpa using List.mem_takeWhile_imp hd
  have hsplit : digits
      = significantDigits digits ++ (digits.reverse.takeWhile (· = '0')).reverse := by
    rw [significantDigits, ← List.reverse_append, List.takeWhile_append_dropWhile,
      List.reverse_reverse]
  refine ⟨(digits.reverse.takeWhile (· = '0')).length, ?_⟩
  rw [List.eq_replicate_of_mem hzero, List.reverse_replicate] at hsplit
  exact hsplit

namespace Binary64

theorem isZero_iff (x : Binary64) : x.isZero = true ↔ x.rank = 0 := by
  rw [isZero, decide_eq_true_eq, exponentField_eq, fraction_eq]
  omega

/-- Zero rounds to itself, and to nothing else. -/
theorem attracts_zero_iff (x : Binary64) : x.Attracts 0 ↔ x.rank = 0 := by
  have hzero : ∀ y : Binary64, y.rank = 0 → y.Attracts 0 := by
    intro y hy
    have heven : y.significand % 2 = 0 := by rw [significand_mod_two, hy]
    rw [Attracts, if_pos heven, zero_mul, lowerEnd_eq, if_pos hy]
    exact ⟨by norm_num, by positivity⟩
  constructor
  · intro hx
    have hr := rank_eq_of_attracts hx (hzero ⟨0⟩ rfl)
    rw [hr]
    rfl
  · exact hzero x

/-- The selected decimal is written with digits, and at least one of them counts. -/
theorem significantDigits_shortest {x : Binary64} (hx : x.rank ≠ 0) :
    (∀ d ∈ significantDigits (Nat.toDigits 10 x.shortest.digits), d.isDigit = true) ∧
      significantDigits (Nat.toDigits 10 x.shortest.digits) ≠ [] := by
  obtain ⟨k, hk⟩ := exists_zeros (Nat.toDigits 10 x.shortest.digits)
  constructor
  · intro d hd
    refine isDigit_of_mem_toDigits (n := x.shortest.digits) ?_
    rw [hk]
    exact List.mem_append_left _ hd
  · intro hnil
    have hdigits : digitsValue (Nat.toDigits 10 x.shortest.digits) = x.shortest.digits :=
      Nat.ofDigitChars_ten_toDigits
    rw [hk, hnil, List.nil_append, digitsValue_zeros] at hdigits
    have hvalue : x.shortest.value = 0 := by
      rw [Numeral.value, ← hdigits, Nat.cast_zero, zero_mul]
    have hattracts := attracts_shortest x
    rw [hvalue, attracts_zero_iff] at hattracts
    exact hx hattracts

/-- **The text of a magnitude denotes a number that rounds to it.** -/
theorem attracts_reading (x : Binary64) : x.Attracts (reading x.writtenMagnitude) := by
  by_cases hx : x.rank = 0
  · have hread : reading ['0', '.', '0'] = 0 := by
      have h := reading_point isDigit_of_mem_zero isDigit_of_mem_zero
      have hz : digitsValue (['0'] ++ ['0']) = 0 := rfl
      rw [hz, Nat.cast_zero, zero_mul] at h
      exact h
    rw [writtenMagnitude, if_pos ((isZero_iff x).2 hx), hread, attracts_zero_iff]
    exact hx
  · obtain ⟨hd, hne⟩ := significantDigits_shortest hx
    obtain ⟨k, hk⟩ := exists_zeros (Nat.toDigits 10 x.shortest.digits)
    have hz : ¬ x.isZero = true := fun h => hx ((isZero_iff x).1 h)
    rw [writtenMagnitude, if_neg hz]
    simp only [reading_write _ hd hne]
    -- the zeros that are left out are made up for by the place of the point
    have hlen := congrArg List.length hk
    rw [List.length_append, List.length_replicate] at hlen
    have hvalue : x.shortest.digits
        = digitsValue (significantDigits (Nat.toDigits 10 x.shortest.digits)) * 10 ^ k := by
      have h : digitsValue (Nat.toDigits 10 x.shortest.digits) = x.shortest.digits :=
        Nat.ofDigitChars_ten_toDigits
      rw [← h]
      conv_lhs => rw [hk]
      rw [digitsValue_append, digitsValue_zeros, List.length_replicate, Nat.add_zero, h]
    have hshortest := attracts_shortest x
    rw [Numeral.value, hvalue] at hshortest
    refine Eq.mp (congrArg x.Attracts ?_) hshortest
    rw [hlen]
    push_cast
    rw [mul_assoc, ← zpow_natCast, ← zpow_add₀ (by norm_num : (10 : ℚ) ≠ 0)]
    congr 2
    ring

end Binary64

/-! ### The characters of a written number -/

/-- A character of written numbers. -/
def isNumeric (c : Char) : Bool := c.isDigit || c = '.' || c = 'e' || c = '-'

theorem isNumeric_of_isDigit {c : Char} (h : c.isDigit = true) : isNumeric c = true := by
  simp [isNumeric, h]

/-- An integer is written with digits, perhaps after a minus sign. -/
theorem mem_toString_int {n : ℤ} {c : Char} (h : c ∈ (toString n).toList) :
    c.isDigit = true ∨ c = '-' := by
  rw [Int.toString_eq_repr, Int.repr_eq_if] at h
  split at h
  · rw [Nat.toList_repr] at h
    exact Or.inl (isDigit_of_mem_toDigits h)
  · rw [String.toList_append, Nat.toList_repr, List.mem_append] at h
    rcases h with h | h
    · exact Or.inr (by simpa using h)
    · exact Or.inl (isDigit_of_mem_toDigits h)

/-- A text starts with a digit, consists of numeric characters, and has a point or an exponent. -/
structure Marked (text : List Char) : Prop where
  head : ∃ d rest, text = d :: rest ∧ d.isDigit = true
  numeric : ∀ c ∈ text, isNumeric c = true
  mark : '.' ∈ text ∨ 'e' ∈ text

/-- Digits around a point. -/
theorem marked_point {whole fraction : List Char} (hne : whole ≠ [])
    (hw : ∀ d ∈ whole, d.isDigit = true) (hf : ∀ d ∈ fraction, d.isDigit = true) :
    Marked (whole ++ '.' :: fraction) := by
  obtain ⟨a, rest, rfl⟩ := List.exists_cons_of_ne_nil hne
  refine ⟨⟨a, _, rfl, hw a List.mem_cons_self⟩, fun c hc => ?_, Or.inl (by simp)⟩
  rcases List.mem_append.1 hc with hc | hc
  · exact isNumeric_of_isDigit (hw c hc)
  · rcases List.mem_cons.1 hc with rfl | hc
    · rfl
    · exact isNumeric_of_isDigit (hf c hc)

theorem marked_positional {digits : List Char} (hd : ∀ d ∈ digits, d.isDigit = true)
    (hne : digits ≠ []) (point : ℤ) : Marked (positional digits point) := by
  have hzeros : ∀ n : ℕ, ∀ d ∈ List.replicate n '0', d.isDigit = true :=
    fun n d h => isDigit_of_mem_replicate h
  unfold positional
  split
  · refine marked_point (List.cons_ne_nil _ _) isDigit_of_mem_zero fun d h => ?_
    rcases List.mem_append.1 h with h | h
    · exact hzeros _ d h
    · exact hd d h
  · split
    · refine marked_point ?_ (fun d h => ?_) isDigit_of_mem_zero
      · simp [hne]
      · rcases List.mem_append.1 h with h | h
        · exact hd d h
        · exact hzeros _ d h
    · rename_i hpoint hlen
      refine marked_point ?_ (fun d h => hd d (List.mem_of_mem_take h))
        fun d h => hd d (List.mem_of_mem_drop h)
      rw [Ne, List.take_eq_nil_iff, not_or]
      exact ⟨by omega, hne⟩

theorem marked_withExponent {digits : List Char} (hd : ∀ d ∈ digits, d.isDigit = true)
    (hne : digits ≠ []) (point : ℤ) : Marked (withExponent digits point) := by
  obtain ⟨a, rest, rfl⟩ := List.exists_cons_of_ne_nil hne
  have hexp : ∀ c ∈ (toString (point - 1)).toList, isNumeric c = true := by
    intro c hc
    rcases mem_toString_int hc with h | rfl
    · exact isNumeric_of_isDigit h
    · rfl
  refine ⟨⟨a, _, rfl, hd a List.mem_cons_self⟩, fun c hc => ?_, Or.inr (by simp [withExponent])⟩
  simp only [withExponent, List.mem_append, List.mem_cons] at hc
  rcases hc with (hc | hc) | rfl | hc
  · exact isNumeric_of_isDigit (hd c (List.mem_of_mem_take hc))
  · split at hc
    · simp at hc
    · rcases List.mem_cons.1 hc with rfl | hc
      · rfl
      · exact isNumeric_of_isDigit (hd c (List.mem_of_mem_drop hc))
  · rfl
  · exact hexp c hc

namespace Binary64

theorem marked_writtenMagnitude (x : Binary64) : Marked x.writtenMagnitude := by
  unfold writtenMagnitude
  split
  · exact marked_point (by decide) isDigit_of_mem_zero isDigit_of_mem_zero
  · rename_i hz
    obtain ⟨hd, hne⟩ := significantDigits_shortest fun h => hz ((isZero_iff x).2 h)
    simp only [Layout.write]
    split
    · exact marked_positional hd hne _
    · exact marked_withExponent hd hne _

/-! ### The text of a number -/

theorem toList_written {x : Binary64} (hx : x.isFinite = true) :
    x.written.toList = (if x.negative then ['-'] else []) ++ x.writtenMagnitude := by
  have hnan : x.isNaN = false := by
    rw [isNaN, decide_eq_false_iff_not]
    intro h
    simp [isFinite, h.1] at hx
  rw [written, hnan, if_neg Bool.false_ne_true, hx, if_pos rfl, String.toList_ofList]
  split <;> rfl

/-- **Finite numbers with one text are the same bits.** -/
theorem written_inj {x y : Binary64} (hx : x.isFinite = true) (hy : y.isFinite = true)
    (h : x.written = y.written) : x = y := by
  have htext := congrArg String.toList h
  rw [toList_written hx, toList_written hy] at htext
  -- a magnitude does not start with a sign
  have hsign : ∀ z w : Binary64, '-' :: z.writtenMagnitude ≠ w.writtenMagnitude := by
    intro z w hzw
    obtain ⟨d, rest, hd, hdigit⟩ := (marked_writtenMagnitude w).head
    rw [hd] at hzw
    obtain ⟨rfl, -⟩ := List.cons.inj hzw
    exact absurd hdigit (by decide)
  have hparts : x.negative = y.negative ∧ x.writtenMagnitude = y.writtenMagnitude := by
    cases hnx : x.negative <;> cases hny : y.negative <;>
      simp only [hnx, hny, Bool.false_eq_true, if_false, if_true, List.nil_append,
        List.cons_append] at htext
    · exact ⟨rfl, htext⟩
    · exact absurd htext.symm (hsign y x)
    · exact absurd htext (hsign x y)
    · exact ⟨rfl, (List.cons.inj htext).2⟩
  have hy' := attracts_reading y
  rw [← hparts.2] at hy'
  exact eq_of_rank hparts.1 (rank_eq_of_attracts (attracts_reading x) hy')

/-- A finite number is written with numeric characters, and not as an integer is. -/
theorem marked_written {x : Binary64} (hx : x.isFinite = true) :
    (∀ c ∈ x.written.toList, isNumeric c = true) ∧
      ('.' ∈ x.written.toList ∨ 'e' ∈ x.written.toList) := by
  obtain ⟨-, hnumeric, hmark⟩ := marked_writtenMagnitude x
  rw [toList_written hx]
  constructor
  · intro c hc
    rcases List.mem_append.1 hc with hc | hc
    · split at hc
      · rw [List.mem_singleton.1 hc]
        rfl
      · simp at hc
    · exact hnumeric c hc
  · exact hmark.imp (List.mem_append_right _) (List.mem_append_right _)

end Binary64

end SchemaGraph.Decimal
