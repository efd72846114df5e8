/-
**A decimal rounds to one magnitude.**

The magnitudes are numbered from zero up, and between two neighbours there is a midpoint.  The
interval that rounds to a magnitude reaches from the midpoint below to the midpoint above; a
midpoint belongs to the neighbour with the even significand, and of two neighbours exactly one has
that.  So no number rounds to two magnitudes.

Main definitions:

* `Binary64.rank` — the number of a magnitude;
* `midpoint` — the midpoint between a magnitude and the next;
* `Binary64.Attracts` — a number rounds to a magnitude.

Main results:

* `Binary64.upperEnd_eq`, `Binary64.lowerEnd_eq` — the interval of a magnitude lies between
  midpoints;
* `Binary64.rank_eq_of_attracts` — **a number rounds to one magnitude at most**;
* `Binary64.attracts_shortest` — the selected decimal rounds to the magnitude;
* `Binary64.eq_of_rank` — magnitude and sign determine the bits.
-/

import Mathlib.Algebra.Order.Field.Rat
import Mathlib.Algebra.Order.Field.Power
import Mathlib.Order.Monotone.Basic
import Mathlib.Tactic.Linarith
import Mathlib.Tactic.Positivity
import Mathlib.Tactic.FieldSimp
import Mathlib.Tactic.NormNum
import SchemaGraph.Decimal.Shortest

set_option autoImplicit false

namespace SchemaGraph.Decimal

/-! ### Midpoints -/

/-- The significand of the magnitude of a rank. -/
def significandAt (m : Nat) : Nat :=
  if m / 2 ^ 52 = 0 then m % 2 ^ 52 else 2 ^ 52 + m % 2 ^ 52

/-- The midpoint between the magnitude of a rank and the next, in units of `2 ^ -1076`. -/
def midpoint (m : Nat) : Nat := (4 * significandAt m + 2) * 2 ^ (m / 2 ^ 52 - 1)

/-- The next magnitude has the next significand or, after the last one, the next exponent. -/
theorem succ_cases (m : Nat) :
    ((m + 1) / 2 ^ 52 = m / 2 ^ 52 ∧ significandAt (m + 1) = significandAt m + 1) ∨
    (m % 2 ^ 52 = 2 ^ 52 - 1 ∧ (m + 1) % 2 ^ 52 = 0 ∧ (m + 1) / 2 ^ 52 = m / 2 ^ 52 + 1 ∧
      significandAt (m + 1) = 2 ^ 52) := by
  by_cases hlast : m % 2 ^ 52 = 2 ^ 52 - 1
  · have hdiv : (m + 1) / 2 ^ 52 = m / 2 ^ 52 + 1 := by omega
    have hmod : (m + 1) % 2 ^ 52 = 0 := by omega
    refine Or.inr ⟨hlast, hmod, hdiv, ?_⟩
    rw [significandAt, hdiv, hmod, if_neg (Nat.succ_ne_zero _), Nat.add_zero]
  · have hdiv : (m + 1) / 2 ^ 52 = m / 2 ^ 52 := by omega
    have hmod : (m + 1) % 2 ^ 52 = m % 2 ^ 52 + 1 := by omega
    refine Or.inl ⟨hdiv, ?_⟩
    rw [significandAt, significandAt, hdiv, hmod]
    split
    · rfl
    · rfl

theorem midpoint_lt_succ (m : Nat) : midpoint m < midpoint (m + 1) := by
  have hpos : 0 < 2 ^ (m / 2 ^ 52 - 1) := Nat.pow_pos (by decide)
  rcases succ_cases m with ⟨hdiv, hsig⟩ | ⟨hlast, -, hdiv, hsig⟩
  · rw [midpoint, midpoint, hdiv, hsig]
    exact Nat.mul_lt_mul_of_pos_right (by omega) hpos
  · rw [midpoint, midpoint, hdiv, hsig, significandAt, hlast, Nat.add_sub_cancel]
    cases he : m / 2 ^ 52 with
    | zero => decide
    | succ e =>
        rw [if_neg (Nat.succ_ne_zero _), Nat.add_sub_cancel, Nat.pow_succ]
        have hpos : 0 < 2 ^ e := Nat.pow_pos (by decide)
        omega

theorem midpoint_strictMono : StrictMono midpoint := strictMono_nat_of_lt_succ midpoint_lt_succ

/-- The value of a decimal. -/
def Numeral.value (d : Numeral) : ℚ := d.digits * 10 ^ d.exponent

theorem Numeral.value_mul (d : Numeral) :
    d.value * 10 ^ (-d.exponent).toNat = d.digits * 10 ^ d.exponent.toNat := by
  unfold value
  cases d.exponent with
  | ofNat n => simp
  | negSucc n =>
      have h10 : (10 : ℚ) ^ (n + 1) ≠ 0 := pow_ne_zero _ (by norm_num)
      rw [zpow_negSucc]
      simp only [Int.toNat_negSucc, Int.neg_negSucc, pow_zero, mul_one, Int.toNat_natCast]
      rw [mul_assoc, inv_mul_cancel₀ h10, mul_one]

namespace Binary64

/-! ### Ranks -/

/-- The number of a magnitude, in increasing order. -/
def rank (x : Binary64) : Nat := x.bits.toNat % 2 ^ 63

theorem exponentField_eq (x : Binary64) : x.exponentField = x.rank / 2 ^ 52 := by
  simp only [exponentField, rank, Nat.pow_eq]
  omega

theorem fraction_eq (x : Binary64) : x.fraction = x.rank % 2 ^ 52 := by
  simp only [fraction, rank, Nat.pow_eq]
  omega

/-- Magnitude and sign determine the bits. -/
theorem eq_of_rank {x y : Binary64} (hs : x.negative = y.negative) (hr : x.rank = y.rank) :
    x = y := by
  obtain ⟨x⟩ := x
  obtain ⟨y⟩ := y
  simp only [negative, rank, Nat.pow_eq, decide_eq_decide] at hs hr
  have hx := x.toNat_lt
  have hy := y.toNat_lt
  rw [mk.injEq, ← UInt64.toNat_inj]
  omega

theorem significand_eq (x : Binary64) : x.significand = significandAt x.rank := by
  rw [significand, significandAt, exponentField_eq, fraction_eq, Nat.pow_eq]

/-- Neighbours differ in the parity of their significands. -/
theorem significand_mod_two (x : Binary64) : x.significand % 2 = x.rank % 2 := by
  rw [significand_eq, significandAt]
  split <;> omega

theorem gap_eq (x : Binary64) : x.gap = 4 * 2 ^ (x.rank / 2 ^ 52 - 1) := by
  rw [gap, exponentField_eq, Nat.pow_eq]

theorem upperEnd_eq (x : Binary64) : x.upperEnd = midpoint x.rank := by
  rw [upperEnd, quarters, gap_eq, significand_eq, midpoint, Nat.add_mul, Nat.mul_left_comm,
    Nat.mul_assoc]
  omega

theorem lowerEnd_eq (x : Binary64) :
    x.lowerEnd = if x.rank = 0 then 0 else midpoint (x.rank - 1) := by
  rw [lowerEnd, quarters, gap_eq, significand_eq, narrowBelow, exponentField_eq, fraction_eq]
  cases hr : x.rank with
  | zero => simp [significandAt]
  | succ m =>
      rw [if_neg (Nat.succ_ne_zero _), Nat.add_sub_cancel, midpoint]
      rcases succ_cases m with ⟨hdiv, hsig⟩ | ⟨hlast, hmod, hdiv, hsig⟩
      · -- within one exponent the gap below is the gap above
        have hnarrow : ¬ ((m + 1) % 2 ^ 52 = 0 ∧ 1 < (m + 1) / 2 ^ 52) := by omega
        rw [decide_eq_false hnarrow, if_neg Bool.false_ne_true, hdiv, hsig, Nat.mul_left_comm,
          Nat.add_mul, Nat.add_mul, Nat.mul_assoc]
        omega
      · rw [hdiv, hmod, hsig, significandAt, hlast, Nat.add_sub_cancel]
        cases he : m / 2 ^ 52 with
        | zero => decide
        | succ e =>
            rw [if_neg (Nat.succ_ne_zero _), Nat.add_sub_cancel, Nat.pow_succ]
            have hnarrow : 0 = 0 ∧ 1 < e + 1 + 1 := ⟨rfl, by omega⟩
            rw [decide_eq_true hnarrow, if_pos rfl]
            omega

/-! ### Rounding -/

/-- A number lies in the interval that rounds to a magnitude.  The ends belong to it exactly when
the significand is even. -/
def Attracts (x : Binary64) (v : ℚ) : Prop :=
  if x.significand % 2 = 0 then x.lowerEnd ≤ v * unitsInOne ∧ v * unitsInOne ≤ x.upperEnd
  else x.lowerEnd < v * unitsInOne ∧ v * unitsInOne < x.upperEnd

theorem Attracts.bounds {x : Binary64} {v : ℚ} (h : x.Attracts v) :
    x.lowerEnd ≤ v * unitsInOne ∧ v * unitsInOne ≤ x.upperEnd := by
  unfold Attracts at h
  split at h
  · exact h
  · exact ⟨h.1.le, h.2.le⟩

theorem attracts_of_readsBack {x : Binary64} {d : Numeral} (h : x.readsBack d = true) :
    x.Attracts d.value := by
  have hpow : (0 : ℚ) < 10 ^ (-d.exponent).toNat := by positivity
  -- both sides of each comparison carry the factor of a negative exponent
  have hvalue : ((d.digits * 10 ^ d.exponent.toNat * unitsInOne : ℕ) : ℚ)
      = d.value * unitsInOne * 10 ^ (-d.exponent).toNat := by
    push_cast
    rw [mul_right_comm d.value, d.value_mul, mul_right_comm]
  have hle : ∀ n : ℕ, n * 10 ^ (-d.exponent).toNat ≤ d.digits * 10 ^ d.exponent.toNat * unitsInOne ↔
      (n : ℚ) ≤ d.value * unitsInOne := by
    intro n
    rw [← Nat.cast_le (α := ℚ), hvalue, Nat.cast_mul, Nat.cast_pow, Nat.cast_ofNat,
      mul_le_mul_iff_left₀ hpow]
  have hge : ∀ n : ℕ, d.digits * 10 ^ d.exponent.toNat * unitsInOne ≤ n * 10 ^ (-d.exponent).toNat ↔
      d.value * unitsInOne ≤ (n : ℚ) := by
    intro n
    rw [← Nat.cast_le (α := ℚ), hvalue, Nat.cast_mul, Nat.cast_pow, Nat.cast_ofNat,
      mul_le_mul_iff_left₀ hpow]
  simp only [readsBack, Nat.pow_eq] at h
  unfold Attracts
  split at h
  · rename_i heven
    rw [if_pos heven]
    rw [decide_eq_true_eq, hle, hge] at h
    exact h
  · rename_i hodd
    rw [if_neg hodd]
    rw [decide_eq_true_eq, ← not_le, ← not_le, hle, hge, not_le, not_le] at h
    exact h

/-- A number does not round to two magnitudes, one below the other. -/
theorem not_attracts_of_rank_lt {x y : Binary64} {v : ℚ} (hr : x.rank < y.rank)
    (hx : x.Attracts v) : ¬ y.Attracts v := by
  intro hy
  have hlow : y.lowerEnd = midpoint (y.rank - 1) := by
    rw [lowerEnd_eq, if_neg (by omega)]
  have hmono : midpoint x.rank ≤ midpoint (y.rank - 1) :=
    midpoint_strictMono.monotone (by omega)
  have hxv := hx.bounds.2
  have hyv := hy.bounds.1
  rw [upperEnd_eq] at hxv
  rw [hlow] at hyv
  -- the number is the one midpoint between neighbours
  have hle : midpoint (y.rank - 1) ≤ midpoint x.rank := by exact_mod_cast hyv.trans hxv
  have hnext : y.rank - 1 = x.rank := midpoint_strictMono.injective (le_antisymm hle hmono)
  have hparity : x.significand % 2 ≠ y.significand % 2 := by
    rw [significand_mod_two, significand_mod_two]
    omega
  unfold Attracts at hx hy
  rw [upperEnd_eq] at hx
  rw [hlow, hnext] at hy
  split at hx <;> split at hy
  · omega
  · exact absurd (hy.1.trans_le hx.2) (lt_irrefl _)
  · exact absurd (hx.2.trans_le hy.1) (lt_irrefl _)
  · omega

/-- **A number rounds to one magnitude at most.** -/
theorem rank_eq_of_attracts {x y : Binary64} {v : ℚ} (hx : x.Attracts v) (hy : y.Attracts v) :
    x.rank = y.rank := by
  rcases lt_trichotomy x.rank y.rank with h | h | h
  · exact absurd hy (not_attracts_of_rank_lt h hx)
  · exact h
  · exact absurd hx (not_attracts_of_rank_lt h hy)

theorem value_exact_mul (x : Binary64) : x.exact.value * unitsInOne = x.quarters := by
  have hexp : (-1076 : ℤ) = -((1076 : ℕ) : ℤ) := rfl
  unfold Numeral.value exact unitsInOne
  simp only [hexp]
  generalize 1076 = n
  have h10 : (10 : ℚ) ^ n ≠ 0 := pow_ne_zero _ (by norm_num)
  have hpow : ((5 : ℚ) ^ n) * 2 ^ n = 10 ^ n := by
    rw [← mul_pow]
    norm_num
  rw [Nat.pow_eq, Nat.pow_eq, Nat.cast_mul, Nat.cast_pow, Nat.cast_pow, Nat.cast_ofNat,
    Nat.cast_ofNat, zpow_neg, zpow_natCast, mul_right_comm, mul_assoc (x.quarters : ℚ), hpow,
    mul_assoc, mul_inv_cancel₀ h10, mul_one]

theorem attracts_exact (x : Binary64) : x.Attracts x.exact.value := by
  have hpos : 0 < 2 ^ (x.rank / 2 ^ 52 - 1) := Nat.pow_pos (by decide)
  have hupper : x.quarters < x.upperEnd := by
    rw [upperEnd, gap_eq]
    omega
  unfold Attracts
  rw [value_exact_mul]
  split
  · have hlower : x.lowerEnd ≤ x.quarters := Nat.sub_le _ _
    exact ⟨by exact_mod_cast hlower, by exact_mod_cast hupper.le⟩
  · -- a magnitude with an odd significand is not zero
    have hquarters : 0 < x.quarters := by
      rw [quarters, gap_eq]
      exact Nat.mul_pos (by omega) (by omega)
    have hlower : x.lowerEnd < x.quarters := by
      rw [lowerEnd]
      refine Nat.sub_lt hquarters ?_
      rw [gap_eq]
      split <;> omega
    exact ⟨by exact_mod_cast hlower, by exact_mod_cast hupper⟩

/-- The selected decimal rounds to the magnitude. -/
theorem attracts_shortest (x : Binary64) : x.Attracts x.shortest.value := by
  simp only [shortest]
  cases hf : (List.range 17).findSome? fun n => x.onGrid (x.decimalPoint - (n + 1 : Nat)) with
  | none => exact attracts_exact x
  | some d =>
      obtain ⟨n, -, hn⟩ := List.exists_of_findSome?_eq_some hf
      exact attracts_of_readsBack (readsBack_of_onGrid hn)

end Binary64

end SchemaGraph.Decimal
