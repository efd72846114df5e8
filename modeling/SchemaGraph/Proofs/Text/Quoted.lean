/-
**A quoted text ends where it says.**

The text between two quotes may hold any character, quotes and backslashes among them, and still the
closing quote is found and the text is read back: what stands for one character never begins what
stands for another.

Main definitions:

* `letters`, `letter?` — the letter that stands for a character after a backslash;
* `isPlain` — the characters that stand for themselves without a look at the tables.

Main results:

* `toDigits_inj` — digits determine the number;
* `quotedChars_append_inj` — **quoting is injective, whatever follows**.
-/

import Mathlib.Data.Bool.AllAny
import Mathlib.Tactic.SplitIfs
import SchemaGraph.Dictionary
import SchemaGraph.Proofs.Text.Words
import SchemaGraph.Text.Quoted

set_option autoImplicit false

namespace SchemaGraph.Text

/-! ### Digits -/

theorem digitChar_inj {m n : Nat} (hm : m < 16) (hn : n < 16)
    (h : Nat.digitChar m = Nat.digitChar n) : m = n := by
  have hall : ∀ i j : Fin 16, Nat.digitChar i = Nat.digitChar j → i = j := by decide
  exact congrArg Fin.val (hall ⟨m, hm⟩ ⟨n, hn⟩ h)

/-- Digits determine the number. -/
theorem toDigits_inj {b m n : Nat} (hb : 1 < b) (hb' : b ≤ 16)
    (h : Nat.toDigits b m = Nat.toDigits b n) : m = n := by
  induction m using Nat.strongRecOn generalizing n with
  | ind m ih =>
      -- a single digit is no longer text with more digits before it
      have hlen : ∀ {i j : Nat},
          [Nat.digitChar i] ≠ Nat.toDigits b (j / b) ++ [Nat.digitChar (j % b)] := by
        intro i j hij
        have hpos := Nat.length_toDigits_pos (b := b) (n := j / b)
        have hl := congrArg List.length hij
        simp only [List.length_append, List.length_singleton] at hl
        omega
      rw [Nat.toDigits_eq_if hb, Nat.toDigits_eq_if (n := n) hb] at h
      split at h <;> split at h
      · simp only [List.cons.injEq, and_true] at h
        exact digitChar_inj (by omega) (by omega) h
      · exact absurd h hlen
      · exact absurd h.symm hlen
      · rename_i hm hn
        obtain ⟨hdiv, hmod⟩ := List.append_inj' h rfl
        simp only [List.cons.injEq, and_true] at hmod
        have hdiv := ih (m / b) (Nat.div_lt_self (by omega) hb) hdiv
        have hmlt := Nat.mod_lt m (by omega : b > 0)
        have hnlt := Nat.mod_lt n (by omega : b > 0)
        have hmod := digitChar_inj (by omega) (by omega) hmod
        rw [← Nat.div_add_mod m b, ← Nat.div_add_mod n b, hdiv, hmod]

theorem brace_not_mem_toDigits {b : Nat} (hb : 1 < b) (n : Nat) : '}' ∉ Nat.toDigits b n := by
  have hne : ∀ m : Nat, '}' ≠ Nat.digitChar m := fun m h => Nat.digitChar_ne '}' (by decide) h.symm
  induction n using Nat.strongRecOn with
  | ind n ih =>
      rw [Nat.toDigits_eq_if hb]
      split
      · simp [hne]
      · have hdiv := ih (n / b) (Nat.div_lt_self (by omega) hb)
        simp [hne, hdiv]

/-! ### One character -/

/-- The characters that have a letter after the backslash. -/
def letters : Dictionary Char Char :=
  [('"', '"'), ('\\', '\\'), ('\t', 't'), ('\n', 'n'), ('\r', 'r'), ('\x00', '0')]

/-- The letter that stands for a character after a backslash. -/
def letter? (c : Char) : Option Char := Dictionary.find? c letters

theorem escaped_eq (c : Char) : escaped c = match letter? c with
    | some d => ['\\', d]
    | none => if needsCode c then codeEscape c else [c] := by
  simp only [escaped, letter?, letters, Dictionary.find?, eq_comm (b := c)]
  split_ifs <;> rfl

theorem letter?_inj {a b d : Char} (ha : letter? a = some d) (hb : letter? b = some d) : a = b := by
  have hall : ∀ p ∈ letters, ∀ q ∈ letters, p.2 = q.2 → p.1 = q.1 := by decide
  exact hall _ (Dictionary.mem_of_find? ha) _ (Dictionary.mem_of_find? hb) rfl

theorem letter?_ne_u (c : Char) : letter? c ≠ some 'u' := by
  intro h
  have hall : ∀ p ∈ letters, p.2 ≠ 'u' := by decide
  exact hall _ (Dictionary.mem_of_find? h) rfl

/-- The printable characters of ASCII but for quotes and backslashes. -/
def isPlain (c : Char) : Bool :=
  32 ≤ c.toNat && c.toNat ≤ 126 && c ≠ '"' && c ≠ '\\'

/-- They stand for themselves. -/
theorem escaped_of_isPlain {c : Char} (h : isPlain c = true) : escaped c = [c] := by
  simp only [isPlain, Bool.and_eq_true, decide_eq_true_eq] at h
  obtain ⟨⟨⟨hlow, hhigh⟩, hquote⟩, hbackslash⟩ := h
  have houtside : ∀ r ∈ graphemeExtendRanges ++ unprintableRanges, r.2 < 32 ∨ 126 < r.1 := by
    decide +kernel
  have hcode : needsCode c = false := by
    rw [needsCode, isGraphemeExtend, isUnprintable, ← List.any_append, List.any_eq_false]
    intro r hr
    have hr := houtside r hr
    simp only [Bool.and_eq_true, decide_eq_true_eq]
    omega
  have hletter : letter? c = none := by
    refine (Dictionary.find?_eq_none_iff c letters).2 fun hmem => ?_
    have hall : ∀ d ∈ Dictionary.names letters, d = '"' ∨ d = '\\' ∨ d.toNat < 32 :=
      List.all_iff_forall_prop.1 (by decide)
    rcases hall c hmem with hc | hc | hc
    · exact hquote hc
    · exact hbackslash hc
    · omega
  rw [escaped_eq, hletter]
  simp only [hcode, Bool.false_eq_true, if_false]

/-- A character without a letter is neither a quote nor a backslash. -/
theorem ne_of_letter?_eq_none {c : Char} (h : letter? c = none) : c ≠ '"' ∧ c ≠ '\\' := by
  constructor
  · rintro rfl
    exact absurd h (by decide)
  · rintro rfl
    exact absurd h (by decide)

theorem codeEscape_append_inj {a b : Char} {r r' : List Char}
    (h : codeEscape a ++ r = codeEscape b ++ r') : a = b ∧ r = r' := by
  simp only [codeEscape, List.cons_append, List.append_assoc, List.nil_append, List.cons.injEq,
    true_and] at h
  -- the digits end at the brace
  have hstop : ∀ r : List Char, StopsAt (· = '}') ('}' :: r) := by
    intro r c hc
    simp only [List.head?_cons, Option.mem_some_iff] at hc
    simp [← hc]
  have hdigits : ∀ n : Nat, ∀ c ∈ Nat.toDigits 16 n, decide (c = '}') = false := by
    intro n c hc
    rw [decide_eq_false_iff_not]
    rintro rfl
    exact brace_not_mem_toDigits (by decide) n hc
  obtain ⟨hd, hr⟩ := append_inj_of_stopsAt (hdigits _) (hdigits _) (hstop r) (hstop r') h
  refine ⟨?_, (List.cons.inj hr).2⟩
  exact Char.toNat_inj.1 (toDigits_inj (by decide) (by decide) hd)

/-- **What stands for one character never begins what stands for another.** -/
theorem escaped_append_inj {a b : Char} {r r' : List Char}
    (h : escaped a ++ r = escaped b ++ r') : a = b ∧ r = r' := by
  rw [escaped_eq, escaped_eq] at h
  cases ha : letter? a with
  | some d =>
      rw [ha] at h
      cases hb : letter? b with
      | some e =>
          simp only [hb, List.cons_append, List.nil_append, List.cons.injEq, true_and] at h
          obtain ⟨rfl, hr⟩ := h
          exact ⟨letter?_inj ha hb, hr⟩
      | none =>
          simp only [hb] at h
          split at h
          · simp only [codeEscape, List.cons_append, List.cons.injEq, true_and] at h
            exact absurd (h.1 ▸ ha) (letter?_ne_u a)
          · simp only [List.cons_append, List.cons.injEq] at h
            exact absurd h.1.symm (ne_of_letter?_eq_none hb).2
  | none =>
      rw [ha] at h
      have hna := ne_of_letter?_eq_none ha
      cases hb : letter? b with
      | some e =>
          simp only [hb] at h
          split at h
          · simp only [codeEscape, List.cons_append, List.cons.injEq, true_and] at h
            exact absurd (h.1 ▸ hb) (letter?_ne_u b)
          · simp only [List.cons_append, List.cons.injEq] at h
            exact absurd h.1 hna.2
      | none =>
          have hnb := ne_of_letter?_eq_none hb
          simp only [hb] at h
          split at h <;> split at h
          · exact codeEscape_append_inj h
          · simp only [codeEscape, List.cons_append, List.cons.injEq] at h
            exact absurd h.1.symm hnb.2
          · simp only [codeEscape, List.cons_append, List.cons.injEq] at h
            exact absurd h.1 hna.2
          · simp only [List.cons_append, List.nil_append, List.cons.injEq] at h
            exact h

/-- The closing quote does not stand for a character. -/
theorem escaped_append_ne_quote (a : Char) (r r' : List Char) : escaped a ++ r ≠ '"' :: r' := by
  intro h
  rw [escaped_eq] at h
  cases ha : letter? a with
  | some d => simp [ha] at h
  | none =>
      simp only [ha] at h
      split at h
      · simp [codeEscape] at h
      · simp only [List.cons_append, List.cons.injEq] at h
        exact (ne_of_letter?_eq_none ha).1 h.1

/-! ### A whole text -/

theorem flatMap_escaped_append_inj {s s' r r' : List Char}
    (h : s.flatMap escaped ++ '"' :: r = s'.flatMap escaped ++ '"' :: r') : s = s' ∧ r = r' := by
  induction s generalizing s' with
  | nil =>
      cases s' with
      | nil => exact ⟨rfl, (List.cons.inj h).2⟩
      | cons b s' =>
          simp only [List.flatMap_nil, List.nil_append, List.flatMap_cons, List.append_assoc] at h
          exact absurd h.symm (escaped_append_ne_quote b _ _)
  | cons a s ih =>
      cases s' with
      | nil =>
          simp only [List.flatMap_nil, List.nil_append, List.flatMap_cons, List.append_assoc] at h
          exact absurd h (escaped_append_ne_quote a _ _)
      | cons b s' =>
          simp only [List.flatMap_cons, List.append_assoc] at h
          obtain ⟨rfl, hrest⟩ := escaped_append_inj h
          obtain ⟨rfl, hr⟩ := ih hrest
          exact ⟨rfl, hr⟩

/-- **Quoting is injective, whatever follows.** -/
theorem quotedChars_append_inj {s s' r r' : List Char}
    (h : quotedChars s ++ r = quotedChars s' ++ r') : s = s' ∧ r = r' := by
  simp only [quotedChars, List.cons_append, List.append_assoc, List.nil_append, List.cons.injEq,
    true_and] at h
  exact flatMap_escaped_append_inj h

end SchemaGraph.Text
