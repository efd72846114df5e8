/-
**The canonical text is unambiguous.**

The canonical text of a value can be told apart from whatever follows it, as long as what follows
starts with a separator, a closing bracket or the mark before the scope.  The first character gives
away the kind of a value: a quote, a bracket, the sign of an identifier, or a letter or digit of a
word.  A word runs up to the first character that no word has, a quoted text up to its closing
quote, and a list or the options of an identifier up to the closing bracket, by induction along
nesting.

Main definitions:

* `Value.Sound`, `Identifier.Sound` — finite floats, and no option set twice, at every depth;
* `endsValue` — the characters that may follow a value;
* `Value.isWord`, `Value.opening` — the kinds of canonical texts, and the characters they start
  with.

Main results:

* `Value.legible`, `Identifier.legible` — what stands for a value, and for an identifier, is told
  apart from what follows it;
* `canonicalIdentity_unambiguous` — **valid identifiers in scopes have one canonical identity
  exactly when they agree bit by bit and the scopes have one name**; what agrees is also displayed
  the same and has the same key.
-/

import SchemaGraph.Identity.Key
import SchemaGraph.Proofs.Decimal.Reading
import SchemaGraph.Proofs.Identity.Agreement
import SchemaGraph.Proofs.Text.Quoted

set_option autoImplicit false

namespace SchemaGraph

open Decimal (Binary64 isNumeric)
open Text (quotedChars StopsAt Legible)

/-! ### Sound values -/

/-- A value as it stands in a valid identifier. -/
structure Value.Sound (v : Value) : Prop where
  distinct : v.Distinct
  faultless : ∃ typeName option, v.fault? typeName option = none

/-- A valid identifier whose options were set one by one. -/
structure Identifier.Sound (id : Identifier) : Prop where
  distinct : id.Distinct
  faultless : id.fault? = none

theorem Value.Sound.item {items : List Value} (h : (Value.list items).Sound) {v : Value}
    (hv : v ∈ items) : v.Sound := by
  obtain ⟨hdistinct, typeName, option, hfault⟩ := h
  rw [Value.fault?, itemsFault?_eq_none_iff] at hfault
  exact ⟨(Value.distinct_list items).1 hdistinct v hv, typeName, option, hfault v hv⟩

theorem Value.Sound.type {id : Identifier} (h : (Value.type id).Sound) : id.Sound := by
  obtain ⟨hdistinct, typeName, option, hfault⟩ := h
  rw [Value.fault?] at hfault
  exact ⟨(Value.distinct_type id).1 hdistinct, hfault⟩

theorem Identifier.Sound.names {id : Identifier} (h : id.Sound) :
    (Dictionary.names id.config).Nodup := ((Identifier.distinct_iff id).1 h.distinct).1

theorem Identifier.Sound.option {id : Identifier} (h : id.Sound) {p : String × Value}
    (hp : p ∈ id.config) : p.2.Sound := by
  have hfault := h.faultless
  rw [Identifier.fault?_eq] at hfault
  split at hfault
  · cases hfault
  · rw [optionsFault?_eq_none_iff] at hfault
    exact ⟨((Identifier.distinct_iff id).1 h.distinct).2 p hp, id.name, p.1, (hfault p hp).2⟩

theorem Value.Sound.isFinite {x : Binary64} (h : (Value.float x).Sound) : x.isFinite = true := by
  obtain ⟨-, typeName, option, hfault⟩ := h
  rw [Value.fault?] at hfault
  by_contra hx
  rw [if_neg hx] at hfault
  cases hfault

/-! ### Words -/

/-- An integer or a float. -/
def Value.isNumber : Value → Bool
  | .int _ => true
  | .float _ => true
  | _ => false

/-- Null or a truth value. -/
def Value.isLiteral : Value → Bool
  | .null => true
  | .bool _ => true
  | _ => false

/-- A value that is written without quotes and brackets. -/
def Value.isWord (v : Value) : Bool := v.isLiteral || v.isNumber

theorem Value.isPlain_of_isWord {v : Value} (hv : v.isWord = true) : v.isPlain = true := by
  cases v with
  | list items => cases hv
  | type id => cases hv
  | _ => rfl

/-- A character of words. -/
def isWordChar (c : Char) : Bool := c.isAlphanum || c = '.' || c = '-'

theorem isWordChar_of_isNumeric {c : Char} (h : isNumeric c = true) : isWordChar c = true := by
  simp only [isNumeric, Bool.or_eq_true, decide_eq_true_eq] at h
  rcases h with ((h | rfl) | rfl) | rfl
  · simp [isWordChar, Char.isAlphanum, h]
  · rfl
  · rfl
  · rfl

theorem isNumeric_of_mem_int {n : Int} {c : Char} (h : c ∈ (toString n).toList) :
    isNumeric c = true := by
  rcases Decimal.mem_toString_int h with h | rfl
  · exact Decimal.isNumeric_of_isDigit h
  · rfl

theorem toString_int_inj {m n : Int} (h : toString m = toString n) : m = n := by
  rw [← Decimal.readingExponent_toString m, h, Decimal.readingExponent_toString]

/-- An integer is written without a point and without an exponent. -/
theorem toString_int_ne_written {n : Int} {x : Binary64} (hx : x.isFinite = true) :
    toString n ≠ x.written := by
  intro h
  have hchars : ∀ c ∈ x.written.toList, c.isDigit = true ∨ c = '-' := by
    intro c hc
    rw [← h] at hc
    exact Decimal.mem_toString_int hc
  rcases (Binary64.marked_written hx).2 with hmark | hmark
  · exact absurd (hchars _ hmark) (by decide)
  · exact absurd (hchars _ hmark) (by decide)

/-- No number is written as a literal. -/
theorem not_literal_of_isNumeric {s : String} (hs : ∀ c ∈ s.toList, isNumeric c = true) :
    s ≠ "null" ∧ s ≠ "true" ∧ s ≠ "false" := by
  refine ⟨?_, ?_, ?_⟩
  · rintro rfl
    exact absurd (hs 'n' (by decide)) (by decide)
  · rintro rfl
    exact absurd (hs 't' (by decide)) (by decide)
  · rintro rfl
    exact absurd (hs 'f' (by decide)) (by decide)

theorem toString_int_ne_nil (n : Int) : (toString n).toList ≠ [] := by
  rw [Int.toString_eq_repr, Int.repr_eq_if]
  split
  · rw [Nat.toList_repr]
    exact Nat.toDigits_ne_nil
  · simp

namespace Value

theorem literal_canonical {v : Value} (hv : v.isLiteral = true) :
    v.canonical = "null" ∨ v.canonical = "true" ∨ v.canonical = "false" := by
  cases v with
  | null => exact Or.inl rfl
  | bool b =>
      cases b with
      | true => exact Or.inr (Or.inl rfl)
      | false => exact Or.inr (Or.inr rfl)
  | _ => cases hv

theorem literal_inj {v w : Value} (hv : v.isLiteral = true) (hw : w.isLiteral = true)
    (h : v.canonical = w.canonical) : v = w := by
  have hbool : ∀ b c : Bool, (bool b).canonical = (bool c).canonical → b = c := by decide
  have hnull : ∀ b : Bool, (bool b).canonical ≠ null.canonical := by decide
  cases v with
  | null =>
      cases w with
      | null => rfl
      | bool c => exact absurd h.symm (hnull c)
      | _ => cases hw
  | bool b =>
      cases w with
      | null => exact absurd h (hnull b)
      | bool c => exact congrArg bool (hbool b c h)
      | _ => cases hw
  | _ => cases hv

theorem isNumeric_of_mem {v : Value} (hv : v.isNumber = true) (hs : v.Sound) :
    ∀ c ∈ v.canonical.toList, isNumeric c = true := by
  cases v with
  | int n => exact fun c hc => isNumeric_of_mem_int hc
  | float x => exact (Binary64.marked_written hs.isFinite).1
  | _ => cases hv

theorem number_ne_nil {v : Value} (hv : v.isNumber = true) (hs : v.Sound) :
    v.canonical.toList ≠ [] := by
  cases v with
  | int n => exact toString_int_ne_nil n
  | float x =>
      rcases (Binary64.marked_written hs.isFinite).2 with hmark | hmark
      · exact List.ne_nil_of_mem hmark
      · exact List.ne_nil_of_mem hmark
  | _ => cases hv

theorem number_inj {v w : Value} (hv : v.isNumber = true) (hw : w.isNumber = true)
    (hvs : v.Sound) (hws : w.Sound) (h : v.canonical = w.canonical) : v = w := by
  cases v with
  | int m =>
      cases w with
      | int n => exact congrArg int (toString_int_inj h)
      | float y => exact absurd h (toString_int_ne_written hws.isFinite)
      | _ => cases hw
  | float x =>
      cases w with
      | int n => exact absurd h.symm (toString_int_ne_written hvs.isFinite)
      | float y => exact congrArg float (Binary64.written_inj hvs.isFinite hws.isFinite h)
      | _ => cases hw
  | _ => cases hv

theorem literal_ne_number {v w : Value} (hv : v.isLiteral = true) (hw : w.isNumber = true)
    (hws : w.Sound) : v.canonical ≠ w.canonical := by
  intro h
  obtain ⟨hnull, htrue, hfalse⟩ := not_literal_of_isNumeric (isNumeric_of_mem hw hws)
  rw [← h] at hnull htrue hfalse
  rcases literal_canonical hv with hl | hl | hl
  · exact hnull hl
  · exact htrue hl
  · exact hfalse hl

/-- **A word determines the value.** -/
theorem word_inj {v w : Value} (hv : v.isWord = true) (hw : w.isWord = true) (hvs : v.Sound)
    (hws : w.Sound) (h : v.canonical = w.canonical) : v = w := by
  rcases Bool.or_eq_true _ _ ▸ hv with hv | hv
  · rcases Bool.or_eq_true _ _ ▸ hw with hw | hw
    · exact literal_inj hv hw h
    · exact absurd h (literal_ne_number hv hw hws)
  · rcases Bool.or_eq_true _ _ ▸ hw with hw | hw
    · exact absurd h.symm (literal_ne_number hw hv hvs)
    · exact number_inj hv hw hvs hws h

theorem word_chars {v : Value} (hv : v.isWord = true) (hs : v.Sound) :
    v.canonical.toList ≠ [] ∧ ∀ c ∈ v.canonical.toList, isWordChar c = true := by
  rcases Bool.or_eq_true _ _ ▸ hv with hv | hv
  · rcases literal_canonical hv with h | h | h
    · rw [h]
      exact ⟨by decide, List.all_eq_true.1 (by decide)⟩
    · rw [h]
      exact ⟨by decide, List.all_eq_true.1 (by decide)⟩
    · rw [h]
      exact ⟨by decide, List.all_eq_true.1 (by decide)⟩
  · exact ⟨number_ne_nil hv hs, fun c hc => isWordChar_of_isNumeric (isNumeric_of_mem hv hs c hc)⟩

/-! ### First characters -/

/-- The character that starts a text, a list or an identifier. -/
def opening : Value → Option Char
  | .text _ => some '"'
  | .list _ => some '['
  | .type _ => some '@'
  | _ => none

/-- The canonical text starts with the opening character, or else with a character of words. -/
theorem canonical_opens {v : Value} (hs : v.Sound) : ∃ c t, v.canonical.toList = c :: t ∧
    (v.opening = some c ∨ v.opening = none ∧ v.isWord = true ∧ isWordChar c = true) := by
  have hword : v.opening = none → v.isWord = true → ∃ c t, v.canonical.toList = c :: t ∧
      (v.opening = some c ∨ v.opening = none ∧ v.isWord = true ∧ isWordChar c = true) := by
    intro hopen hw
    obtain ⟨hne, hchars⟩ := word_chars hw hs
    obtain ⟨c, t, hct⟩ := List.exists_cons_of_ne_nil hne
    exact ⟨c, t, hct, Or.inr ⟨hopen, hw, hchars c (hct ▸ List.mem_cons_self)⟩⟩
  cases v with
  | text s => exact ⟨'"', _, by rw [canonical, Text.toList_quoted]; rfl, Or.inl rfl⟩
  | list items =>
      exact ⟨'[', _, by rw [canonical_list, String.toList_append, String.toList_append]; rfl,
        Or.inl rfl⟩
  | type id => exact ⟨'@', _, by rw [canonical, String.toList_append]; rfl, Or.inl rfl⟩
  | _ => exact hword rfl rfl

theorem opening_ne {v : Value} {c : Char} (h : v.opening = some c) :
    c = '"' ∨ c = '[' ∨ c = '@' := by
  cases v with
  | text s => exact Or.inl (Option.some.inj h).symm
  | list items => exact Or.inr (Or.inl (Option.some.inj h).symm)
  | type id => exact Or.inr (Or.inr (Option.some.inj h).symm)
  | _ => cases h

/-- Values with texts that agree open with the same character. -/
theorem opening_eq {v w : Value} {r r' : List Char} (hv : v.Sound) (hw : w.Sound)
    (h : v.canonical.toList ++ r = w.canonical.toList ++ r') : v.opening = w.opening := by
  obtain ⟨c, t, hct, hc⟩ := canonical_opens hv
  obtain ⟨d, u, hdu, hd⟩ := canonical_opens hw
  rw [hct, hdu, List.cons_append, List.cons_append] at h
  obtain ⟨rfl, -⟩ := List.cons.inj h
  have hopens : ∀ x : Value, x.opening = some c → isWordChar c = false := by
    intro x hx
    rcases opening_ne hx with rfl | rfl | rfl <;> rfl
  rcases hc with hc | ⟨hc, -, hcw⟩
  · rcases hd with hd | ⟨-, -, hdw⟩
    · rw [hc, hd]
    · rw [hopens v hc] at hdw
      cases hdw
  · rcases hd with hd | ⟨hd, -, -⟩
    · rw [hopens w hd] at hcw
      cases hcw
    · rw [hc, hd]

/-- The first character of an item is not the bracket that closes a list. -/
theorem canonical_ne_close {v : Value} (hs : v.Sound) :
    ∃ c t, v.canonical.toList = c :: t ∧ c ≠ ']' := by
  obtain ⟨c, t, hct, hc⟩ := canonical_opens hs
  refine ⟨c, t, hct, ?_⟩
  rintro rfl
  rcases hc with hc | ⟨-, -, hc⟩
  · rcases opening_ne hc with h | h | h <;> cases h
  · cases hc

end Value

/-! ### What follows -/

/-- A character that may follow a value. -/
def endsValue (c : Char) : Bool := c = ',' || c = ']' || c = '}' || c = '#'

/-- The canonical text of a value, in characters. -/
def Value.chars (v : Value) : List Char := v.canonical.toList

/-- The canonical text of an identifier, in characters. -/
def Identifier.chars (id : Identifier) : List Char := id.canonical.toList

/-- The canonical text of an option, in characters. -/
def optionChars (p : String × Value) : List Char := quotedChars p.1.toList ++ ':' :: p.2.chars

theorem endsValue_of_isWordChar {c : Char} (h : isWordChar c = true) : endsValue c = false := by
  by_contra hc
  rw [Bool.not_eq_false] at hc
  simp only [endsValue, Bool.or_eq_true, decide_eq_true_eq] at hc
  rcases hc with ((rfl | rfl) | rfl) | rfl <;> cases h

theorem Value.chars_list (items : List Value) :
    (Value.list items).chars
      = '[' :: (List.intercalate [','] (items.map Value.chars) ++ [']']) := by
  rw [Value.chars, Value.canonical_list, String.toList_append, String.toList_append,
    String.toList_intercalate, List.map_map]
  rfl

theorem Value.chars_type (id : Identifier) : (Value.type id).chars = '@' :: id.chars := by
  rw [Value.chars, Value.canonical, String.toList_append]
  rfl

theorem Value.chars_text (s : String) : (Value.text s).chars = quotedChars s.toList := by
  rw [Value.chars, Value.canonical, Text.toList_quoted]

theorem Identifier.chars_eq (id : Identifier) :
    id.chars = quotedChars id.name.toList ++ if id.isBare then [] else
      '{' :: (List.intercalate [','] ((Dictionary.sorted id.config).map optionChars) ++ ['}']) := by
  rw [Identifier.chars, Identifier.canonical_eq, Dictionary.sorted_map]
  split
  · rw [Text.toList_quoted, List.append_nil]
  · have hoption : String.toList ∘ (fun p : String × String => Text.quoted p.1 ++ ":" ++ p.2)
        ∘ (fun p : String × Value => (p.1, p.2.canonical)) = optionChars := by
      funext p
      simp only [Function.comp_apply, String.toList_append, Text.toList_quoted, optionChars,
        Value.chars, List.append_assoc]
      rfl
    simp only [String.toList_append, String.toList_intercalate, List.map_map, Text.toList_quoted,
      List.append_assoc, hoption]
    rfl

/-! ### Legibility -/

/-- Agreement of values, bit by bit. -/
def Value.Identical (v w : Value) : Prop := v.agrees Binary64.identical w = true

/-- Agreement of options: one name, and values that agree bit by bit. -/
def OptionIdentical (p q : String × Value) : Prop := p.1 = q.1 ∧ p.2.Identical q.2

theorem Value.word_legible {v w : Value} (hv : v.isWord = true) (hw : w.isWord = true)
    (hvs : v.Sound) (hws : w.Sound) :
    Legible endsValue Value.chars Value.Identical v w := by
  intro r r' hr hr' h
  have hchars : ∀ x : Value, x.isWord = true → x.Sound → ∀ c ∈ x.chars, endsValue c = false :=
    fun x hx hxs c hc => endsValue_of_isWordChar ((Value.word_chars hx hxs).2 c hc)
  obtain ⟨htext, hrest⟩ := Text.append_inj_of_stopsAt (hchars v hv hvs) (hchars w hw hws) hr hr' h
  obtain rfl := Value.word_inj hv hw hvs hws (String.toList_inj.1 htext)
  exact ⟨Value.agrees_self (Value.isPlain_of_isWord hv), hrest⟩

theorem Value.text_legible (s t : String) :
    Legible endsValue Value.chars Value.Identical (.text s) (.text t) := by
  intro r r' _ _ h
  rw [Value.chars_text, Value.chars_text] at h
  obtain ⟨hst, hrest⟩ := Text.quotedChars_append_inj h
  obtain rfl := String.toList_inj.1 hst
  exact ⟨Value.agrees_self rfl, hrest⟩

theorem itemsAgree_of_forall₂ {as bs : List Value} (h : List.Forall₂ Value.Identical as bs) :
    itemsAgree Binary64.identical as bs = true := by
  induction h with
  | nil => rfl
  | cons hvw _ ih =>
      rw [itemsAgree, Bool.and_eq_true]
      exact ⟨hvw, ih⟩

theorem Value.list_legible {items items' : List Value} (hv : (Value.list items).Sound)
    (hw : (Value.list items').Sound)
    (ih : ∀ v ∈ items, ∀ w ∈ items', Legible endsValue Value.chars Value.Identical v w) :
    Legible endsValue Value.chars Value.Identical (.list items) (.list items') := by
  intro r r' hr hr' h
  rw [Value.chars_list, Value.chars_list, List.cons_append, List.cons_append, List.append_assoc,
    List.append_assoc] at h
  obtain ⟨hitems, hrest⟩ := Text.intercalate_append_inj (by decide) (by decide) (by decide) ih
    (fun v hmem => Value.canonical_ne_close (hv.item hmem))
    (fun w hmem => Value.canonical_ne_close (hw.item hmem)) (List.cons.inj h).2
  rw [Value.Identical, Value.agrees]
  exact ⟨itemsAgree_of_forall₂ hitems, hrest⟩

/-- An option is told apart from what follows it when its value is. -/
theorem option_legible {p q : String × Value}
    (h : Legible endsValue Value.chars Value.Identical p.2 q.2) :
    Legible endsValue optionChars OptionIdentical p q := by
  intro r r' hr hr' heq
  rw [optionChars, optionChars, List.append_assoc, List.append_assoc] at heq
  obtain ⟨hname, hrest⟩ := Text.quotedChars_append_inj heq
  obtain ⟨hvalue, hrest⟩ := h r r' hr hr' (List.cons.inj hrest).2
  exact ⟨⟨String.toList_inj.1 hname, hvalue⟩, hrest⟩

/-- Identifiers agree when their options do, one by one in the order of their names. -/
theorem Identifier.identical_of_sorted {a b : Identifier} (ha : a.Sound) (hb : b.Sound)
    (hname : a.name = b.name)
    (h : List.Forall₂ OptionIdentical (Dictionary.sorted a.config) (Dictionary.sorted b.config)) :
    a.agrees Binary64.identical b = true := by
  rw [Identifier.agrees_iff ha.names]
  refine ⟨hname, fun n => ?_⟩
  rw [Identifier.option?, Identifier.option?, ← Dictionary.find?_sorted ha.names,
    ← Dictionary.find?_sorted hb.names]
  generalize Dictionary.sorted a.config = as at h ⊢
  generalize Dictionary.sorted b.config = bs at h ⊢
  induction h with
  | nil => exact .none
  | @cons p q as bs hpq _ ih =>
      obtain ⟨hn, hvalue⟩ := hpq
      rw [Dictionary.find?_cons, Dictionary.find?_cons, hn]
      split
      · exact .some hvalue
      · exact ih

/-- An identifier is told apart from what follows it when its options are. -/
theorem Identifier.legible_of_options {a b : Identifier} (ha : a.Sound) (hb : b.Sound)
    (ih : ∀ p ∈ a.config, ∀ q ∈ b.config,
      Legible endsValue Value.chars Value.Identical p.2 q.2) :
    Legible endsValue Identifier.chars (fun a b => a.agrees Binary64.identical b = true) a b := by
  intro r r' hr hr' h
  have hbrace : ∀ {l r : List Char}, StopsAt endsValue r → r ≠ '{' :: l := by
    rintro l r hr rfl
    exact absurd (hr '{' rfl) (by decide)
  have hempty : ∀ {id : Identifier}, id.isBare = true → Dictionary.sorted id.config = [] := by
    intro id hid
    rw [List.isEmpty_iff.1 hid]
    exact List.mergeSort_nil
  have hquote : ∀ p : String × Value, ∃ c t, optionChars p = c :: t ∧ c ≠ '}' :=
    fun p => ⟨'"', _, rfl, by decide⟩
  rw [Identifier.chars_eq, Identifier.chars_eq, List.append_assoc, List.append_assoc] at h
  obtain ⟨hname, hrest⟩ := Text.quotedChars_append_inj h
  have hagree := Identifier.identical_of_sorted ha hb (String.toList_inj.1 hname)
  split at hrest
  · rename_i hbare
    split at hrest
    · rename_i hbare'
      refine ⟨hagree ?_, hrest⟩
      rw [hempty hbare, hempty hbare']
      exact .nil
    · rw [List.cons_append] at hrest
      exact absurd hrest (hbrace hr)
  · split at hrest
    · rw [List.cons_append] at hrest
      exact absurd hrest.symm (hbrace hr')
    · rw [List.cons_append, List.cons_append, List.append_assoc, List.append_assoc] at hrest
      obtain ⟨hoptions, hrest⟩ := Text.intercalate_append_inj (by decide) (by decide) (by decide)
        (fun p hp q hq => option_legible (ih p (Dictionary.mem_sorted.1 hp) q
          (Dictionary.mem_sorted.1 hq)))
        (fun p _ => hquote p) (fun q _ => hquote q) (List.cons.inj hrest).2
      exact ⟨hagree hoptions, hrest⟩

theorem Value.isWord_of_opening {v : Value} (h : v.opening = none) : v.isWord = true := by
  cases v with
  | text s => cases h
  | list items => cases h
  | type id => cases h
  | _ => rfl

/-- What stands for a value is told apart from what follows it. -/
theorem Value.legible (v : Value) : ∀ w : Value, v.Sound → w.Sound →
    Legible endsValue Value.chars Value.Identical v w := by
  induction v using Value.nested_induction with
  | plain v hplain =>
      intro w hv hw r r' hr hr' h
      have hopen := Value.opening_eq hv hw h
      cases hvo : v.opening with
      | none =>
          rw [hvo] at hopen
          exact Value.word_legible (Value.isWord_of_opening hvo)
            (Value.isWord_of_opening hopen.symm) hv hw r r' hr hr' h
      | some c =>
          cases v with
          | text s =>
              cases w with
              | text t => exact Value.text_legible s t r r' hr hr' h
              | _ => cases hopen
          | list items => cases hplain
          | type id => cases hplain
          | _ => cases hvo
  | list items ih =>
      intro w hv hw r r' hr hr' h
      have hopen := Value.opening_eq hv hw h
      cases w with
      | list items' =>
          exact Value.list_legible hv hw (fun x hx y hy => ih x hx y (hv.item hx) (hw.item hy))
            r r' hr hr' h
      | _ => cases hopen
  | type id ih =>
      intro w hv hw r r' hr hr' h
      have hopen := Value.opening_eq hv hw h
      cases w with
      | type id' =>
          rw [Value.chars_type, Value.chars_type, List.cons_append, List.cons_append] at h
          obtain ⟨hagree, hrest⟩ := Identifier.legible_of_options hv.type hw.type
            (fun p hp q hq => ih p hp q.2 (hv.type.option hp) (hw.type.option hq)) r r' hr hr'
            (List.cons.inj h).2
          rw [Value.Identical, Value.agrees]
          exact ⟨hagree, hrest⟩
      | _ => cases hopen

/-- What stands for an identifier is told apart from what follows it. -/
theorem Identifier.legible {a b : Identifier} (ha : a.Sound) (hb : b.Sound) :
    Legible endsValue Identifier.chars (fun a b => a.agrees Binary64.identical b = true) a b :=
  Identifier.legible_of_options ha hb fun p hp q hq =>
    Value.legible p.2 q.2 (ha.option hp) (hb.option hq)

/-! ### Identities -/

/-- What stands after the mark: the quoted name of the scope, or a tilde. -/
def scopeChars : Option Context → List Char
  | some c => quotedChars c.name.toList
  | none => ['~']

theorem scopeChars_eq_iff (c d : Option Context) :
    scopeChars c = scopeChars d ↔ c.map Context.name = d.map Context.name := by
  have htilde : ∀ s : List Char, quotedChars s ≠ ['~'] := by
    intro s h
    cases List.head_eq_of_cons_eq h
  cases c with
  | none =>
      cases d with
      | none => exact ⟨fun _ => rfl, fun _ => rfl⟩
      | some d => exact ⟨fun h => absurd h.symm (htilde _), fun h => by cases h⟩
  | some c =>
      cases d with
      | none => exact ⟨fun h => absurd h (htilde _), fun h => by cases h⟩
      | some d =>
          constructor
          · intro h
            have happend : quotedChars c.name.toList ++ [] = quotedChars d.name.toList ++ [] :=
              congrArg (· ++ []) h
            exact congrArg some (String.toList_inj.1 (Text.quotedChars_append_inj happend).1)
          · intro h
            exact congrArg (fun s : String => quotedChars s.toList) (Option.some.inj h)

theorem toList_canonicalIdentity (id : Identifier) (scope : Option Context) :
    (canonicalIdentity id scope).toList = id.chars ++ '#' :: scopeChars scope := by
  cases scope with
  | none =>
      simp only [canonicalIdentity, String.toList_append, List.append_assoc]
      rfl
  | some c =>
      simp only [canonicalIdentity, String.toList_append, List.append_assoc, Text.toList_quoted]
      rfl

/-- **Valid identifiers in scopes have one canonical identity exactly when they agree bit by bit and
the scopes have one name.**  What agrees is also displayed the same, and has the same key. -/
theorem canonicalIdentity_unambiguous {a b : Identifier} (ha : a.fault? = none)
    (hb : b.fault? = none) (hda : a.Distinct) (hdb : b.Distinct) (c d : Option Context) :
    (canonicalIdentity a c = canonicalIdentity b d
        ↔ a.agrees Binary64.identical b = true ∧ c.map Context.name = d.map Context.name)
      ∧ (a.agrees Binary64.identical b = true → a.display = b.display
        ∧ (c.map Context.name = d.map Context.name →
          Key.ofIdentifier a c = Key.ofIdentifier b d)) := by
  have hiff : canonicalIdentity a c = canonicalIdentity b d
      ↔ a.agrees Binary64.identical b = true ∧ c.map Context.name = d.map Context.name := by
    rw [← String.toList_inj, toList_canonicalIdentity, toList_canonicalIdentity]
    constructor
    · intro h
      have hmark : ∀ e, StopsAt endsValue ('#' :: scopeChars e) :=
        fun e => Text.stopsAt_cons (by decide) _
      obtain ⟨hagree, hscope⟩ := Identifier.legible ⟨hda, ha⟩ ⟨hdb, hb⟩ _ _ (hmark c) (hmark d) h
      exact ⟨hagree, (scopeChars_eq_iff c d).1 (List.cons.inj hscope).2⟩
    · rintro ⟨hagree, hscope⟩
      rw [Identifier.chars, Identifier.chars, (Identifier.texts_eq hda hdb hagree).1,
        (scopeChars_eq_iff c d).2 hscope]
  refine ⟨hiff, fun hagree => ⟨(Identifier.texts_eq hda hdb hagree).2, fun hscope => ?_⟩⟩
  rw [Key.ofIdentifier, Key.ofIdentifier, ha, hb, hiff.2 ⟨hagree, hscope⟩]

/-- A union with a tag among its members, its options set in one order. -/
def union : Identifier :=
  let tag := ((Identifier.bare "Tag").withOption "mark" (.text "\"\x7d,")).withOption "weight"
    (.float ⟨0x3ff0000000000000⟩)
  ((Identifier.bare "Union").withOption "size" (.int 2)).withOption "members"
    (.list [.null, .type tag])

/-- The same union, with options set in the other order at both depths. -/
def reordered : Identifier :=
  let tag := ((Identifier.bare "Tag").withOption "weight" (.float ⟨0x3ff0000000000000⟩)).withOption
    "mark" (.text "\"\x7d,")
  ((Identifier.bare "Union").withOption "members" (.list [.null, .type tag])).withOption "size"
    (.int 2)

/-- Two plain options are set. -/
theorem distinct_tag {name first second : String} {v w : Value} (hv : v.isPlain = true)
    (hw : w.isPlain = true) :
    (((Identifier.bare name).withOption first v).withOption second w).Distinct :=
  have hfirst := (Identifier.distinct_bare name).withOption first (Value.distinct_of_isPlain hv)
  hfirst.withOption second (Value.distinct_of_isPlain hw)

theorem distinct_members {id : Identifier} (h : id.Distinct) :
    (Value.list [.null, .type id]).Distinct := by
  rw [Value.distinct_list, List.forall_mem_cons, List.forall_mem_singleton, Value.distinct_type]
  exact ⟨Value.distinct_of_isPlain rfl, h⟩

theorem distinct_union : union.Distinct :=
  ((Identifier.distinct_bare _).withOption _ (Value.distinct_of_isPlain rfl)).withOption _
    (distinct_members (distinct_tag rfl rfl))

theorem distinct_reordered : reordered.Distinct :=
  ((Identifier.distinct_bare _).withOption _ (distinct_members (distinct_tag rfl rfl))).withOption _
    (Value.distinct_of_isPlain rfl)

/-- A scope. -/
def hall : Context := .ofName "hall"

/-- A scope of the same name with a property. -/
def openHall : Context := hall.withProperty "open" (.bool true)

/-- Both orders give one identity, one display text and one key, whatever the properties of the
scope. -/
theorem reordered_identity :
    canonicalIdentity union (some hall) = canonicalIdentity reordered (some openHall)
      ∧ union.display = reordered.display
      ∧ Key.ofIdentifier union (some hall) = Key.ofIdentifier reordered (some openHall) := by
  have hagree : union.agrees Binary64.identical reordered = true := by decide +kernel
  have h := canonicalIdentity_unambiguous (a := union) (b := reordered) (by decide +kernel)
    (by decide +kernel) distinct_union distinct_reordered (some hall) (some openHall)
  exact ⟨h.1.2 ⟨hagree, rfl⟩, (h.2 hagree).1, (h.2 hagree).2 rfl⟩

end SchemaGraph
