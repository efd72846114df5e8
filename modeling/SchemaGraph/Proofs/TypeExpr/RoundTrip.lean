/-
**The written form of an expression is its text without white space.**

An expression is written with no white space in it, and the grammar derives what is written back
from the expression that is written.  The other way round, the rules of the grammar put down each
character of the written form once, in order, and otherwise only white space.  So white space is
all that two texts of one expression can differ in.

Main results:

* `Derives.text` — an expression is derived from its written form;
* `Derives.filter_eq` — a derivable text is the written form and white space;
* `parse_inverts_text` — **writing and reading invert each other, up to white space**.
-/

import SchemaGraph.Proofs.TypeExpr.Grammar

set_option autoImplicit false

namespace SchemaGraph

/-- Without an exclamation mark, an expression is one that has none of its own. -/
theorem Derives.atom {w : List Char} {e : TypeExpr} (h : Derives .type w e)
    (he : ∀ of, e ≠ .nonNull of) : Derives .atom w e := by
  cases h with
  | plain h => exact h
  | marked => exact absurd rfl (he _)

/-- An expression is derived from its written form. -/
theorem Derives.text {e : TypeExpr} (hs : e.Single) (hn : isName e.root.toList = true) :
    Derives .type e.text.toList e := by
  induction e with
  | named name =>
      have h := Derives.name (w := name.toList) hn
      rw [String.ofList_toList] at h
      exact .plain h
  | list e ih =>
      have h := Derives.list blank_nil (ih hs hn) blank_nil
      have htext : (TypeExpr.list e).text.toList
          = '[' :: ([] ++ (e.text.toList ++ ([] ++ [']']))) := by
        simp [TypeExpr.text, String.toList_append]
      rw [htext]
      exact .plain h
  | nonNull e ih =>
      have htext : (TypeExpr.nonNull e).text.toList = e.text.toList ++ ([] ++ ['!']) := by
        simp [TypeExpr.text, String.toList_append]
      rw [htext]
      exact .marked ((ih hs.1 hn).atom hs.2) blank_nil

/-- A derivable text is the written form of what it stands for, and white space. -/
theorem Derives.filter_eq {s : Symbol} {w : List Char} {e : TypeExpr} (h : Derives s w e) :
    (w.filter fun c => !isWhite c) = e.text.toList := by
  induction h with
  | name hw => rw [filter_of_isName hw, TypeExpr.text, String.toList_ofList]
  | list hb _ ha ih =>
      have hopen : isWhite '[' = false := rfl
      have hclose : isWhite ']' = false := rfl
      simp [TypeExpr.text, String.toList_append, filter_of_white hb, filter_of_white ha, ih, hopen,
        hclose]
  | plain _ ih => exact ih
  | marked _ hg ih =>
      have hmark : isWhite '!' = false := rfl
      simp [TypeExpr.text, String.toList_append, filter_of_white hg, ih, hmark]
  | sentence hb _ ha ih =>
      rw [List.filter_append, List.filter_append, filter_of_white hb, filter_of_white ha, ih,
        List.append_nil, List.nil_append]

/-- The name under all wrappers of what is derived is one. -/
theorem Derives.isName_root {s : Symbol} {w : List Char} {e : TypeExpr} (h : Derives s w e) :
    isName e.root.toList = true := by
  induction h with
  | name hw => rwa [TypeExpr.root, String.toList_ofList]
  | list _ _ _ ih => exact ih
  | plain _ ih => exact ih
  | marked _ _ ih => exact ih
  | sentence _ _ _ ih => exact ih

/-- An expression is read from its written form. -/
theorem read_text {e : TypeExpr} (hs : e.Single) (hn : isName e.root.toList = true) :
    TypeExpr.read e.text = .ok e := by
  have h := Derives.sentence blank_nil (Derives.text hs hn) blank_nil
  rw [List.append_nil, List.nil_append] at h
  exact read_eq_ok_iff.2 h

/-- What is read is written as the text without its white space. -/
theorem text_of_read {s : String} {e : TypeExpr} (h : TypeExpr.read s = .ok e) :
    e.text.toList = unspaced s :=
  (read_eq_ok_iff.1 h).filter_eq.symm

/-- What is read is read from its written form too. -/
theorem read_text_of_read {s : String} {e : TypeExpr} (h : TypeExpr.read s = .ok e) :
    TypeExpr.read e.text = .ok e :=
  read_text (single_of_read h) (read_eq_ok_iff.1 h).isName_root

/-- **Writing and reading invert each other, up to white space.**  An expression that has a name
under its wrappers and excludes null once at most at every depth is parsed from its written form;
what a text is parsed as is written as the text without white space; and two texts are parsed as
one expression just when both are accepted and differ in white space only. -/
theorem parse_inverts_text :
    (∀ e : TypeExpr, isName e.root.toList = true → e.Single → TypeExpr.parse e.text = .ok e) ∧
    (∀ (s : String) (e : TypeExpr), TypeExpr.parse s = .ok e → e.text.toList = unspaced s) ∧
    (∀ s t : String, (∃ e, TypeExpr.parse s = .ok e ∧ TypeExpr.parse t = .ok e) ↔
      (∃ e, TypeExpr.parse s = .ok e) ∧ (∃ f, TypeExpr.parse t = .ok f) ∧
        unspaced s = unspaced t) := by
  simp only [TypeExpr.parse_eq_ok_iff]
  refine ⟨fun e hn hs => read_text hs hn, fun s e => text_of_read, fun s t => ⟨?_, ?_⟩⟩
  · rintro ⟨e, hs, ht⟩
    exact ⟨⟨e, hs⟩, ⟨e, ht⟩, (text_of_read hs).symm.trans (text_of_read ht)⟩
  · rintro ⟨⟨e, hs⟩, ⟨f, ht⟩, heq⟩
    have htext : e.text = f.text := by
      rw [← String.toList_inj, text_of_read hs, text_of_read ht, heq]
    have hread := read_text_of_read hs
    rw [htext, read_text_of_read ht] at hread
    obtain rfl := Except.ok.inj hread
    exact ⟨f, hs, ht⟩

/-- A list of pages without nulls, from its written form and from a text with white space at every
joint. -/
theorem page_list_reread :
    isName (TypeExpr.nonNull (.list (.nonNull (.named "Page")))).root.toList = true ∧
    (TypeExpr.nonNull (.list (.nonNull (.named "Page")))).Single ∧
    TypeExpr.parse (TypeExpr.nonNull (.list (.nonNull (.named "Page")))).text
      = .ok (.nonNull (.list (.nonNull (.named "Page")))) ∧
    TypeExpr.parse " [ Page !\t] ! " = .ok (.nonNull (.list (.nonNull (.named "Page")))) ∧
    (TypeExpr.nonNull (.list (.nonNull (.named "Page")))).text.toList
      = unspaced " [ Page !\t] ! " := by
  have hname : isName (TypeExpr.nonNull (.list (.nonNull (.named "Page")))).root.toList = true :=
    rfl
  have hsingle : (TypeExpr.nonNull (.list (.nonNull (.named "Page")))).Single := by
    simp [TypeExpr.Single]
  have hspace : Blank [' '] := by simp [Blank, isWhite]
  have htab : Blank ['\t'] := by simp [Blank, isWhite]
  have hpage : Derives .atom ['P', 'a', 'g', 'e'] (.named "Page") := .name rfl
  have hpages : Derives .sentence " [ Page !\t] ! ".toList
      (.nonNull (.list (.nonNull (.named "Page")))) :=
    .sentence hspace (.marked (.list hspace (.marked hpage hspace) htab) hspace) hspace
  have hspaced : TypeExpr.parse " [ Page !\t] ! "
      = .ok (.nonNull (.list (.nonNull (.named "Page")))) :=
    TypeExpr.parse_eq_ok_iff.2 (read_eq_ok_iff.2 hpages)
  exact ⟨hname, hsingle, parse_inverts_text.1 _ hname hsingle, hspaced,
    parse_inverts_text.2.1 _ _ hspaced⟩

end SchemaGraph
