/-
**Where a word ends.**

A word that avoids certain characters ends at the first of them.  The same holds for a list of words
between separators when each of its words can be told from what follows.

Main definitions:

* `StopsAt` — a text is empty or goes on with a character of a given kind;
* `Legible` — two texts can be told apart from what follows them, up to a relation.

Main results:

* `append_inj_of_stopsAt` — a word ends at the first character of another kind;
* `flatMap_append_inj` — words in a row are read back one by one;
* `intercalate_append_inj` — **separated words are read back one by one**.
-/

import Mathlib.Data.List.Forall2

set_option autoImplicit false

namespace SchemaGraph.Text

/-! ### Words -/

/-- The text is empty, or goes on with a character of this kind. -/
def StopsAt (stop : Char → Bool) (r : List Char) : Prop := ∀ c ∈ r.head?, stop c = true

theorem append_inj_of_stopsAt {stop : Char → Bool} {l l' r r' : List Char}
    (hl : ∀ c ∈ l, stop c = false) (hl' : ∀ c ∈ l', stop c = false) (hr : StopsAt stop r)
    (hr' : StopsAt stop r') (h : l ++ r = l' ++ r') : l = l' ∧ r = r' := by
  induction l generalizing l' with
  | nil =>
      cases l' with
      | nil => exact ⟨rfl, h⟩
      | cons d l' =>
          have hd := hl' d List.mem_cons_self
          have hr := hr d (by rw [← List.nil_append r, h]; rfl)
          rw [hd] at hr
          exact Bool.noConfusion hr
  | cons c l ih =>
      cases l' with
      | nil =>
          have hc := hl c List.mem_cons_self
          have hr' := hr' c (by rw [← List.nil_append r', ← h]; rfl)
          rw [hc] at hr'
          exact Bool.noConfusion hr'
      | cons d l' =>
          simp only [List.cons_append, List.cons.injEq] at h
          obtain ⟨rfl, h⟩ := h
          obtain ⟨rfl, hrr⟩ := ih (fun x hx => hl x (List.mem_cons_of_mem _ hx))
            (fun x hx => hl' x (List.mem_cons_of_mem _ hx)) h
          exact ⟨rfl, hrr⟩

theorem stopsAt_cons {stop : Char → Bool} {c : Char} (hc : stop c = true) (r : List Char) :
    StopsAt stop (c :: r) := by
  intro d hd
  rw [List.head?_cons, Option.mem_some_iff] at hd
  exact hd ▸ hc

/-! ### Words in a row -/

/-- Words in a row are read back one by one, when each of them is from what can follow it, and none
starts with the closing character. -/
theorem flatMap_append_inj {α β : Type} {text : α → List Char} {text' : β → List Char}
    {agree : α → β → Prop} {close : Char} {xs : List α} {ys : List β} {r r' : List Char}
    (stop : Char → Bool) (hclose : stop close = true)
    (hlegible : ∀ x ∈ xs, ∀ y ∈ ys, ∀ r r', StopsAt stop r → StopsAt stop r' →
      text x ++ r = text' y ++ r' → agree x y ∧ r = r')
    (hx : ∀ x ∈ xs, ∃ c t, text x = c :: t ∧ stop c = true ∧ c ≠ close)
    (hy : ∀ y ∈ ys, ∃ c t, text' y = c :: t ∧ stop c = true ∧ c ≠ close)
    (h : xs.flatMap text ++ close :: r = ys.flatMap text' ++ close :: r') :
    List.Forall₂ agree xs ys ∧ r = r' := by
  -- what follows a word starts with the next word or with the closing character
  have hfollow : ∀ {γ : Type} {word : γ → List Char} {zs : List γ} {r : List Char},
      (∀ z ∈ zs, ∃ c t, word z = c :: t ∧ stop c = true ∧ c ≠ close) →
      StopsAt stop (zs.flatMap word ++ close :: r) := by
    intro γ word zs r hz
    cases zs with
    | nil => exact stopsAt_cons hclose r
    | cons z zs =>
        obtain ⟨c, t, hc, hstop, -⟩ := hz z List.mem_cons_self
        rw [List.flatMap_cons, hc]
        exact stopsAt_cons hstop _
  induction xs generalizing ys with
  | nil =>
      cases ys with
      | nil => exact ⟨.nil, (List.cons.inj h).2⟩
      | cons y ys =>
          obtain ⟨c, t, hc, -, hne⟩ := hy y List.mem_cons_self
          rw [List.flatMap_cons, hc] at h
          exact absurd (List.cons.inj h).1.symm hne
  | cons x xs ih =>
      cases ys with
      | nil =>
          obtain ⟨c, t, hc, -, hne⟩ := hx x List.mem_cons_self
          rw [List.flatMap_cons, hc] at h
          exact absurd (List.cons.inj h).1 hne
      | cons y ys =>
          have hxs := fun a ha => hx a (List.mem_cons_of_mem x ha)
          have hys := fun b hb => hy b (List.mem_cons_of_mem y hb)
          rw [List.flatMap_cons, List.flatMap_cons, List.append_assoc, List.append_assoc] at h
          obtain ⟨hxy, hrest⟩ := hlegible x List.mem_cons_self y List.mem_cons_self _ _
            (hfollow hxs) (hfollow hys) h
          obtain ⟨hall, hr⟩ := ih (fun a ha b hb =>
            hlegible a (List.mem_cons_of_mem x ha) b (List.mem_cons_of_mem y hb)) hxs hys hrest
          exact ⟨.cons hxy hall, hr⟩

/-! ### Separated words -/

section Separated

variable {α : Type} {text : α → List Char} {agree : α → α → Prop} {stop : Char → Bool}
  {close : Char} {xs ys : List α} {r r' : List Char}

/-- The texts of two things, each followed by more, agree only when the things and what follows
do. -/
def Legible (stop : Char → Bool) (text : α → List Char) (agree : α → α → Prop) (x y : α) : Prop :=
  ∀ r r', StopsAt stop r → StopsAt stop r' → text x ++ r = text y ++ r' → agree x y ∧ r = r'

/-- What stands after the first word starts with a separator or with the closing character. -/
theorem stopsAt_separated (hsep : stop ',' = true) (hclose : stop close = true) (xs : List α)
    (r : List Char) : StopsAt stop ((xs.flatMap fun x => ',' :: text x) ++ close :: r) := by
  cases xs with
  | nil => exact stopsAt_cons hclose r
  | cons x xs =>
      rw [List.flatMap_cons, List.append_assoc, List.cons_append]
      exact stopsAt_cons hsep _

theorem separated_append_inj (hsep : stop ',' = true) (hclose : stop close = true)
    (hne : close ≠ ',') (hlegible : ∀ x ∈ xs, ∀ y ∈ ys, Legible stop text agree x y)
    (h : (xs.flatMap fun x => ',' :: text x) ++ close :: r
      = (ys.flatMap fun y => ',' :: text y) ++ close :: r') :
    List.Forall₂ agree xs ys ∧ r = r' := by
  refine flatMap_append_inj stop hclose (fun x hx y hy r r' hr hr' h => ?_)
    (fun x _ => ⟨_, _, rfl, hsep, hne.symm⟩) (fun y _ => ⟨_, _, rfl, hsep, hne.symm⟩) h
  exact hlegible x hx y hy r r' hr hr' (List.cons.inj h).2

theorem intercalate_cons (c : Char) (l : List Char) (ls : List (List Char)) :
    List.intercalate [c] (l :: ls) = l ++ ls.flatMap fun m => c :: m := by
  induction ls generalizing l with
  | nil => simp
  | cons m ls ih => rw [List.intercalate_cons_cons, ih, List.flatMap_cons]; simp

/-- **Separated words are read back one by one**, when none of them starts with the closing
character. -/
theorem intercalate_append_inj (hsep : stop ',' = true) (hclose : stop close = true)
    (hne : close ≠ ',') (hlegible : ∀ x ∈ xs, ∀ y ∈ ys, Legible stop text agree x y)
    (hx : ∀ x ∈ xs, ∃ c t, text x = c :: t ∧ c ≠ close)
    (hy : ∀ y ∈ ys, ∃ c t, text y = c :: t ∧ c ≠ close)
    (h : List.intercalate [','] (xs.map text) ++ close :: r
      = List.intercalate [','] (ys.map text) ++ close :: r') :
    List.Forall₂ agree xs ys ∧ r = r' := by
  cases xs with
  | nil =>
      cases ys with
      | nil => exact ⟨.nil, (List.cons.inj h).2⟩
      | cons y ys =>
          obtain ⟨c, t, hc, hcne⟩ := hy y List.mem_cons_self
          rw [List.map_cons, intercalate_cons, hc] at h
          exact absurd (List.cons.inj h).1.symm hcne
  | cons x xs =>
      cases ys with
      | nil =>
          obtain ⟨c, t, hc, hcne⟩ := hx x List.mem_cons_self
          rw [List.map_cons, intercalate_cons, hc] at h
          exact absurd (List.cons.inj h).1 hcne
      | cons y ys =>
          rw [List.map_cons, List.map_cons, intercalate_cons, intercalate_cons, List.flatMap_map,
            List.flatMap_map, List.append_assoc, List.append_assoc] at h
          obtain ⟨hxy, hrest⟩ := hlegible x List.mem_cons_self y List.mem_cons_self _ _
            (stopsAt_separated hsep hclose xs r) (stopsAt_separated hsep hclose ys r') h
          obtain ⟨hxs, hr⟩ := separated_append_inj hsep hclose hne (fun a ha b hb =>
            hlegible a (List.mem_cons_of_mem x ha) b (List.mem_cons_of_mem y hb)) hrest
          exact ⟨.cons hxy hxs, hr⟩

end Separated

end SchemaGraph.Text
