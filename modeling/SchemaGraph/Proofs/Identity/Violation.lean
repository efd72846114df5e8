/-
**The first violation.**

What an identifier holds has places.  The name of an identifier stands at the place of the
identifier, before what the identifier holds; option `i` has its name at `[i, 0]` below it and its
value at `[i, 1]`; item `j` of a list stands at `[j]` below the list.  Places are read in the order
of a dictionary: that is the order in which options were entered, and what encloses comes before
what is enclosed.

A violation is a blank name, a blank option name or a float that is not finite, at a place that is
reached through lists and identifiers.  It is blamed on the innermost identifier that encloses it,
and a float on the option of that identifier whose value holds it through lists alone.

Main definitions:

* `Value.Reaches` — what a value holds through lists alone, with its place;
* `Identifier.Encloses` — the identifiers within an identifier, itself included, with their places;
* `Identifier.Flaw`, `Identifier.Violation` — the violations of an identifier itself and of all that
  it encloses, with their places and what they are blamed on;
* `Reports` — an answer is what stands at the first place, or there is nothing;
* `Identifier.Flawless` — an identifier has no violation of its own.

Main results:

* `Reports.findSome?` — parts that are looked at in turn;
* `Value.reports`, `Identifier.reports` — the fault that is found is the first violation;
* `first_violation_reported` — **an identifier is accepted exactly when it has a stable form at every
  depth, and otherwise the first violation is reported**.
-/

import Mathlib.Data.List.Basic
import SchemaGraph.Proofs.Identity.Agreement

set_option autoImplicit false

namespace SchemaGraph

open Decimal (Binary64)

/-! ### Places -/

/-- The value at a place within a value, reached through lists alone. -/
inductive Value.Reaches : Value → List Nat → Value → Prop where
  | here (v : Value) : Value.Reaches v [] v
  | item {items : List Value} {j : Nat} {v w : Value} {p : List Nat} :
      items[j]? = some v → Value.Reaches v p w → Value.Reaches (.list items) (j :: p) w

/-- The identifier at a place within an identifier, reached through options and lists. -/
inductive Identifier.Encloses : Identifier → List Nat → Identifier → Prop where
  | self (id : Identifier) : Identifier.Encloses id [] id
  | option {id inner innermost : Identifier} {i : Nat} {n : String} {v : Value} {p q : List Nat} :
      id.config[i]? = some (n, v) → v.Reaches p (.type inner) →
      Identifier.Encloses inner q innermost → Identifier.Encloses id (i :: 1 :: (p ++ q)) innermost

/-- The violations of an identifier itself, leaving aside what it encloses, each with its place and
what it is blamed on: its name, the name of an option, and a float that an option holds through
lists alone. -/
inductive Identifier.Flaw (id : Identifier) : List Nat → IdentifierError → Prop where
  | name : Text.isBlank id.name = true → Flaw id [] .emptyName
  | option {i : Nat} {n : String} {v : Value} :
      id.config[i]? = some (n, v) → Text.isBlank n = true → Flaw id [i, 0] (.emptyOption id.name)
  | float {i : Nat} {n : String} {v : Value} {q : List Nat} {x : Binary64} :
      id.config[i]? = some (n, v) → v.Reaches q (.float x) → x.isFinite = false →
      Flaw id (i :: 1 :: q) (.nonFiniteFloat id.name n)

/-- The violations within an identifier, each with its place and what it is blamed on. -/
inductive Identifier.Violation (id : Identifier) : List Nat → IdentifierError → Prop where
  | within {inner : Identifier} {p q : List Nat} {e : IdentifierError} :
      id.Encloses p inner → inner.Flaw q e → Violation id (p ++ q) e

/-- The violations within the value of an option, each with its place. -/
inductive Value.Violation (typeName option : String) (v : Value) :
    List Nat → IdentifierError → Prop where
  | float {q : List Nat} {x : Binary64} : v.Reaches q (.float x) → x.isFinite = false →
      Violation typeName option v q (.nonFiniteFloat typeName option)
  | type {inner : Identifier} {q r : List Nat} {e : IdentifierError} :
      v.Reaches q (.type inner) → inner.Violation r e → Violation typeName option v (q ++ r) e

/-! ### The first of what is found -/

/-- The answer is what stands at the first place, or there is nothing. -/
def Reports {ε : Type} (answer : Option ε) (V : List Nat → ε → Prop) : Prop :=
  match answer with
  | none => ∀ p e, ¬ V p e
  | some e => ∃ p, V p e ∧ ∀ p' e', V p' e' → (p' = p ∧ e' = e) ∨ p < p'

namespace Reports

variable {ε : Type} {o o' : Option ε} {V W : List Nat → ε → Prop}

theorem congr (h : Reports o V) (hVW : ∀ p e, W p e ↔ V p e) : Reports o W := by
  have hV : W = V := funext fun p => funext fun e => propext (hVW p e)
  rwa [hV]

/-- What is looked for at one place alone. -/
theorem single {b : Bool} {e : ε} (p : List Nat) :
    Reports (if b then some e else none) fun p' e' => b = true ∧ p' = p ∧ e' = e := by
  cases b with
  | false => exact fun _ _ h => Bool.false_ne_true h.1
  | true => exact ⟨p, ⟨rfl, rfl, rfl⟩, fun _ _ h => Or.inl h.2⟩

/-- What is looked at first comes first. -/
theorem or (hV : Reports o V) (hW : Reports o' W)
    (hlt : ∀ p e p' e', V p e → W p' e' → p < p') :
    Reports (o.or o') fun p e => V p e ∨ W p e := by
  cases o with
  | some e =>
      obtain ⟨p, hp, hfirst⟩ := hV
      refine ⟨p, Or.inl hp, fun p' e' h => ?_⟩
      exact h.elim (hfirst p' e') fun h => Or.inr (hlt p e p' e' hp h)
  | none => exact hW.congr fun p e => or_iff_right (hV p e)

/-- The places of a part, seen from the whole. -/
theorem below (h : Reports o V) (i : Nat) :
    Reports o fun p e => ∃ q, p = i :: q ∧ V q e := by
  cases o with
  | none =>
      rintro _ e ⟨q, -, hq⟩
      exact h q e hq
  | some e =>
      obtain ⟨p, hp, hfirst⟩ := h
      refine ⟨i :: p, ⟨p, rfl, hp⟩, ?_⟩
      rintro _ e' ⟨q, rfl, hq⟩
      refine (hfirst q e' hq).imp (fun h => ⟨by rw [h.1], h.2⟩) fun h => ?_
      exact List.cons_lt_cons_iff.2 (Or.inr ⟨rfl, h⟩)

/-- Parts that are looked at in turn, each at the place of its number. -/
theorem findSome? {α : Type} {f : α → Option ε} {P : α → List Nat → ε → Prop} {xs : List α}
    (h : ∀ x ∈ xs, Reports (f x) (P x)) :
    Reports (xs.findSome? f) fun p e => ∃ i x q, xs[i]? = some x ∧ p = i :: q ∧ P x q e := by
  cases hanswer : xs.findSome? f with
  | none =>
      rintro _ e ⟨i, x, q, hx, -, hq⟩
      have hmem := List.mem_of_getElem? hx
      have hx := h x hmem
      rw [List.findSome?_eq_none_iff.1 hanswer x hmem] at hx
      exact hx q e hq
  | some e =>
      obtain ⟨before, x, after, rfl, hx, hbefore⟩ := List.findSome?_eq_some_iff.1 hanswer
      have hreports := h x (by simp)
      rw [hx] at hreports
      obtain ⟨q, hq, hfirst⟩ := hreports
      refine ⟨before.length :: q, ⟨before.length, x, q, by simp, rfl, hq⟩, ?_⟩
      rintro _ e' ⟨i, y, r, hy, rfl, hr⟩
      rw [List.cons_lt_cons_iff]
      rcases Nat.lt_trichotomy i before.length with hi | rfl | hi
      · -- the parts before have no violation
        rw [List.getElem?_append_left hi] at hy
        have hmem := List.mem_of_getElem? hy
        have hnone := h y (List.mem_append_left _ hmem)
        rw [hbefore y hmem] at hnone
        exact absurd hr (hnone r e')
      · obtain rfl : x = y := by simpa using hy
        refine (hfirst r e' hr).imp (fun h => ⟨by rw [h.1], h.2⟩) fun h => Or.inr ⟨rfl, h⟩
      · exact Or.inr (Or.inl hi)

end Reports

/-! ### The violations of a whole are those of its parts -/

/-- A plain value holds no violation but itself. -/
theorem Value.violation_plain_iff {typeName option : String} {v : Value} (hv : v.isPlain = true)
    {p : List Nat} {e : IdentifierError} : v.Violation typeName option p e ↔
      ∃ x, v = .float x ∧ x.isFinite = false ∧ p = [] ∧ e = .nonFiniteFloat typeName option := by
  constructor
  · rintro (⟨hreaches, hx⟩ | ⟨hreaches, -⟩)
    · cases hreaches with
      | here => exact ⟨_, rfl, hx, rfl, rfl⟩
      | item => cases hv
    · cases hreaches <;> cases hv
  · rintro ⟨x, rfl, hx, rfl, rfl⟩
    exact .float (.here _) hx

theorem Value.violation_list_iff {typeName option : String} {items : List Value} {p : List Nat}
    {e : IdentifierError} : (Value.list items).Violation typeName option p e ↔
      ∃ i v q, items[i]? = some v ∧ p = i :: q ∧ v.Violation typeName option q e := by
  constructor
  · rintro (⟨hreaches, hx⟩ | ⟨hreaches, hinner⟩)
    · cases hreaches with
      | item hv hreaches => exact ⟨_, _, _, hv, rfl, .float hreaches hx⟩
    · cases hreaches with
      | item hv hreaches => exact ⟨_, _, _, hv, rfl, .type hreaches hinner⟩
  · rintro ⟨i, v, q, hv, rfl, ⟨hreaches, hx⟩ | ⟨hreaches, hinner⟩⟩
    · exact .float (.item hv hreaches) hx
    · exact .type (.item hv hreaches) hinner

theorem Value.violation_type_iff {typeName option : String} {id : Identifier} {p : List Nat}
    {e : IdentifierError} : (Value.type id).Violation typeName option p e ↔ id.Violation p e := by
  constructor
  · rintro (⟨hreaches, -⟩ | ⟨hreaches, hinner⟩)
    · cases hreaches
    · cases hreaches
      exact hinner
  · exact fun h => .type (.here _) h

/-- A violation is the name, or within an option: its name, or in its value. -/
theorem Identifier.violation_iff {id : Identifier} {p : List Nat} {e : IdentifierError} :
    id.Violation p e ↔
      (Text.isBlank id.name = true ∧ p = [] ∧ e = .emptyName) ∨
        ∃ i o q, id.config[i]? = some o ∧ p = i :: q ∧
          ((Text.isBlank o.1 = true ∧ q = [0] ∧ e = .emptyOption id.name) ∨
            ∃ r, q = 1 :: r ∧ o.2.Violation id.name o.1 r e) := by
  constructor
  · rintro ⟨hencloses, hflaw⟩
    cases hencloses with
    | self =>
        cases hflaw with
        | name hname => exact Or.inl ⟨hname, rfl, rfl⟩
        | option ho hname => exact Or.inr ⟨_, _, _, ho, rfl, Or.inl ⟨hname, rfl, rfl⟩⟩
        | float ho hreaches hx =>
            exact Or.inr ⟨_, _, _, ho, rfl, Or.inr ⟨_, rfl, .float hreaches hx⟩⟩
    | option ho hreaches hinner =>
        refine Or.inr ⟨_, _, _, ho, rfl, Or.inr ⟨_, rfl, ?_⟩⟩
        rw [List.append_eq, List.append_assoc]
        exact .type hreaches (.within hinner hflaw)
  · rintro (⟨hname, rfl, rfl⟩ | ⟨i, o, q, ho, rfl, ⟨hname, rfl, rfl⟩ | ⟨r, rfl, hvalue⟩⟩)
    · exact .within (.self id) (.name hname)
    · exact .within (.self id) (.option ho hname)
    · cases hvalue with
      | float hreaches hx => exact .within (.self id) (.float ho hreaches hx)
      | type hreaches hinner =>
          cases hinner with
          | within hencloses hflaw =>
              have h := Violation.within (.option ho hreaches hencloses) hflaw
              simpa using h

/-! ### The fault that is found is the first violation -/

theorem itemsFault?_eq_findSome? (typeName option : String) (items : List Value) :
    itemsFault? typeName option items = items.findSome? fun v => v.fault? typeName option := by
  induction items with
  | nil => rw [itemsFault?, List.findSome?_nil]
  | cons v items ih =>
      rw [itemsFault?, List.findSome?_cons, ih]
      cases v.fault? typeName option <;> rfl

theorem optionsFault?_eq_findSome? (typeName : String) (options : Config) :
    optionsFault? typeName options = options.findSome? fun o =>
      (if Text.isBlank o.1 then some (.emptyOption typeName) else none).or
        (o.2.fault? typeName o.1) := by
  induction options with
  | nil => rw [optionsFault?, List.findSome?_nil]
  | cons o options ih =>
      rw [optionsFault?_cons, List.findSome?_cons, ih]
      cases Text.isBlank o.1 <;> cases o.2.fault? typeName o.1 <;> rfl

/-- An identifier reports its first violation when the values of its options do. -/
theorem Identifier.reports_of_values {id : Identifier}
    (h : ∀ o ∈ id.config, Reports (o.2.fault? id.name o.1) (o.2.Violation id.name o.1)) :
    Reports id.fault? id.Violation := by
  have hoption : ∀ o ∈ id.config, Reports
      ((if Text.isBlank o.1 then some (.emptyOption id.name) else none).or
        (o.2.fault? id.name o.1))
      fun q e => (Text.isBlank o.1 = true ∧ q = [0] ∧ e = .emptyOption id.name) ∨
        ∃ r, q = 1 :: r ∧ o.2.Violation id.name o.1 r e := by
    intro o ho
    refine (Reports.single [0]).or ((h o ho).below 1) ?_
    rintro _ _ _ _ ⟨-, rfl, -⟩ ⟨r, rfl, -⟩
    exact List.cons_lt_cons_iff.2 (Or.inl Nat.zero_lt_one)
  have hfault : id.fault? = (if Text.isBlank id.name then some .emptyName else none).or
      (optionsFault? id.name id.config) := by
    rw [Identifier.fault?_eq]
    cases Text.isBlank id.name <;> rfl
  rw [hfault, optionsFault?_eq_findSome?]
  refine ((Reports.single []).or (Reports.findSome? hoption) ?_).congr fun p e =>
    Identifier.violation_iff
  rintro _ _ _ _ ⟨-, rfl, -⟩ ⟨i, o, q, -, rfl, -⟩
  exact List.nil_lt_cons _ _

/-- What is found in the value of an option is the first violation in it. -/
theorem Value.reports (v : Value) :
    ∀ typeName option, Reports (v.fault? typeName option) (v.Violation typeName option) := by
  induction v using Value.nested_induction with
  | plain v hv =>
      intro typeName option
      cases v with
      | list | type => cases hv
      | float x =>
          have hfault : (Value.float x).fault? typeName option =
              if !x.isFinite then some (.nonFiniteFloat typeName option) else none := by
            rw [Value.fault?]
            cases x.isFinite <;> rfl
          rw [hfault]
          refine (Reports.single []).congr fun p e => ?_
          rw [Value.violation_plain_iff rfl]
          simp
      | _ =>
          intro p e h
          obtain ⟨x, hfloat, -⟩ := (Value.violation_plain_iff rfl).1 h
          cases hfloat
  | list items ih =>
      intro typeName option
      rw [Value.fault?, itemsFault?_eq_findSome?]
      exact (Reports.findSome? fun v hv => ih v hv typeName option).congr
        fun p e => Value.violation_list_iff
  | type id ih =>
      intro typeName option
      rw [Value.fault?]
      exact (Identifier.reports_of_values fun o ho => ih o ho _ _).congr
        fun p e => Value.violation_type_iff

/-- What is found in an identifier is the first violation in it. -/
theorem Identifier.reports (id : Identifier) : Reports id.fault? id.Violation :=
  reports_of_values fun o _ => o.2.reports id.name o.1

theorem Reports.eq_none_iff {ε : Type} {o : Option ε} {V : List Nat → ε → Prop}
    (h : Reports o V) : o = none ↔ ∀ p e, ¬ V p e := by
  cases o with
  | none => exact iff_of_true rfl h
  | some e =>
      obtain ⟨p, hp, -⟩ := h
      exact iff_of_false (by simp) fun hnone => hnone p e hp

theorem Reports.eq_some_iff {ε : Type} {o : Option ε} {V : List Nat → ε → Prop}
    (h : Reports o V) (e : ε) :
    o = some e ↔ ∃ p, V p e ∧ ∀ p' e', V p' e' → (p' = p ∧ e' = e) ∨ p < p' := by
  constructor
  · rintro rfl
    exact h
  · rintro ⟨p, hp, hfirst⟩
    cases o with
    | none => exact absurd hp (h p e)
    | some e₀ =>
        obtain ⟨p₀, hp₀, hfirst₀⟩ := h
        rcases hfirst p₀ e₀ hp₀ with ⟨-, rfl⟩ | hlt
        · rfl
        · -- each of the two places would come before the other
          rcases hfirst₀ p e hp with ⟨-, rfl⟩ | hlt'
          · rfl
          · exact absurd hlt' (List.lt_asymm hlt)

theorem Text.isBlank_eq_false_iff {s : String} :
    Text.isBlank s = false ↔ ∃ c ∈ s.toList, Text.isSpace c = false := by
  rw [← Bool.not_eq_true, Text.isBlank_iff]
  simp

/-- An identifier has no violation of its own: its name is not blank, the names of its options are
not, and the floats that these hold through lists are finite. -/
structure Identifier.Flawless (id : Identifier) : Prop where
  name : ∃ c ∈ id.name.toList, Text.isSpace c = false
  option : ∀ p ∈ id.config, ∃ c ∈ p.1.toList, Text.isSpace c = false
  float : ∀ p ∈ id.config, ∀ q x, p.2.Reaches q (.float x) → x.isFinite = true

theorem Identifier.flawless_iff {id : Identifier} : id.Flawless ↔ ∀ q e, ¬ id.Flaw q e := by
  constructor
  · rintro ⟨hname, hoption, hfloat⟩ q e (hblank | ⟨ho, hblank⟩ | ⟨ho, hreaches, hx⟩)
    · rw [← Text.isBlank_eq_false_iff, hblank] at hname
      cases hname
    · have hname := Text.isBlank_eq_false_iff.2 (hoption _ (List.mem_of_getElem? ho))
      rw [hblank] at hname
      cases hname
    · rw [hfloat _ (List.mem_of_getElem? ho) _ _ hreaches] at hx
      cases hx
  · intro h
    refine ⟨?_, fun o ho => ?_, fun o ho q x hreaches => ?_⟩
    · rw [← Text.isBlank_eq_false_iff, ← Bool.not_eq_true]
      exact fun hblank => h _ _ (.name hblank)
    · obtain ⟨i, hi⟩ := List.getElem?_of_mem ho
      rw [← Text.isBlank_eq_false_iff, ← Bool.not_eq_true]
      exact fun hblank => h _ _ (.option hi hblank)
    · obtain ⟨i, hi⟩ := List.getElem?_of_mem ho
      rw [← Bool.not_eq_false]
      exact fun hx => h _ _ (.float hi hreaches hx)

/-- **An identifier is accepted exactly when it has a stable form, and otherwise its first violation
is reported.**

An identifier is accepted when all identifiers within it, at any depth of options and lists, have
names and option names that are not blank and hold finite floats.  Otherwise the answer is the
violation at the first place, in the order in which options were entered, names before what they
name; what it is blamed on belongs to the innermost identifier around that place. -/
theorem first_violation_reported (id : Identifier) :
    (id.fault? = none ↔ ∀ p inner, id.Encloses p inner → inner.Flawless)
      ∧ ∀ e, id.fault? = some e ↔ ∃ p, id.Violation p e ∧
          ∀ p' e', id.Violation p' e' → (p' = p ∧ e' = e) ∨ p < p' := by
  refine ⟨?_, id.reports.eq_some_iff⟩
  rw [id.reports.eq_none_iff]
  constructor
  · intro h p inner hencloses
    exact Identifier.flawless_iff.2 fun q e hflaw => h _ e (.within hencloses hflaw)
  · rintro h _ e ⟨hencloses, hflaw⟩
    exact Identifier.flawless_iff.1 (h _ _ hencloses) _ e hflaw

/-- What an option holds comes before the name of the next option. -/
example : Identifier.fault? ⟨"Pair", [("of", .list [.type ⟨" ", []⟩]), ("", .null)]⟩
    = some .emptyName := by
  decide +kernel

end SchemaGraph
