/-
**Identifiers with a stable form.**

An identifier can be given a key when, at every depth, its names and option names are not blank and
its floats are finite.  The first violation is reported, reading an identifier before its options
and an option's name before its value.

Main definitions:

* `IdentifierError`, `IdentifierError.message` — the violations and their texts;
* `Identifier.fault?` — the first violation.

Main results:

* `Identifier.fault?_eq` — the name is looked at before the options;
* `optionsFault?_cons` — an option's name is looked at before its value, and both before the rest;
* `itemsFault?_eq_none_iff`, `optionsFault?_eq_none_iff` — there is no violation when no part has
  one.
-/

import SchemaGraph.Identity.Value
import SchemaGraph.Text.Blank

set_option autoImplicit false

namespace SchemaGraph

/-! ### Violations -/

/-- Why an identifier has no stable form. -/
inductive IdentifierError where
  /-- A type name is blank. -/
  | emptyName
  /-- An option name of the type is blank. -/
  | emptyOption (typeName : String)
  /-- An option of the type holds an infinite float or one that is not a number. -/
  | nonFiniteFloat (typeName option : String)
deriving DecidableEq, Repr, Inhabited

/-- The text of a violation. -/
def IdentifierError.message : IdentifierError → String
  | .emptyName => "type name must not be empty"
  | .emptyOption typeName => "option names must not be empty (type `" ++ typeName ++ "`)"
  | .nonFiniteFloat typeName option =>
    "option `" ++ option ++ "` of type `" ++ typeName ++ "` is not a finite number"

/-! ### The first violation -/

mutual

/-- The first violation in the value of an option. -/
def Value.fault? (typeName option : String) : Value → Option IdentifierError
  | .float x => if x.isFinite then none else some (.nonFiniteFloat typeName option)
  | .list items => itemsFault? typeName option items
  | .type id => id.fault?
  | _ => none
termination_by structural v => v

/-- The first violation in an identifier. -/
def Identifier.fault? : Identifier → Option IdentifierError
  | ⟨name, options⟩ =>
    if Text.isBlank name then some .emptyName else optionsFault? name options
termination_by structural id => id

/-- The first violation in the items of a list. -/
def itemsFault? (typeName option : String) : List Value → Option IdentifierError
  | [] => none
  | v :: items => (v.fault? typeName option).or (itemsFault? typeName option items)
termination_by structural items => items

/-- The first violation in the options of a type. -/
def optionsFault? (typeName : String) : List (String × Value) → Option IdentifierError
  | [] => none
  | (n, v) :: options =>
    if Text.isBlank n then some (.emptyOption typeName)
    else (v.fault? typeName n).or (optionsFault? typeName options)
termination_by structural options => options

end

theorem Identifier.fault?_eq (id : Identifier) :
    id.fault? = if Text.isBlank id.name then some .emptyName
      else optionsFault? id.name id.config := by
  cases id
  simp only [Identifier.fault?, Identifier.config]

theorem optionsFault?_cons (typeName n : String) (v : Value) (options : Config) :
    optionsFault? typeName ((n, v) :: options) =
      if Text.isBlank n then some (.emptyOption typeName)
      else (v.fault? typeName n).or (optionsFault? typeName options) := by
  simp only [optionsFault?]

theorem itemsFault?_eq_none_iff (typeName option : String) (items : List Value) :
    itemsFault? typeName option items = none
      ↔ ∀ v ∈ items, v.fault? typeName option = none := by
  induction items with
  | nil => simp [itemsFault?]
  | cons v items ih => rw [itemsFault?, Option.or_eq_none_iff, ih, List.forall_mem_cons]

theorem optionsFault?_eq_none_iff (typeName : String) (options : Config) :
    optionsFault? typeName options = none
      ↔ ∀ p ∈ options, Text.isBlank p.1 = false ∧ p.2.fault? typeName p.1 = none := by
  induction options with
  | nil => simp [optionsFault?]
  | cons p options ih =>
      rw [optionsFault?_cons, List.forall_mem_cons, ← ih]
      cases Text.isBlank p.1 <;> simp

/-- Whether an identifier has a stable form. -/
def Identifier.isValid (id : Identifier) : Bool := id.fault?.isNone

end SchemaGraph
