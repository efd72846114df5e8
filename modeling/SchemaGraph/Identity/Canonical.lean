/-
**The texts of an identifier.**

Every identifier has two texts.  Its canonical text quotes every name and sorts options by name, at
every depth, so that it depends on the identity alone; with the name of the scope it is what a key
is derived from.  Its display text is for readers: names stand as they are.

Main definitions:

* `Value.canonical`, `Identifier.canonical` — the canonical text;
* `canonicalIdentity` — the canonical text of an identifier in an optional scope;
* `Value.display`, `Identifier.display` — the display text;
* `Identifier.reference` — the display text in an optional scope.

Main results:

* `Identifier.canonical_eq`, `Identifier.display_eq` — both texts are the name followed by the
  sorted options, left out when there are none.
-/

import SchemaGraph.Identity.Value
import SchemaGraph.Decimal.Written
import SchemaGraph.Text.Quoted

set_option autoImplicit false

namespace SchemaGraph

open Text (quoted)

/-! ### Canonical text -/

mutual

/-- The canonical text of a value. -/
def Value.canonical : Value → String
  | .null => "null"
  | .bool b => if b then "true" else "false"
  | .int n => toString n
  | .float x => x.written
  | .text s => quoted s
  | .list items => "[" ++ ",".intercalate (canonicalItems items) ++ "]"
  | .type id => "@" ++ id.canonical
termination_by structural v => v

/-- The canonical text of an identifier. -/
def Identifier.canonical : Identifier → String
  | ⟨name, options⟩ =>
    match options with
    | [] => quoted name
    | _ :: _ =>
      quoted name ++ "\x7b" ++ ",".intercalate
        ((Dictionary.sorted (canonicalOptions options)).map fun p => quoted p.1 ++ ":" ++ p.2)
        ++ "\x7d"
termination_by structural id => id

/-- The canonical texts of the items of a list. -/
def canonicalItems : List Value → List String
  | [] => []
  | v :: items => v.canonical :: canonicalItems items
termination_by structural items => items

/-- The options with the canonical texts of their values. -/
def canonicalOptions : List (String × Value) → List (String × String)
  | [] => []
  | (n, v) :: options => (n, v.canonical) :: canonicalOptions options
termination_by structural options => options

end

theorem canonicalItems_eq_map (items : List Value) :
    canonicalItems items = items.map Value.canonical := by
  induction items with
  | nil => rfl
  | cons v items ih => simp only [canonicalItems, ih, List.map_cons]

theorem canonicalOptions_eq_map (options : Config) :
    canonicalOptions options = options.map fun p => (p.1, p.2.canonical) := by
  induction options with
  | nil => rfl
  | cons p options ih => simp only [canonicalOptions, ih, List.map_cons]

/-- The text that a key is derived from: the canonical text, and the quoted name of the scope or a
tilde when there is none. -/
def canonicalIdentity (id : Identifier) (scope : Option Context) : String :=
  id.canonical ++ "#" ++ match scope with
    | some c => quoted c.name
    | none => "~"

/-! ### Display text -/

mutual

/-- The display text of a value. -/
def Value.display : Value → String
  | .null => "null"
  | .bool b => if b then "true" else "false"
  | .int n => toString n
  | .float x => x.written
  | .text s => quoted s
  | .list items => "[" ++ ", ".intercalate (displayItems items) ++ "]"
  | .type id => id.display
termination_by structural v => v

/-- The display text of an identifier. -/
def Identifier.display : Identifier → String
  | ⟨name, options⟩ =>
    match options with
    | [] => name
    | _ :: _ =>
      name ++ "(" ++ ", ".intercalate
        ((Dictionary.sorted (displayOptions options)).map fun p => p.1 ++ ": " ++ p.2) ++ ")"
termination_by structural id => id

/-- The display texts of the items of a list. -/
def displayItems : List Value → List String
  | [] => []
  | v :: items => v.display :: displayItems items
termination_by structural items => items

/-- The options with the display texts of their values. -/
def displayOptions : List (String × Value) → List (String × String)
  | [] => []
  | (n, v) :: options => (n, v.display) :: displayOptions options
termination_by structural options => options

end

theorem displayItems_eq_map (items : List Value) :
    displayItems items = items.map Value.display := by
  induction items with
  | nil => rfl
  | cons v items ih => simp only [displayItems, ih, List.map_cons]

theorem displayOptions_eq_map (options : Config) :
    displayOptions options = options.map fun p => (p.1, p.2.display) := by
  induction options with
  | nil => rfl
  | cons p options ih => simp only [displayOptions, ih, List.map_cons]

theorem Identifier.canonical_eq (id : Identifier) :
    id.canonical = if id.isBare then quoted id.name
      else quoted id.name ++ "\x7b" ++ ",".intercalate
        ((Dictionary.sorted (id.config.map fun p => (p.1, p.2.canonical))).map
          fun p => quoted p.1 ++ ":" ++ p.2) ++ "\x7d" := by
  obtain ⟨name, options⟩ := id
  cases options with
  | nil => rfl
  | cons p options =>
      simp only [Identifier.canonical, Identifier.isBare, Identifier.config,
        canonicalOptions_eq_map, List.isEmpty_cons, Bool.false_eq_true, if_false]

theorem Identifier.display_eq (id : Identifier) :
    id.display = if id.isBare then id.name
      else id.name ++ "(" ++ ", ".intercalate
        ((Dictionary.sorted (id.config.map fun p => (p.1, p.2.display))).map
          fun p => p.1 ++ ": " ++ p.2) ++ ")" := by
  obtain ⟨name, options⟩ := id
  cases options with
  | nil => rfl
  | cons p options =>
      simp only [Identifier.display, Identifier.isBare, Identifier.config,
        displayOptions_eq_map, List.isEmpty_cons, Bool.false_eq_true, if_false]

/-- The display text of an identifier in an optional scope. -/
def Identifier.reference (id : Identifier) (scope : Option Context) : String :=
  match scope with
  | some c => id.display ++ "@" ++ c.name
  | none => id.display

end SchemaGraph
