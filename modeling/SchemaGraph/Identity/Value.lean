/-
**Identifiers and their option values.**

An identifier names a type that can be constructed: a registered name together with options.  An
option value is a primitive, a list of values, or again an identifier.  A context is a named scope;
its properties describe it and take no part in identity.

Main definitions:

* `Value`, `Identifier` — option values and identifiers;
* `Identifier.config` — the options as a dictionary;
* `Value.text?`, `Value.bool?`, `Value.int?`, `Value.list?`, `Value.type?` — the content of a value
  of a given kind;
* `Context` — a named scope;
* `Value.same`, `Identifier.same`, `Config.same` — equality, blind to the order of options.

Main results:

* `Identifier.same_eq` — identifiers are equal when their names are and their options are the same;
* `Value.same_list` — lists are compared item by item.
-/

import SchemaGraph.Decimal.Binary64
import SchemaGraph.Dictionary

set_option autoImplicit false

namespace SchemaGraph

open Decimal (Binary64)

/-! ### Values -/

mutual

/-- An option value. -/
inductive Value where
  | null
  | bool (b : Bool)
  | int (n : Int)
  | float (x : Binary64)
  | text (s : String)
  | list (items : List Value)
  | type (id : Identifier)

/-- The name of a type that can be constructed, with the options handed to its factory. -/
structure Identifier where
  name : String
  options : List (String × Value)

end

/-- Named options, in order of first entry. -/
abbrev Config := Dictionary String Value

instance : Inhabited Value := ⟨.null⟩

instance : Inhabited Identifier := ⟨⟨"", []⟩⟩

namespace Value

/-- The content of a text. -/
def text? : Value → Option String
  | .text s => some s
  | _ => none

/-- The content of a truth value. -/
def bool? : Value → Option Bool
  | .bool b => some b
  | _ => none

/-- The content of an integer. -/
def int? : Value → Option Int
  | .int n => some n
  | _ => none

/-- The items of a list. -/
def list? : Value → Option (List Value)
  | .list items => some items
  | _ => none

/-- The identifier that a value refers to. -/
def type? : Value → Option Identifier
  | .type id => some id
  | _ => none

end Value

/-! ### Identifiers -/

namespace Identifier

/-- A name without options. -/
def bare (name : String) : Identifier := ⟨name, []⟩

/-- The options as a dictionary. -/
def config (id : Identifier) : Config := id.options

/-- The identifier without options is the bare name. -/
def isBare (id : Identifier) : Bool := id.config.isEmpty

/-- The value of an option. -/
def option? (id : Identifier) (name : String) : Option Value := Dictionary.find? name id.config

/-- The identifier with an option set. -/
def withOption (id : Identifier) (name : String) (value : Value) : Identifier :=
  ⟨id.name, Dictionary.set name value id.config⟩

@[simp] theorem name_withOption (id : Identifier) (name : String) (value : Value) :
    (id.withOption name value).name = id.name := rfl

theorem option?_withOption (id : Identifier) (name other : String) (value : Value) :
    (id.withOption name value).option? other
      = if name = other then some value else id.option? other :=
  Dictionary.find?_set name other value id.config

end Identifier

/-! ### Contexts -/

/-- A named scope with properties. -/
structure Context where
  name : String
  properties : Config
deriving Inhabited

namespace Context

/-- A scope without properties. -/
def ofName (name : String) : Context := ⟨name, []⟩

/-- The scope with a property set. -/
def withProperty (c : Context) (name : String) (value : Value) : Context :=
  ⟨c.name, Dictionary.set name value c.properties⟩

/-- The value of a property. -/
def property? (c : Context) (name : String) : Option Value := Dictionary.find? name c.properties

@[simp] theorem name_withProperty (c : Context) (name : String) (value : Value) :
    (c.withProperty name value).name = c.name := rfl

end Context

/-! ### Equality -/

mutual

/-- Equality of values: floats compare as numbers, identifiers without regard to the order of their
options. -/
def Value.same : Value → Value → Bool
  | .null, .null => true
  | .bool a, .bool b => a == b
  | .int a, .int b => a == b
  | .float a, .float b => a.same b
  | .text a, .text b => a == b
  | .list as, .list bs => sameItems as bs
  | .type a, .type b => a.same b
  | _, _ => false
termination_by structural v => v

/-- Equality of identifiers. -/
def Identifier.same : Identifier → Identifier → Bool
  | ⟨m, as⟩, ⟨n, bs⟩ => m == n && as.length == bs.length && sameOptions as bs
termination_by structural a => a

/-- Equality of lists, item by item. -/
def sameItems : List Value → List Value → Bool
  | [], [] => true
  | a :: as, b :: bs => a.same b && sameItems as bs
  | _, _ => false
termination_by structural as => as

/-- Every listed option stands in the dictionary with an equal value. -/
def sameOptions : List (String × Value) → Config → Bool
  | [], _ => true
  | (n, v) :: as, bs =>
    (match Dictionary.find? n bs with
      | some w => v.same w
      | none => false) && sameOptions as bs
termination_by structural as => as

end

/-- Equality of options: as many of them, and each with an equal value on the other side. -/
def Config.same (a b : Config) : Bool := a.length == b.length && sameOptions a b

theorem Identifier.same_eq (a b : Identifier) :
    a.same b = (a.name == b.name && a.config.same b.config) := by
  cases a
  cases b
  simp only [Identifier.same, Config.same, Identifier.config, Bool.and_assoc]

@[simp] theorem Value.same_list (as bs : List Value) :
    (Value.list as).same (.list bs) = sameItems as bs := by
  simp only [Value.same]

@[simp] theorem Value.same_type (a b : Identifier) : (Value.type a).same (.type b) = a.same b := by
  simp only [Value.same]

/-- Equality of contexts: the name and the properties. -/
def Context.same (a b : Context) : Bool := a.name == b.name && a.properties.same b.properties

end SchemaGraph
