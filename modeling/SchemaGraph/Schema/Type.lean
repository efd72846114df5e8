/-
**Schema types.**

A registry over a schema constructs scalars, enumerations, objects with fields, lists, and types
that exclude null.  Fields and wrappers refer to other types by handles, so types may refer to
themselves and to each other.

Main definitions:

* `TypeFault` — the errors of the factories of schema types;
* `Field`, `TypeKind`, `SchemaType` — types;
* `SchemaType.tag`, `schemaFamily` — the kinds of types, and the family of all of them;
* `SchemaType.handles` — what a type refers to.

Main results:

* `SchemaType.tag_mem_schemaTags` — the family admits every kind;
* `SchemaType.name?_isSome_iff` — exactly the types that are no wrappers have a name.
-/

import SchemaGraph.Registry.Handle

set_option autoImplicit false

namespace SchemaGraph

open Registry (Handle Tag Family RegistryError Store)

/-! ### Errors -/

/-- What is wrong with an option. -/
inductive OptionProblem where
  | expectedText
  | expectedList
  | expectedListOfTexts
  | emptyList
  | expectedType
  /-- null is excluded twice -/
  | doubleNonNull
deriving DecidableEq, Repr, Inhabited

/-- The text of a problem. -/
def OptionProblem.message : OptionProblem → String
  | .expectedText => "expected a string"
  | .expectedList => "expected a list"
  | .expectedListOfTexts => "expected a list of strings"
  | .emptyList => "an enum needs at least one value"
  | .expectedType => "expected a type identifier"
  | .doubleNonNull => "non-null of a non-null type"

/-- The errors of the factories of schema types. -/
inductive TypeFault where
  /-- a required option is not there -/
  | missingOption (type option : String)
  | invalidOption (type option : String) (problem : OptionProblem)
  /-- a node object is requested without a scope -/
  | missingContext (type : String)
  /-- a node object is requested in a scope that no node type has -/
  | unknownNode (name : String)
  | other (text : String)
deriving DecidableEq, Repr, Inhabited

/-- The text of an error. -/
def TypeFault.message : TypeFault → String
  | .missingOption type option => "type `" ++ type ++ "` requires option `" ++ option ++ "`"
  | .invalidOption type option problem =>
    "option `" ++ option ++ "` of type `" ++ type ++ "` is invalid: " ++ problem.message
  | .missingContext type => "type `" ++ type ++ "` must be resolved against a node type"
  | .unknownNode name => "unknown node type `" ++ name ++ "`"
  | .other text => text

/-- The errors of a registry over schema types. -/
abbrev TypeError := RegistryError TypeFault

/-! ### Types -/

/-- A field of an object. -/
structure Field where
  name : String
  type : Handle
  description : Option String := none
deriving DecidableEq, Repr, Inhabited

/-- What a type is. -/
inductive TypeKind where
  | scalar (name : String)
  | enumeration (name : String) (values : List String)
  | object (name : String) (fields : List Field)
  /-- a list of a type -/
  | list (of : Handle)
  /-- a type without null -/
  | nonNull (of : Handle)
deriving DecidableEq, Repr, Inhabited

/-- A type of a schema. -/
structure SchemaType where
  kind : TypeKind
  description : Option String := none
deriving DecidableEq, Repr, Inhabited

/-- The schema types that a registry constructed, and all that calls on it share. -/
abbrev TypeStore := Store SchemaType

namespace SchemaType

/-- The name; wrappers have none. -/
def name? (t : SchemaType) : Option String :=
  match t.kind with
  | .scalar name | .enumeration name _ | .object name _ => some name
  | .list _ | .nonNull _ => none

/-- The type that a wrapper wraps. -/
def wrapped? (t : SchemaType) : Option Handle :=
  match t.kind with
  | .scalar _ | .enumeration _ _ | .object _ _ => none
  | .list of | .nonNull of => some of

/-- The fields; only objects have any. -/
def fields (t : SchemaType) : List Field :=
  match t.kind with
  | .object _ fields => fields
  | _ => []

/-- The first field of a name. -/
def field? (t : SchemaType) (name : String) : Option Field :=
  t.fields.find? fun f => f.name = name

/-- What the type refers to, in order. -/
def handles (t : SchemaType) : List Handle :=
  match t.kind with
  | .scalar _ | .enumeration _ _ => []
  | .object _ fields => fields.map Field.type
  | .list of | .nonNull of => [of]

theorem name?_isSome_iff (t : SchemaType) : t.name?.isSome = true ↔ t.wrapped? = none := by
  obtain ⟨kind, _⟩ := t
  cases kind <;> simp [name?, wrapped?]

theorem handles_of_wrapped {t : SchemaType} {of : Handle} (h : t.wrapped? = some of) :
    t.handles = [of] := by
  obtain ⟨kind, _⟩ := t
  cases kind <;> simp_all [wrapped?, handles]

end SchemaType

/-! ### Kinds -/

/-- The kind of scalars. -/
def scalarTag : Tag := ⟨"scalar"⟩

/-- The kind of enumerations. -/
def enumTag : Tag := ⟨"enum"⟩

/-- The kind of objects. -/
def objectTag : Tag := ⟨"object"⟩

/-- The kind of lists. -/
def listTag : Tag := ⟨"list"⟩

/-- The kind of types without null. -/
def nonNullTag : Tag := ⟨"non_null"⟩

/-- The kinds of schema types. -/
def schemaTags : List Tag := [scalarTag, enumTag, objectTag, listTag, nonNullTag]

/-- The family of schema types. -/
def schemaFamily : Family := .ofTags schemaTags

/-- The kind of a type. -/
def SchemaType.tag (t : SchemaType) : Tag :=
  match t.kind with
  | .scalar _ => scalarTag
  | .enumeration _ _ => enumTag
  | .object _ _ => objectTag
  | .list _ => listTag
  | .nonNull _ => nonNullTag

theorem SchemaType.tag_mem_schemaTags (t : SchemaType) : t.tag ∈ schemaTags := by
  obtain ⟨kind, _⟩ := t
  cases kind <;> simp [SchemaType.tag, schemaTags]

end SchemaGraph
