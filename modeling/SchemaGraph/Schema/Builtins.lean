/-
**Builtin types.**

Every schema has five scalars, a scalar of dates, and factories of enumerations, lists and types
without null, which are told by options what to construct.

Main definitions:

* `TypeProgram`, `TypeFactory` — factories of schema types;
* `enumeration` — the enumeration that options describe;
* `wrappedType` — the type that a wrapper is told to wrap;
* `builtinFactories` — the builtin factories, in the order in which they are registered.

Main results:

* `names_builtinFactories` — the names of the builtin factories;
* `wrappedType_wrap` — the identifiers of type expressions tell wrappers what to wrap.
-/

import SchemaGraph.Registry.Machine
import SchemaGraph.Schema.Type
import SchemaGraph.TypeExpr.Names

set_option autoImplicit false

namespace SchemaGraph

open Registry (Site)

/-- What a factory of schema types does. -/
abbrev TypeProgram := Registry.Program SchemaType Unit TypeFault Empty

/-- A factory of schema types. -/
abbrev TypeFactory := Registry.Factory SchemaType Unit TypeFault Empty

/-! ### Scalars -/

/-- A factory that always constructs the same type, and asks for no other. -/
def fixedFactory (t : SchemaType) : TypeFactory := ⟨t.tag, fun _ => .done (.new t)⟩

/-- A scalar. -/
def scalarType (name : String) : SchemaType := ⟨.scalar name, none⟩

/-- The scalar of dates. -/
def dateTime : SchemaType := ⟨.scalar dateTimeName, some "An ISO-8601 encoded UTC date string."⟩

/-! ### Enumerations -/

/-- An option that is required. -/
def requiredOption (id : Identifier) (option : String) : Except TypeFault Value :=
  match id.option? option with
  | some v => .ok v
  | none => .error (.missingOption id.name option)

/-- The content of an option, which is of another kind unless there is one. -/
def contentOf {α : Type} (id : Identifier) (option : String) (problem : OptionProblem) :
    Option α → Except TypeFault α
  | some a => .ok a
  | none => .error (.invalidOption id.name option problem)

/-- The option that names an enumeration. -/
def enumNameOption : String := "name"

/-- The option that holds the values of an enumeration. -/
def enumValuesOption : String := "values"

/-- The option that may describe an enumeration. -/
def enumDescriptionOption : String := "description"

/-- The name of the enumeration that options describe. -/
def enumerationName (id : Identifier) : Except TypeFault String :=
  (requiredOption id enumNameOption).bind fun v =>
    contentOf id enumNameOption .expectedText v.text?

/-- The values of the enumeration that options describe, at least one. -/
def enumerationValues (id : Identifier) : Except TypeFault (List String) :=
  (requiredOption id enumValuesOption).bind fun v =>
    (contentOf id enumValuesOption .expectedList v.list?).bind fun items =>
      (contentOf id enumValuesOption .expectedListOfTexts (items.mapM Value.text?)).bind fun values =>
        if values.isEmpty then .error (.invalidOption id.name enumValuesOption .emptyList)
        else .ok values

/-- The enumeration that options describe.  A description that is no text is none. -/
def enumeration (id : Identifier) : Except TypeFault SchemaType :=
  (enumerationName id).bind fun name =>
    (enumerationValues id).map fun values =>
      ⟨.enumeration name values, (id.option? enumDescriptionOption).bind Value.text?⟩

/-- The factory of enumerations. -/
def enumFactory : TypeFactory where
  tag := enumTag
  build site := .attempt (enumeration site.identifier) fun t => .done (.new t)

/-! ### Wrappers -/

/-- The type that a wrapper is told to wrap. -/
def wrappedType (id : Identifier) : Except TypeFault Identifier :=
  (requiredOption id wrappedOption).bind fun v => contentOf id wrappedOption .expectedType v.type?

/-- The type that is told to exclude null: one that does not exclude it already. -/
def wrappedNullable (id : Identifier) : Except TypeFault Identifier :=
  (wrappedType id).bind fun of =>
    if of.name = nonNullName then .error (.invalidOption id.name wrappedOption .doubleNonNull)
    else .ok of

/-- The factory of lists.  What is wrapped is requested in the scope of the wrapper. -/
def listFactory : TypeFactory where
  tag := listTag
  build site := .attempt (wrappedType site.identifier) fun of =>
    .request ⟨of, site.context⟩ fun h => .done (.new ⟨.list h, none⟩)

/-- The factory of types without null. -/
def nonNullFactory : TypeFactory where
  tag := nonNullTag
  build site := .attempt (wrappedNullable site.identifier) fun of =>
    .request ⟨of, site.context⟩ fun h => .done (.new ⟨.nonNull h, none⟩)

/-! ### All of them -/

/-- The builtin factories, in the order in which they are registered. -/
def builtinFactories : List (String × TypeFactory) :=
  builtinScalars.map (fun name => (name, fixedFactory (scalarType name)))
    ++ [(dateTimeName, fixedFactory dateTime), (enumName, enumFactory), (listName, listFactory),
      (nonNullName, nonNullFactory)]

theorem names_builtinFactories :
    Dictionary.names builtinFactories
      = builtinScalars ++ [dateTimeName, enumName, listName, nonNullName] := rfl

theorem wrappedType_withOption (name : String) (of : Identifier) :
    wrappedType ((Identifier.bare name).withOption wrappedOption (.type of)) = .ok of := by
  simp [wrappedType, requiredOption, Identifier.option?_withOption, Value.type?, contentOf,
    Except.bind]

theorem wrappedType_wrap (inner : Identifier) (e : TypeExpr) :
    wrappedType ((TypeExpr.list e).wrap inner) = .ok (e.wrap inner)
      ∧ wrappedType ((TypeExpr.nonNull e).wrap inner) = .ok (e.wrap inner) :=
  ⟨wrappedType_withOption _ _, wrappedType_withOption _ _⟩

end SchemaGraph
