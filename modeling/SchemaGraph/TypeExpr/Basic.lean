/-
**Type expressions.**

A property of a definition is typed by an expression: a name, a list of an expression, or an
expression that excludes null.  It is written `Page`, `[Tag]`, `String!`.  Each list and each
exclusion of null is itself a type that a registry constructs, so an expression stands for an
identifier: that of its name, wrapped.

Main definitions:

* `TypeExpr`, `TypeExpr.text` — expressions and their written form;
* `TypeExpr.root` — the name under all wrappers;
* `TypeExpr.wrap`, `TypeExpr.identifier` — the identifier an expression stands for.

Main results:

* `TypeExpr.name_wrap` — the name of the identifier shows the outermost wrapper.
-/

import SchemaGraph.Identity.Value

set_option autoImplicit false

namespace SchemaGraph

/-- A reference to a type. -/
inductive TypeExpr where
  | named (name : String)
  | list (of : TypeExpr)
  | nonNull (of : TypeExpr)
deriving DecidableEq, Repr, Inhabited

/-- The name under which lists are registered. -/
def listName : String := "ListOf"

/-- The name under which exclusions of null are registered. -/
def nonNullName : String := "NonNull"

/-- The option that holds what a wrapper wraps. -/
def wrappedOption : String := "of"

namespace TypeExpr

/-- The written form. -/
def text : TypeExpr → String
  | .named name => name
  | .list of => "[" ++ of.text ++ "]"
  | .nonNull of => of.text ++ "!"

/-- The name under all wrappers. -/
def root : TypeExpr → String
  | .named name => name
  | .list of => of.root
  | .nonNull of => of.root

/-- The identifier of the named type, in the wrappers of the expression. -/
def wrap (inner : Identifier) : TypeExpr → Identifier
  | .named _ => inner
  | .list of => (Identifier.bare listName).withOption wrappedOption (.type (of.wrap inner))
  | .nonNull of => (Identifier.bare nonNullName).withOption wrappedOption (.type (of.wrap inner))

/-- The identifier of an expression whose name is a registered one. -/
def identifier (e : TypeExpr) : Identifier := e.wrap (.bare e.root)

/-- Whether the expression is a mere name. -/
def isNamed : TypeExpr → Bool
  | .named _ => true
  | _ => false

theorem name_wrap (inner : Identifier) (e : TypeExpr) :
    (e.wrap inner).name = match e with
      | .named _ => inner.name
      | .list _ => listName
      | .nonNull _ => nonNullName := by
  cases e <;> rfl

end TypeExpr

end SchemaGraph
