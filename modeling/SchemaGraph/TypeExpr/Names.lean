/-
**Names with a fixed meaning.**

Some names are registered in every schema: the scalars, the wrappers, and the factories of node
objects and of the query object.  A node type cannot be called by one of them.

Main definitions:

* `builtinScalars`, `dateTimeName`, `enumName`, `nodeName`, `queryName` — the names;
* `reservedNames` — all of them, with those of the wrappers.
-/

import SchemaGraph.TypeExpr.Basic

set_option autoImplicit false

namespace SchemaGraph

/-- The scalars that every schema has, and that none defines. -/
def builtinScalars : List String := ["String", "Int", "Float", "Boolean", "ID"]

/-- The scalar of dates, which a schema that uses it defines. -/
def dateTimeName : String := "DateTime"

/-- The name under which enumerations are registered. -/
def enumName : String := "Enum"

/-- The name under which the objects of node types are registered. -/
def nodeName : String := "Node"

/-- The name under which the query object is registered. -/
def queryName : String := "Query"

/-- The names that no node type has. -/
def reservedNames : List String :=
  [nodeName, queryName, enumName, listName, nonNullName, dateTimeName] ++ builtinScalars

theorem mem_reservedNames_of_builtin {name : String} (h : name ∈ builtinScalars) :
    name ∈ reservedNames :=
  List.mem_append_right _ h

end SchemaGraph
