/-
**Errors of a schema.**

A schema can fail at its definitions, at the construction of one of its types, or because two of its
types have one name.

Main definitions:

* `SchemaError` — the errors;
* `SchemaError.messages` — the texts of an error and its sources.
-/

import SchemaGraph.Nodes.NodeType
import SchemaGraph.Schema.Type

set_option autoImplicit false

namespace SchemaGraph

/-- The errors of a schema. -/
inductive SchemaError where
  /-- the definitions are at fault -/
  | definition (e : DefinitionError)
  /-- a node type is asked for that is not defined -/
  | unknownNode (name : String)
  /-- two types have one name -/
  | conflictingName (name : String)
  /-- a type cannot be constructed or read -/
  | registry (e : TypeError)
  /-- a construction broke off -/
  | panicked (message : String)
  /-- a construction did not end within the given number of steps -/
  | unfinished
deriving DecidableEq, Repr, Inhabited

namespace SchemaError

/-- The texts of an error and its sources, outermost first. -/
def messages : SchemaError → List String
  | .definition (.unreadable path fault) =>
    [DefinitionError.message (.unreadable path fault), fault.message]
  | .definition e => [e.message]
  | .unknownNode name => [TypeFault.message (.unknownNode name)]
  | .conflictingName name => ["two different types are named `" ++ name ++ "`"]
  | .registry e => e.messages TypeFault.message
  | .panicked message => [message]
  | .unfinished => ["the construction did not end"]

/-- The text of an error, without its sources. -/
def message (e : SchemaError) : String := e.messages.headD ""

end SchemaError

end SchemaGraph
