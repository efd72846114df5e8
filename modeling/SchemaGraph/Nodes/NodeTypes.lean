/-
**Sets of node types.**

A set holds node types of distinct names, none of which has a fixed meaning.  A type expression over
a set stands for a request: when its name is that of a node type, the node type's object is
requested in the node type's scope; otherwise the name is taken for a registered one, without a
scope.

Main definitions:

* `NodeTypes`, `NodeTypes.insert` — sets of node types;
* `NodeTypes.toList` — the node types by name;
* `NodeTypes.reference`, `NodeTypes.nodeReference?` — the requests that expressions and names stand
  for.

Main results:

* `NodeTypes.get?_insert` — a node type is found after it was inserted, and the others stay;
* `NodeTypes.insert_eq_ok_iff` — which node types are accepted.
-/

import SchemaGraph.Nodes.NodeType
import SchemaGraph.Registry.Program

set_option autoImplicit false

namespace SchemaGraph

open Registry (Request)

/-- The node types that a schema is generated from. -/
structure NodeTypes where
  /-- each node type under its name -/
  entries : Dictionary String NodeType := []
deriving Inhabited

/-- Why a text cannot name a node type. -/
def nodeNameFault? (name : String) : Option DefinitionError :=
  if name ∈ reservedNames then some (.reservedName name)
  else
    match TypeExpr.read name with
    | .error problem => some (.invalidType name problem)
    | .ok (.named _) => none
    | .ok _ => some (.invalidType name .wrappedName)

namespace NodeTypes

/-- No node types. -/
def empty : NodeTypes := {}

/-- The set with a node type, in place of the one of the same name. -/
def insert (nodes : NodeTypes) (node : NodeType) : Except DefinitionError NodeTypes :=
  match nodeNameFault? node.name with
  | some e => .error e
  | none => .ok ⟨Dictionary.set node.name node nodes.entries⟩

/-- The node type of a name. -/
def get? (nodes : NodeTypes) (name : String) : Option NodeType :=
  Dictionary.find? name nodes.entries

/-- The node types by name. -/
def toList (nodes : NodeTypes) : List NodeType :=
  (Dictionary.sorted nodes.entries).map Prod.snd

/-- How many node types there are. -/
def size (nodes : NodeTypes) : Nat := nodes.entries.length

/-- The request for the object of a node type, in its scope. -/
def objectOf (node : NodeType) : Request := ⟨node.identifier, some node.context⟩

/-- The request that a type expression stands for. -/
def reference (nodes : NodeTypes) (e : TypeExpr) : Request :=
  match nodes.get? e.root with
  | some node => ⟨e.wrap node.identifier, some node.context⟩
  | none => ⟨e.identifier, none⟩

/-- The request for the object of the node type of a name. -/
def nodeReference? (nodes : NodeTypes) (name : String) : Option Request :=
  (nodes.get? name).map objectOf

theorem insert_eq_ok_iff {nodes nodes' : NodeTypes} {node : NodeType} :
    nodes.insert node = .ok nodes'
      ↔ nodeNameFault? node.name = none
        ∧ nodes' = ⟨Dictionary.set node.name node nodes.entries⟩ := by
  cases h : nodeNameFault? node.name <;> simp [insert, h, eq_comm]

theorem get?_insert {nodes nodes' : NodeTypes} {node : NodeType}
    (h : nodes.insert node = .ok nodes') (name : String) :
    nodes'.get? name = if node.name = name then some node else nodes.get? name := by
  obtain ⟨_, rfl⟩ := insert_eq_ok_iff.1 h
  exact Dictionary.find?_set _ _ _ _

end NodeTypes

end SchemaGraph
