/-
**Types generated from node types.**

A set of node types determines a registry: the builtin factories, one factory that constructs the
object of each node type in the node type's scope, and one factory of the query object, which offers
each node type on its own and all of them as a list.

Main definitions:

* `nodeFactory` — the factory of node objects;
* `queryFields`, `queryFactory` — the fields of the query object, and its factory;
* `NodeTypes.setup` — the registry of a set of node types.

Main results:

* `NodeTypes.register_factories` — the factories have distinct names and are of the family;
* `length_queryFields` — the query object has two fields for each node type.
-/

import SchemaGraph.Nodes.NodeTypes
import SchemaGraph.Registry.Builder
import SchemaGraph.Schema.Builtins

set_option autoImplicit false

namespace SchemaGraph

open Registry (Handle Options Builder)

/-- The parts of a registry of schema types. -/
abbrev TypeSetup := Registry.Setup SchemaType Unit TypeFault Empty

/-- A registry of schema types, at work. -/
abbrev TypeState := Registry.State SchemaType Unit TypeFault Empty

/-! ### Node objects -/

/-- The fields of a node object. -/
def nodeFields (node : NodeType) (types : List Handle) : List Field :=
  node.properties.zipWith (fun p h => ⟨p.1, h, none⟩) types

/-- The program of a node object: the types of the properties are requested in order. -/
def nodeProgram (nodes : NodeTypes) (node : NodeType) : TypeProgram :=
  .keep (node.properties.map fun p => nodes.reference p.2) fun types =>
    .done (.new ⟨.object node.name (nodeFields node types), node.description⟩)

/-- The node type of a scope. -/
def nodeOf (nodes : NodeTypes) (type : String) : Option Context → Except TypeFault NodeType
  | none => .error (.missingContext type)
  | some c =>
    match nodes.get? c.name with
    | some node => .ok node
    | none => .error (.unknownNode c.name)

/-- The factory of node objects: the scope tells the node type. -/
def nodeFactory (nodes : NodeTypes) : TypeFactory where
  tag := objectTag
  build site := .attempt (nodeOf nodes site.identifier.name site.context) (nodeProgram nodes)

/-! ### The query object -/

/-- A text with its first letter in lower case.  The letters of names are ASCII. -/
def lowerFirst (s : String) : String :=
  match s.toList with
  | [] => ""
  | c :: cs => String.ofList (c.toLower :: cs)

/-- A field before its type is requested. -/
structure PlannedField where
  name : String
  type : TypeExpr
  description : String
deriving DecidableEq, Repr, Inhabited

/-- The fields of the query object for a name: one such, and all of them. -/
def fieldsFor (name : String) : List PlannedField :=
  [⟨lowerFirst name, .named name, "Look up a single " ++ name⟩,
    ⟨"all" ++ name, .nonNull (.list (.nonNull (.named name))), "Every " ++ name⟩]

/-- The fields of the query object, by node type. -/
def queryFields (nodes : NodeTypes) : List PlannedField :=
  nodes.toList.flatMap fun node => fieldsFor node.name

/-- The program of the query object: the types of the fields are requested in order. -/
def queryProgram (nodes : NodeTypes) : TypeProgram :=
  .keep ((queryFields nodes).map fun f => nodes.reference f.type) fun types =>
    .done (.new ⟨.object queryName
      ((queryFields nodes).zipWith (fun f h => ⟨f.name, h, some f.description⟩) types), none⟩)

/-- The factory of the query object. -/
def queryFactory (nodes : NodeTypes) : TypeFactory := ⟨objectTag, fun _ => queryProgram nodes⟩

theorem length_queryFields (nodes : NodeTypes) :
    (queryFields nodes).length = 2 * nodes.size := by
  have h : ∀ ns : List NodeType,
      (ns.flatMap fun node => fieldsFor node.name).length = 2 * ns.length := by
    intro ns
    induction ns with
    | nil => rfl
    | cons n ns ih =>
        rw [List.flatMap_cons, List.length_append, ih]
        simp [fieldsFor]
        omega
  simp [queryFields, h, NodeTypes.toList, NodeTypes.size, Dictionary.sorted]

/-! ### The registry -/

namespace NodeTypes

/-- The factories of a set of node types, in the order in which they are registered. -/
def factories (nodes : NodeTypes) : List (String × TypeFactory) :=
  builtinFactories ++ [(nodeName, nodeFactory nodes), (queryName, queryFactory nodes)]

/-- The registry of a set of node types. -/
def setup (nodes : NodeTypes) (options : Options) : TypeSetup where
  factories := nodes.factories
  admits := schemaFamily.admits
  options := options

/-- The registry of a set of node types before any call. -/
def start : TypeState := .initial () 0

theorem register_factories (nodes : NodeTypes) :
    ∃ b, Builder.registerAll { family := schemaFamily } nodes.factories = (.ok (), b)
      ∧ b.factories = nodes.factories ∧ b.family = schemaFamily :=
  ⟨_, rfl, rfl, rfl⟩

end NodeTypes

end SchemaGraph
