/-
**What the commands print.**

Both commands construct the object of every node type, then the schema at the root.  One prints the
schema, the other counts what was constructed.

Main definitions:

* `prewarmNodes` — the objects of all node types;
* `assemble` — a registry with the schema at the root;
* `renderSchema`, `renderStats` — the two outputs.

Main results:

* `renderSchema_eq`, `renderStats_eq` — both outputs come from the same assembly.
-/

import SchemaGraph.Command.Invocation
import SchemaGraph.Schema.Sdl

set_option autoImplicit false

namespace SchemaGraph.Command

open Registry (Handle Options Request)

/-- The settings of the registry for a command. -/
def Invocation.options (inv : Invocation) (session : String) : Options where
  session := session
  dumpIdentities := inv.dumpIdentities

/-- The objects of all node types are requested by name. -/
def prewarmNodes (R : TypeSetup) (fuel : Nat) (nodes : NodeTypes) (s : TypeState) :
    Except SchemaError (List Handle) × TypeState :=
  prewarm R fuel (nodes.toList.map NodeTypes.objectOf) s

/-- The request for the root: the query object, or the object of a node type. -/
def rootRequest (nodes : NodeTypes) : Option String → Except SchemaError Request
  | none => .ok ⟨.bare queryName, none⟩
  | some name =>
    match nodes.nodeReference? name with
    | some r => .ok r
    | none => .error (.unknownNode name)

/-- The schema at the root, and the registry at the end. -/
def assemble (fuel : Nat) (nodes : NodeTypes) (options : Options) (root : Option String) :
    Except SchemaError (Schema × TypeState) :=
  let R := nodes.setup options
  match prewarmNodes R fuel nodes NodeTypes.start with
  | (.error e, _) => .error e
  | (.ok _, s) =>
    match rootRequest nodes root with
    | .error e => .error e
    | .ok r =>
      let (schema, s) := Schema.build R fuel r s
      schema.map fun schema => (schema, s)

/-- The schema as text. -/
def renderSchema (fuel : Nat) (nodes : NodeTypes) (inv : Invocation) : Except SchemaError String :=
  match assemble fuel nodes (inv.options "schema") inv.root with
  | .error e => .error e
  | .ok (schema, s) => schema.sdl s.store

/-- The counts of a registry with a schema, a line each. -/
def statsText (nodes : NodeTypes) (schema : Schema) (names : List String) (s : TypeState) :
    String :=
  "node types: " ++ toString nodes.size ++ "\nnamed types: " ++ toString schema.types.length
    ++ "\ncached instances: " ++ toString s.store.table.size ++ "\nfactories: "
    ++ String.intercalate ", " names ++ "\n" ++ s.store.stats.text ++ "\n"

/-- The counts of the registry. -/
def renderStats (fuel : Nat) (nodes : NodeTypes) (inv : Invocation) : Except SchemaError String :=
  match assemble fuel nodes (inv.options "stats") inv.root with
  | .error e => .error e
  | .ok (schema, s) => .ok (statsText nodes schema (nodes.setup (inv.options "stats")).names s)

theorem renderSchema_eq (fuel : Nat) (nodes : NodeTypes) (inv : Invocation) :
    renderSchema fuel nodes inv
      = (assemble fuel nodes (inv.options "schema") inv.root).bind fun p => p.1.sdl p.2.store := by
  unfold renderSchema
  cases assemble fuel nodes (inv.options "schema") inv.root <;> rfl

theorem renderStats_eq (fuel : Nat) (nodes : NodeTypes) (inv : Invocation) :
    renderStats fuel nodes inv
      = (assemble fuel nodes (inv.options "stats") inv.root).map fun p =>
          statsText nodes p.1 (nodes.setup (inv.options "stats")).names p.2 := by
  unfold renderStats
  cases assemble fuel nodes (inv.options "stats") inv.root <;> rfl

end SchemaGraph.Command
