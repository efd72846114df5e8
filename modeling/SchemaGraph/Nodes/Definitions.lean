/-
**Definitions of node types.**

Node types are defined in JSON: a record with the single field `nodeTypes`, which maps each name to
a record of a description and of properties, both of which may be left out.  A record is an object
whose fields are known and named once, or an array of the fields in order.  A map is an object; of
two members of one name the later counts.

Main definitions:

* `recordFields?`, `mapOf?` — records and maps;
* `Definition` — what is said about one node type;
* `NodeTypes.ofJson`, `NodeTypes.ofFile` — the node types that a text, or a file, defines.

Main results:

* `recordFields?_object`, `recordFields?_array` — which values are records.
-/

import SchemaGraph.Json.Reader
import SchemaGraph.Nodes.NodeTypes

set_option autoImplicit false

namespace SchemaGraph

/-! ### Records and maps -/

/-- The fields of a record with the given field names. -/
def recordFields? (names : List String) : JsonValue → Option (Dictionary String JsonValue)
  | .object members =>
    if (∀ p ∈ members, p.1 ∈ names) ∧ (Dictionary.names members).Nodup then some members else none
  | .array items => if items.length ≤ names.length then some (names.zip items) else none
  | _ => none

theorem recordFields?_object (names : List String) (members : List (String × JsonValue)) :
    (recordFields? names (.object members)).isSome = true
      ↔ (∀ p ∈ members, p.1 ∈ names) ∧ (Dictionary.names members).Nodup := by
  by_cases h : (∀ p ∈ members, p.1 ∈ names) ∧ (Dictionary.names members).Nodup
  · simp only [recordFields?, if_pos h, Option.isSome_some, true_iff]
    exact h
  · simp only [recordFields?, if_neg h, Option.isSome_none, Bool.false_eq_true, false_iff]
    exact h

theorem recordFields?_array (names : List String) (items : List JsonValue) :
    (recordFields? names (.array items)).isSome = true ↔ items.length ≤ names.length := by
  simp only [recordFields?]
  split <;> simp_all

/-- The content of a text. -/
def textOf? : JsonValue → Option String
  | .text s => some s
  | _ => none

/-- The entries of a map whose values are read by a function. -/
def mapOf? {α : Type} (read : JsonValue → Option α) : JsonValue → Option (Dictionary String α)
  | .object members =>
    (members.mapM fun p => (read p.2).map fun v => (p.1, v)).map Dictionary.ofPairs
  | _ => none

/-! ### Definitions -/

/-- What is said about one node type. -/
structure Definition where
  description : Option String
  /-- the written type of each property -/
  properties : Dictionary String String
deriving Inhabited

/-- A description: a text or null. -/
def descriptionOf? : JsonValue → Option (Option String)
  | .null => some none
  | .text s => some (some s)
  | _ => none

/-- The definition of one node type. -/
def Definition.ofJson? (v : JsonValue) : Option Definition := do
  let fields ← recordFields? ["description", "properties"] v
  let description ← match Dictionary.find? "description" fields with
    | none => some none
    | some v => descriptionOf? v
  let properties ← match Dictionary.find? "properties" fields with
    | none => some []
    | some v => mapOf? textOf? v
  pure ⟨description, properties⟩

/-- The definitions of a set of node types. -/
def definitionsOf? (v : JsonValue) : Option (Dictionary String Definition) := do
  let fields ← recordFields? ["nodeTypes"] v
  let definitions ← Dictionary.find? "nodeTypes" fields
  mapOf? Definition.ofJson? definitions

/-! ### Node types from definitions -/

/-- The node type of a name and a definition, its properties set by name. -/
def NodeType.ofDefinition (name : String) (d : Definition) : Except DefinitionError NodeType :=
  NodeType.withProperties { NodeType.ofName name with description := d.description }
    (Dictionary.sorted d.properties)

namespace NodeTypes

/-- The set with the node types of several definitions, in order. -/
def insertAll (nodes : NodeTypes) : List (String × Definition) → Except DefinitionError NodeTypes
  | [] => .ok nodes
  | (name, d) :: rest =>
    match NodeType.ofDefinition name d with
    | .error e => .error e
    | .ok node =>
      match nodes.insert node with
      | .error e => .error e
      | .ok nodes => nodes.insertAll rest

/-- The node types that a JSON text defines, inserted by name. -/
def ofJson (text : String) : Except DefinitionError NodeTypes :=
  match (JsonValue.read? text).bind definitionsOf? with
  | none => .error .malformed
  | some definitions => empty.insertAll (Dictionary.sorted definitions)

/-- The node types that a file of the given content defines. -/
def ofFile (path : String) : Except ReadFault String → Except DefinitionError NodeTypes
  | .error fault => .error (.unreadable path fault)
  | .ok text => ofJson text

end NodeTypes

end SchemaGraph
