/-
**Node types.**

A node type is an object type given by its properties.  It comes with a scope of its own name, in
which its object is constructed; the scope repeats the properties as they were written.

Main definitions:

* `DefinitionError` — why node types cannot be had from their definitions;
* `TypeExpr.parse` — the expression that a text is, or an error that shows the text;
* `NodeType` — a node type;
* `NodeType.withProperty` — a property is set, from the written form of its type.

Main results:

* `NodeType.name_withProperty` — setting a property keeps the name;
* `NodeType.properties_withProperty` — a property set again moves to the end.
-/

import SchemaGraph.TypeExpr.Names
import SchemaGraph.TypeExpr.Reader

set_option autoImplicit false

namespace SchemaGraph

/-! ### Errors -/

/-- Why a file cannot be read as a text. -/
inductive ReadFault where
  /-- there is no such file -/
  | missing
  /-- a part of the path lies below a file -/
  | belowFile
  /-- the path leads to a folder -/
  | folder
  /-- the path or a part of it is too long -/
  | longName
  /-- the path holds the character that no path can hold -/
  | nullInPath
  /-- the bytes are no text -/
  | noText
  /-- any other fault of the system -/
  | other (text : String)
deriving DecidableEq, Repr, Inhabited

/-- The text of a fault. -/
def ReadFault.message : ReadFault → String
  | .missing => "No such file or directory (os error 2)"
  | .belowFile => "Not a directory (os error 20)"
  | .folder => "Is a directory (os error 21)"
  | .longName => "File name too long (os error 36)"
  | .nullInPath => "file name contained an unexpected NUL byte"
  | .noText => "stream did not contain valid UTF-8"
  | .other text => text

/-- Why node types cannot be had from their definitions. -/
inductive DefinitionError where
  /-- a name has a fixed meaning -/
  | reservedName (name : String)
  /-- a text is not the type expression, or not the name, that it should be -/
  | invalidType (text : String) (problem : NotationProblem)
  /-- a file cannot be read -/
  | unreadable (path : String) (fault : ReadFault)
  /-- a text is no JSON, or JSON of another form -/
  | malformed
deriving DecidableEq, Repr, Inhabited

/-- The text of an error, without its source. -/
def DefinitionError.message : DefinitionError → String
  | .reservedName name => "node type name `" ++ name ++ "` is reserved"
  | .invalidType text problem => "invalid type notation `" ++ text ++ "`: " ++ problem.message
  | .unreadable path _ => "cannot read node types from `" ++ path ++ "`"
  | .malformed => "malformed node-type definitions"

/-- The expression that a text is; what is no expression is shown in the error as it was written. -/
def TypeExpr.parse (s : String) : Except DefinitionError TypeExpr :=
  (TypeExpr.read s).mapError (.invalidType s)

theorem TypeExpr.parse_of_read {s : String} {e : TypeExpr} (h : TypeExpr.read s = .ok e) :
    TypeExpr.parse s = .ok e := by
  rw [TypeExpr.parse, h]
  rfl

theorem TypeExpr.parse_of_refused {s : String} {problem : NotationProblem}
    (h : TypeExpr.read s = .error problem) :
    TypeExpr.parse s = .error (.invalidType s problem) := by
  rw [TypeExpr.parse, h]
  rfl

theorem TypeExpr.parse_eq_ok_iff {s : String} {e : TypeExpr} :
    TypeExpr.parse s = .ok e ↔ TypeExpr.read s = .ok e := by
  cases h : TypeExpr.read s with
  | error problem => simp [TypeExpr.parse_of_refused h]
  | ok e => simp [TypeExpr.parse_of_read h]

theorem TypeExpr.parse_eq_error_iff {s : String} {err : DefinitionError} :
    TypeExpr.parse s = .error err
      ↔ ∃ problem, TypeExpr.read s = .error problem ∧ err = .invalidType s problem := by
  cases h : TypeExpr.read s with
  | error problem => simp [TypeExpr.parse_of_refused h, eq_comm]
  | ok e => simp [TypeExpr.parse_of_read h]

/-! ### Node types -/

/-- An object type given by its properties. -/
structure NodeType where
  /-- the scope of the object: the name, and the properties as they were written -/
  context : Context
  description : Option String := none
  /-- the properties, in the order in which they were set last -/
  properties : Dictionary String TypeExpr := []
deriving Inhabited

namespace NodeType

/-- A node type without properties. -/
def ofName (name : String) : NodeType := ⟨.ofName name, none, []⟩

/-- The name. -/
def name (node : NodeType) : String := node.context.name

/-- The node type with a description. -/
def withDescription (node : NodeType) (text : String) : NodeType :=
  { node with description := some text }

/-- The node type with a property set to the type that a text stands for. -/
def withProperty (node : NodeType) (property text : String) : Except DefinitionError NodeType :=
  match TypeExpr.read text with
  | .error problem => .error (.invalidType text problem)
  | .ok e =>
    .ok { node with
      context := node.context.withProperty property (.text text)
      properties := Dictionary.erase property node.properties ++ [(property, e)] }

/-- The node type with several properties set in order. -/
def withProperties (node : NodeType) : List (String × String) → Except DefinitionError NodeType
  | [] => .ok node
  | (property, text) :: rest =>
    match node.withProperty property text with
    | .error e => .error e
    | .ok node => node.withProperties rest

/-- The identifier of the object of any node type. -/
def identifier (_ : NodeType) : Identifier := .bare nodeName

theorem withProperty_eq_ok_iff {node node' : NodeType} {property text : String} :
    node.withProperty property text = .ok node'
      ↔ ∃ e, TypeExpr.read text = .ok e ∧
          node' = { node with
            context := node.context.withProperty property (.text text)
            properties := Dictionary.erase property node.properties ++ [(property, e)] } := by
  cases h : TypeExpr.read text <;> simp [withProperty, h, eq_comm]

theorem name_withProperty {node node' : NodeType} {property text : String}
    (h : node.withProperty property text = .ok node') : node'.name = node.name := by
  obtain ⟨e, _, rfl⟩ := withProperty_eq_ok_iff.1 h
  rfl

theorem properties_withProperty {node node' : NodeType} {property text : String}
    (h : node.withProperty property text = .ok node') :
    Dictionary.names node'.properties
      = (Dictionary.names node.properties).filter (· ≠ property) ++ [property] := by
  obtain ⟨e, _, rfl⟩ := withProperty_eq_ok_iff.1 h
  simp [Dictionary.names, Dictionary.erase, List.filter_map, Function.comp_def]

end NodeType

end SchemaGraph
