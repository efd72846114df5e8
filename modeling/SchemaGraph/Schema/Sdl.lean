/-
**Schemas as text.**

A schema is written in the schema definition language: one block for each named type, by name, with
an empty line between blocks.  The builtin scalars need no definition.  A root that is not called as
the query root is by default is named at the end.

Main definitions:

* `SchemaType.sdl` — the block of a type; wrappers have none;
* `Schema.sdl` — the text of a schema.

Main results:

* `sdl_of_scalar`, `sdl_of_enumeration` — the blocks of types that refer to no others.
-/

import SchemaGraph.Schema.Walk

set_option autoImplicit false

namespace SchemaGraph

open Registry (InstanceId)

/-! ### Types -/

/-- The line of a description before a block. -/
def blockDescription : Option String → String
  | none => ""
  | some d => "\"\"\"" ++ d ++ "\"\"\"\n"

/-- The line of a description before a field. -/
def fieldDescription : Option String → String
  | none => ""
  | some d => "  \"" ++ d ++ "\"\n"

/-- The lines of a field. -/
def Field.sdl (S : TypeStore) (f : Field) : Except TypeError String :=
  (refOf S f.type).map fun type =>
    fieldDescription f.description ++ "  " ++ f.name ++ ": " ++ type ++ "\n"

/-- The lines of fields in order. -/
def fieldsSdl (S : TypeStore) : List Field → Except TypeError String
  | [] => .ok ""
  | f :: fs => (f.sdl S).bind fun line => (fieldsSdl S fs).map (line ++ ·)

/-- A keyword and a name, with a body in braces. -/
def braced (keyword name body : String) : String :=
  keyword ++ " " ++ name ++ " \x7b\n" ++ body ++ "\x7d\n"

/-- The lines of values. -/
def valuesSdl (values : List String) : String :=
  String.join (values.map fun v => "  " ++ v ++ "\n")

/-- The block of a type; wrappers have none. -/
def SchemaType.sdl (S : TypeStore) (t : SchemaType) : Except TypeError (Option String) :=
  match t.kind with
  | .scalar name => .ok (some (blockDescription t.description ++ "scalar " ++ name ++ "\n"))
  | .enumeration name values =>
    .ok (some (blockDescription t.description ++ braced "enum" name (valuesSdl values)))
  | .object name fields =>
    (fieldsSdl S fields).map fun body =>
      some (blockDescription t.description ++ braced "type" name body)
  | .list _ | .nonNull _ => .ok none

theorem sdl_of_scalar (S : TypeStore) (name : String) :
    SchemaType.sdl S ⟨.scalar name, none⟩ = .ok (some ("scalar " ++ name ++ "\n")) := by
  simp [SchemaType.sdl, blockDescription]

theorem sdl_of_enumeration (S : TypeStore) (name : String) (values : List String) :
    SchemaType.sdl S ⟨.enumeration name values, none⟩
      = .ok (some (braced "enum" name (valuesSdl values))) := by
  simp [SchemaType.sdl, blockDescription]

/-! ### Schemas -/

/-- The blocks of types in order, the builtin scalars left out. -/
def blocks (S : TypeStore) : Dictionary String InstanceId → Except TypeError (List String)
  | [] => .ok []
  | (name, i) :: rest =>
    if name ∈ builtinScalars then blocks S rest
    else
      ((S.instances[i]?.getD default).sdl S).bind fun block =>
        (blocks S rest).map (block.toList ++ ·)

/-- The block that names the root, unless it is called as the query root is by default. -/
def rootBlock (query : SchemaType) : List String :=
  match query.name? with
  | none => []
  | some name =>
    if name = queryName then [] else ["schema \x7b\n  query: " ++ name ++ "\n\x7d\n"]

/-- The text of a schema. -/
def Schema.sdl (S : TypeStore) (schema : Schema) : Except SchemaError String :=
  match blocks S schema.types with
  | .error e => .error (.registry e)
  | .ok bs =>
    .ok (String.intercalate "\n" (bs ++ rootBlock (S.instances[schema.query]?.getD default)))

end SchemaGraph
