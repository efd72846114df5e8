/-
**Factories of fixed types.**

A blueprint says which type a factory constructs, whatever it is asked for: the types it refers to
are requested anew each time, in a scope of their own or in that of the type under construction.

Main definitions:

* `TypeReference` — what a blueprint refers to;
* `Plan`, `Blueprint` — a type to construct;
* `Blueprint.factory` — the factory that constructs it;
* `registerInTurn` — factories registered one by one, whether or not the ones before were refused.
-/

import SchemaGraph.Schema.Generated

set_option autoImplicit false

namespace SchemaGraph.Scenario

open Registry (Builder Request RegistryError Site Tag)

/-! ### Blueprints -/

/-- A type that a blueprint refers to. -/
structure TypeReference where
  identifier : Identifier
  /-- its scope, unless it is that of the type under construction -/
  context : Option Context := none
  inContext : Bool := false
deriving Inhabited

/-- The request for a reference from a site. -/
def TypeReference.request (r : TypeReference) (site : Site) : Request :=
  ⟨r.identifier, if r.inContext then site.context else r.context⟩

/-- A field of an object to construct. -/
structure FieldPlan where
  name : String
  type : TypeReference
  description : Option String := none
deriving Inhabited

/-- What a type to construct is. -/
inductive Plan where
  | scalar (name : String)
  | enumeration (name : String) (values : List String)
  | object (name : String) (fields : List FieldPlan)
  | list (of : TypeReference)
  | nonNull (of : TypeReference)
  /-- no type: the construction fails -/
  | fail (message : String)
deriving Inhabited

/-- A type to construct. -/
structure Blueprint where
  plan : Plan
  description : Option String := none
deriving Inhabited

/-- The program of a blueprint. -/
def Blueprint.program (b : Blueprint) (site : Site) : TypeProgram :=
  match b.plan with
  | .scalar name => .done (.new ⟨.scalar name, b.description⟩)
  | .enumeration name values => .done (.new ⟨.enumeration name values, b.description⟩)
  | .object name fields =>
    .keep (fields.map fun f => f.type.request site) fun types =>
      .done (.new ⟨.object name (fields.zipWith (fun f h => ⟨f.name, h, f.description⟩) types),
        b.description⟩)
  | .list of => .request (of.request site) fun h => .done (.new ⟨.list h, b.description⟩)
  | .nonNull of => .request (of.request site) fun h => .done (.new ⟨.nonNull h, b.description⟩)
  | .fail message => .fail (.raised (.other message))

/-- The factory of a blueprint. -/
def Blueprint.factory (b : Blueprint) (tag : Tag) : TypeFactory := ⟨tag, b.program⟩

/-! ### Registering -/

/-- A builder of registries of schema types. -/
abbrev TypeBuilder := Builder SchemaType Unit TypeFault Empty

/-- Groups of factories are registered in turn.  Within a group the first refusal is the last
registration; the groups after it are registered all the same. -/
def registerInTurn (b : TypeBuilder) :
    List (List (String × TypeFactory)) → List (Except TypeError Unit) × TypeBuilder
  | [] => ([], b)
  | group :: groups =>
    let (answer, b) := b.registerAll group
    let (answers, b) := registerInTurn b groups
    (answer :: answers, b)

end SchemaGraph.Scenario
