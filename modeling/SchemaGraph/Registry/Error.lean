/-
**Errors of a registry.**

A construction that fails reports the failure of its factory as its source, so an error is a chain
that ends in a cause: an identifier without a stable form, a reference that cannot be resolved, a
forward reference read too early, or an error of the factory's own.

Main definitions:

* `ReferenceProblem` — why a name cannot be resolved;
* `RegistryError` — the errors, over the errors `ε` that factories have of their own;
* `RegistryError.message` — the text of an error, without its source;
* `RegistryError.source?` — the next link of the chain;
* `RegistryError.messages` — the texts of an error and its sources.
-/

import SchemaGraph.Identity.Key
import SchemaGraph.Registry.Family

set_option autoImplicit false

namespace SchemaGraph.Registry

/-- Why a reference is refused. -/
inductive ReferenceProblem where
  /-- no factory is registered under the name -/
  | notRegistered
  /-- the family does not admit the factory -/
  | outsideFamily (tag : Tag)
deriving DecidableEq, Repr, Inhabited

/-- The text of a problem. -/
def ReferenceProblem.message : ReferenceProblem → String
  | .notRegistered => "no type is registered under this name"
  | .outsideFamily tag => "`" ++ tag.text ++ "` types are not members of the schema type family"

/-- The errors of a registry whose factories have errors `ε` of their own. -/
inductive RegistryError (ε : Type) where
  /-- the identifier has no stable form -/
  | invalidIdentifier (identifier : String) (reason : IdentifierError)
  /-- the name is unknown or outside the family -/
  | invalidReference (reference : String) (problem : ReferenceProblem)
  /-- the factory failed -/
  | constructionFailed (reference : String) (source : RegistryError ε)
  /-- a handle was read before its construction completed, or after it failed -/
  | unresolved (reference : String) (key : Key)
  /-- two factories were registered under one name -/
  | duplicateFactory (name : String)
  /-- an error of a factory's own -/
  | raised (fault : ε)
deriving DecidableEq, Repr, Inhabited

namespace RegistryError

variable {ε : Type}

/-- The text of an error. -/
def message (faultText : ε → String) : RegistryError ε → String
  | .invalidIdentifier identifier reason =>
    "invalid type identifier `" ++ identifier ++ "`: " ++ reason.message
  | .invalidReference reference problem =>
    "`" ++ reference ++ "` cannot be resolved: " ++ problem.message
  | .constructionFailed reference _ => "failed to construct `" ++ reference ++ "`"
  | .unresolved reference key =>
    "forward reference to `" ++ reference ++ "` (" ++ key.text
      ++ ") read before its construction completed"
  | .duplicateFactory name => "a factory named `" ++ name ++ "` is already registered"
  | .raised fault => faultText fault

/-- The error that a failed construction passes on. -/
def source? : RegistryError ε → Option (RegistryError ε)
  | .constructionFailed _ source => some source
  | _ => none

/-- The texts of an error and its sources, outermost first. -/
def messages (faultText : ε → String) : RegistryError ε → List String
  | .invalidIdentifier identifier reason =>
    [message faultText (.invalidIdentifier identifier reason), reason.message]
  | .constructionFailed reference source =>
    message faultText (.constructionFailed reference source) :: source.messages faultText
  | e => [e.message faultText]

/-- The references of the constructions that failed one inside the other, outermost first. -/
def failedReferences : RegistryError ε → List String
  | .constructionFailed reference source => reference :: source.failedReferences
  | _ => []

/-- The error at the end of the chain. -/
def cause : RegistryError ε → RegistryError ε
  | .constructionFailed _ source => source.cause
  | e => e

end RegistryError

end SchemaGraph.Registry
