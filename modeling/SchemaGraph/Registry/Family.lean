/-
**Kinds of types and the family they belong to.**

Every factory is registered under a tag that names the kind of type it constructs.  A family says
which factories belong to it, by name and tag.  Some families keep count of how often they were
asked, so the answer may depend on the number of questions before.

Main definitions:

* `Tag` — the kind of type a factory constructs;
* `Family` — the families;
* `Family.admits` — whether the next question about a name and a tag is answered with yes.

Main results:

* `Family.admits_ofTags` — a family of tags looks at the tag alone.
-/

set_option autoImplicit false

namespace SchemaGraph.Registry

/-- The kind of type a factory constructs, such as `object` or `scalar`. -/
structure Tag where
  text : String
deriving DecidableEq, Repr, Inhabited

/-- A rule that says which factories belong to the family of a registry. -/
inductive Family where
  /-- every factory -/
  | any
  /-- the factories whose tag is listed -/
  | ofTags (tags : List Tag)
  /-- the factories whose name starts so -/
  | namedWith (start : String)
  /-- whatever is asked about, as long as fewer questions than this were asked -/
  | firstAsked (budget : Nat)
deriving DecidableEq, Repr, Inhabited

/-- Whether a factory belongs to the family, when so many questions were asked before. -/
def Family.admits (f : Family) (asked : Nat) (name : String) (tag : Tag) : Bool :=
  match f with
  | .any => true
  | .ofTags tags => tag ∈ tags
  | .namedWith start => start.toList.isPrefixOf name.toList
  | .firstAsked budget => asked < budget

@[simp] theorem Family.admits_any (asked : Nat) (name : String) (tag : Tag) :
    Family.any.admits asked name tag = true := rfl

theorem Family.admits_ofTags (tags : List Tag) (asked : Nat) (name : String) (tag : Tag) :
    (Family.ofTags tags).admits asked name tag = true ↔ tag ∈ tags := by
  simp [Family.admits]

end SchemaGraph.Registry
