/-
**Collecting factories.**

Factories are registered one by one under distinct names, and each is checked against the family.
When the registry is built all are checked again, because the family may have been set in between.

Main definitions:

* `Builder` — the factories so far, the family, and how often it was asked;
* `Builder.register`, `Builder.build` — the two checks;
* `Builder.setup` — the registry that results.

Main results:

* `Builder.register_of_taken` — a name is registered once, whatever the family says;
* `Builder.names_register` — a registered factory goes to the end.
-/

import SchemaGraph.Registry.Machine

set_option autoImplicit false

namespace SchemaGraph.Registry

variable {ι σ ε ν : Type}

/-- The factories of a registry that is not built yet. -/
structure Builder (ι σ ε ν : Type) where
  factories : Dictionary String (Factory ι σ ε ν) := []
  family : Family := .any
  /-- how often the family was asked -/
  asked : Nat := 0

instance : Inhabited (Builder ι σ ε ν) := ⟨{}⟩

namespace Builder

/-- A factory is registered under a name, unless the name is taken or the family refuses the tag. -/
def register (b : Builder ι σ ε ν) (name : String) (f : Factory ι σ ε ν) :
    Except (RegistryError ε) Unit × Builder ι σ ε ν :=
  match Dictionary.find? name b.factories with
  | some _ => (.error (.duplicateFactory name), b)
  | none =>
    let asked := { b with asked := b.asked + 1 }
    if b.family.admits b.asked name f.tag then
      (.ok (), { asked with factories := Dictionary.set name f b.factories })
    else (.error (.invalidReference name (.outsideFamily f.tag)), asked)

/-- Factories are registered in order, up to the first that is refused. -/
def registerAll (b : Builder ι σ ε ν) :
    List (String × Factory ι σ ε ν) → Except (RegistryError ε) Unit × Builder ι σ ε ν
  | [] => (.ok (), b)
  | (name, f) :: rest =>
    match b.register name f with
    | (.ok _, b) => b.registerAll rest
    | (.error e, b) => (.error e, b)

/-- The first factory that the family refuses now, and how often the family was asked then. -/
def refused? (family : Family) : Nat → List (String × Factory ι σ ε ν) → Option (String × Tag)
  | _, [] => none
  | asked, (name, f) :: rest =>
    if family.admits asked name f.tag then refused? family (asked + 1) rest
    else some (name, f.tag)

/-- The number of questions to the family, when the registry is built and all factories are checked
again, or the refusal of one of them. -/
def build (b : Builder ι σ ε ν) : Except (RegistryError ε) Nat :=
  match refused? b.family b.asked b.factories with
  | some (name, tag) => .error (.invalidReference name (.outsideFamily tag))
  | none => .ok (b.asked + b.factories.length)

/-- The registry with a sink and settings. -/
def setup (b : Builder ι σ ε ν) (sink : Sink) (options : Options) : Setup ι σ ε ν where
  factories := b.factories
  admits := b.family.admits
  sink := sink
  options := options

theorem register_of_taken {b : Builder ι σ ε ν} {name : String}
    (h : name ∈ Dictionary.names b.factories) (f : Factory ι σ ε ν) :
    b.register name f = (.error (.duplicateFactory name), b) := by
  rw [← Dictionary.find?_isSome_iff, Option.isSome_iff_exists] at h
  obtain ⟨g, hg⟩ := h
  simp [register, hg]

theorem names_register {b b' : Builder ι σ ε ν} {name : String} {f : Factory ι σ ε ν}
    (h : b.register name f = (.ok (), b')) :
    Dictionary.names b'.factories = Dictionary.names b.factories ++ [name] := by
  cases hn : Dictionary.find? name b.factories with
  | some g => simp [register, hn] at h
  | none =>
      have hm := (Dictionary.find?_eq_none_iff name b.factories).1 hn
      simp only [register, hn] at h
      split at h
      · rw [← (Prod.mk.inj h).2, Dictionary.names_set, if_neg hm]
      · simp at h

end Builder

/-! ### Texts of a registry -/

namespace Setup

/-- The registered names in order. -/
def names (R : Setup ι σ ε ν) : List String :=
  (Dictionary.names R.factories).mergeSort fun a b => a ≤ b

/-- Whether a factory is registered under a name. -/
def isRegistered (R : Setup ι σ ε ν) (name : String) : Bool :=
  (Dictionary.find? name R.factories).isSome

/-- The summary of a registry. -/
def summary (R : Setup ι σ ε ν) (s : State ι σ ε ν) : String :=
  "TypeRegistry \x7b session: " ++ Text.quoted R.options.session ++ ", factories: "
    ++ toString R.factories.length ++ ", entries: " ++ toString s.store.table.size ++ ", .. \x7d"

end Setup

/-- The summary of a handle. -/
def Handle.summary (h : Handle) (S : Store ι) : String :=
  let flag (b : Bool) : String := if b then "true" else "false"
  "TypeHandle \x7b reference: " ++ Text.quoted h.reference ++ ", key: CacheKey(" ++ h.key.text
    ++ "), deferred: " ++ flag h.isDeferred ++ ", ready: " ++ flag (h.isReady S) ++ " \x7d"

end SchemaGraph.Registry
