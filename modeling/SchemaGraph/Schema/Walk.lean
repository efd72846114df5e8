/-
**Schemas.**

A schema consists of the types with a name that can be reached from a root: through wrappers, and
through the fields of objects.  Each key is visited once, so the walk ends although types refer to
each other in circles.  Two different instances of one name make no schema.

Main definitions:

* `Schema` — the root, and the named types by name;
* `storedKeys` — the keys of all handles that the instances of a store hold;
* `walk` — the walk over the keys that were not visited yet;
* `Schema.ofHandle`, `Schema.build` — the schema at a handle, and at a requested root.

Main results:

* `enter?_eq_ok_iff` — a type is entered under its name unless the name is another's;
* `walk_of_seen` — what was visited is not visited again.
-/

import SchemaGraph.Schema.Reference
import SchemaGraph.Schema.Request

set_option autoImplicit false

namespace SchemaGraph

open Registry (Handle InstanceId Request)

/-- The types of a schema. -/
structure Schema where
  /-- the named type under the wrappers of the root -/
  query : InstanceId
  /-- the named types by name -/
  types : Dictionary String InstanceId
deriving DecidableEq, Repr, Inhabited

/-! ### The walk -/

/-- Enters an instance under its name, if it has one. -/
def enter? (found : Dictionary String InstanceId) (i : InstanceId) (t : SchemaType) :
    Except SchemaError (Dictionary String InstanceId) :=
  match t.name? with
  | none => .ok found
  | some name =>
    match Dictionary.find? name found with
    | none => .ok (Dictionary.set name i found)
    | some j => if j = i then .ok found else .error (.conflictingName name)

theorem enter?_eq_ok_iff {found found' : Dictionary String InstanceId} {i : InstanceId}
    {t : SchemaType} {name : String} (h : t.name? = some name) :
    enter? found i t = .ok found'
      ↔ (Dictionary.find? name found = none ∧ found' = Dictionary.set name i found)
        ∨ (Dictionary.find? name found = some i ∧ found' = found) := by
  cases hf : Dictionary.find? name found with
  | none => simp [enter?, h, hf, eq_comm]
  | some j =>
      by_cases hj : j = i
      · simp [enter?, h, hf, hj, eq_comm]
      · simp [enter?, h, hf, hj]

/-- The keys of all handles that the instances of a store hold. -/
def storedKeys (S : TypeStore) : List Key :=
  S.instances.toList.flatMap fun t => t.handles.map Handle.key

/-- The keys other than one. -/
def without (k : Key) (ks : List Key) : List Key := ks.filter (· ≠ k)

theorem mem_without {k j : Key} {ks : List Key} : j ∈ without k ks ↔ j ∈ ks ∧ j ≠ k := by
  simp [without]

theorem length_without_lt {k : Key} {ks : List Key} (h : k ∈ ks) :
    (without k ks).length < ks.length :=
  List.length_filter_lt_length_iff_exists.2 ⟨k, h, by simp⟩

/-- Enters the named types that can be reached from handles, through keys that were not seen. -/
def walk (S : TypeStore) (unseen : List Key) (found : Dictionary String InstanceId) :
    List Handle → Except SchemaError (Dictionary String InstanceId)
  | [] => .ok found
  | h :: rest =>
    if h.key ∈ unseen then
      match h.get? S with
      | none => .error (.registry h.unresolved)
      | some i =>
        match S.instances[i]? with
        | none => .error (.registry h.unresolved)
        | some t =>
          match enter? found i t with
          | .error e => .error e
          | .ok found => walk S (without h.key unseen) found (t.handles ++ rest)
    else walk S unseen found rest
termination_by pending => (unseen.length, pending.length)
decreasing_by
  · apply Prod.Lex.left
    exact length_without_lt ‹h.key ∈ unseen›
  · apply Prod.Lex.right
    simp

theorem walk_of_seen {S : TypeStore} {unseen : List Key} {h : Handle} (hs : h.key ∉ unseen)
    (found : Dictionary String InstanceId) (rest : List Handle) :
    walk S unseen found (h :: rest) = walk S unseen found rest := by
  rw [walk]
  simp [hs]

/-! ### Schemas -/

namespace Schema

/-- The schema that can be reached from a handle. -/
def ofHandle (S : TypeStore) (entry : Handle) : Except SchemaError Schema :=
  match ((entry.get S).bind (namedInstance S)).mapError .registry with
  | .error e => .error e
  | .ok query =>
    match walk S (entry.key :: storedKeys S) [] [entry] with
    | .error e => .error e
    | .ok found => .ok ⟨query, Dictionary.sorted found⟩

/-- The schema at a requested root. -/
def build (R : TypeSetup) (fuel : Nat) (root : Request) (s : TypeState) :
    Except SchemaError Schema × TypeState :=
  let (answer, s) := request R fuel root s
  (answer.bind (ofHandle s.store), s)

/-- The instance of a name. -/
def get? (schema : Schema) (name : String) : Option InstanceId :=
  Dictionary.find? name schema.types

end Schema

end SchemaGraph
