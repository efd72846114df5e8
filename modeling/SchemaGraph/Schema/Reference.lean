/-
**Following handles.**

A wrapper leads to the type that it wraps, and after finitely many wrappers to a type with a name.
Followed that way a type stands for an expression: its name, in its wrappers.  Handles are followed
only as often as there are instances, which is enough unless wrappers lead back to themselves.

Main definitions:

* `typeOf` — the type that a handle leads to;
* `exprWithin`, `SchemaType.expr` — the expression for a type;
* `SchemaType.ref`, `refOf` — its written form;
* `namedWithin`, `namedInstance` — the instance under all wrappers.

Main results:

* `SchemaType.expr_of_name` — a type with a name stands for that name;
* `namedInstance_of_name` — and lies under no wrappers.
-/

import SchemaGraph.Schema.Type
import SchemaGraph.TypeExpr.Basic

set_option autoImplicit false

namespace SchemaGraph

open Registry (Handle InstanceId)

/-- The type that a handle leads to. -/
def typeOf (S : TypeStore) (h : Handle) : Except TypeError SchemaType :=
  match h.get? S with
  | none => .error h.unresolved
  | some i =>
    match S.instances[i]? with
    | none => .error h.unresolved
    | some t => .ok t

/-! ### The expression for a type -/

/-- The expression for a type, when the ones for wrapped types are known. -/
def exprVia (inner : Handle → Except TypeError TypeExpr) (t : SchemaType) :
    Except TypeError TypeExpr :=
  match t.kind with
  | .scalar name | .enumeration name _ | .object name _ => .ok (.named name)
  | .list of => (inner of).map .list
  | .nonNull of => (inner of).map .nonNull

/-- The expression for a type, its wrappers followed at most so often. -/
def exprWithin (S : TypeStore) : Nat → SchemaType → Except TypeError TypeExpr
  | 0 => exprVia fun of => .error of.unresolved
  | n + 1 => exprVia fun of => (typeOf S of).bind (exprWithin S n)

/-- The expression for a type. -/
def SchemaType.expr (S : TypeStore) (t : SchemaType) : Except TypeError TypeExpr :=
  exprWithin S S.instances.size t

/-- The expression for a type, in its written form. -/
def SchemaType.ref (S : TypeStore) (t : SchemaType) : Except TypeError String :=
  (t.expr S).map TypeExpr.text

/-- The written expression for the type that a handle leads to. -/
def refOf (S : TypeStore) (h : Handle) : Except TypeError String :=
  (typeOf S h).bind fun t => t.ref S

theorem exprVia_of_name {t : SchemaType} {name : String} (h : t.name? = some name)
    (inner : Handle → Except TypeError TypeExpr) : exprVia inner t = .ok (.named name) := by
  obtain ⟨kind, d⟩ := t
  cases kind <;> simp_all [SchemaType.name?, exprVia]

theorem exprWithin_of_name {t : SchemaType} {name : String} (h : t.name? = some name)
    (S : TypeStore) (n : Nat) : exprWithin S n t = .ok (.named name) := by
  cases n <;> exact exprVia_of_name h _

theorem SchemaType.expr_of_name {t : SchemaType} {name : String} (h : t.name? = some name)
    (S : TypeStore) : t.expr S = .ok (.named name) :=
  exprWithin_of_name h S _

/-! ### The type under all wrappers -/

/-- The instance under the wrappers of another, when the ones under wrapped types are known. -/
def namedVia (S : TypeStore) (inner : Handle → Except TypeError InstanceId) (i : InstanceId) :
    Except TypeError InstanceId :=
  match S.instances[i]?.bind SchemaType.wrapped? with
  | none => .ok i
  | some of => inner of

/-- The instance under the wrappers of another, these followed at most so often. -/
def namedWithin (S : TypeStore) : Nat → InstanceId → Except TypeError InstanceId
  | 0 => namedVia S fun of => .error of.unresolved
  | n + 1 => namedVia S fun of => (of.get S).bind (namedWithin S n)

/-- The instance under all wrappers of another. -/
def namedInstance (S : TypeStore) (i : InstanceId) : Except TypeError InstanceId :=
  namedWithin S S.instances.size i

theorem namedVia_of_name {S : TypeStore} {i : InstanceId} {t : SchemaType}
    (hi : S.instances[i]? = some t) (h : t.wrapped? = none)
    (inner : Handle → Except TypeError InstanceId) : namedVia S inner i = .ok i := by
  simp [namedVia, hi, h]

theorem namedInstance_of_name {S : TypeStore} {i : InstanceId} {t : SchemaType}
    (hi : S.instances[i]? = some t) (h : t.wrapped? = none) : namedInstance S i = .ok i := by
  unfold namedInstance
  cases S.instances.size <;> exact namedVia_of_name hi h _

end SchemaGraph
