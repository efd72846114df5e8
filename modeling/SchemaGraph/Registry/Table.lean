/-
**The table of a registry.**

The table holds, for each key that is known, whether its construction is in progress or which
instance it led to; for each sleeping thread the key it waits for; and for each key whose
construction failed the slot that forward references may still point at.

Main definitions:

* `Entry` — a construction in progress, or a finished one;
* `Table`, `Table.owner?` — the table, and the thread that constructs a key;
* `Table.waitsFor` — the thread whose construction a thread waits for;
* `Table.closesWaitCycle` — whether a thread would end up waiting for itself.

Main results:

* `Table.closesWaitCycle_self` — a thread that owns the construction itself closes a cycle;
* `Table.waitWalk_succ` — one hop of the walk along the waiting threads.
-/

import SchemaGraph.Identity.Key

set_option autoImplicit false

namespace SchemaGraph.Registry

/-- The number of a thread. -/
abbrev ThreadId := Nat

/-- The number of an instance, in order of publication. -/
abbrev InstanceId := Nat

/-- The number of a slot, in order of creation. -/
abbrev SlotId := Nat

/-! ### Entries -/

/-- What is known about a key. -/
inductive Entry where
  /-- a thread is constructing the type; forward references read the slot -/
  | pending (owner : ThreadId) (slot : SlotId)
  /-- the type was constructed -/
  | ready (i : InstanceId)
deriving DecidableEq, Repr, Inhabited

/-- The table of a registry. -/
structure Table where
  /-- constructions in progress and finished ones -/
  entries : Dictionary Key Entry := []
  /-- the key that each sleeping thread waits for -/
  waiting : Dictionary ThreadId Key := []
  /-- the slots of failed constructions, for the next attempt to reuse -/
  retired : Dictionary Key SlotId := []
deriving Repr, Inhabited

namespace Table

/-- The thread that is constructing a key. -/
def owner? (T : Table) (k : Key) : Option ThreadId :=
  match Dictionary.find? k T.entries with
  | some (.pending owner _) => some owner
  | _ => none

/-- The instance of a key. -/
def ready? (T : Table) (k : Key) : Option InstanceId :=
  match Dictionary.find? k T.entries with
  | some (.ready i) => some i
  | _ => none

/-- The number of keys that are known. -/
def size (T : Table) : Nat := T.entries.length

/-- The finished constructions, by key. -/
def instances (T : Table) : List (Key × InstanceId) :=
  (T.entries.filterMap fun p =>
    match p.2 with
    | .ready i => some (p.1, i)
    | .pending _ _ => none).mergeSort fun a b => a.1.le b.1

/-! ### Waiting -/

/-- The thread whose construction the thread waits for. -/
def waitsFor (T : Table) (t : ThreadId) : Option ThreadId :=
  (Dictionary.find? t T.waiting).bind T.owner?

/-- Follows at most so many threads, each waiting for the construction of the next, and says whether
the walk meets a thread. -/
def waitWalk (T : Table) (me : ThreadId) : Nat → ThreadId → Bool
  | 0, _ => false
  | hops + 1, t =>
    if t = me then true
    else
      match T.waitsFor t with
      | some owner => waitWalk T me hops owner
      | none => false

/-- Whether a thread that waited for a construction of the owner would close a cycle of threads that
wait for each other.  A walk that is longer than the number of waiting threads repeats itself. -/
def closesWaitCycle (T : Table) (owner me : ThreadId) : Bool :=
  T.waitWalk me (T.waiting.length + 1) owner

@[simp] theorem waitWalk_zero (T : Table) (me t : ThreadId) : T.waitWalk me 0 t = false := rfl

theorem waitWalk_succ (T : Table) (me : ThreadId) (n : Nat) (t : ThreadId) :
    T.waitWalk me (n + 1) t
      = (decide (t = me) || (T.waitsFor t).any (T.waitWalk me n)) := by
  by_cases h : t = me
  · simp [waitWalk, h]
  · cases hw : T.waitsFor t <;> simp [waitWalk, h, hw]

@[simp] theorem closesWaitCycle_self (T : Table) (me : ThreadId) :
    T.closesWaitCycle me me = true := by
  simp [closesWaitCycle, waitWalk]

end Table

end SchemaGraph.Registry
