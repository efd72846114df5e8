/-
**Handles and the store they point into.**

A request is answered by a handle.  Normally it names the instance.  While the type is still under
construction the handle is deferred: it names a slot, which the construction fulfils when it
completes and abandons when it fails.  An abandoned slot waits again when the construction is
retried; a fulfilled slot stays as it is.

Main definitions:

* `SlotState`, `Slot` — the three states of a slot;
* `Slot.fulfil`, `Slot.abandon`, `Slot.rearm` — its changes;
* `Slot.share`, `Slot.release` — the handles to it are counted;
* `Store` — table, slots, instances and counters;
* `Handle`, `Handle.get?` — a handle, and the instance it leads to.

Main results:

* `Slot.fulfil_of_ready`, `Slot.abandon_of_ready`, `Slot.rearm_of_ready` — a fulfilled slot stays as
  it is.
-/

import SchemaGraph.Registry.Error
import SchemaGraph.Registry.Outcome
import SchemaGraph.Registry.Table

set_option autoImplicit false

namespace SchemaGraph.Registry

/-! ### Slots -/

/-- The state of a slot. -/
inductive SlotState where
  /-- the construction is in progress -/
  | waiting
  /-- the construction led to an instance -/
  | ready (i : InstanceId)
  /-- the construction failed -/
  | abandoned
deriving DecidableEq, Repr, Inhabited

/-- A place for an instance under construction. -/
structure Slot where
  state : SlotState := .waiting
  /-- how many handles to it are alive -/
  handles : Nat := 0
deriving DecidableEq, Repr, Inhabited

namespace Slot

/-- A waiting slot takes its instance. -/
def fulfil (s : Slot) (i : InstanceId) : Slot :=
  if s.state = .waiting then { s with state := .ready i } else s

/-- A waiting slot learns that its construction failed. -/
def abandon (s : Slot) : Slot :=
  if s.state = .waiting then { s with state := .abandoned } else s

/-- An abandoned slot waits for another attempt. -/
def rearm (s : Slot) : Slot :=
  if s.state = .abandoned then { s with state := .waiting } else s

/-- One more handle to the slot is alive. -/
def share (s : Slot) : Slot := { s with handles := s.handles + 1 }

/-- A handle to the slot is dropped. -/
def release (s : Slot) : Slot := { s with handles := s.handles - 1 }

/-- The instance of a fulfilled slot. -/
def instance? (s : Slot) : Option InstanceId :=
  match s.state with
  | .ready i => some i
  | _ => none

theorem fulfil_of_ready {s : Slot} {i : InstanceId} (h : s.state = .ready i) (j : InstanceId) :
    s.fulfil j = s := by
  simp [fulfil, h]

theorem abandon_of_ready {s : Slot} {i : InstanceId} (h : s.state = .ready i) :
    s.abandon = s := by
  simp [abandon, h]

theorem rearm_of_ready {s : Slot} {i : InstanceId} (h : s.state = .ready i) : s.rearm = s := by
  simp [rearm, h]

@[simp] theorem state_share (s : Slot) : s.share.state = s.state := rfl

@[simp] theorem state_release (s : Slot) : s.release.state = s.state := rfl

end Slot

/-! ### The store -/

/-- Everything that calls on a registry share, apart from the threads themselves. -/
structure Store (ι : Type) where
  table : Table := {}
  slots : Array Slot := #[]
  instances : Array ι := #[]
  stats : Stats := {}
  /-- how often the family was asked -/
  asked : Nat := 0

instance {ι : Type} : Inhabited (Store ι) := ⟨{}⟩

/-- How many handles to a slot are alive. -/
def Store.handles {ι : Type} (S : Store ι) (s : SlotId) : Nat :=
  (S.slots[s]?.map Slot.handles).getD 0

/-! ### Handles -/

/-- What a handle points at. -/
inductive Target where
  | ready (i : InstanceId)
  | slot (slot : SlotId)
deriving DecidableEq, Repr, Inhabited

/-- A reference to a resolved type. -/
structure Handle where
  key : Key
  /-- the text of the request -/
  reference : String
  target : Target
deriving DecidableEq, Repr, Inhabited

namespace Handle

variable {ι ε : Type}

/-- Whether the type was under construction when the handle was given. -/
def isDeferred (h : Handle) : Bool :=
  match h.target with
  | .ready _ => false
  | .slot _ => true

/-- The instance that the handle leads to by now. -/
def get? (h : Handle) (S : Store ι) : Option InstanceId :=
  match h.target with
  | .ready i => some i
  | .slot s => S.slots[s]?.bind Slot.instance?

/-- A handle that is alive is counted by the slot that it points at. -/
def isCounted (h : Handle) (S : Store ι) : Bool :=
  match h.target with
  | .ready _ => true
  | .slot s => 0 < S.handles s

/-- Whether the handle leads to an instance by now. -/
def isReady (h : Handle) (S : Store ι) : Bool := (h.get? S).isSome

/-- The error of a handle that leads to no instance. -/
def unresolved (h : Handle) : RegistryError ε := .unresolved h.reference h.key

/-- The instance that the handle leads to, or the error that there is none yet. -/
def get (h : Handle) (S : Store ι) : Except (RegistryError ε) InstanceId :=
  match h.get? S with
  | some i => .ok i
  | none => .error h.unresolved

/-- Whether the construction that the handle waits for is still in progress. -/
def isWaiting (h : Handle) (S : Store ι) : Bool :=
  match h.target with
  | .ready _ => false
  | .slot s => (S.slots[s]?.map Slot.state) = some .waiting

@[simp] theorem get?_ready (k : Key) (r : String) (i : InstanceId) (S : Store ι) :
    Handle.get? ⟨k, r, .ready i⟩ S = some i := rfl

end Handle

end SchemaGraph.Registry
