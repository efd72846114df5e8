/-
**Changes of the store.**

Each change of the store that a call makes under the lock is one function here, so that what a call
does is a sequence of these changes.

Main definitions:

* `Store.claim` — a key whose construction begins: its slot is new, or the one retired by the last
  attempt, armed again;
* `Store.place`, `Store.yielded` — the number of what a factory hands over, and the instance itself;
* `Store.publish`, `Store.fulfil` — a construction that succeeded, in two moments;
* `Store.rollBack` — a construction that failed: the key is forgotten, its slot abandoned and, when
  handles to it are alive, kept for the next attempt;
* `Store.sleep`, `Store.wake` — a thread begins and ceases to wait;
* `Store.share`, `Store.release` — a handle to a slot is given out or cloned, or is dropped;
* `Store.ask`, `Store.count`, `Store.countFailure` — counting.

Main results:

* `Store.find?_claim`, `Store.find?_publish`, `Store.find?_rollBack` — the entries after each
  change;
* `Store.getElem?_publish_place`, `Store.getElem?_publish_of_some` — what is published has its place,
  and all that was there keeps its own.
-/

import SchemaGraph.Registry.Program

set_option autoImplicit false

namespace SchemaGraph.Registry.Store

variable {ι : Type}

/-! ### Changes -/

/-- One slot is changed. -/
def modifySlot (S : Store ι) (s : SlotId) (f : Slot → Slot) : Store ι :=
  { S with slots := S.slots.modify s f }

/-- The slot for an attempt at a key, and the store that has it: the retired slot of the key, armed
again, or else a new one. -/
def takeSlot (S : Store ι) (k : Key) : SlotId × Store ι :=
  match Dictionary.find? k S.table.retired with
  | some s =>
    (s, { S.modifySlot s Slot.rearm with
      table := { S.table with retired := Dictionary.erase k S.table.retired } })
  | none => (S.slots.size, { S with slots := S.slots.push {} })

/-- The construction of a key begins on a thread. -/
def claim (S : Store ι) (t : ThreadId) (k : Key) : SlotId × Store ι :=
  let (s, S) := S.takeSlot k
  (s, { S with table := { S.table with
    entries := Dictionary.set k (.pending t s) S.table.entries } })

/-- The number of what a factory hands over: that of the instance which is shared, or the next one
for an instance that is new. -/
def place (S : Store ι) : Yield ι → InstanceId
  | .new _ => S.instances.size
  | .shared find _ => min ((find S).getD S.instances.size) S.instances.size

/-- The instance that a factory hands over. -/
def yielded (S : Store ι) (y : Yield ι) : ι := S.instances[S.place y]?.getD y.content

/-- The instance of a key is there for all to see. -/
def publish (S : Store ι) (k : Key) (y : Yield ι) : Store ι :=
  { S with
    instances := if S.place y < S.instances.size then S.instances else S.instances.push y.content
    table := { S.table with
      entries := Dictionary.set k (.ready (S.place y)) S.table.entries } }

/-- The slot of a published key leads to its instance. -/
def fulfil (S : Store ι) (s : SlotId) (i : InstanceId) : Store ι :=
  S.modifySlot s fun slot => slot.fulfil i

/-- The construction of a key failed.  With the entry gone only the construction itself holds the
slot, unless handles to it are alive. -/
def rollBack (S : Store ι) (k : Key) (s : SlotId) : Store ι :=
  { S.modifySlot s Slot.abandon with
    table := { S.table with
      entries := Dictionary.erase k S.table.entries
      retired := if 0 < S.handles s then Dictionary.set k s S.table.retired
        else S.table.retired } }

/-- A thread begins to wait for a key. -/
def sleep (S : Store ι) (t : ThreadId) (k : Key) : Store ι :=
  { S with table := { S.table with waiting := Dictionary.set t k S.table.waiting } }

/-- A thread ceases to wait. -/
def wake (S : Store ι) (t : ThreadId) : Store ι :=
  { S with table := { S.table with waiting := Dictionary.erase t S.table.waiting } }

/-- A handle to a slot is given out or cloned. -/
def share (S : Store ι) (s : SlotId) : Store ι := S.modifySlot s Slot.share

/-- A handle to a slot is dropped. -/
def release (S : Store ι) (s : SlotId) : Store ι := S.modifySlot s Slot.release

/-- The family is asked. -/
def ask (S : Store ι) : Store ι := { S with asked := S.asked + 1 }

/-- An answer is counted. -/
def count (S : Store ι) (o : Outcome) : Store ι := { S with stats := S.stats.count o }

/-- A failed construction is counted. -/
def countFailure (S : Store ι) : Store ι := { S with stats := S.stats.countFailure }

/-! ### Entries after a change -/

@[simp] theorem entries_takeSlot (S : Store ι) (k : Key) :
    (S.takeSlot k).2.table.entries = S.table.entries := by
  simp only [takeSlot]
  split <;> rfl

theorem find?_claim (S : Store ι) (t : ThreadId) (k j : Key) :
    Dictionary.find? j (S.claim t k).2.table.entries
      = if k = j then some (.pending t (S.claim t k).1)
        else Dictionary.find? j S.table.entries := by
  simp [claim, Dictionary.find?_set]

theorem find?_publish (S : Store ι) (k j : Key) (y : Yield ι) :
    Dictionary.find? j (S.publish k y).table.entries
      = if k = j then some (.ready (S.place y))
        else Dictionary.find? j S.table.entries := by
  simp [publish, Dictionary.find?_set]

theorem find?_rollBack (S : Store ι) (k j : Key) (s : SlotId) :
    Dictionary.find? j (S.rollBack k s).table.entries
      = if k = j then none else Dictionary.find? j S.table.entries := by
  simp [rollBack, Dictionary.find?_erase]

/-! ### Instances after a change -/

@[simp] theorem place_new (S : Store ι) (x : ι) : S.place (.new x) = S.instances.size := rfl

theorem place_le (S : Store ι) (y : Yield ι) : S.place y ≤ S.instances.size := by
  cases y with
  | new x => exact Nat.le_refl _
  | shared find x => exact Nat.min_le_right _ _

@[simp] theorem yielded_new (S : Store ι) (x : ι) : S.yielded (.new x) = x := by
  simp [yielded, Yield.content]

@[simp] theorem instances_publish_new (S : Store ι) (k : Key) (x : ι) :
    (S.publish k (.new x)).instances = S.instances.push x := by
  simp [publish, Yield.content]

/-- What was there keeps its place. -/
theorem getElem?_publish_of_some {S : Store ι} {i : InstanceId} {x : ι}
    (hx : S.instances[i]? = some x) (k : Key) (y : Yield ι) :
    (S.publish k y).instances[i]? = some x := by
  have hlt := (Array.getElem?_eq_some_iff.1 hx).1
  simp only [publish]
  split
  · exact hx
  · rw [Array.getElem?_push, if_neg (Nat.ne_of_lt hlt), hx]

/-- What is published has its place. -/
theorem getElem?_publish_place (S : Store ι) (k : Key) (y : Yield ι) :
    (S.publish k y).instances[S.place y]? = some (S.yielded y) := by
  simp only [publish, yielded]
  split
  · rename_i hlt
    rw [Array.getElem?_eq_getElem hlt, Option.getD_some]
  · rename_i hlt
    have hsize : S.place y = S.instances.size :=
      Nat.le_antisymm (S.place_le y) (Nat.le_of_not_lt hlt)
    simp [hsize]

/-- What is there was there before, or has just been made. -/
theorem getElem?_publish_cases {S : Store ι} {k : Key} {y : Yield ι} {i : InstanceId} {x : ι}
    (hx : (S.publish k y).instances[i]? = some x) : S.instances[i]? = some x ∨ x = y.content := by
  simp only [publish] at hx
  split at hx
  · exact Or.inl hx
  · rw [Array.getElem?_push] at hx
    split at hx
    · exact Or.inr (Option.some.inj hx).symm
    · exact Or.inl hx

end SchemaGraph.Registry.Store
