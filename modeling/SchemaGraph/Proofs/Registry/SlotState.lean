/-
**What a store says about a slot.**

The operations of a store change the state of one slot at most, the one that they are about, and
only clones and drops change how many handles lead to a slot.  A fulfilled slot stays as it is.

Main definitions:

* `Store.slotState?` — the state of a slot.

Main results:

* `Store.claim_of_retired`, `Store.claim_of_fresh` — the slot of a claimed key;
* `Store.slotState?_fulfil`, `Store.slotState?_rollBack` — the state of a slot after the end of a
  construction;
* `Store.handles_claim`, `Store.handles_fulfil`, `Store.handles_rollBack` — handles are counted
  apart from constructions.
-/

import SchemaGraph.Registry.Store

set_option autoImplicit false

namespace SchemaGraph.Registry

namespace Store

variable {ι : Type} {S : Store ι} {k : Key} {p q : SlotId}

/-! ### The state of a slot -/

/-- The state of a slot. -/
def slotState? (S : Store ι) (q : SlotId) : Option SlotState := S.slots[q]?.map Slot.state

theorem slotState?_congr {S' : Store ι} (h : S'.slots = S.slots) (q : SlotId) :
    S'.slotState? q = S.slotState? q := by
  simp [slotState?, h]

theorem slotState?_modifySlot (S : Store ι) (p q : SlotId) (f : Slot → Slot) :
    (S.modifySlot p f).slotState? q
      = if p = q then S.slots[q]?.map fun x => (f x).state else S.slotState? q := by
  simp only [slotState?, modifySlot, Array.getElem?_modify]
  split
  · cases S.slots[q]? <;> rfl
  · rfl

theorem slotState?_modifySlot_of_ne (h : p ≠ q) (S : Store ι) (f : Slot → Slot) :
    (S.modifySlot p f).slotState? q = S.slotState? q := by
  rw [slotState?_modifySlot, if_neg h]

@[simp] theorem slotState?_share (S : Store ι) (p q : SlotId) :
    (S.share p).slotState? q = S.slotState? q := by
  rw [share, slotState?_modifySlot]
  split <;> rfl

@[simp] theorem slotState?_release (S : Store ι) (p q : SlotId) :
    (S.release p).slotState? q = S.slotState? q := by
  rw [release, slotState?_modifySlot]
  split <;> rfl

theorem slotState?_fulfil (S : Store ι) (p q : SlotId) (i : InstanceId) (h : p ≠ q) :
    (S.fulfil p i).slotState? q = S.slotState? q :=
  slotState?_modifySlot_of_ne h S _

theorem slotState?_fulfil_self (h : S.slotState? q = some .waiting) (i : InstanceId) :
    (S.fulfil q i).slotState? q = some (.ready i) := by
  rw [fulfil, slotState?_modifySlot, if_pos rfl]
  simp only [slotState?, Option.map_eq_some_iff] at h ⊢
  obtain ⟨x, hx, hw⟩ := h
  exact ⟨x, hx, by simp [Slot.fulfil, hw]⟩

theorem slotState?_rollBack (h : p ≠ q) (S : Store ι) (k : Key) :
    (S.rollBack k p).slotState? q = S.slotState? q :=
  slotState?_modifySlot_of_ne h S _

theorem slotState?_rollBack_self (h : S.slotState? q = some .waiting) (k : Key) :
    (S.rollBack k q).slotState? q = some .abandoned := by
  have hm := slotState?_modifySlot S q q Slot.abandon
  rw [if_pos rfl] at hm
  refine hm.trans ?_
  simp only [slotState?, Option.map_eq_some_iff] at h ⊢
  obtain ⟨x, hx, hw⟩ := h
  exact ⟨x, hx, by simp [Slot.abandon, hw]⟩

theorem find?_retired_rollBack (S : Store ι) (k j : Key) (q : SlotId) :
    Dictionary.find? j (S.rollBack k q).table.retired
      = if k = j ∧ 0 < S.handles q then some q else Dictionary.find? j S.table.retired := by
  by_cases hq : 0 < S.handles q
  · by_cases hj : k = j <;> simp [rollBack, hq, Dictionary.find?_set, hj]
  · simp [rollBack, hq]

theorem slotState?_rearm_self (h : S.slotState? q = some .abandoned) :
    (S.modifySlot q Slot.rearm).slotState? q = some .waiting := by
  rw [slotState?_modifySlot, if_pos rfl]
  simp only [slotState?, Option.map_eq_some_iff] at h ⊢
  obtain ⟨x, hx, hw⟩ := h
  exact ⟨x, hx, by simp [Slot.rearm, hw]⟩

theorem slotState?_modifySlot_of_ready {i : InstanceId} {f : Slot → Slot}
    (hf : ∀ x : Slot, x.state = .ready i → f x = x) (h : S.slotState? q = some (.ready i))
    (p : SlotId) : (S.modifySlot p f).slotState? q = some (.ready i) := by
  rw [slotState?_modifySlot]
  split
  · simp only [slotState?, Option.map_eq_some_iff] at h ⊢
    obtain ⟨x, hx, hi⟩ := h
    exact ⟨x, hx, by rw [hf x hi, hi]⟩
  · exact h

/-- A key with a retired slot is claimed with that slot. -/
theorem claim_of_retired (h : Dictionary.find? k S.table.retired = some q) (t : ThreadId) :
    (S.claim t k).1 = q ∧
      ∀ p, (S.claim t k).2.slotState? p = (S.modifySlot q Slot.rearm).slotState? p :=
  ⟨by simp [claim, takeSlot, h], fun p => by simp [claim, takeSlot, h, slotState?]⟩

/-- A key without one is claimed with a new slot. -/
theorem claim_of_fresh (h : Dictionary.find? k S.table.retired = none) (t : ThreadId) :
    (S.claim t k).1 = S.slots.size ∧
      ∀ p, (S.claim t k).2.slotState? p
        = if S.slots.size = p then some .waiting else S.slotState? p := by
  refine ⟨by simp [claim, takeSlot, h], fun p => ?_⟩
  simp only [claim, takeSlot, h, slotState?, Array.getElem?_push]
  by_cases hp : p = S.slots.size
  · simp [hp]
  · simp [hp, Ne.symm hp]

theorem lt_size_of_slotState? {x : SlotState} (h : S.slotState? q = some x) :
    q < S.slots.size := by
  simp only [slotState?, Option.map_eq_some_iff] at h
  obtain ⟨y, hy, -⟩ := h
  exact (Array.getElem?_eq_some_iff.1 hy).1

/-- A claim leaves a fulfilled slot as it is. -/
theorem slotState?_claim_of_ready {i : InstanceId} (h : S.slotState? q = some (.ready i))
    (t : ThreadId) (k : Key) : (S.claim t k).2.slotState? q = some (.ready i) := by
  cases hr : Dictionary.find? k S.table.retired with
  | some p =>
      rw [(claim_of_retired hr t).2]
      exact slotState?_modifySlot_of_ready (fun x hx => Slot.rearm_of_ready hx) h p
  | none =>
      have hlt := lt_size_of_slotState? h
      rw [(claim_of_fresh hr t).2, if_neg (Nat.ne_of_gt hlt), h]

theorem find?_retired_claim (S : Store ι) (t : ThreadId) (k j : Key) :
    Dictionary.find? j (S.claim t k).2.table.retired
      = if k = j then none else Dictionary.find? j S.table.retired := by
  cases hr : Dictionary.find? k S.table.retired with
  | some q => simp [claim, takeSlot, hr, Dictionary.find?_erase]
  | none =>
      simp only [claim, takeSlot, hr]
      split
      · rename_i hj
        rw [← hj, hr]
      · rfl

/-! ### Counted handles -/

theorem handles_congr {S' : Store ι} (h : S'.slots = S.slots) (q : SlotId) :
    S'.handles q = S.handles q := by
  simp [handles, h]

/-- A change of a slot that is no matter of handles. -/
theorem handles_modifySlot {f : Slot → Slot} (hf : ∀ x, (f x).handles = x.handles) (S : Store ι)
    (p q : SlotId) : (S.modifySlot p f).handles q = S.handles q := by
  simp only [handles, modifySlot, Array.getElem?_modify]
  split
  · cases S.slots[q]? <;> simp [hf]
  · rfl

theorem handles_modifySlot_of_ne (h : p ≠ q) (S : Store ι) (f : Slot → Slot) :
    (S.modifySlot p f).handles q = S.handles q := by
  simp [handles, modifySlot, Array.getElem?_modify, h]

/-- A slot without handles has none after a change to one that has some. -/
theorem handles_modifySlot_of_zero {S : Store ι} (hp : 0 < S.handles p) (hq : S.handles q = 0)
    (f : Slot → Slot) : (S.modifySlot p f).handles q = 0 := by
  have hne : p ≠ q := by
    rintro rfl
    omega
  exact (handles_modifySlot_of_ne hne S f).trans hq

@[simp] theorem handles_fulfil (S : Store ι) (p q : SlotId) (i : InstanceId) :
    (S.fulfil p i).handles q = S.handles q := by
  refine handles_modifySlot (fun x => ?_) S p q
  simp only [Slot.fulfil]
  split <;> rfl

@[simp] theorem handles_rollBack (S : Store ι) (k : Key) (p q : SlotId) :
    (S.rollBack k p).handles q = S.handles q := by
  refine handles_modifySlot (f := Slot.abandon) (fun x => ?_) S p q
  simp only [Slot.abandon]
  split <;> rfl

/-- A claim counts no handle, and a new slot has none. -/
@[simp] theorem handles_claim (S : Store ι) (t : ThreadId) (k : Key) (q : SlotId) :
    (S.claim t k).2.handles q = S.handles q := by
  cases hr : Dictionary.find? k S.table.retired with
  | some p =>
      simp only [claim, takeSlot, hr]
      refine handles_modifySlot (f := Slot.rearm) (fun x => ?_) S p q
      simp only [Slot.rearm]
      split <;> rfl
  | none =>
      simp only [claim, takeSlot, hr, handles, Array.getElem?_push]
      split
      · rename_i hq
        simp [hq]
      · rfl

end Store

end SchemaGraph.Registry
