/-
**What slots stand for.**

A slot is taken for one key.  While a construction of the key is in progress the slot waits; when
the construction fails it is abandoned, and kept for the next attempt at the key as long as handles
to it are alive; when the construction succeeds the key is ready first, and the slot a moment
later.  So at every moment a slot is in use for one key at most, and what it says agrees with the
entry of the key.

Only four changes are turns in the life of a slot.  What they do is said once, and all invariants of
slots follow from it.

Main definitions:

* `Stage.fulfils`, `Stage.published` — the slot that a thread is about to fulfil, and what it has
  published;
* `Turn`, `Quiet` — the four changes, and all others;
* `Uses` — a slot is in use for a key: in progress, about to be fulfilled, or retired;
* `Spares` — nothing happens to a slot;
* `Settled`, `Slotted` — **the invariants**: of retired slots and published keys, and of the states
  of slots in use.

Main results:

* `Change.quiet_or_turn` — a change is one or the other;
* `Change.ready` — what is ready stays ready;
* `uses_claim_iff`, `uses_publish_iff`, `uses_fulfil_iff`, `uses_rollBack_iff` — what is in use
  after a turn;
* `spares_claim`, `spares_publish`, `spares_fulfil`, `spares_rollBack` — a turn is about one slot,
  and all others are spared;
* `Legal.settled`, `Legal.slotted` — the invariants hold in every state of a run.
-/

import SchemaGraph.Proofs.Registry.Construction
import SchemaGraph.Proofs.Registry.SlotState

set_option autoImplicit false

namespace SchemaGraph.Registry

open Relation (ReflTransGen)

variable {ι σ ε ν : Type} {s s' : State ι σ ε ν} {t u : ThreadId} {k : Key} {p q : SlotId}

theorem Table.ready?_eq_some_iff {T : Table} {i : InstanceId} :
    T.ready? k = some i ↔ Dictionary.find? k T.entries = some (.ready i) := by
  unfold ready?
  cases Dictionary.find? k T.entries with
  | none => simp
  | some e => cases e <;> simp

/-! ### Turns in the life of a slot -/

/-- The key and the slot of a published instance whose slot is not fulfilled yet. -/
def Stage.fulfils : Stage ι σ ε ν → Option (Key × SlotId)
  | .fulfilling f _ => some (f.call.key, f.slot)
  | _ => none

/-- The key and the instance that a construction has published, until all are notified of it. -/
def Stage.published : Stage ι σ ε ν → Option (Key × InstanceId)
  | .fulfilling f i => some (f.call.key, i)
  | .ending c (.ok i) => some (c.key, i)
  | _ => none

theorem Stage.fulfils_of_isCalm {stage : Stage ι σ ε ν} (h : stage.isCalm = true) :
    stage.fulfils = none := by
  cases stage <;> simp_all [isCalm, fulfils]

theorem Stage.published_of_isCalm {stage : Stage ι σ ε ν} (h : stage.isCalm = true) :
    stage.published = none := by
  cases stage <;> simp_all [isCalm, published]

theorem Stage.eq_of_fulfils {stage : Stage ι σ ε ν} (h : stage.fulfils = some (k, q)) :
    ∃ f i, stage = .fulfilling f i ∧ f.call.key = k ∧ f.slot = q := by
  cases stage with
  | fulfilling f i =>
      simp only [fulfils, Option.some.injEq, Prod.mk.injEq] at h
      exact ⟨f, i, rfl, h⟩
  | _ => simp [fulfils] at h

theorem Stage.published_of_fulfils {stage : Stage ι σ ε ν} (h : stage.fulfils = some (k, q)) :
    ∃ i, stage.published = some (k, i) := by
  obtain ⟨f, i, rfl, rfl, -⟩ := eq_of_fulfils h
  exact ⟨i, rfl⟩

theorem Thread.ne_atRest_of_fulfils {th : Thread ι σ ε ν} (h : th.stage.fulfils = some (k, q)) :
    th ≠ .atRest := by
  rintro rfl
  cases h

@[simp] theorem Thread.fulfils_notify (th : Thread ι σ ε ν) :
    th.notify.stage.fulfils = th.stage.fulfils := by
  obtain ⟨frames, stage⟩ := th
  cases stage <;> rfl

@[simp] theorem Thread.published_notify (th : Thread ι σ ε ν) :
    th.notify.stage.published = th.stage.published := by
  obtain ⟨frames, stage⟩ := th
  cases stage <;> rfl

/-- A slot is in use for a key, and this is the state that its use calls for. -/
inductive Uses (s : State ι σ ε ν) : Key → SlotId → SlotState → Prop where
  /-- the key is under construction -/
  | pending {k : Key} {t : ThreadId} {q : SlotId} :
      Dictionary.find? k s.store.table.entries = some (.pending t q) → Uses s k q .waiting
  /-- the key is ready, and the slot is about to be fulfilled -/
  | fulfilling {k : Key} {t : ThreadId} {q : SlotId} :
      (s.thread t).stage.fulfils = some (k, q) → Uses s k q .waiting
  /-- the last construction failed, and the next one takes the slot -/
  | retired {k : Key} {q : SlotId} :
      Dictionary.find? k s.store.table.retired = some q → Uses s k q .abandoned

/-- Nothing happens to slots, entries, and the threads that settle a construction. -/
structure Quiet (s s' : State ι σ ε ν) : Prop where
  entries : s'.store.table.entries = s.store.table.entries
  retired : s'.store.table.retired = s.store.table.retired
  state : ∀ q, s'.store.slotState? q = s.store.slotState? q
  fulfils : ∀ u, (s'.thread u).stage.fulfils = (s.thread u).stage.fulfils
  published : ∀ u a, (s'.thread u).stage.published = some a → (s.thread u).stage.published = some a
  /-- no handle to a slot appears out of nowhere -/
  handles : ∀ q, (∀ k x, ¬ Uses s k q x) → s.store.handles q = 0 → s'.store.handles q = 0

/-- What happens to slots, entries, and the threads that settle a construction. -/
inductive Turn (s s' : State ι σ ε ν) : Prop where
  /-- a construction begins -/
  | claim (t : ThreadId) (k : Key) :
      Dictionary.find? k s.store.table.entries = none → s'.store = (s.store.claim t k).2 →
      (∀ u, (s'.thread u).stage.fulfils = (s.thread u).stage.fulfils) →
      (∀ u, (s'.thread u).stage.published = (s.thread u).stage.published) → Turn s s'
  /-- a construction succeeds, and its instance is published -/
  | publish (t : ThreadId) (k : Key) (q : SlotId) (y : Yield ι) :
      Dictionary.find? k s.store.table.entries = some (.pending t q) →
      s'.store = s.store.publish k y →
      (s.thread t).stage.fulfils = none →
      (∀ u, (s'.thread u).stage.fulfils
        = if t = u then some (k, q) else (s.thread u).stage.fulfils) →
      (∀ u, (s'.thread u).stage.published
        = if t = u then some (k, s.store.place y) else (s.thread u).stage.published) →
      Turn s s'
  /-- the slot of a published instance is fulfilled -/
  | fulfil (t : ThreadId) (k : Key) (q : SlotId) (i : InstanceId) :
      (s.thread t).stage.fulfils = some (k, q) → (s.thread t).stage.published = some (k, i) →
      s'.store = s.store.fulfil q i →
      (∀ u, (s'.thread u).stage.fulfils = if t = u then none else (s.thread u).stage.fulfils) →
      (∀ u, (s'.thread u).stage.published = (s.thread u).stage.published) → Turn s s'
  /-- a construction fails, and its key is forgotten -/
  | rollBack (t : ThreadId) (k : Key) (q : SlotId) :
      Dictionary.find? k s.store.table.entries = some (.pending t q) →
      s'.store = s.store.rollBack k q →
      (∀ u, (s'.thread u).stage.fulfils = (s.thread u).stage.fulfils) →
      (∀ u, (s'.thread u).stage.published = (s.thread u).stage.published) → Turn s s'

/-- A view of the stages that does not change when one thread goes on. -/
theorem view_put {α : Type} (view : Stage ι σ ε ν → α) {stage stage' : Stage ι σ ε ν}
    {frames frames' : List (Frame ι σ ε ν)} (hth : s.thread t = ⟨frames, stage⟩)
    (hv : view stage' = view stage) (S : Store ι) (u : ThreadId) :
    view (((s.withStore S).put t frames' stage').thread u).stage = view (s.thread u).stage := by
  rw [State.thread_put]
  split
  · rename_i htu
    rw [← htu, hth, hv]
  · rfl

/-- A thread goes on that neither settles a construction nor begins to. -/
theorem Quiet.put {S : Store ι} {stage stage' : Stage ι σ ε ν}
    {frames frames' : List (Frame ι σ ε ν)} (hth : s.thread t = ⟨frames, stage⟩)
    (hf : stage'.fulfils = stage.fulfils) (hp : stage'.published = stage.published)
    (he : S.table.entries = s.store.table.entries) (hr : S.table.retired = s.store.table.retired)
    (hs : ∀ q, S.slotState? q = s.store.slotState? q)
    (hh : ∀ q, (∀ k x, ¬ Uses s k q x) → s.store.handles q = 0 → S.handles q = 0) :
    Quiet s ((s.withStore S).put t frames' stage') where
  entries := he
  retired := hr
  state := hs
  fulfils := view_put Stage.fulfils hth hf S
  published := fun u _ ha => (view_put Stage.published hth hp S u).symm.trans ha
  handles := hh

theorem Prelude.quiet (hp : Prelude s s') : Quiet s s' := by
  cases hp with
  | aside ht hT hs =>
      refine ⟨by rw [hT], by rw [hT], Store.slotState?_congr hs, fun u => ?_, fun u a ha => ?_,
        fun q _ hq => ?_⟩
      · rw [State.thread_congr ht]
      · rwa [State.thread_congr ht] at ha
      · rwa [Store.handles_congr hs]
  | wake hth =>
      exact .put hth rfl rfl rfl rfl (Store.slotState?_congr rfl) fun q _ hq => hq

/-- **A change is quiet, or a turn in the life of a slot.** -/
theorem Change.quiet_or_turn (hc : Change s s') (ho : Owned s) : Quiet s s' ∨ Turn s s' := by
  have hkeep : ∀ q, (∀ k x, ¬ Uses s k q x) → s.store.handles q = 0 → s.store.handles q = 0 :=
    fun _ _ hq => hq
  cases hc with
  | prelude hp => exact Or.inl hp.quiet
  | pass hth hp =>
      refine Or.inl (.put (S := s.store) hth ?_ ?_ rfl rfl (fun _ => rfl) hkeep)
      · rw [Stage.fulfils_of_isCalm hp.calm, Stage.fulfils_of_isCalm hp.calm_next]
      · rw [Stage.published_of_isCalm hp.calm, Stage.published_of_isCalm hp.calm_next]
  | @arrive t stage hr hst =>
      have hold := Stage.isCalm_of_isResting hr
      have hth : s.thread t = ⟨(s.thread t).frames, (s.thread t).stage⟩ := rfl
      refine Or.inl (.put (S := s.store) hth ?_ ?_ rfl rfl (fun _ => rfl) hkeep)
      · rw [Stage.fulfils_of_isCalm hold, Stage.fulfils_of_isCalm hst]
      · rw [Stage.published_of_isCalm hold, Stage.published_of_isCalm hst]
  | @share t u frames c w p hth he =>
      refine Or.inl (.put hth rfl rfl rfl rfl (Store.slotState?_share _ _) fun q hq h0 => ?_)
      -- the slot that is shared is in use
      have hne : p ≠ q := fun hpq => hq c.key .waiting (hpq ▸ .pending he)
      exact (Store.handles_modifySlot_of_ne hne _ _).trans h0
  | sleep hth => exact Or.inl (.put hth rfl rfl rfl rfl (Store.slotState?_congr rfl) hkeep)
  | claim p hth hnone =>
      exact Or.inr (.claim _ _ hnone rfl (view_put Stage.fulfils hth (by rfl) _)
        (view_put Stage.published hth (by rfl) _))
  | @publish t f frames y hth =>
      have hf : f ∈ (s.thread t).frames := hth ▸ List.mem_cons_self
      refine Or.inr (.publish t _ _ y (ho.pending hf) rfl (by rw [hth]; rfl) ?_ ?_) <;>
        · intro u
          rw [State.thread_put]
          split <;> rfl
  | @fulfil t frames f i hth =>
      refine Or.inr (.fulfil t f.call.key f.slot i (by rw [hth]; rfl) (by rw [hth]; rfl) rfl ?_
        (view_put Stage.published hth (by rfl) _))
      intro u
      rw [State.thread_put]
      split <;> rfl
  | @rollBack t f frames p failure hth =>
      have hf : f ∈ (s.thread t).frames := hth ▸ List.mem_cons_self
      exact Or.inr (.rollBack t _ _ (ho.pending hf) rfl (view_put Stage.fulfils hth (by rfl) _)
        (view_put Stage.published hth (by rfl) _))
  | @announce t frames c result hth =>
      refine Or.inl ⟨rfl, rfl, fun _ => rfl, fun u => ?_, fun u a ha => ?_, hkeep⟩
      · by_cases htu : t = u
        · subst htu
          rw [State.thread_announce_self, hth]
          cases result <;> rfl
        · rw [State.thread_announce_of_ne htu, Thread.fulfils_notify]
      · by_cases htu : t = u
        · subst htu
          rw [State.thread_announce_self] at ha
          cases result <;> simp [Stage.published] at ha
        · rwa [State.thread_announce_of_ne htu, Thread.published_notify] at ha
  | @clone p hp =>
      refine Or.inl ⟨rfl, rfl, Store.slotState?_share _ _, fun _ => rfl, fun _ _ ha => ha,
        fun q _ h0 => Store.handles_modifySlot_of_zero hp h0 _⟩
  | @drop p hp =>
      refine Or.inl ⟨rfl, rfl, Store.slotState?_release _ _, fun _ => rfl, fun _ _ ha => ha,
        fun q _ h0 => Store.handles_modifySlot_of_zero hp h0 _⟩

/-! ### Retired slots and published keys -/

/-- A key with a retired slot has no entry, a published key is ready, and one thread at a time is
about to fulfil the slot of a key. -/
structure Settled (s : State ι σ ε ν) : Prop where
  absent : ∀ {k : Key} {q : SlotId}, Dictionary.find? k s.store.table.retired = some q →
    Dictionary.find? k s.store.table.entries = none
  published : ∀ {t : ThreadId} {k : Key} {i : InstanceId},
    (s.thread t).stage.published = some (k, i) →
      Dictionary.find? k s.store.table.entries = some (.ready i)
  once : ∀ {t u : ThreadId} {k : Key} {p q : SlotId}, (s.thread t).stage.fulfils = some (k, p) →
    (s.thread u).stage.fulfils = some (k, q) → t = u

theorem Settled.fulfils (h : Settled s) (hf : (s.thread t).stage.fulfils = some (k, q)) :
    ∃ i, Dictionary.find? k s.store.table.entries = some (.ready i) := by
  obtain ⟨i, hi⟩ := Stage.published_of_fulfils hf
  exact ⟨i, h.published hi⟩

/-- An absent key uses at most a slot that the last construction left. -/
theorem Settled.retired_of_absent (h : Settled s) {x : SlotState}
    (hnone : Dictionary.find? k s.store.table.entries = none) (hu : Uses s k q x) :
    Dictionary.find? k s.store.table.retired = some q ∧ x = .abandoned := by
  cases hu with
  | pending hp => exact absurd (hnone.symm.trans hp) (by simp)
  | fulfilling hf =>
      obtain ⟨i, hi⟩ := h.fulfils hf
      exact absurd (hnone.symm.trans hi) (by simp)
  | retired hq => exact ⟨hq, rfl⟩

theorem Quiet.settled (hc : Quiet s s') (h : Settled s) : Settled s' := by
  refine ⟨fun hq => ?_, fun hi => ?_, fun ht hu => ?_⟩
  · rw [hc.retired] at hq
    rw [hc.entries, h.absent hq]
  · rw [hc.entries, h.published (hc.published _ _ hi)]
  · rw [hc.fulfils] at ht hu
    exact h.once ht hu

theorem Turn.settled (hc : Turn s s') (h : Settled s) : Settled s' := by
  cases hc with
  | claim t k hnone hS hf hp =>
      refine ⟨fun {j q} hq => ?_, fun {u j i} hi => ?_, fun {u v j p q} hu hv => ?_⟩
      · rw [hS, Store.find?_retired_claim] at hq
        rw [hS, Store.find?_claim]
        split at hq
        · simp at hq
        · rw [if_neg ‹_›, h.absent hq]
      · rw [hp] at hi
        have hne : k ≠ j := by
          rintro rfl
          simp [h.published hi] at hnone
        rw [hS, Store.find?_claim, if_neg hne, h.published hi]
      · rw [hf] at hu hv
        exact h.once hu hv
  | publish t k q x hpend hS _ hf hp =>
      have hne : ∀ {j : Key} {i : InstanceId},
          Dictionary.find? j s.store.table.entries = some (.ready i) → k ≠ j := by
        rintro j i hi rfl
        simp [hpend] at hi
      refine ⟨fun {j p} hq => ?_, fun {u j i} hi => ?_, fun {u v j p p'} hu hv => ?_⟩
      · rw [hS] at hq
        have hj := h.absent hq
        rw [hS, Store.find?_publish, if_neg, hj]
        rintro rfl
        simp [hpend] at hj
      · rw [hp] at hi
        rw [hS, Store.find?_publish]
        split at hi
        · simp only [Option.some.injEq, Prod.mk.injEq] at hi
          rw [if_pos hi.1, hi.2]
        · rw [if_neg (hne (h.published hi)), h.published hi]
      · -- another thread that fulfils the key would have found it ready
        rw [hf] at hu hv
        split at hu <;> split at hv
        · exact (‹t = u›).symm.trans ‹t = v›
        · simp only [Option.some.injEq, Prod.mk.injEq] at hu
          obtain ⟨i, hi⟩ := h.fulfils hv
          exact absurd hu.1 (hne hi)
        · simp only [Option.some.injEq, Prod.mk.injEq] at hv
          obtain ⟨i, hi⟩ := h.fulfils hu
          exact absurd hv.1 (hne hi)
        · exact h.once hu hv
  | fulfil t k q i hfull _ hS hf hp =>
      refine ⟨fun {j p} hq => ?_, fun {u j i} hi => ?_, fun {u v j p p'} hu hv => ?_⟩
      · rw [hS] at hq
        rw [hS]
        exact h.absent hq
      · rw [hp] at hi
        rw [hS]
        exact h.published hi
      · rw [hf] at hu hv
        split at hu <;> split at hv
        · simp at hu
        · simp at hu
        · simp at hv
        · exact h.once hu hv
  | rollBack t k q hpend hS hf hp =>
      refine ⟨fun {j p} hq => ?_, fun {u j i} hi => ?_, fun {u v j p p'} hu hv => ?_⟩
      · rw [hS, Store.find?_rollBack]
        split
        · rfl
        · rw [hS, Store.find?_retired_rollBack, if_neg (fun hk => absurd hk.1 ‹_›)] at hq
          exact h.absent hq
      · rw [hp] at hi
        rw [hS, Store.find?_rollBack, if_neg, h.published hi]
        rintro rfl
        simp [h.published hi] at hpend
      · rw [hf] at hu hv
        exact h.once hu hv

/-- What is ready stays ready. -/
theorem Turn.ready (hc : Turn s s') {i : InstanceId}
    (hi : Dictionary.find? k s.store.table.entries = some (.ready i)) :
    Dictionary.find? k s'.store.table.entries = some (.ready i) := by
  cases hc with
  | claim t j hnone hS =>
      rw [hS, Store.find?_claim, if_neg, hi]
      rintro rfl
      simp [hi] at hnone
  | publish t j q x hpend hS =>
      rw [hS, Store.find?_publish, if_neg, hi]
      rintro rfl
      simp [hi] at hpend
  | fulfil t j q i' _ _ hS =>
      rw [hS]
      exact hi
  | rollBack t j q hpend hS =>
      rw [hS, Store.find?_rollBack, if_neg, hi]
      rintro rfl
      simp [hi] at hpend

theorem Change.ready (hc : Change s s') (ho : Owned s) {i : InstanceId}
    (hi : Dictionary.find? k s.store.table.entries = some (.ready i)) :
    Dictionary.find? k s'.store.table.entries = some (.ready i) := by
  rcases hc.quiet_or_turn ho with hc | hc
  · rw [hc.entries, hi]
  · exact hc.ready hi

theorem Legal.settled (h : Legal s) : Settled s := by
  induction h with
  | initial =>
      exact ⟨fun hq => (nomatch hq), fun hi => (nomatch hi), fun ht => (nomatch ht)⟩
  | change hs hc ih =>
      rcases hc.quiet_or_turn hs.owned with hc | hc
      · exact hc.settled ih
      · exact hc.settled ih

theorem Legal.ready_of_changes (hs : Legal s) (hc : ReflTransGen Change s s') {i : InstanceId}
    (hi : Dictionary.find? k s.store.table.entries = some (.ready i)) :
    Dictionary.find? k s'.store.table.entries = some (.ready i) := by
  induction hc with
  | refl => exact hi
  | tail hc hlast ih => exact hlast.ready (hs.changes hc).owned ih

/-! ### What is in use after a change -/

section

variable {j : Key} {x : SlotState}

theorem Quiet.uses_iff (hc : Quiet s s') : Uses s' j p x ↔ Uses s j p x := by
  constructor
  · intro hu
    cases hu with
    | pending hp => exact .pending (hc.entries ▸ hp)
    | fulfilling hf => exact .fulfilling ((hc.fulfils _).symm.trans hf)
    | retired hq => exact .retired (hc.retired ▸ hq)
  · intro hu
    cases hu with
    | pending hp => exact .pending (hc.entries ▸ hp)
    | fulfilling hf => exact .fulfilling ((hc.fulfils _).trans hf)
    | retired hq => exact .retired (hc.retired ▸ hq)

/-- A claimed key has its slot, and other keys have theirs. -/
theorem uses_claim_iff (h : Settled s) (hnone : Dictionary.find? k s.store.table.entries = none)
    (hS : s'.store = (s.store.claim t k).2)
    (hf : ∀ u, (s'.thread u).stage.fulfils = (s.thread u).stage.fulfils) :
    Uses s' j p x ↔
      (k = j ∧ (s.store.claim t k).1 = p ∧ x = .waiting) ∨ (k ≠ j ∧ Uses s j p x) := by
  constructor
  · intro hu
    cases hu with
    | pending hp =>
        rw [hS, Store.find?_claim] at hp
        split at hp
        · simp only [Option.some.injEq, Entry.pending.injEq] at hp
          exact Or.inl ⟨‹_›, hp.2, rfl⟩
        · exact Or.inr ⟨‹_›, .pending hp⟩
    | fulfilling hu =>
        rw [hf] at hu
        refine Or.inr ⟨?_, .fulfilling hu⟩
        rintro rfl
        obtain ⟨i, hi⟩ := h.fulfils hu
        simp [hi] at hnone
    | retired hq =>
        rw [hS, Store.find?_retired_claim] at hq
        split at hq
        · simp at hq
        · exact Or.inr ⟨‹_›, .retired hq⟩
  · rintro (⟨rfl, rfl, rfl⟩ | ⟨hne, hu⟩)
    · exact .pending (t := t) (by rw [hS, Store.find?_claim, if_pos rfl])
    · cases hu with
      | @pending u _ hp => exact .pending (t := u) (by rw [hS, Store.find?_claim, if_neg hne, hp])
      | fulfilling hu => exact .fulfilling ((hf _).trans hu)
      | retired hq => exact .retired (by rw [hS, Store.find?_retired_claim, if_neg hne, hq])

/-- A published key still has its slot. -/
theorem uses_publish_iff {y : Yield ι}
    (hpend : Dictionary.find? k s.store.table.entries = some (.pending t q))
    (hS : s'.store = s.store.publish k y) (hnone : (s.thread t).stage.fulfils = none)
    (hf : ∀ u, (s'.thread u).stage.fulfils
      = if t = u then some (k, q) else (s.thread u).stage.fulfils) :
    Uses s' j p x ↔ Uses s j p x := by
  constructor
  · intro hu
    cases hu with
    | pending hp =>
        rw [hS, Store.find?_publish] at hp
        split at hp
        · simp at hp
        · exact .pending hp
    | fulfilling hu =>
        rw [hf] at hu
        split at hu
        · simp only [Option.some.injEq, Prod.mk.injEq] at hu
          exact hu.1 ▸ hu.2 ▸ .pending hpend
        · exact .fulfilling hu
    | retired hq => exact .retired (by rw [hS] at hq; exact hq)
  · intro hu
    cases hu with
    | @pending u _ hp =>
        by_cases hk : k = j
        · subst hk
          rw [hpend] at hp
          simp only [Option.some.injEq, Entry.pending.injEq] at hp
          exact .fulfilling (t := t) (by rw [hf, if_pos rfl, hp.2])
        · exact .pending (t := u) (by rw [hS, Store.find?_publish, if_neg hk, hp])
    | @fulfilling u _ hu =>
        refine .fulfilling (t := u) ?_
        rw [hf, if_neg]
        · exact hu
        · rintro rfl
          simp [hnone] at hu
    | retired hq => exact .retired (by rw [hS]; exact hq)

/-- A slot is used for one key. -/
def OneKey (s : State ι σ ε ν) : Prop :=
  ∀ {j k : Key} {q : SlotId} {x y : SlotState}, Uses s j q x → Uses s k q y → j = k

/-- A fulfilled slot is out of use. -/
theorem uses_fulfil_iff {i : InstanceId} (h : Settled s) (hone : OneKey s)
    (hfull : (s.thread t).stage.fulfils = some (k, q)) (hS : s'.store = s.store.fulfil q i)
    (hf : ∀ u, (s'.thread u).stage.fulfils
      = if t = u then none else (s.thread u).stage.fulfils) :
    Uses s' j p x ↔ q ≠ p ∧ Uses s j p x := by
  obtain ⟨i', hready⟩ := h.fulfils hfull
  have hkey : ∀ {j : Key} {x : SlotState}, Uses s j q x → k = j :=
    fun hu => hone (.fulfilling hfull) hu
  constructor
  · intro hu
    cases hu with
    | pending hp =>
        rw [hS] at hp
        refine ⟨?_, .pending hp⟩
        rintro rfl
        rw [← hkey (.pending hp)] at hp
        exact absurd (hready.symm.trans hp) (by simp)
    | fulfilling hu =>
        rw [hf] at hu
        split at hu
        · simp at hu
        · refine ⟨?_, .fulfilling hu⟩
          rintro rfl
          rw [← hkey (.fulfilling hu)] at hu
          exact absurd (h.once hfull hu) ‹_›
    | retired hq =>
        rw [hS] at hq
        refine ⟨?_, .retired hq⟩
        rintro rfl
        have hq' := h.absent hq
        rw [← hkey (.retired hq)] at hq'
        exact absurd (hready.symm.trans hq') (by simp)
  · rintro ⟨hne, hu⟩
    cases hu with
    | pending hp => exact .pending (by rw [hS]; exact hp)
    | @fulfilling u _ hu =>
        refine .fulfilling (t := u) ?_
        rw [hf, if_neg]
        · exact hu
        · rintro rfl
          simp only [hfull, Option.some.injEq, Prod.mk.injEq] at hu
          exact hne hu.2
    | retired hq => exact .retired (by rw [hS]; exact hq)

/-- The slot of a failed construction is retired when it has handles, and is else out of use. -/
theorem uses_rollBack_iff (h : Settled s) (hone : OneKey s)
    (hpend : Dictionary.find? k s.store.table.entries = some (.pending t q))
    (hS : s'.store = s.store.rollBack k q)
    (hf : ∀ u, (s'.thread u).stage.fulfils = (s.thread u).stage.fulfils) :
    Uses s' j p x ↔
      (k = j ∧ q = p ∧ x = .abandoned ∧ 0 < s.store.handles q) ∨ (q ≠ p ∧ Uses s j p x) := by
  -- another key has another slot
  have hother : ∀ {j : Key} {p : SlotId} {x : SlotState}, Uses s j p x → k ≠ j → q ≠ p := by
    rintro j p x hu hk rfl
    exact hk (hone (.pending hpend) hu)
  constructor
  · intro hu
    cases hu with
    | pending hp =>
        rw [hS, Store.find?_rollBack] at hp
        split at hp
        · simp at hp
        · exact Or.inr ⟨hother (.pending hp) ‹_›, .pending hp⟩
    | fulfilling hu =>
        rw [hf] at hu
        refine Or.inr ⟨hother (.fulfilling hu) ?_, .fulfilling hu⟩
        rintro rfl
        obtain ⟨i, hi⟩ := h.fulfils hu
        exact absurd (hi.symm.trans hpend) (by simp)
    | retired hq =>
        rw [hS, Store.find?_retired_rollBack] at hq
        split at hq
        · rename_i hk
          simp only [Option.some.injEq] at hq
          exact Or.inl ⟨hk.1, hq, rfl, hk.2⟩
        · refine Or.inr ⟨hother (.retired hq) ?_, .retired hq⟩
          rintro rfl
          exact absurd ((h.absent hq).symm.trans hpend) (by simp)
  · rintro (⟨rfl, rfl, rfl, hh⟩ | ⟨hne, hu⟩)
    · exact .retired (by rw [hS, Store.find?_retired_rollBack, if_pos ⟨rfl, hh⟩])
    · cases hu with
      | @pending u _ hp =>
          refine .pending (t := u) ?_
          rw [hS, Store.find?_rollBack, if_neg, hp]
          rintro rfl
          simp only [hpend, Option.some.injEq, Entry.pending.injEq] at hp
          exact hne hp.2
      | fulfilling hu => exact .fulfilling ((hf _).trans hu)
      | retired hq =>
          refine .retired ?_
          rw [hS, Store.find?_retired_rollBack, if_neg, hq]
          rintro ⟨rfl, -⟩
          exact absurd ((h.absent hq).symm.trans hpend) (by simp)

/-! ### Slots that are left alone -/

/-- Nothing happens to a slot, but that handles to it may be cloned and dropped while it is in use.
-/
structure Spares (s s' : State ι σ ε ν) (q : SlotId) : Prop where
  state : s'.store.slotState? q = s.store.slotState? q
  uses : ∀ k x, Uses s' k q x ↔ Uses s k q x
  handles : (∀ k x, ¬ Uses s k q x) → s.store.handles q = 0 → s'.store.handles q = 0

theorem Quiet.spares (hc : Quiet s s') (q : SlotId) : Spares s s' q :=
  ⟨hc.state q, fun _ _ => hc.uses_iff, hc.handles q⟩

/-- An absent key is claimed with the slot that it uses. -/
theorem Settled.claim_eq (h : Settled s) (hnone : Dictionary.find? k s.store.table.entries = none)
    (hu : Uses s k q x) (t : ThreadId) : (s.store.claim t k).1 = q :=
  (Store.claim_of_retired (h.retired_of_absent hnone hu).1 t).1

theorem spares_claim (h : Settled s) (hstate : (s.store.claim t k).2.slotState? q
      = s.store.slotState? q)
    (hnone : Dictionary.find? k s.store.table.entries = none)
    (hS : s'.store = (s.store.claim t k).2)
    (hf : ∀ u, (s'.thread u).stage.fulfils = (s.thread u).stage.fulfils)
    (hq : (s.store.claim t k).1 ≠ q) : Spares s s' q := by
  refine ⟨by rw [hS, hstate], fun j x => ?_, fun _ hh => by rw [hS, Store.handles_claim, hh]⟩
  rw [uses_claim_iff h hnone hS hf]
  constructor
  · rintro (⟨-, hp, -⟩ | ⟨-, hu⟩)
    · exact absurd hp hq
    · exact hu
  · intro hu
    refine Or.inr ⟨?_, hu⟩
    rintro rfl
    exact hq (h.claim_eq hnone hu t)

theorem spares_publish {y : Yield ι}
    (hpend : Dictionary.find? k s.store.table.entries = some (.pending t p))
    (hS : s'.store = s.store.publish k y) (hnone : (s.thread t).stage.fulfils = none)
    (hf : ∀ u, (s'.thread u).stage.fulfils
      = if t = u then some (k, p) else (s.thread u).stage.fulfils) (q : SlotId) :
    Spares s s' q := by
  have hslots : s'.store.slots = s.store.slots := by
    rw [hS]
    rfl
  exact ⟨Store.slotState?_congr hslots q, fun _ _ => uses_publish_iff hpend hS hnone hf,
    fun _ hh => (Store.handles_congr hslots q).trans hh⟩

theorem spares_fulfil {i : InstanceId} (h : Settled s) (hone : OneKey s)
    (hfull : (s.thread t).stage.fulfils = some (k, p)) (hS : s'.store = s.store.fulfil p i)
    (hf : ∀ u, (s'.thread u).stage.fulfils
      = if t = u then none else (s.thread u).stage.fulfils) (hq : p ≠ q) : Spares s s' q := by
  refine ⟨by rw [hS, Store.slotState?_fulfil _ _ _ _ hq], fun j x => ?_,
    fun _ hh => by rw [hS, Store.handles_fulfil, hh]⟩
  rw [uses_fulfil_iff h hone hfull hS hf]
  exact ⟨And.right, fun hu => ⟨hq, hu⟩⟩

theorem spares_rollBack (h : Settled s) (hone : OneKey s)
    (hpend : Dictionary.find? k s.store.table.entries = some (.pending t p))
    (hS : s'.store = s.store.rollBack k p)
    (hf : ∀ u, (s'.thread u).stage.fulfils = (s.thread u).stage.fulfils) (hq : p ≠ q) :
    Spares s s' q := by
  refine ⟨by rw [hS, Store.slotState?_rollBack hq], fun j x => ?_,
    fun _ hh => by rw [hS, Store.handles_rollBack, hh]⟩
  rw [uses_rollBack_iff h hone hpend hS hf]
  constructor
  · rintro (⟨-, hp, -⟩ | ⟨-, hu⟩)
    · exact absurd hp hq
    · exact hu
  · exact fun hu => Or.inr ⟨hq, hu⟩

end

/-! ### The states of slots in use -/

/-- What slots say agrees with what they are used for. -/
structure Slotted (s : State ι σ ε ν) : Prop where
  /-- a slot is used for one key -/
  one_key : OneKey s
  /-- a slot is in the state that its use calls for -/
  state : ∀ {k : Key} {q : SlotId} {x : SlotState}, Uses s k q x → s.store.slotState? q = some x
  /-- a slot that waits is in use -/
  waiting : ∀ {q : SlotId}, s.store.slotState? q = some .waiting → ∃ k, Uses s k q .waiting

/-- It suffices to look at the slots that something happens to. -/
theorem Slotted.of_spares (h : Slotted s)
    (hq : ∀ q, Spares s s' q ∨ ∃ k,
      (∀ j x, Uses s' j q x → j = k ∧ s'.store.slotState? q = some x) ∧
      (s'.store.slotState? q = some .waiting → Uses s' k q .waiting)) : Slotted s' := by
  refine ⟨fun {j j' q x y} hu hv => ?_, fun {j q x} hu => ?_, fun {q} hw => ?_⟩
  · rcases hq q with hsp | ⟨k, huse, -⟩
    · exact h.one_key ((hsp.uses j x).1 hu) ((hsp.uses j' y).1 hv)
    · rw [(huse j x hu).1, (huse j' y hv).1]
  · rcases hq q with hsp | ⟨k, huse, -⟩
    · rw [hsp.state, h.state ((hsp.uses j x).1 hu)]
    · exact (huse j x hu).2
  · rcases hq q with hsp | ⟨k, -, hwait⟩
    · rw [hsp.state] at hw
      obtain ⟨j, hu⟩ := h.waiting hw
      exact ⟨j, (hsp.uses j _).2 hu⟩
    · exact ⟨k, hwait hw⟩

/-- What a claim does to slots: its slot waits, and no other key uses it. -/
theorem Slotted.claimed (h : Slotted s) (k : Key) (t : ThreadId) :
    (s.store.claim t k).2.slotState? (s.store.claim t k).1 = some .waiting ∧
      (∀ p, (s.store.claim t k).1 ≠ p →
        (s.store.claim t k).2.slotState? p = s.store.slotState? p) ∧
      ∀ j x, Uses s j (s.store.claim t k).1 x → k = j := by
  cases hr : Dictionary.find? k s.store.table.retired with
  | some q =>
      obtain ⟨hq, hstate⟩ := Store.claim_of_retired hr t
      rw [hq]
      refine ⟨?_, fun p hp => ?_, fun j x hj => h.one_key (.retired hr) hj⟩
      · rw [hstate]
        exact Store.slotState?_rearm_self (h.state (.retired hr))
      · rw [hstate]
        exact Store.slotState?_modifySlot_of_ne hp _ _
  | none =>
      obtain ⟨hq, hstate⟩ := Store.claim_of_fresh hr t
      rw [hq]
      refine ⟨?_, fun p hp => ?_, fun j x hj => ?_⟩
      · rw [hstate, if_pos rfl]
      · rw [hstate, if_neg hp]
      · exact absurd (Store.lt_size_of_slotState? (h.state hj)) (Nat.lt_irrefl _)

theorem Turn.slotted (hc : Turn s s') (hs : Settled s) (h : Slotted s) : Slotted s' := by
  refine h.of_spares fun q => ?_
  cases hc with
  | claim t k hnone hS hf hp =>
      obtain ⟨hself, hother, huses⟩ := h.claimed k t
      by_cases hq : (s.store.claim t k).1 = q
      · refine Or.inr ⟨k, fun j x hu => ?_, fun _ => ?_⟩
        · rcases (uses_claim_iff hs hnone hS hf).1 hu with ⟨hj, -, hx⟩ | ⟨hj, hu⟩
          · rw [← hj, hx, hS, ← hq, hself]
            exact ⟨rfl, rfl⟩
          · exact absurd (huses j x (hq ▸ hu)) hj
        · exact (uses_claim_iff hs hnone hS hf).2 (Or.inl ⟨rfl, hq, rfl⟩)
      · exact Or.inl (spares_claim hs (hother q hq) hnone hS hf hq)
  | publish t k p y hpend hS hnone hf hp => exact Or.inl (spares_publish hpend hS hnone hf q)
  | fulfil t k p i hfull _ hS hf hp =>
      by_cases hq : p = q
      · have hself := Store.slotState?_fulfil_self (h.state (.fulfilling hfull)) i
        refine Or.inr ⟨k, fun j x hu => ?_, fun hw => ?_⟩
        · exact absurd hq ((uses_fulfil_iff hs h.one_key hfull hS hf).1 hu).1
        · rw [hS, ← hq, hself] at hw
          exact absurd hw (by simp)
      · exact Or.inl (spares_fulfil hs h.one_key hfull hS hf hq)
  | rollBack t k p hpend hS hf hp =>
      by_cases hq : p = q
      · have hself := Store.slotState?_rollBack_self (h.state (.pending hpend)) k
        refine Or.inr ⟨k, fun j x hu => ?_, fun hw => ?_⟩
        · rcases (uses_rollBack_iff hs h.one_key hpend hS hf).1 hu with ⟨hj, -, hx, -⟩ | ⟨hne, -⟩
          · rw [← hj, hx, hS, ← hq, hself]
            exact ⟨rfl, rfl⟩
          · exact absurd hq hne
        · rw [hS, ← hq, hself] at hw
          exact absurd hw (by simp)
      · exact Or.inl (spares_rollBack hs h.one_key hpend hS hf hq)

/-- **What slots say agrees with what they are used for.** -/
theorem Legal.slotted (h : Legal s) : Slotted s := by
  induction h with
  | initial notes asked =>
      have hunused : ∀ {k : Key} {q : SlotId} {x : SlotState},
          ¬ Uses (State.initial notes asked : State ι σ ε ν) k q x := by
        intro k q x hu
        cases hu with
        | pending hp => exact nomatch hp
        | fulfilling hf => exact nomatch hf
        | retired hq => exact nomatch hq
      refine ⟨fun hu => absurd hu hunused, fun hu => absurd hu hunused, fun hq => ?_⟩
      simp [State.initial, Store.slotState?] at hq
  | change hs hc ih =>
      rcases hc.quiet_or_turn hs.owned with hc | hc
      · exact ih.of_spares fun q => Or.inl (hc.spares q)
      · exact hc.slotted hs.settled ih

end SchemaGraph.Registry
