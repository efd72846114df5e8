/-
**Every slot is settled by the construction that it stands for.**

A slot is changed under locks of its own, apart from the table: it is armed again under the table's
lock, abandoned under it, and fulfilled without it.  Each of these changes does nothing to a slot in
another state than it expects.  Here that never happens: what a step does to a slot it does to one
that is in the state for it, so a construction that succeeds always fulfils the slot, and finds it
waiting.

Main definitions:

* `Slot.settle` — a slot is given its instance, and answers whether it was waiting for one;
* `Passage` — what a step can do to a slot;
* `Placed` — where the slot of a handle is found.

Main results:

* `Turn.passage`, `Next.passage` — what a step does to a slot suits the state of the slot;
* `Legal.settles`, `step_fulfilling` — a slot that is about to be fulfilled waits for its instance, and
  is settled with it;
* `Coherent.placed` — a handle that is alive points at the slot in progress, the retired one, or one
  that is settled with the instance of its key;
* `slot_discipline` — **slots are in the states that the tables call for**.
-/

import SchemaGraph.Proofs.Registry.Coherence

set_option autoImplicit false

namespace SchemaGraph.Registry

open Relation (ReflTransGen)

variable {ι σ ε ν : Type} {R : Setup ι σ ε ν} {s s' : State ι σ ε ν} {t : ThreadId} {k : Key}
  {q : SlotId} {f : Frame ι σ ε ν} {i : InstanceId}

/-! ### Settling a slot -/

/-- A slot is given its instance: the slot afterwards, and whether it was waiting for one. -/
def Slot.settle (x : Slot) (i : InstanceId) : Slot × Bool :=
  if x.state = .waiting then ({ x with state := .ready i }, true) else (x, false)

theorem Slot.fst_settle (x : Slot) (i : InstanceId) : (x.settle i).1 = x.fulfil i := by
  unfold settle fulfil
  split <;> rfl

theorem Slot.snd_settle (x : Slot) (i : InstanceId) :
    (x.settle i).2 = decide (x.state = .waiting) := by
  unfold settle
  split <;> simp_all

theorem Store.slotState?_eq_some_iff {S : Store ι} {x : SlotState} :
    S.slotState? q = some x ↔ ∃ slot, S.slots[q]? = some slot ∧ slot.state = x := by
  rw [slotState?, Option.map_eq_some_iff]

/-! ### What a step does to a slot -/

/-- What a step can do to a slot. -/
inductive Passage (s s' : State ι σ ε ν) (q : SlotId) : Prop where
  | stays : s'.store.slotState? q = s.store.slotState? q → Passage s s' q
  /-- an absent key without a retired slot is claimed with a new one -/
  | created (k : Key) (t : ThreadId) :
      Dictionary.find? k s.store.table.entries = none →
      Dictionary.find? k s.store.table.retired = none →
      s.store.slotState? q = none → s'.store.slotState? q = some .waiting →
      Dictionary.find? k s'.store.table.entries = some (.pending t q) → Passage s s' q
  /-- an absent key is claimed with its retired slot -/
  | rearmed (k : Key) (t : ThreadId) :
      Dictionary.find? k s.store.table.entries = none →
      Dictionary.find? k s.store.table.retired = some q →
      s.store.slotState? q = some .abandoned → s'.store.slotState? q = some .waiting →
      Dictionary.find? k s'.store.table.entries = some (.pending t q) → Passage s s' q
  /-- the slot of a published instance is fulfilled with it -/
  | fulfilled (k : Key) (t : ThreadId) (i : InstanceId) :
      (s.thread t).stage.fulfils = some (k, q) →
      Dictionary.find? k s.store.table.entries = some (.ready i) →
      s.store.slotState? q = some .waiting → s'.store.slotState? q = some (.ready i) →
      Passage s s' q
  /-- a construction fails, and its slot is abandoned -/
  | abandoned (k : Key) (t : ThreadId) :
      Dictionary.find? k s.store.table.entries = some (.pending t q) →
      s.store.slotState? q = some .waiting → s'.store.slotState? q = some .abandoned →
      Dictionary.find? k s'.store.table.entries = none → Passage s s' q

/-- A turn is about one slot, which is in the state for it. -/
theorem Turn.passage (hc : Turn s s') (hs : Settled s) (hl : Slotted s) (q : SlotId) :
    Passage s s' q := by
  cases hc with
  | claim t k hnone hS hf hp =>
      obtain ⟨hself, hother, -⟩ := hl.claimed k t
      by_cases hq : (s.store.claim t k).1 = q
      · subst hq
        have hwait : s'.store.slotState? (s.store.claim t k).1 = some .waiting := by rw [hS, hself]
        have hentry : Dictionary.find? k s'.store.table.entries
            = some (.pending t (s.store.claim t k).1) := by
          rw [hS, Store.find?_claim, if_pos rfl]
        cases hr : Dictionary.find? k s.store.table.retired with
        | some p =>
            rw [(Store.claim_of_retired hr t).1] at hwait hentry ⊢
            exact .rearmed k t hnone hr (hl.state (.retired hr)) hwait hentry
        | none =>
            refine .created k t hnone hr ?_ hwait hentry
            rw [(Store.claim_of_fresh hr t).1, Store.slotState?, Array.getElem?_eq_none le_rfl]
            rfl
      · exact .stays (by rw [hS, hother q hq])
  | publish t k p x hpend hS =>
      refine .stays (Store.slotState?_congr ?_ q)
      rw [hS]
      rfl
  | fulfil t k p i hfull hpub hS =>
      by_cases hq : p = q
      · subst hq
        have hwait := hl.state (.fulfilling hfull)
        refine .fulfilled k t i hfull (hs.published hpub) hwait ?_
        rw [hS, Store.slotState?_fulfil_self hwait]
      · exact .stays (by rw [hS, Store.slotState?_fulfil _ _ _ _ hq])
  | rollBack t k p hpend hS =>
      by_cases hq : p = q
      · subst hq
        have hwait := hl.state (.pending hpend)
        refine .abandoned k t hpend hwait ?_ ?_
        · rw [hS, Store.slotState?_rollBack_self hwait]
        · rw [hS, Store.find?_rollBack, if_pos rfl]
      · exact .stays (by rw [hS, Store.slotState?_rollBack hq])

theorem Change.passage (hc : Change s s') (hs : Legal s) (q : SlotId) : Passage s s' q := by
  rcases hc.quiet_or_turn hs.owned with hc | hc
  · exact .stays (hc.state q)
  · exact hc.passage hs.settled hs.slotted q

/-- What happens to a slot after something quiet could have happened before. -/
theorem Quiet.passage {s₁ : State ι σ ε ν} (hc : Quiet s s₁) (h : Passage s₁ s' q) :
    Passage s s' q := by
  cases h with
  | stays hq => exact .stays (hq.trans (hc.state q))
  | created k t hnone hr hq hw he =>
      exact .created k t (hc.entries ▸ hnone) (hc.retired ▸ hr) ((hc.state q).symm.trans hq) hw he
  | rearmed k t hnone hr hq hw he =>
      exact .rearmed k t (hc.entries ▸ hnone) (hc.retired ▸ hr) ((hc.state q).symm.trans hq) hw he
  | fulfilled k t i hf he hq hi =>
      exact .fulfilled k t i ((hc.fulfils t).symm.trans hf) (hc.entries ▸ he)
        ((hc.state q).symm.trans hq) hi
  | abandoned k t hp hq ha hnone =>
      exact .abandoned k t (hc.entries ▸ hp) ((hc.state q).symm.trans hq) ha hnone

/-- **What a step does to a slot suits the state of the slot.** -/
theorem Next.passage (hn : Next R s s') (hs : Legal s) (q : SlotId) : Passage s s' q := by
  obtain ⟨s₁, hp, hc⟩ := hn.takes
  have hs₁ : Legal s₁ := hs.changes (ReflTransGen.mono (fun _ _ h => Change.prelude h) _ _ hp)
  have hlast : Passage s₁ s' q := by
    cases hc with
    | refl => exact .stays rfl
    | single hc => exact hc.passage hs₁ q
  clear hc hs₁ hs hn
  induction hp using ReflTransGen.head_induction_on with
  | refl => exact hlast
  | head hfirst _ ih => exact hfirst.quiet.passage ih

/-! ### Slots that are fulfilled -/

/-- A slot that is about to be fulfilled waits for its instance. -/
theorem Legal.settles (hs : Legal s) (hst : (s.thread t).stage = .fulfilling f i) :
    ∃ x, s.store.slots[f.slot]? = some x ∧ x.settle i = ({ x with state := .ready i }, true) := by
  have hf : (s.thread t).stage.fulfils = some (f.call.key, f.slot) := by rw [hst]; rfl
  obtain ⟨x, hx, hw⟩ := Store.slotState?_eq_some_iff.1 (hs.slotted.state (.fulfilling hf))
  exact ⟨x, hx, if_pos hw⟩

/-- The step of a thread that has published an instance settles the slot. -/
theorem step_fulfilling (hst : (s.thread t).stage = .fulfilling f i) {x : Slot}
    (hx : s.store.slots[f.slot]? = some x) :
    ∃ s', step R t s = some s' ∧ s'.store.slots[f.slot]? = some (x.settle i).1 := by
  refine ⟨(s.withStore (s.store.fulfil f.slot i)).put t (s.thread t).frames
    (.ending f.call (.ok i)), ?_, ?_⟩
  · have hf : (s.thread t).stage.fulfils = some (f.call.key, f.slot) := by rw [hst]; rfl
    have hfind := State.find?_of_thread rfl (Thread.ne_atRest_of_fulfils hf)
    simp only [step, hfind, Option.bind_some, stepThread, hst]
  · rw [Slot.fst_settle]
    change (s.store.slots.modify f.slot fun x => x.fulfil i)[f.slot]? = _
    rw [Array.getElem?_modify, if_pos rfl, hx, Option.map_some]

/-- The next attempt at a key takes its retired slot, which then waits. -/
theorem Legal.claim_retired (hs : Legal s)
    (hr : Dictionary.find? k s.store.table.retired = some q) (t : ThreadId) :
    (s.store.claim t k).1 = q ∧ (s.store.claim t k).2.slotState? q = some .waiting := by
  have hq := (Store.claim_of_retired hr t).1
  refine ⟨hq, ?_⟩
  have hwait := (hs.slotted.claimed k t).1
  rwa [hq] at hwait

/-! ### Slots that handles point at -/

/-- Where the slot of a key is found. -/
inductive Placed (s : State ι σ ε ν) (k : Key) (q : SlotId) : Prop where
  /-- the key is under construction with the slot -/
  | pending (t : ThreadId) :
      Dictionary.find? k s.store.table.entries = some (.pending t q) → Placed s k q
  /-- the slot is kept for the next attempt at the key -/
  | retired : Dictionary.find? k s.store.table.retired = some q → Placed s k q
  /-- the slot leads to the instance of the key -/
  | settled (i : InstanceId) : Dictionary.find? k s.store.table.entries = some (.ready i) →
      s.store.slotState? q = some (.ready i) → Placed s k q
  /-- the thread that published the instance of the key is about to settle the slot with it -/
  | settling (t : ThreadId) (f : Frame ι σ ε ν) (i : InstanceId) :
      Dictionary.find? k s.store.table.entries = some (.ready i) →
      (s.thread t).stage = .fulfilling f i → f.call.key = k → f.slot = q → Placed s k q

theorem Uses.placed {x : SlotState} (hu : Uses s k q x) (hs : Settled s) : Placed s k q := by
  cases hu with
  | pending hp => exact .pending _ hp
  | retired hr => exact .retired hr
  | @fulfilling t _ hf =>
      obtain ⟨f, i, hst, rfl, rfl⟩ := Stage.eq_of_fulfils hf
      exact .settling t f i (hs.published (by rw [hst]; rfl)) hst rfl rfl

/-- The slot of a handle that is alive is in use, or settled with the instance of the key. -/
theorem Coherent.placed {h : Handle} (hh : Coherent s h) (hs : Settled s)
    (ht : h.target = .slot q) (hcount : h.isCounted s.store = true) : Placed s h.key q := by
  simp only [Coherent, ht] at hh
  simp only [Handle.isCounted, ht, decide_eq_true_eq] at hcount
  cases hh with
  | used x hu => exact hu.placed hs
  | ready i he hq => exact .settled i he hq
  | lost _ hz => exact absurd hcount (by omega)

/-! ### The discipline -/

/-- **Slots are in the states that the tables call for.**  No key has both an entry and a retired
slot; retired slots are abandoned and the slots of entries in progress wait.  The slot of a handle
that is alive is the one in progress, the retired one, or one that is settled with the instance of
its key or about to be.  What a step does to a slot suits the state of the slot: so only an
abandoned slot is armed again, and a thread that has published an instance finds the slot waiting,
settles it, and is the first to do so. -/
theorem slot_discipline (h : Reachable R s) :
    (∀ k, ¬ (k ∈ Dictionary.names s.store.table.entries ∧
      k ∈ Dictionary.names s.store.table.retired)) ∧
    (∀ k q, Dictionary.find? k s.store.table.retired = some q →
      s.store.slotState? q = some .abandoned) ∧
    (∀ k t q, Dictionary.find? k s.store.table.entries = some (.pending t q) →
      s.store.slotState? q = some .waiting) ∧
    (∀ x q, Issued R x s → x.target = .slot q → x.isCounted s.store = true →
      Placed s x.key q) ∧
    (∀ s', Next R s s' → ∀ q, Passage s s' q) ∧
    (∀ k q t, Dictionary.find? k s.store.table.retired = some q →
      (s.store.claim t k).1 = q ∧ (s.store.claim t k).2.slotState? q = some .waiting) ∧
    ∀ t f i, (s.thread t).stage = .fulfilling f i →
      ∃ x s', s.store.slots[f.slot]? = some x ∧ x.settle i = ({ x with state := .ready i }, true) ∧
        step R t s = some s' ∧ s'.store.slots[f.slot]? = some (x.settle i).1 := by
  have hs := h.legal
  refine ⟨?_, ?_, ?_, ?_, ?_, ?_, ?_⟩
  · rintro k ⟨hentry, hretired⟩
    obtain ⟨q, hq⟩ := Option.isSome_iff_exists.1 ((Dictionary.find?_isSome_iff _ _).2 hretired)
    exact (Dictionary.find?_eq_none_iff _ _).1 (hs.settled.absent hq) hentry
  · intro k q hr
    exact hs.slotted.state (.retired hr)
  · intro k t q hp
    exact hs.slotted.state (.pending hp)
  · intro x q hi ht hcount
    exact hi.coherent.placed hs.settled ht hcount
  · intro s' hn q
    exact hn.passage hs q
  · intro k q t hr
    exact hs.claim_retired hr t
  · intro t f i hst
    obtain ⟨x, hx, hsettle⟩ := hs.settles hst
    obtain ⟨s', hstep, hx'⟩ := step_fulfilling hst hx
    exact ⟨x, s', hx, hsettle, hstep, hx'⟩

/-- The first attempt has failed, and the forward reference that it was given is still there. -/
def failedOnce : State Nat Nat String Unit := runThread flaky 0 20 firstAttempt

/-- The second attempt, when its instance is published. -/
def publishedAtLast : State Nat Nat String Unit :=
  runThread flaky 0 3 (failedOnce.call flaky 0 ⟨.bare "Node", none⟩)

theorem retry_disciplined : Reachable flaky failedOnce ∧ Reachable flaky publishedAtLast ∧
    forward.target = .slot 0 ∧ Placed failedOnce forward.key 0 ∧
    failedOnce.store.slotState? 0 = some .abandoned ∧
    ∃ x, publishedAtLast.store.slots[0]? = some x ∧ (x.settle 0).2 = true := by
  have hfailed : Reachable flaky failedOnce := reachable_firstAttempt.run (run_runThread _ _ _ _)
  have hpublished : Reachable flaky publishedAtLast :=
    (hfailed.next (.call 0 _ (by decide +kernel))).run (run_runThread _ _ _ _)
  have hissued : Issued flaky forward failedOnce :=
    ⟨firstAttempt, 0, reachable_firstAttempt, by decide +kernel, run_runThread _ _ _ _⟩
  obtain ⟨-, habandoned, -, hplaced, -⟩ := slot_discipline hfailed
  refine ⟨hfailed, hpublished, by decide +kernel, ?_, ?_, ?_⟩
  · exact hplaced forward 0 hissued (by decide +kernel) (by decide +kernel)
  · exact habandoned forward.key 0 (by decide +kernel)
  · have hfulfils : (publishedAtLast.thread 0).stage.fulfils = some (forward.key, 0) := by
      decide +kernel
    obtain ⟨f, i, hst, -, hslot⟩ := Stage.eq_of_fulfils hfulfils
    obtain ⟨-, -, -, -, -, -, hsettles⟩ := slot_discipline hpublished
    obtain ⟨x, -, hx, hfirst, -⟩ := hsettles 0 f i hst
    rw [hslot] at hx
    exact ⟨x, hx, by rw [Slot.snd_settle, ← Slot.snd_settle x i, hfirst]⟩

end SchemaGraph.Registry
