/-
**Without a failure no handle is left behind.**

A slot is abandoned when the construction that it waits for fails, and the failure is counted before
the call that it ends is over.  Failures are never taken back.  So in a registry at rest that has
counted none, no slot is abandoned, and every handle that was ever given leads to its type.

Main definitions:

* `State.failures` — the constructions that have failed, counted or not yet.

Main results:

* `Change.abandons` — a slot is abandoned when a construction fails;
* `Next.failures_le` — failures are not taken back;
* `Reachable.failures_pos` — **an abandoned slot tells of a failure**;
* `AtRest.ready` — **at rest and without a failure, every handle is ready**.
-/

import Mathlib.Algebra.Order.BigOperators.Group.List
import Mathlib.Algebra.Order.Group.Nat
import SchemaGraph.Proofs.Registry.Alone
import SchemaGraph.Proofs.Registry.Tally

set_option autoImplicit false

namespace SchemaGraph.Registry

variable {ι σ ε ν : Type} {R : Setup ι σ ε ν} {s s' : State ι σ ε ν} {S : Store ι} {p q : SlotId}

/-! ### What abandons a slot -/

/-- A change of a slot abandons no other one, nor that one if the change itself does not. -/
theorem Store.not_abandoned_modifySlot {f : Slot → Slot}
    (hf : ∀ x, (f x).state = .abandoned → x.state = .abandoned)
    (h : S.slotState? q ≠ some .abandoned) :
    (S.modifySlot p f).slotState? q ≠ some .abandoned := by
  rw [slotState?_modifySlot]
  split
  · intro hnew
    obtain ⟨x, hx, hstate⟩ := Option.map_eq_some_iff.1 hnew
    exact h (Option.map_eq_some_iff.2 ⟨x, hx, hf x hstate⟩)
  · exact h

theorem Store.not_abandoned_claim (h : S.slotState? q ≠ some .abandoned) (t : ThreadId) (k : Key) :
    (S.claim t k).2.slotState? q ≠ some .abandoned := by
  cases hr : Dictionary.find? k S.table.retired with
  | some r =>
      rw [(claim_of_retired hr t).2]
      refine not_abandoned_modifySlot (fun x hx => ?_) h
      by_contra hne
      rw [Slot.rearm, if_neg hne] at hx
      exact hne hx
  | none =>
      rw [(claim_of_fresh hr t).2]
      split
      · simp
      · exact h

theorem Store.not_abandoned_fulfil (h : S.slotState? q ≠ some .abandoned) (i : InstanceId) :
    (S.fulfil p i).slotState? q ≠ some .abandoned := by
  refine not_abandoned_modifySlot (fun x hx => ?_) h
  unfold Slot.fulfil at hx
  split at hx
  · cases hx
  · exact hx

/-- **A slot is abandoned when a construction fails.** -/
theorem Change.abandons (hc : Change s s') (hold : s.store.slotState? q ≠ some .abandoned)
    (hnew : s'.store.slotState? q = some .abandoned) :
    ∃ t c failure, (s'.thread t).stage = .ending c (.error failure) := by
  -- only a construction that fails does so
  have hsame : ∀ {S : Store ι}, S.slots = s.store.slots → S.slotState? q ≠ some .abandoned :=
    fun hslots => Store.slotState?_congr hslots q ▸ hold
  cases hc with
  | prelude hp => exact absurd hnew (hp.quiet.state q ▸ hold)
  | pass => exact absurd hnew hold
  | arrive => exact absurd hnew hold
  | share =>
      exact absurd hnew
        (by rwa [State.store_put, State.store_withStore, Store.slotState?_share])
  | sleep => exact absurd hnew (hsame rfl)
  | claim => exact absurd hnew (Store.not_abandoned_claim hold _ _)
  | publish => exact absurd hnew (hsame rfl)
  | fulfil => exact absurd hnew (Store.not_abandoned_fulfil hold _)
  | @rollBack t f frames _ failure _ => exact ⟨t, f.call, failure, by rw [State.thread_put_self]⟩
  | announce => exact absurd hnew hold
  | clone => exact absurd hnew (by rwa [State.store_withStore, Store.slotState?_share])
  | drop => exact absurd hnew (by rwa [State.store_withStore, Store.slotState?_release])

theorem Takes.abandons (h : Takes s s') (hold : s.store.slotState? q ≠ some .abandoned)
    (hnew : s'.store.slotState? q = some .abandoned) :
    ∃ t c failure, (s'.thread t).stage = .ending c (.error failure) := by
  obtain ⟨s₁, hpre, hc⟩ := h
  induction hpre using Relation.ReflTransGen.head_induction_on with
  | refl =>
      cases hc with
      | refl => exact absurd hnew hold
      | single hc => exact hc.abandons hold hnew
  | head hp _ ih => exact ih (hp.quiet.state q ▸ hold)

/-! ### Failures -/

/-- The constructions that have failed, counted or not yet. -/
def State.failures (s : State ι σ ε ν) : Nat := s.store.stats.failures + Weight.failures.total s

/-- A thread bears no more than all threads together. -/
theorem Weight.le_total (w : Weight ι σ ε ν) (s : State ι σ ε ν) (t : ThreadId) :
    w.of (s.thread t) ≤ w.total s := by
  cases hf : Dictionary.find? t s.threads with
  | none =>
      rw [State.thread, hf, Option.getD_none, w.atRest]
      exact Nat.zero_le _
  | some th =>
      rw [State.thread_of_find? hf]
      exact List.le_sum_of_mem (List.mem_map_of_mem (Dictionary.mem_of_find? hf))

/-- A construction that ends in a failure has failed. -/
theorem State.failures_pos {t : ThreadId} {c : Call ι σ ε ν} {failure : Failure ε}
    (h : (s.thread t).stage = .ending c (.error failure)) : 0 < s.failures := by
  have hbears : Weight.failures.of (s.thread t) = 1 := congrArg Stage.failures h
  have hle := Weight.failures.le_total s t
  unfold State.failures
  omega

theorem Reachable.accounts (hs : Reachable R s) : ∃ H, Accounts H s := by
  obtain ⟨notes, asked, as, hp⟩ := reachable_iff_perform.1 hs
  exact ⟨_, accounts_history (accounts_initial notes asked) (.initial ..) hp⟩

/-- **Failures are not taken back.** -/
theorem Next.failures_le (hn : Next R s s') (hs : Reachable R s) : s.failures ≤ s'.failures := by
  obtain ⟨H, hH⟩ := hs.accounts
  obtain ⟨a, ha⟩ := next_iff_act.1 hn
  have hcount := (hH.act hs.legal ha).failures
  rw [List.count_append, hH.failures] at hcount
  unfold State.failures
  omega

/-- **An abandoned slot tells of a failure.** -/
theorem Reachable.failures_pos (hs : Reachable R s) (hq : s.store.slotState? q = some .abandoned) :
    0 < s.failures := by
  induction hs with
  | initial notes asked => simp [State.initial, Store.slotState?] at hq
  | @next s s' hs hn ih =>
      by_cases hold : s.store.slotState? q = some .abandoned
      · exact Nat.lt_of_lt_of_le (ih hold) (hn.failures_le hs)
      · obtain ⟨t, c, failure, hstage⟩ := hn.takes.abandons hold hq
        exact State.failures_pos hstage

/-- At rest all failures are counted. -/
theorem AtRest.failures_eq {rs : List Request} (hs : AtRest R rs s) :
    s.failures = s.store.stats.failures := by
  have hnone : Weight.failures.total s = 0 := by
    refine Weight.total_eq_zero _ hs.reachable.legal.listed.threads fun t => ?_
    have hout := hs.outside t
    show (s.thread t).stage.failures = 0
    cases hst : (s.thread t).stage <;> simp [hst, Stage.isOutside, Stage.failures] at hout ⊢
  rw [State.failures, hnone, Nat.add_zero]

/-- **At rest and without a failure, every handle is ready**, and leads to what the table has. -/
theorem AtRest.ready {rs : List Request} {h : Handle} (hs : AtRest R rs s)
    (hnone : s.store.stats.failures = 0) (hh : Coherent s h) :
    ∃ i, h.get? s.store = some i ∧
      Dictionary.find? h.key s.store.table.entries = some (.ready i) := by
  refine hh.ready_of_unharmed hs.reachable.legal hs.outside fun q _ hq => ?_
  have hpos := hs.reachable.failures_pos hq
  rw [hs.failures_eq, hnone] at hpos
  exact Nat.lt_irrefl 0 hpos

end SchemaGraph.Registry
