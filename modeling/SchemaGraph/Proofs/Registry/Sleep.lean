/-
**Sleepers and their waiting records.**

A call that finds its key under construction by another thread leaves a waiting record and goes to
sleep.  The record stays until the thread has woken and has the table to itself again, so for a
while it may speak of a construction that has ended, or of a later attempt that some other thread
began under it.  Neither can close a cycle: a thread that begins an attempt is awake and waits for
nobody.

Main definitions:

* `Stage.sleepsOn`, `Stage.hopesFor` — the key that a sleeper waits for, and the same until it is
  notified;
* `Stage.isSettling` — a construction has ended and the sleepers are still to be notified.

Main results:

* `Legal.waiting_eq` — the records are those of the sleepers;
* `Legal.acyclic` — **no thread waits for itself**;
* `Legal.watched` — **no wake-up is lost**: a sleeper that was not notified waits for a construction
  in progress, unless some thread is about to notify all.
-/

import SchemaGraph.Proofs.Registry.Construction
import SchemaGraph.Proofs.Registry.WaitGraph

set_option autoImplicit false

namespace SchemaGraph.Registry

variable {ι σ ε ν : Type} {s s' : State ι σ ε ν} {t : ThreadId}

/-! ### Sleepers -/

/-- The key that a sleeper waits for. -/
def Stage.sleepsOn : Stage ι σ ε ν → Option Key
  | .asleep c _ => some c.key
  | _ => none

/-- The key that a sleeper waits for, as long as it was not notified. -/
def Stage.hopesFor : Stage ι σ ε ν → Option Key
  | .asleep c false => some c.key
  | _ => none

/-- A construction has ended, and the sleepers are still to be notified. -/
def Stage.isSettling : Stage ι σ ε ν → Bool
  | .fulfilling .. | .ending .. => true
  | _ => false

theorem Stage.sleepsOn_of_isCalm {stage : Stage ι σ ε ν} (h : stage.isCalm = true) :
    stage.sleepsOn = none := by
  cases stage <;> simp_all [isCalm, sleepsOn]

theorem Stage.isSettling_of_isCalm {stage : Stage ι σ ε ν} (h : stage.isCalm = true) :
    stage.isSettling = false := by
  cases stage <;> simp_all [isCalm, isSettling]

theorem Stage.sleepsOn_of_hopesFor {stage : Stage ι σ ε ν} {k : Key}
    (h : stage.hopesFor = some k) : stage.sleepsOn = some k := by
  cases stage with
  | asleep c notified => cases notified <;> simp_all [hopesFor, sleepsOn]
  | _ => simp [hopesFor] at h

@[simp] theorem Thread.sleepsOn_notify (th : Thread ι σ ε ν) :
    th.notify.stage.sleepsOn = th.stage.sleepsOn := by
  obtain ⟨frames, stage⟩ := th
  cases stage <;> rfl

@[simp] theorem Thread.hopesFor_notify (th : Thread ι σ ε ν) :
    th.notify.stage.hopesFor = none := by
  obtain ⟨frames, stage⟩ := th
  cases stage <;> rfl

/-! ### Waiting records -/

/-- The records are those of the sleepers, if they were so before and the records of the thread that
goes on are adjusted. -/
theorem waiting_put (h : ∀ u, Dictionary.find? u s.store.table.waiting
      = (s.thread u).stage.sleepsOn) {S : Store ι} {frames : List (Frame ι σ ε ν)}
    {stage : Stage ι σ ε ν}
    (hw : ∀ u, Dictionary.find? u S.table.waiting
      = if t = u then stage.sleepsOn else Dictionary.find? u s.store.table.waiting) :
    ∀ u, Dictionary.find? u ((s.withStore S).put t frames stage).store.table.waiting
      = (((s.withStore S).put t frames stage).thread u).stage.sleepsOn := by
  intro u
  rw [State.store_put, State.store_withStore, hw, State.thread_put]
  split
  · rfl
  · exact h u

/-- A thread that was awake goes on and stays awake. -/
theorem waiting_put_of_awake (h : ∀ u, Dictionary.find? u s.store.table.waiting
      = (s.thread u).stage.sleepsOn) {S : Store ι} {frames frames' : List (Frame ι σ ε ν)}
    {stage stage' : Stage ι σ ε ν} (hth : s.thread t = ⟨frames', stage'⟩)
    (hw : S.table.waiting = s.store.table.waiting) (hold : stage'.sleepsOn = none)
    (hnew : stage.sleepsOn = none) :
    ∀ u, Dictionary.find? u ((s.withStore S).put t frames stage).store.table.waiting
      = (((s.withStore S).put t frames stage).thread u).stage.sleepsOn := by
  refine waiting_put h fun u => ?_
  rw [hw]
  split
  · rename_i htu
    rw [← htu, h t, hth, hold, hnew]
  · rfl

theorem Prelude.waiting (hp : Prelude s s') (h : ∀ u, Dictionary.find? u s.store.table.waiting
      = (s.thread u).stage.sleepsOn) :
    ∀ u, Dictionary.find? u s'.store.table.waiting = (s'.thread u).stage.sleepsOn := by
  cases hp with
  | aside ht hT =>
      intro u
      rw [hT, State.thread_congr ht, h u]
  | wake hth => exact waiting_put h fun u => Dictionary.find?_erase _ u _

theorem Change.waiting (hc : Change s s') (h : ∀ u, Dictionary.find? u s.store.table.waiting
      = (s.thread u).stage.sleepsOn) :
    ∀ u, Dictionary.find? u s'.store.table.waiting = (s'.thread u).stage.sleepsOn := by
  cases hc with
  | prelude hp => exact hp.waiting h
  | pass hth hp =>
      exact waiting_put_of_awake (S := s.store) h hth rfl (Stage.sleepsOn_of_isCalm hp.calm)
        (Stage.sleepsOn_of_isCalm hp.calm_next)
  | @arrive t stage hr hcalm =>
      exact waiting_put_of_awake (S := s.store) h rfl rfl
        (Stage.sleepsOn_of_isCalm (Stage.isCalm_of_isResting hr)) (Stage.sleepsOn_of_isCalm hcalm)
  | share hth => exact waiting_put_of_awake h hth rfl rfl rfl
  | sleep hth =>
      refine waiting_put h fun u => ?_
      exact Dictionary.find?_set _ u _ _
  | claim p hth =>
      refine waiting_put_of_awake h hth ?_ rfl rfl
      simp only [Store.claim, Store.takeSlot]
      split <;> rfl
  | publish hth => exact waiting_put_of_awake h hth rfl rfl rfl
  | fulfil hth => exact waiting_put_of_awake h hth rfl rfl rfl
  | rollBack hth => exact waiting_put_of_awake h hth rfl rfl rfl
  | @announce t frames c result hth =>
      intro u
      rw [State.store_announce, h u]
      by_cases htu : t = u
      · subst htu
        rw [State.thread_announce_self, hth]
        cases result <;> rfl
      · rw [State.thread_announce_of_ne htu, Thread.sleepsOn_notify]
  | clone => exact h
  | drop => exact h

/-- **The waiting records are those of the sleepers.** -/
theorem Legal.waiting_eq (h : Legal s) :
    ∀ u, Dictionary.find? u s.store.table.waiting = (s.thread u).stage.sleepsOn := by
  induction h with
  | initial => exact fun _ => rfl
  | change _ hc ih => exact hc.waiting ih

/-! ### No cycles -/

/-- A change of the entries that sets no key in progress removes edges at most. -/
theorem Table.Acyclic.of_entries {T T' : Table} (ha : T.Acyclic) (hw : T'.waiting = T.waiting)
    (he : ∀ k u q, Dictionary.find? k T'.entries = some (.pending u q) →
      Dictionary.find? k T.entries = some (.pending u q)) : T'.Acyclic := by
  refine ha.mono ?_
  rintro v u ⟨k, q, hk, hq⟩
  exact ⟨k, q, hw ▸ hk, he k u q hq⟩

theorem Prelude.acyclic (hp : Prelude s s') (ha : s.store.table.Acyclic) :
    s'.store.table.Acyclic := by
  cases hp with
  | aside _ hT => rwa [hT]
  | @wake t frames c hth =>
      refine ha.mono ?_
      rintro v u ⟨k, q, hk, hq⟩
      refine ⟨k, q, ?_, hq⟩
      simp only [State.store_put, State.store_withStore, Store.wake,
        Dictionary.find?_erase] at hk
      split at hk
      · simp at hk
      · exact hk

theorem Change.acyclic (hc : Change s s')
    (hw : ∀ u, Dictionary.find? u s.store.table.waiting = (s.thread u).stage.sleepsOn)
    (ha : s.store.table.Acyclic) : s'.store.table.Acyclic := by
  cases hc with
  | prelude hp => exact hp.acyclic ha
  | pass => exact ha
  | arrive => exact ha
  | share => exact ha
  | @sleep t u frames c w q hth he hcycle =>
      -- the call has made sure that no path leads from the owner back to its thread
      have hback : ¬ Relation.ReflTransGen s.store.table.WaitsFor u t := by
        intro hut
        rw [(Table.closesWaitCycle_iff u t).2 hut] at hcycle
        exact Bool.noConfusion hcycle
      refine ha.of_edge hback ?_
      rintro v x ⟨k, q', hk, hq⟩
      simp only [State.store_put, State.store_withStore, Store.sleep,
        Dictionary.find?_set] at hk hq
      split at hk
      · rename_i htv
        obtain rfl : c.key = k := by simpa using hk
        rw [he] at hq
        simp only [Option.some.injEq, Entry.pending.injEq] at hq
        exact Or.inl ⟨htv.symm, hq.1.symm⟩
      · exact Or.inr ⟨k, q', hk, hq⟩
  | @claim t frames c w p hth hnone =>
      -- stale records may wait for the new attempt, but its thread is awake
      have hwaiting : (s.store.claim t c.key).2.table.waiting = s.store.table.waiting := by
        simp only [Store.claim, Store.takeSlot]
        split <;> rfl
      refine ha.of_sink (v := t) ?_ ?_
      · rintro x ⟨k, q', hk, -⟩
        simp only [State.store_put, State.store_withStore, hwaiting] at hk
        rw [hw t, hth] at hk
        exact Option.some_ne_none k hk.symm
      · rintro v x ⟨k, q', hk, hq⟩
        simp only [State.store_put, State.store_withStore, hwaiting, Store.find?_claim] at hk hq
        split at hq
        · simp only [Option.some.injEq, Entry.pending.injEq] at hq
          exact Or.inl hq.1.symm
        · exact Or.inr ⟨k, q', hk, hq⟩
  | publish hth =>
      refine ha.of_entries rfl fun k u q hq => ?_
      simp only [State.store_put, State.store_withStore, Store.find?_publish] at hq
      split at hq
      · simp at hq
      · exact hq
  | fulfil => exact ha
  | rollBack hth =>
      refine ha.of_entries rfl fun k u q hq => ?_
      simp only [State.store_put, State.store_withStore, Store.find?_rollBack] at hq
      split at hq
      · simp at hq
      · exact hq
  | announce => exact ha
  | clone => exact ha
  | drop => exact ha

/-- **No thread waits for itself, be it through others.** -/
theorem Legal.acyclic (h : Legal s) : s.store.table.Acyclic := by
  induction h with
  | initial =>
      intro t ht
      obtain ⟨u, ⟨k, q, hk, -⟩, -⟩ := Relation.TransGen.head'_iff.1 ht
      simp [State.initial] at hk
  | change hs hc ih => exact hc.acyclic hs.waiting_eq ih

/-! ### No lost wake-up -/

/-- A sleeper that was not notified waits for a construction in progress, unless some thread is
about to notify all. -/
def Watched (s : State ι σ ε ν) : Prop :=
  ∀ (t : ThreadId) (k : Key), (s.thread t).stage.hopesFor = some k →
    (∃ u q, Dictionary.find? k s.store.table.entries = some (.pending u q)) ∨
      ∃ u, (s.thread u).stage.isSettling = true

/-- One thread goes on.  If it ends an entry, it is about to notify; and it does not leave that
duty. -/
theorem Watched.put (h : Watched s) {S : Store ι} {frames frames' : List (Frame ι σ ε ν)}
    {stage stage' : Stage ι σ ε ν} (hth : s.thread t = ⟨frames', stage'⟩)
    (hnew : ∀ k, stage.hopesFor = some k → ∃ u q,
      Dictionary.find? k S.table.entries = some (.pending u q))
    (hkeep : stage'.isSettling = true → stage.isSettling = true)
    (hentries : stage.isSettling = true ∨ ∀ k u q,
      Dictionary.find? k s.store.table.entries = some (.pending u q) →
        ∃ u q, Dictionary.find? k S.table.entries = some (.pending u q)) :
    Watched ((s.withStore S).put t frames stage) := by
  intro v k hv
  have hself : stage.isSettling = true →
      ∃ u, (((s.withStore S).put t frames stage).thread u).stage.isSettling = true := by
    intro hs
    exact ⟨t, by rw [State.thread_put_self]; exact hs⟩
  rw [State.thread_put] at hv
  split at hv
  · exact Or.inl (hnew k hv)
  · rcases hentries with hs | hentries
    · exact Or.inr (hself hs)
    · rcases h v k hv with ⟨u, q, hq⟩ | ⟨u, hu⟩
      · exact Or.inl (hentries k u q hq)
      · right
        by_cases htu : t = u
        · subst htu
          rw [hth] at hu
          exact hself (hkeep hu)
        · refine ⟨u, ?_⟩
          rw [State.thread_put_of_ne htu]
          exact hu

theorem Prelude.watched (hp : Prelude s s') (h : Watched s) : Watched s' := by
  cases hp with
  | aside ht hT =>
      intro v k hv
      simp only [State.thread_congr ht, hT] at hv ⊢
      exact h v k hv
  | wake hth =>
      refine h.put hth ?_ ?_ (Or.inr fun k u q hq => ⟨u, q, hq⟩)
      · simp [Stage.hopesFor]
      · simp [Stage.isSettling]

theorem Change.watched (hc : Change s s') (h : Watched s) : Watched s' := by
  have hsame : ∀ (k : Key) (u : ThreadId) (q : SlotId),
      Dictionary.find? k s.store.table.entries = some (.pending u q) →
        ∃ u q, Dictionary.find? k s.store.table.entries = some (.pending u q) :=
    fun k u q hq => ⟨u, q, hq⟩
  have hcalm : ∀ {stage : Stage ι σ ε ν}, stage.isCalm = true → ∀ k, stage.hopesFor ≠ some k := by
    intro stage hst k hk
    have := Stage.sleepsOn_of_hopesFor hk
    rw [Stage.sleepsOn_of_isCalm hst] at this
    exact Option.some_ne_none k this.symm
  cases hc with
  | prelude hp => exact hp.watched h
  | pass hth hp =>
      refine h.put (S := s.store) hth (fun k hk => absurd hk (hcalm hp.calm_next k)) ?_
        (Or.inr hsame)
      intro hs
      rw [Stage.isSettling_of_isCalm hp.calm] at hs
      exact Bool.noConfusion hs
  | @arrive t stage hr hst =>
      have hth : s.thread t = ⟨(s.thread t).frames, (s.thread t).stage⟩ := rfl
      refine h.put (S := s.store) hth (fun k hk => absurd hk (hcalm hst k)) ?_ (Or.inr hsame)
      intro hs
      rw [Stage.isSettling_of_isCalm (Stage.isCalm_of_isResting hr)] at hs
      exact Bool.noConfusion hs
  | share hth =>
      exact h.put hth (by simp [Stage.hopesFor]) (by simp [Stage.isSettling]) (Or.inr hsame)
  | @sleep t u frames c w q hth he =>
      refine h.put hth ?_ (by simp [Stage.isSettling]) (Or.inr hsame)
      intro k hk
      obtain rfl : c.key = k := by simpa [Stage.hopesFor] using hk
      exact ⟨u, q, he⟩
  | @claim t frames c w p hth hnone =>
      refine h.put hth (by simp [Stage.hopesFor]) (by simp [Stage.isSettling]) (Or.inr ?_)
      intro k u q hq
      rw [Store.find?_claim]
      split
      · exact ⟨_, _, rfl⟩
      · exact ⟨u, q, hq⟩
  | publish hth => exact h.put hth (by simp [Stage.hopesFor]) (fun _ => rfl) (Or.inl rfl)
  | fulfil hth => exact h.put hth (by simp [Stage.hopesFor]) (fun _ => rfl) (Or.inl rfl)
  | rollBack hth => exact h.put hth (by simp [Stage.hopesFor]) (fun _ => rfl) (Or.inl rfl)
  | @announce t frames c result hth =>
      -- now everybody was notified
      intro v k hv
      by_cases htv : t = v
      · subst htv
        rw [State.thread_announce_self] at hv
        cases result <;> simp [Stage.hopesFor] at hv
      · rw [State.thread_announce_of_ne htv, Thread.hopesFor_notify] at hv
        exact absurd hv.symm (Option.some_ne_none k)
  | clone => exact h
  | drop => exact h

/-- **No wake-up is lost.** -/
theorem Legal.watched (h : Legal s) : Watched s := by
  induction h with
  | initial => exact fun _ _ hv => by simp [State.initial, State.thread, Thread.atRest,
      Stage.hopesFor] at hv
  | change _ hc ih => exact hc.watched ih

end SchemaGraph.Registry
