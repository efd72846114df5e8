/-
**The life of a key.**

A key is absent, in progress or ready.  It becomes in progress when a call finds it absent, and with
that step a construction begins; it ceases to be so with the step that publishes the instance or
rolls the construction back, and with that step the construction ends.  A key that is ready stays
ready, so its factory does not run again; a key whose construction fails is absent again.

Main definitions:

* `Construction`, `State.constructions` — the constructions in progress, with the threads that run
  them;
* `Table.inProgress` — the entries in progress, with their owners;
* `Listed` — threads, entries and sleepers are listed once each;
* `Moves` — how constructions in progress change.

Main results:

* `Legal.perm_constructions`, `Legal.nodup_keys` — entries and constructions in progress correspond
  one to one, and no key is constructed twice at once;
* `Next.moves` — a construction begins on an absent key, and leaves it ready or absent;
* `single_construction` — **a key is constructed once at a time, never again once it is ready, and
  can be tried again after a failure**.
-/

import Mathlib.Data.List.Nodup
import SchemaGraph.Proofs.Registry.Slot
import SchemaGraph.Proofs.Registry.Sleep

set_option autoImplicit false

namespace SchemaGraph.Registry

open Relation (ReflGen ReflTransGen)

variable {ι σ ε ν : Type} {R : Setup ι σ ε ν} {s s' : State ι σ ε ν} {t : ThreadId} {k : Key}

/-! ### Listed once -/

/-- Threads, entries and sleepers are listed once each. -/
structure Listed (s : State ι σ ε ν) : Prop where
  threads : (Dictionary.names s.threads).Nodup
  entries : (Dictionary.names s.store.table.entries).Nodup
  waiting : (Dictionary.names s.store.table.waiting).Nodup

theorem State.names_notifyAll (s : State ι σ ε ν) :
    Dictionary.names s.notifyAll.threads = Dictionary.names s.threads := by
  simp [Dictionary.names, notifyAll]

theorem Listed.put (h : Listed s) {S : Store ι} {frames : List (Frame ι σ ε ν)}
    {stage : Stage ι σ ε ν} (he : (Dictionary.names S.table.entries).Nodup)
    (hw : (Dictionary.names S.table.waiting).Nodup) :
    Listed ((s.withStore S).put t frames stage) :=
  ⟨Dictionary.nodup_names_set h.threads _ _, he, hw⟩

theorem Prelude.listed (hp : Prelude s s') (h : Listed s) : Listed s' := by
  cases hp with
  | aside ht hT => exact ⟨ht ▸ h.threads, hT ▸ h.entries, hT ▸ h.waiting⟩
  | wake => exact h.put h.entries (Dictionary.nodup_names_erase h.waiting _)

theorem Change.listed (hc : Change s s') (h : Listed s) : Listed s' := by
  cases hc with
  | prelude hp => exact hp.listed h
  | pass => exact h.put (S := s.store) h.entries h.waiting
  | arrive => exact h.put (S := s.store) h.entries h.waiting
  | share => exact h.put h.entries h.waiting
  | sleep => exact h.put h.entries (Dictionary.nodup_names_set h.waiting _ _)
  | claim p hth hnone =>
      refine h.put ?_ ?_
      · simp only [Store.claim, Store.entries_takeSlot]
        exact Dictionary.nodup_names_set h.entries _ _
      · simp only [Store.claim, Store.takeSlot]
        split <;> exact h.waiting
  | publish => exact h.put (Dictionary.nodup_names_set h.entries _ _) h.waiting
  | fulfil => exact h.put h.entries h.waiting
  | rollBack => exact h.put (Dictionary.nodup_names_erase h.entries _) h.waiting
  | announce =>
      refine ⟨Dictionary.nodup_names_set ?_ _ _, h.entries, h.waiting⟩
      rw [State.names_notifyAll]
      exact h.threads
  | clone => exact ⟨h.threads, h.entries, h.waiting⟩
  | drop => exact ⟨h.threads, h.entries, h.waiting⟩

theorem Legal.listed (h : Legal s) : Listed s := by
  induction h with
  | initial => exact ⟨List.nodup_nil, List.nodup_nil, List.nodup_nil⟩
  | change _ hc ih => exact hc.listed ih

/-- A thread that is listed stays so. -/
theorem Change.names_subset (hc : Change s s') :
    Dictionary.names s.threads ⊆ Dictionary.names s'.threads := by
  cases hc with
  | prelude hp =>
      cases hp with
      | aside ht => rw [ht]; exact List.Subset.refl _
      | wake => exact Dictionary.names_subset_set ..
  | announce =>
      rw [← State.names_notifyAll]
      exact Dictionary.names_subset_set ..
  | clone | drop => exact List.Subset.refl _
  | _ => exact Dictionary.names_subset_set ..

theorem names_subset_of_changes (hc : ReflTransGen Change s s') :
    Dictionary.names s.threads ⊆ Dictionary.names s'.threads := by
  induction hc with
  | refl => exact List.Subset.refl _
  | tail _ hc ih => exact List.Subset.trans ih hc.names_subset

/-! ### Constructions in progress -/

/-- A construction in progress. -/
structure Construction where
  key : Key
  thread : ThreadId
  slot : SlotId
deriving DecidableEq, Repr

/-- The constructions in progress, from the claim of a key to the publication of its instance or the
roll-back. -/
def State.constructions (s : State ι σ ε ν) : List Construction :=
  s.threads.flatMap fun p => p.2.frames.map fun f => ⟨f.call.key, p.1, f.slot⟩

/-- The entries in progress. -/
def Table.inProgress (T : Table) : List Construction :=
  T.entries.filterMap fun p =>
    match p.2 with
    | .pending t q => some ⟨p.1, t, q⟩
    | .ready _ => none

theorem mem_constructions (h : Listed s) (c : Construction) :
    c ∈ s.constructions
      ↔ ∃ f ∈ (s.thread c.thread).frames, f.call.key = c.key ∧ f.slot = c.slot := by
  obtain ⟨k, t, q⟩ := c
  simp only [State.constructions, List.mem_flatMap, List.mem_map, Construction.mk.injEq]
  constructor
  · rintro ⟨⟨t', th⟩, hth, f, hf, hk, rfl, hq⟩
    rw [Dictionary.mem_iff_find? h.threads] at hth
    exact ⟨f, by rwa [State.thread_of_find? hth], hk, hq⟩
  · rintro ⟨f, hf, hk, hq⟩
    have hfind := State.find?_of_thread rfl fun h => List.not_mem_nil (h ▸ hf)
    exact ⟨(t, s.thread t), Dictionary.mem_of_find? hfind, f, hf, hk, rfl, hq⟩

theorem Table.mem_inProgress {T : Table} (h : (Dictionary.names T.entries).Nodup)
    (c : Construction) :
    c ∈ T.inProgress ↔ Dictionary.find? c.key T.entries = some (.pending c.thread c.slot) := by
  obtain ⟨k, t, q⟩ := c
  simp only [inProgress, List.mem_filterMap]
  rw [← Dictionary.mem_iff_find? h]
  constructor
  · rintro ⟨⟨j, e⟩, hj, he⟩
    cases e with
    | pending u p =>
        simp only [Option.some.injEq, Construction.mk.injEq] at he
        obtain ⟨rfl, rfl, rfl⟩ := he
        exact hj
    | ready i => simp at he
  · intro hk
    exact ⟨_, hk, rfl⟩

theorem Table.nodup_keys_inProgress {T : Table} (h : (Dictionary.names T.entries).Nodup) :
    (T.inProgress.map Construction.key).Nodup := by
  refine List.Nodup.sublist ?_ h
  simp only [inProgress, List.map_filterMap, Dictionary.names, ← List.filterMap_eq_map]
  induction T.entries with
  | nil => exact List.Sublist.refl _
  | cons p d ih =>
      obtain ⟨j, e⟩ := p
      cases e with
      | pending u q => simpa using ih
      | ready i => exact List.Sublist.cons _ (by simpa using ih)

/-- A construction is in progress exactly when its entry is. -/
theorem Legal.mem_constructions_iff (h : Legal s) (c : Construction) :
    c ∈ s.constructions ↔
      Dictionary.find? c.key s.store.table.entries = some (.pending c.thread c.slot) := by
  rw [mem_constructions h.listed, h.owned.pending_iff]

theorem Legal.nodup_keys (h : Legal s) : (s.constructions.map Construction.key).Nodup := by
  simp only [State.constructions, List.map_flatMap, List.map_map]
  rw [List.nodup_flatMap]
  constructor
  · rintro ⟨t, th⟩ hth
    rw [Dictionary.mem_iff_find? h.listed.threads] at hth
    have hd := h.owned.distinct t
    rw [State.thread_of_find? hth] at hd
    exact hd
  · have hn := h.listed.threads
    rw [Dictionary.names, List.Nodup, List.pairwise_map] at hn
    refine hn.imp_of_mem ?_
    rintro ⟨t, th⟩ ⟨u, uh⟩ ht hu htu k hk hk'
    rw [Dictionary.mem_iff_find? h.listed.threads] at ht hu
    obtain ⟨f, hf, rfl⟩ := List.mem_map.1 hk
    obtain ⟨g, hg, hgk⟩ := List.mem_map.1 hk'
    -- both threads would own the entry
    have hft := h.owned.pending (t := t) (f := f) (by rwa [State.thread_of_find? ht])
    have hgu := h.owned.pending (t := u) (f := g) (by rwa [State.thread_of_find? hu])
    simp only [Function.comp_apply] at hgk
    rw [hgk, hft] at hgu
    simp only [Option.some.injEq, Entry.pending.injEq] at hgu
    exact htu hgu.1

/-- **Entries in progress and constructions in progress correspond one to one.** -/
theorem Legal.perm_constructions (h : Legal s) :
    s.store.table.inProgress.Perm s.constructions := by
  have hp := (Table.nodup_keys_inProgress h.listed.entries).of_map
  rw [List.perm_ext_iff_of_nodup hp h.nodup_keys.of_map]
  intro c
  rw [Table.mem_inProgress h.listed.entries, h.mem_constructions_iff]

/-! ### How a construction begins and ends -/

/-- How constructions in progress change. -/
inductive Moves (s s' : State ι σ ε ν) : Prop where
  | stays : s'.constructions.Perm s.constructions → Moves s s'
  /-- a construction begins, and its key was absent -/
  | begins (c : Construction) : Dictionary.find? c.key s.store.table.entries = none →
      s'.constructions.Perm (c :: s.constructions) → Moves s s'
  /-- a construction ends, and its key is ready or absent -/
  | ends (c : Construction) : s.constructions.Perm (c :: s'.constructions) →
      ((∃ i, Dictionary.find? c.key s'.store.table.entries = some (.ready i)) ∨
        Dictionary.find? c.key s'.store.table.entries = none) → Moves s s'

/-- Constructions in progress are known by their entries. -/
theorem Legal.perm_of_mem (h : Legal s) {l : List Construction} (hl : l.Nodup)
    (hm : ∀ c, c ∈ l ↔
      Dictionary.find? c.key s.store.table.entries = some (.pending c.thread c.slot)) :
    s.constructions.Perm l := by
  rw [List.perm_ext_iff_of_nodup h.nodup_keys.of_map hl]
  intro c
  rw [h.mem_constructions_iff, hm]

theorem Legal.perm_of_entries (h : Legal s) (h' : Legal s')
    (he : s'.store.table.entries = s.store.table.entries) :
    s'.constructions.Perm s.constructions := by
  refine h'.perm_of_mem h.nodup_keys.of_map fun c => ?_
  rw [h.mem_constructions_iff, he]

/-- An entry in progress is that of one construction, and all others go on. -/
theorem Legal.perm_cons (h : Legal s) (h' : Legal s') {c : Construction}
    (hc : Dictionary.find? c.key s.store.table.entries = some (.pending c.thread c.slot))
    (hc' : ∀ u q, Dictionary.find? c.key s'.store.table.entries ≠ some (.pending u q))
    (he : ∀ k, c.key ≠ k → Dictionary.find? k s'.store.table.entries
      = Dictionary.find? k s.store.table.entries) :
    s.constructions.Perm (c :: s'.constructions) := by
  have hnew : c ∉ s'.constructions := by
    rw [h'.mem_constructions_iff]
    exact hc' _ _
  refine h.perm_of_mem (List.nodup_cons.2 ⟨hnew, h'.nodup_keys.of_map⟩) fun d => ?_
  rw [List.mem_cons, h'.mem_constructions_iff]
  by_cases hk : c.key = d.key
  · constructor
    · rintro (rfl | hd)
      · exact hc
      · rw [← hk] at hd
        exact absurd hd (hc' _ _)
    · intro hd
      rw [← hk, hc] at hd
      simp only [Option.some.injEq, Entry.pending.injEq] at hd
      obtain ⟨k, t, q⟩ := c
      obtain ⟨k', t', q'⟩ := d
      exact Or.inl (by simp_all)
  · rw [he _ hk]
    constructor
    · rintro (rfl | hd)
      · exact absurd rfl hk
      · exact hd
    · exact Or.inr

theorem Change.moves (hs : Legal s) (hc : Change s s') : Moves s s' := by
  have hs' := hs.change hc
  rcases hc.quiet_or_turn hs.owned with hc | hc
  · exact .stays (hs.perm_of_entries hs' hc.entries)
  · cases hc with
    | claim t k hnone hS =>
        refine .begins ⟨k, t, (s.store.claim t k).1⟩ hnone (hs'.perm_cons hs ?_ ?_ ?_)
        · rw [hS, Store.find?_claim, if_pos rfl]
        · simp [hnone]
        · intro j hj
          rw [hS, Store.find?_claim, if_neg hj]
    | publish t k q y hpend hS =>
        have hi : Dictionary.find? k s'.store.table.entries
            = some (.ready (s.store.place y)) := by
          rw [hS, Store.find?_publish, if_pos rfl]
        refine .ends ⟨k, t, q⟩ (hs.perm_cons hs' hpend ?_ ?_) (Or.inl ⟨_, hi⟩)
        · simp [hi]
        · intro j hj
          rw [hS, Store.find?_publish, if_neg hj]
    | fulfil t k q i _ _ hS =>
        exact .stays (hs.perm_of_entries hs' (by rw [hS]; rfl))
    | rollBack t k q hpend hS =>
        have hi : Dictionary.find? k s'.store.table.entries = none := by
          rw [hS, Store.find?_rollBack, if_pos rfl]
        refine .ends ⟨k, t, q⟩ (hs.perm_cons hs' hpend ?_ ?_) (Or.inr hi)
        · simp [hi]
        · intro j hj
          rw [hS, Store.find?_rollBack, if_neg hj]

/-- **Whatever happens, one construction at most begins or ends.** -/
theorem Next.moves (hs : Legal s) (hn : Next R s s') : Moves s s' := by
  obtain ⟨s₁, hp, hc⟩ := hn.takes
  have hs₁ : Legal s₁ :=
    hs.changes (Relation.ReflTransGen.mono (fun _ _ h => Change.prelude h) _ _ hp)
  -- the preludes leave the entries alone
  have he : s₁.store.table.entries = s.store.table.entries := by
    clear hc hs₁
    induction hp with
    | refl => rfl
    | tail _ hlast ih => rw [hlast.entries_eq, ih]
  have hperm := hs.perm_of_entries hs₁ he
  cases hc with
  | refl => exact .stays hperm
  | single hc =>
      cases hc.moves hs₁ with
      | stays hs => exact .stays (hs.trans hperm)
      | begins c hnone hs => exact .begins c (he ▸ hnone) (hs.trans (hperm.cons c))
      | ends c hs hend => exact .ends c (hperm.symm.trans hs) hend

/-! ### What was constructed -/

/-- An instance stays under its number. -/
theorem Change.instances (hc : Change s s') {i : InstanceId} {x : ι}
    (hx : s.store.instances[i]? = some x) : s'.store.instances[i]? = some x := by
  cases hc with
  | prelude hp =>
      cases hp with
      | aside _ _ _ hi => rw [hi, hx]
      | wake => exact hx
  | claim p hth hnone =>
      simp only [State.store_put, State.store_withStore, Store.claim, Store.takeSlot]
      split <;> exact hx
  | publish => exact Store.getElem?_publish_of_some hx _ _
  | _ => exact hx

theorem instances_of_changes (hc : ReflTransGen Change s s') {i : InstanceId} {x : ι}
    (hx : s.store.instances[i]? = some x) : s'.store.instances[i]? = some x := by
  induction hc with
  | refl => exact hx
  | tail _ hlast ih => exact hlast.instances ih

/-- A construction in progress has an entry in progress. -/
theorem Legal.not_mem_keys (hs : Legal s)
    (hk : ∀ t q, Dictionary.find? k s.store.table.entries ≠ some (.pending t q)) :
    k ∉ s.constructions.map Construction.key := by
  intro hmem
  obtain ⟨c, hc, rfl⟩ := List.mem_map.1 hmem
  rw [hs.mem_constructions_iff] at hc
  exact hk _ _ hc

/-- The step of a factory that is done publishes the instance for good. -/
theorem step_done (hs : Legal s) {f : Frame ι σ ε ν} {frames : List (Frame ι σ ε ν)} {y : Yield ι}
    (hth : s.thread t = ⟨f :: frames, .running (.done y)⟩) :
    ∃ s', step R t s = some s' ∧ ∀ s'', Run R s' s'' →
      s''.store.table.ready? f.call.key = some (s.store.place y) ∧
      s''.store.instances[s.store.place y]? = some (s.store.yielded y) ∧
      f.call.key ∉ s''.constructions.map Construction.key := by
  have hfind := State.find?_of_thread hth (by simp [Thread.atRest])
  have hstep : step R t s = some ((s.withStore (s.store.publish f.call.key y)).put t frames
      (.fulfilling f (s.store.place y))) := by
    simp only [step, hfind, Option.bind_some, stepThread, runProgram]
  refine ⟨_, hstep, fun s'' hrun => ?_⟩
  have hs' := hs.change (.publish hth)
  have hready := hs'.ready_of_changes hrun.changes
    ((Store.find?_publish s.store _ _ y).trans (if_pos rfl))
  refine ⟨Table.ready?_eq_some_iff.2 hready, ?_, ?_⟩
  · exact instances_of_changes hrun.changes (Store.getElem?_publish_place s.store f.call.key y)
  · exact (hs'.changes hrun.changes).not_mem_keys (by simp [hready])

/-- The step of a factory that fails or breaks off forgets the key. -/
theorem step_failed (hs : Legal s) {f : Frame ι σ ε ν} {frames : List (Frame ι σ ε ν)}
    {p : Program ι σ ε ν} (hth : s.thread t = ⟨f :: frames, .running p⟩)
    (hp : (∃ e, p = .fail e) ∨ ∃ message, p = .panic message) :
    ∃ s', step R t s = some s' ∧ Dictionary.find? f.call.key s'.store.table.entries = none ∧
      f.call.key ∉ s'.constructions.map Construction.key := by
  have hfind := State.find?_of_thread hth (by simp [Thread.atRest])
  have hundo : ∃ s₁ failure, step R t s = some (undo t f frames failure s₁) := by
    rcases hp with ⟨e, rfl⟩ | ⟨message, rfl⟩
    · exact ⟨s, .error e, by simp only [step, hfind, Option.bind_some, stepThread, runProgram]⟩
    · exact ⟨s.tell t (.constructionPanicked f.call.key), .panic message, by
        simp only [step, hfind, Option.bind_some, stepThread, runProgram]⟩
  obtain ⟨s₁, failure, hstep⟩ := hundo
  have hnone : Dictionary.find? f.call.key (undo t f frames failure s₁).store.table.entries
      = none :=
    (Store.find?_rollBack _ _ _ _).trans (if_pos rfl)
  exact ⟨_, hstep, hnone, (hs.changes (takes_step hstep).changes).not_mem_keys (by simp [hnone])⟩

/-! ### Outside all calls -/

/-- The thread is not in a call: it rests, or waits for the construction behind a handle. -/
def Stage.isOutside : Stage ι σ ε ν → Bool
  | .awaiting _ | .returned _ | .panicked _ | .awaited _ => true
  | _ => false

theorem Stage.isOutside_of_resting {stage : Stage ι σ ε ν} (h : stage.isResting = true) :
    stage.isOutside = true := by
  cases stage with
  | returned | panicked | awaited => rfl
  | _ => cases h

theorem Thread.Linked.frames_of_outside {th : Thread ι σ ε ν} (hl : th.Linked)
    (h : th.stage.isOutside = true) : th.frames = [] := by
  obtain ⟨frames, stage⟩ := th
  cases stage <;> first | exact hl.fits | simp [Stage.isOutside] at h

theorem Legal.quiescent (hs : Legal s) (hout : ∀ t, (s.thread t).stage.isOutside = true) :
    s.store.table.inProgress = [] ∧ s.store.table.waiting = [] := by
  have hframes : ∀ t, (s.thread t).frames = [] := by
    intro t
    have hfits := (hs.linked t).fits
    have ht := hout t
    cases hst : (s.thread t).stage <;> simp_all [Stage.isOutside, Stage.Fits]
  constructor
  · refine List.eq_nil_iff_forall_not_mem.2 fun c hc => ?_
    rw [Table.mem_inProgress hs.listed.entries, hs.owned.pending_iff, hframes] at hc
    simp at hc
  · refine List.eq_nil_iff_forall_not_mem.2 ?_
    rintro ⟨t, k⟩ hk
    rw [Dictionary.mem_iff_find? hs.listed.waiting, hs.waiting_eq] at hk
    have ht := hout t
    cases hst : (s.thread t).stage <;> simp_all [Stage.isOutside, Stage.sleepsOn]

/-! ### The life of a key -/

/-- **A key is constructed once at a time, never again once it is ready, and can be tried again
after a failure.**  The entries in progress are the constructions in progress, each owned by the
thread that runs it.  A construction begins with a step that finds its key absent, and ends with a
step that leaves it ready or absent: ready for good, with the instance that the factory hands over,
and absent when the factory failed or broke off.  Outside all calls nothing is in progress and
nobody waits. -/
theorem single_construction (h : Reachable R s) :
    (s.store.table.inProgress.Perm s.constructions ∧
      (s.constructions.map Construction.key).Nodup) ∧
    (∀ s', Next R s s' → Moves s s') ∧
    (∀ t f frames y, s.thread t = ⟨f :: frames, .running (.done y)⟩ →
      ∃ s', step R t s = some s' ∧ ∀ s'', Run R s' s'' →
        s''.store.table.ready? f.call.key = some (s.store.place y) ∧
        s''.store.instances[s.store.place y]? = some (s.store.yielded y) ∧
        f.call.key ∉ s''.constructions.map Construction.key) ∧
    (∀ t f frames p, s.thread t = ⟨f :: frames, .running p⟩ →
      ((∃ e, p = .fail e) ∨ ∃ message, p = .panic message) →
      ∃ s', step R t s = some s' ∧ Dictionary.find? f.call.key s'.store.table.entries = none ∧
        f.call.key ∉ s'.constructions.map Construction.key) ∧
    ((∀ t, (s.thread t).stage.isOutside = true) →
      s.store.table.inProgress = [] ∧ s.store.table.waiting = []) := by
  have hs := h.legal
  refine ⟨⟨hs.perm_constructions, hs.nodup_keys⟩, ?_, ?_, ?_, hs.quiescent⟩
  · intro s' hn
    exact hn.moves hs
  · intro t f frames y hth
    exact step_done hs hth
  · intro t f frames p hth hp
    exact step_failed hs hth hp

/-- A factory that refers to its own type and breaks off, and succeeds when it is asked again. -/
def flaky : Setup Nat Nat String Unit where
  factories := [("Node", ⟨⟨"object"⟩, fun site =>
    .note (· + 1) fun attempts =>
      if attempts = 0 then .request ⟨site.identifier, site.context⟩ fun _ => .panic "first attempt"
      else .done (.new attempts)⟩)]
  admits := fun _ _ _ => true

/-- The first attempt, when it is given the forward reference. -/
def firstAttempt : State Nat Nat String Unit :=
  runThread flaky 0 4 ((State.initial 0 0).call flaky 0 ⟨.bare "Node", none⟩)

theorem reachable_firstAttempt : Reachable flaky firstAttempt :=
  ((Reachable.initial 0 0).next (.call 0 _ rfl)).run (run_runThread _ _ _ _)

theorem firstAttempt_single : Reachable flaky firstAttempt ∧
    firstAttempt.store.table.inProgress.Perm firstAttempt.constructions ∧
    firstAttempt.constructions.map Construction.thread = [0] :=
  ⟨reachable_firstAttempt, (single_construction reachable_firstAttempt).1.1, by decide +kernel⟩

end SchemaGraph.Registry
