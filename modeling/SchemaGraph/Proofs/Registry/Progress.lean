/-
**Nobody waits in vain.**

When no thread has a step, each is at rest, stands at a closed gate, or is blocked: asleep in a
call, or waiting for the construction behind a handle.  A blocked thread waits for a construction
that another thread runs, and that thread is blocked in turn or stands at a gate.  The waiting
threads form no cycle, so following the owners leads to a gate.

Main definitions:

* `Stable` — no thread has a step;
* `Stage.awaits` — what a blocked thread waits for;
* `State.sleepers` — the threads that sleep in a call.

Main results:

* `Legal.cases_of_no_step` — what a thread does when it has no step;
* `Legal.exists_gate` — following the owners leads to a gate;
* `deadlock_free` — **waiting threads form no cycle, no wake-up is lost, and only a closed gate
  keeps a thread blocked**.
-/

import SchemaGraph.Proofs.Registry.Lifecycle

set_option autoImplicit false

namespace SchemaGraph.Registry

variable {ι σ ε ν : Type} {R : Setup ι σ ε ν} {s : State ι σ ε ν} {t u : ThreadId} {k : Key}

/-! ### Stable states -/

/-- No thread has a step. -/
def Stable (R : Setup ι σ ε ν) (s : State ι σ ε ν) : Prop := ∀ t, step R t s = none

/-- The threads that sleep in a call. -/
def State.sleepers (s : State ι σ ε ν) : List ThreadId :=
  (s.threads.filter fun p => p.2.stage.sleepsOn.isSome).map Prod.fst

/-- The slot behind the handle that a thread waits for. -/
def Stage.awaits : Stage ι σ ε ν → Option SlotId
  | .awaiting ⟨_, _, .slot q⟩ => some q
  | _ => none

/-- What a thread does in a state in which it has no step. -/
theorem Legal.cases_of_no_step (hs : Legal s) (hnone : step R t s = none) :
    (s.thread t).stage.isResting = true ∨
    (∃ g, s.closedGate? t = some g) ∨
    (∃ k, (s.thread t).stage.hopesFor = some k) ∨
    ∃ q, (s.thread t).stage.awaits = some q ∧ s.store.slotState? q = some .waiting := by
  cases hfind : Dictionary.find? t s.threads with
  | none =>
      left
      simp only [State.thread, hfind]
      rfl
  | some th =>
      obtain ⟨frames, stage⟩ := th
      have hfits := (hs.linked t).fits
      rw [State.thread_of_find? hfind] at hfits ⊢
      simp only [step, hfind, Option.bind_some] at hnone
      cases stage with
      | running p =>
          cases frames with
          | nil => exact absurd rfl hfits
          | cons f frames =>
              cases p with
              | gate name next =>
                  simp only [stepThread, runProgram, ite_eq_right_iff, reduceCtorEq,
                    imp_false] at hnone
                  refine Or.inr (Or.inl ⟨name, ?_⟩)
                  simp [State.closedGate?, State.stage?, hfind, hnone]
              | _ => simp [stepThread, runProgram] at hnone
      | asleep c notified =>
          cases notified with
          | false => exact Or.inr (Or.inr (Or.inl ⟨c.key, rfl⟩))
          | true => simp [stepThread] at hnone
      | awaiting h =>
          simp only [stepThread, ite_eq_left_iff, reduceCtorEq, imp_false,
            Bool.not_eq_true, Bool.not_eq_false] at hnone
          obtain ⟨key, reference, target⟩ := h
          cases target with
          | ready i => simp [Handle.isWaiting] at hnone
          | slot q =>
              refine Or.inr (Or.inr (Or.inr ⟨q, rfl, ?_⟩))
              simpa [Handle.isWaiting, Store.slotState?] using hnone
      | returned a => exact Or.inl rfl
      | panicked message => exact Or.inl rfl
      | awaited a => exact Or.inl rfl
      | _ => simp [stepThread] at hnone

theorem State.stage_of_closedGate? {g : String} (h : s.closedGate? t = some g) :
    ∃ name next, (s.thread t).stage = .running (.gate name next) := by
  simp only [closedGate?] at h
  split at h
  · rename_i name next hstage
    exact ⟨name, next, thread_of_stage? hstage⟩
  · simp at h

/-- In a stable state no construction is about to settle. -/
theorem Legal.not_settling (hs : Legal s) (hst : Stable R s) (t : ThreadId) :
    (s.thread t).stage.isSettling = false := by
  rcases hs.cases_of_no_step (hst t) with h | ⟨g, h⟩ | ⟨k, h⟩ | ⟨q, h, -⟩
  · cases hstage : (s.thread t).stage <;> simp_all [Stage.isResting, Stage.isSettling]
  · obtain ⟨name, next, hstage⟩ := State.stage_of_closedGate? h
    rw [hstage]
    rfl
  · cases hstage : (s.thread t).stage <;> simp_all [Stage.hopesFor, Stage.isSettling]
  · cases hstage : (s.thread t).stage <;> simp_all [Stage.awaits, Stage.isSettling]

/-- In a stable state every sleeper still waits to be notified. -/
theorem Legal.hopesFor_of_sleepsOn (hs : Legal s) (hst : Stable R s)
    (hk : (s.thread t).stage.sleepsOn = some k) : (s.thread t).stage.hopesFor = some k := by
  rcases hs.cases_of_no_step (hst t) with h | ⟨g, h⟩ | ⟨k', h⟩ | ⟨q, h, -⟩
  · rw [Stage.sleepsOn_of_isCalm (Stage.isCalm_of_isResting h)] at hk
    exact absurd hk.symm (Option.some_ne_none k)
  · obtain ⟨name, next, hstage⟩ := State.stage_of_closedGate? h
    simp [hstage, Stage.sleepsOn] at hk
  · rw [h, ← hk, Stage.sleepsOn_of_hopesFor h]
  · cases hstage : (s.thread t).stage <;> simp_all [Stage.awaits, Stage.sleepsOn]

/-! ### Following the owners -/

/-- In a stable state a sleeper waits for a construction that another thread runs. -/
theorem Legal.exists_owner (hs : Legal s) (hst : Stable R s)
    (hk : (s.thread t).stage.sleepsOn = some k) :
    ∃ u q, u ≠ t ∧ Dictionary.find? k s.store.table.entries = some (.pending u q) ∧
      s.store.table.WaitsFor t u := by
  have hrecord : Dictionary.find? t s.store.table.waiting = some k := by rw [hs.waiting_eq, hk]
  rcases hs.watched t k (hs.hopesFor_of_sleepsOn hst hk) with ⟨u, q, hp⟩ | ⟨u, hu⟩
  · have hw : s.store.table.WaitsFor t u := ⟨k, q, hrecord, hp⟩
    exact ⟨u, q, hs.acyclic.ne hw, hp, hw⟩
  · rw [hs.not_settling hst] at hu
    exact Bool.noConfusion hu

/-- In a stable state a thread that runs a construction stands at a gate or sleeps. -/
theorem Legal.gate_or_sleeper (hs : Legal s) (hst : Stable R s) {q : SlotId}
    (hp : Dictionary.find? k s.store.table.entries = some (.pending u q)) :
    (∃ g, s.closedGate? u = some g) ∨ ∃ j, (s.thread u).stage.sleepsOn = some j := by
  have hframes : (s.thread u).frames ≠ [] := by
    obtain ⟨f, hf, -⟩ := (hs.owned.pending_iff k u q).1 hp
    exact List.ne_nil_of_mem hf
  have hfits := (hs.linked u).fits
  rcases hs.cases_of_no_step (hst u) with h | h | ⟨j, h⟩ | ⟨q', h, -⟩
  · exact absurd ((hs.linked u).frames_eq_nil h) hframes
  · exact Or.inl h
  · exact Or.inr ⟨j, Stage.sleepsOn_of_hopesFor h⟩
  · cases hstage : (s.thread u).stage <;> simp_all [Stage.awaits, Stage.Fits]

/-- A record belongs to a sleeper. -/
theorem Legal.length_waiting_le (hs : Legal s) :
    s.store.table.waiting.length ≤ s.sleepers.length := by
  have hsub : Dictionary.names s.store.table.waiting ⊆ s.sleepers := by
    intro t ht
    rw [← Dictionary.find?_isSome_iff, hs.waiting_eq] at ht
    have hne : s.thread t ≠ .atRest := by
      intro h
      rw [h] at ht
      cases ht
    have hmem : (t, s.thread t) ∈ s.threads.filter fun p => p.2.stage.sleepsOn.isSome :=
      List.mem_filter.2 ⟨Dictionary.mem_of_find? (State.find?_of_thread rfl hne), ht⟩
    exact List.mem_map_of_mem hmem
  have hle := (List.subperm_of_subset hs.listed.waiting hsub).length_le
  rwa [Dictionary.names, List.length_map] at hle

/-- **Following the owners leads to a gate**, from a sleeper or from a thread that runs a
construction. -/
theorem Legal.exists_gate (hs : Legal s) (hst : Stable R s)
    (ht : (∃ k, (s.thread t).stage.sleepsOn = some k) ∨
      ∃ k q, Dictionary.find? k s.store.table.entries = some (.pending t q)) :
    ∃ n ≤ s.sleepers.length, ∃ u g,
      s.store.table.waitsAfter n t = some u ∧ s.closedGate? u = some g := by
  obtain ⟨n, hn, u, hu, hend⟩ := hs.acyclic.exists_end t
  -- the walk does not end at a sleeper
  have hawake : ∀ j, (s.thread u).stage.sleepsOn ≠ some j := by
    intro j hj
    obtain ⟨v, q, -, -, hw⟩ := hs.exists_owner hst hj
    rw [Table.waitsFor_eq_some_iff.2 hw] at hend
    exact Option.some_ne_none v hend
  have howner : ∃ k q, Dictionary.find? k s.store.table.entries = some (.pending u q) := by
    cases n with
    | zero =>
        obtain rfl : t = u := by simpa using hu
        rcases ht with ⟨k, hk⟩ | h
        · exact absurd hk (hawake k)
        · exact h
    | succ n =>
        rw [Table.waitsAfter_succ, Option.bind_eq_some_iff] at hu
        obtain ⟨v, -, hv⟩ := hu
        obtain ⟨k, q, -, hp⟩ := Table.waitsFor_eq_some_iff.1 hv
        exact ⟨k, q, hp⟩
  obtain ⟨k, q, hp⟩ := howner
  rcases hs.gate_or_sleeper hst hp with ⟨g, hg⟩ | ⟨j, hj⟩
  · exact ⟨n, hn.trans hs.length_waiting_le, u, g, hu, hg⟩
  · exact absurd hj (hawake j)

/-- In a stable state without anybody at a gate all threads are at rest. -/
theorem Legal.isResting_of_no_gate (hs : Legal s) (hst : Stable R s)
    (hgate : ∀ t, s.closedGate? t = none) (t : ThreadId) :
    (s.thread t).stage.isResting = true := by
  have hno : ∀ u, ¬ ∃ g, s.closedGate? u = some g := by
    rintro u ⟨g, hg⟩
    rw [hgate] at hg
    exact Option.some_ne_none g hg.symm
  rcases hs.cases_of_no_step (hst t) with h | h | ⟨k, h⟩ | ⟨q, -, hq⟩
  · exact h
  · exact absurd h (hno t)
  · obtain ⟨n, -, u, g, -, hg⟩ := hs.exists_gate hst (Or.inl ⟨k, Stage.sleepsOn_of_hopesFor h⟩)
    exact absurd ⟨g, hg⟩ (hno u)
  · -- the slot that the thread waits for is that of a construction in progress
    obtain ⟨k, hu⟩ := hs.slotted.waiting hq
    cases hu with
    | @pending u _ hp =>
        obtain ⟨n, -, v, g, -, hg⟩ := hs.exists_gate hst (Or.inr ⟨k, q, hp⟩)
        exact absurd ⟨g, hg⟩ (hno v)
    | @fulfilling u _ hf =>
        have hset := hs.not_settling hst u
        cases hstage : (s.thread u).stage <;> simp_all [Stage.fulfils, Stage.isSettling]

/-! ### No deadlock -/

/-- **Waiting threads form no cycle, no wake-up is lost, and only a closed gate keeps a thread
blocked.**  A sleeper that was not notified waits for a construction in progress, unless a thread is
about to notify all.  When no thread has a step, each is at rest, at a closed gate, asleep, or waits
for a slot; each sleeper waits for a construction of another thread; and following the owners leads,
within as many hops as there are sleepers, to a thread at a closed gate. -/
theorem deadlock_free (h : Reachable R s) :
    s.store.table.Acyclic ∧
    (∀ t k, (s.thread t).stage.hopesFor = some k →
      (∃ u q, Dictionary.find? k s.store.table.entries = some (.pending u q)) ∨
        ∃ u, (s.thread u).stage.isSettling = true) ∧
    (Stable R s →
      (∀ t, (s.thread t).stage.isResting = true ∨ (∃ g, s.closedGate? t = some g) ∨
        (∃ k, (s.thread t).stage.hopesFor = some k) ∨
        ∃ q, (s.thread t).stage.awaits = some q ∧ s.store.slotState? q = some .waiting) ∧
      (∀ t k, (s.thread t).stage.sleepsOn = some k →
        (∃ u q, u ≠ t ∧ Dictionary.find? k s.store.table.entries = some (.pending u q)) ∧
        ∃ n ≤ s.sleepers.length, ∃ u g,
          s.store.table.waitsAfter n t = some u ∧ s.closedGate? u = some g) ∧
      ((∀ t, s.closedGate? t = none) → ∀ t, (s.thread t).stage.isResting = true)) := by
  have hs := h.legal
  refine ⟨hs.acyclic, hs.watched, fun hst => ⟨fun t => hs.cases_of_no_step (hst t),
    fun t k hk => ?_, hs.isResting_of_no_gate hst⟩⟩
  obtain ⟨u, q, hne, hp, -⟩ := hs.exists_owner hst hk
  exact ⟨⟨u, q, hne, hp⟩, hs.exists_gate hst (Or.inl ⟨k, hk⟩)⟩

/-- A factory that stands at a gate before it succeeds. -/
def gated : Setup Nat Nat String Unit where
  factories := [("Node", ⟨⟨"object"⟩, fun _ => .gate "open" (.done (.new 0))⟩)]
  admits := fun _ _ _ => true

/-- One thread stands at the gate, and another sleeps until the construction ends. -/
def asleepBehindGate : State Nat Nat String Unit :=
  runThread gated 1 5 ((runThread gated 0 5 ((State.initial 0 0).call gated 0
    ⟨.bare "Node", none⟩)).call gated 1 ⟨.bare "Node", none⟩)

theorem sleeper_leads_to_gate : Reachable gated asleepBehindGate ∧ Stable gated asleepBehindGate ∧
    ∃ n ≤ asleepBehindGate.sleepers.length, ∃ u g,
      asleepBehindGate.store.table.waitsAfter n 1 = some u ∧
        asleepBehindGate.closedGate? u = some g := by
  have hreach : Reachable gated asleepBehindGate := by
    have hfirst := ((Reachable.initial (R := gated) 0 0).next
      (.call 0 ⟨.bare "Node", none⟩ rfl)).run (run_runThread _ 0 5 _)
    have hsecond := hfirst.next (.call 1 ⟨.bare "Node", none⟩ (by decide +kernel))
    exact hsecond.run (run_runThread _ _ _ _)
  have hstable : Stable gated asleepBehindGate := by
    intro t
    have hall : ∀ p ∈ asleepBehindGate.threads, step gated p.1 asleepBehindGate = none := by
      have hnone : asleepBehindGate.threads.all
          (fun p => (step gated p.1 asleepBehindGate).isNone) = true := by decide +kernel
      intro p hp
      simpa using List.all_eq_true.1 hnone p hp
    cases hfind : Dictionary.find? t asleepBehindGate.threads with
    | none => simp [step, hfind]
    | some th => exact hall (t, th) (Dictionary.mem_of_find? hfind)
  have hsleeps : ((asleepBehindGate.thread 1).stage.sleepsOn).isSome = true := by decide +kernel
  obtain ⟨k, hk⟩ := Option.isSome_iff_exists.1 hsleeps
  exact ⟨hreach, hstable, (((deadlock_free hreach).2.2 hstable).2.1 1 k hk).2⟩

end SchemaGraph.Registry
