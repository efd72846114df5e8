/-
**What is counted, and when.**

A counter is set when an answer or a failure is reported, and at no other moment.  So a thread that
is alone in its calls counts no wait, since it never sleeps.  And no failure is counted where all
requests can be relied on, on however many threads they are made.

Main definitions:

* `Stage.counted` — what a step does to the counters;
* `Stage.isPrompt` — a thread that has not waited.

Main results:

* `stats_of_step` — **a counter is set when an answer or a failure is reported**;
* `Own.isPrompt_step`, `AtRest.waited_eq` — a thread that is alone does not wait;
* `Session.unfailed` — no failure is counted where all requests can be relied on;
* `AtRest.misses_eq` — at rest, what is known are the constructions that were counted.
-/

import SchemaGraph.Proofs.Registry.Reply
import SchemaGraph.Proofs.Registry.Unfailed

set_option autoImplicit false

namespace SchemaGraph.Registry

variable {ι σ ε ν : Type} {R : Setup ι σ ε ν} {D : Request → Prop} {s s' : State ι σ ε ν}
  {t : ThreadId} {r : Request} {frames : List (Frame ι σ ε ν)} {stage : Stage ι σ ε ν}
  {c : Call ι σ ε ν} {rs new : List Request} {ks : List Key}

/-! ### What a step counts -/

/-- The counters after a thread has taken a step. -/
def Stage.counted (S : Stats) : Stage ι σ ε ν → Stats
  | .reporting _ o _ => S.count o
  | .failing .. => S.countFailure
  | _ => S

theorem store_enter (R : Setup ι σ ε ν) (t : ThreadId) (frames : List (Frame ι σ ε ν))
    (r : Request) (resume : Option (Answer ε → Program ι σ ε ν)) (s : State ι σ ε ν) :
    (enter R t frames r resume s).store = s.store := by
  cases hk : r.key with
  | error reason =>
      obtain ⟨e, he⟩ := enter_of_error R t frames r hk resume s
      rw [he, State.store_put]
  | ok key =>
      obtain ⟨s₁, -, hS, he⟩ := enter_threads R t frames r hk resume s
      rw [he, State.store_put, hS]

theorem stats_look (R : Setup ι σ ε ν) (t : ThreadId) (frames : List (Frame ι σ ε ν))
    (c : Call ι σ ε ν) (w : Bool) (s : State ι σ ε ν) :
    (look R t frames c w s).store.stats = s.store.stats := by
  unfold look
  split
  · rfl
  · split <;> rfl
  · unfold begin
    dsimp only
    split
    · rfl
    · split
      · exact Store.stats_claim _ _ _
      · rfl

theorem stats_runProgram {f : Frame ι σ ε ν} {p : Program ι σ ε ν}
    (h : runProgram R t f frames p s = some s') : s'.store.stats = s.store.stats := by
  cases p with
  | gate name next =>
      simp only [runProgram, Option.ite_none_right_eq_some, Option.some.injEq] at h
      rw [← h.2]
      rfl
  | resolve r next =>
      simp only [runProgram, Option.some.injEq] at h
      rw [← h, store_enter]
  | _ =>
      simp only [runProgram, undo, Option.some.injEq] at h
      rw [← h]
      rfl

/-- **A counter is set when an answer or a failure is reported.** -/
theorem stats_of_step (h : step R t s = some s') :
    s'.store.stats = (s.thread t).stage.counted s.store.stats := by
  rw [step_eq_stepThread] at h
  generalize s.thread t = th at h
  obtain ⟨frames, stage⟩ := th
  cases stage with
  | running p =>
      cases frames with
      | nil => simp [stepThread] at h
      | cons f frames => exact stats_runProgram h
  | looking c w =>
      simp only [stepThread, Option.some.injEq] at h
      rw [← h, stats_look]
      rfl
  | asleep c notified =>
      cases notified with
      | false => simp [stepThread] at h
      | true =>
          simp only [stepThread, Option.some.injEq] at h
          rw [← h, stats_look]
          rfl
  | reporting c o x =>
      simp only [stepThread, report, Option.some.injEq] at h
      rw [← h]
      simp [Store.count, Stage.counted]
  | failing c failure =>
      simp only [stepThread, reportFailure, Option.some.injEq] at h
      rw [← h]
      cases failure <;> rfl
  | awaiting x =>
      simp only [stepThread, Option.ite_none_left_eq_some, Option.some.injEq] at h
      rw [← h.2]
      rfl
  | fulfilling f i =>
      simp only [stepThread, Option.some.injEq] at h
      rw [← h]
      rfl
  | ending c result =>
      simp only [stepThread, announce, Option.some.injEq] at h
      rw [← h]
      rfl
  | returned a => simp [stepThread] at h
  | panicked message => simp [stepThread] at h
  | awaited a => simp [stepThread] at h

/-! ### A thread alone never waits -/

/-- The thread does not sleep, and is not in a call that has slept. -/
def Stage.isPrompt : Stage ι σ ε ν → Bool
  | .asleep .. | .looking _ true | .reporting _ .waited _ => false
  | _ => true

@[simp] theorem Stage.isPrompt_answered (resume : Option (Answer ε → Program ι σ ε ν))
    (a : Answer ε) : (Stage.answered resume a).isPrompt = true := by
  cases resume <;> rfl

@[simp] theorem Call.isPrompt_deliver (c : Call ι σ ε ν) (a : Answer ε) :
    (c.deliver a).isPrompt = true := Stage.isPrompt_answered _ _

theorem Call.isPrompt_deliverFailure (c : Call ι σ ε ν) (failure : Failure ε) :
    (c.deliverFailure failure).isPrompt = true := by
  cases failure with
  | error e => exact c.isPrompt_deliver _
  | panic message => cases hr : c.resume <;> simp [deliverFailure, hr, Stage.isPrompt]

theorem isPrompt_enter (R : Setup ι σ ε ν) (t : ThreadId) (frames : List (Frame ι σ ε ν))
    (r : Request) (resume : Option (Answer ε → Program ι σ ε ν)) (s : State ι σ ε ν) :
    ((enter R t frames r resume s).thread t).stage.isPrompt = true := by
  cases hk : r.key with
  | error reason =>
      obtain ⟨e, he⟩ := enter_of_error R t frames r hk resume s
      rw [he, State.thread_put_self]
      exact Stage.isPrompt_answered _ _
  | ok key =>
      obtain ⟨s₁, -, -, he⟩ := enter_threads R t frames r hk resume s
      rw [he, State.thread_put_self]
      rfl

/-- A call of a thread that is alone finds what it looks for, or constructs it, or takes a forward
reference to a construction of its own. -/
theorem Own.isPrompt_look (ho : Own R t s) (frames : List (Frame ι σ ε ν)) (c : Call ι σ ε ν) :
    ((look R t frames c false s).thread t).stage.isPrompt = true := by
  cases he : Dictionary.find? c.key s.store.table.entries with
  | none =>
      simp only [look, he, begin]
      split
      · rw [State.thread_put_self, Call.isPrompt_deliver]
      · split
        · rw [State.thread_put_self]
          rfl
        · rw [State.thread_put_self, Call.isPrompt_deliver]
  | some e =>
      cases e with
      | ready i =>
          simp only [look, he, State.thread_put_self]
          rfl
      | pending u q =>
          obtain rfl := ho.owner_eq he
          simp only [look, he, defers, beq_self_eq_true, Bool.true_or, if_true,
            State.thread_put_self]
          rfl

theorem isPrompt_runProgram {f : Frame ι σ ε ν} {p : Program ι σ ε ν}
    (h : runProgram R t f frames p s = some s') : (s'.thread t).stage.isPrompt = true := by
  cases p with
  | gate name next =>
      simp only [runProgram, Option.ite_none_right_eq_some, Option.some.injEq] at h
      rw [← h.2, State.thread_put_self]
      rfl
  | resolve r next =>
      simp only [runProgram, Option.some.injEq] at h
      rw [← h, isPrompt_enter]
  | _ =>
      simp only [runProgram, undo, Option.some.injEq] at h
      rw [← h, State.thread_put_self]
      rfl

/-- **A thread that is alone does not begin to wait.** -/
theorem Own.isPrompt_step (ho : Own R t s) (hprompt : (s.thread t).stage.isPrompt = true)
    (h : Registry.step R t s = some s') : (s'.thread t).stage.isPrompt = true := by
  rw [step_eq_stepThread] at h
  generalize s.thread t = th at h hprompt
  obtain ⟨frames, stage⟩ := th
  cases stage with
  | running p =>
      cases frames with
      | nil => simp [stepThread] at h
      | cons f frames => exact isPrompt_runProgram h
  | looking c w =>
      cases w with
      | true => cases hprompt
      | false =>
          simp only [stepThread, Option.some.injEq] at h
          rw [← h]
          exact ho.isPrompt_look frames c
  | asleep c notified => simp [Stage.isPrompt] at hprompt
  | reporting c o x =>
      simp only [stepThread, report, Option.some.injEq] at h
      rw [← h, State.thread_put_self, Call.isPrompt_deliver]
  | failing c failure =>
      simp only [stepThread, reportFailure, Option.some.injEq] at h
      rw [← h, State.thread_put_self, Call.isPrompt_deliverFailure]
  | awaiting x =>
      simp only [stepThread, Option.ite_none_left_eq_some, Option.some.injEq] at h
      rw [← h.2, State.thread_put_self]
      rfl
  | fulfilling f i =>
      simp only [stepThread, Option.some.injEq] at h
      rw [← h, State.thread_put_self]
      rfl
  | ending c result =>
      simp only [stepThread, announce, Option.some.injEq] at h
      rw [← h, State.thread_put_self]
      cases result <;> rfl
  | returned a => simp [stepThread] at h
  | panicked message => simp [stepThread] at h
  | awaited a => simp [stepThread] at h

theorem Stage.waited_counted (h : stage.isPrompt = true) (S : Stats) :
    (stage.counted S).waited = S.waited := by
  cases stage with
  | reporting c o x =>
      cases o with
      | waited => simp [isPrompt] at h
      | _ => rfl
  | _ => rfl

/-- A thread that is alone and has not waited counts no wait, however long it runs. -/
theorem Own.waited_runThread (ho : Own R t s) (hprompt : (s.thread t).stage.isPrompt = true)
    (n : Nat) : (Registry.runThread R t n s).store.stats.waited = s.store.stats.waited := by
  induction n generalizing s with
  | zero => rfl
  | succ n ih =>
      rw [runThread_succ]
      cases hstep : Registry.step R t s with
      | none => rfl
      | some s' =>
          simp only [Option.map_some, Option.getD_some]
          rw [ih (ho.step hstep) (ho.isPrompt_step hprompt hstep), stats_of_step hstep,
            Stage.waited_counted hprompt]

/-- **A call of a single thread counts no wait.** -/
theorem AtRest.waited_eq (hs : AtRest R rs s) (fuel : Nat) (r : Request) :
    (Registry.resolve R fuel r s).2.store.stats.waited = s.store.stats.waited := by
  have hown : Own R 0 (s.call R 0 r) := .call hs.reachable hs.outside hs.idle r
  have hprompt := isPrompt_enter R 0 [] r none s
  exact (hown.waited_runThread hprompt fuel).trans
    (congrArg (fun S : Store ι => S.stats.waited) (store_enter R 0 [] r none s))

/-! ### Without a failure -/

/-- Only a step changes the counters. -/
theorem Event.step_or_stats (h : Event R s new s') :
    (∃ t, Registry.step R t s = some s') ∨ s'.store.stats = s.store.stats := by
  cases h with
  | step t h => exact Or.inl ⟨t, h⟩
  | call t r => exact Or.inr (congrArg Store.stats (store_enter R t [] r none s))
  | passGate t =>
      refine Or.inr ?_
      unfold State.passGate
      split <;> rfl
  | _ => exact Or.inr rfl

theorem Stage.failures_counted (h : ∀ c failure, stage ≠ .failing c failure) (S : Stats) :
    (stage.counted S).failures = S.failures := by
  cases stage with
  | reporting c o x => exact S.failures_count o
  | failing c failure => exact absurd rfl (h c failure)
  | _ => rfl

/-- **No failure is counted where all requests can be relied on.** -/
theorem Session.unfailed (hR : Reliable R D D) (hs : Session R rs ks s) (hrs : ∀ r ∈ rs, D r) :
    s.store.stats.failures = 0 := by
  induction hs with
  | initial => rfl
  | event hs he ih =>
      have hold := (List.forall_mem_append.1 hrs).2
      rcases he.step_or_stats with ⟨t, hstep⟩ | hstats
      · rw [stats_of_step hstep, Stage.failures_counted (hs.answered hR hold t).1, ih hold]
      · rw [hstats, ih hold]

/-! ### At rest -/

/-- At rest, what is known are the constructions that were counted. -/
theorem AtRest.misses_eq (hs : AtRest R rs s) : s.store.stats.misses = s.store.table.size := by
  obtain ⟨H, hH⟩ := hs.reachable.accounts
  have hlegal := hs.reachable.legal
  have hheld : Weight.held.total s = 0 :=
    Weight.total_eq_zero _ hlegal.listed.threads fun t =>
      congrArg List.length ((hlegal.linked t).frames_of_outside (hs.outside t))
  have hmisses : Weight.misses.total s = 0 := by
    refine Weight.total_eq_zero _ hlegal.listed.threads fun t => ?_
    have hout := hs.outside t
    show (s.thread t).stage.misses = 0
    cases hst : (s.thread t).stage <;> simp [hst, Stage.isOutside, Stage.misses] at hout ⊢
  have hstarted := hH.held
  have hsize := hH.size
  have hsucceeded := hH.misses
  omega

/-- The finished constructions are what is ready. -/
theorem Table.mem_instances {T : Table} (h : (Dictionary.names T.entries).Nodup)
    {p : Key × InstanceId} :
    p ∈ T.instances ↔ Dictionary.find? p.1 T.entries = some (.ready p.2) := by
  rw [← Dictionary.mem_iff_find? h, instances, List.mem_mergeSort, List.mem_filterMap]
  constructor
  · rintro ⟨⟨k, e⟩, hmem, he⟩
    cases e with
    | ready i =>
        obtain rfl := Option.some.inj he
        exact hmem
    | pending u q => cases he
  · exact fun hmem => ⟨_, hmem, rfl⟩

/-- At rest, all that is known is ready. -/
theorem AtRest.keys_instances (hs : AtRest R rs s) :
    (s.store.table.instances.map Prod.fst).Perm (Dictionary.names s.store.table.entries) := by
  have hlegal := hs.reachable.legal
  have hready : ∀ p ∈ s.store.table.entries, ∃ i, p.2 = .ready i := by
    intro p hp
    have hfind := (Dictionary.mem_iff_find? hlegal.listed.entries p.1 p.2).1 hp
    obtain ⟨i, hi⟩ := hlegal.ready_of_entry hs.outside (hfind ▸ Option.some_ne_none p.2)
    exact ⟨i, Option.some.inj (hfind.symm.trans hi)⟩
  refine ((List.mergeSort_perm _ _).map Prod.fst).trans (.of_eq ?_)
  rw [Dictionary.names, List.map_filterMap, ← List.filterMap_eq_map]
  refine List.filterMap_congr fun p hp => ?_
  obtain ⟨i, hi⟩ := hready p hp
  rw [hi]
  rfl

end SchemaGraph.Registry
