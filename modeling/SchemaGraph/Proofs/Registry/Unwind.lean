/-
**A panic rolls back like an error.**

A construction that breaks off takes with it every construction that asked for it.  On the way out
each of them is rolled back, its sleepers are notified, and its failure is counted, exactly as when
its factory fails with an error and the factories that asked pass the error on.  So two runs that
differ in how one construction fails, and in nothing else, go on in step: at every moment they have
one store, and when the failure has left the outermost call only its result and what was reported
tell them apart.

Main definitions:

* `Call.PassesOn`, `Uncaught` — no factory on the way out catches a failure;
* `unwound` — the store after all constructions of a thread were rolled back;
* `Counterpart` — the constructions of two runs, the same but for what the factories do next;
* `Thread.Unwinds`, `Mirrors` — two states in which a failure is on its way out;
* `Alike` — two states that only differ in what was reported;
* `FailsInstead` — a construction fails with an error in place of breaking off.

Main results:

* `runThread_unwound` — where a failure that is not caught leads to;
* `Mirrors.act`, `Mirrors.perform` — **runs that mirror each other stay so, whatever happens**;
* `panic_rolls_back_like_error` — **a panic rolls back exactly like an error**.
-/

import SchemaGraph.Proofs.Registry.Action
import SchemaGraph.Proofs.Registry.Construction
import SchemaGraph.Proofs.Registry.Motion

set_option autoImplicit false

namespace SchemaGraph.Registry

variable {ι σ ε ν : Type} {R : Setup ι σ ε ν} {s s' : State ι σ ε ν} {t u : ThreadId}
  {frames frames' : List (Frame ι σ ε ν)} {stage stage' : Stage ι σ ε ν} {c c' : Call ι σ ε ν}

/-! ### A failure on its way out -/

/-- The failure of a construction, as its caller is given it. -/
def Failure.within (c : Call ι σ ε ν) : Failure ε → Failure ε
  | .error e => .error (.constructionFailed c.reference e)
  | .panic message => .panic message

/-- The failure of a construction, after it has left all calls. -/
def Failure.through (calls : List (Call ι σ ε ν)) (failure : Failure ε) : Failure ε :=
  calls.foldl (fun failure c => failure.within c) failure

/-- How a call from outside ends that fails. -/
def Failure.result : Failure ε → Stage ι σ ε ν
  | .error e => .returned (.error e)
  | .panic message => .panicked message

/-- The factory that made a call fails with the error that the call fails with.  A panic is passed
on by itself. -/
def Call.PassesOn (c : Call ι σ ε ν) : Failure ε → Prop
  | .error e => ∀ k ∈ c.resume, (k (.error (.constructionFailed c.reference e))).Fails
    (.error (.constructionFailed c.reference e))
  | .panic _ => True

/-- No factory catches the failure on its way out. -/
def Uncaught : List (Call ι σ ε ν) → Failure ε → Prop
  | [], _ => True
  | c :: calls, failure => c.PassesOn failure ∧ Uncaught calls (failure.within c)

theorem uncaught_panic (calls : List (Call ι σ ε ν)) (message : String) :
    Uncaught calls (.panic message) := by
  induction calls with
  | nil => trivial
  | cons c calls ih => exact ⟨trivial, ih⟩

theorem Failure.through_error (calls : List (Call ι σ ε ν)) (e : RegistryError ε) :
    Failure.through calls (.error e)
      = .error (calls.foldl (fun e c => .constructionFailed c.reference e) e) := by
  induction calls generalizing e with
  | nil => rfl
  | cons c calls ih => exact ih (.constructionFailed c.reference e)

theorem Failure.through_panic (calls : List (Call ι σ ε ν)) (message : String) :
    Failure.through calls (.panic message) = (.panic message : Failure ε) := by
  induction calls with
  | nil => rfl
  | cons c calls ih => exact ih

/-- A failure that leaves all calls is the result of the outermost. -/
theorem Call.deliverFailure_of_none (h : c.resume = none) (failure : Failure ε) :
    c.deliverFailure failure = (failure.within c).result := by
  cases failure <;> simp [deliverFailure, deliver, Stage.answered, h, Failure.within,
    Failure.result]

/-- A failure that is not caught makes the caller fail in turn. -/
theorem Call.deliverFailure_of_some {k : Answer ε → Program ι σ ε ν} (h : c.resume = some k)
    {failure : Failure ε} (hp : c.PassesOn failure) :
    ∃ p, c.deliverFailure failure = .running p ∧ p.Fails (failure.within c) := by
  cases failure with
  | error e =>
      refine ⟨_, ?_, hp k h⟩
      rw [deliverFailure, deliver, h, Stage.answered]
  | panic message =>
      refine ⟨_, ?_, .panic message⟩
      rw [deliverFailure, h]

/-! ### Where it leads to -/

/-- The store after constructions were rolled back, from the innermost outwards. -/
def unwound : List (Frame ι σ ε ν) → Store ι → Store ι
  | [], S => S
  | f :: frames, S => unwound frames (S.rollBack f.call.key f.slot).countFailure

theorem runThread_of_step {s₁ : State ι σ ε ν} (h : step R t s = some s₁) (n : Nat) :
    runThread R t (n + 1) s = runThread R t n s₁ := by
  rw [runThread_succ, h]
  rfl

theorem step_eq_of_thread {th : Thread ι σ ε ν} (h : s.thread t = th) :
    step R t s = stepThread R t th s := by
  rw [step_eq_stepThread, h]

/-- A construction that fails is undone in three moments. -/
theorem runThread_undone {f : Frame ι σ ε ν} {p : Program ι σ ε ν} {failure : Failure ε}
    (hp : p.Fails failure) (hth : s.thread t = ⟨f :: frames, .running p⟩) :
    (runThread R t 3 s).store = (s.store.rollBack f.call.key f.slot).countFailure ∧
      (runThread R t 3 s).thread t = ⟨frames, f.call.deliverFailure failure⟩ := by
  obtain ⟨s₁, hstep, hS, hth₁⟩ : ∃ s₁, step R t s = some s₁ ∧
      s₁.store = s.store.rollBack f.call.key f.slot ∧
      s₁.thread t = ⟨frames, .ending f.call (.error failure)⟩ := by
    rw [step_eq_of_thread hth]
    cases hp with
    | fail e => exact ⟨_, rfl, rfl, State.thread_put_self ..⟩
    | panic message => exact ⟨_, rfl, rfl, State.thread_put_self ..⟩
  have hstep₁ : step R t s₁ = some (announce t frames f.call (.error failure) s₁) :=
    step_eq_of_thread hth₁
  have hth₂ := State.thread_announce_self t frames f.call (.error failure) s₁
  generalize hs₂ : announce t frames f.call (.error failure) s₁ = s₂ at hstep₁ hth₂
  have hS₂ : s₂.store = s₁.store := hs₂ ▸ State.store_announce ..
  have hstep₂ : step R t s₂ = some (reportFailure t frames f.call failure s₂) :=
    step_eq_of_thread hth₂
  rw [runThread_of_step hstep, runThread_of_step hstep₁, runThread_of_step hstep₂, runThread_zero,
    ← hS, ← hS₂]
  exact ⟨by cases failure <;> rfl, State.thread_put_self ..⟩

/-- **Where a failure that is not caught leads to**: all constructions of the thread are rolled
back, and the outermost call ends with what has become of the failure. -/
theorem runThread_unwound {p : Program ι σ ε ν} {failure : Failure ε} (hp : p.Fails failure)
    (hne : frames ≠ []) (hnested : Nested frames)
    (hu : Uncaught (frames.map Frame.call) failure) (hth : s.thread t = ⟨frames, .running p⟩) :
    (runThread R t (3 * frames.length) s).store = unwound frames s.store ∧
      (runThread R t (3 * frames.length) s).thread t
        = ⟨[], (failure.through (frames.map Frame.call)).result⟩ := by
  induction frames generalizing s p failure with
  | nil => exact absurd rfl hne
  | cons f frames ih =>
      obtain ⟨hS, hth₁⟩ := runThread_undone (R := R) hp hth
      rw [List.length_cons, Nat.mul_succ, Nat.add_comm, runThread_add]
      cases frames with
      | nil =>
          -- the outermost call
          rw [f.call.deliverFailure_of_none (hnested.1.2 rfl)] at hth₁
          exact ⟨hS, hth₁⟩
      | cons g frames =>
          obtain ⟨k, hk⟩ := Option.ne_none_iff_exists'.1
            fun hnone => List.cons_ne_nil g frames (hnested.1.1 hnone)
          obtain ⟨q, hq, hq'⟩ := f.call.deliverFailure_of_some hk hu.1
          rw [hq] at hth₁
          obtain ⟨hS', hth'⟩ := ih hq' (List.cons_ne_nil g frames) hnested.2 hu.2 hth₁
          exact ⟨hS'.trans (by rw [hS]; rfl), hth'⟩

/-! ### Two failures on their way out -/

/-- The same call, but for what the factory that made it does with the answer. -/
structure Call.Counterpart (c c' : Call ι σ ε ν) : Prop where
  key : c'.key = c.key
  reference : c'.reference = c.reference
  resume : c'.resume = none ↔ c.resume = none

/-- The same construction, but for what the factory that asked for it does with the answer. -/
structure Frame.Counterpart (f f' : Frame ι σ ε ν) : Prop where
  call : f.call.Counterpart f'.call
  slot : f'.slot = f.slot

/-- Two stages in which failures are on their way out through calls, in the same moment, or have
left. -/
inductive Stage.Unwinds (calls calls' : List (Call ι σ ε ν)) :
    Stage ι σ ε ν → Stage ι σ ε ν → Prop where
  | running {p p' : Program ι σ ε ν} {failure failure' : Failure ε} :
      p.Fails failure → p'.Fails failure' → Uncaught calls failure → Uncaught calls' failure' →
      Unwinds calls calls' (.running p) (.running p')
  | ending {c c' : Call ι σ ε ν} {failure failure' : Failure ε} : c.Counterpart c' →
      Uncaught (c :: calls) failure → Uncaught (c' :: calls') failure' →
      Unwinds calls calls' (.ending c (.error failure)) (.ending c' (.error failure'))
  | failing {c c' : Call ι σ ε ν} {failure failure' : Failure ε} : c.Counterpart c' →
      Uncaught (c :: calls) failure → Uncaught (c' :: calls') failure' →
      Unwinds calls calls' (.failing c failure) (.failing c' failure')
  | resting {stage stage' : Stage ι σ ε ν} : stage.isResting = true → stage'.isResting = true →
      Unwinds calls calls' stage stage'

/-- Two threads with the same constructions, out of which failures are on their way. -/
structure Thread.Unwinds (th th' : Thread ι σ ε ν) : Prop where
  frames : List.Forall₂ Frame.Counterpart th.frames th'.frames
  stage : Stage.Unwinds (th.frames.map Frame.call) (th'.frames.map Frame.call) th.stage th'.stage

theorem Stage.Unwinds.resting_iff {calls calls' : List (Call ι σ ε ν)}
    (h : Stage.Unwinds calls calls' stage stage') : stage'.isResting = stage.isResting := by
  cases h with
  | resting h h' => rw [h, h']
  | _ => rfl

/-- A program that fails stands at no gate. -/
theorem Stage.Unwinds.not_gate {calls calls' : List (Call ι σ ε ν)}
    (h : Stage.Unwinds calls calls' stage stage') :
    (∀ name next, stage ≠ .running (.gate name next)) ∧
      ∀ name next, stage' ≠ .running (.gate name next) := by
  cases h with
  | running hp hp' =>
      constructor
      · rintro name next ⟨⟩
        cases hp
      · rintro name next ⟨⟩
        cases hp'
  | resting hr hr' =>
      constructor
      · rintro name next rfl
        simp [isResting] at hr
      · rintro name next rfl
        simp [isResting] at hr'
  | ending | failing => constructor <;> rintro name next ⟨⟩

theorem Stage.isResting_result (failure : Failure ε) :
    (failure.result : Stage ι σ ε ν).isResting = true := by
  cases failure <;> rfl

/-- Failures that were counted leave a call together. -/
theorem Stage.Unwinds.deliver {calls calls' : List (Call ι σ ε ν)} {failure failure' : Failure ε}
    (hc : c.Counterpart c') (hu : Uncaught (c :: calls) failure)
    (hu' : Uncaught (c' :: calls') failure') :
    Stage.Unwinds calls calls' (c.deliverFailure failure) (c'.deliverFailure failure') := by
  cases hk : c.resume with
  | none =>
      rw [c.deliverFailure_of_none hk, c'.deliverFailure_of_none (hc.resume.2 hk)]
      exact .resting (isResting_result _) (isResting_result _)
  | some k =>
      obtain ⟨k', hk'⟩ := Option.ne_none_iff_exists'.1
        fun hnone => by simp [hc.resume.1 hnone] at hk
      obtain ⟨p, hp, hfails⟩ := c.deliverFailure_of_some hk hu.1
      obtain ⟨p', hp', hfails'⟩ := c'.deliverFailure_of_some hk' hu'.1
      rw [hp, hp']
      exact .running hfails hfails' hu.2 hu'.2

/-! ### States that mirror each other -/

/-- Two states that differ in one thread at most, out of which different failures are on their way.
What was reported may differ as well. -/
structure Mirrors (t : ThreadId) (s s' : State ι σ ε ν) : Prop where
  store : s'.store = s.store
  notes : s'.notes = s.notes
  openGates : s'.openGates = s.openGates
  beside : ∀ u, u ≠ t → s'.thread u = s.thread u
  thread : s'.thread t = s.thread t ∨ (s.thread t).Unwinds (s'.thread t)

namespace Mirrors

theorem withStore (h : Mirrors t s s') (S : Store ι) :
    Mirrors t (s.withStore S) (s'.withStore S) :=
  ⟨rfl, h.notes, h.openGates, h.beside, h.thread⟩

theorem tell (h : Mirrors t s s') (n n' : Notice ε ν) (u : ThreadId) :
    Mirrors t (s.tell u n) (s'.tell u n') :=
  ⟨h.store, h.notes, h.openGates, h.beside, h.thread⟩

theorem tellAll (h : Mirrors t s s') (u : ThreadId) (ns : List (Notice ε ν)) :
    Mirrors t (s.tellAll u ns) (s'.tellAll u ns) := by
  induction ns generalizing s s' with
  | nil => exact h
  | cons n ns ih => exact ih (h.tell n n u)

theorem withNotes (h : Mirrors t s s') (notes : σ) :
    Mirrors t { s with notes := notes } { s' with notes := notes } :=
  ⟨h.store, rfl, h.openGates, h.beside, h.thread⟩

/-- A thread goes on in the same way. -/
theorem put (h : Mirrors t s s') (u : ThreadId) (frames : List (Frame ι σ ε ν))
    (stage : Stage ι σ ε ν) : Mirrors t (s.put u frames stage) (s'.put u frames stage) := by
  refine ⟨h.store, h.notes, h.openGates, fun v hv => ?_, ?_⟩
  · rw [State.thread_put, State.thread_put, h.beside v hv]
  · rw [State.thread_put, State.thread_put]
    split
    · exact Or.inl rfl
    · exact h.thread

/-- The thread that fails goes on with its failure. -/
theorem putUnwinds (h : Mirrors t s s')
    (hu : (⟨frames, stage⟩ : Thread ι σ ε ν).Unwinds ⟨frames', stage'⟩) :
    Mirrors t (s.put t frames stage) (s'.put t frames' stage') := by
  refine ⟨h.store, h.notes, h.openGates, fun v hv => ?_, Or.inr ?_⟩
  · rw [State.thread_put_of_ne hv.symm, State.thread_put_of_ne hv.symm, h.beside v hv]
  · rw [State.thread_put_self, State.thread_put_self]
    exact hu

theorem notifyAll (h : Mirrors t s s') : Mirrors t s.notifyAll s'.notifyAll := by
  refine ⟨h.store, h.notes, h.openGates, fun v hv => ?_, ?_⟩
  · rw [State.thread_notifyAll, State.thread_notifyAll, h.beside v hv]
  · rw [State.thread_notifyAll, State.thread_notifyAll]
    rcases h.thread with hsame | hu
    · exact Or.inl (by rw [hsame])
    · -- a thread whose failure is on its way out does not sleep
      right
      have hstays : ∀ {th th' : Thread ι σ ε ν}, th.Unwinds th' →
          th.notify = th ∧ th'.notify = th' := by
        rintro ⟨frames, stage⟩ ⟨frames', stage'⟩ ⟨-, hstage⟩
        cases hstage with
        | resting hr hr' =>
            constructor
            · cases stage <;> first | rfl | simp [Stage.isResting] at hr
            · cases stage' <;> first | rfl | simp [Stage.isResting] at hr'
        | _ => exact ⟨rfl, rfl⟩
      rw [(hstays hu).1, (hstays hu).2]
      exact hu

/-! ### The same step of both -/

theorem enter (h : Mirrors t s s') (u : ThreadId) (frames : List (Frame ι σ ε ν)) (r : Request)
    (resume : Option (Answer ε → Program ι σ ε ν)) :
    Mirrors t (enter R u frames r resume s) (enter R u frames r resume s') := by
  unfold Registry.enter
  split
  · exact h.put ..
  · dsimp only
    split
    · exact (h.tell ..).put ..
    · exact h.put ..

theorem begin (h : Mirrors t s s') (u : ThreadId) (frames : List (Frame ι σ ε ν))
    (c : Call ι σ ε ν) : Mirrors t (begin R u frames c s) (begin R u frames c s') := by
  unfold Registry.begin
  dsimp only
  rw [h.store]
  split
  · exact h.put ..
  · split
    · exact ((h.withStore _).withStore _).put ..
    · exact (h.withStore _).put ..

theorem look (h : Mirrors t s s') (u : ThreadId) (frames : List (Frame ι σ ε ν))
    (c : Call ι σ ε ν) (w : Bool) :
    Mirrors t (look R u frames c w s) (look R u frames c w s') := by
  unfold Registry.look
  rw [h.store]
  split
  · exact h.put ..
  · split
    · exact (h.withStore _).put ..
    · exact (h.withStore _).put ..
  · exact h.begin ..

theorem runProgram (h : Mirrors t s s') (u : ThreadId) (f : Frame ι σ ε ν)
    (frames : List (Frame ι σ ε ν)) (p : Program ι σ ε ν) :
    Option.Rel (Mirrors t) (runProgram R u f frames p s) (runProgram R u f frames p s') := by
  cases p with
  | done x =>
      simp only [Registry.runProgram, h.store]
      exact .some ((h.withStore _).put ..)
  | fail e =>
      simp only [Registry.runProgram, undo, h.store]
      exact .some ((h.withStore _).put ..)
  | panic message =>
      simp only [Registry.runProgram, undo]
      refine .some ?_
      rw [(h.tell _ _ u).store]
      exact ((h.tell _ _ u).withStore _).put ..
  | resolve r k => exact .some (h.enter ..)
  | note g k =>
      simp only [Registry.runProgram, h.notes]
      exact .some ((h.withNotes _).put ..)
  | inspect k =>
      simp only [Registry.runProgram, h.store]
      exact .some (h.put ..)
  | say event next => exact .some ((h.tell _ _ u).put ..)
  | gate name next =>
      simp only [Registry.runProgram, h.openGates]
      split
      · exact .some (h.put ..)
      · exact .none

/-- A thread that is the same in both states takes the same step. -/
theorem stepThread (h : Mirrors t s s') (u : ThreadId) (th : Thread ι σ ε ν) :
    Option.Rel (Mirrors t) (stepThread R u th s) (stepThread R u th s') := by
  obtain ⟨frames, stage⟩ := th
  cases stage with
  | running p =>
      cases frames with
      | nil => exact .none
      | cons f frames => exact h.runProgram ..
  | looking c w => exact .some (h.look ..)
  | asleep c notified =>
      cases notified with
      | false => exact .none
      | true =>
          simp only [Registry.stepThread, h.store]
          exact .some ((h.withStore _).look ..)
  | fulfilling f i =>
      simp only [Registry.stepThread, h.store]
      exact .some ((h.withStore _).put ..)
  | ending c result => exact .some (h.notifyAll.put ..)
  | reporting c o x =>
      simp only [Registry.stepThread, report, h.store]
      exact .some (((h.withStore _).tellAll ..).put ..)
  | failing c failure =>
      simp only [Registry.stepThread, reportFailure, h.store]
      cases failure with
      | error e => exact .some (((h.withStore _).tell ..).put ..)
      | panic message => exact .some ((h.withStore _).put ..)
  | awaiting x =>
      simp only [Registry.stepThread, h.store]
      split
      · exact .none
      · exact .some (h.put ..)
  | returned a => exact .none
  | panicked message => exact .none
  | awaited a => exact .none

/-- A thread out of which a failure is on its way takes the step that rolls back, notifies or
counts, whatever the failure. -/
theorem stepThread_unwinds (h : Mirrors t s s') {th th' : Thread ι σ ε ν} (hu : th.Unwinds th') :
    Option.Rel (Mirrors t) (Registry.stepThread R t th s) (Registry.stepThread R t th' s') := by
  obtain ⟨frames, stage⟩ := th
  obtain ⟨frames', stage'⟩ := th'
  obtain ⟨hframes, hstage⟩ := hu
  dsimp only at hframes hstage
  cases hstage with
  | running hp hp' hun hun' =>
      cases hframes with
      | nil => exact .none
      | @cons f f' frames frames' hf hframes =>
          have hundo : ∀ {s s' : State ι σ ε ν} {failure failure' : Failure ε}, Mirrors t s s' →
              Uncaught ((f :: frames).map Frame.call) failure →
              Uncaught ((f' :: frames').map Frame.call) failure' →
              Mirrors t (undo t f frames failure s) (undo t f' frames' failure' s') := by
            intro s s' failure failure' h hun hun'
            unfold undo
            rw [h.store, hf.slot, hf.call.key]
            exact (h.withStore _).putUnwinds ⟨hframes, .ending hf.call hun hun'⟩
          cases hp with
          | fail e =>
              cases hp' with
              | fail e' => exact .some (hundo h hun hun')
              | panic message' =>
                  exact .some (hundo ⟨h.store, h.notes, h.openGates, h.beside, h.thread⟩ hun hun')
          | panic message =>
              cases hp' with
              | fail e' =>
                  exact .some (hundo ⟨h.store, h.notes, h.openGates, h.beside, h.thread⟩ hun hun')
              | panic message' => exact .some (hundo (h.tell _ _ t) hun hun')
  | ending hc hun hun' =>
      exact .some (h.notifyAll.putUnwinds ⟨hframes, .failing hc hun hun'⟩)
  | @failing c c' failure failure' hc hun hun' =>
      have hcounted : ∀ {s₁ s₁' : State ι σ ε ν}, Mirrors t s₁ s₁' →
          Mirrors t (s₁.put t frames (c.deliverFailure failure))
            (s₁'.put t frames' (c'.deliverFailure failure')) :=
        fun h => h.putUnwinds ⟨hframes, .deliver hc hun hun'⟩
      simp only [Registry.stepThread, reportFailure, h.store]
      refine .some (hcounted ⟨?_, ?_, ?_, ?_, ?_⟩)
      all_goals cases failure <;> cases failure'
      all_goals first | rfl | exact h.notes | exact h.openGates | exact h.beside | exact h.thread
  | resting hr hr' =>
      have hnone : ∀ {frames : List (Frame ι σ ε ν)} {stage : Stage ι σ ε ν}
          (s : State ι σ ε ν), stage.isResting = true →
          Registry.stepThread R t ⟨frames, stage⟩ s = none := by
        intro frames stage s hr
        cases stage <;> first | rfl | simp [Stage.isResting] at hr
      rw [hnone s hr, hnone s' hr']
      exact .none

theorem step (h : Mirrors t s s') (u : ThreadId) :
    Option.Rel (Mirrors t) (Registry.step R u s) (Registry.step R u s') := by
  rw [step_eq_stepThread, step_eq_stepThread]
  by_cases hut : u = t
  · subst hut
    rcases h.thread with hsame | hu
    · rw [hsame]
      exact h.stepThread u _
    · exact h.stepThread_unwinds hu
  · rw [h.beside u hut]
    exact h.stepThread u _

theorem isIdle_eq (h : Mirrors t s s') (u : ThreadId) : s'.isIdle u = s.isIdle u := by
  rw [State.isIdle_eq, State.isIdle_eq]
  by_cases hut : u = t
  · subst hut
    rcases h.thread with hsame | hu
    · rw [hsame]
    · exact hu.stage.resting_iff
  · rw [h.beside u hut]

theorem passGate (h : Mirrors t s s') (u : ThreadId) :
    Mirrors t (s.passGate u) (s'.passGate u) := by
  have hsame : s'.thread u = s.thread u → Mirrors t (s.passGate u) (s'.passGate u) := by
    intro hth
    rw [State.passGate_eq, State.passGate_eq, hth]
    split
    · exact h.put ..
    · exact h
  by_cases hut : u = t
  · subst hut
    rcases h.thread with hth | hu
    · exact hsame hth
    · -- a program that fails stands at no gate
      rw [State.passGate_of_not_gate hu.stage.not_gate.1,
        State.passGate_of_not_gate hu.stage.not_gate.2]
      exact h
  · exact hsame (h.beside u hut)

/-- **Whatever happens, states that mirror each other stay so.** -/
theorem act (h : Mirrors t s s') (a : Action σ) :
    Option.Rel (Mirrors t) (act R a s) (act R a s') := by
  cases a with
  | step u => exact h.step u
  | call u r =>
      simp only [Registry.act, h.isIdle_eq u]
      split
      · exact .some (h.enter ..)
      · exact .none
  | await u x =>
      simp only [Registry.act, h.isIdle_eq u]
      split
      · exact .some (h.put ..)
      · exact .none
  | openGate name =>
      exact .some ⟨h.store, h.notes, congrArg (name :: ·) h.openGates, h.beside, h.thread⟩
  | passGate u => exact .some (h.passGate u)
  | note f =>
      simp only [Registry.act, h.notes]
      exact .some (h.withNotes _)
  | clone q =>
      simp only [Registry.act, h.store]
      split
      · exact .some (h.withStore _)
      · exact .none
  | drop q =>
      simp only [Registry.act, h.store]
      split
      · exact .some (h.withStore _)
      · exact .none

/-- **Runs that mirror each other stay so.** -/
theorem perform (h : Mirrors t s s') (as : List (Action σ)) :
    Option.Rel (Mirrors t) (perform R as s) (perform R as s') := by
  induction as generalizing s s' with
  | nil => exact .some h
  | cons a as ih =>
      rw [perform_cons, perform_cons]
      generalize hx : Registry.act R a s = x
      generalize hy : Registry.act R a s' = y
      have hrel := h.act (R := R) a
      rw [hx, hy] at hrel
      cases hrel with
      | some h₁ => exact ih h₁
      | none => exact .none

end Mirrors

/-! ### States that differ in the log alone -/

/-- Two states that differ in what was reported alone. -/
structure Alike (s s' : State ι σ ε ν) : Prop where
  store : s'.store = s.store
  notes : s'.notes = s.notes
  openGates : s'.openGates = s.openGates
  thread : ∀ u, s'.thread u = s.thread u

theorem Alike.mirrors (h : Alike s s') (t : ThreadId) : Mirrors t s s' :=
  ⟨h.store, h.notes, h.openGates, fun u _ => h.thread u, Or.inl (h.thread t)⟩

/-- States in which every thread may be taken for the one that differs do not differ at all. -/
theorem Alike.of_mirrors (h : ∀ t, Mirrors t s s') : Alike s s' := by
  refine ⟨(h 0).store, (h 0).notes, (h 0).openGates, fun u => ?_⟩
  exact (h (u + 1)).beside u (Nat.ne_of_lt (Nat.lt_succ_self u))

/-- States that differ in the log alone lead to such states. -/
theorem Alike.perform (h : Alike s s') (as : List (Action σ)) :
    Option.Rel Alike (perform R as s) (perform R as s') := by
  have hrel : ∀ t, Option.Rel (Mirrors t) (Registry.perform R as s) (Registry.perform R as s') :=
    fun t => (h.mirrors t).perform as
  generalize Registry.perform R as s = x at hrel
  generalize Registry.perform R as s' = y at hrel
  cases x with
  | none =>
      cases y with
      | none => exact .none
      | some s₁' => exact nomatch hrel 0
  | some s₁ =>
      cases y with
      | none => exact nomatch hrel 0
      | some s₁' =>
          refine .some (.of_mirrors fun t => ?_)
          cases hrel t with
          | some h => exact h

/-- A thread that makes a call goes on from there in both states alike. -/
theorem Mirrors.alike_call (h : Mirrors t s s') (r : Request) :
    Alike (s.call R t r) (s'.call R t r) := by
  have hm : Mirrors t (s.call R t r) (s'.call R t r) := h.enter ..
  refine ⟨hm.store, hm.notes, hm.openGates, fun u => ?_⟩
  by_cases hut : u = t
  · subst hut
    unfold State.call Registry.enter
    split <;> rw [State.thread_put_self, State.thread_put_self]
  · exact hm.beside u hut

/-! ### A panic and an error -/

/-- A thread is inside a factory that fails, and how. -/
def Stage.Fails (stage : Stage ι σ ε ν) (failure : Failure ε) : Prop :=
  ∃ p, stage = .running p ∧ p.Fails failure

/-- The innermost construction of a thread breaks off in one state, and fails with an error in the
other, which no factory catches on its way out.  Nothing else is different but what was reported,
and what the factories on the way out would do with other answers. -/
structure FailsInstead (t : ThreadId) (message : String) (e : RegistryError ε)
    (s s' : State ι σ ε ν) : Prop where
  panics : (s.thread t).stage.Fails (.panic message)
  fails : (s'.thread t).stage.Fails (.error e)
  frames : List.Forall₂ Frame.Counterpart (s.thread t).frames (s'.thread t).frames
  uncaught : Uncaught ((s'.thread t).frames.map Frame.call) (.error e)
  beside : ∀ u, u ≠ t → s'.thread u = s.thread u
  store : s'.store = s.store
  notes : s'.notes = s.notes
  openGates : s'.openGates = s.openGates

theorem FailsInstead.mirrors {message : String} {e : RegistryError ε}
    (h : FailsInstead t message e s s') : Mirrors t s s' := by
  refine ⟨h.store, h.notes, h.openGates, h.beside, Or.inr ⟨h.frames, ?_⟩⟩
  obtain ⟨p, hp, hpanics⟩ := h.panics
  obtain ⟨p', hp', hfails⟩ := h.fails
  rw [hp, hp']
  exact .running hpanics hfails (uncaught_panic _ _) h.uncaught

theorem Nested.counterpart (hn : Nested frames)
    (h : List.Forall₂ Frame.Counterpart frames frames') : Nested frames' := by
  induction h with
  | nil => trivial
  | @cons f f' frames frames' hf hframes ih =>
      have hnil : frames' = [] ↔ frames = [] := by
        cases hframes <;> simp
      exact ⟨hf.call.resume.trans (hn.1.trans hnil.symm), ih hn.2⟩

theorem unwound_counterpart (h : List.Forall₂ Frame.Counterpart frames frames') (S : Store ι) :
    unwound frames' S = unwound frames S := by
  induction h generalizing S with
  | nil => rfl
  | cons hf _ ih => rw [unwound, unwound, hf.call.key, hf.slot, ih]

/-- The same call, its caller passing on every error. -/
def Call.passingOn (c : Call ι σ ε ν) : Call ι σ ε ν :=
  { c with resume := c.resume.map fun k a =>
      match a with
      | .ok h => k (.ok h)
      | .error e => .fail e }

/-- Every construction that breaks off might have failed with an error that nobody catches. -/
theorem exists_failsInstead {message : String} (h : (s.thread t).stage.Fails (.panic message))
    (e : RegistryError ε) : ∃ s', FailsInstead t message e s s' := by
  let instead (f : Frame ι σ ε ν) : Frame ι σ ε ν := ⟨f.call.passingOn, f.slot⟩
  refine ⟨s.put t ((s.thread t).frames.map instead) (.running (.fail e)), h, ?_, ?_, ?_, ?_, rfl,
    rfl, rfl⟩
  · rw [State.thread_put_self]
    exact ⟨_, rfl, .fail e⟩
  · rw [State.thread_put_self, List.forall₂_map_right_iff]
    refine List.forall₂_same.2 fun f _ => ⟨⟨rfl, rfl, ?_⟩, rfl⟩
    simp [instead, Call.passingOn]
  · rw [State.thread_put_self]
    generalize (s.thread t).frames = frames
    induction frames generalizing e with
    | nil => trivial
    | cons f frames ih =>
        refine ⟨fun k hk => ?_, ih (.constructionFailed f.call.reference e)⟩
        obtain ⟨k, -, rfl⟩ := Option.map_eq_some_iff.1 hk
        exact .fail _
  · exact fun u hu => State.thread_put_of_ne hu.symm ..

/-- **A panic rolls back exactly like an error.**  A construction breaks off in one run, and fails
with an error in the other, which the factories that asked for it pass on.

Left to itself, the failure leads in both runs to the store in which all constructions of the thread
were rolled back and counted as failures, from the innermost outwards; one call broke off, the other
returns the error inside those of all its constructions.  And whatever else happens meanwhile and
afterwards, such as handles that are dropped or calls of other threads, happens in both runs or in
neither, and finds at every moment one store: the same entries, retired slots and counters, and
handles that lead to the same.  Once the thread is outside all calls again and makes another, the
runs differ in what was reported alone, for good. -/
theorem panic_rolls_back_like_error {message : String} {e : RegistryError ε} (hs : Reachable R s)
    (h : FailsInstead t message e s s') :
    (let n := 3 * (s.thread t).frames.length
     let S := unwound (s.thread t).frames s.store
     let calls := (s'.thread t).frames.map Frame.call
     (runThread R t n s).store = S ∧ (runThread R t n s').store = S ∧
       (runThread R t n s).thread t = ⟨[], .panicked message⟩ ∧
       (runThread R t n s').thread t = ⟨[], .returned (.error
         (calls.foldl (fun e c => .constructionFailed c.reference e) e))⟩) ∧
    (∀ as, Option.Rel (Mirrors t) (perform R as s) (perform R as s')) ∧
    ∀ as s₁ s₁', perform R as s = some s₁ → perform R as s' = some s₁' → s₁.isIdle t = true →
      ∀ r bs, Option.Rel Alike (perform R (.call t r :: bs) s₁)
        (perform R (.call t r :: bs) s₁') := by
  refine ⟨?_, h.mirrors.perform, ?_⟩
  · obtain ⟨hfits, hnested⟩ := hs.legal.linked t
    obtain ⟨p, hp, hpanics⟩ := h.panics
    obtain ⟨p', hp', hfails⟩ := h.fails
    rw [hp] at hfits
    have hne : (s.thread t).frames ≠ [] := hfits
    have hlen := h.frames.length_eq
    have hne' : (s'.thread t).frames ≠ [] := by
      rwa [← List.length_pos_iff, ← hlen, List.length_pos_iff]
    obtain ⟨hS, hth⟩ := runThread_unwound (R := R) hpanics hne hnested (uncaught_panic _ _)
      (show s.thread t = ⟨_, .running p⟩ by rw [← hp])
    obtain ⟨hS', hth'⟩ := runThread_unwound (R := R) hfails hne' (hnested.counterpart h.frames)
      h.uncaught (show s'.thread t = ⟨_, .running p'⟩ by rw [← hp'])
    rw [← hlen, unwound_counterpart h.frames, h.store] at hS'
    rw [Failure.through_panic] at hth
    rw [← hlen, Failure.through_error] at hth'
    exact ⟨hS, hS', hth, hth'⟩
  · intro as s₁ s₁' hp hp' hidle r bs
    have hm : Mirrors t s₁ s₁' := by
      have hrel := h.mirrors.perform (R := R) as
      rw [hp, hp'] at hrel
      cases hrel with
      | some hm => exact hm
    have hidle' : s₁'.isIdle t = true := by rw [hm.isIdle_eq, hidle]
    simp only [perform_cons, act, hidle, hidle', if_true, Option.bind_some]
    exact (hm.alike_call r).perform bs

/-! ### One registry, two runs -/

section Decidable

variable [DecidableEq ε]

/-- The failure that a program ends in. -/
def Program.failure? : Program ι σ ε ν → Option (Failure ε)
  | .fail e => some (.error e)
  | .panic message => some (.panic message)
  | _ => none

omit [DecidableEq ε] in
theorem Program.fails_iff {p : Program ι σ ε ν} {failure : Failure ε} :
    p.failure? = some failure ↔ p.Fails failure := by
  constructor
  · intro h
    cases p with
    | fail e => exact Option.some.inj h ▸ .fail e
    | panic message => exact Option.some.inj h ▸ .panic message
    | _ => simp [failure?] at h
  · rintro (_ | _) <;> rfl

instance (p : Program ι σ ε ν) (failure : Failure ε) : Decidable (p.Fails failure) :=
  decidable_of_iff _ Program.fails_iff

instance (stage : Stage ι σ ε ν) (failure : Failure ε) : Decidable (stage.Fails failure) :=
  match stage with
  | .running p => decidable_of_iff (p.Fails failure)
      ⟨fun h => ⟨p, rfl, h⟩, fun ⟨_, hp, h⟩ => Stage.running.inj hp ▸ h⟩
  | .looking .. | .asleep .. | .fulfilling .. | .ending .. | .reporting .. | .failing ..
  | .awaiting .. | .returned .. | .panicked .. | .awaited .. => isFalse nofun

instance (c : Call ι σ ε ν) : ∀ failure, Decidable (c.PassesOn failure)
  | .error e => inferInstanceAs (Decidable (∀ k ∈ c.resume, (k (.error
      (.constructionFailed c.reference e))).Fails (.error (.constructionFailed c.reference e))))
  | .panic _ => isTrue trivial

instance : ∀ (calls : List (Call ι σ ε ν)) (failure : Failure ε), Decidable (Uncaught calls failure)
  | [], _ => isTrue trivial
  | c :: calls, failure =>
    have := instDecidableUncaught calls (failure.within c)
    inferInstanceAs (Decidable (c.PassesOn failure ∧ Uncaught calls (failure.within c)))

end Decidable

instance (c c' : Call ι σ ε ν) : Decidable (c.Counterpart c') :=
  decidable_of_iff
    (c'.key = c.key ∧ c'.reference = c.reference ∧ (c'.resume = none ↔ c.resume = none))
    ⟨fun h => ⟨h.1, h.2.1, h.2.2⟩, fun h => ⟨h.key, h.reference, h.resume⟩⟩

instance (f f' : Frame ι σ ε ν) : Decidable (f.Counterpart f') :=
  decidable_of_iff (f.call.Counterpart f'.call ∧ f'.slot = f.slot)
    ⟨fun h => ⟨h.1, h.2⟩, fun h => ⟨h.call, h.slot⟩⟩

deriving instance DecidableEq for Table

deriving instance DecidableEq for Store

/-- Whether a factory is angry, and a handle that is kept. -/
abbrev Mood := Bool × Option Handle

/-- A type that refers to itself and to another, whose factory breaks off or fails as the notes have
it.  The reference to itself is kept in the notes, so it outlives the construction. -/
def touchy : Setup Nat Mood String Unit where
  factories := [
    ("Outer", ⟨⟨"object"⟩, fun site => .request ⟨site.identifier, site.context⟩ fun h =>
      .note (fun mood => (mood.1, some h)) fun _ =>
        .request ⟨.bare "Inner", none⟩ fun _ => .done (.new 0)⟩),
    ("Inner", ⟨⟨"object"⟩, fun _ => .note (fun mood => (false, mood.2)) fun mood =>
      if mood.1 then .panic "boom" else .fail (.raised "boom")⟩)]
  admits := fun _ _ _ => true

/-- The inner construction is about to fail.  The state is evaluated, never
unfolded. -/
@[irreducible] def aboutToFail (angry : Bool) : State Nat Mood String Unit :=
  runThread touchy 0 8 ((State.initial (angry, none) 0).call touchy 0 ⟨.bare "Outer", none⟩)

theorem reachable_aboutToFail (angry : Bool) : Reachable touchy (aboutToFail angry) := by
  unfold aboutToFail
  exact ((Reachable.initial (angry, none) 0).next (.call 0 _ rfl)).run (run_runThread _ _ _ _)

theorem failsInstead_aboutToFail :
    FailsInstead 0 "boom" (.raised "boom") (aboutToFail true) (aboutToFail false) := by
  obtain ⟨⟨hnames, hnames'⟩, hpanics, hfails, hframes, huncaught, hstore, hnotes, hgates⟩ :
      (Dictionary.names (aboutToFail true).threads = [0] ∧
        Dictionary.names (aboutToFail false).threads = [0]) ∧
      ((aboutToFail true).thread 0).stage.Fails (.panic "boom") ∧
      ((aboutToFail false).thread 0).stage.Fails (.error (.raised "boom")) ∧
      List.Forall₂ Frame.Counterpart ((aboutToFail true).thread 0).frames
        ((aboutToFail false).thread 0).frames ∧
      Uncaught (((aboutToFail false).thread 0).frames.map Frame.call) (.error (.raised "boom")) ∧
      (aboutToFail false).store = (aboutToFail true).store ∧
      (aboutToFail false).notes = (aboutToFail true).notes ∧
      (aboutToFail false).openGates = (aboutToFail true).openGates := by
    decide +kernel
  refine ⟨hpanics, hfails, hframes, huncaught, fun u hu => ?_, hstore, hnotes, hgates⟩
  have hnone : ∀ {s : State Nat Mood String Unit}, Dictionary.names s.threads = [0] →
      Dictionary.find? u s.threads = none := by
    intro s hs
    rw [Dictionary.find?_eq_none_iff, hs]
    simpa using hu
  rw [State.thread, State.thread, hnone hnames, hnone hnames']

theorem aboutToFail_rolls_back : Reachable touchy (aboutToFail true) ∧
    FailsInstead 0 "boom" (.raised "boom") (aboutToFail true) (aboutToFail false) ∧
    (runThread touchy 0 6 (aboutToFail true)).store
      = (runThread touchy 0 6 (aboutToFail false)).store ∧
    (runThread touchy 0 6 (aboutToFail true)).store.stats = ⟨0, 0, 1, 0, 2⟩ ∧
    (runThread touchy 0 6 (aboutToFail true)).store.table.retired.length = 1 := by
  obtain ⟨hlen, hstats, hretired⟩ : 3 * ((aboutToFail true).thread 0).frames.length = 6 ∧
      (runThread touchy 0 6 (aboutToFail true)).store.stats = ⟨0, 0, 1, 0, 2⟩ ∧
      (runThread touchy 0 6 (aboutToFail true)).store.table.retired.length = 1 := by
    decide +kernel
  obtain ⟨hS, hS', -, -⟩ :=
    (panic_rolls_back_like_error (reachable_aboutToFail true) failsInstead_aboutToFail).1
  rw [hlen] at hS hS'
  exact ⟨reachable_aboutToFail true, failsInstead_aboutToFail, hS.trans hS'.symm, hstats,
    hretired⟩

end SchemaGraph.Registry
