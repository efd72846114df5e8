/-
**Runs as lists of actions.**

What happens next is an action: a thread takes a step, or something happens from outside.  An action
leads to one state at most, so a run is known by its actions, and two runs can be compared action by
action, or a run be read from its beginning to its end.

Main definitions:

* `Action`, `act` — what can happen next, and the state that it leads to;
* `perform` — the state that a list of actions leads to.

Main results:

* `next_iff_act`, `run_iff_perform`, `reachable_iff_perform` — runs are lists of actions;
* `step_eq_stepThread`, `State.isIdle_eq`, `State.passGate_eq` — an action looks at the thread that
  it is about, whether it was heard of or not.
-/

import SchemaGraph.Proofs.Registry.Change

set_option autoImplicit false

namespace SchemaGraph.Registry

variable {ι σ ε ν : Type} {R : Setup ι σ ε ν} {s s' s'' : State ι σ ε ν} {t : ThreadId}

/-! ### Actions -/

/-- What can happen next. -/
inductive Action (σ : Type) where
  /-- a thread takes a step -/
  | step (t : ThreadId)
  /-- an idle thread makes a call -/
  | call (t : ThreadId) (r : Request)
  /-- an idle thread waits for a handle -/
  | await (t : ThreadId) (h : Handle)
  /-- a gate is opened -/
  | openGate (name : String)
  /-- a thread passes a gate -/
  | passGate (t : ThreadId)
  /-- the notes are changed -/
  | note (f : σ → σ)
  /-- a handle to a slot is cloned -/
  | clone (q : SlotId)
  /-- a handle to a slot is dropped -/
  | drop (q : SlotId)

/-- The state that an action leads to, if it can happen. -/
def act (R : Setup ι σ ε ν) (a : Action σ) (s : State ι σ ε ν) : Option (State ι σ ε ν) :=
  match a with
  | .step t => step R t s
  | .call t r => if s.isIdle t then some (s.call R t r) else none
  | .await t h => if s.isIdle t then some (s.await t h) else none
  | .openGate name => some (s.openGate name)
  | .passGate t => some (s.passGate t)
  | .note f => some { s with notes := f s.notes }
  | .clone q => if 0 < s.store.handles q then some (s.withStore (s.store.share q)) else none
  | .drop q => if 0 < s.store.handles q then some (s.withStore (s.store.release q)) else none

/-- The state that actions lead to one after the other, if they can happen. -/
def perform (R : Setup ι σ ε ν) : List (Action σ) → State ι σ ε ν → Option (State ι σ ε ν)
  | [], s => some s
  | a :: as, s => (act R a s).bind (perform R as)

@[simp] theorem perform_nil (R : Setup ι σ ε ν) (s : State ι σ ε ν) : perform R [] s = some s := rfl

theorem perform_cons (R : Setup ι σ ε ν) (a : Action σ) (as : List (Action σ))
    (s : State ι σ ε ν) : perform R (a :: as) s = (act R a s).bind (perform R as) := rfl

theorem perform_append (R : Setup ι σ ε ν) (as bs : List (Action σ)) (s : State ι σ ε ν) :
    perform R (as ++ bs) s = (perform R as s).bind (perform R bs) := by
  induction as generalizing s with
  | nil => rfl
  | cons a as ih =>
      rw [List.cons_append, perform_cons, perform_cons, Option.bind_assoc]
      congr 1
      funext s'
      exact ih s'

theorem next_of_act {a : Action σ} (h : act R a s = some s') : Next R s s' := by
  cases a with
  | step t => exact .step t h
  | call t r =>
      simp only [act, Option.ite_none_right_eq_some, Option.some.injEq] at h
      exact h.2 ▸ .call t r h.1
  | await t x =>
      simp only [act, Option.ite_none_right_eq_some, Option.some.injEq] at h
      exact h.2 ▸ .await t x h.1
  | openGate name => exact Option.some.inj h ▸ .openGate s name
  | passGate t => exact Option.some.inj h ▸ .passGate s t
  | note f => exact Option.some.inj h ▸ .note s f
  | clone q =>
      simp only [act, Option.ite_none_right_eq_some, Option.some.injEq] at h
      exact h.2 ▸ .clone q h.1
  | drop q =>
      simp only [act, Option.ite_none_right_eq_some, Option.some.injEq] at h
      exact h.2 ▸ .drop q h.1

/-- What can happen next are the actions. -/
theorem next_iff_act : Next R s s' ↔ ∃ a, act R a s = some s' := by
  constructor
  · intro h
    cases h with
    | step t h => exact ⟨.step t, h⟩
    | call t r hi => exact ⟨.call t r, by simp [act, hi]⟩
    | await t x hi => exact ⟨.await t x, by simp [act, hi]⟩
    | openGate name => exact ⟨.openGate name, rfl⟩
    | passGate t => exact ⟨.passGate t, rfl⟩
    | note f => exact ⟨.note f, rfl⟩
    | clone q hq => exact ⟨.clone q, by simp [act, hq]⟩
    | drop q hq => exact ⟨.drop q, by simp [act, hq]⟩
  · rintro ⟨a, h⟩
    exact next_of_act h

/-- **Runs are lists of actions.** -/
theorem run_iff_perform : Run R s s' ↔ ∃ as, perform R as s = some s' := by
  constructor
  · intro h
    induction h with
    | refl => exact ⟨[], rfl⟩
    | next _ hn ih =>
        obtain ⟨as, has⟩ := ih
        obtain ⟨a, ha⟩ := next_iff_act.1 hn
        refine ⟨as ++ [a], ?_⟩
        rw [perform_append, has, Option.bind_some, perform_cons, ha]
        rfl
  · rintro ⟨as, h⟩
    induction as generalizing s with
    | nil => exact Option.some.inj h ▸ .refl
    | cons a as ih =>
        rw [perform_cons, Option.bind_eq_some_iff] at h
        obtain ⟨s₁, ha, has⟩ := h
        exact (Run.refl.next (next_of_act ha)).trans (ih has)

theorem steps_of_perform {ts : List ThreadId} (h : perform R (ts.map .step) s = some s') :
    Steps R s s' := by
  induction ts generalizing s with
  | nil => exact Option.some.inj h ▸ .refl s
  | cons t ts ih =>
      rw [List.map_cons, perform_cons, Option.bind_eq_some_iff] at h
      obtain ⟨s₁, hstep, h⟩ := h
      exact .head t hstep (ih h)

theorem reachable_iff_perform : Reachable R s ↔
    ∃ notes asked as, perform R as (State.initial notes asked) = some s := by
  constructor
  · intro h
    induction h with
    | initial notes asked => exact ⟨notes, asked, [], rfl⟩
    | next _ hn ih =>
        obtain ⟨notes, asked, as, has⟩ := ih
        obtain ⟨bs, hbs⟩ := run_iff_perform.1 (Run.refl.next hn)
        exact ⟨notes, asked, as ++ bs, by rw [perform_append, has, Option.bind_some, hbs]⟩
  · rintro ⟨notes, asked, as, h⟩
    exact (Reachable.initial notes asked).run (run_iff_perform.2 ⟨as, h⟩)

/-! ### What an action looks at -/

/-- A thread that was never heard of has no step, like any thread at rest. -/
theorem step_eq_stepThread (R : Setup ι σ ε ν) (t : ThreadId) (s : State ι σ ε ν) :
    step R t s = stepThread R t (s.thread t) s := by
  unfold step State.thread
  cases Dictionary.find? t s.threads <;> rfl

namespace State

theorem isIdle_eq (s : State ι σ ε ν) (t : ThreadId) :
    s.isIdle t = (s.thread t).stage.isResting := by
  unfold isIdle stage? thread
  cases Dictionary.find? t s.threads <;> rfl

theorem passGate_eq (s : State ι σ ε ν) (t : ThreadId) :
    s.passGate t = match s.thread t with
      | ⟨frames, .running (.gate _ next)⟩ => s.put t frames (.running next)
      | _ => s := by
  unfold passGate thread
  cases Dictionary.find? t s.threads with
  | none => rfl
  | some th =>
      obtain ⟨frames, stage⟩ := th
      cases stage with
      | running p => cases p <;> rfl
      | _ => rfl

theorem passGate_of_not_gate (h : ∀ name next, (s.thread t).stage ≠ .running (.gate name next)) :
    s.passGate t = s := by
  rw [passGate_eq]
  split
  · rename_i hth
    exact absurd (congrArg Thread.stage hth) (h _ _)
  · rfl

end State

end SchemaGraph.Registry
