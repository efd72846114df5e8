/-
**Runs of a registry.**

A run interleaves the steps of any threads with calls and other events from outside.  A single
thread is run by taking its steps until there is none; how many steps that takes depends on the
factories, so the number of steps is bounded from outside.

Main definitions:

* `Next` — what can happen next, by a thread or from outside;
* `Reachable`, `Run` — the states that some run leads to, and the runs from a state;
* `Steps` — the states that steps alone lead to;
* `runThread` — at most so many steps of one thread;
* `Reply`, `resolve` — one call of a registry with a single thread, run to its end.

Main results:

* `Reachable.run`, `Reachable.of_steps` — runs and steps keep within the reachable states;
* `steps_runThread` — running a thread takes steps;
* `runThread_add` — a longer run goes on where a shorter one stops.
-/

import SchemaGraph.Registry.Machine

set_option autoImplicit false

namespace SchemaGraph.Registry

variable {ι σ ε ν : Type}

/-! ### Reachable states -/

/-- What can happen next: a thread takes a step, or something happens from outside. -/
inductive Next (R : Setup ι σ ε ν) : State ι σ ε ν → State ι σ ε ν → Prop where
  /-- a thread takes a step -/
  | step {s s' : State ι σ ε ν} (t : ThreadId) : step R t s = some s' → Next R s s'
  /-- an idle thread makes a call -/
  | call {s : State ι σ ε ν} (t : ThreadId) (r : Request) :
      s.isIdle t = true → Next R s (s.call R t r)
  /-- an idle thread waits for a handle -/
  | await {s : State ι σ ε ν} (t : ThreadId) (h : Handle) :
      s.isIdle t = true → Next R s (s.await t h)
  /-- a gate is opened -/
  | openGate (s : State ι σ ε ν) (name : String) : Next R s (s.openGate name)
  /-- a thread passes a gate -/
  | passGate (s : State ι σ ε ν) (t : ThreadId) : Next R s (s.passGate t)
  /-- the notes are changed -/
  | note (s : State ι σ ε ν) (f : σ → σ) : Next R s { s with notes := f s.notes }
  /-- a handle to a slot is cloned -/
  | clone {s : State ι σ ε ν} (q : SlotId) :
      0 < s.store.handles q → Next R s (s.withStore (s.store.share q))
  /-- a handle to a slot is dropped -/
  | drop {s : State ι σ ε ν} (q : SlotId) :
      0 < s.store.handles q → Next R s (s.withStore (s.store.release q))

/-- The states that a run leads to. -/
inductive Reachable (R : Setup ι σ ε ν) : State ι σ ε ν → Prop where
  /-- no call was made yet -/
  | initial (notes : σ) (asked : Nat) : Reachable R (State.initial notes asked)
  /-- something happens -/
  | next {s s' : State ι σ ε ν} : Reachable R s → Next R s s' → Reachable R s'

/-- A run from one state to another. -/
inductive Run (R : Setup ι σ ε ν) (s : State ι σ ε ν) : State ι σ ε ν → Prop where
  | refl : Run R s s
  | next {s' s'' : State ι σ ε ν} : Run R s s' → Next R s' s'' → Run R s s''

theorem Reachable.run {R : Setup ι σ ε ν} {s s' : State ι σ ε ν} (hs : Reachable R s)
    (h : Run R s s') : Reachable R s' := by
  induction h with
  | refl => exact hs
  | next _ hn ih => exact ih.next hn

/-- The states that steps alone lead to. -/
inductive Steps (R : Setup ι σ ε ν) : State ι σ ε ν → State ι σ ε ν → Prop where
  | refl (s : State ι σ ε ν) : Steps R s s
  | head {s s' s'' : State ι σ ε ν} (t : ThreadId) :
      step R t s = some s' → Steps R s' s'' → Steps R s s''

theorem Run.trans {R : Setup ι σ ε ν} {s s' s'' : State ι σ ε ν} (h : Run R s s')
    (h' : Run R s' s'') : Run R s s'' := by
  induction h' with
  | refl => exact h
  | next _ hn ih => exact ih.next hn

theorem Run.of_steps {R : Setup ι σ ε ν} {s s' : State ι σ ε ν} (h : Steps R s s') :
    Run R s s' := by
  induction h with
  | refl s => exact .refl
  | head t hstep _ ih => exact (Run.refl.next (.step t hstep)).trans ih

theorem Reachable.of_steps {R : Setup ι σ ε ν} {s s' : State ι σ ε ν} (hs : Reachable R s)
    (h : Steps R s s') : Reachable R s' := hs.run (.of_steps h)

/-! ### Running one thread -/

/-- At most so many steps of one thread. -/
def runThread (R : Setup ι σ ε ν) (t : ThreadId) : Nat → State ι σ ε ν → State ι σ ε ν
  | 0, s => s
  | n + 1, s =>
    match step R t s with
    | some s' => runThread R t n s'
    | none => s

@[simp] theorem runThread_zero (R : Setup ι σ ε ν) (t : ThreadId) (s : State ι σ ε ν) :
    runThread R t 0 s = s := rfl

theorem runThread_succ (R : Setup ι σ ε ν) (t : ThreadId) (n : Nat) (s : State ι σ ε ν) :
    runThread R t (n + 1) s = ((step R t s).map (runThread R t n)).getD s := by
  simp only [runThread]
  cases step R t s <;> rfl

theorem runThread_of_none {R : Setup ι σ ε ν} {t : ThreadId} {s : State ι σ ε ν}
    (h : step R t s = none) (n : Nat) : runThread R t n s = s := by
  cases n with
  | zero => rfl
  | succ n => simp [runThread_succ, h]

theorem runThread_add (R : Setup ι σ ε ν) (t : ThreadId) (m n : Nat) (s : State ι σ ε ν) :
    runThread R t (m + n) s = runThread R t n (runThread R t m s) := by
  induction m generalizing s with
  | zero => simp
  | succ m ih =>
      rw [Nat.succ_add, runThread_succ, runThread_succ]
      cases h : step R t s with
      | none => simp [runThread_of_none h]
      | some s' => simpa using ih s'

theorem steps_runThread (R : Setup ι σ ε ν) (t : ThreadId) (n : Nat) (s : State ι σ ε ν) :
    Steps R s (runThread R t n s) := by
  induction n generalizing s with
  | zero => exact .refl s
  | succ n ih =>
      rw [runThread_succ]
      cases h : step R t s with
      | none => exact .refl s
      | some s' => exact .head t h (ih s')

theorem run_runThread (R : Setup ι σ ε ν) (t : ThreadId) (n : Nat) (s : State ι σ ε ν) :
    Run R s (runThread R t n s) := .of_steps (steps_runThread R t n s)

/-! ### One call of a single thread -/

/-- How a call ended. -/
inductive Reply (ε : Type) where
  | answer (a : Except (RegistryError ε) Handle)
  | panicked (message : String)
  /-- the steps did not suffice, or the thread stands still -/
  | unfinished

/-- The reply of a thread whose call is over. -/
def State.reply (s : State ι σ ε ν) (t : ThreadId) : Reply ε :=
  match s.stage? t with
  | some (.returned a) => .answer a
  | some (.panicked message) => .panicked message
  | _ => .unfinished

/-- A call of a single thread, run to its end within so many steps. -/
def resolve (R : Setup ι σ ε ν) (fuel : Nat) (r : Request) (s : State ι σ ε ν) :
    Reply ε × State ι σ ε ν :=
  let s := runThread R 0 fuel (s.call R 0 r)
  (s.reply 0, s)

theorem run_resolve {R : Setup ι σ ε ν} {s : State ι σ ε ν} (hidle : s.isIdle 0 = true)
    (fuel : Nat) (r : Request) : Run R s (resolve R fuel r s).2 :=
  (Run.refl.next (.call 0 r hidle)).trans (run_runThread R 0 fuel _)

end SchemaGraph.Registry
