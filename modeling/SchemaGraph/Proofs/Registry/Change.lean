/-
**What a step changes.**

A step of a thread, or an event from outside, touches the table, the slots and the constructions in
one of a few ways.  This module lists them: every other part of a state, such as what is counted and
reported, is set *aside*, and a sleeper that goes on first wakes and then looks up its key like any
other call.  An invariant of table, slots and constructions has to be checked once for each of these
changes, and not for each branch of a step.

Main definitions:

* `State.thread` — a thread; one that was never heard of is at rest;
* `Stage.isCalm` — the thread is neither asleep nor between the moments of an ending construction;
* `Thread.Linked` — a call knows whether it was made from a construction;
* `Change`, `Prelude` — the changes, and those that may precede the effect of a step;
* `Takes` — preludes, and then at most one change;
* `Legal` — the states that changes lead to.

Main results:

* `Next.takes` — **whatever happens is a change after preludes**;
* `Run.changes`, `Reachable.legal` — a run is a sequence of changes.
-/

import Mathlib.Logic.Relation
import SchemaGraph.Registry.Run

set_option autoImplicit false

namespace SchemaGraph.Registry

open Relation (ReflGen ReflTransGen)

variable {ι σ ε ν : Type}

/-! ### Threads -/

/-- A thread that has nothing to do. -/
def Thread.atRest : Thread ι σ ε ν := ⟨[], .panicked ""⟩

/-- A thread; one that was never heard of is at rest. -/
def State.thread (s : State ι σ ε ν) (t : ThreadId) : Thread ι σ ε ν :=
  (Dictionary.find? t s.threads).getD .atRest

/-- The thread is neither asleep nor between the moments in which a construction ends. -/
def Stage.isCalm : Stage ι σ ε ν → Bool
  | .asleep .. | .fulfilling .. | .ending .. => false
  | _ => true

/-- A call is made from a construction exactly when there is one below it. -/
def Call.From (c : Call ι σ ε ν) (frames : List (Frame ι σ ε ν)) : Prop :=
  c.resume = none ↔ frames = []

/-- The constructions that a thread has in progress suit what it does next. -/
def Stage.Fits (frames : List (Frame ι σ ε ν)) : Stage ι σ ε ν → Prop
  | .running _ => frames ≠ []
  | .looking c _ | .asleep c _ | .ending c _ | .reporting c _ _ | .failing c _ => c.From frames
  | .fulfilling f _ => f.call.From frames
  | .awaiting _ | .returned _ | .panicked _ | .awaited _ => frames = []

/-- Each construction was asked for by the one below it. -/
def Nested : List (Frame ι σ ε ν) → Prop
  | [] => True
  | f :: frames => f.call.From frames ∧ Nested frames

/-- Each call of a thread knows whether it was made from a construction. -/
structure Thread.Linked (th : Thread ι σ ε ν) : Prop where
  fits : th.stage.Fits th.frames
  nested : Nested th.frames

/-- An answer that names an instance names the one of the table. -/
def Stage.Answers (T : Table) : Stage ι σ ε ν → Prop
  | .reporting c _ h =>
    ∃ i, h = ⟨c.key, c.reference, .ready i⟩ ∧ Dictionary.find? c.key T.entries = some (.ready i)
  | _ => True

theorem Stage.fits_answered {resume : Option (Except (RegistryError ε) Handle → Program ι σ ε ν)}
    {frames : List (Frame ι σ ε ν)} (h : resume = none ↔ frames = [])
    (a : Except (RegistryError ε) Handle) : (Stage.answered resume a).Fits frames := by
  cases resume with
  | none => exact h.1 rfl
  | some k => exact fun hf => Option.some_ne_none k (h.2 hf)

theorem Call.fits_deliverFailure {c : Call ι σ ε ν} {frames : List (Frame ι σ ε ν)}
    (h : c.From frames) (f : Failure ε) : (c.deliverFailure f).Fits frames := by
  cases f with
  | error e => exact Stage.fits_answered h _
  | panic message =>
      cases hr : c.resume with
      | none => simpa [deliverFailure, hr, Stage.Fits] using h.1 hr
      | some k =>
          have hf : frames ≠ [] := fun hf => by simp [h.2 hf] at hr
          simpa [deliverFailure, hr, Stage.Fits] using hf

theorem Stage.isCalm_of_isResting {stage : Stage ι σ ε ν} (h : stage.isResting = true) :
    stage.isCalm = true := by
  cases stage <;> simp_all [isResting, isCalm]

@[simp] theorem Stage.isCalm_answered
    (resume : Option (Except (RegistryError ε) Handle → Program ι σ ε ν))
    (a : Except (RegistryError ε) Handle) : (Stage.answered resume a).isCalm = true := by
  cases resume <;> rfl

@[simp] theorem Stage.answers_answered (T : Table)
    (resume : Option (Except (RegistryError ε) Handle → Program ι σ ε ν))
    (a : Except (RegistryError ε) Handle) : (Stage.answered resume a).Answers T := by
  cases resume <;> trivial

@[simp] theorem Call.isCalm_deliver (c : Call ι σ ε ν) (a : Except (RegistryError ε) Handle) :
    (c.deliver a).isCalm = true := Stage.isCalm_answered _ _

@[simp] theorem Call.answers_deliver (T : Table) (c : Call ι σ ε ν)
    (a : Except (RegistryError ε) Handle) : (c.deliver a).Answers T := Stage.answers_answered _ _ _

@[simp] theorem Call.isCalm_deliverFailure (c : Call ι σ ε ν) (f : Failure ε) :
    (c.deliverFailure f).isCalm = true := by
  cases f with
  | error e => exact isCalm_deliver _ _
  | panic message => cases hr : c.resume <;> simp [deliverFailure, hr, Stage.isCalm]

@[simp] theorem Call.answers_deliverFailure (T : Table) (c : Call ι σ ε ν) (f : Failure ε) :
    (c.deliverFailure f).Answers T := by
  cases f with
  | error e => exact answers_deliver _ _ _
  | panic message => cases hr : c.resume <;> simp [deliverFailure, hr, Stage.Answers]

namespace State

@[simp] theorem store_put (s : State ι σ ε ν) (t : ThreadId) (frames : List (Frame ι σ ε ν))
    (stage : Stage ι σ ε ν) : (s.put t frames stage).store = s.store := rfl

@[simp] theorem store_withStore (s : State ι σ ε ν) (S : Store ι) : (s.withStore S).store = S := rfl

@[simp] theorem threads_withStore (s : State ι σ ε ν) (S : Store ι) :
    (s.withStore S).threads = s.threads := rfl

theorem thread_put (s : State ι σ ε ν) (t u : ThreadId) (frames : List (Frame ι σ ε ν))
    (stage : Stage ι σ ε ν) :
    (s.put t frames stage).thread u = if t = u then ⟨frames, stage⟩ else s.thread u := by
  by_cases h : t = u <;> simp [thread, put, Dictionary.find?_set, h]

@[simp] theorem thread_put_self (s : State ι σ ε ν) (t : ThreadId)
    (frames : List (Frame ι σ ε ν)) (stage : Stage ι σ ε ν) :
    (s.put t frames stage).thread t = ⟨frames, stage⟩ := by
  simp [thread_put]

theorem thread_put_of_ne {t u : ThreadId} (h : t ≠ u) (s : State ι σ ε ν)
    (frames : List (Frame ι σ ε ν)) (stage : Stage ι σ ε ν) :
    (s.put t frames stage).thread u = s.thread u := by
  simp [thread_put, h]

@[simp] theorem thread_notifyAll (s : State ι σ ε ν) (t : ThreadId) :
    s.notifyAll.thread t = (s.thread t).notify := by
  simp only [thread, notifyAll, Dictionary.find?_map]
  cases Dictionary.find? t s.threads <;> rfl

theorem thread_of_find? {s : State ι σ ε ν} {t : ThreadId} {th : Thread ι σ ε ν}
    (h : Dictionary.find? t s.threads = some th) : s.thread t = th := by
  simp [thread, h]

/-- A thread that is not at rest is known. -/
theorem find?_of_thread {s : State ι σ ε ν} {t : ThreadId} {th : Thread ι σ ε ν}
    (h : s.thread t = th) (hne : th ≠ .atRest) : Dictionary.find? t s.threads = some th := by
  simp only [thread] at h
  cases hfind : Dictionary.find? t s.threads with
  | none =>
      rw [hfind, Option.getD_none] at h
      exact absurd h.symm hne
  | some th' => rw [← h, hfind, Option.getD_some]

theorem thread_of_stage? {s : State ι σ ε ν} {t : ThreadId} {stage : Stage ι σ ε ν}
    (hst : s.stage? t = some stage) : (s.thread t).stage = stage := by
  simp only [stage?, Option.map_eq_some_iff] at hst
  obtain ⟨th, hth, rfl⟩ := hst
  rw [thread_of_find? hth]

/-- What holds of the threads that are listed, and of a thread at rest, holds of all. -/
theorem forall_thread {P : Thread ι σ ε ν → Prop} {s : State ι σ ε ν} (hrest : P .atRest)
    (h : ∀ p ∈ s.threads, P p.2) (t : ThreadId) : P (s.thread t) := by
  cases hf : Dictionary.find? t s.threads with
  | none => simpa [thread, hf] using hrest
  | some th =>
      rw [thread_of_find? hf]
      exact h _ (Dictionary.mem_of_find? hf)

@[simp] theorem put_put (s : State ι σ ε ν) (t : ThreadId) (frames frames' : List (Frame ι σ ε ν))
    (stage stage' : Stage ι σ ε ν) :
    (s.put t frames stage).put t frames' stage' = s.put t frames' stage' := by
  simp [put]

@[simp] theorem withStore_put (s : State ι σ ε ν) (t : ThreadId)
    (frames : List (Frame ι σ ε ν)) (stage : Stage ι σ ε ν) (S : Store ι) :
    (s.put t frames stage).withStore S = (s.withStore S).put t frames stage := rfl

@[simp] theorem store_tellAll (s : State ι σ ε ν) (t : ThreadId) (ns : List (Notice ε ν)) :
    (s.tellAll t ns).store = s.store := by
  induction ns generalizing s with
  | nil => rfl
  | cons n ns ih => exact ih (s.tell t n)

@[simp] theorem threads_tellAll (s : State ι σ ε ν) (t : ThreadId) (ns : List (Notice ε ν)) :
    (s.tellAll t ns).threads = s.threads := by
  induction ns generalizing s with
  | nil => rfl
  | cons n ns ih => exact ih (s.tell t n)

@[simp] theorem store_announce (t : ThreadId) (frames : List (Frame ι σ ε ν)) (c : Call ι σ ε ν)
    (result : Except (Failure ε) InstanceId) (s : State ι σ ε ν) :
    (announce t frames c result s).store = s.store := rfl

theorem thread_announce_self (t : ThreadId) (frames : List (Frame ι σ ε ν)) (c : Call ι σ ε ν)
    (result : Except (Failure ε) InstanceId) (s : State ι σ ε ν) :
    (announce t frames c result s).thread t = ⟨frames, match result with
      | .ok i => .reporting c .miss ⟨c.key, c.reference, .ready i⟩
      | .error failure => .failing c failure⟩ :=
  thread_put_self ..

theorem thread_announce_of_ne {t u : ThreadId} (h : t ≠ u) (frames : List (Frame ι σ ε ν))
    (c : Call ι σ ε ν) (result : Except (Failure ε) InstanceId) (s : State ι σ ε ν) :
    (announce t frames c result s).thread u = (s.thread u).notify := by
  rw [← thread_notifyAll]
  exact thread_put_of_ne h _ _ _

theorem thread_congr {s s' : State ι σ ε ν} (h : s'.threads = s.threads) (t : ThreadId) :
    s'.thread t = s.thread t := by
  simp [thread, h]

end State

@[simp] theorem Thread.frames_notify (th : Thread ι σ ε ν) : th.notify.frames = th.frames := by
  obtain ⟨frames, stage⟩ := th
  cases stage <;> rfl

/-! ### Changes -/

/-- A thread can go on from one stage to another without a change of the table or of its
constructions. -/
structure Passes (T : Table) (frames : List (Frame ι σ ε ν)) (stage stage' : Stage ι σ ε ν) :
    Prop where
  calm : stage.isCalm = true
  calm_next : stage'.isCalm = true
  fits : stage.Fits frames → stage'.Fits frames
  answers : stage'.Answers T

/-- What may precede the effect of a step. -/
inductive Prelude : State ι σ ε ν → State ι σ ε ν → Prop where
  /-- nothing changes but what is counted, reported or noted -/
  | aside {s s' : State ι σ ε ν} : s'.threads = s.threads → s'.store.table = s.store.table →
      s'.store.slots = s.store.slots → s'.store.instances = s.store.instances → Prelude s s'
  /-- a sleeper that was notified wakes -/
  | wake {s : State ι σ ε ν} {t : ThreadId} {frames : List (Frame ι σ ε ν)}
      {c : Call ι σ ε ν} :
      s.thread t = ⟨frames, .asleep c true⟩ →
      Prelude s ((s.withStore (s.store.wake t)).put t frames (.looking c true))

/-- What a step of a thread, or an event from outside, changes. -/
inductive Change : State ι σ ε ν → State ι σ ε ν → Prop where
  /-- nothing but a prelude -/
  | prelude {s s' : State ι σ ε ν} : Prelude s s' → Change s s'
  /-- a thread goes on to another stage -/
  | pass {s : State ι σ ε ν} {t : ThreadId} {frames : List (Frame ι σ ε ν)}
      {stage stage' : Stage ι σ ε ν} :
      s.thread t = ⟨frames, stage⟩ → Passes s.store.table frames stage stage' →
      Change s (s.put t frames stage')
  /-- a thread at rest begins something -/
  | arrive {s : State ι σ ε ν} {t : ThreadId} {stage : Stage ι σ ε ν} :
      (s.thread t).stage.isResting = true → stage.isCalm = true → stage.Fits [] →
      stage.Answers s.store.table → Change s (s.put t [] stage)
  /-- a call takes a forward reference -/
  | share {s : State ι σ ε ν} {t u : ThreadId} {frames : List (Frame ι σ ε ν)}
      {c : Call ι σ ε ν} {w : Bool} {q : SlotId} :
      s.thread t = ⟨frames, .looking c w⟩ →
      Dictionary.find? c.key s.store.table.entries = some (.pending u q) →
      Change s ((s.withStore (s.store.share q)).put t frames
        (.reporting c .deferred ⟨c.key, c.reference, .slot q⟩))
  /-- a call goes to sleep, which closes no cycle -/
  | sleep {s : State ι σ ε ν} {t u : ThreadId} {frames : List (Frame ι σ ε ν)}
      {c : Call ι σ ε ν} {w : Bool} {q : SlotId} :
      s.thread t = ⟨frames, .looking c w⟩ →
      Dictionary.find? c.key s.store.table.entries = some (.pending u q) →
      s.store.table.closesWaitCycle u t = false →
      Change s ((s.withStore (s.store.sleep t c.key)).put t frames (.asleep c false))
  /-- a construction begins -/
  | claim {s : State ι σ ε ν} {t : ThreadId} {frames : List (Frame ι σ ε ν)}
      {c : Call ι σ ε ν} {w : Bool} (p : Program ι σ ε ν) :
      s.thread t = ⟨frames, .looking c w⟩ →
      Dictionary.find? c.key s.store.table.entries = none →
      Change s ((s.withStore (s.store.claim t c.key).2).put t
        (⟨c, (s.store.claim t c.key).1⟩ :: frames) (.running p))
  /-- a construction succeeds, and its instance is published -/
  | publish {s : State ι σ ε ν} {t : ThreadId} {f : Frame ι σ ε ν}
      {frames : List (Frame ι σ ε ν)} {y : Yield ι} :
      s.thread t = ⟨f :: frames, .running (.done y)⟩ →
      Change s ((s.withStore (s.store.publish f.call.key y)).put t frames
        (.fulfilling f (s.store.place y)))
  /-- the slot of a published instance is fulfilled -/
  | fulfil {s : State ι σ ε ν} {t : ThreadId} {frames : List (Frame ι σ ε ν)}
      {f : Frame ι σ ε ν} {i : InstanceId} :
      s.thread t = ⟨frames, .fulfilling f i⟩ →
      Change s ((s.withStore (s.store.fulfil f.slot i)).put t frames (.ending f.call (.ok i)))
  /-- a construction fails, and its key is forgotten -/
  | rollBack {s : State ι σ ε ν} {t : ThreadId} {f : Frame ι σ ε ν}
      {frames : List (Frame ι σ ε ν)} {p : Program ι σ ε ν} {failure : Failure ε} :
      s.thread t = ⟨f :: frames, .running p⟩ →
      Change s ((s.withStore (s.store.rollBack f.call.key f.slot)).put t frames
        (.ending f.call (.error failure)))
  /-- the sleepers are notified that a construction has ended -/
  | announce {s : State ι σ ε ν} {t : ThreadId} {frames : List (Frame ι σ ε ν)}
      {c : Call ι σ ε ν} {result : Except (Failure ε) InstanceId} :
      s.thread t = ⟨frames, .ending c result⟩ → Change s (announce t frames c result s)
  /-- a handle to a slot is cloned -/
  | clone {s : State ι σ ε ν} {q : SlotId} : 0 < s.store.handles q →
      Change s (s.withStore (s.store.share q))
  /-- a handle to a slot is dropped -/
  | drop {s : State ι σ ε ν} {q : SlotId} : 0 < s.store.handles q →
      Change s (s.withStore (s.store.release q))

/-- Preludes, and then at most one change. -/
def Takes (s s' : State ι σ ε ν) : Prop :=
  ∃ s₁, ReflTransGen Prelude s s₁ ∧ ReflGen Change s₁ s'

/-- The states that changes lead to from a registry before any call. -/
inductive Legal : State ι σ ε ν → Prop where
  | initial (notes : σ) (asked : Nat) : Legal (State.initial notes asked)
  | change {s s' : State ι σ ε ν} : Legal s → Change s s' → Legal s'

theorem Legal.changes {s s' : State ι σ ε ν} (hs : Legal s) (h : ReflTransGen Change s s') :
    Legal s' := by
  induction h with
  | refl => exact hs
  | tail _ hc ih => exact ih.change hc

namespace Takes

variable {s s₁ s' : State ι σ ε ν}

theorem of_change (h : Change s s') : Takes s s' := ⟨s, .refl, .single h⟩

theorem after (hp : Prelude s s₁) (h : Takes s₁ s') : Takes s s' := by
  obtain ⟨s₂, hs, hc⟩ := h
  exact ⟨s₂, .head hp hs, hc⟩

theorem refl (s : State ι σ ε ν) : Takes s s := ⟨s, .refl, .refl⟩

theorem changes (h : Takes s s') : ReflTransGen Change s s' := by
  obtain ⟨s₁, hp, hc⟩ := h
  have hp' : ReflTransGen Change s s₁ :=
    Relation.ReflTransGen.mono (fun _ _ h => Change.prelude h) _ _ hp
  exact hp'.trans hc.to_reflTransGen

end Takes

/-! ### Steps take changes -/

variable {R : Setup ι σ ε ν} {s s' : State ι σ ε ν} {t : ThreadId} {frames : List (Frame ι σ ε ν)}

/-- The next stage of a caller after an answer. -/
theorem passes_deliver {T : Table} {stage : Stage ι σ ε ν} {c : Call ι σ ε ν}
    (hcalm : stage.isCalm = true) (h : stage.Fits frames → c.From frames)
    (a : Except (RegistryError ε) Handle) : Passes T frames stage (c.deliver a) :=
  ⟨hcalm, by simp, fun hf => Stage.fits_answered (h hf) a, by simp⟩

/-- A call that begins leads its thread to a calm stage, and reports at most its identity. -/
theorem enter_eq (R : Setup ι σ ε ν) (t : ThreadId) (frames : List (Frame ι σ ε ν)) (r : Request)
    (resume : Option (Except (RegistryError ε) Handle → Program ι σ ε ν))
    (h : resume = none ↔ frames = []) (s : State ι σ ε ν) :
    ∃ (s₁ : State ι σ ε ν) (stage : Stage ι σ ε ν), enter R t frames r resume s
        = s₁.put t frames stage ∧ s₁.threads = s.threads ∧ s₁.store = s.store ∧
      stage.isCalm = true ∧ stage.Fits frames ∧ stage.Answers s.store.table := by
  cases hk : Key.ofIdentifier r.identifier r.context with
  | error reason =>
      simp only [enter, hk]
      exact ⟨s, _, rfl, rfl, rfl, Stage.isCalm_answered _ _, Stage.fits_answered h _,
        Stage.answers_answered _ _ _⟩
  | ok key =>
      simp only [enter, hk]
      refine ⟨_, .looking ⟨r, key, r.reference, resume⟩ false, rfl, ?_, ?_, rfl, h, trivial⟩
      · split <;> rfl
      · split <;> rfl

/-- A call that finds no entry is refused, or begins a construction. -/
theorem takes_begin {c : Call ι σ ε ν} {w : Bool} (hth : s.thread t = ⟨frames, .looking c w⟩)
    (hnone : Dictionary.find? c.key s.store.table.entries = none) :
    Takes s (begin R t frames c s) := by
  cases hf : Dictionary.find? c.request.identifier.name R.factories with
  | none =>
      simp only [begin, hf]
      exact .of_change (.pass hth (passes_deliver rfl id _))
  | some factory =>
      -- the question to the family is set aside before its answer takes effect
      have hask : Prelude s (s.withStore s.store.ask) := .aside rfl rfl rfl rfl
      simp only [begin, hf]
      split
      · exact .after hask (.of_change (.claim _ hth hnone))
      · exact .after hask (.of_change (.pass hth (passes_deliver rfl id _)))

/-- A call looks up its key. -/
theorem takes_look {c : Call ι σ ε ν} {w : Bool} (hth : s.thread t = ⟨frames, .looking c w⟩) :
    Takes s (look R t frames c w s) := by
  cases he : Dictionary.find? c.key s.store.table.entries with
  | none =>
      simp only [look, he]
      exact takes_begin hth he
  | some e =>
      cases e with
      | ready i =>
          simp only [look, he]
          exact .of_change (.pass hth ⟨rfl, rfl, id, i, rfl, he⟩)
      | pending u q =>
          simp only [look, he]
          split
          · exact .of_change (.share hth he)
          · rename_i hd
            have hcycle : s.store.table.closesWaitCycle u t = false := by
              simp only [defers, Bool.or_eq_true, not_or] at hd
              simpa using hd.2
            exact .of_change (.sleep hth he hcycle)

/-- Looking up a key does not depend on what the thread did before. -/
theorem look_put (R : Setup ι σ ε ν) (t : ThreadId) (frames frames' : List (Frame ι σ ε ν))
    (c : Call ι σ ε ν) (w : Bool) (stage : Stage ι σ ε ν) (s : State ι σ ε ν) :
    look R t frames c w (s.put t frames' stage) = look R t frames c w s := by
  simp only [look, begin, State.store_put, State.withStore_put, State.put_put]

/-- The factory of the innermost construction goes on. -/
theorem takes_runProgram {f : Frame ι σ ε ν} {p : Program ι σ ε ν}
    (hth : s.thread t = ⟨f :: frames, .running p⟩) (h : runProgram R t f frames p s = some s') :
    Takes s s' := by
  have hrun : ∀ (T : Table) (q : Program ι σ ε ν),
      Passes T (f :: frames) (.running p) (.running q) :=
    fun T q => ⟨rfl, rfl, id, trivial⟩
  cases p with
  | done x =>
      simp only [runProgram, Option.some.injEq] at h
      exact h ▸ .of_change (.publish hth)
  | fail e =>
      simp only [runProgram, undo, Option.some.injEq] at h
      exact h ▸ .of_change (.rollBack hth)
  | panic message =>
      simp only [runProgram, undo, Option.some.injEq] at h
      have ht : Prelude s (s.tell t (.constructionPanicked f.call.key)) := .aside rfl rfl rfl rfl
      exact h ▸ Takes.after ht (.of_change (.rollBack hth))
  | resolve r k =>
      simp only [runProgram, Option.some.injEq] at h
      obtain ⟨s₁, stage, he, ht, hs, hcalm, hfits, ha⟩ :=
        enter_eq R t (f :: frames) r (some k) (by simp) s
      rw [← h, he]
      refine .after (.aside ht (by rw [hs]) (by rw [hs]) (by rw [hs])) (.of_change ?_)
      exact .pass ((State.thread_congr ht t).trans hth) ⟨rfl, hcalm, fun _ => hfits, hs ▸ ha⟩
  | note g k =>
      simp only [runProgram, Option.some.injEq] at h
      have hn : Prelude s { s with notes := g s.notes } := .aside rfl rfl rfl rfl
      exact h ▸ Takes.after hn (.of_change (.pass hth (hrun _ _)))
  | inspect k =>
      simp only [runProgram, Option.some.injEq] at h
      exact h ▸ .of_change (.pass hth (hrun _ _))
  | say event next =>
      simp only [runProgram, Option.some.injEq] at h
      have ht : Prelude s (s.tell t (.said event)) := .aside rfl rfl rfl rfl
      exact h ▸ Takes.after ht (.of_change (.pass hth (hrun _ _)))
  | gate name next =>
      simp only [runProgram, Option.ite_none_right_eq_some, Option.some.injEq] at h
      exact h.2 ▸ .of_change (.pass hth (hrun _ _))

/-- An answer is counted, reported and delivered. -/
theorem takes_report {c : Call ι σ ε ν} {o : Outcome} {h : Handle}
    (hth : s.thread t = ⟨frames, .reporting c o h⟩) :
    Takes s (report R t frames c o h s) := by
  have ht : ((s.withStore (s.store.count o)).tellAll t
      (R.sink.notices c.reference c.key o)).threads = s.threads := by simp
  refine .after (.aside ht ?_ ?_ ?_) (.of_change
    (.pass ((State.thread_congr ht t).trans hth) (passes_deliver rfl id _))) <;> simp [Store.count]

/-- A failure is counted, reported and delivered. -/
theorem takes_reportFailure {c : Call ι σ ε ν} {failure : Failure ε}
    (hth : s.thread t = ⟨frames, .failing c failure⟩) :
    Takes s (reportFailure t frames c failure s) := by
  have hpass : ∀ T : Table, Passes T frames (.failing c failure) (c.deliverFailure failure) :=
    fun T => ⟨rfl, by simp, fun hf => Call.fits_deliverFailure hf _, by simp⟩
  cases failure with
  | error e =>
      refine .after (?_ : Prelude s _) (.of_change (.pass ?_ (hpass _)))
      · exact .aside rfl rfl rfl rfl
      · exact hth
  | panic message =>
      refine .after (?_ : Prelude s _) (.of_change (.pass ?_ (hpass _)))
      · exact .aside rfl rfl rfl rfl
      · exact hth

/-- **One step of one thread is a change after preludes.** -/
theorem takes_step (h : step R t s = some s') : Takes s s' := by
  simp only [step, Option.bind_eq_some_iff] at h
  obtain ⟨⟨frames, stage⟩, hfind, h⟩ := h
  have hth := State.thread_of_find? hfind
  cases stage with
  | running p =>
      cases frames with
      | nil => simp [stepThread] at h
      | cons f frames => exact takes_runProgram hth h
  | looking c w =>
      simp only [stepThread, Option.some.injEq] at h
      exact h ▸ takes_look hth
  | asleep c notified =>
      cases notified with
      | false => simp [stepThread] at h
      | true =>
          simp only [stepThread, Option.some.injEq] at h
          rw [← h, ← look_put R t frames frames c true (.looking c true)]
          exact .after (.wake hth) (takes_look (State.thread_put_self ..))
  | fulfilling f i =>
      simp only [stepThread, Option.some.injEq] at h
      exact h ▸ .of_change (.fulfil hth)
  | ending c result =>
      simp only [stepThread, Option.some.injEq] at h
      exact h ▸ .of_change (.announce hth)
  | reporting c o x =>
      simp only [stepThread, Option.some.injEq] at h
      exact h ▸ takes_report hth
  | failing c failure =>
      simp only [stepThread, Option.some.injEq] at h
      exact h ▸ takes_reportFailure hth
  | awaiting x =>
      simp only [stepThread, Option.ite_none_left_eq_some, Option.some.injEq] at h
      exact h.2 ▸ .of_change (.pass hth ⟨rfl, rfl, id, trivial⟩)
  | returned a => simp [stepThread] at h
  | panicked message => simp [stepThread] at h
  | awaited a => simp [stepThread] at h

theorem State.isResting_of_isIdle (h : s.isIdle t = true) :
    (s.thread t).stage.isResting = true := by
  simp only [isIdle, stage?, thread] at h ⊢
  cases hf : Dictionary.find? t s.threads with
  | none => rfl
  | some th => simpa [hf] using h

/-- **Whatever happens is a change after preludes.** -/
theorem Next.takes (h : Next R s s') : Takes s s' := by
  cases h with
  | step t h => exact takes_step h
  | call t r hi =>
      obtain ⟨s₁, stage, he, ht, hs, hcalm, hfits, ha⟩ := enter_eq R t [] r none (by simp) s
      have hr := State.isResting_of_isIdle hi
      rw [State.call, he]
      refine .after (.aside ht (by rw [hs]) (by rw [hs]) (by rw [hs])) (.of_change ?_)
      exact .arrive (by rw [State.thread_congr ht]; exact hr) hcalm hfits (by rw [hs]; exact ha)
  | await t x hi => exact .of_change (.arrive (State.isResting_of_isIdle hi) rfl rfl trivial)
  | openGate => exact .of_change (.prelude (.aside rfl rfl rfl rfl))
  | passGate t =>
      unfold State.passGate
      split
      · rename_i frames name next hf
        exact .of_change (.pass (State.thread_of_find? hf) ⟨rfl, rfl, id, trivial⟩)
      · exact .refl s
  | note => exact .of_change (.prelude (.aside rfl rfl rfl rfl))
  | clone q hq => exact .of_change (.clone hq)
  | drop q hq => exact .of_change (.drop hq)

theorem Run.changes (h : Run R s s') : ReflTransGen Change s s' := by
  induction h with
  | refl => exact .refl
  | next _ hn ih => exact ih.trans hn.takes.changes

/-- **The reachable states are among those that changes lead to.** -/
theorem Reachable.legal (h : Reachable R s) : Legal s := by
  induction h with
  | initial notes asked => exact .initial notes asked
  | next _ hn ih => exact ih.changes hn.takes.changes

end SchemaGraph.Registry
