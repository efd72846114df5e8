/-
**Factories that stop at the first error.**

A factory is orderly when each of its requests is of a kind that is known from what it constructs,
and when it fails with the first error that a request is answered with.  If all factories of a
registry are orderly, no construction breaks off, and an error travels outwards without stopping:
from the moment a construction fails until the outermost call returns, its thread only undoes the
constructions around it and reports their failure.

Main definitions:

* `Program.Orderly`, `Setup.Orderly` — a program, and all factories, stop at the first error;
* `Call.Follows`, `Thread.Orderly` — **the invariant**: what every continuation will do;
* `Stage.isLeaving` — an error is on its way out.

Main results:

* `Reachable.orderly` — the invariant holds in every state of a run;
* `runThread_leaving` — **no request is made on the way out**;
* `runThread_ne_panicked` — no call breaks off.
-/

import SchemaGraph.Proofs.Registry.Reply

set_option autoImplicit false

namespace SchemaGraph.Registry

variable {ι σ ε ν : Type} {R : Setup ι σ ε ν} {A : Request → Request → Prop}
  {s s' : State ι σ ε ν} {t : ThreadId} {frames : List (Frame ι σ ε ν)} {c : Call ι σ ε ν}

/-! ### Orderly programs -/

/-- The program makes requests of a kind, and fails with the first error that it is answered
with. -/
inductive Program.Orderly (P : Request → Prop) : Program ι σ ε ν → Prop where
  | done (y : Yield ι) : Orderly P (.done y)
  | fail (e : RegistryError ε) : Orderly P (.fail e)
  | resolve {r : Request} {next : Answer ε → Program ι σ ε ν} : P r →
      (∀ e, next (.error e) = .fail e) → (∀ h, (next (.ok h)).Orderly P) →
      Orderly P (.resolve r next)

/-- Requests in order, and then an instance. -/
theorem Program.orderly_keep {P : Request → Prop} {rs : List Request} (hrs : ∀ r ∈ rs, P r)
    (make : List Handle → Yield ι) :
    (Program.keep rs fun hs => (.done (make hs) : Program ι σ ε ν)).Orderly P := by
  induction rs generalizing make with
  | nil => exact .done _
  | cons r rs ih =>
      rw [keep_cons]
      refine .resolve (hrs r List.mem_cons_self) (fun e => rfl) fun h => ?_
      exact ih (fun r' hr' => hrs r' (List.mem_cons_of_mem _ hr')) fun hs => make (h :: hs)

/-- An orderly program fails with an error. -/
theorem Program.Orderly.fails {P : Request → Prop} {p : Program ι σ ε ν} {failure : Failure ε}
    (hp : p.Orderly P) (hf : p.Fails failure) : ∃ e, p = .fail e ∧ failure = .error e := by
  cases hf with
  | fail e => exact ⟨e, rfl, rfl⟩
  | panic message => cases hp

/-- An orderly program does nothing but what it makes requests for. -/
theorem Program.Orderly.not_goes {P : Request → Prop} {p q : Program ι σ ε ν}
    (hp : p.Orderly P) : ¬ p.Goes q := by
  intro hgoes
  cases hgoes <;> cases hp

/-- Each factory asks for what is allowed to it, and fails with the first error that it is answered
with. -/
def Setup.Orderly (R : Setup ι σ ε ν) (A : Request → Request → Prop) : Prop :=
  ∀ (r : Request) (k : Key) (factory : Factory ι σ ε ν),
    Dictionary.find? r.identifier.name R.factories = some factory →
    (factory.build ⟨r.identifier, r.context, k⟩).Orderly (A r)

/-! ### The invariant -/

/-- The call was made from outside, or by the construction below it, which will go on orderly. -/
def Call.Follows (A : Request → Request → Prop) (c : Call ι σ ε ν) :
    List (Frame ι σ ε ν) → Prop
  | [] => c.resume = none
  | f :: _ => ∃ next, c.resume = some next ∧ A f.call.request c.request ∧
      (∀ e, next (.error e) = .fail e) ∧ ∀ h, (next (.ok h)).Orderly (A f.call.request)

/-- Each construction was begun by an orderly one, or from outside. -/
def FramesOrderly (A : Request → Request → Prop) : List (Frame ι σ ε ν) → Prop
  | [] => True
  | f :: frames => f.call.Follows A frames ∧ FramesOrderly A frames

/-- What the thread does next is what an orderly construction does. -/
def Stage.Orderly (A : Request → Request → Prop) (frames : List (Frame ι σ ε ν)) :
    Stage ι σ ε ν → Prop
  | .running p => ∃ f rest, frames = f :: rest ∧ p.Orderly (A f.call.request)
  | .looking c _ | .asleep c _ | .reporting c _ _ | .ending c (.ok _) => c.Follows A frames
  | .fulfilling f _ => f.call.Follows A frames
  | .ending c (.error failure) | .failing c failure =>
    c.Follows A frames ∧ ∃ e, failure = .error e
  | .awaiting _ | .returned _ | .panicked _ | .awaited _ => True

/-- All constructions of the thread are orderly. -/
structure Thread.Orderly (A : Request → Request → Prop) (th : Thread ι σ ε ν) : Prop where
  frames : FramesOrderly A th.frames
  stage : th.stage.Orderly A th.frames

/-- A call is answered to a construction that goes on orderly. -/
theorem Call.Follows.deliver (hc : c.Follows A frames) (a : Answer ε) :
    (c.deliver a).Orderly A frames := by
  cases frames with
  | nil =>
      rw [Call.deliver, show c.resume = none from hc]
      trivial
  | cons f rest =>
      obtain ⟨next, hnext, -, herror, hok⟩ := hc
      rw [Call.deliver, hnext]
      refine ⟨f, rest, rfl, ?_⟩
      cases a with
      | ok h => exact hok h
      | error e => exact herror e ▸ .fail e

theorem Stage.Orderly.looks {stage : Stage ι σ ε ν} (hst : stage.Orderly A frames)
    (hl : stage.looks = some c) : c.Follows A frames := by
  cases stage with
  | looking c' w => exact Option.some.inj hl ▸ hst
  | asleep c' notified =>
      cases notified with
      | false => cases hl
      | true => exact Option.some.inj hl ▸ hst
  | _ => cases hl

theorem Thread.orderly_notify {th : Thread ι σ ε ν} (h : th.Orderly A) : th.notify.Orderly A := by
  obtain ⟨frames, stage⟩ := th
  cases stage <;> exact ⟨h.frames, h.stage⟩

/-- **What a thread does keeps its constructions orderly.** -/
theorem Moved.orderly (hR : R.Orderly A) {S S' : Store ι} {rs : List Request}
    {th th' : Thread ι σ ε ν} (hm : Moved R S S' rs th th') (h : th.Orderly A) :
    th'.Orderly A := by
  obtain ⟨hw, hst⟩ := h
  cases hm with
  | stays => exact ⟨hw, hst⟩
  | arrives => exact ⟨trivial, rfl⟩
  | misled | awaits => exact ⟨trivial, trivial⟩
  | arrived => exact ⟨hw, trivial⟩
  | goes _ hgoes =>
      obtain ⟨f, rest, -, hp⟩ := hst
      exact absurd hgoes hp.not_goes
  | @asks f frames r key next =>
      obtain ⟨f', rest, hf, hp⟩ := hst
      obtain ⟨rfl, -⟩ := List.cons.inj hf
      cases hp with
      | resolve hr herror hok => exact ⟨hw, next, rfl, hr, herror, hok⟩
  | @misasks f frames r reason next e =>
      obtain ⟨f', rest, hf, hp⟩ := hst
      obtain ⟨rfl, -⟩ := List.cons.inj hf
      cases hp with
      | resolve hr herror hok => exact ⟨hw, f, frames, rfl, herror e ▸ .fail e⟩
  | refused e _ hlooks => exact ⟨hw, (hst.looks hlooks).deliver _⟩
  | hits o _ hlooks => exact ⟨hw, hst.looks hlooks⟩
  | defers _ hlooks => exact ⟨hw, hst.looks hlooks⟩
  | sleeps _ hlooks => exact ⟨hw, hst.looks hlooks⟩
  | @claims frames stage c factory f t hlooks hf _ hfactory =>
      subst hf
      exact ⟨⟨hst.looks hlooks, hw⟩, f, frames, rfl, hR f.call.request f.call.key factory hfactory⟩
  | publishes => exact ⟨hw.2, hw.1⟩
  | undoes hfails =>
      obtain ⟨f', rest, hf, hp⟩ := hst
      obtain ⟨e, -, rfl⟩ := hp.fails hfails
      exact ⟨hw.2, hw.1, e, rfl⟩
  | fulfils => exact ⟨hw, hst⟩
  | succeeds => exact ⟨hw, hst⟩
  | failed => exact ⟨hw, hst⟩
  | reports => exact ⟨hw, Call.Follows.deliver hst _⟩
  | reportsFailure =>
      obtain ⟨hc, e, rfl⟩ := hst
      exact ⟨hw, hc.deliver _⟩

/-- **All constructions are orderly, in every state of a run.** -/
theorem Reachable.orderly (hR : R.Orderly A) (hs : Reachable R s) (t : ThreadId) :
    (s.thread t).Orderly A := by
  induction hs generalizing t with
  | initial notes asked => exact ⟨trivial, trivial⟩
  | next hs hn ih =>
      obtain ⟨rs, he⟩ := hn.event
      obtain ⟨u, hm⟩ := he.motion
      by_cases ht : t = u
      · exact ht ▸ hm.moved.orderly hR (ih u)
      · obtain h | h := hm.beside t ht
        · exact h ▸ ih t
        · exact h ▸ Thread.orderly_notify (ih t)

/-- An orderly construction makes requests that are allowed to it, and stops at the first error. -/
theorem Thread.Orderly.request {f : Frame ι σ ε ν} {r : Request}
    {next : Answer ε → Program ι σ ε ν}
    (h : Thread.Orderly A ⟨f :: frames, .running (.resolve r next)⟩) :
    A f.call.request r ∧ ∀ e, next (.error e) = .fail e := by
  obtain ⟨f', rest, hf, hp⟩ := h.stage
  obtain ⟨rfl, -⟩ := List.cons.inj hf
  cases hp with
  | resolve hr herror _ => exact ⟨hr, herror⟩

/-! ### The way out -/

/-- An error is on its way out: the construction fails, or the call has failed. -/
def Stage.isLeaving : Stage ι σ ε ν → Bool
  | .running (.fail _) | .ending _ (.error _) | .failing _ _ | .returned (.error _) => true
  | _ => false

/-- An error that a call is answered with leaves the construction that made the call. -/
theorem Call.Follows.leaving (hc : c.Follows A frames) (e : RegistryError ε) :
    (c.deliver (.error e)).isLeaving = true := by
  cases frames with
  | nil =>
      rw [Call.deliver, show c.resume = none from hc]
      rfl
  | cons f rest =>
      obtain ⟨next, hnext, -, herror, -⟩ := hc
      rw [Call.deliver, hnext, Stage.answered, herror]
      rfl

/-- A call that is about to look up its key has not failed. -/
theorem Stage.isLeaving_of_looks {stage : Stage ι σ ε ν} (h : stage.looks = some c) :
    stage.isLeaving = false := by
  cases stage with
  | looking => rfl
  | asleep => rfl
  | _ => cases h

theorem Moved.leaving {S S' : Store ι} {th th' : Thread ι σ ε ν}
    (hm : Moved R S S' [] th th') (h : th.Orderly A) (hrest : th.stage.isResting = false)
    (hl : th.stage.isLeaving = true) : th'.stage.isLeaving = true := by
  cases hm with
  | stays => exact hl
  | awaits _ _ hresting => rw [hresting] at hrest; cases hrest
  | arrived => cases hl
  | goes _ hgoes => cases hgoes <;> cases hl
  | asks | misasks | publishes | fulfils | succeeds | reports => cases hl
  | refused e _ hlooks => exact (h.stage.looks hlooks).leaving e
  | hits o _ hlooks | defers _ hlooks | sleeps _ hlooks | claims t hlooks =>
      rw [Stage.isLeaving_of_looks hlooks] at hl
      cases hl
  | undoes => rfl
  | failed => rfl
  | reportsFailure =>
      obtain ⟨hc, e, rfl⟩ := h.stage
      exact hc.leaving _

/-- **No request is made on the way out**: once an error is on its way, it stays so. -/
theorem runThread_leaving (hR : R.Orderly A) (hs : Reachable R s)
    (hl : (s.thread t).stage.isLeaving = true) (n : Nat) :
    ((runThread R t n s).thread t).stage.isLeaving = true := by
  induction n generalizing s with
  | zero => exact hl
  | succ n ih =>
      rw [runThread_succ]
      cases hstep : step R t s with
      | none => exact hl
      | some s' =>
          refine ih (hs.next (.step t hstep)) ?_
          exact (motion_step hstep).moved.leaving (hs.orderly hR t) (not_resting_of_step hstep) hl

/-! ### No call breaks off -/

theorem Call.Follows.deliver_ne_panicked (hc : c.Follows A frames) (a : Answer ε)
    (message : String) : c.deliver a ≠ .panicked message := by
  intro h
  cases frames with
  | nil =>
      rw [Call.deliver, show c.resume = none from hc] at h
      cases h
  | cons f rest =>
      obtain ⟨next, hnext, -⟩ := hc
      rw [Call.deliver, hnext] at h
      cases h

theorem Moved.ne_panicked {S S' : Store ι} {th th' : Thread ι σ ε ν}
    (hm : Moved R S S' [] th th') (h : th.Orderly A) (hrest : th.stage.isResting = false)
    (message : String) : th'.stage ≠ .panicked message := by
  cases hm with
  | stays => rintro hp; rw [hp] at hrest; cases hrest
  | refused e _ hlooks => exact (h.stage.looks hlooks).deliver_ne_panicked _ message
  | reports => exact Call.Follows.deliver_ne_panicked h.stage _ message
  | reportsFailure =>
      obtain ⟨hc, e, rfl⟩ := h.stage
      exact hc.deliver_ne_panicked _ message
  | _ => nofun

/-- A call that has not broken off does not break off. -/
theorem runThread_ne_panicked (hR : R.Orderly A) (hs : Reachable R s)
    (hp : ∀ message, (s.thread t).stage ≠ .panicked message) (n : Nat) (message : String) :
    ((runThread R t n s).thread t).stage ≠ .panicked message := by
  induction n generalizing s with
  | zero => exact hp message
  | succ n ih =>
      rw [runThread_succ]
      cases hstep : step R t s with
      | none => exact hp message
      | some s' =>
          refine ih (hs.next (.step t hstep)) ?_
          exact (motion_step hstep).moved.ne_panicked (hs.orderly hR t) (not_resting_of_step hstep)

end SchemaGraph.Registry
