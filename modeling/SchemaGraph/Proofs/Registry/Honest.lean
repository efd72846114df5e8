/-
**Factories that pass on what they do not catch.**

A factory is honest when each error with which it fails is its own, or one that a request of its was
answered with and that it fails with at once, unchanged.  It may catch errors and go on, and it may
read a handle too early and fail with that.  Scripted factories are honest.

If all factories of a registry are honest, a construction fails for one of a few reasons only, and
what comes out of a failed construction enters the one around it as it is.

Main definitions:

* `RegistryError.isOwn` — the errors that a factory may fail with by itself;
* `Program.Honest`, `Setup.Honest` — a program, and all factories, pass on what they do not catch;
* `Thread.Honest` — **the invariant**: what every continuation will do.

Main results:

* `Reachable.honest` — the invariant holds in every state of a run;
* `Call.Honest.fails` — a construction that fails with the answer of its request fails with its own
  error, or with the one that it was given;
* `honest_factory` — **scripted factories are honest**.
-/

import SchemaGraph.Proofs.Registry.Calls
import SchemaGraph.Scenario.Script

set_option autoImplicit false

namespace SchemaGraph.Registry

variable {ι σ ε ν : Type} {R : Setup ι σ ε ν} {s s' : State ι σ ε ν} {t : ThreadId}
  {frames : List (Frame ι σ ε ν)} {stage : Stage ι σ ε ν} {c : Call ι σ ε ν}

/-! ### Honest programs -/

/-- The errors that a factory may fail with by itself: one of its own, or that it has read a handle
to a type that is not constructed. -/
def RegistryError.isOwn : RegistryError ε → Bool
  | .raised _ | .unresolved .. => true
  | _ => false

/-- The program fails with errors of its own, or with the error that a request is answered with. -/
inductive Program.Honest : Program ι σ ε ν → Prop where
  | done (y : Yield ι) : Honest (.done y)
  | fail {e : RegistryError ε} : e.isOwn = true → Honest (.fail e)
  | panic (message : String) : Honest (.panic message)
  | resolve {r : Request} {next : Answer ε → Program ι σ ε ν} : (∀ h, (next (.ok h)).Honest) →
      (∀ e, next (.error e) ≠ .fail e → (next (.error e)).Honest) → Honest (.resolve r next)
  | note (f : σ → σ) {next : σ → Program ι σ ε ν} : (∀ n, (next n).Honest) →
      Honest (.note f next)
  | inspect {next : Store ι → Program ι σ ε ν} : (∀ S, (next S).Honest) → Honest (.inspect next)
  | say (event : ν) {next : Program ι σ ε ν} : next.Honest → Honest (.say event next)
  | gate (name : String) {next : Program ι σ ε ν} : next.Honest → Honest (.gate name next)

theorem Program.Honest.goes {p q : Program ι σ ε ν} (hp : p.Honest) (h : p.Goes q) : q.Honest := by
  cases h with
  | note f k n =>
      cases hp with
      | note _ hnext => exact hnext n
  | inspect k S =>
      cases hp with
      | inspect hnext => exact hnext S
  | say event next =>
      cases hp with
      | say _ hnext => exact hnext
  | gate name next =>
      cases hp with
      | gate _ hnext => exact hnext

/-- All factories pass on what they do not catch. -/
def Setup.Honest (R : Setup ι σ ε ν) : Prop :=
  ∀ name factory, Dictionary.find? name R.factories = some factory →
    ∀ site, (factory.build site).Honest

/-! ### The invariant -/

/-- The factory that made the call goes on honestly with the answer. -/
def Call.Honest (c : Call ι σ ε ν) : Prop :=
  ∀ next ∈ c.resume, (∀ h, (next (.ok h)).Honest) ∧
    ∀ e, next (.error e) ≠ .fail e → (next (.error e)).Honest

/-- What the thread does next is what an honest construction does. -/
def Stage.Honest (stage : Stage ι σ ε ν) : Prop :=
  (∀ p, stage = .running p → p.Honest ∨ ∃ e, p = .fail e) ∧
    ∀ c, stage.call? = some c → c.Honest

/-- All constructions of the thread are honest. -/
structure Thread.Honest (th : Thread ι σ ε ν) : Prop where
  frames : ∀ f ∈ th.frames, f.call.Honest
  stage : th.stage.Honest

theorem Stage.honest_of_call (h : stage.call? = some c) (hc : c.Honest) : stage.Honest := by
  refine ⟨?_, fun c' hc' => ?_⟩
  · rintro p rfl
    cases h
  · obtain rfl := Option.some.inj (h.symm.trans hc')
    exact hc

theorem Stage.honest_of_resting (h : stage.isResting = true) : stage.Honest := by
  refine ⟨?_, fun c hc => ?_⟩
  · rintro p rfl
    cases h
  · rw [Stage.call?_of_isResting h] at hc
    cases hc

theorem Stage.honest_running {p : Program ι σ ε ν} (hp : p.Honest ∨ ∃ e, p = .fail e) :
    (Stage.running p).Honest := by
  refine ⟨?_, fun c hc => by cases hc⟩
  rintro q ⟨⟩
  exact hp

/-- An honest construction that is answered goes on honestly, or fails with what it is given. -/
theorem Program.Honest.answered {r : Request} {next : Answer ε → Program ι σ ε ν}
    (hp : (Program.resolve r next).Honest) (a : Answer ε) :
    (next a).Honest ∨ ∃ e, a = .error e ∧ next a = .fail e := by
  cases hp with
  | resolve hok herror =>
      cases a with
      | ok h => exact Or.inl (hok h)
      | error e =>
          by_cases h : next (.error e) = .fail e
          · exact Or.inr ⟨e, rfl, h⟩
          · exact Or.inl (herror e h)

theorem Program.Honest.isOwn {e : RegistryError ε}
    (hp : (Program.fail e : Program ι σ ε ν).Honest) : e.isOwn = true := by
  cases hp with
  | fail hown => exact hown

/-- An honest construction that fails when it is answered fails with an error of its own, or with
the one that it was given. -/
theorem Program.Honest.fails {r : Request} {next : Answer ε → Program ι σ ε ν} {a : Answer ε}
    {e : RegistryError ε} (hp : (Program.resolve r next).Honest) (h : next a = .fail e) :
    e.isOwn = true ∨ a = .error e := by
  rcases hp.answered a with hp | ⟨e', rfl, hfail⟩
  · rw [h] at hp
    exact Or.inl hp.isOwn
  · rw [h, Program.fail.injEq] at hfail
    exact Or.inr (by rw [hfail])

/-- The program that waits for the answer of a call is honest. -/
theorem Call.Honest.program {next : Answer ε → Program ι σ ε ν} (hc : c.Honest)
    (hr : c.resume = some next) : (Program.resolve c.request next).Honest := by
  obtain ⟨hok, herror⟩ := hc next hr
  exact .resolve hok herror

theorem Call.Honest.deliver (hc : c.Honest) (a : Answer ε) : (c.deliver a).Honest := by
  rw [Call.deliver]
  cases hr : c.resume with
  | none => exact Stage.honest_of_resting rfl
  | some next =>
      refine Stage.honest_running (((hc.program hr).answered a).imp_right ?_)
      rintro ⟨e, -, h⟩
      exact ⟨e, h⟩

theorem Call.Honest.deliverFailure (hc : c.Honest) (failure : Failure ε) :
    (c.deliverFailure failure).Honest := by
  cases failure with
  | error e => exact hc.deliver _
  | panic message =>
      rw [Call.deliverFailure]
      cases c.resume with
      | none => exact Stage.honest_of_resting rfl
      | some next => exact Stage.honest_running (Or.inl (.panic message))

/-- **A construction that fails when its request is answered** fails with an error of its own, or
with the one that it was given. -/
theorem Call.Honest.fails {a : Answer ε} {e : RegistryError ε} (hc : c.Honest)
    (h : c.deliver a = .running (.fail e)) : e.isOwn = true ∨ a = .error e := by
  rw [Call.deliver] at h
  cases hr : c.resume with
  | none =>
      rw [hr] at h
      cases h
  | some next =>
      rw [hr, Stage.answered, Stage.running.injEq] at h
      exact (hc.program hr).fails h

/-- **What a thread does keeps its constructions honest.** -/
theorem Moved.honest (hR : R.Honest) {S S' : Store ι} {rs : List Request} {th th' : Thread ι σ ε ν}
    (hm : Moved R S S' rs th th') (h : th.Honest) : th'.Honest := by
  obtain ⟨hframes, hrun, hcall⟩ := h
  have hlooks : ∀ {c : Call ι σ ε ν}, th.stage.looks = some c → c.Honest := fun hl =>
    hcall _ (Stage.call?_of_looks hl)
  -- a program that goes on or makes a request does not fail
  have hprogram : ∀ {p : Program ι σ ε ν}, th.stage = .running p → (∀ e, p ≠ .fail e) →
      p.Honest := fun hp hne => (hrun _ hp).resolve_right fun ⟨e, he⟩ => hne e he
  cases hm with
  | stays => exact ⟨hframes, hrun, hcall⟩
  | arrives =>
      refine ⟨fun f hf => absurd hf List.not_mem_nil, Stage.honest_of_call rfl ?_⟩
      rintro next ⟨⟩
  | misled | awaits =>
      exact ⟨fun f hf => absurd hf List.not_mem_nil, ⟨nofun, fun c hc => by cases hc⟩⟩
  | arrived => exact ⟨hframes, Stage.honest_of_resting rfl⟩
  | goes _ hgoes =>
      refine ⟨hframes, Stage.honest_running (Or.inl ?_)⟩
      exact (hprogram rfl fun e he => by subst he; cases hgoes).goes hgoes
  | asks =>
      refine ⟨hframes, Stage.honest_of_call rfl ?_⟩
      rintro next ⟨⟩
      cases hprogram rfl nofun with
      | resolve hok herror => exact ⟨hok, herror⟩
  | misasks e =>
      refine ⟨hframes, Stage.honest_running (((hprogram rfl nofun).answered _).imp_right ?_)⟩
      rintro ⟨e, -, h⟩
      exact ⟨e, h⟩
  | refused e _ hl => exact ⟨hframes, (hlooks hl).deliver _⟩
  | hits o _ hl => exact ⟨hframes, Stage.honest_of_call rfl (hlooks hl)⟩
  | defers _ hl => exact ⟨hframes, Stage.honest_of_call rfl (hlooks hl)⟩
  | sleeps _ hl => exact ⟨hframes, Stage.honest_of_call rfl (hlooks hl)⟩
  | claims t hl hf _ hfactory =>
      subst hf
      exact ⟨List.forall_mem_cons.2 ⟨hlooks hl, hframes⟩,
        Stage.honest_running (Or.inl (hR _ _ hfactory _))⟩
  | publishes | undoes =>
      rw [List.forall_mem_cons] at hframes
      exact ⟨hframes.2, Stage.honest_of_call rfl hframes.1⟩
  | fulfils | succeeds | failed => exact ⟨hframes, Stage.honest_of_call rfl (hcall _ rfl)⟩
  | reports => exact ⟨hframes, (hcall _ rfl).deliver _⟩
  | reportsFailure => exact ⟨hframes, (hcall _ rfl).deliverFailure _⟩

theorem Thread.honest_notify {th : Thread ι σ ε ν} (h : th.Honest) : th.notify.Honest := by
  obtain ⟨frames, stage⟩ := th
  cases stage with
  | asleep c notified => exact ⟨h.frames, Stage.honest_of_call rfl (h.stage.2 c rfl)⟩
  | _ => exact h

/-- **All constructions are honest, in every state of a run.** -/
theorem Reachable.honest (hR : R.Honest) (hs : Reachable R s) (t : ThreadId) :
    (s.thread t).Honest := by
  induction hs generalizing t with
  | initial notes asked =>
      exact ⟨fun f hf => absurd hf List.not_mem_nil, Stage.honest_of_resting rfl⟩
  | next hs hn ih =>
      obtain ⟨rs, he⟩ := hn.event
      obtain ⟨u, hm⟩ := he.motion
      by_cases ht : t = u
      · exact ht ▸ hm.moved.honest hR (ih u)
      · obtain h | h := hm.beside t ht
        · exact h ▸ ih t
        · exact h ▸ Thread.honest_notify (ih t)

end SchemaGraph.Registry

/-! ### Scripted factories -/

namespace SchemaGraph.Scenario

open Registry

theorem honest_caughtOr {catches : Bool} {e : RegistryError String} {next : ScriptProgram}
    (he : e.isOwn = true) (hnext : next.Honest) : (caughtOr catches e next).Honest := by
  cases catches with
  | false => exact .fail he
  | true => exact .say _ hnext

/-- An error that is not caught is passed on as it is. -/
theorem honest_caughtOr_of_ne {catches : Bool} {e : RegistryError String} {next : ScriptProgram}
    (hnext : next.Honest) (hne : caughtOr catches e next ≠ .fail e) :
    (caughtOr catches e next).Honest := by
  cases catches with
  | false => exact absurd rfl hne
  | true => exact .say _ hnext

/-- An action is taken honestly when what follows is. -/
theorem honest_action (a : Action) (site : Site) (links : List Handle)
    {next : List Handle → ScriptProgram} (hnext : ∀ links, (next links).Honest) :
    (a.program site links next).Honest := by
  cases a with
  | resolve id context inContext keep leak catches =>
      refine .resolve (fun h => .inspect fun S => .say _ ?_) fun e =>
        honest_caughtOr_of_ne (hnext links)
      cases leak with
      | none => exact hnext _
      | some name => exact .note _ fun _ => hnext _
  | read id context catches =>
      refine .resolve (fun h => .inspect fun S => ?_) fun e => honest_caughtOr_of_ne (hnext links)
      unfold Handle.get
      cases h.get? S with
      | some i => exact .say _ (hnext links)
      | none => exact honest_caughtOr rfl (hnext links)
  | countdown name keep =>
      simp only [Action.program]
      split
      · exact hnext links
      · exact .resolve (fun h => hnext _) fun e hne => absurd rfl hne
  | nested name =>
      simp only [Action.program]
      split
      · exact .resolve (fun h => hnext _) fun e hne => absurd rfl hne
      · exact hnext links
  | probe => exact .inspect fun S => .say _ (hnext links)
  | option name => exact .say _ (hnext links)
  | get handle =>
      refine .note id fun n => ?_
      cases Dictionary.find? handle n.handles with
      | some h => exact .inspect fun S => .say _ (hnext links)
      | none => exact .say _ (hnext links)
  | drop handle => exact .note _ fun _ => hnext links
  | gate name => exact .gate name (hnext links)
  | fail message => exact .fail rfl
  | panic message => exact .panic message

theorem honest_script (site : Site) (attempt : Nat) (script : Script) (links : List Handle) :
    (Script.program site attempt script links).Honest := by
  induction script generalizing links with
  | nil => exact .done _
  | cons step script ih =>
      rw [Script.program]
      split
      · exact honest_action step.action site links ih
      · exact ih links

/-- **Scripted factories are honest.** -/
theorem honest_factory (tag : Tag) (script : Script) (site : Site) :
    ((Script.factory tag script).build site).Honest :=
  .note _ fun _ => .say _ (honest_script site _ script [])

end SchemaGraph.Scenario
