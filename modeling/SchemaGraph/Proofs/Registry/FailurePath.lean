/-
**The path to a failure.**

When a factory fails, its construction is undone, and the error enters the construction around it.
A factory that does not catch it fails in turn, with the error of the failed construction, and so on
outwards.  Each construction takes back its own key, and adds its reference to the error once; so
what a call reports at last tells the constructions that were nested in one another when the failure
came about, and why.

The course of a failed call is read backwards, from its answer to the action in which the failure
came about, as long as no other thread moves.

Main definitions:

* `wrapped` — the error that comes out of nested constructions;
* `Causes` — how an error comes about;
* `Climbs`, `Falls` — what an action does to a thread whose construction fails: **each construction
  takes back its own key, and wraps the error once**;
* `Climbed` — **the invariant**: how far a failure has climbed;
* `FailurePath` — the path to a failure, and what is left of it when the call returns.

Main results:

* `climbs_of_act` — a construction that fails failed before the action, or the failure came about
  in it;
* `exists_origin` — every failure came about in some action of the run, and has climbed since;
* `failure_reports_path` — **a failed construction reports the path to the failure**, and nothing
  but the keys of that path is lost.
-/

import SchemaGraph.Proofs.Registry.Honest
import SchemaGraph.Proofs.Registry.Underway

set_option autoImplicit false

namespace SchemaGraph.Registry

variable {ι σ ε ν : Type} {R : Setup ι σ ε ν} {s s' s₁ : State ι σ ε ν} {t : ThreadId}
  {frames gone : List (Frame ι σ ε ν)} {stage : Stage ι σ ε ν} {c : Call ι σ ε ν}
  {th th' : Thread ι σ ε ν} {a : Action σ} {as : List (Action σ)} {e cause : RegistryError ε}

/-! ### Errors of nested constructions -/

/-- The error that comes out of constructions that fail one inside the other, innermost first. -/
def wrapped (nested : List (Frame ι σ ε ν)) (cause : RegistryError ε) : RegistryError ε :=
  nested.foldl (fun e f => .constructionFailed f.call.reference e) cause

theorem wrapped_concat (nested : List (Frame ι σ ε ν)) (f : Frame ι σ ε ν)
    (cause : RegistryError ε) : wrapped (nested ++ [f]) cause
      = .constructionFailed f.call.reference (wrapped nested cause) := by
  rw [wrapped, List.foldl_concat, wrapped]

theorem failedReferences_wrapped (nested : List (Frame ι σ ε ν)) (cause : RegistryError ε) :
    (wrapped nested cause).failedReferences
      = (nested.map fun f => f.call.reference).reverse ++ cause.failedReferences := by
  induction nested using List.reverseRecOn with
  | nil => rfl
  | append_singleton nested f ih =>
      rw [wrapped_concat, RegistryError.failedReferences, ih]
      simp

theorem cause_wrapped (nested : List (Frame ι σ ε ν)) (cause : RegistryError ε) :
    (wrapped nested cause).cause = cause.cause := by
  induction nested using List.reverseRecOn with
  | nil => rfl
  | append_singleton nested f ih => rw [wrapped_concat, RegistryError.cause, ih]

/-! ### How a failure comes about -/

/-- How an error comes about in a construction, rather than climbs out of one nested in it. -/
inductive Causes (R : Setup ι σ ε ν) (t : ThreadId) (s : State ι σ ε ν) :
    RegistryError ε → Prop where
  /-- the factory fails by itself -/
  | own {e : RegistryError ε} : (s.thread t).stage ≠ .running (.fail e) → e.isOwn = true →
      Causes R t s e
  /-- a request of the factory is rejected -/
  | rejected {frames : List (Frame ι σ ε ν)} {c : Call ι σ ε ν} {e : RegistryError ε} :
      Returns R t frames c (.error e) s → e.isRejection = true → Causes R t s e
  /-- a request of the factory has no key -/
  | misled {r : Request} {next : Answer ε → Program ι σ ε ν} {reason : IdentifierError} :
      (s.thread t).stage = .running (.resolve r next) → r.key = .error reason →
      Causes R t s (.invalidIdentifier r.identifier.display reason)

/-- An error that comes about is at the end of its chain. -/
theorem Causes.terminal (h : Causes R t s e) : e.failedReferences = [] ∧ e.cause = e := by
  cases h with
  | own _ h | rejected _ h => cases e <;> first | exact ⟨rfl, rfl⟩ | cases h
  | misled => exact ⟨rfl, rfl⟩

/-! ### How a failure goes on -/

/-- The error with which the innermost construction of a thread fails. -/
def Stage.error? : Stage ι σ ε ν → Option (RegistryError ε)
  | .running (.fail e) | .ending _ (.error (.error e)) | .failing _ (.error e) => some e
  | _ => none

theorem Stage.error?_running {p : Program ι σ ε ν} (h : (Stage.running p).error? = some e) :
    p = .fail e := by
  cases p with
  | fail e' => rw [Option.some.inj h]
  | _ => cases h

theorem Call.error?_deliver {x : Answer ε} (h : (c.deliver x).error? = some e) :
    c.deliver x = .running (.fail e) := by
  rw [deliver] at h ⊢
  cases hr : c.resume with
  | none =>
      rw [hr] at h
      cases h
  | some next =>
      rw [hr] at h
      rw [Stage.answered, Stage.error?_running h]

/-- What an action does to a thread whose innermost construction fails. -/
inductive Climbs (S S' : Store ι) : Thread ι σ ε ν → Thread ι σ ε ν → Prop where
  /-- nothing -/
  | stays (th : Thread ι σ ε ν) : Preserves S S' → Climbs S S' th th
  /-- the construction takes back its own key, and no other -/
  | undoes {f : Frame ι σ ε ν} {frames : List (Frame ι σ ε ν)} {e : RegistryError ε} :
      (∀ k, Dictionary.find? k S'.table.entries
        = if f.call.key = k then none else Dictionary.find? k S.table.entries) →
      Climbs S S' ⟨f :: frames, .running (.fail e)⟩ ⟨frames, .ending f.call (.error (.error e))⟩
  /-- the sleepers are notified -/
  | announces {frames : List (Frame ι σ ε ν)} {c : Call ι σ ε ν} {e : RegistryError ε} :
      Preserves S S' → Climbs S S' ⟨frames, .ending c (.error (.error e))⟩
        ⟨frames, .failing c (.error e)⟩
  /-- the error is wrapped, and enters the construction around -/
  | wraps {frames : List (Frame ι σ ε ν)} {c : Call ι σ ε ν} {e : RegistryError ε} :
      Preserves S S' → Climbs S S' ⟨frames, .failing c (.error e)⟩
        ⟨frames, .running (.fail (.constructionFailed c.reference e))⟩

theorem Climbs.error? {S S' : Store ι} (h : Climbs S S' th th') (he : th'.stage.error? = some e) :
    ∃ e', th.stage.error? = some e' := by
  cases h with
  | stays => exact ⟨e, he⟩
  | undoes | announces | wraps => exact ⟨_, rfl⟩

/-- **A construction that fails after its thread has moved failed before**, or fails by itself;
look-ups and requests without a key apart. -/
theorem Moved.climbs {S S' : Store ι} {rs : List Request} (hm : Moved R S S' rs th th')
    (h : th.Honest) (hlooks : th.stage.looks = none)
    (hkey : ∀ r next reason, th.stage = .running (.resolve r next) → r.key ≠ .error reason)
    (he : th'.stage.error? = some e) : Climbs S S' th th' ∨
      (th.stage ≠ .running (.fail e) ∧ e.isOwn = true ∧ th'.stage = .running (.fail e)) := by
  cases hm with
  | stays th hS => exact Or.inl (.stays th hS)
  | goes _ hgoes =>
      obtain rfl := Stage.error?_running he
      have hp : ∀ {p : Program ι σ ε ν}, p.Goes (.fail e) → p ≠ .fail e := by
        rintro p hp rfl
        cases hp
      rcases h.stage.1 _ rfl with hhonest | ⟨e', rfl⟩
      · exact Or.inr ⟨fun hst => hp hgoes (Stage.running.inj hst), (hhonest.goes hgoes).isOwn, rfl⟩
      · cases hgoes
  | misasks _ _ hreason => exact absurd hreason (hkey _ _ _ rfl)
  | refused _ _ hl | claims _ hl =>
      rw [hlooks] at hl
      cases hl
  | undoes hfails hentries =>
      cases hfails with
      | fail e' => exact Or.inl (.undoes hentries)
      | panic => cases he
  | @failed frames c failure hS =>
      cases failure with
      | error e' => exact Or.inl (.announces hS)
      | panic => cases he
  | reports =>
      have hfail := Call.error?_deliver he
      rcases (h.stage.2 _ rfl).fails hfail with hown | habsurd
      · exact Or.inr ⟨nofun, hown, hfail⟩
      · cases habsurd
  | @reportsFailure frames c failure hS =>
      cases failure with
      | error e' =>
          have hfail := Call.error?_deliver he
          rcases (h.stage.2 _ rfl).fails hfail with hown | hwrapped
          · exact Or.inr ⟨nofun, hown, hfail⟩
          · obtain rfl := Except.error.inj hwrapped
            refine Or.inl ?_
            rw [show c.deliverFailure (.error e') = _ from hfail]
            exact .wraps hS
      | panic message =>
          rw [Call.deliverFailure] at he
          cases hr : c.resume <;> rw [hr] at he <;> cases he
  | _ => cases he

/-- A construction that fails after its thread has looked up a key failed in that step: by itself,
when it was begun, or with the rejection of its request. -/
theorem causes_of_looks (hR : R.Honest) (hs : Reachable R s) (hstep : step R t s = some s')
    (hlooks : (s.thread t).stage.looks = some c) (he : (s'.thread t).stage.error? = some e) :
    Causes R t s e ∧ (s'.thread t).stage = .running (.fail e) := by
  have hcall := Stage.call?_of_looks hlooks
  have hne : (s.thread t).stage ≠ .running (.fail e) := by
    intro hst
    rw [hst] at hlooks
    cases hlooks
  cases hentry : Dictionary.find? c.key s.store.table.entries with
  | some entry =>
      obtain ⟨s₁, stage, hlook, hth, hstage, -⟩ := step_of_entry R hlooks hentry
      obtain rfl := Option.some.inj ((hlook R.admits).symm.trans hstep)
      rw [hth] at he
      rcases hstage with ⟨o, x, rfl⟩ | rfl <;> cases he
  | none =>
      cases hrefusal : R.refusal? s.store.asked c.request with
      | some e' =>
          obtain ⟨s₁, hlook, -, hth⟩ := step_of_refusal hlooks hentry hrefusal
          obtain rfl := Option.some.inj (hlook.symm.trans hstep)
          rw [hth] at he ⊢
          have hfail := Call.error?_deliver he
          refine ⟨?_, hfail⟩
          rcases ((hs.honest hR t).stage.2 c hcall).fails hfail with hown | hgiven
          · exact .own hne hown
          · obtain rfl := Except.error.inj hgiven
            refine .rejected ⟨rfl, hcall, ?_⟩ (Setup.isRejection_of_refusal hrefusal)
            rw [answer?_of_looks hlooks, hentry, hrefusal]
            rfl
      | none =>
          obtain ⟨s₁, factory, slot, hlook, hfactory, -, -, hth⟩ :=
            step_of_admitted hlooks hentry hrefusal
          obtain rfl := Option.some.inj (hlook.symm.trans hstep)
          rw [hth] at he ⊢
          have hfail := Stage.error?_running he
          have hbuild := hR _ _ hfactory ⟨c.request.identifier, c.request.context, c.key⟩
          rw [hfail] at hbuild ⊢
          exact ⟨.own hne hbuild.isOwn, rfl⟩

/-- A construction that fails after it has made a request without a key fails in that step: with the
error of the request, or by itself. -/
theorem causes_of_misled (hR : R.Honest) (hs : Reachable R s) (hstep : step R t s = some s')
    {r : Request} {next : Answer ε → Program ι σ ε ν} {reason : IdentifierError}
    (hrun : (s.thread t).stage = .running (.resolve r next)) (hkey : r.key = .error reason)
    (he : (s'.thread t).stage.error? = some e) :
    Causes R t s e ∧ (s'.thread t).stage = .running (.fail e) := by
  have henter := (Calls.factory hrun).act hs.legal (a := .step t) hstep
  have hkey' : Key.ofIdentifier r.identifier r.context = .error reason := hkey
  simp only [enter, hkey', hrun, Stage.asker] at henter
  rw [henter, State.thread_put_self] at he ⊢
  have hfail := Stage.error?_running he
  refine ⟨?_, congrArg Stage.running hfail⟩
  have hp : (Program.resolve r next).Honest := by
    rcases (hs.honest hR t).stage.1 _ hrun with hp | ⟨e', habsurd⟩
    · exact hp
    · cases habsurd
  rcases hp.fails hfail with hown | hgiven
  · refine .own (fun hst => ?_) hown
    rw [hrun] at hst
    cases hst
  · obtain rfl := Except.error.inj hgiven
    exact .misled hrun hkey

/-- A construction that fails after a step failed before, or the failure came about in it. -/
theorem climbs_of_step (hR : R.Honest) (hs : Reachable R s) (hstep : step R t s = some s')
    (he : (s'.thread t).stage.error? = some e) :
    Climbs s.store s'.store (s.thread t) (s'.thread t) ∨
      (Causes R t s e ∧ (s'.thread t).stage = .running (.fail e)) := by
  cases hlooks : (s.thread t).stage.looks with
  | some c => exact Or.inr (causes_of_looks hR hs hstep hlooks he)
  | none =>
      by_cases hmisled : ∃ r next reason, (s.thread t).stage = .running (.resolve r next) ∧
        r.key = .error reason
      · obtain ⟨r, next, reason, hrun, hkey⟩ := hmisled
        exact Or.inr (causes_of_misled hR hs hstep hrun hkey he)
      · have hkey : ∀ r next reason, (s.thread t).stage = .running (.resolve r next) →
            r.key ≠ .error reason :=
          fun r next reason hrun hkey => hmisled ⟨r, next, reason, hrun, hkey⟩
        rcases (motion_step hstep).moved.climbs (hs.honest hR t) hlooks hkey he with
          hclimbs | ⟨hne, hown, hfail⟩
        · exact Or.inl hclimbs
        · exact Or.inr ⟨.own hne hown, hfail⟩

/-- **A construction that fails after an action failed before, or the failure came about in it**, as
long as no other thread moves. -/
theorem climbs_of_act (hR : R.Honest) (hs : Reachable R s) (ha : act R a s = some s')
    (halone : ∀ u ∈ a.actor?, u = t) (he : (s'.thread t).stage.error? = some e) :
    Climbs s.store s'.store (s.thread t) (s'.thread t) ∨
      (Causes R t s e ∧ (s'.thread t).stage = .running (.fail e)) := by
  have hstays : s'.threads = s.threads → Preserves s.store s'.store →
      Climbs s.store s'.store (s.thread t) (s'.thread t) := by
    intro hth hS
    rw [State.thread_congr hth]
    exact .stays _ hS
  cases a with
  | step u =>
      obtain rfl := halone u rfl
      exact climbs_of_step hR hs ha he
  | call u r =>
      obtain rfl := halone u rfl
      simp only [act, Option.ite_none_right_eq_some, Option.some.injEq] at ha
      obtain ⟨-, rfl⟩ := ha
      cases hk : r.key with
      | error reason =>
          obtain ⟨e', henter⟩ := enter_of_error R u [] r hk none s
          rw [State.call, henter, State.thread_put_self] at he
          cases he
      | ok key =>
          obtain ⟨s₁, -, -, henter⟩ := enter_threads R u [] r hk none s
          rw [State.call, henter, State.thread_put_self] at he
          cases he
  | await u x =>
      obtain rfl := halone u rfl
      simp only [act, Option.ite_none_right_eq_some, Option.some.injEq] at ha
      obtain ⟨-, rfl⟩ := ha
      rw [State.await, State.thread_put_self] at he
      cases he
  | passGate u =>
      obtain rfl := halone u rfl
      obtain rfl := Option.some.inj ha
      have hhonest := hs.honest hR u
      rw [State.passGate_eq] at he ⊢
      split at he
      · rename_i frames name next hth
        rw [hth] at hhonest ⊢
        rw [State.thread_put_self] at he ⊢
        have hm : Moved R s.store s.store [] ⟨frames, .running (.gate name next)⟩
          ⟨frames, .running next⟩ := .goes (.refl _) (.gate name next)
        rcases hm.climbs hhonest rfl (fun _ _ _ h => by cases h) he with
          hclimbs | ⟨hne, hown, hfail⟩
        · exact Or.inl hclimbs
        · exact Or.inr ⟨.own (by rwa [hth]) hown, hfail⟩
      · exact Or.inl (.stays _ (.refl _))
  | openGate name =>
      obtain rfl := Option.some.inj ha
      exact Or.inl (hstays rfl (.refl _))
  | note f =>
      obtain rfl := Option.some.inj ha
      exact Or.inl (hstays rfl (.refl _))
  | clone q | drop q =>
      simp only [act, Option.ite_none_right_eq_some, Option.some.injEq] at ha
      obtain ⟨-, rfl⟩ := ha
      exact Or.inl (hstays rfl ⟨rfl, rfl⟩)

/-! ### How far a failure has climbed -/

/-- A thread has fallen out of the given constructions, innermost first, for a cause. -/
inductive Stage.Climbed (cause : RegistryError ε) :
    List (Frame ι σ ε ν) → Stage ι σ ε ν → Prop where
  | running (gone : List (Frame ι σ ε ν)) :
      Climbed cause gone (.running (.fail (wrapped gone cause)))
  | ending (gone : List (Frame ι σ ε ν)) (f : Frame ι σ ε ν) :
      Climbed cause (gone ++ [f]) (.ending f.call (.error (.error (wrapped gone cause))))
  | failing (gone : List (Frame ι σ ε ν)) (f : Frame ι σ ε ν) :
      Climbed cause (gone ++ [f]) (.failing f.call (.error (wrapped gone cause)))

/-- A failure that came about in the first state has climbed out of the given constructions, and
their keys are all that was taken back. -/
structure Climbed (t : ThreadId) (cause : RegistryError ε) (s₁ s : State ι σ ε ν)
    (gone : List (Frame ι σ ε ν)) : Prop where
  frames : (s₁.thread t).frames = gone ++ (s.thread t).frames
  stage : (s.thread t).stage.Climbed cause gone
  entries : ∀ k, Dictionary.find? k s.store.table.entries
    = if k ∈ gone.map (fun f => f.call.key) then none
      else Dictionary.find? k s₁.store.table.entries

theorem Climbed.refl (h : (s.thread t).stage = .running (.fail cause)) : Climbed t cause s s [] :=
  ⟨rfl, h ▸ .running [], fun _ => rfl⟩

/-- **A failure climbs by one construction at a time.** -/
theorem Climbed.climbs (h : Climbed t cause s₁ s gone)
    (hc : Climbs s.store s'.store (s.thread t) (s'.thread t)) :
    ∃ gone', Climbed t cause s₁ s' gone' := by
  obtain ⟨hframes, hstage, hentries⟩ := h
  generalize s.thread t = th at hframes hstage hc
  generalize hth' : s'.thread t = th' at hc
  cases hc with
  | stays _ hS =>
      refine ⟨gone, ?_, hth' ▸ hstage, fun k => ?_⟩
      · rw [hth', hframes]
      · rw [hS.entries, hentries]
  | @undoes f frames e hundone =>
      cases hstage with
      | running =>
          refine ⟨gone ++ [f], ?_, ?_, fun k => ?_⟩
          · rw [hth', hframes, List.append_assoc, List.singleton_append]
          · rw [hth']
            exact .ending gone f
          · rw [hundone, hentries]
            by_cases hk : f.call.key = k
            · simp [hk]
            · simp [hk, Ne.symm hk]
  | announces hS =>
      cases hstage with
      | ending inner f =>
          refine ⟨inner ++ [f], ?_, ?_, fun k => ?_⟩
          · rw [hth', hframes]
          · rw [hth']
            exact .failing inner f
          · rw [hS.entries, hentries]
  | wraps hS =>
      cases hstage with
      | failing inner f =>
          refine ⟨inner ++ [f], ?_, ?_, fun k => ?_⟩
          · rw [hth', hframes]
          · rw [hth', ← wrapped_concat]
            exact .running _
          · rw [hS.entries, hentries]

/-! ### Where a failure came about -/

/-- No thread but the given one moves. -/
def Alone (t : ThreadId) (as : List (Action σ)) : Prop := ∀ a ∈ as, ∀ u ∈ a.actor?, u = t

/-- The failure of a thread goes on. -/
def Falls (t : ThreadId) (s : State ι σ ε ν) (_ : Action σ) (s' : State ι σ ε ν) : Prop :=
  Climbs s.store s'.store (s.thread t) (s'.thread t)

/-- **Every failure came about in some action of the run**, and has climbed since. -/
theorem exists_origin (hR : R.Honest) (hs : Reachable R s) (halone : Alone t as)
    (hp : perform R as s = some s') (hstart : (s.thread t).stage.error? = none)
    (he : (s'.thread t).stage.error? = some e) : ∃ as₁ a as₂ s₀ s₁ cause gone,
      as = as₁ ++ a :: as₂ ∧ perform R as₁ s = some s₀ ∧ act R a s₀ = some s₁ ∧
      Causes R t s₀ cause ∧ (s₁.thread t).stage = .running (.fail cause) ∧
      perform R as₂ s₁ = some s' ∧ Throughout R (Falls t) as₂ s₁ ∧
      Climbed t cause s₁ s' gone := by
  induction as using List.reverseRecOn generalizing s' e with
  | nil =>
      obtain rfl := Option.some.inj hp
      rw [hstart] at he
      cases he
  | append_singleton as a ih =>
      rw [perform_append, Option.bind_eq_some_iff] at hp
      obtain ⟨s₂, hp, ha⟩ := hp
      rw [perform_cons, Option.bind_eq_some_iff] at ha
      obtain ⟨s₃, ha, hnil⟩ := ha
      obtain rfl := Option.some.inj hnil
      have hs₂ := hs.run (run_iff_perform.2 ⟨as, hp⟩)
      rcases climbs_of_act hR hs₂ ha (halone a (by simp)) he with hclimbs | ⟨hcauses, hfail⟩
      · obtain ⟨e', he'⟩ := hclimbs.error? he
        obtain ⟨as₁, a₀, as₂, s₀, s₁, cause, gone, rfl, hp₁, ha₀, hcauses, hfail, hp₂, hfalls,
          hclimbed⟩ := ih (fun b hb => halone b (List.mem_append_left _ hb)) hp he'
        obtain ⟨gone', hclimbed'⟩ := hclimbed.climbs hclimbs
        exact ⟨as₁, a₀, as₂ ++ [a], s₀, s₁, cause, gone', by simp, hp₁, ha₀, hcauses, hfail,
          perform_snoc hp₂ ha, hfalls.append hp₂ (.single ha hclimbs), hclimbed'⟩
      · exact ⟨as, a, [], s₂, s₃, e, [], rfl, hp, ha, hcauses, hfail, rfl, trivial, .refl hfail⟩

/-! ### Failed calls -/

/-- A call that ends with the error of a failed construction is about to report it. -/
theorem Returns.failing {reference : String} {source : RegistryError ε}
    (h : Returns R t frames c (.error (.constructionFailed reference source)) s) :
    s.thread t = ⟨frames, .failing c (.error source)⟩ ∧ reference = c.reference := by
  rcases h.looks_or_failing with hlooks | ⟨source', hfailing, heq⟩
  · have hanswer := h.answer
    rw [answer?_of_looks hlooks] at hanswer
    cases hentry : Dictionary.find? c.key s.store.table.entries with
    | some entry => simp [hentry] at hanswer
    | none =>
        simp only [hentry, Option.map_eq_some_iff, Except.error.injEq, exists_eq_right] at hanswer
        cases Setup.isRejection_of_refusal hanswer
  · rw [RegistryError.constructionFailed.injEq] at heq
    obtain ⟨rfl, rfl⟩ := heq
    exact ⟨by rw [State.eq_thread s t, h.frames, hfailing], rfl⟩

/-- A thread that makes a call is not in the middle of a failure. -/
theorem Calls.error?_eq_none {r : Request} (h : Calls t r s a) (ha : Registry.act R a s = some s') :
    (s.thread t).stage.error? = none := by
  cases h with
  | outside =>
      simp only [Registry.act, Option.ite_none_right_eq_some] at ha
      have hr := State.isResting_of_isIdle ha.1
      generalize (s.thread t).stage = stage at hr ⊢
      cases stage <;> first | rfl | cases hr
  | factory hstage =>
      rw [hstage]
      rfl

theorem Underway.start (h : Underway R t frames c s as s') :
    (s.thread t).stage.error? = none := by
  induction h with
  | made hcalls _ ha => exact hcalls.error?_eq_none ha
  | goes _ _ _ ih => exact ih

/-- The failure of a construction is reported, and nothing is taken back by that. -/
theorem step_of_failing (R : Setup ι σ ε ν) (hth : s.thread t = ⟨frames, .failing c (.error e)⟩) :
    ∃ s', step R t s = some s' ∧ Preserves s.store s'.store ∧
      s'.thread t = ⟨frames, c.deliver (.error (.constructionFailed c.reference e))⟩ := by
  refine ⟨reportFailure t frames c (.error e) s, ?_, ⟨rfl, rfl⟩, State.thread_put_self _ _ _ _⟩
  rw [step_eq_stepThread, hth]
  rfl

/-- The constructions that a failed call reports: from the one in which the failure came about
outwards to the call's own. -/
theorem Climbed.of_failing {source : RegistryError ε} (h : Climbed t cause s₁ s gone)
    (hth : s.thread t = ⟨frames, .failing c (.error source)⟩) :
    (s₁.thread t).frames = gone ++ frames ∧ gone.getLast?.map Frame.call = some c ∧
      .constructionFailed c.reference source = wrapped gone cause := by
  obtain ⟨hframes, hstage, -⟩ := h
  rw [hth] at hframes hstage
  refine ⟨hframes, ?_⟩
  cases hstage with
  | failing inner f => exact ⟨by simp, (wrapped_concat ..).symm⟩

/-- What was ready at some moment is ready in all later ones, with the same instance. -/
theorem ready_of_run (hs : Reachable R s) (h : Run R s s') {k : Key} {i : InstanceId} {x : ι}
    (hk : Dictionary.find? k s.store.table.entries = some (.ready i))
    (hx : s.store.instances[i]? = some x) :
    Dictionary.find? k s'.store.table.entries = some (.ready i) ∧
      s'.store.instances[i]? = some x :=
  ⟨hs.legal.ready_of_changes h.changes hk, instances_of_changes h.changes hx⟩

/-- The path to the failure with which a call ends: in the first state the failure has just come
about, in the last one the call has returned. -/
structure FailurePath (R : Setup ι σ ε ν) (t : ThreadId) (frames : List (Frame ι σ ε ν))
    (c : Call ι σ ε ν) (s : State ι σ ε ν) (as : List (Action σ)) (s' : State ι σ ε ν)
    (nested : List (Frame ι σ ε ν)) (cause e : RegistryError ε) : Prop where
  /-- these constructions were nested in one another when the failure came about -/
  thread : s.thread t = ⟨nested ++ frames, .running (.fail cause)⟩
  /-- the outermost of them is the construction of the call -/
  outermost : nested.getLast?.map Frame.call = some c
  /-- their keys and references are those of what was asked for -/
  named : ∀ f ∈ nested, f.call.Named
  /-- since then the failure has climbed: each construction took back its own key, and wrapped the
  error once -/
  falls : Throughout R (Falls t) as s
  /-- the references of the error are those of the constructions, outermost first -/
  references : e.failedReferences = (nested.map fun f => f.call.reference).reverse
  /-- the end of the chain is what came about, unchanged -/
  terminal : e.cause = cause
  /-- no key is constructed twice on the path -/
  distinct : (nested.map fun f => f.call.key).Nodup
  /-- the keys of the path have no entries, and all others have those that they had -/
  entries : ∀ k, Dictionary.find? k s'.store.table.entries
    = if k ∈ nested.map (fun f => f.call.key) then none
      else Dictionary.find? k s.store.table.entries
  /-- the call returns the error -/
  returned : s'.thread t = ⟨frames, c.deliver (.error e)⟩

/-- When the failure of a call is reported, its path is known. -/
theorem Climbed.path {source : RegistryError ε} {s₀ s'' : State ι σ ε ν}
    (h : Climbed t cause s₁ s' gone) (hs₁ : Reachable R s₁)
    (hfail : (s₁.thread t).stage = .running (.fail cause)) (hcauses : Causes R t s₀ cause)
    (hfalls : Throughout R (Falls t) as s₁)
    (hth' : s'.thread t = ⟨frames, .failing c (.error source)⟩) (hS : Preserves s'.store s''.store)
    (hth'' : s''.thread t = ⟨frames, c.deliver (.error (.constructionFailed c.reference source))⟩) :
    FailurePath R t frames c s₁ as s'' gone cause (.constructionFailed c.reference source) := by
  obtain ⟨hframes, houtermost, hwrapped⟩ := h.of_failing hth'
  obtain ⟨hterminal, hcause⟩ := hcauses.terminal
  have hdistinct := hs₁.legal.owned.distinct t
  have hnamed := hs₁.named t
  rw [State.eq_thread s₁ t, Thread.calls_of_none (by rw [hfail]; rfl)] at hnamed
  rw [hframes, List.map_append] at hdistinct hnamed
  exact {
    thread := by rw [State.eq_thread s₁ t, hframes, hfail]
    outermost := houtermost
    named := fun f hf => hnamed f.call (List.mem_append_left _ (List.mem_map_of_mem hf))
    falls := hfalls
    references := by rw [hwrapped, failedReferences_wrapped, hterminal, List.append_nil]
    terminal := by rw [hwrapped, cause_wrapped, hcause]
    distinct := hdistinct.of_append_left
    entries := fun k => by rw [hS.entries, h.entries]
    returned := hth'' }

/-- **A failed construction reports the path to the failure.**

Scripted factories are honest.  If all factories are, and a call of a run ends with the error of a
failed construction, then the call was made in some action; and if no other thread has moved since,
the failure came about in an action of the call: the factory of the innermost construction failed by
itself, or with the rejection of its request.  The error tells the constructions that were nested in
one another then, outermost first, and at its end what came about.  Their keys are distinct, and
nothing else is taken back; what was ready at any moment of the call still is when it returns, with
the same instance. -/
theorem failure_reports_path :
    (∀ R : Setup Scenario.Shape Scenario.Notes String Scenario.Event,
      (∀ name factory, Dictionary.find? name R.factories = some factory →
        ∃ tag script, factory = Scenario.Script.factory tag script) → R.Honest) ∧
    ∀ {ι σ ε ν : Type} (R : Setup ι σ ε ν), R.Honest →
      ∀ (notes : σ) (asked : Nat) (as : List (Action σ)) (s' : State ι σ ε ν) (t : ThreadId)
        (frames : List (Frame ι σ ε ν)) (c : Call ι σ ε ν) (reference : String)
        (source : RegistryError ε), perform R as (State.initial notes asked) = some s' →
      Returns R t frames c (.error (.constructionFailed reference source)) s' →
      ∃ as₁ as₂ s, as = as₁ ++ as₂ ∧ perform R as₁ (State.initial notes asked) = some s ∧
        Underway R t frames c s as₂ s' ∧
        (Alone t as₂ → ∃ s'', step R t s' = some s'' ∧
          (∃ as₃ a as₄ s₀ s₁ nested cause, as₂ = as₃ ++ a :: as₄ ∧
            perform R as₃ s = some s₀ ∧ act R a s₀ = some s₁ ∧ Causes R t s₀ cause ∧
            FailurePath R t frames c s₁ as₄ s'' nested cause
              (.constructionFailed reference source)) ∧
          ∀ as₃ as₄ s₃ k i x, as₂ = as₃ ++ as₄ → perform R as₃ s = some s₃ →
            Dictionary.find? k s₃.store.table.entries = some (.ready i) →
            s₃.store.instances[i]? = some x →
            Dictionary.find? k s''.store.table.entries = some (.ready i) ∧
              s''.store.instances[i]? = some x) := by
  refine ⟨?_, ?_⟩
  · intro R hscripted name factory hfactory site
    obtain ⟨tag, script, rfl⟩ := hscripted name factory hfactory
    exact Scenario.honest_factory tag script site
  · intro ι σ ε ν R hR notes asked as s' t frames c reference source hrun hreturns
    obtain ⟨as₁, as₂, s, rfl, hp₁, hunderway⟩ := hreturns.amid.underway hrun
    refine ⟨as₁, as₂, s, rfl, hp₁, hunderway, fun halone => ?_⟩
    have hs : Reachable R s := reachable_iff_perform.2 ⟨notes, asked, as₁, hp₁⟩
    have hp := hunderway.perform
    obtain ⟨hth', rfl⟩ := hreturns.failing
    obtain ⟨s'', hstep, hS, hth''⟩ := step_of_failing R hth'
    refine ⟨s'', hstep, ?_, ?_⟩
    · obtain ⟨as₃, a, as₄, s₀, s₁, cause, nested, rfl, hp₃, ha, hcauses, hfail, -, hfalls,
        hclimbed⟩ := exists_origin hR hs halone hp hunderway.start (e := source) (by rw [hth']; rfl)
      have hs₁ := hs.run (run_iff_perform.2 ⟨as₃ ++ [a], perform_snoc hp₃ ha⟩)
      exact ⟨as₃, a, as₄, s₀, s₁, nested, cause, rfl, hp₃, ha, hcauses,
        hclimbed.path hs₁ hfail hcauses hfalls hth' hS hth''⟩
    · intro as₃ as₄ s₃ k i x has hp₃ hk hx
      rw [has, perform_append, hp₃, Option.bind_some] at hp
      exact ready_of_run (hs.run (run_iff_perform.2 ⟨as₃, hp₃⟩))
        ((run_iff_perform.2 ⟨as₄, hp⟩).next (.step t hstep)) hk hx

/-- A page links to a node, which is broken after it has linked to a leaf. -/
def tornScripts : List (String × Tag × Scenario.Script) := [
  ("Page", ⟨"object"⟩, [⟨.resolve (.bare "Node") none false true none false, none, none⟩]),
  ("Node", ⟨"object"⟩, [⟨.resolve (.bare "Leaf") none false true none false, none, none⟩,
    ⟨.fail "broken", none, none⟩]),
  ("Leaf", ⟨"object"⟩, [])]

def torn : Setup Scenario.Shape Scenario.Notes String Scenario.Event where
  factories := tornScripts.map fun f => (f.1, Scenario.Script.factory f.2.1 f.2.2)
  admits := fun _ _ _ => true

/-- A page is asked for, up to the step that reports its failure. -/
def tearing : List (Action Scenario.Notes) :=
  .call 0 ⟨.bare "Page", none⟩ :: List.replicate 22 (.step 0)

def tornState : State Scenario.Shape Scenario.Notes String Scenario.Event :=
  (perform torn tearing (State.initial {} 0)).getD (State.initial {} 0)

/-- The references and the cause of the failed construction that a call is about to report. -/
def reported? (R : Setup ι σ ε ν) (t : ThreadId) (s : State ι σ ε ν) :
    Option (List String × RegistryError ε) :=
  match answer? R t s with
  | some (.error (.constructionFailed reference source)) =>
    some ((RegistryError.constructionFailed reference source).failedReferences, source.cause)
  | _ => none

theorem exists_of_reported {p : List String × RegistryError ε} (h : reported? R t s = some p) :
    ∃ reference source, answer? R t s = some (.error (.constructionFailed reference source)) ∧
      (RegistryError.constructionFailed reference source).failedReferences = p.1 ∧
      source.cause = p.2 := by
  unfold reported? at h
  split at h
  · rename_i reference source hanswer
    obtain rfl := Option.some.inj h
    exact ⟨reference, source, hanswer, rfl, rfl⟩
  · cases h

/-- The page fails because the node does, and the node because it is broken. -/
theorem page_fails_with_node : ∃ c reference source as₁ as₂ s s', tearing = as₁ ++ as₂ ∧
    Underway torn 0 [] c s as₂ tornState ∧ Alone 0 as₂ ∧
    Returns torn 0 [] c (.error (.constructionFailed reference source)) tornState ∧
    step torn 0 tornState = some s' ∧
    ∃ s₁ as₄ nested, FailurePath torn 0 [] c s₁ as₄ s' nested (.raised "broken")
        (.constructionFailed reference source) ∧
      (nested.map fun f => f.call.reference) = ["Node", "Page"] := by
  obtain ⟨hsome, hframes, hcall, hreported⟩ :
      (perform torn tearing (State.initial {} 0)).isSome = true ∧
      (tornState.thread 0).frames.isEmpty = true ∧
      (tornState.thread 0).stage.call?.isSome = true ∧
      reported? torn 0 tornState = some (["Page", "Node"], .raised "broken") := by
    decide +kernel
  have halone : Alone 0 tearing := by
    intro a ha u hu
    rcases List.mem_cons.1 ha with rfl | ha
    · exact (Option.some.inj hu).symm
    · rw [List.eq_of_mem_replicate ha] at hu
      exact (Option.some.inj hu).symm
  have hp : perform torn tearing (State.initial {} 0) = some tornState := by
    obtain ⟨s, hs⟩ := Option.isSome_iff_exists.1 hsome
    rw [tornState, hs, Option.getD_some]
  obtain ⟨c, hc⟩ := Option.isSome_iff_exists.1 hcall
  obtain ⟨reference, source, hanswer, hreferences, hcause⟩ := exists_of_reported hreported
  have hreturns : Returns torn 0 [] c (.error (.constructionFailed reference source)) tornState :=
    ⟨List.isEmpty_iff.1 hframes, hc, hanswer⟩
  have hscripted : torn.Honest := by
    refine failure_reports_path.1 torn fun name factory hfactory => ?_
    obtain ⟨f, -, hf⟩ := List.mem_map.1 (Dictionary.mem_of_find? hfactory)
    exact ⟨f.2.1, f.2.2, (Prod.mk.inj hf).2.symm⟩
  obtain ⟨as₁, as₂, s, has, -, hunderway, hpath⟩ := failure_reports_path.2 torn hscripted {} 0
    tearing tornState 0 [] c reference source hp hreturns
  have halone₂ : Alone 0 as₂ := fun a ha => halone a (has ▸ List.mem_append_right _ ha)
  obtain ⟨s', hstep, ⟨as₃, a, as₄, s₀, s₁, nested, cause, -, -, -, -, hfailure⟩, -⟩ := hpath halone₂
  obtain rfl : cause = .raised "broken" := hfailure.terminal.symm.trans hcause
  refine ⟨c, reference, source, as₁, as₂, s, s', has, hunderway, halone₂, hreturns, hstep, s₁, as₄,
    nested, hfailure, ?_⟩
  rw [← List.reverse_inj, ← hfailure.references, hreferences]
  rfl

end SchemaGraph.Registry
