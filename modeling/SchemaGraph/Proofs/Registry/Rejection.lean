/-
**A rejected call changes nothing.**

A call is rejected when its identifier has no stable form, or when a look-up finds its key absent
and the registry has no factory for it that the family admits.  Until then it may have looked up its
key before, found it under construction by another thread, waited, and been woken by a failure.  All
that it has done by then is to leave a waiting record, and to take it back.

The course of a call is followed action by action, from the action that makes it on.

Main definitions:

* `Seeks` — a thread is looking for the key of a call;
* `Harmless` — **the invariant**: what holds of each action of a call that is still looking for its
  key.

Main results:

* `Seeks.before` — a call that is looking for its key was doing so before, or has been made;
* `Underway.harmless` — a call that is still looking for its key has done no harm since it was made;
* `rejection_changes_nothing` — **a rejected call changes nothing, only absent keys are checked, and
  every construction was admitted by one question**.
-/

import SchemaGraph.Proofs.Registry.Confluence
import SchemaGraph.Proofs.Registry.Sleep
import SchemaGraph.Proofs.Registry.Underway

set_option autoImplicit false

namespace SchemaGraph.Registry

variable {ι σ ε ν : Type} {R : Setup ι σ ε ν} {s s' s'' : State ι σ ε ν} {t u : ThreadId}
  {frames : List (Frame ι σ ε ν)} {stage : Stage ι σ ε ν} {c : Call ι σ ε ν} {r : Request}
  {th th' : Thread ι σ ε ν} {a : Action σ} {as bs : List (Action σ)}

/-! ### Calls that look for their keys -/

@[simp] theorem Stage.seeks_answered (resume : Option (Answer ε → Program ι σ ε ν))
    (x : Answer ε) : (Stage.answered resume x).seeks = none := by
  cases resume <;> rfl

@[simp] theorem Call.seeks_deliver (c : Call ι σ ε ν) (x : Answer ε) :
    (c.deliver x).seeks = none := Stage.seeks_answered _ _

@[simp] theorem Call.seeks_deliverFailure (c : Call ι σ ε ν) (failure : Failure ε) :
    (c.deliverFailure failure).seeks = none := by
  cases failure with
  | error e => exact c.seeks_deliver _
  | panic message => cases hr : c.resume <;> simp [deliverFailure, hr, Stage.seeks]

theorem Stage.seeks_of_isResting (h : stage.isResting = true) : stage.seeks = none := by
  cases stage <;> first | rfl | simp [isResting] at h

/-- A call that is looking for its key was doing so before, or has just been made. -/
theorem Moved.sought {S S' : Store ι} {rs : List Request} (hm : Moved R S S' rs th th')
    (h : th'.stage.seeks = some c) :
    (th.frames = th'.frames ∧ th.stage.seeks = some c) ∨ th.Makes rs c th' := by
  cases hm with
  | stays => exact Or.inl ⟨rfl, h⟩
  | arrives _ hr _ =>
      obtain rfl := Option.some.inj h
      exact Or.inr (.outside rfl rfl hr rfl)
  | asks =>
      obtain rfl := Option.some.inj h
      exact Or.inr (.factory _ rfl rfl rfl)
  | sleeps _ hlooks =>
      obtain rfl := Option.some.inj h
      exact Or.inl ⟨rfl, Stage.seeks_of_looks hlooks⟩
  | refused | reports => simp only [Call.seeks_deliver, reduceCtorEq] at h
  | reportsFailure => simp only [Call.seeks_deliverFailure, reduceCtorEq] at h
  | _ => simp [Stage.seeks] at h

/-- A thread is looking for the key of a call, which it made above the given constructions. -/
structure Seeks (t : ThreadId) (frames : List (Frame ι σ ε ν)) (c : Call ι σ ε ν)
    (s : State ι σ ε ν) : Prop where
  frames : (s.thread t).frames = frames
  seeks : (s.thread t).stage.seeks = some c

theorem Seeks.call?_eq (h : Seeks t frames c s) : (s.thread t).stage.call? = some c := by
  have hseeks := h.seeks
  generalize (s.thread t).stage = stage at hseeks ⊢
  cases stage with
  | looking | asleep => exact hseeks
  | _ => cases hseeks

theorem Seeks.amid (h : Seeks t frames c s) : (s.thread t).Amid frames c :=
  .call h.frames h.call?_eq

/-- **A call that is looking for its key was doing so before an action, or was made in it.** -/
theorem Seeks.before (h : Seeks t frames c s') (hs : Legal s) (ha : act R a s = some s') :
    Seeks t frames c s ∨ (Calls t c.request s a ∧ (s.thread t).frames = frames ∧
      s'.thread t = ⟨frames, .looking c false⟩) := by
  obtain ⟨hframes, hseeks⟩ := h
  cases acted_of_act ha t with
  | aside hth => exact Or.inl ⟨hth ▸ hframes, hth ▸ hseeks⟩
  | notified hth =>
      rw [hth, Thread.frames_notify] at hframes
      rw [hth, Thread.seeks_notify] at hseeks
      exact Or.inl ⟨hframes, hseeks⟩
  | moved hmove hm =>
      exact (hm.sought hseeks).imp (fun ⟨hsame, hseeks⟩ => ⟨hsame.trans hframes, hseeks⟩)
        fun hmakes => hmakes.calls hs hmove hframes
  | awaits x hth =>
      rw [hth] at hseeks
      cases hseeks
  | passes _ hth =>
      rw [hth] at hseeks
      cases hseeks

/-! ### Calls that do no harm -/

/-- A thread begins no construction in an action, and when the action is its own, nothing is
touched, and the family is not asked. -/
structure Harmless (t : ThreadId) (frames : List (Frame ι σ ε ν)) (s : State ι σ ε ν) (a : Action σ)
    (s' : State ι σ ε ν) : Prop where
  before : (s.thread t).frames = frames
  after : (s'.thread t).frames = frames
  own : a.actor? = some t → Untouched t s s' ∧ s'.store.asked = s.store.asked

/-- A call that goes on looking for its key has touched nothing. -/
theorem Seeks.untouched (h : Seeks t frames c s) (h' : Seeks t frames c s')
    (hstep : step R t s = some s') : Untouched t s s' ∧ s'.store.asked = s.store.asked := by
  obtain ⟨hframes, hseeks⟩ := h
  obtain ⟨-, hseeks'⟩ := h'
  have hlooks : (s.thread t).stage.looks = some c := by
    rw [step_eq_stepThread] at hstep
    generalize s.thread t = th at hseeks hstep
    obtain ⟨frames', stage⟩ := th
    cases stage with
    | looking c' w => exact hseeks
    | asleep c' notified =>
        cases notified with
        | false => simp [stepThread] at hstep
        | true => exact hseeks
    | _ => cases hseeks
  obtain ⟨w, S, hS, hasked, hlook⟩ := stepThread_of_looks hlooks t s
  rw [step_eq_stepThread, hlook R (s.thread t).frames, Option.some.injEq] at hstep
  subst hstep
  cases he : Dictionary.find? c.key (s.withStore S).store.table.entries with
  | some e =>
      obtain ⟨S', stage', hasked', hstage, hlook'⟩ :=
        look_of_entry R t (s.thread t).frames he w
      rw [hlook' R.admits] at hseeks' ⊢
      rw [State.thread_put_self] at hseeks'
      rcases hstage with ⟨o, x, rfl⟩ | ⟨rfl, hS'⟩
      · cases hseeks'
      · exact ⟨.put (hS.trans hS') _ _, hasked'.trans hasked⟩
  | none =>
      rw [look_of_none he w] at hseeks'
      cases hrefusal : R.refusal? (s.withStore S).store.asked c.request with
      | some e =>
          obtain ⟨S', -, hbegin⟩ := begin_of_refusal t (s.thread t).frames hrefusal
          rw [hbegin, State.thread_put_self, Call.seeks_deliver] at hseeks'
          cases hseeks'
      | none =>
          obtain ⟨_, _, _, -, -, -, hbegin⟩ := begin_of_admitted t (s.thread t).frames hrefusal
          rw [hbegin, State.thread_put_self] at hseeks'
          cases hseeks'

theorem Seeks.harmless (h : Seeks t frames c s) (h' : Seeks t frames c s')
    (ha : act R a s = some s') : Harmless t frames s a s' := by
  have hnot : s.isIdle t = true → False := by
    intro hi
    have hseeks := h.seeks
    rw [Stage.seeks_of_isResting (State.isResting_of_isIdle hi)] at hseeks
    cases hseeks
  refine ⟨h.frames, h'.frames, fun hactor => ?_⟩
  cases a with
  | step u =>
      obtain rfl := Option.some.inj hactor
      exact h.untouched h' ha
  | call u r | await u x =>
      obtain rfl := Option.some.inj hactor
      simp only [act, Option.ite_none_right_eq_some] at ha
      exact absurd ha.1 hnot
  | passGate u =>
      obtain rfl := Option.some.inj hactor
      obtain rfl := Option.some.inj ha
      have hgate : s.passGate u = s := by
        refine State.passGate_of_not_gate fun name next hstage => ?_
        have hseeks := h.seeks
        rw [hstage] at hseeks
        cases hseeks
      rw [hgate]
      exact ⟨.refl u s, rfl⟩
  | _ => cases hactor

/-- A call that begins touches nothing. -/
theorem untouched_enter (R : Setup ι σ ε ν) (t : ThreadId) (frames : List (Frame ι σ ε ν))
    (r : Request) (resume : Option (Answer ε → Program ι σ ε ν)) (s : State ι σ ε ν) :
    Untouched t s (enter R t frames r resume s) ∧
      (enter R t frames r resume s).store.asked = s.store.asked := by
  cases hk : Key.ofIdentifier r.identifier r.context with
  | error reason =>
      simp only [enter, hk]
      exact ⟨.put (.refl t s.store) _ _, rfl⟩
  | ok key =>
      simp only [enter, hk]
      split
      · refine ⟨⟨.refl t _, fun _ => ⟨rfl, rfl⟩, rfl, rfl, fun u hu => ?_, [(t, _)], rfl, ?_⟩, rfl⟩
        · exact State.thread_put_of_ne hu.symm _ _ _
        · intro p hp
          exact ⟨_, _, List.mem_singleton.1 hp⟩
      · exact ⟨.put (.refl t s.store) _ _, rfl⟩

/-- A thread that makes a call has no waiting record. -/
theorem Underway.not_waiting (h : Underway R t frames c s as s') (hs : Legal s) :
    Dictionary.find? t s.store.table.waiting = none := by
  induction h with
  | made hcalls _ ha =>
      have hnone := hcalls.call?_eq_none ha
      rw [hs.waiting_eq]
      generalize (s.thread t).stage = stage at hnone ⊢
      cases stage with
      | asleep => cases hnone
      | _ => rfl
  | goes _ _ _ ih => exact ih

/-- **A call that is still looking for its key has done no harm**, whatever else has happened. -/
theorem Underway.harmless (h : Underway R t frames c s as s') (hs : Legal s)
    (hseeks : Seeks t frames c s') : Throughout R (Harmless t frames) as s := by
  induction h with
  | made hcalls hframes ha hth =>
      refine .single ha ⟨hframes, by rw [hth], fun _ => ?_⟩
      rw [hcalls.act hs ha]
      exact untouched_enter ..
  | @goes a as s' s'' hunderway ha hcalls ih =>
      have hs' : Legal s' := hs.changes (run_iff_perform.2 ⟨as, hunderway.perform⟩).changes
      rcases hseeks.before hs' ha with h | ⟨hnew, hframes, -⟩
      · exact (ih h).append hunderway.perform (.single ha (h.harmless hseeks ha))
      · -- the call that is made would be another one, above the one in progress
        have hlen := hunderway.inProgress
        rw [State.eq_thread s' t, Thread.calls_of_none (hnew.call?_eq_none ha), hframes,
          List.length_map] at hlen
        exact absurd hlen (Nat.lt_irrefl _)

/-! ### Where constructions begin -/

/-- Only a look-up that finds its key absent begins a construction. -/
theorem Moved.grows {S S' : Store ι} {rs : List Request} (hm : Moved R S S' rs th th')
    (h : th.frames.length < th'.frames.length) :
    ∃ c, th.stage.looks = some c ∧ Dictionary.find? c.key S.table.entries = none := by
  cases hm with
  | claims _ hlooks hc hnone =>
      subst hc
      exact ⟨_, hlooks, hnone⟩
  | publishes | undoes =>
      simp only [List.length_cons] at h
      omega
  | arrives | misled | awaits => simp at h
  | _ => exact absurd h (Nat.lt_irrefl _)

/-- A construction begins in a step of the thread that makes the call. -/
theorem act_grows (ha : act R a s = some s')
    (h : (s.thread t).frames.length < (s'.thread t).frames.length) :
    a = .step t ∧ ∃ c, (s.thread t).stage.looks = some c ∧
      Dictionary.find? c.key s.store.table.entries = none := by
  cases acted_of_act ha t with
  | aside hth =>
      rw [hth] at h
      exact absurd h (Nat.lt_irrefl _)
  | notified hth =>
      rw [hth, Thread.frames_notify] at h
      exact absurd h (Nat.lt_irrefl _)
  | moved hmove hm =>
      obtain ⟨c, hlooks, hnone⟩ := hm.grows h
      cases hmove with
      | step => exact ⟨rfl, c, hlooks, hnone⟩
      | call r hr =>
          have hseeks := Stage.seeks_of_looks hlooks
          rw [Stage.seeks_of_isResting hr] at hseeks
          cases hseeks
  | awaits x hth =>
      rw [hth] at h
      exact absurd h (Nat.not_lt_zero _)
  | passes _ hth =>
      rw [hth] at h
      exact absurd h (Nat.lt_irrefl _)

/-! ### Rejected calls -/

/-- **A rejected call changes nothing, and only absent keys are checked.**

A call whose identifier has no stable form ends in the action that makes it, which touches nothing.
A call that is rejected later has a key and is rejected by a look-up that finds the key absent, for
the reason that the registry has then; up to there, whatever other threads have done and however
often it has waited, its thread has begun no construction, and its own steps, like the last one,
have touched nothing; it leaves no waiting record, as it had none when it was made.  A look-up that
finds an entry goes on in the same way whatever the family would say, does not ask it and does not
end the call.  And a construction begins in a step that finds its key absent and asks the family
once, which admits its name and tag; the call that it is for has not asked the family before. -/
theorem rejection_changes_nothing (R : Setup ι σ ε ν) :
    (∀ s s' t r a, Reachable R s → Calls t r s a → act R a s = some s' →
      (∀ reason, r.key = .error reason → Untouched t s s' ∧ s'.store.asked = s.store.asked ∧
        s'.log = s.log ∧ s'.thread t = ⟨(s.thread t).frames, .answered (s.thread t).stage.asker
          (.error (.invalidIdentifier r.identifier.display reason))⟩) ∧
      (∀ key, r.key = .ok key → ∃ c, c.request = r ∧ c.key = key ∧
        Underway R t (s.thread t).frames c s [a] s')) ∧
    (∀ s s' t frames c e as, Reachable R s → Underway R t frames c s as s' →
      Returns R t frames c (.error e) s' → e.isRejection = true →
      Throughout R (Harmless t frames) as s ∧
      Dictionary.find? c.key s'.store.table.entries = none ∧
      R.refusal? s'.store.asked c.request = some e ∧
      ∃ s'', step R t s' = some s'' ∧ Untouched t s' s'' ∧
        s''.thread t = ⟨frames, c.deliver (.error e)⟩ ∧
        Dictionary.find? t s.store.table.waiting = none ∧
        Dictionary.find? t s''.store.table.waiting = none) ∧
    (∀ s t c entry, (s.thread t).stage.looks = some c →
      Dictionary.find? c.key s.store.table.entries = some entry → ∃ s' stage,
        (∀ admits, step { R with admits := admits } t s = some s') ∧
        s'.thread t = ⟨(s.thread t).frames, stage⟩ ∧
        ((∃ o h, stage = .reporting c o h) ∨ stage = .asleep c false) ∧
        s'.store.asked = s.store.asked ∧ answer? R t s = none) ∧
    (∀ notes asked as s s' t a, perform R as (State.initial notes asked) = some s →
      act R a s = some s' → (s.thread t).frames.length < (s'.thread t).frames.length →
      a = .step t ∧ ∃ c as₁ as₂ s₁ factory slot, as = as₁ ++ as₂ ∧
        perform R as₁ (State.initial notes asked) = some s₁ ∧
        Underway R t (s.thread t).frames c s₁ as₂ s ∧
        Throughout R (Harmless t (s.thread t).frames) as₂ s₁ ∧
        Dictionary.find? c.key s.store.table.entries = none ∧
        Dictionary.find? c.request.identifier.name R.factories = some factory ∧
        R.admits s.store.asked c.request.identifier.name factory.tag = true ∧
        s'.store.asked = s.store.asked + 1 ∧
        s'.thread t = ⟨⟨c, slot⟩ :: (s.thread t).frames,
          .running (factory.build ⟨c.request.identifier, c.request.context, c.key⟩)⟩) := by
  refine ⟨?_, ?_, ?_, ?_⟩
  · intro s s' t r a hs hcalls ha
    have henter := hcalls.act hs.legal ha
    refine ⟨fun reason hk => ?_, fun key hk => ?_⟩
    · obtain ⟨huntouched, hasked⟩ :=
        untouched_enter R t (s.thread t).frames r (s.thread t).stage.asker s
      rw [← henter] at huntouched hasked
      have hk' : Key.ofIdentifier r.identifier r.context = .error reason := hk
      simp only [enter, hk'] at henter
      exact ⟨huntouched, hasked, by rw [henter]; rfl, by rw [henter, State.thread_put_self]⟩
    · exact ⟨_, rfl, rfl, hcalls.underway hs.legal ha hk⟩
  · intro s s' t frames c e as hs hunderway hreturns he
    have hs' : Reachable R s' := hs.run (run_iff_perform.2 ⟨as, hunderway.perform⟩)
    have hlooks := hreturns.looks he
    have hanswer := hreturns.answer
    rw [answer?_of_looks hlooks] at hanswer
    cases hentry : Dictionary.find? c.key s'.store.table.entries with
    | some entry => simp [hentry] at hanswer
    | none =>
        have hrefusal : R.refusal? s'.store.asked c.request = some e := by
          simpa [hentry] using hanswer
        obtain ⟨s'', hstep, huntouched, hth⟩ := step_of_refusal hlooks hentry hrefusal
        rw [hreturns.frames] at hth
        have hs'' := hs'.next (.step t hstep)
        refine ⟨hunderway.harmless hs.legal ⟨hreturns.frames, Stage.seeks_of_looks hlooks⟩, rfl,
          hrefusal, s'', hstep, huntouched, hth, hunderway.not_waiting hs.legal, ?_⟩
        rw [hs''.legal.waiting_eq, hth]
        exact Stage.sleepsOn_of_isCalm (Call.isCalm_deliver _ _)
  · intro s t c entry hlooks hentry
    obtain ⟨s', stage, hstep, hth, hstage, hasked⟩ := step_of_entry R hlooks hentry
    refine ⟨s', stage, hstep, hth, hstage, hasked, ?_⟩
    rw [answer?_of_looks hlooks, hentry]
  · intro notes asked as s s' t a hp ha hgrows
    obtain ⟨rfl, c, hlooks, hentry⟩ := act_grows ha hgrows
    have hseeks : Seeks t (s.thread t).frames c s := ⟨rfl, Stage.seeks_of_looks hlooks⟩
    obtain ⟨as₁, as₂, s₁, rfl, hp₁, hunderway⟩ := hseeks.amid.underway hp
    have hs₁ : Reachable R s₁ := reachable_iff_perform.2 ⟨notes, asked, as₁, hp₁⟩
    cases hrefusal : R.refusal? s.store.asked c.request with
    | some e =>
        obtain ⟨s'', hstep, -, hth⟩ := step_of_refusal hlooks hentry hrefusal
        obtain rfl := Option.some.inj (hstep.symm.trans ha)
        rw [hth] at hgrows
        exact absurd hgrows (Nat.lt_irrefl _)
    | none =>
        obtain ⟨s'', factory, slot, hstep, hf, hadmits, hasked, hth⟩ :=
          step_of_admitted hlooks hentry hrefusal
        obtain rfl := Option.some.inj (hstep.symm.trans ha)
        exact ⟨rfl, c, as₁, as₂, s₁, factory, slot, rfl, hp₁, hunderway,
          hunderway.harmless hs₁.legal hseeks, hentry, hf, hadmits, hasked, hth⟩

/-- A family that admits one construction, of a type whose factory fails. -/
def sparing : Setup Nat Unit String Unit where
  factories := [("Node", ⟨⟨"object"⟩, fun _ => .fail (.raised "broken")⟩)]
  admits := fun asked _ _ => asked == 0

/-- The first thread constructs, the second one waits for it and is woken by the failure. -/
def rude : List (Action Unit) :=
  [.call 0 ⟨.bare "Node", none⟩, .step 0, .call 1 ⟨.bare "Node", none⟩, .step 1, .step 0, .step 0]

def awakened : State Nat Unit String Unit :=
  (perform sparing rude (State.initial () 0)).getD (State.initial () 0)

/-- A call is about to end with a rejection. -/
def rejects? (R : Setup ι σ ε ν) (t : ThreadId) (s : State ι σ ε ν) : Bool :=
  match answer? R t s with
  | some (.error e) => e.isRejection
  | _ => false

theorem exists_of_rejects (h : rejects? R t s = true) :
    ∃ e, answer? R t s = some (.error e) ∧ e.isRejection = true := by
  unfold rejects? at h
  cases hanswer : answer? R t s with
  | none => simp [hanswer] at h
  | some a =>
      cases a with
      | ok x => simp [hanswer] at h
      | error e => exact ⟨e, rfl, by simpa [hanswer] using h⟩

/-- The call of the second thread has waited, and is rejected after it was woken. -/
theorem awakened_rejected : ∃ c e as₁ as₂ s s', rude = as₁ ++ as₂ ∧
    perform sparing as₁ (State.initial () 0) = some s ∧
    Underway sparing 1 [] c s as₂ awakened ∧ Returns sparing 1 [] c (.error e) awakened ∧
    e.isRejection = true ∧
    (Dictionary.find? 1 awakened.store.table.waiting).isSome = true ∧
    Throughout sparing (Harmless 1 []) as₂ s ∧ step sparing 1 awakened = some s' ∧
    Untouched 1 awakened s' ∧ Dictionary.find? 1 s'.store.table.waiting = none := by
  obtain ⟨hsome, hframes, hseeks, hrejects, hwaits⟩ :
      (perform sparing rude (State.initial () 0)).isSome = true ∧
      (awakened.thread 1).frames.isEmpty = true ∧
      (awakened.thread 1).stage.seeks.isSome = true ∧ rejects? sparing 1 awakened = true ∧
      (Dictionary.find? 1 awakened.store.table.waiting).isSome = true := by
    decide +kernel
  have hp : perform sparing rude (State.initial () 0) = some awakened := by
    obtain ⟨s, hs⟩ := Option.isSome_iff_exists.1 hsome
    rw [awakened, hs, Option.getD_some]
  obtain ⟨c, hc⟩ := Option.isSome_iff_exists.1 hseeks
  have hseeks : Seeks 1 [] c awakened := ⟨List.isEmpty_iff.1 hframes, hc⟩
  obtain ⟨e, hanswer, he⟩ := exists_of_rejects hrejects
  obtain ⟨as₁, as₂, s, has, hs, hunderway⟩ := hseeks.amid.underway hp
  have hreturns : Returns sparing 1 [] c (.error e) awakened :=
    ⟨hseeks.frames, hseeks.call?_eq, hanswer⟩
  obtain ⟨hharmless, -, -, s', hstep, huntouched, -, -, hwaiting⟩ :=
    (rejection_changes_nothing sparing).2.1 s awakened 1 [] c e as₂
      (reachable_iff_perform.2 ⟨(), 0, as₁, hs⟩) hunderway hreturns he
  exact ⟨c, e, as₁, as₂, s, s', has, hs, hunderway, hreturns, he, hwaits, hharmless, hstep,
    huntouched, hwaiting⟩

end SchemaGraph.Registry
