/-
**The calls of a run, in order.**

A call is made, and it ends: with a handle, or without.  The marks of a run say so in the order in
which it happens, each with the thread that it is about.  The calls of one thread nest: a factory
calls while the call that it works for is in progress, and goes on when it is told the result.  So
the marks of a thread are those of whole calls one after the other, each with the marks of the calls
that were made for it before its own end; and what is left open are the calls in progress.

Main definitions:

* `Mark`, `marks`, `marksOf` — what a call comes to, in an action and for one thread;
* `callHistory` — the marks of a run;
* `Thread.calls` — the calls that a thread is in the middle of, innermost first;
* `Shown` — what marks say about the thread that they are about;
* `Complete`, `Within` — marks of calls that are over, and of a thread with calls in progress.

Main results:

* `shown_step`, `shown_act` — **marks say what happens to the calls of a thread**;
* `callHistory_within` — **the calls of a thread nest**, at every moment of every run.
-/

import SchemaGraph.Proofs.Registry.Action
import SchemaGraph.Proofs.Registry.Reply

set_option autoImplicit false

namespace SchemaGraph.Registry

variable {ι σ ε ν : Type} {R : Setup ι σ ε ν} {s s' : State ι σ ε ν} {t u : ThreadId}
  {frames : List (Frame ι σ ε ν)} {stage : Stage ι σ ε ν} {c : Call ι σ ε ν} {r : Request}
  {th th' : Thread ι σ ε ν}

/-! ### Marks -/

/-- What a call comes to. -/
inductive Mark where
  /-- a call is made -/
  | asked (r : Request)
  /-- a call returns a handle -/
  | answered (r : Request) (o : Outcome) (h : Handle)
  /-- a call ends without a handle -/
  | failed (r : Request)

/-- The marks of a call that begins: one without a key ends at once. -/
def Request.marks (r : Request) : List Mark :=
  match r.key with
  | .ok _ => [.asked r]
  | .error _ => [.asked r, .failed r]

/-- The marks of a thread that goes on to another stage.  A call that has looked up its key has
begun a construction, was refused when its caller goes on, or else is still in progress. -/
def Thread.marks (th th' : Thread ι σ ε ν) : List Mark :=
  match th.stage with
  | .running (.resolve r _) => r.marks
  | .looking c _ | .asleep c _ =>
    if th.frames.length < th'.frames.length then []
    else
      match th'.stage with
      | .running _ | .returned _ => [.failed c.request]
      | _ => []
  | .reporting c o h => [.answered c.request o h]
  | .failing c _ => [.failed c.request]
  | _ => []

/-- The marks of an action between two states, with the thread that they are about. -/
def marks (a : Action σ) (s s' : State ι σ ε ν) : List (ThreadId × Mark) :=
  match a with
  | .step t => ((s.thread t).marks (s'.thread t)).map fun m => (t, m)
  | .call t r => r.marks.map fun m => (t, m)
  | _ => []

/-- The marks of a run. -/
def callHistory (R : Setup ι σ ε ν) : List (Action σ) → State ι σ ε ν → List (ThreadId × Mark)
  | [], _ => []
  | a :: as, s =>
    match act R a s with
    | some s' => marks a s s' ++ callHistory R as s'
    | none => []

/-- The marks of one thread. -/
def marksOf (t : ThreadId) (H : List (ThreadId × Mark)) : List Mark :=
  (H.filter fun p => p.1 = t).map Prod.snd

@[simp] theorem marksOf_nil (t : ThreadId) : marksOf t [] = [] := rfl

theorem marksOf_append (t : ThreadId) (H H' : List (ThreadId × Mark)) :
    marksOf t (H ++ H') = marksOf t H ++ marksOf t H' := by
  simp [marksOf]

@[simp] theorem marksOf_self (t : ThreadId) (ms : List Mark) :
    marksOf t (ms.map fun m => (t, m)) = ms := by
  simp [marksOf, List.filter_map, Function.comp_def]

theorem marksOf_of_ne (h : t ≠ u) (ms : List Mark) :
    marksOf u (ms.map fun m => (t, m)) = [] := by
  simp [marksOf, List.filter_map, Function.comp_def, h]

/-! ### Calls in progress -/

/-- The calls that a thread is in the middle of, innermost first. -/
def Thread.calls (th : Thread ι σ ε ν) : List (Call ι σ ε ν) :=
  th.stage.call?.toList ++ th.frames.map Frame.call

/-- A call knows the key and the text of what it asks for. -/
structure Call.Named (c : Call ι σ ε ν) : Prop where
  key : c.request.key = .ok c.key
  reference : c.reference = c.request.reference

/-- How the factory that makes a call goes on; nothing outside all constructions. -/
def Stage.asker : Stage ι σ ε ν → Option (Answer ε → Program ι σ ε ν)
  | .running (.resolve _ k) => some k
  | _ => none

@[simp] theorem Stage.call?_answered (resume : Option (Answer ε → Program ι σ ε ν)) (a : Answer ε) :
    (Stage.answered resume a).call? = none := by
  cases resume <;> rfl

@[simp] theorem Call.call?_deliver (c : Call ι σ ε ν) (a : Answer ε) : (c.deliver a).call? = none :=
  Stage.call?_answered _ _

@[simp] theorem Call.call?_deliverFailure (c : Call ι σ ε ν) (failure : Failure ε) :
    (c.deliverFailure failure).call? = none := by
  cases failure with
  | error e => exact c.call?_deliver _
  | panic message => cases hr : c.resume <;> simp [deliverFailure, hr, Stage.call?]

theorem Stage.call?_of_isResting (h : stage.isResting = true) : stage.call? = none := by
  cases stage <;> first | rfl | simp [isResting] at h

theorem Stage.asker_of_isResting (h : stage.isResting = true) : stage.asker = none := by
  cases stage <;> first | rfl | simp [isResting] at h

theorem Thread.calls_of_call? (h : stage.call? = some c) :
    (⟨frames, stage⟩ : Thread ι σ ε ν).calls = c :: frames.map Frame.call := by
  simp [calls, h]

theorem Thread.calls_of_none (h : stage.call? = none) :
    (⟨frames, stage⟩ : Thread ι σ ε ν).calls = frames.map Frame.call := by
  simp [calls, h]

@[simp] theorem Thread.calls_notify (th : Thread ι σ ε ν) : th.notify.calls = th.calls := by
  obtain ⟨frames, stage⟩ := th
  cases stage <;> rfl

/-! ### What marks say -/

/-- What the marks of a moment say about the thread that they are about: its calls in progress stay
the same; or it makes a call; or its innermost call ends, and the caller is told how. -/
inductive Shown : Thread ι σ ε ν → List Mark → Thread ι σ ε ν → Prop where
  | same {th th' : Thread ι σ ε ν} : th'.calls = th.calls → Shown th [] th'
  | asked {frames : List (Frame ι σ ε ν)} {stage : Stage ι σ ε ν} {c : Call ι σ ε ν} :
      stage.call? = none → c.Named → c.resume = stage.asker →
      Shown ⟨frames, stage⟩ [.asked c.request] ⟨frames, .looking c false⟩
  /-- a call without a key -/
  | misled {frames : List (Frame ι σ ε ν)} {stage : Stage ι σ ε ν} {r : Request}
      {reason : IdentifierError} (e : RegistryError ε) :
      stage.call? = none → r.key = .error reason →
      Shown ⟨frames, stage⟩ [.asked r, .failed r] ⟨frames, .answered stage.asker (.error e)⟩
  | answered {frames : List (Frame ι σ ε ν)} {stage : Stage ι σ ε ν} {c : Call ι σ ε ν}
      (o : Outcome) (h : Handle) : stage.call? = some c →
      Shown ⟨frames, stage⟩ [.answered c.request o h] ⟨frames, c.deliver (.ok h)⟩
  | failed {frames : List (Frame ι σ ε ν)} {stage : Stage ι σ ε ν} {c : Call ι σ ε ν}
      (e : RegistryError ε) : stage.call? = some c →
      Shown ⟨frames, stage⟩ [.failed c.request] ⟨frames, c.deliver (.error e)⟩
  | broken {frames : List (Frame ι σ ε ν)} {stage : Stage ι σ ε ν} {c : Call ι σ ε ν}
      (message : String) : stage.call? = some c →
      Shown ⟨frames, stage⟩ [.failed c.request] ⟨frames, c.deliverFailure (.panic message)⟩

theorem Request.marks_of_ok {key : Key} (h : r.key = .ok key) : r.marks = [.asked r] := by
  simp [marks, h]

theorem Request.marks_of_error {reason : IdentifierError} (h : r.key = .error reason) :
    r.marks = [.asked r, .failed r] := by
  simp [marks, h]

theorem Thread.marks_of_looks (h : stage.looks = some c) (th' : Thread ι σ ε ν) :
    (⟨frames, stage⟩ : Thread ι σ ε ν).marks th' =
      if frames.length < th'.frames.length then []
      else match th'.stage with
        | .running _ | .returned _ => [.failed c.request]
        | _ => [] := by
  cases stage with
  | looking c' w =>
      obtain rfl := Option.some.inj h
      rfl
  | asleep c' notified =>
      cases notified with
      | false => simp [Stage.looks] at h
      | true =>
          obtain rfl := Option.some.inj h
          rfl
  | _ => simp [Stage.looks] at h

/-- A call that has looked up its key and is still in progress. -/
theorem Shown.goes_on {stage' : Stage ι σ ε ν} (h : stage.looks = some c)
    (h' : stage'.call? = some c) :
    Shown ⟨frames, stage⟩ ((⟨frames, stage⟩ : Thread ι σ ε ν).marks ⟨frames, stage'⟩)
      ⟨frames, stage'⟩ := by
  have hmarks : (⟨frames, stage⟩ : Thread ι σ ε ν).marks ⟨frames, stage'⟩ = [] := by
    rw [Thread.marks_of_looks h, if_neg (Nat.lt_irrefl _)]
    cases stage' with
    | running | returned => simp [Stage.call?] at h'
    | _ => rfl
  rw [hmarks]
  refine .same ?_
  rw [Thread.calls_of_call? (Stage.call?_of_looks h), Thread.calls_of_call? h']

/-- A moment in which no call is made, and none ends but by being refused. -/
theorem Moved.shown {S S' : Store ι} (hm : Moved R S S' [] th th') (hl : th.Linked)
    (hq : th.marks th = []) : Shown th (th.marks th') th' := by
  cases hm with
  | stays =>
      rw [hq]
      exact .same rfl
  | @awaits th x hp hr =>
      have hnil : th.marks ⟨[], .awaiting x⟩ = [] := by
        obtain ⟨frames, stage⟩ := th
        cases stage <;> first | rfl | simp [Stage.isResting] at hr
      rw [hnil]
      refine .same (Eq.symm ?_)
      rw [Thread.calls, Stage.call?_of_isResting hr, hl.frames_eq_nil hr]
      rfl
  | goes hp hgoes => cases hgoes <;> exact .same rfl
  | asks hp hk => simp [Thread.marks, Request.marks_of_ok hk] at hq
  | misasks e hp hk => simp [Thread.marks, Request.marks_of_error hk] at hq
  | @refused frames stage c e hp hlooks =>
      have hmarks : (⟨frames, stage⟩ : Thread ι σ ε ν).marks ⟨frames, c.deliver (.error e)⟩
          = [.failed c.request] := by
        rw [Thread.marks_of_looks hlooks, if_neg (Nat.lt_irrefl _)]
        unfold Call.deliver Stage.answered
        cases c.resume <;> rfl
      rw [hmarks]
      exact .failed e (Stage.call?_of_looks hlooks)
  | hits o hp hlooks => exact .goes_on hlooks rfl
  | defers hp hlooks => exact .goes_on hlooks rfl
  | sleeps hp hlooks => exact .goes_on hlooks rfl
  | claims t hlooks hc =>
      rw [Thread.marks_of_looks hlooks, if_pos (by simp)]
      refine .same ?_
      rw [Thread.calls_of_call? (Stage.call?_of_looks hlooks), Thread.calls_of_none rfl]
      simp [hc]
  | undoes hfails => cases hfails <;> exact .same rfl
  | reports => simp [Thread.marks] at hq
  | reportsFailure => simp [Thread.marks] at hq
  | arrived | publishes | fulfils | succeeds | failed => exact .same rfl

/-- A call is made, from outside or by a factory. -/
theorem shown_enter (hth : s.thread t = ⟨frames, stage⟩) (hcall : stage.call? = none) (r : Request) :
    Shown (s.thread t) r.marks ((enter R t frames r stage.asker s).thread t) := by
  rw [hth]
  cases hk : r.key with
  | error reason =>
      obtain ⟨e, he⟩ := enter_of_error R t frames r hk stage.asker s
      rw [he, State.thread_put_self, Request.marks_of_error hk]
      exact .misled e hcall hk
  | ok key =>
      obtain ⟨s₁, -, -, he⟩ := enter_threads R t frames r hk stage.asker s
      rw [he, State.thread_put_self, Request.marks_of_ok hk]
      exact .asked (c := ⟨r, key, r.reference, stage.asker⟩) hcall ⟨hk, rfl⟩ rfl

/-- **A step and its marks.** -/
theorem shown_step (hl : (s.thread t).Linked) (h : step R t s = some s') :
    Shown (s.thread t) ((s.thread t).marks (s'.thread t)) (s'.thread t) := by
  have hquiet := fun hq => (motion_step h).moved.shown hl hq
  rw [step_eq_stepThread] at h
  generalize hth : s.thread t = th at h hquiet
  obtain ⟨frames, stage⟩ := th
  cases stage with
  | running p =>
      cases p with
      | resolve r k =>
          cases frames with
          | nil => simp [stepThread] at h
          | cons f frames =>
              simp only [stepThread, runProgram, Option.some.injEq] at h
              rw [← h, ← hth]
              have hshown := shown_enter (R := R) hth rfl r
              rwa [show (s.thread t).marks _ = r.marks by rw [hth]; rfl]
      | _ => exact hquiet rfl
  | looking | asleep => exact hquiet (by simp [Thread.marks])
  | reporting c o x =>
      simp only [stepThread, report, Option.some.injEq] at h
      rw [← h, State.thread_put_self]
      exact .answered o x rfl
  | failing c failure =>
      simp only [stepThread, reportFailure, Option.some.injEq] at h
      rw [← h, State.thread_put_self]
      cases failure with
      | error e => exact .failed _ rfl
      | panic message => exact .broken message rfl
  | _ => exact hquiet rfl

/-- Other threads than the one that moves keep their calls. -/
theorem Motion.shown {rs : List Request} (hm : Motion R t rs s s') (hu : u ≠ t) :
    Shown (s.thread u) [] (s'.thread u) := by
  refine .same ?_
  rcases hm.beside u hu with h | h
  · rw [h]
  · rw [h, Thread.calls_notify]

/-- **Whatever happens, marks say what happens to the calls of a thread.** -/
theorem shown_act {a : Action σ} (hs : Legal s) (ha : act R a s = some s') (u : ThreadId) :
    Shown (s.thread u) (marksOf u (marks a s s')) (s'.thread u) := by
  have hkeeps : s'.threads = s.threads → Shown (s.thread u) [] (s'.thread u) :=
    fun ht => .same (by rw [State.thread_congr ht])
  cases a with
  | step t =>
      simp only [marks]
      by_cases hu : u = t
      · subst hu
        rw [marksOf_self]
        exact shown_step (hs.linked u) ha
      · rw [marksOf_of_ne (Ne.symm hu)]
        exact (motion_step ha).shown hu
  | call t r =>
      simp only [act, Option.ite_none_right_eq_some, Option.some.injEq] at ha
      obtain ⟨hi, rfl⟩ := ha
      have hr := State.isResting_of_isIdle hi
      simp only [marks]
      by_cases hu : u = t
      · subst hu
        rw [marksOf_self, State.call, ← Stage.asker_of_isResting hr]
        exact shown_enter (by rw [← (hs.linked u).frames_eq_nil hr]) (Stage.call?_of_isResting hr) r
      · rw [marksOf_of_ne (Ne.symm hu)]
        exact (motion_call r hi).shown hu
  | await t x =>
      simp only [act, Option.ite_none_right_eq_some, Option.some.injEq] at ha
      obtain ⟨hi, rfl⟩ := ha
      have hr := State.isResting_of_isIdle hi
      refine .same ?_
      by_cases hu : u = t
      · subst hu
        rw [State.await, State.thread_put_self, Thread.calls, Thread.calls,
          (hs.linked u).frames_eq_nil hr, Stage.call?_of_isResting hr]
        rfl
      · rw [State.await, State.thread_put_of_ne (Ne.symm hu)]
  | openGate name => exact hkeeps (Option.some.inj ha ▸ rfl)
  | passGate t =>
      obtain rfl := Option.some.inj ha
      rw [State.passGate_eq]
      split
      · rename_i frames name next hth
        refine .same ?_
        rw [State.thread_put]
        split
        · rename_i ht
          rw [← ht, hth]
          rfl
        · rfl
      · exact .same rfl
  | note f => exact hkeeps (Option.some.inj ha ▸ rfl)
  | clone q =>
      simp only [act, Option.ite_none_right_eq_some, Option.some.injEq] at ha
      exact hkeeps (ha.2 ▸ rfl)
  | drop q =>
      simp only [act, Option.ite_none_right_eq_some, Option.some.injEq] at ha
      exact hkeeps (ha.2 ▸ rfl)

/-! ### Calls nest -/

/-- The mark with which a call for a request ends. -/
inductive Mark.Ends (r : Request) : Mark → Prop where
  | answered (o : Outcome) (h : Handle) : Ends r (.answered r o h)
  | failed : Ends r (.failed r)

/-- The marks of calls that are over: one call after the other, each with the marks of the calls
that were made for it between its beginning and its end. -/
inductive Complete : List Mark → Prop where
  | nil : Complete []
  | call {ms inner : List Mark} {r : Request} {m : Mark} : Complete ms → Complete inner →
      m.Ends r → Complete (ms ++ (.asked r :: inner ++ [m]))

/-- The marks of a thread with calls in progress, innermost first: each was made after calls that
are over, for the one below it. -/
inductive Within : List Mark → List Request → Prop where
  | outside {ms : List Mark} : Complete ms → Within ms []
  | inside {ms inner : List Mark} {r : Request} {rs : List Request} : Within ms rs →
      Complete inner → Within (ms ++ .asked r :: inner) (r :: rs)

theorem Complete.append {ms ms' : List Mark} (h : Complete ms) (h' : Complete ms') :
    Complete (ms ++ ms') := by
  induction h' with
  | nil => rwa [List.append_nil]
  | call _ hinner hm ih =>
      rw [← List.append_assoc]
      exact .call ih hinner hm

section Within

variable {ms new : List Mark} {rs : List Request} {m : Mark}

/-- Calls that are over are added to those of the innermost call in progress. -/
theorem Within.append (h : Within ms rs) (hnew : Complete new) : Within (ms ++ new) rs := by
  cases h with
  | outside hms => exact .outside (hms.append hnew)
  | inside hms hinner =>
      rw [List.append_assoc, List.cons_append]
      exact .inside hms (hinner.append hnew)

theorem Within.asked (h : Within ms rs) (r : Request) : Within (ms ++ [.asked r]) (r :: rs) :=
  .inside h .nil

theorem Within.ended (h : Within ms (r :: rs)) (hm : m.Ends r) : Within (ms ++ [m]) rs := by
  cases h with
  | inside hms hinner =>
      rw [List.append_assoc, List.cons_append]
      exact hms.append (.call .nil hinner hm)

/-- **Calls nest after a moment, as they did before.** -/
theorem Within.shown (h : Within ms (th.calls.map Call.request)) (hth : Shown th new th') :
    Within (ms ++ new) (th'.calls.map Call.request) := by
  cases hth with
  | same hcalls => rwa [hcalls, List.append_nil]
  | asked hcall =>
      rw [Thread.calls_of_none hcall] at h
      rw [Thread.calls_of_call? rfl]
      exact h.asked _
  | @misled frames stage r reason e hcall =>
      rw [Thread.calls_of_none hcall] at h
      rw [Thread.calls_of_none (Stage.call?_answered _ _), List.append_cons]
      exact (h.asked r).ended .failed
  | answered o x hcall =>
      rw [Thread.calls_of_call? hcall] at h
      rw [Thread.calls_of_none (Call.call?_deliver _ _)]
      exact h.ended (.answered o x)
  | failed e hcall =>
      rw [Thread.calls_of_call? hcall] at h
      rw [Thread.calls_of_none (Call.call?_deliver _ _)]
      exact h.ended .failed
  | broken message hcall =>
      rw [Thread.calls_of_call? hcall] at h
      rw [Thread.calls_of_none (Call.call?_deliverFailure _ _)]
      exact h.ended .failed

end Within

/-- The calls in progress are new ones or were in progress before. -/
theorem Shown.named {new : List Mark} (h : Shown th new th') (hc : ∀ c ∈ th.calls, c.Named) :
    ∀ c ∈ th'.calls, c.Named := by
  cases h with
  | same hcalls => rwa [hcalls]
  | asked hcall hnamed =>
      rw [Thread.calls_of_none hcall] at hc
      rw [Thread.calls_of_call? rfl]
      exact List.forall_mem_cons.2 ⟨hnamed, hc⟩
  | misled e hcall =>
      rw [Thread.calls_of_none hcall] at hc
      rwa [Thread.calls_of_none (Stage.call?_answered _ _)]
  | answered o x hcall =>
      rw [Thread.calls_of_call? hcall] at hc
      rw [Thread.calls_of_none (Call.call?_deliver _ _)]
      exact (List.forall_mem_cons.1 hc).2
  | failed e hcall =>
      rw [Thread.calls_of_call? hcall] at hc
      rw [Thread.calls_of_none (Call.call?_deliver _ _)]
      exact (List.forall_mem_cons.1 hc).2
  | broken message hcall =>
      rw [Thread.calls_of_call? hcall] at hc
      rw [Thread.calls_of_none (Call.call?_deliverFailure _ _)]
      exact (List.forall_mem_cons.1 hc).2

/-- **A call in progress knows its key and its text**, at every moment of every run. -/
theorem Reachable.named (hs : Reachable R s) (t : ThreadId) : ∀ c ∈ (s.thread t).calls, c.Named := by
  induction hs with
  | initial notes asked => exact fun c hc => absurd hc List.not_mem_nil
  | next hs hn ih =>
      obtain ⟨a, ha⟩ := next_iff_act.1 hn
      exact (shown_act hs.legal ha t).named ih

theorem callHistory_cons {a : Action σ} (ha : act R a s = some s') (as : List (Action σ)) :
    callHistory R (a :: as) s = marks a s s' ++ callHistory R as s' := by
  rw [callHistory, ha]

/-- **The calls of a thread nest**, at every moment of every run. -/
theorem callHistory_within {H : List (ThreadId × Mark)} {as : List (Action σ)}
    (h : Within (marksOf t H) ((s.thread t).calls.map Call.request)) (hs : Legal s)
    (hp : perform R as s = some s') :
    Within (marksOf t (H ++ callHistory R as s)) ((s'.thread t).calls.map Call.request) := by
  induction as generalizing H s with
  | nil =>
      obtain rfl := Option.some.inj hp
      rwa [callHistory, List.append_nil]
  | cons a as ih =>
      rw [perform_cons, Option.bind_eq_some_iff] at hp
      obtain ⟨s₁, ha, hp⟩ := hp
      rw [callHistory_cons ha, ← List.append_assoc]
      refine ih ?_ (hs.changes (next_of_act ha).takes.changes) hp
      rw [marksOf_append]
      exact h.shown (shown_act hs ha t)

end SchemaGraph.Registry
