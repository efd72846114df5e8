/-
**What is reported does not matter.**

A registry reports each answer to a sink, and the identity of each call if it is asked to.  A sink
may fail or break off on every record.  None of that is seen by a call: runs of the same actions
with different sinks, with identities dumped or not, have the same store and the same threads at
every moment, so they differ in what was reported alone.  A recorder, for its part, sees each call
that returned a handle once, when it returns.

Main definitions:

* `Setup.observed` — a registry with another sink, and with identities dumped or not;
* `Record`, `State.records` — what a recorder was given, oldest first;
* `Mark.record?` — the record of a call that returned a handle.

Main results:

* `Alike.act_observed`, `Alike.perform_observed` — **what is reported has no effect**;
* `records_act`, `records_perform` — a recorder is given the records of the calls that returned a
  handle, and nothing else;
* `sink_without_influence` — **neither sinks nor dumps influence resolution, and a recorder sees
  every answer once, in the order in which calls return**.
-/

import SchemaGraph.Proofs.Registry.Calls
import SchemaGraph.Proofs.Registry.Unwind

set_option autoImplicit false

namespace SchemaGraph.Registry

variable {ι σ ε ν : Type} {R : Setup ι σ ε ν} {s s' : State ι σ ε ν} {t u : ThreadId}
  {frames : List (Frame ι σ ε ν)} {stage : Stage ι σ ε ν} {c : Call ι σ ε ν}

/-- A registry with another sink, and with identities dumped or not. -/
def Setup.observed (R : Setup ι σ ε ν) (sink : Sink) (dump : Bool) : Setup ι σ ε ν :=
  { R with sink := sink, options := { R.options with dumpIdentities := dump } }

/-! ### States that differ in the log -/

namespace Alike

theorem refl (s : State ι σ ε ν) : Alike s s := ⟨rfl, rfl, rfl, fun _ => rfl⟩

theorem symm (h : Alike s s') : Alike s' s :=
  ⟨h.store.symm, h.notes.symm, h.openGates.symm, fun u => (h.thread u).symm⟩

theorem trans {s'' : State ι σ ε ν} (h : Alike s s') (h' : Alike s' s'') : Alike s s'' :=
  ⟨h'.store.trans h.store, h'.notes.trans h.notes, h'.openGates.trans h.openGates,
    fun u => (h'.thread u).trans (h.thread u)⟩

/-- A thread goes on in the same way. -/
theorem put (h : Alike s s') (t : ThreadId) (frames : List (Frame ι σ ε ν))
    (stage : Stage ι σ ε ν) : Alike (s.put t frames stage) (s'.put t frames stage) := by
  refine ⟨h.store, h.notes, h.openGates, fun u => ?_⟩
  rw [State.thread_put, State.thread_put, h.thread u]

theorem tellAll (s : State ι σ ε ν) (t : ThreadId) (ns : List (Notice ε ν)) :
    Alike s (s.tellAll t ns) := by
  induction ns generalizing s with
  | nil => exact refl s
  | cons n ns ih => exact (show Alike s (s.tell t n) from ⟨rfl, rfl, rfl, fun _ => rfl⟩).trans (ih _)

theorem rel_refl (x : Option (State ι σ ε ν)) : Option.Rel Alike x x := by
  cases x with
  | none => exact .none
  | some s => exact .some (refl s)

theorem rel_trans {x y z : Option (State ι σ ε ν)} (h : Option.Rel Alike x y)
    (h' : Option.Rel Alike y z) : Option.Rel Alike x z := by
  cases h with
  | none => exact h'
  | some h =>
      cases h' with
      | some h' => exact .some (h.trans h')

end Alike

/-! ### The same action under another observer -/

section Observed

variable (k : Sink) (d : Bool)

/-- A call begins alike, its identity dumped or not. -/
theorem alike_enter (t : ThreadId) (frames : List (Frame ι σ ε ν)) (r : Request)
    (resume : Option (Answer ε → Program ι σ ε ν)) (s : State ι σ ε ν) :
    Alike (enter R t frames r resume s) (enter (R.observed k d) t frames r resume s) := by
  have htold : ∀ (b : Bool) (n : Notice ε ν), Alike s (if b then s.tell t n else s) := by
    intro b n
    cases b with
    | false => exact .refl s
    | true => exact ⟨rfl, rfl, rfl, fun _ => rfl⟩
  unfold enter
  split
  · exact .refl _
  · exact ((htold R.options.dumpIdentities _).symm.trans (htold d _)).put ..

/-- An answer is delivered alike, to whatever sink it is reported. -/
theorem alike_report (t : ThreadId) (frames : List (Frame ι σ ε ν)) (c : Call ι σ ε ν)
    (o : Outcome) (h : Handle) (s : State ι σ ε ν) :
    Alike (report R t frames c o h s) (report (R.observed k d) t frames c o h s) := by
  unfold report
  exact ((Alike.tellAll ..).symm.trans (Alike.tellAll ..)).put ..

theorem alike_stepThread (t : ThreadId) (th : Thread ι σ ε ν) (s : State ι σ ε ν) :
    Option.Rel Alike (stepThread R t th s) (stepThread (R.observed k d) t th s) := by
  obtain ⟨frames, stage⟩ := th
  cases stage with
  | running p =>
      cases frames with
      | nil => exact .none
      | cons f frames =>
          cases p with
          | resolve r next => exact .some (alike_enter ..)
          | _ => exact Alike.rel_refl _
  | asleep c notified => cases notified <;> exact Alike.rel_refl _
  | reporting c o h => exact .some (alike_report ..)
  | _ => exact Alike.rel_refl _

theorem alike_act (a : Action σ) (s : State ι σ ε ν) :
    Option.Rel Alike (act R a s) (act (R.observed k d) a s) := by
  cases a with
  | step t =>
      simp only [act, step_eq_stepThread]
      exact alike_stepThread ..
  | call t r =>
      simp only [act]
      split
      · exact .some (alike_enter ..)
      · exact .none
  | _ => exact Alike.rel_refl _

/-- **What is reported has no effect on an action.** -/
theorem Alike.act_observed (h : Alike s s') (a : Action σ) :
    Option.Rel Alike (act R a s) (act (R.observed k d) a s') := by
  have hsame : Option.Rel Alike (act R a s) (act R a s') := by
    have hone : ∀ s : State ι σ ε ν, Registry.perform R [a] s = act R a s :=
      fun s => Option.bind_fun_some _
    rw [← hone, ← hone]
    exact h.perform [a]
  exact Alike.rel_trans hsame (alike_act k d a s')

/-- **What is reported has no effect on a run.** -/
theorem Alike.perform_observed (h : Alike s s') (as : List (Action σ)) :
    Option.Rel Alike (Registry.perform R as s) (Registry.perform (R.observed k d) as s') := by
  induction as generalizing s s' with
  | nil => exact .some h
  | cons a as ih =>
      rw [perform_cons, perform_cons]
      have hrel := h.act_observed (R := R) k d a
      generalize act R a s = x at hrel
      generalize act (R.observed k d) a s' = y at hrel
      cases hrel with
      | some h₁ => exact ih h₁
      | none => exact .none

/-- The calls of a run are the same whatever is reported. -/
theorem Alike.callHistory_observed (h : Alike s s') (as : List (Action σ)) :
    callHistory (R.observed k d) as s' = callHistory R as s := by
  induction as generalizing s s' with
  | nil => rfl
  | cons a as ih =>
      have hrel := h.act_observed (R := R) k d a
      unfold callHistory
      generalize act R a s = x at hrel
      generalize act (R.observed k d) a s' = y at hrel
      cases hrel with
      | none => rfl
      | @some s₁ s₁' h₁ =>
          have hmarks : marks a s' s₁' = marks a s s₁ := by
            cases a with
            | step t => simp only [marks, h.thread t, h₁.thread t]
            | _ => rfl
          simp only [hmarks, ih h₁]

end Observed

/-! ### Records -/

/-- What a recorder is given about a call: who made it, what it asked for, and how it was
answered. -/
structure Record where
  thread : ThreadId
  reference : String
  key : Key
  outcome : Outcome
deriving DecidableEq, Repr

/-- The record that a notice is, if it is one. -/
def Notice.record? (t : ThreadId) : Notice ε ν → Option Record
  | .recorded reference key o => some ⟨t, reference, key, o⟩
  | _ => none

/-- The records of a state, oldest first. -/
def State.records (s : State ι σ ε ν) : List Record :=
  s.log.reverse.filterMap fun p => p.2.record? p.1

/-- The record of a call that returned a handle: the text and the key of what it asked for, and the
outcome. -/
def Mark.record? (t : ThreadId) : Mark → Option Record
  | .answered r o _ => some ⟨t, r.reference, Key.ofCanonical r.canonical, o⟩
  | _ => none

/-- The records that the marks of a run come to. -/
def recordsOf (H : List (ThreadId × Mark)) : List Record := H.filterMap fun p => p.2.record? p.1

/-- Whether a sink records what it is given, be it that it fails or breaks off then. -/
def Sink.isRecorder : Sink → Bool
  | .none | .trace => false
  | .record | .fail _ | .panic => true

theorem State.records_congr (h : s'.log = s.log) : s'.records = s.records := by
  rw [records, h, records]

theorem State.records_tell (s : State ι σ ε ν) (t : ThreadId) (n : Notice ε ν) :
    (s.tell t n).records = s.records ++ (n.record? t).toList := by
  simp only [records, tell, List.reverse_cons, List.filterMap_append, List.filterMap_cons,
    List.filterMap_nil]
  cases n.record? t <;> rfl

theorem State.records_tellAll (s : State ι σ ε ν) (t : ThreadId) (ns : List (Notice ε ν)) :
    (s.tellAll t ns).records = s.records ++ ns.filterMap (Notice.record? t) := by
  induction ns generalizing s with
  | nil => rw [List.filterMap_nil, List.append_nil]; rfl
  | cons n ns ih =>
      have hcons : (n :: ns).filterMap (Notice.record? t)
          = (n.record? t).toList ++ ns.filterMap (Notice.record? t) := by
        rw [List.filterMap_cons]
        cases n.record? t <;> rfl
      rw [hcons, ← List.append_assoc, ← records_tell]
      exact ih _

/-- A recorder is given one record of an answer; other sinks are given none. -/
theorem Sink.filterMap_notices (k : Sink) (t : ThreadId) (reference : String) (key : Key)
    (o : Outcome) : (k.notices reference key o : List (Notice ε ν)).filterMap (Notice.record? t)
      = if k.isRecorder then [⟨t, reference, key, o⟩] else [] := by
  cases k <;> rfl

theorem recordsOf_append (H H' : List (ThreadId × Mark)) :
    recordsOf (H ++ H') = recordsOf H ++ recordsOf H' :=
  List.filterMap_append ..

/-! ### What is recorded -/

theorem Request.recordsOf_marks (r : Request) (t : ThreadId) :
    recordsOf (r.marks.map fun m => (t, m)) = [] := by
  cases hk : r.key with
  | ok key => rw [Request.marks_of_ok hk]; rfl
  | error reason => rw [Request.marks_of_error hk]; rfl

/-- Only an answer is recorded. -/
theorem recordsOf_step (h : ∀ c o x, (s.thread t).stage ≠ .reporting c o x) :
    recordsOf (marks (.step t : Action σ) s s') = [] := by
  simp only [marks]
  generalize s.thread t = th at h
  generalize s'.thread t = th'
  obtain ⟨frames, stage⟩ := th
  cases stage with
  | running p =>
      cases p with
      | resolve r next => exact r.recordsOf_marks t
      | _ => rfl
  | looking c w | asleep c w =>
      simp only [Thread.marks]
      split
      · rfl
      · split <;> rfl
  | reporting c o x => exact absurd rfl (h c o x)
  | _ => rfl

theorem records_enter (t : ThreadId) (frames : List (Frame ι σ ε ν)) (r : Request)
    (resume : Option (Answer ε → Program ι σ ε ν)) (s : State ι σ ε ν) :
    (enter R t frames r resume s).records = s.records := by
  unfold enter
  split
  · rfl
  · dsimp only
    split
    · refine (State.records_congr rfl).trans ((State.records_tell s t _).trans ?_)
      simp [Notice.record?]
    · rfl

theorem records_look (t : ThreadId) (frames : List (Frame ι σ ε ν)) (c : Call ι σ ε ν) (w : Bool)
    (s : State ι σ ε ν) : (look R t frames c w s).records = s.records := by
  unfold look begin
  split
  · rfl
  · split <;> rfl
  · dsimp only
    split
    · rfl
    · split <;> rfl

theorem records_runProgram {f : Frame ι σ ε ν} {p : Program ι σ ε ν}
    (h : runProgram R t f frames p s = some s') : s'.records = s.records := by
  cases p with
  | resolve r next => exact Option.some.inj h ▸ records_enter ..
  | gate name next =>
      simp only [runProgram, Option.ite_none_right_eq_some, Option.some.injEq] at h
      exact h.2 ▸ rfl
  | panic message =>
      obtain rfl := Option.some.inj h
      refine (State.records_congr rfl).trans ((State.records_tell s t _).trans ?_)
      simp [Notice.record?]
  | say event next =>
      obtain rfl := Option.some.inj h
      refine (State.records_congr rfl).trans ((State.records_tell s t _).trans ?_)
      simp [Notice.record?]
  | _ => exact Option.some.inj h ▸ rfl

/-- A step adds a record exactly when it delivers an answer. -/
theorem records_step (hn : ∀ c ∈ (s.thread t).calls, c.Named) (h : step R t s = some s') :
    s'.records = s.records ++
      if R.sink.isRecorder then recordsOf (marks (.step t : Action σ) s s') else [] := by
  have hquiet : (∀ c o x, (s.thread t).stage ≠ .reporting c o x) → s'.records = s.records →
      s'.records = s.records ++
        if R.sink.isRecorder then recordsOf (marks (.step t : Action σ) s s') else [] := by
    intro hst hs
    rw [recordsOf_step hst, ite_self, List.append_nil, hs]
  rw [step_eq_stepThread] at h
  generalize hth : s.thread t = th at h hquiet hn
  obtain ⟨frames, stage⟩ := th
  cases stage with
  | running p =>
      cases frames with
      | nil => simp [stepThread] at h
      | cons f frames => exact hquiet (by simp) (records_runProgram h)
  | looking c w => exact hquiet (by simp) (Option.some.inj h ▸ records_look ..)
  | asleep c notified =>
      cases notified with
      | false => simp [stepThread] at h
      | true => exact hquiet (by simp) (Option.some.inj h ▸ records_look ..)
  | fulfilling f i => exact hquiet (by simp) (Option.some.inj h ▸ rfl)
  | ending c result => exact hquiet (by simp) (Option.some.inj h ▸ rfl)
  | reporting c o x =>
      obtain rfl := Option.some.inj h
      have hc := hn c (by rw [Thread.calls_of_call? rfl]; exact List.mem_cons_self)
      have hmarks : recordsOf (marks (.step t : Action σ) s (report R t frames c o x s))
          = [⟨t, c.reference, c.key, o⟩] := by
        rw [hc.reference, c.request.eq_ofCanonical hc.key]
        simp only [marks, hth]
        rfl
      rw [hmarks, ← Sink.filterMap_notices (ε := ε) (ν := ν)]
      exact (State.records_congr rfl).trans (State.records_tellAll ..)
  | failing c failure =>
      obtain rfl := Option.some.inj h
      refine hquiet (by simp) ?_
      cases failure with
      | panic message => rfl
      | error e =>
          refine (State.records_congr rfl).trans ((State.records_tell _ t _).trans ?_)
          simp only [Notice.record?, Option.toList_none, List.append_nil]
          rfl
  | awaiting x =>
      simp only [stepThread, Option.ite_none_left_eq_some, Option.some.injEq] at h
      exact hquiet (by simp) (h.2 ▸ rfl)
  | returned a => simp [stepThread] at h
  | panicked message => simp [stepThread] at h
  | awaited a => simp [stepThread] at h

/-- **Whatever happens, a recorder is given the records of the calls that return a handle.** -/
theorem records_act {a : Action σ} (hs : Reachable R s) (ha : act R a s = some s') :
    s'.records = s.records ++
      if R.sink.isRecorder then recordsOf (marks a s s') else [] := by
  have hquiet : s'.records = s.records → recordsOf (marks a s s') = [] →
      s'.records = s.records ++ if R.sink.isRecorder then recordsOf (marks a s s') else [] := by
    intro hs hm
    rw [hm, ite_self, List.append_nil, hs]
  cases a with
  | step t => exact records_step (hs.named t) ha
  | call t r =>
      simp only [act, Option.ite_none_right_eq_some, Option.some.injEq] at ha
      exact hquiet (ha.2 ▸ records_enter ..) (r.recordsOf_marks t)
  | await t x =>
      simp only [act, Option.ite_none_right_eq_some, Option.some.injEq] at ha
      exact hquiet (ha.2 ▸ rfl) rfl
  | openGate name => exact hquiet (Option.some.inj ha ▸ rfl) rfl
  | passGate t =>
      refine hquiet ?_ rfl
      rw [← Option.some.inj ha, State.passGate_eq]
      split <;> rfl
  | note f => exact hquiet (Option.some.inj ha ▸ rfl) rfl
  | clone q =>
      simp only [act, Option.ite_none_right_eq_some, Option.some.injEq] at ha
      exact hquiet (ha.2 ▸ rfl) rfl
  | drop q =>
      simp only [act, Option.ite_none_right_eq_some, Option.some.injEq] at ha
      exact hquiet (ha.2 ▸ rfl) rfl

/-- **The records of a run are those of the calls that returned a handle, in the order in which they
returned.** -/
theorem records_perform {as : List (Action σ)} (hs : Reachable R s)
    (hp : perform R as s = some s') :
    s'.records = s.records ++ if R.sink.isRecorder then recordsOf (callHistory R as s) else [] := by
  induction as generalizing s with
  | nil =>
      obtain rfl := Option.some.inj hp
      rw [callHistory, recordsOf, List.filterMap_nil, ite_self, List.append_nil]
  | cons a as ih =>
      rw [perform_cons, Option.bind_eq_some_iff] at hp
      obtain ⟨s₁, ha, hp⟩ := hp
      rw [ih (hs.next (next_of_act ha)) hp, records_act hs ha, callHistory_cons ha,
        recordsOf_append, List.append_assoc]
      congr 1
      split <;> rfl

/-! ### Sinks and dumps -/

/-- **Neither sinks nor dumps influence resolution, and a recorder sees every answer once.**

Whatever sinks two registries have, and whether or not they dump identities, the same actions can
happen in both, and lead to the same table, slots, instances and counters, to the same constructions
and calls in progress, and to the same results of all calls: what was reported is the only
difference.  As this holds of all lists of actions, it holds after every action of a run.

A recorder, whether or not it fails or breaks off on each record, has seen at every moment one
record for each call that has returned a handle, in the order in which they returned, with the text,
the key and the outcome of the call; another sink has seen none.  The marks from which this is read
off say what happens to the calls of each thread, and what the callers are told; and the calls of a
thread nest, so the record of a construction comes after those of everything that was resolved for
it. -/
theorem sink_without_influence (R : Setup ι σ ε ν) (notes : σ) (asked : Nat)
    (as : List (Action σ)) :
    (∀ k k' d d', Option.Rel Alike
      (perform (R.observed k d) as (State.initial notes asked))
      (perform (R.observed k' d') as (State.initial notes asked))) ∧
    ∀ k d s, perform (R.observed k d) as (State.initial notes asked) = some s →
      (let H := callHistory R as (State.initial notes asked)
       s.records = (if k.isRecorder then recordsOf H else []) ∧
         ∀ t, Within (marksOf t H) ((s.thread t).calls.map Call.request)) ∧
      ∀ a s', act (R.observed k d) a s = some s' →
        ∀ t, Shown (s.thread t) (marksOf t (marks a s s')) (s'.thread t) := by
  refine ⟨fun k k' d d' => ?_, fun k d s hp => ⟨⟨?_, fun t => ?_⟩, fun a s' ha t => ?_⟩⟩
  · exact Alike.perform_observed (R := R.observed k d) k' d' (.refl _) as
  · have hrecords := records_perform (.initial notes asked) hp
    rwa [(Alike.refl _).callHistory_observed k d as] at hrecords
  · have hstart : Within (marksOf t [])
        (((State.initial notes asked : State ι σ ε ν).thread t).calls.map Call.request) :=
      .outside .nil
    have hwithin := callHistory_within hstart (.initial ..) hp
    rwa [List.nil_append, (Alike.refl _).callHistory_observed k d as] at hwithin
  · exact shown_act (reachable_iff_perform.2 ⟨notes, asked, as, hp⟩).legal ha t

/-- A type that refers to itself and to another one. -/
def selfish : Setup Nat Unit String Unit where
  factories := [
    ("Outer", ⟨⟨"object"⟩, fun site => .request ⟨site.identifier, site.context⟩ fun _ =>
      .request ⟨.bare "Inner", none⟩ fun _ => .done (.new 0)⟩),
    ("Inner", ⟨⟨"object"⟩, fun _ => .done (.new 1)⟩)]
  admits := fun _ _ _ => true

/-- One call for it, run to its end. -/
def outerCall : List (Action Unit) :=
  .call 0 ⟨.bare "Outer", none⟩ :: List.replicate 14 (.step 0)

/-- The state after that, when the sink breaks off on every record.  The state is evaluated, never
unfolded. -/
@[irreducible] def outerBuilt : State Nat Unit String Unit :=
  (perform (selfish.observed .panic true) outerCall (State.initial () 0)).getD (State.initial () 0)

theorem outerBuilt_recorded :
    perform (selfish.observed .panic true) outerCall (State.initial () 0) = some outerBuilt ∧
    (∃ s, perform (selfish.observed .none false) outerCall (State.initial () 0) = some s ∧
      Alike outerBuilt s ∧ s.records = []) ∧
    outerBuilt.store.stats = ⟨0, 2, 1, 0, 0⟩ ∧
    outerBuilt.records.map (fun x => (x.thread, x.reference, x.outcome))
      = [(0, "Outer", .deferred), (0, "Inner", .miss), (0, "Outer", .miss)] := by
  obtain ⟨hsome, hstats, hcalls⟩ :
      (perform (selfish.observed .panic true) outerCall (State.initial () 0)).isSome = true ∧
      outerBuilt.store.stats = ⟨0, 2, 1, 0, 0⟩ ∧
      (recordsOf (callHistory selfish outerCall (State.initial () 0))).map
          (fun x => (x.thread, x.reference, x.outcome))
        = [(0, "Outer", .deferred), (0, "Inner", .miss), (0, "Outer", .miss)] := by
    decide +kernel
  have hp : perform (selfish.observed .panic true) outerCall (State.initial () 0)
      = some outerBuilt := by
    unfold outerBuilt
    revert hsome
    cases perform (selfish.observed .panic true) outerCall (State.initial () 0) with
    | none => exact nofun
    | some s => exact fun _ => rfl
  obtain ⟨hsame, hseen⟩ := sink_without_influence selfish () 0 outerCall
  have hrel := hsame .panic .none true false
  rw [hp] at hrel
  generalize hq : perform (selfish.observed .none false) outerCall (State.initial () 0) = x at hrel
  cases hrel with
  | @some _ s halike =>
      refine ⟨hp, ⟨s, rfl, halike, (hseen .none false s hq).1.1⟩, hstats, ?_⟩
      rw [(hseen .panic true outerBuilt hp).1.1]
      exact hcalls

end SchemaGraph.Registry
