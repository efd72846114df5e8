/-
**A call from its making to its answer.**

A call is made in some action.  It goes on as long as its thread is in the middle of it: until it
finds its key, or while its construction is in progress, with the calls that are made for it; the
actions of other threads and from outside stand in between.  It ends in a step that tells its caller
the answer.

Main definitions:

* `Throughout` — what holds of each action of a run;
* `Acted` — what an action does to one thread;
* `Thread.Amid` — a thread is in the middle of a call;
* `Calls`, `Underway` — a call is made, and the actions from then on;
* `answer?`, `Returns` — the answer with which a call ends.

Main results:

* `acted_of_act` — **an action does no more than to notify a thread**, unless it is its own;
* `Thread.Amid.before` — a thread in the middle of a call was so before, or has made it;
* `Thread.Amid.underway` — **a thread in the middle of a call made it in some action of the run**;
* `Returns.looks_or_failing` — a call ends with an error in two ways only.
-/

import SchemaGraph.Proofs.Registry.Lookup

set_option autoImplicit false

namespace SchemaGraph.Registry

variable {ι σ ε ν : Type} {R : Setup ι σ ε ν} {s s' s'' : State ι σ ε ν} {t u : ThreadId}
  {frames : List (Frame ι σ ε ν)} {stage : Stage ι σ ε ν} {c : Call ι σ ε ν} {r : Request}
  {th th' : Thread ι σ ε ν} {a : Action σ} {as bs : List (Action σ)}

/-! ### Runs, action by action -/

/-- What holds of each action of a run. -/
def Throughout (R : Setup ι σ ε ν) (P : State ι σ ε ν → Action σ → State ι σ ε ν → Prop) :
    List (Action σ) → State ι σ ε ν → Prop
  | [], _ => True
  | a :: as, s => ∀ s' ∈ act R a s, P s a s' ∧ Throughout R P as s'

theorem Throughout.append {P : State ι σ ε ν → Action σ → State ι σ ε ν → Prop}
    (h : Throughout R P as s) (hp : perform R as s = some s') (h' : Throughout R P bs s') :
    Throughout R P (as ++ bs) s := by
  induction as generalizing s with
  | nil =>
      obtain rfl := Option.some.inj hp
      exact h'
  | cons a as ih =>
      rw [perform_cons, Option.bind_eq_some_iff] at hp
      obtain ⟨s₁, ha, hp⟩ := hp
      intro s₂ ha₂
      obtain rfl := Option.some.inj (ha.symm.trans ha₂)
      exact ⟨(h s₁ ha).1, ih (h s₁ ha).2 hp⟩

theorem Throughout.single {P : State ι σ ε ν → Action σ → State ι σ ε ν → Prop}
    (ha : act R a s = some s') (h : P s a s') : Throughout R P [a] s := by
  intro s₁ ha₁
  obtain rfl := Option.some.inj (ha.symm.trans ha₁)
  exact ⟨h, trivial⟩

theorem perform_snoc (hp : perform R as s = some s') (ha : act R a s' = some s'') :
    perform R (as ++ [a]) s = some s'' := by
  rw [perform_append, hp, Option.bind_some, perform_cons, ha]
  rfl

/-- The thread that an action is about, when there is one. -/
def Action.actor? : Action σ → Option ThreadId
  | .step t | .call t _ | .await t _ | .passGate t => some t
  | _ => none

/-! ### What an action does to a thread -/

/-- A thread takes a step, or makes a call from outside. -/
inductive Move (t : ThreadId) (th : Thread ι σ ε ν) : Action σ → List Request → Prop where
  | step : Move t th (.step t) []
  | call (r : Request) : th.stage.isResting = true → Move t th (.call t r) [r]

/-- What an action does to a thread: no more than to notify it, unless it is the thread's own. -/
inductive Acted (R : Setup ι σ ε ν) (t : ThreadId) (a : Action σ) (s s' : State ι σ ε ν) :
    Prop where
  | aside : s'.thread t = s.thread t → Acted R t a s s'
  | notified : s'.thread t = (s.thread t).notify → Acted R t a s s'
  | moved {rs : List Request} : Move t (s.thread t) a rs →
      Moved R s.store s'.store rs (s.thread t) (s'.thread t) → Acted R t a s s'
  | awaits (h : Handle) : s'.thread t = ⟨[], .awaiting h⟩ → Acted R t a s s'
  | passes {name : String} {next : Program ι σ ε ν} :
      (s.thread t).stage = .running (.gate name next) →
      s'.thread t = ⟨(s.thread t).frames, .running next⟩ → Acted R t a s s'

theorem Motion.acted {rs : List Request} (hm : Motion R u rs s s') (ha : Move u (s.thread u) a rs)
    (t : ThreadId) : Acted R t a s s' := by
  by_cases hu : t = u
  · subst hu
    exact .moved ha hm.moved
  · exact (hm.beside t hu).elim .aside .notified

theorem acted_of_act (ha : act R a s = some s') (t : ThreadId) : Acted R t a s s' := by
  cases a with
  | step u => exact (motion_step ha).acted .step t
  | call u r =>
      simp only [act, Option.ite_none_right_eq_some, Option.some.injEq] at ha
      obtain ⟨hi, rfl⟩ := ha
      exact (motion_call r hi).acted (.call r (State.isResting_of_isIdle hi)) t
  | await u x =>
      simp only [act, Option.ite_none_right_eq_some, Option.some.injEq] at ha
      obtain ⟨-, rfl⟩ := ha
      by_cases hu : u = t
      · subst hu
        exact .awaits x (State.thread_put_self _ _ _ _)
      · exact .aside (State.thread_put_of_ne hu _ _ _)
  | passGate u =>
      obtain rfl := Option.some.inj ha
      rw [State.passGate_eq]
      split
      · rename_i frames name next hth
        by_cases hu : u = t
        · subst hu
          refine .passes (congrArg Thread.stage hth) ?_
          rw [State.thread_put_self, hth]
        · exact .aside (State.thread_put_of_ne hu _ _ _)
      · exact .aside rfl
  | openGate name => exact .aside (State.thread_congr (Option.some.inj ha ▸ rfl) t)
  | note f => exact .aside (State.thread_congr (Option.some.inj ha ▸ rfl) t)
  | clone q | drop q =>
      simp only [act, Option.ite_none_right_eq_some, Option.some.injEq] at ha
      exact .aside (State.thread_congr (ha.2 ▸ rfl) t)

/-! ### Calls that are made -/

/-- An action in which a thread makes a call, from outside all constructions or by the factory of
its innermost one. -/
inductive Calls (t : ThreadId) (r : Request) (s : State ι σ ε ν) : Action σ → Prop where
  | outside : Calls t r s (.call t r)
  | factory {next : Answer ε → Program ι σ ε ν} :
      (s.thread t).stage = .running (.resolve r next) → Calls t r s (.step t)

/-- A call that is made begins. -/
theorem Calls.act (h : Calls t r s a) (hs : Legal s) (ha : act R a s = some s') :
    s' = enter R t (s.thread t).frames r (s.thread t).stage.asker s := by
  cases h with
  | outside =>
      simp only [Registry.act, Option.ite_none_right_eq_some, Option.some.injEq] at ha
      obtain ⟨hi, rfl⟩ := ha
      have hr := State.isResting_of_isIdle hi
      rw [(hs.linked t).frames_eq_nil hr, Stage.asker_of_isResting hr]
      rfl
  | @factory next hstage =>
      rw [Registry.act, step_eq_stepThread] at ha
      generalize s.thread t = th at ha hstage ⊢
      obtain ⟨frames, stage⟩ := th
      obtain rfl : stage = .running (.resolve r next) := hstage
      cases frames with
      | nil => simp [stepThread] at ha
      | cons f frames => exact (Option.some.inj ha).symm

/-- A thread that makes a call is in the middle of no other but those of its constructions. -/
theorem Calls.call?_eq_none (h : Calls t r s a) (ha : Registry.act R a s = some s') :
    (s.thread t).stage.call? = none := by
  cases h with
  | outside =>
      simp only [Registry.act, Option.ite_none_right_eq_some] at ha
      exact Stage.call?_of_isResting (State.isResting_of_isIdle ha.1)
  | factory hstage =>
      rw [hstage]
      rfl

/-! ### Threads in the middle of a call -/

/-- A thread is in the middle of a call, which it made above the given constructions: the call goes
on, or its construction is in progress. -/
inductive Thread.Amid (frames : List (Frame ι σ ε ν)) (c : Call ι σ ε ν) (th : Thread ι σ ε ν) :
    Prop where
  | call : th.frames = frames → th.stage.call? = some c → Amid frames c th
  | frame (inner : List (Frame ι σ ε ν)) (f : Frame ι σ ε ν) :
      th.frames = inner ++ f :: frames → f.call = c → Amid frames c th

theorem Thread.Amid.lt_length (h : th.Amid frames c) : frames.length < th.calls.length := by
  cases h with
  | call hframes hcall => simp [Thread.calls, hcall, hframes]
  | frame inner f hframes hf =>
      simp [Thread.calls, hframes]
      omega

/-- The calls below that of a thread's stage stay the same when its constructions do. -/
theorem Thread.Amid.congr (h : th'.Amid frames c) (hframes : th.frames = th'.frames)
    (hcall : th'.stage.call? = some c → th.stage.call? = some c) : th.Amid frames c := by
  cases h with
  | call hf hc => exact .call (hframes.trans hf) (hcall hc)
  | frame inner f hf hc => exact .frame inner f (hframes.trans hf) hc

/-- The construction of a call takes the place of the call. -/
theorem Thread.amid_cons {f : Frame ι σ ε ν} {stage' : Stage ι σ ε ν}
    {frames' : List (Frame ι σ ε ν)} (hcall : stage.call? = none)
    (hcall' : stage'.call? = some f.call) :
    (⟨f :: frames', stage⟩ : Thread ι σ ε ν).Amid frames c ↔
      (⟨frames', stage'⟩ : Thread ι σ ε ν).Amid frames c := by
  constructor
  · rintro (⟨-, hc⟩ | ⟨inner, g, hf, hc⟩)
    · exact absurd (hcall.symm.trans hc) nofun
    · cases inner with
      | nil =>
          obtain ⟨rfl, rfl⟩ := List.cons.inj hf
          exact .call rfl (hc ▸ hcall')
      | cons f' inner => exact .frame inner g (List.cons.inj hf).2 hc
  · rintro (⟨hf, hc⟩ | ⟨inner, g, hf, hc⟩)
    · exact .frame [] f (congrArg (f :: ·) hf) (Option.some.inj (hcall'.symm.trans hc))
    · exact .frame (f :: inner) g (congrArg (f :: ·) hf) hc

@[simp] theorem Thread.call?_notify (th : Thread ι σ ε ν) :
    th.notify.stage.call? = th.stage.call? := by
  obtain ⟨frames, stage⟩ := th
  cases stage <;> rfl

/-- A thread makes a call: by the factory of its innermost construction, or from outside. -/
inductive Thread.Makes (rs : List Request) (c : Call ι σ ε ν) (th th' : Thread ι σ ε ν) : Prop where
  | factory (next : Answer ε → Program ι σ ε ν) : th'.stage = .looking c false →
      th.stage = .running (.resolve c.request next) → th.frames = th'.frames → Makes rs c th th'
  | outside : th'.stage = .looking c false → rs = [c.request] → th.stage.isResting = true →
      th'.frames = [] → Makes rs c th th'

/-- **A thread in the middle of a call was so before**, or has just made it. -/
theorem Moved.amid {S S' : Store ι} {rs : List Request} (hm : Moved R S S' rs th th')
    (h : th'.Amid frames c) :
    th.Amid frames c ∨ (th'.frames = frames ∧ th.Makes rs c th') := by
  have hlooks : ∀ {stage : Stage ι σ ε ν} {c' : Call ι σ ε ν}, stage.looks = some c' →
      some c' = some c → stage.call? = some c :=
    fun hl hc => (Stage.call?_of_looks hl).trans hc
  cases hm with
  | stays => exact Or.inl h
  | arrives _ hr _ =>
      rcases h with ⟨hf, hc⟩ | ⟨inner, f, hf, -⟩
      · obtain rfl := Option.some.inj hc
        exact Or.inr ⟨hf, .outside rfl rfl hr rfl⟩
      · simp at hf
  | asks =>
      rcases h with ⟨hf, hc⟩ | ⟨inner, f, hf, hc⟩
      · obtain rfl := Option.some.inj hc
        exact Or.inr ⟨hf, .factory _ rfl rfl rfl⟩
      · exact Or.inl (.frame inner f hf hc)
  | misled | awaits =>
      rcases h with ⟨-, hc⟩ | ⟨inner, f, hf, -⟩
      · cases hc
      · simp at hf
  | claims _ hl hf =>
      subst hf
      exact Or.inl ((Thread.amid_cons rfl (Stage.call?_of_looks hl)).1 h)
  | publishes | undoes => exact Or.inl ((Thread.amid_cons rfl rfl).2 h)
  | hits _ _ hl | defers _ hl | sleeps _ hl => exact Or.inl (h.congr rfl (hlooks hl))
  | refused | reports => exact Or.inl (h.congr rfl (by simp))
  | reportsFailure => exact Or.inl (h.congr rfl (by simp))
  | arrived | goes | misasks => exact Or.inl (h.congr rfl nofun)
  | fulfils | succeeds | failed => exact Or.inl (h.congr rfl id)

/-- A call that an action makes is made above the constructions of its thread. -/
theorem Thread.Makes.calls {rs : List Request} (h : (s.thread t).Makes rs c (s'.thread t))
    (hs : Legal s) (ha : Move t (s.thread t) a rs) (hframes : (s'.thread t).frames = frames) :
    Calls t c.request s a ∧ (s.thread t).frames = frames ∧
      s'.thread t = ⟨frames, .looking c false⟩ := by
  have hlooking : ∀ {stage : Stage ι σ ε ν}, (s'.thread t).stage = stage →
      s'.thread t = ⟨frames, stage⟩ := by
    rintro stage rfl
    rw [← hframes]
  cases h with
  | factory next hstage hrun hsame =>
      refine ⟨?_, hsame.trans hframes, hlooking hstage⟩
      cases ha with
      | step => exact .factory hrun
      | call r hr =>
          rw [hrun] at hr
          cases hr
  | outside hstage hrs hr hnil =>
      refine ⟨?_, ?_, hlooking hstage⟩
      · cases ha with
        | step => cases hrs
        | call r =>
            obtain rfl : r = c.request := by simpa using hrs
            exact .outside
      · rw [(hs.linked t).frames_eq_nil hr, ← hframes, hnil]

/-- **A thread in the middle of a call was so before an action, or made it there.** -/
theorem Thread.Amid.before (h : (s'.thread t).Amid frames c) (hs : Legal s)
    (ha : act R a s = some s') : (s.thread t).Amid frames c ∨ (Calls t c.request s a ∧
      (s.thread t).frames = frames ∧ s'.thread t = ⟨frames, .looking c false⟩) := by
  cases acted_of_act ha t with
  | aside hth => exact Or.inl (hth ▸ h)
  | notified hth =>
      refine Or.inl (h.congr (by rw [hth, Thread.frames_notify]) fun hc => ?_)
      rwa [hth, Thread.call?_notify] at hc
  | moved hmove hm =>
      exact (hm.amid h).imp_right fun ⟨hframes, hmakes⟩ => hmakes.calls hs hmove hframes
  | awaits x hth =>
      rw [hth] at h
      rcases h with ⟨-, hc⟩ | ⟨inner, f, hf, -⟩
      · cases hc
      · simp at hf
  | passes _ hth =>
      rw [hth] at h
      exact Or.inl (h.congr rfl nofun)

/-! ### Calls that are underway -/

/-- The actions from the one in which a call is made, as long as its thread is in the middle of more
calls than those of the constructions below it. -/
inductive Underway (R : Setup ι σ ε ν) (t : ThreadId) (frames : List (Frame ι σ ε ν))
    (c : Call ι σ ε ν) (s : State ι σ ε ν) : List (Action σ) → State ι σ ε ν → Prop where
  | made {a : Action σ} {s' : State ι σ ε ν} : Calls t c.request s a →
      (s.thread t).frames = frames → act R a s = some s' →
      s'.thread t = ⟨frames, .looking c false⟩ → Underway R t frames c s [a] s'
  | goes {a : Action σ} {as : List (Action σ)} {s' s'' : State ι σ ε ν} :
      Underway R t frames c s as s' → act R a s' = some s'' →
      frames.length < (s''.thread t).calls.length → Underway R t frames c s (as ++ [a]) s''

/-- A call with a key is underway when it is made. -/
theorem Calls.underway {key : Key} (h : Calls t r s a) (hs : Legal s)
    (ha : Registry.act R a s = some s') (hk : r.key = .ok key) : Underway R t (s.thread t).frames
      ⟨r, key, r.reference, (s.thread t).stage.asker⟩ s [a] s' := by
  obtain ⟨s₁, -, -, hlooking⟩ :=
    enter_threads R t (s.thread t).frames r hk (s.thread t).stage.asker s
  refine .made h rfl ha ?_
  rw [h.act hs ha, hlooking, State.thread_put_self]

theorem Underway.perform (h : Underway R t frames c s as s') : perform R as s = some s' := by
  induction h with
  | made _ _ ha => rw [perform_cons, ha]; rfl
  | goes _ ha _ ih => exact perform_snoc ih ha

theorem Underway.inProgress (h : Underway R t frames c s as s') :
    frames.length < (s'.thread t).calls.length := by
  cases h with
  | made _ _ _ hth =>
      rw [hth, Thread.calls_of_call? rfl]
      simp
  | goes _ _ hcalls => exact hcalls

/-- **A thread in the middle of a call made it in some action of the run**, and has been so
since. -/
theorem Thread.Amid.underway {notes : σ} {asked : Nat} (h : (s.thread t).Amid frames c)
    (hp : perform R as (State.initial notes asked) = some s) : ∃ as₁ as₂ s₁, as = as₁ ++ as₂ ∧
      perform R as₁ (State.initial notes asked) = some s₁ ∧ Underway R t frames c s₁ as₂ s := by
  induction as using List.reverseRecOn generalizing s with
  | nil =>
      obtain rfl := Option.some.inj hp
      rcases h with ⟨-, hc⟩ | ⟨inner, f, hf, -⟩
      · cases hc
      · simp [State.thread, State.initial, atRest] at hf
  | append_singleton as a ih =>
      rw [perform_append, Option.bind_eq_some_iff] at hp
      obtain ⟨s', hp, ha⟩ := hp
      rw [perform_cons, Option.bind_eq_some_iff] at ha
      obtain ⟨s'', ha, hnil⟩ := ha
      obtain rfl := Option.some.inj hnil
      have hs' := (reachable_iff_perform.2 ⟨notes, asked, as, hp⟩).legal
      rcases h.before hs' ha with h' | ⟨hcalls, hframes, hth⟩
      · obtain ⟨as₁, as₂, s₁, rfl, hp₁, hunderway⟩ := ih h' hp
        exact ⟨as₁, as₂ ++ [a], s₁, by rw [List.append_assoc], hp₁, hunderway.goes ha h.lt_length⟩
      · exact ⟨as, [a], s', rfl, hp, .made hcalls hframes ha hth⟩

/-! ### The answer of a call -/

/-- A call as if it were made from outside all constructions. -/
def Stage.detached : Stage ι σ ε ν → Stage ι σ ε ν
  | .looking c waited => .looking { c with resume := none } waited
  | .asleep c notified => .asleep { c with resume := none } notified
  | .reporting c o h => .reporting { c with resume := none } o h
  | .failing c f => .failing { c with resume := none } f
  | stage => stage

/-- The answer with which the next step of a thread ends the call that it is in the middle of, if it
ends it: what a caller from outside would be told. -/
def answer? (R : Setup ι σ ε ν) (t : ThreadId) (s : State ι σ ε ν) : Option (Answer ε) :=
  (stepThread R t ⟨[], (s.thread t).stage.detached⟩ s).bind fun s' =>
    match (s'.thread t).stage with
    | .returned a => some a
    | _ => none

/-- The next step of a thread ends a call with an answer; the call was made above the given
constructions. -/
structure Returns (R : Setup ι σ ε ν) (t : ThreadId) (frames : List (Frame ι σ ε ν))
    (c : Call ι σ ε ν) (a : Answer ε) (s : State ι σ ε ν) : Prop where
  frames : (s.thread t).frames = frames
  call : (s.thread t).stage.call? = some c
  answer : answer? R t s = some a

theorem Stage.looks_detached (h : stage.looks = some c) :
    stage.detached.looks = some { c with resume := none } := by
  cases stage with
  | looking c' w =>
      obtain rfl := Option.some.inj h
      rfl
  | asleep c' notified =>
      cases notified with
      | false => cases h
      | true =>
          obtain rfl := Option.some.inj h
          rfl
  | _ => cases h

/-- A look-up ends the call when the key is absent and refused, and in no other case. -/
theorem answer?_of_looks (h : (s.thread t).stage.looks = some c) : answer? R t s =
    match Dictionary.find? c.key s.store.table.entries with
    | some _ => none
    | none => (R.refusal? s.store.asked c.request).map .error := by
  obtain ⟨w, S, hS, hasked, hstep⟩ := stepThread_of_looks (Stage.looks_detached h) t s
  rw [answer?, hstep R [], Option.bind_some]
  cases he : Dictionary.find? c.key s.store.table.entries with
  | some e =>
      have he' : Dictionary.find? c.key (s.withStore S).store.table.entries = some e := by
        rwa [State.store_withStore, hS.entries]
      obtain ⟨S', stage', -, hstage, hlook⟩ :=
        look_of_entry R t [] (c := { c with resume := none }) he' w
      rw [hlook R.admits, State.thread_put_self]
      rcases hstage with ⟨o, x, rfl⟩ | ⟨rfl, -⟩ <;> rfl
  | none =>
      have he' : Dictionary.find? c.key (s.withStore S).store.table.entries = none := by
        rwa [State.store_withStore, hS.entries]
      rw [look_of_none (c := { c with resume := none }) he' w]
      cases hrefusal : R.refusal? s.store.asked c.request with
      | some e =>
          rw [← hasked] at hrefusal
          obtain ⟨S', -, hbegin⟩ := begin_of_refusal t [] (s := s.withStore S)
            (c := { c with resume := none }) hrefusal
          rw [hbegin, State.thread_put_self]
          rfl
      | none =>
          rw [← hasked] at hrefusal
          obtain ⟨factory, slot, S', -, -, -, hbegin⟩ := begin_of_admitted t []
            (s := s.withStore S) (c := { c with resume := none }) hrefusal
          rw [hbegin, State.thread_put_self]
          rfl

theorem Returns.amid {x : Answer ε} (h : Returns R t frames c x s) :
    (s.thread t).Amid frames c := .call h.frames h.call

/-- A call ends with an error when it looks up its key, or when its construction has failed. -/
theorem Returns.looks_or_failing {e : RegistryError ε} (h : Returns R t frames c (.error e) s) :
    (s.thread t).stage.looks = some c ∨ ∃ source,
      (s.thread t).stage = .failing c (.error source) ∧
        e = .constructionFailed c.reference source := by
  obtain ⟨hframes, hcall, hanswer⟩ := h
  generalize hth : s.thread t = th at hframes hcall
  obtain ⟨frames', stage⟩ := th
  rw [answer?, hth] at hanswer
  cases stage with
  | looking c' w => exact Or.inl hcall
  | asleep c' notified =>
      cases notified with
      | false => simp [Stage.detached, stepThread] at hanswer
      | true => exact Or.inl hcall
  | fulfilling f i => simp [Stage.detached, stepThread] at hanswer
  | ending c' result =>
      cases result <;>
        simp [Stage.detached, stepThread, announce, State.thread_put_self] at hanswer
  | reporting c' o x =>
      simp [Stage.detached, stepThread, report, State.thread_put_self, Call.deliver,
        Stage.answered] at hanswer
  | failing c' failure =>
      obtain rfl := Option.some.inj hcall
      cases failure with
      | panic message =>
          simp [Stage.detached, stepThread, reportFailure, State.thread_put_self,
            Call.deliverFailure] at hanswer
      | error source =>
          simp [Stage.detached, stepThread, reportFailure, State.thread_put_self,
            Call.deliverFailure, Call.deliver, Stage.answered] at hanswer
          exact Or.inr ⟨source, rfl, hanswer.symm⟩
  | _ => simp [Stage.call?] at hcall

/-- A call ends with a rejection only when it looks up its key. -/
theorem Returns.looks {e : RegistryError ε} (h : Returns R t frames c (.error e) s)
    (he : e.isRejection = true) : (s.thread t).stage.looks = some c := by
  refine h.looks_or_failing.resolve_right ?_
  rintro ⟨source, -, rfl⟩
  cases he

end SchemaGraph.Registry
