/-
**What can never be had.**

Some requests cannot succeed as long as none of them does: the factory of such a request asks for
another one, which is smaller, and can do nothing without the answer.  When calls wait for the
constructions of other threads, no such request is ever granted, not even with a forward reference.
For to be given one, a thread would have to construct the type itself, or to be waited for by the
thread that does.  But above a construction of such a type a thread asks for smaller ones only, and
so do all threads that it waits for.

Main definitions:

* `Withholds` — an answer that grants none of these requests;
* `Barred` — requests that cannot succeed, with a measure that their factories decrease;
* `Guided` — **the invariant**: constructions are led by answers of a kind.

Main results:

* `Guided.event` — what an event preserves, whatever the kind of answers;
* `Guided.descends` — above a barred construction a thread asks for smaller barred types;
* `Guided.descends_of_waits` — and so do the threads that it waits for;
* `Barred.guided` — **no barred request is ever granted**, in any run.
-/

import SchemaGraph.Proofs.Registry.Action
import SchemaGraph.Proofs.Registry.Outside

set_option autoImplicit false

namespace SchemaGraph.Registry

open Relation (ReflTransGen)

variable {ι σ ε ν : Type} {R : Setup ι σ ε ν} {A : Request → Answer ε → Prop}
  {V X : Request → Prop} {size : Request → Nat} {s s' : State ι σ ε ν} {t u : ThreadId} {k : Key}
  {q : SlotId} {i : InstanceId} {frames : List (Frame ι σ ε ν)} {stage : Stage ι σ ε ν}
  {c : Call ι σ ε ν} {o : Outcome} {x : Handle} {r : Request}

/-! ### Constructions that are led by answers -/

/-- A call was made by the construction below it, along answers of a kind. -/
def Asked (R : Setup ι σ ε ν) (A : Request → Answer ε → Prop) (frames : List (Frame ι σ ε ν))
    (c : Call ι σ ε ν) : Prop :=
  ∀ f rest, frames = f :: rest → ∃ next log, c.resume = some next ∧
    Reaches R A f.call.request log (.resolve c.request next)

/-- Each construction was asked for by the one below it. -/
def Stacked (R : Setup ι σ ε ν) (A : Request → Answer ε → Prop) : List (Frame ι σ ε ν) → Prop
  | [] => True
  | f :: frames => Asked R A frames f.call ∧ Stacked R A frames

/-- What a thread does next follows from answers of a kind, and so does what it returns. -/
def Stage.Led (R : Setup ι σ ε ν) (A : Request → Answer ε → Prop)
    (frames : List (Frame ι σ ε ν)) : Stage ι σ ε ν → Prop
  | .running p => ∀ f rest, frames = f :: rest →
      (∃ log, Reaches R A f.call.request log p) ∨ ∃ message, p = .panic message
  | .looking c _ | .asleep c _ | .ending c _ | .failing c _ => Asked R A frames c
  | .fulfilling f _ => Asked R A frames f.call
  | .reporting c _ x => Asked R A frames c ∧ A c.request (.ok x)
  | .awaiting _ | .returned _ | .panicked _ | .awaited _ => True

/-- Constructions and instances are led by answers of a kind. -/
structure Guided (R : Setup ι σ ε ν) (V : Request → Prop) (A : Request → Answer ε → Prop)
    (s : State ι σ ε ν) : Prop where
  stacked : ∀ t, Stacked R A (s.thread t).frames
  led : ∀ t, (s.thread t).stage.Led R A (s.thread t).frames
  made : ∀ {k : Key} {i : InstanceId}, Dictionary.find? k s.store.table.entries = some (.ready i) →
    ∃ r log y, V r ∧ r.key = .ok k ∧ Reaches R A r log (.done y)

theorem guided_initial (notes : σ) (asked : Nat) :
    Guided R V A (State.initial notes asked : State ι σ ε ν) where
  stacked _ := trivial
  led _ := trivial
  made hk := by simp [State.initial] at hk

/-- A call that is answered goes on along the path of the construction that made it. -/
theorem Asked.deliver {a : Answer ε} (hc : Asked R A frames c) (ha : A c.request a) :
    (c.deliver a).Led R A frames := by
  unfold Call.deliver Stage.answered
  cases hresume : c.resume with
  | none => trivial
  | some k =>
      intro f rest hf
      obtain ⟨next, log, hn, hp⟩ := hc f rest hf
      obtain rfl : k = next := Option.some.inj (hresume.symm.trans hn)
      exact Or.inl ⟨_, hp.trans (.answer ha (.refl _))⟩

theorem Asked.deliverFailure (hA : ∀ r e, A r (.error e)) (hc : Asked R A frames c)
    (failure : Failure ε) : (c.deliverFailure failure).Led R A frames := by
  cases failure with
  | error e => exact hc.deliver (hA _ _)
  | panic message =>
      rw [Call.deliverFailure]
      cases c.resume with
      | none => trivial
      | some k => exact fun _ _ _ => Or.inr ⟨message, rfl⟩

theorem Stage.Led.looks (h : stage.Led R A frames) (hl : stage.looks = some c) :
    Asked R A frames c := by
  cases stage with
  | looking c' w => exact Option.some.inj hl ▸ h
  | asleep c' notified =>
      cases notified with
      | false => cases hl
      | true => exact Option.some.inj hl ▸ h
  | _ => cases hl

theorem Stage.led_notify {th : Thread ι σ ε ν} (h : th.stage.Led R A frames) :
    th.notify.stage.Led R A frames := by
  obtain ⟨_, stage⟩ := th
  cases stage <;> exact h

/-- A thread that moves is led as before, if what it is about to return is an answer of the kind. -/
theorem Moved.led (hA : ∀ r e, A r (.error e)) {S S' : Store ι} {new : List Request}
    {th th' : Thread ι σ ε ν} (hm : Moved R S S' new th th')
    (hkeys : ∀ c, th.stage.looks = some c → c.request.key = .ok c.key)
    (hgiven : ∀ c o x, th'.stage = .reporting c o x → A c.request (.ok x))
    (hw : Stacked R A th.frames) (hst : th.stage.Led R A th.frames) :
    Stacked R A th'.frames ∧ th'.stage.Led R A th'.frames := by
  cases hm with
  | stays => exact ⟨hw, hst⟩
  | arrives => exact ⟨trivial, nofun⟩
  | misled | awaits => exact ⟨trivial, trivial⟩
  | arrived => exact ⟨hw, trivial⟩
  | goes hp hgoes =>
      refine ⟨hw, fun f rest hf => ?_⟩
      rcases hst f rest hf with ⟨log, hp⟩ | ⟨message, rfl⟩
      · exact Or.inl ⟨log, hp.goes hgoes⟩
      · cases hgoes
  | @asks f frames r key next hp hk =>
      refine ⟨hw, fun g rest hg => ?_⟩
      rcases hst g rest hg with ⟨log, hp⟩ | ⟨message, hpanic⟩
      · exact ⟨next, log, rfl, hp⟩
      · cases hpanic
  | @misasks f frames r reason next e hp hk =>
      refine ⟨hw, fun g rest hg => ?_⟩
      rcases hst g rest hg with ⟨log, hp⟩ | ⟨message, hpanic⟩
      · exact Or.inl ⟨_, hp.trans (.answer (hA r e) (.refl _))⟩
      · cases hpanic
  | refused e hp hlooks => exact ⟨hw, (hst.looks hlooks).deliver (hA _ _)⟩
  | hits o hp hlooks => exact ⟨hw, hst.looks hlooks, hgiven _ _ _ rfl⟩
  | defers hp hlooks => exact ⟨hw, hst.looks hlooks, hgiven _ _ _ rfl⟩
  | sleeps hp hlooks => exact ⟨hw, hst.looks hlooks⟩
  | @claims frames stage c factory f t hlooks hf _ hfactory =>
      subst hf
      refine ⟨⟨hst.looks hlooks, hw⟩, fun g rest hg => Or.inl ⟨[], ?_⟩⟩
      obtain ⟨rfl, -⟩ := List.cons.inj hg
      exact ⟨f.call.key, factory, hkeys _ hlooks, hfactory, .refl _⟩
  | publishes => exact ⟨hw.2, hw.1⟩
  | undoes => exact ⟨hw.2, hw.1⟩
  | fulfils => exact ⟨hw, hst⟩
  | succeeds => exact ⟨hw, hst, hgiven _ _ _ rfl⟩
  | failed => exact ⟨hw, hst⟩
  | reports => exact ⟨hw, hst.1.deliver hst.2⟩
  | reportsFailure => exact ⟨hw, hst.deliverFailure hA _⟩

/-- **An event keeps constructions led**, if the threads return nothing but answers of the kind. -/
theorem Guided.event (hA : ∀ r e, A r (.error e)) (hg : Guided R V A s)
    (ht : Traceable R V (fun _ => False) s) {new : List Request} (he : Event R s new s')
    (hgiven : ∀ t c o x, (s'.thread t).stage = .reporting c o x → A c.request (.ok x)) :
    Guided R V A s' := by
  obtain ⟨t, hm⟩ := he.motion
  have hself := hm.moved.led hA (fun c hl => ((ht.suits t).looks hl).key) (hgiven t)
    (hg.stacked t) (hg.led t)
  refine ⟨fun u => ?_, fun u => ?_, fun {k i} hk => ?_⟩
  · by_cases hu : u = t
    · exact hu ▸ hself.1
    · rcases hm.beside u hu with h | h <;> rw [h]
      · exact hg.stacked u
      · rw [Thread.frames_notify]
        exact hg.stacked u
  · by_cases hu : u = t
    · exact hu ▸ hself.2
    · rcases hm.beside u hu with h | h <;> rw [h]
      · exact hg.led u
      · rw [Thread.frames_notify]
        exact Stage.led_notify (hg.led u)
  · rcases hm.moved.effect.ready hk with hold | ⟨f, frames, y, hth, rfl, -, -⟩
    · exact hg.made hold
    · have hw := ht.woven t
      have hled := hg.led t
      rw [hth] at hw hled
      rcases hled f frames rfl with ⟨log, hp⟩ | ⟨message, hpanic⟩
      · exact ⟨f.call.request, log, y, hw.1.allowed, hw.1.key, hp⟩
      · cases hpanic

/-! ### Requests that cannot succeed -/

/-- An answer that grants none of some requests. -/
def Withholds (X : Request → Prop) (r : Request) : Answer ε → Prop
  | .ok _ => ¬ X r
  | .error _ => True

/-- Requests that cannot succeed as long as none of them does (`X`), among those of a run (`V`), and
how far their factories are from asking for nothing more. -/
structure Barred (R : Setup ι σ ε ν) (V X : Request → Prop) (size : Request → Nat) : Prop where
  /-- factories make requests of the run -/
  asks : ∀ {r r' : Request} {log : List (Request × Answer ε)} {next : Answer ε → Program ι σ ε ν},
    V r → Reaches R (Permitted fun _ => False) r log (.resolve r' next) → V r'
  /-- a key tells whether a request can succeed -/
  sound : ∀ {r r' : Request} {k : Key}, V r → V r' → r.key = .ok k → r'.key = .ok k → X r →
    X r' ∧ size r' = size r
  /-- the factory asks for smaller types that cannot be had either -/
  descends : ∀ {r r' : Request} {log : List (Request × Answer ε)}
    {next : Answer ε → Program ι σ ε ν},
    X r → Reaches R (Withholds X) r log (.resolve r' next) → X r' ∧ size r' < size r
  /-- without them it makes nothing -/
  undone : ∀ {r : Request} {log : List (Request × Answer ε)} {y : Yield ι},
    X r → ¬ Reaches R (Withholds X) r log (.done y)

/-- A barred key is never ready. -/
theorem Barred.not_ready (hB : Barred R V X size) (hg : Guided R V (Withholds X) s) (hV : V r)
    (hX : X r) (hk : r.key = .ok k) : Dictionary.find? k s.store.table.entries ≠ some (.ready i) := by
  intro he
  obtain ⟨r', log, y, hV', hk', hp⟩ := hg.made he
  exact hB.undone (hB.sound hV hV' hk hk' hX).1 hp

/-- **Above a barred construction a thread asks for smaller barred types.** -/
theorem Asked.descends (hB : Barred R V X size) (hw : Stacked R (Withholds X) frames)
    (hc : Asked R (Withholds X) frames c) {f : Frame ι σ ε ν} (hf : f ∈ frames)
    (hX : X f.call.request) : X c.request ∧ size c.request < size f.call.request := by
  induction frames generalizing c with
  | nil => exact absurd hf List.not_mem_nil
  | cons g frames ih =>
      obtain ⟨next, log, -, hp⟩ := hc g frames rfl
      rcases List.mem_cons.1 hf with rfl | hf
      · exact hB.descends hX hp
      · obtain ⟨hXg, hlt⟩ := ih hw.2 hw.1 hf
        obtain ⟨hXc, hlt'⟩ := hB.descends hXg hp
        exact ⟨hXc, hlt'.trans hlt⟩

/-- What is under construction was asked for in the run, and has a key. -/
theorem Woven.allowed {D : Request → Prop} (hw : Woven R V D s frames) :
    ∀ f ∈ frames, V f.call.request ∧ f.call.request.key = .ok f.call.key := by
  induction frames with
  | nil => exact fun f hf => absurd hf List.not_mem_nil
  | cons f frames ih => exact List.forall_mem_cons.2 ⟨⟨hw.1.allowed, hw.1.key⟩, ih hw.2⟩

section Waits

variable (hB : Barred R V X size) (hg : Guided R V (Withholds X) s)
  (ht : Traceable R V (fun _ => False) s) (hl : Legal s)

include hB ht hl

/-- The construction that has a barred key is one of a barred type of the same size. -/
theorem Barred.exists_frame (hV : V r) (hX : X r) (hk : r.key = .ok k)
    (he : Dictionary.find? k s.store.table.entries = some (.pending u q)) :
    ∃ f ∈ (s.thread u).frames, X f.call.request ∧ size f.call.request = size r := by
  obtain ⟨f, hf, rfl, -⟩ := (hl.owned.pending_iff _ _ _).1 he
  obtain ⟨hVf, hkf⟩ := (ht.woven u).allowed f hf
  exact ⟨f, hf, hB.sound hV hVf hk hkf hX⟩

include hg

/-- **A thread that waits above a barred construction waits for a smaller one.** -/
theorem Guided.descends_of_waits {v : ThreadId} (hw : s.store.table.WaitsFor u v)
    {f : Frame ι σ ε ν} (hf : f ∈ (s.thread u).frames) (hX : X f.call.request) :
    ∃ g ∈ (s.thread v).frames, X g.call.request ∧ size g.call.request < size f.call.request := by
  obtain ⟨k, q, hsleeps, he⟩ := hw
  rw [hl.waiting_eq] at hsleeps
  have hled := hg.led u
  have hsuits := ht.suits u
  generalize (s.thread u).stage = stage at hsleeps hled hsuits
  cases stage with
  | asleep c notified =>
      obtain rfl : c.key = k := Option.some.inj hsleeps
      have hc : Proper R V (fun _ => False) s _ c := hsuits
      obtain ⟨hXc, hlt⟩ := Asked.descends hB (hg.stacked u) hled hf hX
      obtain ⟨g, hgf, hXg, heq⟩ := hB.exists_frame ht hl hc.allowed hXc hc.key he
      exact ⟨g, hgf, hXg, heq ▸ hlt⟩
  | _ => cases hsleeps

theorem Guided.descends_of_path (hp : ReflTransGen s.store.table.WaitsFor u t)
    {f : Frame ι σ ε ν} (hf : f ∈ (s.thread u).frames) (hX : X f.call.request) :
    ∃ g ∈ (s.thread t).frames, X g.call.request ∧ size g.call.request ≤ size f.call.request := by
  induction hp with
  | refl => exact ⟨f, hf, hX, le_rfl⟩
  | tail _ hw ih =>
      obtain ⟨g, hgf, hXg, hle⟩ := ih
      obtain ⟨g', hgf', hXg', hlt⟩ := hg.descends_of_waits hB ht hl hw hgf hXg
      exact ⟨g', hgf', hXg', hlt.le.trans hle⟩

/-- A thread that looks for a barred key is not the one at the end of the chain of threads that
begins with its owner. -/
theorem Guided.not_path (hlooks : (s.thread t).stage.looks = some c) (hX : X c.request)
    (he : Dictionary.find? c.key s.store.table.entries = some (.pending u q)) :
    ¬ ReflTransGen s.store.table.WaitsFor u t := by
  intro hpath
  have hc := (ht.suits t).looks hlooks
  obtain ⟨f, hf, hXf, heq⟩ := hB.exists_frame ht hl hc.allowed hX hc.key he
  obtain ⟨g, hgf, hXg, hle⟩ := hg.descends_of_path hB ht hl hpath hf hXf
  -- the thread asks for something smaller than what it constructs
  have hlt := (Asked.descends hB (hg.stacked t) ((hg.led t).looks hlooks) hgf hXg).2
  omega

end Waits

/-! ### What is returned -/

/-- A thread is about to return what it was about to return before, or it has just taken a step. -/
theorem Event.reporting {new : List Request} (he : Event R s new s')
    (hst : (s'.thread t).stage = .reporting c o x) :
    (s.thread t).stage = .reporting c o x ∨ Registry.step R t s = some s' := by
  have hput : ∀ {s₁ : State ι σ ε ν} {u : ThreadId} {frames : List (Frame ι σ ε ν)}
      {stage : Stage ι σ ε ν}, s₁.threads = s.threads →
      ((s₁.put u frames stage).thread t).stage = .reporting c o x → stage ≠ .reporting c o x →
      (s.thread t).stage = .reporting c o x := by
    intro s₁ u frames stage hthreads h hne
    rw [State.thread_put] at h
    split at h
    · exact absurd h hne
    · rwa [State.thread_congr hthreads] at h
  cases he with
  | step u h =>
      by_cases hu : t = u
      · exact Or.inr (hu ▸ h)
      · left
        rcases (motion_step h).beside t hu with heq | heq <;> rw [heq] at hst
        · exact hst
        · exact Thread.reporting_notify hst
  | call u r hi =>
      left
      cases hk : r.key with
      | error reason =>
          obtain ⟨e, he⟩ := enter_of_error R u [] r hk none s
          rw [State.call, he] at hst
          exact hput rfl hst (by simp [Stage.answered])
      | ok key =>
          obtain ⟨s₁, hthreads, -, he⟩ := enter_threads R u [] r hk none s
          rw [State.call, he] at hst
          exact hput hthreads hst (by simp)
  | await u h hi => exact Or.inl (hput (rfl : s.threads = s.threads) hst (by simp))
  | openGate name => exact Or.inl hst
  | passGate u =>
      left
      unfold State.passGate at hst
      split at hst
      · exact hput rfl hst (by simp)
      · exact hst
  | note f => exact Or.inl hst
  | clone q => exact Or.inl hst
  | drop q => exact Or.inl hst

theorem Call.deliver_ne_reporting {a : Answer ε} {c' : Call ι σ ε ν} :
    c'.deliver a ≠ .reporting c o x := by
  unfold Call.deliver Stage.answered
  cases c'.resume <;> simp

theorem Call.deliverFailure_ne_reporting {failure : Failure ε} {c' : Call ι σ ε ν} :
    c'.deliverFailure failure ≠ .reporting c o x := by
  cases failure with
  | error e => exact deliver_ne_reporting
  | panic message =>
      rw [deliverFailure]
      cases c'.resume <;> simp

/-- Where a handle comes from that a thread is about to return. -/
theorem Moved.reporting {S S' : Store ι} {new : List Request} {th th' : Thread ι σ ε ν}
    (hm : Moved R S S' new th th') (hst : th'.stage = .reporting c o x) :
    th.stage = .reporting c o x ∨
      (th.stage.looks = some c ∧ ∃ i, Dictionary.find? c.key S.table.entries = some (.ready i)) ∨
      (th.stage.looks = some c ∧ o = .deferred ∧
        ∃ u q, Dictionary.find? c.key S.table.entries = some (.pending u q)) ∨
      ∃ i, th.stage = .ending c (.ok i) := by
  cases hm with
  | stays => exact Or.inl hst
  | @hits _ _ _ i _ _ hlooks he =>
      obtain ⟨rfl, -, -⟩ := Stage.reporting.inj hst
      exact Or.inr (Or.inl ⟨hlooks, i, he⟩)
  | @defers _ _ _ u q _ hlooks he =>
      obtain ⟨rfl, ho, -⟩ := Stage.reporting.inj hst
      exact Or.inr (Or.inr (Or.inl ⟨hlooks, ho.symm, u, q, he⟩))
  | @succeeds _ _ i =>
      obtain ⟨rfl, -, -⟩ := Stage.reporting.inj hst
      exact Or.inr (Or.inr (Or.inr ⟨i, rfl⟩))
  | refused e hp hlooks => exact absurd hst Call.deliver_ne_reporting
  | reports => exact absurd hst Call.deliver_ne_reporting
  | reportsFailure => exact absurd hst Call.deliverFailure_ne_reporting
  | _ => cases hst

/-- A thread takes a forward reference only to a construction that waits for the thread, if calls
wait for the constructions of other threads. -/
theorem path_of_deferred (hblock : R.options.block = true)
    (hlooks : (s.thread t).stage.looks = some c)
    (he : Dictionary.find? c.key s.store.table.entries = some (.pending u q))
    (hstep : step R t s = some s') (hst : (s'.thread t).stage = .reporting c .deferred x) :
    ReflTransGen s.store.table.WaitsFor u t := by
  -- whoever looks takes the forward reference, or falls asleep
  have hlook : ∀ {T : Table} {w : Bool} {s₁ : State ι σ ε ν}, s₁.store.table = T →
      Dictionary.find? c.key T.entries = some (.pending u q) →
      ((look R t (s.thread t).frames c w s₁).thread t).stage = .reporting c .deferred x →
      ReflTransGen T.WaitsFor u t := by
    intro T w s₁ hT he hst
    subst hT
    simp only [look, he] at hst
    split at hst
    · rename_i hdefers
      simp only [defers, hblock, Bool.not_true, Bool.or_false, Bool.or_eq_true, beq_iff_eq] at hdefers
      rcases hdefers with rfl | hcycle
      · exact .refl
      · exact (Table.closesWaitCycle_iff _ _).1 hcycle
    · rw [State.thread_put_self] at hst
      cases hst
  rw [step_eq_stepThread] at hstep
  generalize hth : s.thread t = th at hstep hlooks hlook
  obtain ⟨frames, stage⟩ := th
  cases stage with
  | looking c' w =>
      obtain rfl := Option.some.inj hlooks
      obtain rfl := Option.some.inj hstep
      exact hlook rfl he hst
  | asleep c' notified =>
      cases notified with
      | false => cases hlooks
      | true =>
          obtain rfl := Option.some.inj hlooks
          obtain rfl := Option.some.inj hstep
          -- whoever waits after the thread has woken waited before
          refine ReflTransGen.mono (fun v w hw => ?_) _ _
            (hlook (T := (s.store.wake t).table) rfl he hst)
          obtain ⟨k, q, hk, hq⟩ := hw
          rw [Store.wake, Dictionary.find?_erase] at hk
          split at hk
          · cases hk
          · exact ⟨k, q, hk, hq⟩
  | _ => cases hlooks

/-- **No barred request is ever granted**, in any run in which calls wait for the constructions of
other threads. -/
theorem Barred.guided (hB : Barred R V X size) (hblock : R.options.block = true)
    {rs : List Request} {ks : List Key} (hs : Session R rs ks s) (hrs : ∀ r ∈ rs, V r) :
    Guided R V (Withholds X) s := by
  induction hs with
  | initial notes asked => exact guided_initial notes asked
  | @event rs new ks s s' hs he ih =>
      obtain ⟨hnew, hold⟩ := List.forall_mem_append.1 hrs
      have hg := ih hold
      have ht := hs.traceable (Reliable.nothing fun hV hp => hB.asks hV hp) hold
      have hl := hs.reachable.legal
      refine hg.event (fun _ _ => trivial) ht he fun t c o x hst => ?_
      rcases he.reporting hst with hsame | hstep
      · have hled := hg.led t
        rw [hsame] at hled
        exact hled.2
      · intro hX
        rcases (motion_step hstep).moved.reporting hst with hsame | ⟨hlooks, i, he⟩ |
          ⟨hlooks, rfl, u, q, he⟩ | ⟨i, hends⟩
        · have hled := hg.led t
          rw [hsame] at hled
          exact hled.2 hX
        · have hc := (ht.suits t).looks hlooks
          exact hB.not_ready hg hc.allowed hX hc.key he
        · exact hg.not_path hB ht hl hlooks hX he (path_of_deferred hblock hlooks he hstep hst)
        · have hc := ht.suits t
          rw [hends] at hc
          have hp : (s.thread t).stage.published = some (c.key, i) := by rw [hends]; rfl
          have hproper : Proper R V (fun _ => False) s _ c := hc
          exact hB.not_ready hg hproper.allowed hX hproper.key (hl.settled.published hp)

end SchemaGraph.Registry
