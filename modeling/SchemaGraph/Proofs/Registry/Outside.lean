/-
**Callers outside all constructions.**

A thread that runs no construction owns no entry in progress.  So nobody waits for it, no chain of
waiting threads leads to it, and its own calls are never taken for the last link of a cycle: when
calls wait for the constructions of other threads, a call from outside waits for as long as it
takes, through any number of attempts, and is answered with an instance or with an error of its own.

Main definitions:

* `Handle.Found` — a handle names the instance that the table has under its key;
* `Answer.Direct`, `Stage.Direct`, `Thread.Direct` — what a call from outside can be answered with;
* `Answer.leadsTo` — the instance that is read from an answer, at once or later;
* `reluctant`, `waitedTwice` — a waiter that lives through a failed attempt and its retry.

Main results:

* `Legal.not_defers` — **a call from outside is given no forward reference**;
* `Next.direct`, `Reachable.direct` — what one event preserves, and what holds in every run;
* `AtRest.found` — **a call is answered with an instance when no other is in progress**;
* `outside_never_deferred` — **callers outside all constructions never see a forward reference**.
-/

import SchemaGraph.Proofs.Registry.Alone
import SchemaGraph.Proofs.Registry.Reply

set_option autoImplicit false

namespace SchemaGraph.Registry

open Relation (ReflTransGen)

variable {ι σ ε ν : Type} {R : Setup ι σ ε ν} {s s' : State ι σ ε ν} {t u : ThreadId} {k : Key}
  {q : SlotId} {frames : List (Frame ι σ ε ν)} {c : Call ι σ ε ν}

/-! ### The end of no chain -/

/-- A thread that runs no construction owns no entry. -/
theorem Legal.not_owner (hs : Legal s) (hframes : (s.thread t).frames = []) :
    Dictionary.find? k s.store.table.entries ≠ some (.pending t q) := by
  intro he
  obtain ⟨f, hf, -⟩ := (hs.owned.pending_iff k t q).1 he
  rw [hframes] at hf
  exact List.not_mem_nil hf

/-- No chain of waiting threads leads to a thread that runs no construction. -/
theorem Legal.eq_of_waits (hs : Legal s) (hframes : (s.thread t).frames = [])
    (h : ReflTransGen s.store.table.WaitsFor u t) : u = t := by
  rcases Relation.ReflTransGen.cases_tail h with rfl | ⟨v, -, k, q, -, he⟩
  · rfl
  · exact absurd he (hs.not_owner hframes)

/-- **A call from outside all constructions is given no forward reference**, if calls wait for the
constructions of other threads, or if there are none. -/
theorem Legal.not_defers (hs : Legal s)
    (hfree : R.options.block = true ∨ ∀ v, v ≠ t → (s.thread v).frames = [])
    (hframes : (s.thread t).frames = [])
    (he : Dictionary.find? k s.store.table.entries = some (.pending u q)) :
    defers R t u s.store.table = false := by
  have hne : u ≠ t := by
    rintro rfl
    exact hs.not_owner hframes he
  rcases hfree with hblock | halone
  · have hcycle : s.store.table.closesWaitCycle u t = false := by
      by_contra h
      rw [Bool.not_eq_false, Table.closesWaitCycle_iff] at h
      exact hne (hs.eq_of_waits hframes h)
    simp [defers, hne, hblock, hcycle]
  · exact absurd he (hs.not_owner (halone u hne))

/-! ### What a call from outside is answered with -/

/-- A handle names the instance that the table has under its key. -/
def Handle.Found (h : Handle) (T : Table) : Prop :=
  ∃ i, h.target = .ready i ∧ Dictionary.find? h.key T.entries = some (.ready i)

/-- An answer names an instance of the table, or is an error of the call: no complaint about a
forward reference. -/
def Answer.Direct (T : Table) : Answer ε → Prop
  | .ok h => h.Found T
  | .error e => ∀ reference key, e ≠ .unresolved reference key

/-- A call from outside is about to be answered, or was answered, without a forward reference. -/
def Stage.Direct (T : Table) : Stage ι σ ε ν → Prop
  | .reporting _ o h => o ≠ .deferred ∧ h.Found T
  | .returned a => Answer.Direct T a
  | _ => True

/-- The instance that the answer of a call leads to. -/
def Answer.leadsTo (a : Answer ε) (S : Store ι) : Except (RegistryError ε) InstanceId :=
  a.bind fun h => h.get S

/-- A thread that runs no construction is answered without forward references. -/
def Thread.Direct (T : Table) (th : Thread ι σ ε ν) : Prop := th.frames = [] → th.stage.Direct T

/-- All calls from outside are answered without forward references. -/
def AllDirect (s : State ι σ ε ν) (T : Table) : Prop := ∀ u, (s.thread u).Direct T

section Mono

variable {T T' : Table}
  (hmono : ∀ {k : Key} {i : InstanceId}, Dictionary.find? k T.entries = some (.ready i) →
    Dictionary.find? k T'.entries = some (.ready i))

include hmono

theorem Handle.Found.mono {h : Handle} (hh : h.Found T) : h.Found T' := by
  obtain ⟨i, hi, he⟩ := hh
  exact ⟨i, hi, hmono he⟩

theorem Answer.Direct.mono {a : Answer ε} (ha : Answer.Direct T a) : Answer.Direct T' a := by
  cases a with
  | ok h => exact Handle.Found.mono hmono ha
  | error e => exact ha

theorem Stage.Direct.mono {stage : Stage ι σ ε ν} (h : stage.Direct T) : stage.Direct T' := by
  cases stage with
  | reporting c o x => exact ⟨h.1, h.2.mono hmono⟩
  | returned a => exact Answer.Direct.mono hmono h
  | _ => trivial

theorem Thread.Direct.mono {th : Thread ι σ ε ν} (h : th.Direct T) : th.Direct T' :=
  fun hframes => (h hframes).mono hmono

end Mono

theorem Thread.Direct.notify {th : Thread ι σ ε ν} {T : Table} (h : th.Direct T) :
    th.notify.Direct T := by
  obtain ⟨frames, stage⟩ := th
  cases stage <;> exact h

theorem State.direct_put {T : Table} {stage : Stage ι σ ε ν}
    (hst : frames = [] → stage.Direct T) : ((s.put t frames stage).thread t).Direct T := by
  rw [State.thread_put_self]
  exact hst

/-- One thread goes on, and the others stay as they are but for notifications. -/
theorem AllDirect.beside {T : Table} (h : AllDirect s T)
    (hbeside : ∀ u, u ≠ t → s'.thread u = s.thread u ∨ s'.thread u = (s.thread u).notify)
    (hself : (s'.thread t).Direct T) : AllDirect s' T := by
  intro u
  by_cases hu : u = t
  · exact hu ▸ hself
  · rcases hbeside u hu with hsame | hsame <;> rw [hsame]
    · exact h u
    · exact (h u).notify

/-- The answer of a call from outside is returned. -/
theorem Call.direct_deliver {T : Table} (hc : c.From frames) (hframes : frames = [])
    {a : Answer ε} (ha : Answer.Direct T a) : (c.deliver a).Direct T := by
  rw [deliver, hc.2 hframes]
  exact ha

theorem Call.direct_deliverFailure {T : Table} (hc : c.From frames) (hframes : frames = [])
    (failure : Failure ε) : (c.deliverFailure failure).Direct T := by
  cases failure with
  | error e => exact direct_deliver (a := .error _) hc hframes fun _ _ => nofun
  | panic message =>
      rw [deliverFailure, hc.2 hframes]
      trivial

/-! ### What an event preserves -/

/-- A call from outside that has no key is refused for that reason. -/
theorem direct_enter {T : Table} (r : Request) (resume : Option (Answer ε → Program ι σ ε ν))
    (hr : resume = none ↔ frames = []) : ((enter R t frames r resume s).thread t).Direct T := by
  unfold Registry.enter
  split
  · refine State.direct_put fun hframes => ?_
    rw [hr.2 hframes]
    exact fun _ _ => nofun
  · split <;> exact State.direct_put fun _ => trivial

/-- A call that finds no entry is refused for a reason of its own, or begins a construction. -/
theorem direct_begin {T : Table} (hc : c.From frames) :
    ((begin R t frames c s).thread t).Direct T := by
  unfold Registry.begin
  dsimp only
  split
  · exact State.direct_put fun hframes =>
      Call.direct_deliver (a := .error _) hc hframes fun _ _ => nofun
  · split
    · exact State.direct_put fun _ => trivial
    · exact State.direct_put fun hframes =>
        Call.direct_deliver (a := .error _) hc hframes fun _ _ => nofun

/-- **A call from outside that looks up its key is not deferred.** -/
theorem direct_look {T : Table} (hs : Legal s)
    (hfree : R.options.block = true ∨ ∀ v, v ≠ t → (s.thread v).frames = []) {w : Bool}
    (hth : s.thread t = ⟨frames, .looking c w⟩)
    (hT : ∀ {k : Key} {i : InstanceId}, Dictionary.find? k s.store.table.entries = some (.ready i) →
      Dictionary.find? k T.entries = some (.ready i)) :
    ((look R t frames c w s).thread t).Direct T := by
  have hc : c.From frames := by
    have hfits := (hs.linked t).fits
    rwa [hth] at hfits
  unfold Registry.look
  split
  · rename_i i he
    refine State.direct_put fun _ => ⟨?_, i, rfl, hT he⟩
    cases w <;> simp
  · rename_i v q he
    split
    · rename_i hdefers
      refine State.direct_put fun hframes => ?_
      rw [hs.not_defers hfree (by rw [hth, hframes]) he] at hdefers
      exact absurd hdefers Bool.false_ne_true
    · exact State.direct_put fun _ => trivial
  · exact direct_begin hc

theorem direct_runProgram {T : Table} {f : Frame ι σ ε ν} {p : Program ι σ ε ν}
    (hrun : runProgram R t f frames p s = some s') : (s'.thread t).Direct T := by
  cases p with
  | resolve r next =>
      simp only [Registry.runProgram, Option.some.injEq] at hrun
      exact hrun ▸ direct_enter r _ (by simp)
  | gate name next =>
      simp only [Registry.runProgram, Option.ite_none_right_eq_some, Option.some.injEq] at hrun
      exact hrun.2 ▸ State.direct_put fun _ => trivial
  | _ =>
      simp only [Registry.runProgram, undo, Option.some.injEq] at hrun
      exact hrun ▸ State.direct_put fun _ => trivial

/-- **A step of a thread outside all constructions answers without forward references.** -/
theorem Thread.Direct.step {T : Table} (h : (s.thread t).Direct T) (hs : Legal s)
    (hfree : R.options.block = true ∨ ∀ v, v ≠ t → (s.thread v).frames = [])
    (hstep : step R t s = some s')
    (hT : ∀ {k : Key} {i : InstanceId}, Dictionary.find? k s.store.table.entries = some (.ready i) →
      Dictionary.find? k T.entries = some (.ready i)) : (s'.thread t).Direct T := by
  simp only [Registry.step, Option.bind_eq_some_iff] at hstep
  obtain ⟨⟨frames, stage⟩, hfind, hstep⟩ := hstep
  have hth := State.thread_of_find? hfind
  have hfits := (hs.linked t).fits
  rw [hth] at h hfits
  cases stage with
  | running p =>
      cases frames with
      | nil => simp [stepThread] at hstep
      | cons f frames => exact direct_runProgram hstep
  | looking c w =>
      simp only [stepThread, Option.some.injEq] at hstep
      exact hstep ▸ direct_look hs hfree hth hT
  | asleep c notified =>
      cases notified with
      | false => simp [stepThread] at hstep
      | true =>
          simp only [stepThread, Option.some.injEq] at hstep
          rw [← hstep, ← look_put R t frames frames c true (.looking c true)]
          refine direct_look (hs.change (.prelude (.wake hth))) (hfree.imp_right fun hv v hne => ?_)
            (State.thread_put_self ..) hT
          rw [State.thread_put_of_ne (Ne.symm hne)]
          exact hv v hne
  | fulfilling f i =>
      simp only [stepThread, Option.some.injEq] at hstep
      exact hstep ▸ State.direct_put fun _ => trivial
  | ending c result =>
      simp only [stepThread, Option.some.injEq] at hstep
      subst hstep
      refine State.direct_put fun _ => ?_
      cases result with
      | error failure => trivial
      | ok i =>
          have hp : (s.thread t).stage.published = some (c.key, i) := by
            rw [hth]
            rfl
          exact ⟨by decide, i, rfl, hT (hs.settled.published hp)⟩
  | reporting c o x =>
      simp only [stepThread, report, Option.some.injEq] at hstep
      subst hstep
      exact State.direct_put fun hframes =>
        Call.direct_deliver (a := .ok x) hfits hframes (h hframes).2
  | failing c failure =>
      simp only [stepThread, reportFailure, Option.some.injEq] at hstep
      subst hstep
      exact State.direct_put fun hframes => Call.direct_deliverFailure hfits hframes failure
  | awaiting x =>
      simp only [stepThread, Option.ite_none_left_eq_some, Option.some.injEq] at hstep
      exact hstep.2 ▸ State.direct_put fun _ => trivial
  | returned a => simp [stepThread] at hstep
  | panicked message => simp [stepThread] at hstep
  | awaited a => simp [stepThread] at hstep

/-- **Whatever happens, calls from outside stay free of forward references.** -/
theorem Next.direct (hn : Next R s s') (hs : Legal s) (hblock : R.options.block = true)
    (h : AllDirect s s.store.table) : AllDirect s' s'.store.table := by
  have hmono : ∀ {k : Key} {i : InstanceId},
      Dictionary.find? k s.store.table.entries = some (.ready i) →
        Dictionary.find? k s'.store.table.entries = some (.ready i) :=
    fun he => hs.ready_of_changes hn.takes.changes he
  have h' : AllDirect s s'.store.table := fun u => (h u).mono hmono
  clear h
  cases hn with
  | step t hstep =>
      exact h'.beside (motion_step hstep).beside ((h' t).step hs (.inl hblock) hstep hmono)
  | call t r hi => exact h'.beside (motion_call r hi).beside (direct_enter r none (by simp))
  | await t x hi =>
      refine h'.beside (fun u hu => .inl ?_) (State.direct_put fun _ => trivial)
      exact State.thread_put_of_ne (Ne.symm hu) ..
  | openGate name => exact h'
  | passGate t =>
      generalize (s.passGate t).store.table = T at h' ⊢
      unfold State.passGate
      split
      · refine h'.beside (fun u hu => .inl ?_) (State.direct_put fun _ => trivial)
        exact State.thread_put_of_ne (Ne.symm hu) ..
      · exact h'
  | note f => exact h'
  | clone q hq => exact h'
  | drop q hq => exact h'

theorem Reachable.direct (h : Reachable R s) (hblock : R.options.block = true) :
    AllDirect s s.store.table := by
  induction h with
  | initial => exact fun _ _ => trivial
  | next hr hn ih => exact hn.direct hr.legal hblock ih

/-! ### A single thread -/

/-- A thread alone is given no forward reference for a call from outside, whether or not calls wait
for other threads. -/
theorem Own.direct (ho : Own R t s) (h : (s.thread t).Direct s.store.table) (n : Nat) :
    ((Registry.runThread R t n s).thread t).Direct (Registry.runThread R t n s).store.table := by
  induction n generalizing s with
  | zero => exact h
  | succ n ih =>
      rw [runThread_succ]
      cases hstep : Registry.step R t s with
      | none => exact h
      | some s' =>
          have hs := ho.reachable.legal
          have hmono : ∀ {k : Key} {i : InstanceId},
              Dictionary.find? k s.store.table.entries = some (.ready i) →
                Dictionary.find? k s'.store.table.entries = some (.ready i) :=
            fun he => hs.ready_of_changes (takes_step hstep).changes he
          have halone : ∀ v, v ≠ t → (s.thread v).frames = [] :=
            fun v hv => (hs.linked v).frames_of_outside (ho.alone v hv)
          exact ih (ho.step hstep) ((h.mono hmono).step hs (.inr halone) hstep hmono)

/-- **A call that is made while no other is in progress is answered with an instance.** -/
theorem AtRest.found {rs : List Request} {r : Request} {h : Handle} {fuel : Nat}
    (hs : AtRest R rs s) (hres : Registry.resolve R fuel r s = (.answer (.ok h), s')) :
    h.Found s'.store.table := by
  have hrest := hs.resolve hres (by simp)
  simp only [Registry.resolve, Prod.mk.injEq] at hres
  obtain ⟨hreply, rfl⟩ := hres
  have hdirect := (Own.call hs.reachable hs.outside hs.idle r).direct
    (direct_enter r none (by simp)) fuel
  have hst := State.stage_of_answer hreply
  have hframes := (hrest.reachable.legal.linked 0).frames_of_outside (hrest.outside 0)
  have hfound := hdirect hframes
  rwa [hst] at hfound

/-! ### Callers outside -/

/-- **Callers outside all constructions never see a forward reference**, when calls wait for the
constructions of other threads.  A call from outside is about to be answered as a hit, a miss, or
after a wait, with a handle that names the instance of its key.  The handle that it returned is not
deferred and leads to that instance from then on; and reading the instance fails only if the call
failed, for another reason than a forward reference. -/
theorem outside_never_deferred (h : Reachable R s) (hblock : R.options.block = true)
    (hout : (s.thread t).frames = []) :
    (∀ c o x, (s.thread t).stage = .reporting c o x →
      (o = .hit ∨ o = .miss ∨ o = .waited) ∧ x.isDeferred = false ∧ x.isReady s.store = true) ∧
    (∀ a, (s.thread t).stage = .returned a → ∀ s', Run R s s' →
      (∀ x, a = .ok x → x.isDeferred = false ∧ ∃ i,
        (x.get s'.store : Except (RegistryError ε) InstanceId) = .ok i ∧
          s'.store.table.ready? x.key = some i) ∧
      ∀ reference key, Answer.leadsTo a s'.store ≠ .error (.unresolved reference key)) := by
  have hd := h.direct hblock t hout
  have hfound : ∀ {x : Handle} {T : Table}, x.Found T → x.isDeferred = false ∧ ∃ i,
      T.ready? x.key = some i ∧ ∀ S : Store ι, x.get? S = some i := by
    rintro ⟨key, reference, target⟩ T ⟨i, rfl, hi⟩
    exact ⟨rfl, i, Table.ready?_eq_some_iff.2 hi, fun _ => rfl⟩
  refine ⟨fun c o x hst => ?_, fun a hst s' hrun => ?_⟩
  · rw [hst] at hd
    obtain ⟨hx, i, -, hget⟩ := hfound hd.2
    refine ⟨?_, hx, by rw [Handle.isReady, hget]; rfl⟩
    cases o with
    | deferred => exact absurd rfl hd.1
    | _ => simp
  · rw [hst] at hd
    have hd' : Answer.Direct s'.store.table a :=
      Answer.Direct.mono (fun he => h.legal.ready_of_changes hrun.changes he) hd
    cases a with
    | error e =>
        exact ⟨nofun, fun reference key he => hd' reference key (Except.error.inj he)⟩
    | ok x =>
        obtain ⟨hx, i, hready, hget⟩ := hfound hd'
        have hok : (x.get s'.store : Except (RegistryError ε) InstanceId) = .ok i :=
          Handle.get_eq_ok_iff.2 (hget _)
        refine ⟨fun y hy => ?_, fun reference key he => ?_⟩
        · rw [← Except.ok.inj hy]
          exact ⟨hx, i, hok, hready⟩
        · exact absurd (hok.symm.trans he) (by simp)

/-- A call from outside was answered with a handle. -/
def Stage.isGranted : Stage ι σ ε ν → Bool
  | .returned (.ok _) => true
  | _ => false

theorem Stage.isGranted_iff {stage : Stage ι σ ε ν} :
    stage.isGranted = true ↔ ∃ x, stage = .returned (.ok x) := by
  cases stage with
  | returned a => cases a <;> simp [isGranted]
  | _ => simp [isGranted]

/-- A factory whose first attempt fails behind a gate, and whose second succeeds behind another. -/
def reluctant : Setup Nat Nat String Unit where
  factories := [("Node", ⟨⟨"object"⟩, fun _ =>
    .note (· + 1) fun attempts =>
      if attempts = 0 then .gate "first" (.fail (.raised "first attempt"))
      else .gate "second" (.done (.new attempts))⟩)]
  admits := fun _ _ _ => true

/-- Two threads wait for the first attempt; one of them retries, and the other waits again. -/
def waitedTwice : State Nat Nat String Unit :=
  let ask (t : ThreadId) (s : State Nat Nat String Unit) :=
    runThread reluctant t 9 (s.call reluctant t ⟨.bare "Node", none⟩)
  let asked := ask 2 (ask 1 (ask 0 (State.initial 0 0)))
  let failed := runThread reluctant 0 9 (asked.openGate "first")
  let retried := runThread reluctant 2 9 (runThread reluctant 1 9 failed)
  runThread reluctant 2 9 (runThread reluctant 1 9 (retried.openGate "second"))

theorem reachable_waitedTwice : Reachable reluctant waitedTwice := by
  have hask : ∀ (t : ThreadId) (s : State Nat Nat String Unit), Reachable reluctant s →
      s.isIdle t = true →
      Reachable reluctant (runThread reluctant t 9 (s.call reluctant t ⟨.bare "Node", none⟩)) :=
    fun t s hs hi => (hs.next (.call t _ hi)).run (run_runThread ..)
  have hasked := hask 2 _ (hask 1 _ (hask 0 _ (.initial 0 0) rfl) (by decide +kernel))
    (by decide +kernel)
  have hfailed := (hasked.next (.openGate _ "first")).run (run_runThread _ 0 9 _)
  have hretried := (hfailed.run (run_runThread _ 1 9 _)).run (run_runThread _ 2 9 _)
  have hdone := (hretried.next (.openGate _ "second")).run (run_runThread _ 1 9 _)
  exact hdone.run (run_runThread _ 2 9 _)

theorem waiter_is_answered : Reachable reluctant waitedTwice ∧ reluctant.options.block = true ∧
    waitedTwice.store.stats = ⟨0, 1, 0, 1, 1⟩ ∧
    ∃ x i, (waitedTwice.thread 2).stage = .returned (.ok x) ∧ x.isDeferred = false ∧
      (x.get waitedTwice.store : Except (RegistryError String) InstanceId) = .ok i := by
  have hout : (waitedTwice.thread 2).frames = [] :=
    (reachable_waitedTwice.legal.linked 2).frames_of_outside (by decide +kernel)
  have hgranted : (waitedTwice.thread 2).stage.isGranted = true := by decide +kernel
  obtain ⟨x, hx⟩ := Stage.isGranted_iff.1 hgranted
  obtain ⟨hdeferred, i, hi, -⟩ :=
    ((outside_never_deferred reachable_waitedTwice rfl hout).2 _ hx _ .refl).1 x rfl
  exact ⟨reachable_waitedTwice, rfl, by decide +kernel, x, i, hx, hdeferred, hi⟩

end SchemaGraph.Registry
