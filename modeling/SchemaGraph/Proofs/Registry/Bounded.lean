/-
**Calls of several threads take finitely many steps.**

Each step of a thread goes ahead: a factory comes nearer to its end, a call nearer to its answer, or
a construction of a further key begins, and there are finitely many keys.  Two steps do not: a call
that finds its key under construction goes to sleep, and a sleeper that was notified looks again.
But a thread that goes to sleep has to be notified before it looks again, and whoever notifies goes
ahead by that.  So in every state there is a bound on the steps that the threads can take, in
whichever order they take them; and when none has a step left, all calls are over, unless one stands
at a gate.

How many steps a factory takes depends on what it reads, so there is no number that goes down with
every step; the order in which threads go ahead is well founded all the same.  It is extended to
all threads at once by counting them as a multiset.

Main definitions:

* `Finitary` — the requests that a request can lead to have finitely many keys, and meet no gate;
* `Confined` — constructions have distinct keys of a list, so there are no more of them than keys;
* `Thread.awake` — a thread, whether or not it sleeps in its call;
* `Ahead` — how a thread goes ahead, while its constructions have distinct keys of a list;
* `Closes` — whatever a call is answered with, its thread takes finitely many steps afterwards;
* `Advance` — what a step does to all threads: one goes ahead, or goes to sleep;
* `Follows` — a thread takes a step;
* `Stems` — all calls in progress are for requests of a kind.

Main results:

* `Thread.Linked.acc` — a thread cannot go ahead for ever;
* `step_advance` — every step is an advance;
* `Stems.acc`, `exists_bound` — threads cannot go on for ever, and there is a bound on their steps;
* `Session.ends` — **the calls of a run take finitely many steps, on however many threads, and are
  over when no thread has a step**.
-/

import Mathlib.Data.Finset.Lattice.Fold
import Mathlib.Logic.Hydra
import SchemaGraph.Proofs.Registry.Progress
import SchemaGraph.Proofs.Registry.Reply
import SchemaGraph.Proofs.Registry.Tally

set_option autoImplicit false

namespace SchemaGraph.Registry

open Relation (CutExpand)

variable {ι σ ε ν : Type} {R : Setup ι σ ε ν} {s s' s₁ : State ι σ ε ν} {t : ThreadId}
  {K : List Key} {Q : Request → Prop} {frames : List (Frame ι σ ε ν)} {f : Frame ι σ ε ν}
  {c : Call ι σ ε ν} {stage : Stage ι σ ε ν} {p : Program ι σ ε ν}

/-! ### Finitely many keys -/

/-- The requests that a request can lead to have keys of a list, and meet no gate. -/
structure Finitary (R : Setup ι σ ε ν) (K : List Key) (Q : Request → Prop) : Prop where
  keys : ∀ {r : Request} {k : Key}, Q r → r.key = .ok k → k ∈ K
  asks : ∀ {r r' : Request} {log : List (Request × Answer ε)} {next : Answer ε → Program ι σ ε ν},
    Q r → Reaches R (fun _ _ => True) r log (.resolve r' next) → Q r'
  ungated : ∀ {r : Request} {log : List (Request × Answer ε)} {name : String}
    {next : Program ι σ ε ν}, Q r → ¬ Reaches R (fun _ _ => True) r log (.gate name next)

theorem Finitary.reliable (hQ : Finitary R K Q) : Reliable R Q fun _ => False :=
  .nothing fun hr hp => hQ.asks hr (hp.mono fun _ _ _ => trivial)

/-- The keys of constructions are distinct, and are among those of a list. -/
structure Confined (K : List Key) (frames : List (Frame ι σ ε ν)) : Prop where
  distinct : (frames.map fun f => f.call.key).Nodup
  keys : ∀ f ∈ frames, f.call.key ∈ K

theorem Confined.length_le (h : Confined K frames) : frames.length ≤ K.length := by
  have hsub : (frames.map fun f => f.call.key) ⊆ K := by
    intro k hk
    obtain ⟨f, hf, rfl⟩ := List.mem_map.1 hk
    exact h.keys f hf
  simpa using (List.subperm_of_subset h.distinct hsub).length_le

/-! ### How a thread goes ahead -/

/-- A call that sleeps has yet to look up its key, like one that is about to. -/
def Stage.awake : Stage ι σ ε ν → Stage ι σ ε ν
  | .looking c _ | .asleep c _ => .looking c false
  | stage => stage

/-- A thread, whether or not it sleeps. -/
def Thread.awake (th : Thread ι σ ε ν) : Thread ι σ ε ν := ⟨th.frames, th.stage.awake⟩

@[simp] theorem Thread.awake_notify (th : Thread ι σ ε ν) : th.notify.awake = th.awake := by
  obtain ⟨frames, stage⟩ := th
  cases stage <;> rfl

theorem Stage.awake_of_looks (h : stage.looks = some c) : stage.awake = .looking c false := by
  cases stage with
  | looking c' w =>
      obtain rfl := Option.some.inj h
      rfl
  | asleep c' notified =>
      cases notified with
      | false => cases h
      | true =>
          obtain rfl := Option.some.inj h
          rfl
  | _ => cases h

/-- How many moments a call is from its answer, if no construction begins. -/
def Stage.left : Stage ι σ ε ν → Nat
  | .looking .. | .asleep .. => 4
  | .fulfilling .. => 3
  | .ending .. => 2
  | .reporting .. | .failing .. => 1
  | _ => 0

/-- A thread goes ahead, from the second to the first: what it does next, and what it did. -/
inductive Ahead (K : List Key) : Thread ι σ ε ν → Thread ι σ ε ν → Prop where
  /-- a factory goes on without a call -/
  | goes {frames : List (Frame ι σ ε ν)} {p p' : Program ι σ ε ν} : p.Goes p' →
      Ahead K ⟨frames, .running p'⟩ ⟨frames, .running p⟩
  /-- a factory makes a call -/
  | asks {frames : List (Frame ι σ ε ν)} {r : Request} {c : Call ι σ ε ν}
      {next : Answer ε → Program ι σ ε ν} : c.resume = some next →
      Ahead K ⟨frames, .looking c false⟩ ⟨frames, .running (.resolve r next)⟩
  /-- a factory makes a call that has no key -/
  | misasks {frames : List (Frame ι σ ε ν)} {r : Request} {next : Answer ε → Program ι σ ε ν}
      (a : Answer ε) : Ahead K ⟨frames, .running (next a)⟩ ⟨frames, .running (.resolve r next)⟩
  /-- a construction begins -/
  | begins {frames : List (Frame ι σ ε ν)} {f : Frame ι σ ε ν} (p : Program ι σ ε ν) :
      Confined K (f :: frames) → Ahead K ⟨f :: frames, .running p⟩ ⟨frames, .looking f.call false⟩
  /-- a factory ends -/
  | ends {frames : List (Frame ι σ ε ν)} {f : Frame ι σ ε ν} {p : Program ι σ ε ν}
      {stage : Stage ι σ ε ν} : stage.call? = some f.call → stage.left < 4 →
      Ahead K ⟨frames, stage⟩ ⟨f :: frames, .running p⟩
  /-- a call comes nearer to its answer -/
  | nears {frames : List (Frame ι σ ε ν)} {c : Call ι σ ε ν} {stage stage' : Stage ι σ ε ν} :
      stage.call? = some c → stage'.call? = some c → stage'.left < stage.left →
      Ahead K ⟨frames, stage'⟩ ⟨frames, stage⟩
  /-- a call is answered -/
  | delivers {frames : List (Frame ι σ ε ν)} {c : Call ι σ ε ν} {stage : Stage ι σ ε ν}
      (a : Answer ε) : stage.call? = some c → Ahead K ⟨frames, c.deliver a⟩ ⟨frames, stage⟩
  /-- a call fails -/
  | deliversFailure {frames : List (Frame ι σ ε ν)} {c : Call ι σ ε ν} {stage : Stage ι σ ε ν}
      (failure : Failure ε) : stage.call? = some c →
      Ahead K ⟨frames, c.deliverFailure failure⟩ ⟨frames, stage⟩
  /-- the wait for a handle is over -/
  | arrived {frames : List (Frame ι σ ε ν)} {h : Handle}
      (a : Except (RegistryError ε) InstanceId) :
      Ahead K ⟨frames, .awaited a⟩ ⟨frames, .awaiting h⟩

/-! ### A thread cannot go ahead for ever -/

/-- Whatever a call is answered with, its thread cannot go ahead for ever afterwards. -/
structure Closes (K : List Key) (frames : List (Frame ι σ ε ν)) (c : Call ι σ ε ν) : Prop where
  deliver : ∀ a, Acc (Ahead K) ⟨frames, c.deliver a⟩
  deliverFailure : ∀ failure, Acc (Ahead K) ⟨frames, c.deliverFailure failure⟩

/-- A call that has looked up its key begins no construction any more. -/
theorem Closes.acc (hc : Closes K frames c) (hcall : stage.call? = some c)
    (hleft : stage.left < 4) : Acc (Ahead K) ⟨frames, stage⟩ := by
  induction hn : stage.left using Nat.strong_induction_on generalizing stage with
  | _ n ih =>
      refine .intro _ fun th hth => ?_
      cases hth with
      | goes | asks | misasks | ends | arrived => cases hcall
      | begins => exact absurd hleft (Nat.lt_irrefl _)
      | nears hcall' hcall'' hlt =>
          obtain rfl := Option.some.inj (hcall'.symm.trans hcall)
          exact ih _ (hn ▸ hlt) hcall'' (hlt.trans hleft) rfl
      | delivers a hcall' =>
          obtain rfl := Option.some.inj (hcall'.symm.trans hcall)
          exact hc.deliver a
      | deliversFailure failure hcall' =>
          obtain rfl := Option.some.inj (hcall'.symm.trans hcall)
          exact hc.deliverFailure failure

/-- A factory goes on, makes a call, or ends, and then the call for it is answered. -/
theorem Closes.acc_program (hf : Closes K frames f.call)
    (hgoes : ∀ p', p.Goes p' → Acc (Ahead K) ⟨f :: frames, .running p'⟩)
    (hcalls : ∀ r next, p = .resolve r next →
      (∀ c : Call ι σ ε ν, c.resume = some next →
        Acc (Ahead K) ⟨f :: frames, .looking c false⟩) ∧
      ∀ a, Acc (Ahead K) ⟨f :: frames, .running (next a)⟩) :
    Acc (Ahead K) ⟨f :: frames, .running p⟩ := by
  refine .intro _ fun th hth => ?_
  cases hth with
  | goes hp => exact hgoes _ hp
  | asks hc => exact (hcalls _ _ rfl).1 _ hc
  | misasks a => exact (hcalls _ _ rfl).2 a
  | ends hcall hleft => exact hf.acc hcall hleft
  | nears hcall | delivers _ hcall | deliversFailure _ hcall => cases hcall

theorem Closes.acc_panic (hf : Closes K frames f.call) (message : String) :
    Acc (Ahead K) ⟨f :: frames, .running (.panic message)⟩ :=
  hf.acc_program nofun nofun

/-- Calls of a factory are answered when the factory goes on with every answer. -/
theorem closes_of_resume {next : Answer ε → Program ι σ ε ν} (hc : c.resume = some next)
    (hf : Closes K frames f.call) (hnext : ∀ a, Acc (Ahead K) ⟨f :: frames, .running (next a)⟩) :
    Closes K (f :: frames) c := by
  have hdeliver : ∀ a, Acc (Ahead K) ⟨f :: frames, c.deliver a⟩ := by
    intro a
    rw [Call.deliver, hc]
    exact hnext a
  refine ⟨hdeliver, fun failure => ?_⟩
  cases failure with
  | error e => exact hdeliver _
  | panic message =>
      rw [Call.deliverFailure, hc]
      exact hf.acc_panic message

/-- **A factory cannot go on for ever**, if the calls that it makes cannot, by induction on what is
left of it. -/
theorem Closes.acc_running (hf : Closes K frames f.call)
    (hcalls : ∀ c, Closes K (f :: frames) c → Acc (Ahead K) ⟨f :: frames, .looking c false⟩)
    (p : Program ι σ ε ν) : Acc (Ahead K) ⟨f :: frames, .running p⟩ := by
  induction p with
  | done | fail | panic => exact hf.acc_program nofun nofun
  | resolve r next ih =>
      refine hf.acc_program nofun fun r' next' heq => ?_
      obtain ⟨-, rfl⟩ := Program.resolve.inj heq
      exact ⟨fun c hc => hcalls c (closes_of_resume hc hf ih), ih⟩
  | note g next ih => exact hf.acc_program (fun | _, .note _ _ n => ih n) nofun
  | inspect next ih => exact hf.acc_program (fun | _, .inspect _ S => ih S) nofun
  | say event next ih => exact hf.acc_program (fun | _, .say _ _ => ih) nofun
  | gate name next ih => exact hf.acc_program (fun | _, .gate _ _ => ih) nofun

/-- **A call cannot go on for ever**, by induction on the number of keys that are not under
construction. -/
theorem Closes.acc_looking (hc : Closes K frames c) :
    Acc (Ahead K) ⟨frames, .looking c false⟩ := by
  generalize hd : K.length - frames.length = d
  induction d using Nat.strong_induction_on generalizing frames c with
  | _ d ih =>
      refine .intro _ fun th hth => ?_
      cases hth with
      | begins p hf =>
          have hlt := hf.length_le
          rw [List.length_cons] at hlt
          refine hc.acc_running (fun c' hc' => ih _ ?_ hc' rfl) p
          rw [List.length_cons]
          omega
      | nears hcall hcall' hlt =>
          obtain rfl := Option.some.inj hcall
          exact hc.acc hcall' hlt
      | delivers a hcall =>
          obtain rfl := Option.some.inj hcall
          exact hc.deliver a
      | deliversFailure failure hcall =>
          obtain rfl := Option.some.inj hcall
          exact hc.deliverFailure failure

theorem acc_of_isResting (h : stage.isResting = true) : Acc (Ahead K) ⟨frames, stage⟩ := by
  have hnone : ∀ c, stage.call? ≠ some c := by
    intro c hcall
    cases stage with
    | returned | panicked | awaited => cases hcall
    | _ => cases h
  refine .intro _ fun th hth => ?_
  cases hth with
  | nears hcall | delivers _ hcall | deliversFailure _ hcall => exact absurd hcall (hnone _)
  | _ => cases h

/-- **A call is answered once the constructions around it are**, from the outermost inwards. -/
theorem Nested.closes (hframes : Nested frames) (hc : c.From frames) : Closes K frames c := by
  induction frames generalizing c with
  | nil =>
      have hresume : c.resume = none := hc.2 rfl
      have hdeliver : ∀ a, Acc (Ahead K) ⟨[], c.deliver a⟩ := by
        intro a
        rw [Call.deliver, hresume]
        exact acc_of_isResting rfl
      refine ⟨hdeliver, fun failure => ?_⟩
      cases failure with
      | error e => exact hdeliver _
      | panic message =>
          rw [Call.deliverFailure, hresume]
          exact acc_of_isResting rfl
  | cons f frames ih =>
      have hf : Closes K frames f.call := ih hframes.2 hframes.1
      cases hresume : c.resume with
      | none => exact absurd (hc.1 hresume) (List.cons_ne_nil _ _)
      | some next =>
          exact closes_of_resume hresume hf fun a =>
            hf.acc_running (fun _ hc' => hc'.acc_looking) _

/-- **A thread cannot go ahead for ever.** -/
theorem Thread.Linked.acc {th : Thread ι σ ε ν} (hl : th.Linked) : Acc (Ahead K) th.awake := by
  obtain ⟨frames, stage⟩ := th
  have hfits : stage.Fits frames := hl.fits
  have hnested : Nested frames := hl.nested
  cases stage with
  | running p =>
      cases frames with
      | nil => exact absurd rfl hfits
      | cons f frames =>
          exact (hnested.2.closes hnested.1).acc_running (fun _ hc => hc.acc_looking) p
  | looking c w => exact (hnested.closes hfits).acc_looking
  | asleep c notified => exact (hnested.closes hfits).acc_looking
  | fulfilling | ending | reporting | failing =>
      exact (hnested.closes hfits).acc rfl (by simp [Stage.awake, Stage.left])
  | awaiting h =>
      refine .intro _ fun th hth => ?_
      cases hth with
      | arrived a => exact acc_of_isResting rfl
      | nears hcall | delivers _ hcall | deliversFailure _ hcall => cases hcall
  | returned a => exact acc_of_isResting rfl
  | panicked message => exact acc_of_isResting rfl
  | awaited a => exact acc_of_isResting rfl

/-! ### How the threads go ahead -/

/-- Whether a thread looks up a key in its next step. -/
def Stage.alert (stage : Stage ι σ ε ν) : Nat := if stage.looks.isSome then 1 else 0

/-- What all threads do, whether or not they sleep. -/
def State.doing (s : State ι σ ε ν) : Multiset (Thread ι σ ε ν) :=
  (s.threads.map fun p => p.2.awake : List (Thread ι σ ε ν))

/-- How many threads look up a key in their next steps. -/
def State.alert (s : State ι σ ε ν) : Nat := (s.threads.map fun p => p.2.stage.alert).sum

theorem State.doing_congr (h : s₁.threads = s.threads) : s₁.doing = s.doing := by
  rw [doing, h, doing]

theorem State.alert_congr (h : s₁.threads = s.threads) : s₁.alert = s.alert := by
  rw [alert, h, alert]

@[simp] theorem State.doing_notifyAll (s : State ι σ ε ν) : s.notifyAll.doing = s.doing := by
  simp only [doing, notifyAll, List.map_map, Function.comp_def, Thread.awake_notify]

theorem State.doing_put {th : Thread ι σ ε ν} (h : Dictionary.find? t s.threads = some th)
    (frames : List (Frame ι σ ε ν)) (stage : Stage ι σ ε ν) :
    (s.put t frames stage).doing + {th.awake} = s.doing + {Thread.awake ⟨frames, stage⟩} := by
  have hsum : ∀ s : State ι σ ε ν,
      s.doing = (s.threads.map fun p => ({p.2.awake} : Multiset (Thread ι σ ε ν))).sum := by
    intro s
    rw [doing, ← Multiset.sum_map_singleton (Multiset.ofList _), Multiset.map_coe,
      Multiset.sum_coe, List.map_map]
    rfl
  have hset := Dictionary.sum_set (fun th => ({th.awake} : Multiset (Thread ι σ ε ν))) t
    ⟨frames, stage⟩ s.threads
  rw [h] at hset
  rw [hsum, hsum]
  exact hset

theorem State.alert_put {th : Thread ι σ ε ν} (h : Dictionary.find? t s.threads = some th)
    (frames : List (Frame ι σ ε ν)) (stage : Stage ι σ ε ν) :
    (s.put t frames stage).alert + th.stage.alert = s.alert + stage.alert := by
  have hset := Dictionary.sum_set (fun th => th.stage.alert) t ⟨frames, stage⟩ s.threads
  rw [h] at hset
  exact hset

/-- What a step does to all threads. -/
inductive Advance (K : List Key) (s s' : State ι σ ε ν) : Prop where
  /-- one goes ahead -/
  | ahead (th th' : Thread ι σ ε ν) : th ∈ s.doing → Ahead K th' th →
      s'.doing + {th} = s.doing + {th'} → Advance K s s'
  /-- one goes to sleep -/
  | sleeps : s'.doing = s.doing → s'.alert < s.alert → Advance K s s'

@[simp] theorem Stage.awake_answered (resume : Option (Answer ε → Program ι σ ε ν))
    (a : Answer ε) : (Stage.answered resume a).awake = .answered resume a := by
  cases resume <;> rfl

theorem Call.awake_deliver (c : Call ι σ ε ν) (a : Answer ε) : (c.deliver a).awake = c.deliver a :=
  Stage.awake_answered ..

theorem Call.awake_deliverFailure (c : Call ι σ ε ν) (failure : Failure ε) :
    (c.deliverFailure failure).awake = c.deliverFailure failure := by
  cases failure with
  | error e => exact c.awake_deliver _
  | panic message => cases hr : c.resume <;> simp only [deliverFailure, hr] <;> rfl

section Steps

variable {th : Thread ι σ ε ν}

/-- A thread is put to a stage in which it is ahead. -/
theorem Advance.put (hfind : Dictionary.find? t s₁.threads = some th) (hdoing : s₁.doing = s.doing)
    (h : Ahead K (Thread.awake ⟨frames, stage⟩) th.awake) : Advance K s (s₁.put t frames stage) := by
  refine .ahead _ _ ?_ h ?_
  · rw [← hdoing]
    exact Multiset.mem_coe.2 (List.mem_map.2 ⟨(t, th), Dictionary.mem_of_find? hfind, rfl⟩)
  · rw [← hdoing]
    exact State.doing_put hfind frames stage

/-- A thread that has looked up its key is put to sleep. -/
theorem Advance.putAsleep (hfind : Dictionary.find? t s.threads = some ⟨frames, stage⟩)
    (hlooks : stage.looks = some c) (ht : s₁.threads = s.threads) :
    Advance K s (s₁.put t frames (.asleep c false)) := by
  rw [← ht] at hfind
  have hdoing := State.doing_put hfind frames (.asleep c false)
  have halert : (s₁.put t frames (.asleep c false)).alert + stage.alert = s.alert + 0 := by
    rw [← State.alert_congr ht]
    exact State.alert_put hfind frames _
  have hawake : Thread.awake ⟨frames, stage⟩ = Thread.awake ⟨frames, .asleep c false⟩ := by
    simp only [Thread.awake, Stage.awake_of_looks hlooks]
    rfl
  rw [hawake, State.doing_congr ht] at hdoing
  have hone : stage.alert = 1 := by simp [Stage.alert, hlooks]
  exact .sleeps (add_right_cancel hdoing) (by omega)

/-- A call that finds no entry is refused, or begins a construction. -/
theorem advance_begin (hfind : Dictionary.find? t s₁.threads = some ⟨frames, stage⟩)
    (hdoing : s₁.doing = s.doing) (hlooks : stage.looks = some c)
    (hK : Confined K ((begin R t frames c s₁).thread t).frames) :
    Advance K s (begin R t frames c s₁) := by
  have hawake : Thread.awake ⟨frames, stage⟩ = ⟨frames, .looking c false⟩ :=
    congrArg _ (Stage.awake_of_looks hlooks)
  revert hK
  unfold begin
  dsimp only
  split
  · intro _
    refine .put hfind hdoing ?_
    rw [hawake, Thread.awake, Call.awake_deliver]
    exact .delivers _ rfl
  · split
    · rw [State.thread_put_self]
      intro hK
      refine .put hfind hdoing ?_
      rw [hawake]
      exact .begins _ hK
    · intro _
      refine .put hfind hdoing ?_
      rw [hawake, Thread.awake, Call.awake_deliver]
      exact .delivers _ rfl

/-- A call looks up its key. -/
theorem advance_look (hfind : Dictionary.find? t s.threads = some ⟨frames, stage⟩)
    (ht : s₁.threads = s.threads) (hlooks : stage.looks = some c) (w : Bool)
    (hK : Confined K ((look R t frames c w s₁).thread t).frames) :
    Advance K s (look R t frames c w s₁) := by
  have hfind₁ : Dictionary.find? t s₁.threads = some ⟨frames, stage⟩ := ht ▸ hfind
  have hdoing := State.doing_congr ht
  have hnears : ∀ {o : Outcome} {h : Handle},
      Ahead K (Thread.awake ⟨frames, .reporting c o h⟩) (Thread.awake ⟨frames, stage⟩) := by
    intro o h
    rw [Thread.awake, Thread.awake, Stage.awake_of_looks hlooks]
    exact .nears rfl rfl (by simp [Stage.awake, Stage.left])
  revert hK
  unfold look
  split
  · exact fun _ => .put hfind₁ hdoing hnears
  · split
    · exact fun _ => .put hfind₁ hdoing hnears
    · exact fun _ => .putAsleep hfind hlooks ht
  · exact advance_begin hfind₁ hdoing hlooks

/-- The factory of the innermost construction goes on. -/
theorem advance_runProgram
    (hfind : Dictionary.find? t s.threads = some ⟨f :: frames, .running p⟩)
    (hrun : runProgram R t f frames p s = some s') : Advance K s s' := by
  cases p with
  | done y =>
      simp only [runProgram, Option.some.injEq] at hrun
      exact hrun ▸ .put hfind rfl (.ends rfl (by simp [Stage.awake, Stage.left]))
  | fail e =>
      simp only [runProgram, undo, Option.some.injEq] at hrun
      exact hrun ▸ .put hfind rfl (.ends rfl (by simp [Stage.awake, Stage.left]))
  | panic message =>
      simp only [runProgram, undo, Option.some.injEq] at hrun
      exact hrun ▸ .put hfind rfl (.ends rfl (by simp [Stage.awake, Stage.left]))
  | resolve r next =>
      simp only [runProgram, Option.some.injEq] at hrun
      cases hk : r.key with
      | error reason =>
          obtain ⟨e, he⟩ := enter_of_error R t (f :: frames) r hk (some next) s
          rw [← hrun, he]
          exact .put hfind rfl (.misasks _)
      | ok key =>
          obtain ⟨s₁, ht, -, he⟩ := enter_threads R t (f :: frames) r hk (some next) s
          rw [← hrun, he]
          exact .put (ht ▸ hfind) (State.doing_congr ht) (.asks rfl)
  | note g next =>
      simp only [runProgram, Option.some.injEq] at hrun
      exact hrun ▸ .put hfind rfl (.goes (.note g next _))
  | inspect next =>
      simp only [runProgram, Option.some.injEq] at hrun
      exact hrun ▸ .put hfind rfl (.goes (.inspect next _))
  | say event next =>
      simp only [runProgram, Option.some.injEq] at hrun
      exact hrun ▸ .put hfind rfl (.goes (.say event next))
  | gate name next =>
      simp only [runProgram, Option.ite_none_right_eq_some, Option.some.injEq] at hrun
      exact hrun.2 ▸ .put hfind rfl (.goes (.gate name next))

/-- **Every step is an advance**: a thread goes ahead, or goes to sleep. -/
theorem step_advance (h : step R t s = some s') (hK : Confined K (s'.thread t).frames) :
    Advance K s s' := by
  simp only [step, Option.bind_eq_some_iff] at h
  obtain ⟨⟨frames, stage⟩, hfind, h⟩ := h
  cases stage with
  | running p =>
      cases frames with
      | nil => simp [stepThread] at h
      | cons f frames => exact advance_runProgram hfind h
  | looking c w =>
      simp only [stepThread, Option.some.injEq] at h
      subst h
      exact advance_look hfind rfl rfl w hK
  | asleep c notified =>
      cases notified with
      | false => simp [stepThread] at h
      | true =>
          simp only [stepThread, Option.some.injEq] at h
          subst h
          have ht : (s.withStore (s.store.wake t)).threads = s.threads := rfl
          exact advance_look hfind ht rfl true hK
  | fulfilling f i =>
      simp only [stepThread, Option.some.injEq] at h
      exact h ▸ .put hfind rfl (.nears rfl rfl (by simp [Stage.awake, Stage.left]))
  | ending c result =>
      simp only [stepThread, announce, Option.some.injEq] at h
      subst h
      have hfind' : Dictionary.find? t s.notifyAll.threads = some ⟨frames, .ending c result⟩ := by
        rw [State.notifyAll, Dictionary.find?_map, hfind]
        rfl
      refine .put hfind' (State.doing_notifyAll s) ?_
      cases result <;> exact .nears rfl rfl (by simp [Stage.awake, Stage.left])
  | reporting c o x =>
      simp only [stepThread, report, Option.some.injEq] at h
      subst h
      refine .put (by simpa using hfind) (State.doing_congr (by simp)) ?_
      rw [Thread.awake, Call.awake_deliver]
      exact .delivers _ rfl
  | failing c failure =>
      simp only [stepThread, reportFailure, Option.some.injEq] at h
      have hahead : Ahead K (Thread.awake ⟨frames, c.deliverFailure failure⟩)
          (Thread.awake ⟨frames, .failing c failure⟩) := by
        rw [Thread.awake, Call.awake_deliverFailure]
        exact .deliversFailure failure rfl
      cases failure <;> exact h ▸ .put hfind rfl hahead
  | awaiting x =>
      simp only [stepThread, Option.ite_none_left_eq_some, Option.some.injEq] at h
      exact h.2 ▸ .put hfind rfl (.arrived _)
  | returned a => simp [stepThread] at h
  | panicked message => simp [stepThread] at h
  | awaited a => simp [stepThread] at h

end Steps

/-! ### Threads cannot go on for ever -/

/-- A thread goes ahead that cannot do so for ever. -/
def Sure (K : List Key) (th' th : Thread ι σ ε ν) : Prop := Ahead K th' th ∧ Acc (Ahead K) th

theorem not_ahead_self {th : Thread ι σ ε ν} (h : Acc (Ahead K) th) : ¬ Ahead K th th := by
  induction h with
  | intro th _ ih => exact fun hself => ih th hself hself

instance (K : List Key) : Std.Irrefl (Sure K : Thread ι σ ε ν → Thread ι σ ε ν → Prop) :=
  ⟨fun _ h => not_ahead_self h.2 h.1⟩

theorem Legal.acc_of_mem (hs : Legal s) {th : Thread ι σ ε ν} (h : th ∈ s.doing) :
    Acc (Ahead K) th := by
  obtain ⟨⟨t, th⟩, hmem, rfl⟩ := List.mem_map.1 (Multiset.mem_coe.1 h)
  rw [Dictionary.mem_iff_find? hs.listed.threads] at hmem
  rw [← State.thread_of_find? hmem]
  exact (hs.linked t).acc

theorem Legal.acc_doing (hs : Legal s) : Acc (CutExpand (Sure K)) s.doing :=
  Relation.acc_of_singleton fun _ hth =>
    (Subrelation.accessible (fun h => h.1) (hs.acc_of_mem hth)).cutExpand

/-- A thread takes a step from the second state to the first. -/
def Follows (R : Setup ι σ ε ν) (s' s : State ι σ ε ν) : Prop := ∃ t, step R t s = some s'

theorem Woven.within (hQ : Finitary R K Q) {D : Request → Prop} (h : Woven R Q D s frames) :
    ∀ f ∈ frames, f.call.key ∈ K := by
  induction frames with
  | nil => nofun
  | cons f frames ih =>
      exact List.forall_mem_cons.2 ⟨hQ.keys h.1.allowed h.1.key, ih h.2⟩

/-- A state of a run in which all calls are for requests of a kind. -/
structure Stems (R : Setup ι σ ε ν) (Q : Request → Prop) (s : State ι σ ε ν) : Prop where
  reachable : Reachable R s
  woven : ∀ t, Woven R Q (fun _ => False) s (s.thread t).frames
  suits : ∀ t, (s.thread t).stage.Suits R Q (fun _ => False) s (s.thread t).frames

theorem Session.stems (hQ : Finitary R K Q) {rs : List Request} {ks : List Key}
    (hs : Session R rs ks s) (hrs : ∀ r ∈ rs, Q r) : Stems R Q s :=
  have ht := hs.traceable hQ.reliable hrs
  ⟨hs.reachable, ht.woven, ht.suits⟩

section Stems

variable (hQ : Finitary R K Q) (h : Stems R Q s)

include hQ h

theorem Stems.event {new : List Request} (hnew : ∀ r ∈ new, Q r) (he : Event R s new s') :
    Stems R Q s' := by
  have hs := h.reachable.legal
  have hchanges := he.next.takes.changes
  have hmono : ∀ r (a : Answer ε), Holds (fun _ => False) s r a → Holds (fun _ => False) s' r a := by
    intro r a ha
    cases a with
    | ok x => exact ⟨ha.1, hs.coherent_of_changes hchanges ha.2.1, False.elim⟩
    | error e => exact ha
  obtain ⟨t, hm⟩ := he.motion
  have hkept := hm.suits hQ.reliable (hs.changes hchanges) hnew hmono h.woven h.suits
  exact ⟨h.reachable.next he.next, fun u => (hkept u).1, fun u => (hkept u).2⟩

theorem Stems.step (hstep : step R t s = some s') : Stems R Q s' :=
  h.event hQ (List.forall_mem_nil _) (.step t hstep)

theorem Stems.steps (hsteps : Steps R s s') : Stems R Q s' := by
  induction hsteps with
  | refl => exact h
  | head t hstep _ ih => exact ih (h.step hQ hstep)

theorem Stems.confined (t : ThreadId) : Confined K (s.thread t).frames :=
  ⟨h.reachable.legal.owned.distinct t, (h.woven t).within hQ⟩

/-- No thread stands at a gate. -/
theorem Stems.closedGate?_eq_none (t : ThreadId) : s.closedGate? t = none := by
  cases hgate : s.closedGate? t with
  | none => rfl
  | some g =>
      obtain ⟨name, next, hstage⟩ := State.stage_of_closedGate? hgate
      have hsuits := h.suits t
      have hwoven := h.woven t
      rw [hstage] at hsuits
      obtain ⟨f, rest, hframes, hp⟩ := hsuits
      rw [hframes] at hwoven
      rcases hp with ⟨log, hp⟩ | ⟨-, message, heq⟩
      · exact absurd (hp.mono fun _ _ _ => trivial) (hQ.ungated hwoven.1.allowed)
      · cases heq

/-- **Threads cannot go on for ever**, whichever takes the next step. -/
theorem Stems.acc : Acc (Follows R) s := by
  have hacc : Acc (Prod.Lex (CutExpand (Sure K)) (· < ·)) (s.doing, s.alert) :=
    Prod.lexAccessible h.reachable.legal.acc_doing (fun n => Nat.lt_wfRel.wf.apply n) _
  generalize hrank : (s.doing, s.alert) = rank at hacc
  induction hacc generalizing s with
  | intro rank _ ih =>
      subst hrank
      refine .intro _ fun s' ⟨t, hstep⟩ => ih _ ?_ (h.step hQ hstep) rfl
      cases step_advance hstep ((h.step hQ hstep).confined hQ t) with
      | ahead th th' hmem hahead hdoing =>
          refine .left _ _ ⟨{th'}, th, fun x hx => ?_, hdoing⟩
          rw [Multiset.mem_singleton.1 hx]
          exact ⟨hahead, h.reachable.legal.acc_of_mem hmem⟩
      | sleeps hdoing halert =>
          rw [hdoing]
          exact .right _ halert

end Stems

/-- **There is a bound on the steps that threads can take** if they cannot go on for ever: in each
state one of finitely many threads takes the next step. -/
theorem exists_bound (h : Acc (Follows R) s) :
    ∃ n, ∀ (ts : List ThreadId) (s' : State ι σ ε ν),
      perform R (ts.map .step) s = some s' → ts.length ≤ n := by
  induction h with
  | intro s _ ih =>
      have hthread : ∀ t, ∃ n, ∀ s₁, step R t s = some s₁ → ∀ (ts : List ThreadId) s',
          perform R (ts.map .step) s₁ = some s' → ts.length ≤ n := by
        intro t
        cases hstep : step R t s with
        | none => exact ⟨0, nofun⟩
        | some s₁ =>
            obtain ⟨n, hn⟩ := ih s₁ ⟨t, hstep⟩
            exact ⟨n, fun s₂ h => Option.some.inj h ▸ hn⟩
      choose n hn using hthread
      refine ⟨(Dictionary.names s.threads).toFinset.sup n + 1, fun ts s' hp => ?_⟩
      cases ts with
      | nil => exact Nat.zero_le _
      | cons t ts =>
          rw [List.map_cons, perform_cons, Option.bind_eq_some_iff] at hp
          obtain ⟨s₁, hstep, hp⟩ := hp
          have hlisted : t ∈ Dictionary.names s.threads := by
            rw [← Dictionary.find?_isSome_iff]
            obtain ⟨th, hfind, -⟩ := Option.bind_eq_some_iff.1 hstep
            rw [hfind]
            rfl
          have hle : n t ≤ (Dictionary.names s.threads).toFinset.sup n :=
            Finset.le_sup (List.mem_toFinset.2 hlisted)
          exact Nat.succ_le_succ ((hn t s₁ hstep ts s' hp).trans hle)

/-- Threads that cannot go on for ever come to a state in which none has a step. -/
theorem exists_stable (h : Acc (Follows R) s) :
    ∃ (ts : List ThreadId) (s' : State ι σ ε ν),
      perform R (ts.map .step) s = some s' ∧ Stable R s' := by
  induction h with
  | intro s _ ih =>
      by_cases hstable : Stable R s
      · exact ⟨[], s, rfl, hstable⟩
      · obtain ⟨t, ht⟩ := not_forall.1 hstable
        obtain ⟨s₁, hstep⟩ := Option.ne_none_iff_exists'.1 ht
        obtain ⟨ts, s', hp, hstable'⟩ := ih s₁ ⟨t, hstep⟩
        refine ⟨t :: ts, s', ?_, hstable'⟩
        rw [List.map_cons, perform_cons, act, hstep, Option.bind_some, hp]

/-! ### The calls of a run -/

theorem Finitary.or {K' : List Key} {Q' : Request → Prop} (h : Finitary R K Q)
    (h' : Finitary R K' Q') : Finitary R (K ++ K') fun r => Q r ∨ Q' r where
  keys hr hk := List.mem_append.2 (hr.imp (fun hr => h.keys hr hk) fun hr => h'.keys hr hk)
  asks hr hp := hr.imp (fun hr => h.asks hr hp) fun hr => h'.asks hr hp
  ungated hr := hr.elim (fun hr => h.ungated hr) fun hr => h'.ungated hr

/-- Finitely many requests lead to finitely many keys if each does. -/
theorem exists_finitary_of_forall {rs : List Request}
    (h : ∀ r ∈ rs, ∃ K Q, Q r ∧ Finitary R K Q) :
    ∃ K Q, (∀ r ∈ rs, Q r) ∧ Finitary R K Q := by
  induction rs with
  | nil => exact ⟨[], fun _ => False, nofun, False.elim, False.elim, False.elim⟩
  | cons r rs ih =>
      obtain ⟨K, Q, hr, hQ⟩ := h r List.mem_cons_self
      obtain ⟨K', Q', hrs, hQ'⟩ := ih fun r' hr' => h r' (List.mem_cons_of_mem _ hr')
      exact ⟨K ++ K', fun r => Q r ∨ Q' r,
        List.forall_mem_cons.2 ⟨Or.inl hr, fun r' hr' => Or.inr (hrs r' hr')⟩, hQ.or hQ'⟩

/-- **The calls of a run take finitely many steps, on however many threads, and are over when no
thread has a step**, if each request leads to finitely many keys and meets no gate. -/
theorem Session.ends {rs : List Request} {ks : List Key} (hs : Session R rs ks s)
    (hfinite : ∀ r ∈ rs, ∃ K Q, Q r ∧ Finitary R K Q) :
    (∃ (ts : List ThreadId) (s' : State ι σ ε ν),
      perform R (ts.map .step) s = some s' ∧ Stable R s') ∧
    ∃ n, ∀ (ts : List ThreadId) s', perform R (ts.map .step) s = some s' → ts.length ≤ n ∧
      (Stable R s' → ∀ t, (s'.thread t).stage.isResting = true) := by
  obtain ⟨K, Q, hrs, hQ⟩ := exists_finitary_of_forall hfinite
  have hstems := hs.stems hQ hrs
  obtain ⟨n, hn⟩ := exists_bound (hstems.acc hQ)
  refine ⟨exists_stable (hstems.acc hQ), n, fun ts s' hp => ⟨hn ts s' hp, fun hstable => ?_⟩⟩
  obtain ⟨ks', hs'⟩ := hs.steps (steps_of_perform hp)
  exact hs'.reachable.legal.isResting_of_no_gate hstable ((hs'.stems hQ hrs).closedGate?_eq_none hQ)

end SchemaGraph.Registry
