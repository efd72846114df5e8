/-
**The counters account for every call and every construction.**

A call is made, and it is answered, refused or fails with its construction; a construction is
started, and it succeeds or fails.  These are the milestones of a run.  The counters are set at
other moments than the milestones that they mirror: a success is counted when the answer is
reported, and a failure when it is passed on.  In between the thread owes the count, and with what
the threads owe the books balance at every moment.

Main definitions:

* `Milestone`, `milestones`, `history` — what the calls and constructions of a run come to;
* `Weight`, `Weight.total` — a number that each thread bears, and the sum over all threads;
* `Weight.held`, `Weight.calls`, `Weight.misses`, `Weight.failures` — constructions and calls in
  progress, and the counts that a thread owes;
* `Balance` — what a moment of one thread does to the numbers;
* `Accounts` — the books of a run.

Main results:

* `Dictionary.sum_set`, `Weight.total_put` — a sum after one thread has moved;
* `Accounts.step`, `Accounts.act` — a step, and whatever happens, keeps the books;
* `accounts_history` — the books balance at every moment of every run;
* `counters_account` — **the counters account for every call and every construction**, when no
  thread is between the moments in which a call ends.
-/

import Mathlib.Algebra.GroupWithZero.Nat
import SchemaGraph.Proofs.Registry.Action
import SchemaGraph.Proofs.Registry.Lifecycle
import SchemaGraph.Proofs.Registry.Motion

set_option autoImplicit false

namespace SchemaGraph

/-! ### Dictionaries that grow and shrink -/

namespace Dictionary

variable {κ α : Type} [DecidableEq κ]

theorem length_set (k : κ) (v : α) (d : Dictionary κ α) :
    (set k v d).length = if k ∈ names d then d.length else d.length + 1 := by
  have h := congrArg List.length (names_set k v d)
  rw [apply_ite List.length, List.length_append] at h
  simpa [names] using h

theorem length_erase {k : κ} {d : Dictionary κ α} (h : (names d).Nodup) (hk : k ∈ names d) :
    (erase k d).length + 1 = d.length := by
  have hnames : names (erase k d) = (names d).erase k := by
    rw [h.erase_eq_filter, names, names, List.filter_map, erase]
    congr 2
    funext p
    simp [bne, Bool.beq_eq_decide_eq]
  have hlen := congrArg List.length hnames
  rw [List.length_erase_of_mem hk] at hlen
  have hpos := List.length_pos_of_mem hk
  simp only [names, List.length_map] at hlen hpos
  omega

/-- A sum over a dictionary in which one value is entered in place of another, or is new. -/
theorem sum_set {M : Type} [AddCommMonoid M] (w : α → M) (k : κ) (v : α) (d : Dictionary κ α) :
    ((set k v d).map fun p => w p.2).sum + ((find? k d).map w).getD 0
      = (d.map fun p => w p.2).sum + w v := by
  induction d with
  | nil => simp [set]
  | cons p d ih =>
      obtain ⟨n, u⟩ := p
      by_cases hn : n = k
      · simp only [set, find?, hn, if_true, List.map_cons, List.sum_cons, Option.map_some,
          Option.getD_some]
        rw [add_assoc, add_comm (w v), add_comm (List.sum _) (w u)]
      · simp only [set, find?, hn, if_false, List.map_cons, List.sum_cons]
        rw [add_assoc, ih, add_assoc]

end Dictionary

namespace Registry

variable {ι σ ε ν : Type} {R : Setup ι σ ε ν} {s s' s₁ : State ι σ ε ν} {t : ThreadId}
  {frames : List (Frame ι σ ε ν)} {stage : Stage ι σ ε ν}

/-! ### Milestones -/

/-- What a call or a construction comes to. -/
inductive Milestone where
  /-- a call is made -/
  | asked
  /-- a call is refused before any construction -/
  | refused
  /-- a factory is started -/
  | started
  /-- a factory is done -/
  | succeeded
  /-- a factory ends in an error, or breaks off -/
  | failed
  /-- a call returns a handle -/
  | answered
deriving DecidableEq, Repr

/-- The milestones of a call that begins: one without a key is refused at once. -/
def Request.milestones (r : Request) : List Milestone :=
  match r.key with
  | .ok _ => [.asked]
  | .error _ => [.asked, .refused]

/-- The milestones of a thread that goes on to another stage.  A call that has looked up its key has
begun a construction, was refused when its caller goes on, or else is still in progress. -/
def Thread.milestones (th th' : Thread ι σ ε ν) : List Milestone :=
  match th.stage with
  | .running (.done _) => [.succeeded]
  | .running (.fail _) | .running (.panic _) => [.failed]
  | .running (.resolve r _) => r.milestones
  | .looking .. | .asleep .. =>
    if th.frames.length < th'.frames.length then [.started]
    else
      match th'.stage with
      | .running _ | .returned _ => [.refused]
      | _ => []
  | .reporting .. => [.answered]
  | _ => []

/-- The milestones of an action between two states. -/
def milestones (a : Action σ) (s s' : State ι σ ε ν) : List Milestone :=
  match a with
  | .step t => (s.thread t).milestones (s'.thread t)
  | .call _ r => r.milestones
  | _ => []

/-- The milestones of a run. -/
def history (R : Setup ι σ ε ν) : List (Action σ) → State ι σ ε ν → List Milestone
  | [], _ => []
  | a :: as, s =>
    match act R a s with
    | some s' => milestones a s s' ++ history R as s'
    | none => []

/-! ### What the threads bear -/

/-- A number that each thread bears: nothing at rest, and the same whether or not it is notified. -/
structure Weight (ι σ ε ν : Type) where
  of : Thread ι σ ε ν → Nat
  atRest : of .atRest = 0
  notify : ∀ th, of th.notify = of th

namespace Weight

/-- The sum over all threads. -/
def total (w : Weight ι σ ε ν) (s : State ι σ ε ν) : Nat :=
  (s.threads.map fun p => w.of p.2).sum

theorem total_congr (w : Weight ι σ ε ν) (h : s₁.threads = s.threads) :
    w.total s₁ = w.total s := by
  rw [total, h, total]

@[simp] theorem total_notifyAll (w : Weight ι σ ε ν) (s : State ι σ ε ν) :
    w.total s.notifyAll = w.total s := by
  simp only [total, State.notifyAll, List.map_map, Function.comp_def, w.notify]

/-- The sum after one thread has moved. -/
theorem total_put (w : Weight ι σ ε ν) (s : State ι σ ε ν) (t : ThreadId)
    (frames : List (Frame ι σ ε ν)) (stage : Stage ι σ ε ν) :
    w.total (s.put t frames stage) + w.of (s.thread t) = w.total s + w.of ⟨frames, stage⟩ := by
  have hthread : w.of (s.thread t) = ((Dictionary.find? t s.threads).map w.of).getD 0 := by
    unfold State.thread
    cases Dictionary.find? t s.threads with
    | none => exact w.atRest
    | some th => rfl
  rw [hthread]
  exact Dictionary.sum_set w.of t ⟨frames, stage⟩ s.threads

/-- What all threads do without, their sum does without. -/
theorem total_eq_zero (w : Weight ι σ ε ν) (hnodup : (Dictionary.names s.threads).Nodup)
    (h : ∀ t, w.of (s.thread t) = 0) : w.total s = 0 := by
  refine List.sum_eq_zero_iff_forall_eq_nat.2 fun n hn => ?_
  obtain ⟨⟨t, th⟩, hth, rfl⟩ := List.mem_map.1 hn
  rw [Dictionary.mem_iff_find? hnodup] at hth
  rw [← State.thread_of_find? hth]
  exact h t

end Weight

/-- The calls that a thread is in the middle of, apart from those that run a construction. -/
def Stage.calls : Stage ι σ ε ν → Nat
  | .looking .. | .asleep .. | .fulfilling .. | .ending .. | .reporting .. | .failing .. => 1
  | _ => 0

/-- The successes that a thread has yet to count. -/
def Stage.misses : Stage ι σ ε ν → Nat
  | .fulfilling .. | .ending _ (.ok _) | .reporting _ .miss _ => 1
  | _ => 0

/-- The failures that a thread has yet to count. -/
def Stage.failures : Stage ι σ ε ν → Nat
  | .ending _ (.error _) | .failing .. => 1
  | _ => 0

/-- What a stage bears: calls in progress, and successes and failures that are not counted yet. -/
structure Stage.Bears (stage : Stage ι σ ε ν) (calls misses failures : Nat) : Prop where
  calls : stage.calls = calls
  misses : stage.misses = misses
  failures : stage.failures = failures

/-- A thread whose caller goes on is done with the call. -/
theorem Stage.bears_answered (resume : Option (Answer ε → Program ι σ ε ν)) (a : Answer ε) :
    (Stage.answered resume a).Bears 0 0 0 := by
  cases resume <;> exact ⟨rfl, rfl, rfl⟩

theorem Call.bears_deliverFailure (c : Call ι σ ε ν) (failure : Failure ε) :
    (c.deliverFailure failure).Bears 0 0 0 := by
  cases failure with
  | error e => exact Stage.bears_answered _ _
  | panic message =>
      cases hr : c.resume <;> simp only [deliverFailure, hr] <;> exact ⟨rfl, rfl, rfl⟩

theorem Stage.bears_of_isResting (h : stage.isResting = true) : stage.Bears 0 0 0 := by
  cases stage with
  | returned | panicked | awaited => exact ⟨rfl, rfl, rfl⟩
  | _ => simp [isResting] at h

theorem Stage.bears_of_looks {c : Call ι σ ε ν} (h : stage.looks = some c) :
    stage.Bears 1 0 0 := by
  cases stage with
  | looking | asleep => exact ⟨rfl, rfl, rfl⟩
  | _ => simp [looks] at h

theorem Thread.notify_stage (th : Thread ι σ ε ν) (n : Stage ι σ ε ν → Nat)
    (h : ∀ c b, n (.asleep c b) = n (.asleep c true)) :
    n th.notify.stage = n th.stage := by
  obtain ⟨frames, stage⟩ := th
  cases stage with
  | asleep c b => exact (h c b).symm
  | _ => rfl

namespace Weight

/-- The constructions in progress. -/
def held : Weight ι σ ε ν := ⟨fun th => th.frames.length, rfl, fun th => by simp⟩

/-- The calls in progress. -/
def calls : Weight ι σ ε ν :=
  ⟨fun th => th.frames.length + th.stage.calls, rfl, fun th => by
    rw [Thread.frames_notify, Thread.notify_stage th Stage.calls fun _ _ => rfl]⟩

/-- The successes that are not counted yet. -/
def misses : Weight ι σ ε ν :=
  ⟨fun th => th.stage.misses, rfl, fun th => Thread.notify_stage th _ fun _ _ => rfl⟩

/-- The failures that are not counted yet. -/
def failures : Weight ι σ ε ν :=
  ⟨fun th => th.stage.failures, rfl, fun th => Thread.notify_stage th _ fun _ _ => rfl⟩

theorem total_held (s : State ι σ ε ν) : held.total s = s.constructions.length := by
  simp [total, held, State.constructions, List.length_flatMap]

end Weight

/-! ### What a moment does to the books -/

/-- What a moment of one thread does to the numbers: what ends and what is counted is taken from
what the thread bears, and what begins is added. -/
structure Balance (ms : List Milestone) (S S' : Store ι) (th th' : Thread ι σ ε ν) : Prop where
  calls : Weight.calls.of th' + ms.count .answered + ms.count .refused + S'.stats.failures
    = Weight.calls.of th + ms.count .asked + S.stats.failures
  held : Weight.held.of th' + ms.count .succeeded + ms.count .failed
    = Weight.held.of th + ms.count .started
  size : S'.table.size + ms.count .failed = S.table.size + ms.count .started
  misses : S'.stats.misses + Weight.misses.of th'
    = S.stats.misses + Weight.misses.of th + ms.count .succeeded
  failures : S'.stats.failures + Weight.failures.of th'
    = S.stats.failures + Weight.failures.of th + ms.count .failed
  answers : S'.stats.resolves = S.stats.resolves + ms.count .answered

/-- The books of a run.  Every call that was made was answered or refused, has failed, or is in
progress; every construction that was started has succeeded or failed, or is in progress; the table
has an entry for each construction that has not failed; and the counters are short of what the
threads owe. -/
structure Accounts (H : List Milestone) (s : State ι σ ε ν) : Prop where
  calls : H.count .asked = H.count .answered + H.count .refused + s.store.stats.failures
    + Weight.calls.total s
  held : H.count .started = H.count .succeeded + H.count .failed + Weight.held.total s
  size : H.count .started = H.count .failed + s.store.table.size
  misses : H.count .succeeded = s.store.stats.misses + Weight.misses.total s
  failures : H.count .failed = s.store.stats.failures + Weight.failures.total s
  answers : H.count .answered = s.store.stats.resolves

variable {H : List Milestone} {c : Call ι σ ε ν} {S S' : Store ι}

/-- The books speak of threads, counters and the size of the table alone. -/
theorem Accounts.congr (h : Accounts H s) (ht : s'.threads = s.threads)
    (hstats : s'.store.stats = s.store.stats)
    (hsize : s'.store.table.size = s.store.table.size) : Accounts H s' := by
  constructor <;> simp only [hstats, hsize, Weight.total_congr _ ht]
  · exact h.calls
  · exact h.held
  · exact h.size
  · exact h.misses
  · exact h.failures
  · exact h.answers

theorem Accounts.aside (h : Accounts H s) (ht : s'.threads = s.threads)
    (hstats : s'.store.stats = s.store.stats)
    (hsize : s'.store.table.size = s.store.table.size) : Accounts (H ++ []) s' := by
  rw [List.append_nil]
  exact h.congr ht hstats hsize

/-- **The books after a moment of one thread.** -/
theorem Accounts.put (h : Accounts H s) {ms : List Milestone} {th : Thread ι σ ε ν}
    (htotal : ∀ w : Weight ι σ ε ν, w.total s₁ = w.total s)
    (hthread : ∀ w : Weight ι σ ε ν, w.of (s₁.thread t) = w.of th)
    (hb : Balance ms s.store s₁.store th ⟨frames, stage⟩) :
    Accounts (H ++ ms) (s₁.put t frames stage) := by
  have hw : ∀ w : Weight ι σ ε ν,
      w.total (s₁.put t frames stage) + w.of th = w.total s + w.of ⟨frames, stage⟩ := by
    intro w
    rw [← hthread w, ← htotal w]
    exact w.total_put s₁ t frames stage
  constructor <;> simp only [List.count_append, State.store_put]
  · have := h.calls
    have := hb.calls
    have := hw Weight.calls
    omega
  · have := h.held
    have := hb.held
    have := hw Weight.held
    omega
  · have := h.size
    have := hb.size
    omega
  · have := h.misses
    have := hb.misses
    have := hw Weight.misses
    omega
  · have := h.failures
    have := hb.failures
    have := hw Weight.failures
    omega
  · have := h.answers
    have := hb.answers
    omega

/-- The other things that a moment changes are no threads. -/
theorem Accounts.move (h : Accounts H s) {ms : List Milestone} {th : Thread ι σ ε ν}
    (ht : s₁.threads = s.threads) (hth : s.thread t = th)
    (hb : Balance ms s.store s₁.store th ⟨frames, stage⟩) :
    Accounts (H ++ ms) (s₁.put t frames stage) := by
  refine h.put (fun w => w.total_congr ht) (fun w => ?_) hb
  rw [State.thread_congr ht, hth]

namespace Balance

variable {frames' : List (Frame ι σ ε ν)} {stage' : Stage ι σ ε ν} {ms : List Milestone}
  {n m l n' m' l' : Nat}

/-- The numbers of a moment, written out. -/
theorem of_bears (h : stage.Bears n m l) (h' : stage'.Bears n' m' l')
    (hcalls : frames'.length + n' + ms.count .answered + ms.count .refused + S'.stats.failures
      = frames.length + n + ms.count .asked + S.stats.failures)
    (hheld : frames'.length + ms.count .succeeded + ms.count .failed
      = frames.length + ms.count .started)
    (hsize : S'.table.size + ms.count .failed = S.table.size + ms.count .started)
    (hmisses : S'.stats.misses + m' = S.stats.misses + m + ms.count .succeeded)
    (hfailures : S'.stats.failures + l' = S.stats.failures + l + ms.count .failed)
    (hanswers : S'.stats.resolves = S.stats.resolves + ms.count .answered) :
    Balance ms S S' ⟨frames, stage⟩ ⟨frames', stage'⟩ where
  calls := by simpa only [Weight.calls, h.calls, h'.calls] using hcalls
  held := hheld
  size := hsize
  misses := by simpa only [Weight.misses, h.misses, h'.misses] using hmisses
  failures := by simpa only [Weight.failures, h.failures, h'.failures] using hfailures
  answers := hanswers

/-- Nothing is begun, ended or counted. -/
theorem quiet (hstats : S'.stats = S.stats) (hsize : S'.table.size = S.table.size)
    (h : stage.Bears n m l) (h' : stage'.Bears n m l) :
    Balance [] S S' ⟨frames, stage⟩ ⟨frames, stage'⟩ := by
  apply of_bears h h' <;> simp [hstats, hsize]

/-- A call begins. -/
theorem asks (hS : S' = S) (h : stage.Bears 0 0 0) (h' : stage'.Bears 1 0 0) :
    Balance [.asked] S S' ⟨frames, stage⟩ ⟨frames, stage'⟩ := by
  apply of_bears h h' <;> simp [hS]

/-- A call is refused at once. -/
theorem misasks (hS : S' = S) (h : stage.Bears 0 0 0) (h' : stage'.Bears 0 0 0) :
    Balance [.asked, .refused] S S' ⟨frames, stage⟩ ⟨frames, stage'⟩ := by
  apply of_bears h h' <;> simp [hS]

/-- A call is refused when it finds no entry. -/
theorem refuses (hstats : S'.stats = S.stats) (hsize : S'.table.size = S.table.size)
    (h : stage.Bears 1 0 0) (h' : stage'.Bears 0 0 0) :
    Balance [.refused] S S' ⟨frames, stage⟩ ⟨frames, stage'⟩ := by
  apply of_bears h h' <;> simp [hstats, hsize]

/-- A construction is started on a key without an entry. -/
theorem claims (hstats : S'.stats = S.stats) (hsize : S'.table.size = S.table.size + 1)
    (h : stage.Bears 1 0 0) (h' : stage'.Bears 0 0 0) (f : Frame ι σ ε ν) :
    Balance [.started] S S' ⟨frames, stage⟩ ⟨f :: frames, stage'⟩ := by
  apply of_bears h h' <;> simp [hstats, hsize]

/-- A construction succeeds: its call is still in progress, and the success is owed. -/
theorem publishes (hstats : S'.stats = S.stats) (hsize : S'.table.size = S.table.size)
    (h : stage.Bears 0 0 0) (h' : stage'.Bears 1 1 0) (f : Frame ι σ ε ν) :
    Balance [.succeeded] S S' ⟨f :: frames, stage⟩ ⟨frames, stage'⟩ := by
  apply of_bears h h' <;> simp [hstats, hsize]

/-- A construction fails: its call is still in progress, and the failure is owed. -/
theorem undoes (hstats : S'.stats = S.stats) (hsize : S'.table.size + 1 = S.table.size)
    (h : stage.Bears 0 0 0) (h' : stage'.Bears 1 0 1) (f : Frame ι σ ε ν) :
    Balance [.failed] S S' ⟨f :: frames, stage⟩ ⟨frames, stage'⟩ := by
  apply of_bears h h' <;> simp [hstats, hsize]

/-- An answer is counted; a miss is a success that was owed. -/
theorem reports {c : Call ι σ ε ν} {x : Handle} (o : Outcome) (hstats : S'.stats = S.stats.count o)
    (hsize : S'.table.size = S.table.size) (h' : stage'.Bears 0 0 0) :
    Balance [.answered] S S' ⟨frames, .reporting c o x⟩ ⟨frames, stage'⟩ := by
  have h : (Stage.reporting c o x : Stage ι σ ε ν).Bears 1 (if o = .miss then 1 else 0) 0 := by
    cases o <;> exact ⟨rfl, rfl, rfl⟩
  have hmisses : (S.stats.count o).misses = S.stats.misses + if o = .miss then 1 else 0 := by
    cases o <;> rfl
  apply of_bears h h' <;> simp [hstats, hsize, hmisses, Stats.resolves_count]

/-- A failure is counted that was owed, and the call is over. -/
theorem reportsFailure {c : Call ι σ ε ν} {failure : Failure ε}
    (hstats : S'.stats = S.stats.countFailure) (hsize : S'.table.size = S.table.size)
    (h' : stage'.Bears 0 0 0) :
    Balance [] S S' ⟨frames, .failing c failure⟩ ⟨frames, stage'⟩ := by
  have h : (Stage.failing c failure : Stage ι σ ε ν).Bears 1 0 1 := ⟨rfl, rfl, rfl⟩
  have hfailures : S.stats.countFailure.failures = S.stats.failures + 1 := rfl
  have hmisses : S.stats.countFailure.misses = S.stats.misses := rfl
  apply of_bears h h' <;> simp [hstats, hsize, hfailures, hmisses]
  omega

end Balance

/-! ### The table and its size -/

theorem Table.size_eq (T : Table) : T.size = T.instances.length + T.inProgress.length := by
  simp only [size, instances, inProgress, List.length_mergeSort]
  induction T.entries with
  | nil => rfl
  | cons p d ih =>
      obtain ⟨k, e⟩ := p
      cases e <;> simp [ih] <;> omega

theorem Store.size_claim {k : Key} (h : Dictionary.find? k S.table.entries = none) :
    (S.claim t k).2.table.size = S.table.size + 1 := by
  rw [Dictionary.find?_eq_none_iff] at h
  simp [Table.size, claim, Dictionary.length_set, h]

theorem Store.stats_claim (S : Store ι) (t : ThreadId) (k : Key) :
    (S.claim t k).2.stats = S.stats := by
  simp only [claim, takeSlot]
  split <;> rfl

theorem Store.size_publish_of_mem {k : Key} {y : Yield ι} (h : k ∈ Dictionary.names S.table.entries) :
    (S.publish k y).table.size = S.table.size := by
  simp [Table.size, publish, Dictionary.length_set, h]

theorem Store.size_rollBack {k : Key} {q : SlotId}
    (hnodup : (Dictionary.names S.table.entries).Nodup)
    (h : k ∈ Dictionary.names S.table.entries) :
    (S.rollBack k q).table.size + 1 = S.table.size :=
  Dictionary.length_erase hnodup h

/-- A construction in progress has an entry. -/
theorem Legal.mem_names (hs : Legal s) {f : Frame ι σ ε ν} (hf : f ∈ (s.thread t).frames) :
    f.call.key ∈ Dictionary.names s.store.table.entries := by
  rw [← Dictionary.find?_isSome_iff, hs.owned.pending hf]
  rfl

/-! ### Every moment of a run -/

theorem Request.milestones_of_ok {r : Request} {key : Key} (h : r.key = .ok key) :
    r.milestones = [.asked] := by
  simp [milestones, h]

theorem Request.milestones_of_error {r : Request} {reason : IdentifierError}
    (h : r.key = .error reason) : r.milestones = [.asked, .refused] := by
  simp [milestones, h]

theorem Thread.milestones_of_looks {th' : Thread ι σ ε ν} (h : stage.looks = some c) :
    (⟨frames, stage⟩ : Thread ι σ ε ν).milestones th' =
      if frames.length < th'.frames.length then [.started]
      else match th'.stage with
        | .running _ | .returned _ => [.refused]
        | _ => [] := by
  cases stage with
  | looking | asleep => rfl
  | _ => simp [Stage.looks] at h

theorem Thread.milestones_refused {a : Answer ε} (h : stage.looks = some c) :
    (⟨frames, stage⟩ : Thread ι σ ε ν).milestones ⟨frames, c.deliver a⟩ = [.refused] := by
  rw [milestones_of_looks h, if_neg (Nat.lt_irrefl _)]
  unfold Call.deliver Stage.answered
  cases c.resume <;> rfl

/-- A call is made, from outside or by a factory. -/
theorem Accounts.enter (h : Accounts H s) (hth : s.thread t = ⟨frames, stage⟩)
    (hstage : stage.Bears 0 0 0) (r : Request) (resume : Option (Answer ε → Program ι σ ε ν)) :
    Accounts (H ++ r.milestones) (enter R t frames r resume s) := by
  cases hk : r.key with
  | error reason =>
      obtain ⟨e, he⟩ := enter_of_error R t frames r hk resume s
      rw [he, Request.milestones_of_error hk]
      exact h.move rfl hth (.misasks rfl hstage (Stage.bears_answered _ _))
  | ok key =>
      obtain ⟨s₁, ht, hS, he⟩ := enter_threads R t frames r hk resume s
      rw [he, Request.milestones_of_ok hk]
      exact h.move ht hth (.asks hS hstage ⟨rfl, rfl, rfl⟩)

/-- A call finds no entry: it is refused, or a construction is started. -/
theorem Accounts.begin (h : Accounts H s) (hth : s.thread t = ⟨frames, stage⟩)
    (hlooks : stage.looks = some c)
    (hnone : Dictionary.find? c.key s.store.table.entries = none) :
    Accounts (H ++ (⟨frames, stage⟩ : Thread ι σ ε ν).milestones
      ((begin R t frames c s).thread t)) (begin R t frames c s) := by
  have hstage := Stage.bears_of_looks hlooks
  unfold Registry.begin
  dsimp only
  split
  · rw [State.thread_put_self, Thread.milestones_refused hlooks]
    exact h.move rfl hth (.refuses rfl rfl hstage (Stage.bears_answered _ _))
  · split
    · rw [State.thread_put_self, Thread.milestones_of_looks hlooks, if_pos (by simp)]
      refine h.move rfl hth (.claims ?_ ?_ hstage ⟨rfl, rfl, rfl⟩ _)
      · exact Store.stats_claim _ _ _
      · exact Store.size_claim (S := s.store.ask) hnone
    · rw [State.thread_put_self, Thread.milestones_refused hlooks]
      exact h.move rfl hth (.refuses rfl rfl hstage (Stage.bears_answered _ _))

/-- A call looks up its key. -/
theorem Accounts.look (h : Accounts H s) (hth : s.thread t = ⟨frames, stage⟩)
    (hlooks : stage.looks = some c) (w : Bool) :
    Accounts (H ++ (⟨frames, stage⟩ : Thread ι σ ε ν).milestones
      ((look R t frames c w s).thread t)) (look R t frames c w s) := by
  have hstage := Stage.bears_of_looks hlooks
  -- a call that is still in progress has come to nothing yet
  have hnone : ∀ {stage' : Stage ι σ ε ν}, stage'.calls = 1 →
      (⟨frames, stage⟩ : Thread ι σ ε ν).milestones ⟨frames, stage'⟩ = [] := by
    intro stage' h'
    rw [Thread.milestones_of_looks hlooks, if_neg (Nat.lt_irrefl _)]
    cases stage' with
    | running | returned => simp [Stage.calls] at h'
    | _ => rfl
  unfold Registry.look
  split
  · rw [State.thread_put_self, hnone rfl]
    refine h.move rfl hth (.quiet rfl rfl hstage ?_)
    cases w <;> exact ⟨rfl, rfl, rfl⟩
  · split
    · rw [State.thread_put_self, hnone rfl]
      exact h.move rfl hth (.quiet rfl rfl hstage ⟨rfl, rfl, rfl⟩)
    · rw [State.thread_put_self, hnone rfl]
      exact h.move rfl hth (.quiet rfl rfl hstage ⟨rfl, rfl, rfl⟩)
  · exact h.begin hth hlooks ‹_›

/-- The factory of the innermost construction goes on. -/
theorem Accounts.runProgram (h : Accounts H s) (hs : Legal s) {f : Frame ι σ ε ν}
    {p : Program ι σ ε ν} (hth : s.thread t = ⟨f :: frames, .running p⟩)
    (hrun : runProgram R t f frames p s = some s') :
    Accounts (H ++ (⟨f :: frames, .running p⟩ : Thread ι σ ε ν).milestones (s'.thread t)) s' := by
  have hmem := hs.mem_names (t := t) (f := f) (by rw [hth]; exact List.mem_cons_self)
  have hquiet : ∀ {s₁ : State ι σ ε ν} {q : Program ι σ ε ν}, s₁.threads = s.threads →
      s₁.store = s.store → Accounts (H ++ []) (s₁.put t (f :: frames) (.running q)) :=
    fun ht hS => h.move ht hth (.quiet (by rw [hS]) (by rw [hS]) ⟨rfl, rfl, rfl⟩ ⟨rfl, rfl, rfl⟩)
  have hundo : ∀ {s₁ : State ι σ ε ν} {failure : Failure ε}, s₁.threads = s.threads →
      s₁.store = s.store → Accounts (H ++ [.failed]) (undo t f frames failure s₁) := by
    intro s₁ failure ht hS
    refine h.move ht hth (.undoes ?_ ?_ ⟨rfl, rfl, rfl⟩ ⟨rfl, rfl, rfl⟩ f)
    · rw [hS]
      rfl
    · rw [hS]
      exact Store.size_rollBack hs.listed.entries hmem
  cases p with
  | done y =>
      simp only [Registry.runProgram, Option.some.injEq] at hrun
      subst hrun
      change Accounts (H ++ [.succeeded]) _
      refine h.move rfl hth (.publishes ?_ ?_ ⟨rfl, rfl, rfl⟩ ⟨rfl, rfl, rfl⟩ f)
      · rfl
      · exact Store.size_publish_of_mem hmem
  | fail e =>
      simp only [Registry.runProgram, Option.some.injEq] at hrun
      subst hrun
      exact hundo rfl rfl
  | panic message =>
      simp only [Registry.runProgram, Option.some.injEq] at hrun
      subst hrun
      exact hundo rfl rfl
  | resolve r next =>
      simp only [Registry.runProgram, Option.some.injEq] at hrun
      exact hrun ▸ h.enter hth ⟨rfl, rfl, rfl⟩ r (some next)
  | note g next =>
      simp only [Registry.runProgram, Option.some.injEq] at hrun
      exact hrun ▸ hquiet rfl rfl
  | inspect next =>
      simp only [Registry.runProgram, Option.some.injEq] at hrun
      exact hrun ▸ hquiet rfl rfl
  | say event next =>
      simp only [Registry.runProgram, Option.some.injEq] at hrun
      exact hrun ▸ hquiet rfl rfl
  | gate name next =>
      simp only [Registry.runProgram, Option.ite_none_right_eq_some, Option.some.injEq] at hrun
      exact hrun.2 ▸ hquiet rfl rfl

/-- **A step keeps the books.** -/
theorem Accounts.step (h : Accounts H s) (hs : Legal s) (hstep : step R t s = some s') :
    Accounts (H ++ (s.thread t).milestones (s'.thread t)) s' := by
  rw [step_eq_stepThread] at hstep
  generalize hth : s.thread t = th at hstep
  obtain ⟨frames, stage⟩ := th
  cases stage with
  | running p =>
      cases frames with
      | nil => simp [stepThread] at hstep
      | cons f frames => exact h.runProgram hs hth hstep
  | looking c w =>
      simp only [stepThread, Option.some.injEq] at hstep
      exact hstep ▸ h.look hth rfl w
  | asleep c notified =>
      cases notified with
      | false => simp [stepThread] at hstep
      | true =>
          simp only [stepThread, Option.some.injEq] at hstep
          have hwoken : Accounts H (s.withStore (s.store.wake t)) := h.congr rfl rfl rfl
          exact hstep ▸ hwoken.look hth rfl true
  | fulfilling f i =>
      simp only [stepThread, Option.some.injEq] at hstep
      exact hstep ▸ h.move rfl hth (.quiet rfl rfl ⟨rfl, rfl, rfl⟩ ⟨rfl, rfl, rfl⟩)
  | ending c result =>
      simp only [stepThread, Option.some.injEq] at hstep
      subst hstep
      have hthread : ∀ w : Weight ι σ ε ν,
          w.of (s.notifyAll.thread t) = w.of ⟨frames, .ending c result⟩ := by
        intro w
        rw [State.thread_notifyAll, w.notify, hth]
      refine h.put (fun w => w.total_notifyAll s) hthread ?_
      cases result <;> exact .quiet rfl rfl ⟨rfl, rfl, rfl⟩ ⟨rfl, rfl, rfl⟩
  | reporting c o x =>
      simp only [stepThread, report, Option.some.injEq] at hstep
      subst hstep
      refine h.move (by simp) hth (.reports o ?_ ?_ (Stage.bears_answered _ _)) <;>
        simp [Store.count]
  | failing c failure =>
      simp only [stepThread, reportFailure, Option.some.injEq] at hstep
      subst hstep
      refine h.move ?_ hth (.reportsFailure ?_ ?_ (Call.bears_deliverFailure _ _)) <;>
        cases failure <;> rfl
  | awaiting x =>
      simp only [stepThread, Option.ite_none_left_eq_some, Option.some.injEq] at hstep
      exact hstep.2 ▸ h.move rfl hth (.quiet rfl rfl ⟨rfl, rfl, rfl⟩ ⟨rfl, rfl, rfl⟩)
  | returned a => simp [stepThread] at hstep
  | panicked message => simp [stepThread] at hstep
  | awaited a => simp [stepThread] at hstep

/-- **Whatever happens keeps the books.** -/
theorem Accounts.act {a : Action σ} (h : Accounts H s) (hs : Legal s)
    (ha : act R a s = some s') : Accounts (H ++ milestones a s s') s' := by
  cases a with
  | step t => exact h.step hs ha
  | call t r =>
      simp only [Registry.act, Option.ite_none_right_eq_some, Option.some.injEq] at ha
      obtain ⟨hi, rfl⟩ := ha
      have hr := State.isResting_of_isIdle hi
      exact h.enter (by rw [← (hs.linked t).frames_eq_nil hr]) (Stage.bears_of_isResting hr) r none
  | await t x =>
      simp only [Registry.act, Option.ite_none_right_eq_some, Option.some.injEq] at ha
      obtain ⟨hi, rfl⟩ := ha
      have hr := State.isResting_of_isIdle hi
      exact h.move rfl (by rw [← (hs.linked t).frames_eq_nil hr])
        (.quiet rfl rfl (Stage.bears_of_isResting hr) ⟨rfl, rfl, rfl⟩)
  | openGate name =>
      obtain rfl := Option.some.inj ha
      exact h.aside rfl rfl rfl
  | passGate t =>
      obtain rfl := Option.some.inj ha
      rw [State.passGate_eq]
      split
      · rename_i frames name next hth
        exact h.move rfl hth (.quiet rfl rfl ⟨rfl, rfl, rfl⟩ ⟨rfl, rfl, rfl⟩)
      · exact h.aside rfl rfl rfl
  | note f =>
      obtain rfl := Option.some.inj ha
      exact h.aside rfl rfl rfl
  | clone q =>
      simp only [Registry.act, Option.ite_none_right_eq_some, Option.some.injEq] at ha
      obtain ⟨-, rfl⟩ := ha
      exact h.aside rfl rfl rfl
  | drop q =>
      simp only [Registry.act, Option.ite_none_right_eq_some, Option.some.injEq] at ha
      obtain ⟨-, rfl⟩ := ha
      exact h.aside rfl rfl rfl

/-- **The books balance at every moment of every run.** -/
theorem accounts_history {as : List (Action σ)} (h : Accounts H s) (hs : Legal s)
    (hp : perform R as s = some s') : Accounts (H ++ history R as s) s' := by
  induction as generalizing H s with
  | nil =>
      obtain rfl := Option.some.inj hp
      exact h.aside rfl rfl rfl
  | cons a as ih =>
      rw [perform_cons, Option.bind_eq_some_iff] at hp
      obtain ⟨s₁, ha, hp⟩ := hp
      have h₁ := ih (h.act hs ha) (hs.changes (next_of_act ha).takes.changes) hp
      rw [history, ha, ← List.append_assoc]
      exact h₁

theorem accounts_initial (notes : σ) (asked : Nat) :
    Accounts [] (State.initial notes asked : State ι σ ε ν) :=
  ⟨rfl, rfl, rfl, rfl, rfl, rfl⟩

/-! ### The counters -/

/-- The thread is not between the moments in which a call ends: it is outside all calls, inside a
factory, or in a call that has yet to find its entry. -/
def Stage.isSettled : Stage ι σ ε ν → Bool
  | .fulfilling .. | .ending .. | .reporting .. | .failing .. => false
  | _ => true

theorem Stage.owes_nothing (h : stage.isSettled = true) :
    stage.misses = 0 ∧ stage.failures = 0 := by
  cases stage with
  | fulfilling | ending | reporting | failing => simp [isSettled] at h
  | _ => exact ⟨rfl, rfl⟩

/-- **The counters account for every call and every construction.**  In every run, when no thread is
between the moments in which a call ends: the misses are the finished entries, and the factories
that are done; the failures are the factories that ended in an error or broke off; the factories
ever started are the misses, the failures and the constructions in progress; the entries are the
finished ones and the constructions in progress; hits, misses, forward references and waits are
together the calls that returned a handle; and a call that was made was counted as an answer or as a
failure, was refused and is counted nowhere, or is still in progress. -/
theorem counters_account {notes : σ} {asked : Nat} {as : List (Action σ)}
    (hp : perform R as (State.initial notes asked) = some s)
    (hsettled : ∀ t, (s.thread t).stage.isSettled = true) :
    let H := history R as (State.initial notes asked)
    let stats := s.store.stats
    let T := s.store.table
    stats.misses = T.instances.length ∧
    stats.misses = H.count .succeeded ∧
    stats.failures = H.count .failed ∧
    H.count .started = stats.misses + stats.failures + s.constructions.length ∧
    T.size = T.instances.length + s.constructions.length ∧
    stats.hits + stats.misses + stats.deferred + stats.waited = H.count .answered ∧
    H.count .asked = stats.resolves + stats.failures + H.count .refused + Weight.calls.total s := by
  intro H stats T
  have hs : Legal s := (reachable_iff_perform.2 ⟨notes, asked, as, hp⟩).legal
  have h : Accounts H s := accounts_history (accounts_initial notes asked) (.initial ..) hp
  have howes : Weight.misses.total s = 0 ∧ Weight.failures.total s = 0 :=
    ⟨Weight.total_eq_zero _ hs.listed.threads fun t => (Stage.owes_nothing (hsettled t)).1,
      Weight.total_eq_zero _ hs.listed.threads fun t => (Stage.owes_nothing (hsettled t)).2⟩
  have hmisses : H.count .succeeded = stats.misses := by
    have := h.misses
    rwa [howes.1, Nat.add_zero] at this
  have hfailures : H.count .failed = stats.failures := by
    have := h.failures
    rwa [howes.2, Nat.add_zero] at this
  have hstarted : H.count .started = stats.misses + stats.failures + s.constructions.length := by
    rw [← Weight.total_held, ← hmisses, ← hfailures]
    exact h.held
  have hsize : T.size = T.instances.length + s.constructions.length := by
    rw [T.size_eq, hs.perm_constructions.length_eq]
  have hready : stats.misses = T.instances.length := by
    have := h.size
    rw [hstarted, hfailures, hsize] at this
    omega
  refine ⟨hready, hmisses.symm, hfailures.symm, hstarted, hsize, h.answers.symm, ?_⟩
  have hanswers : H.count .answered = stats.resolves := h.answers
  calc H.count .asked
      = stats.resolves + H.count .refused + stats.failures + Weight.calls.total s :=
        hanswers ▸ h.calls
    _ = stats.resolves + stats.failures + H.count .refused + Weight.calls.total s := by
        rw [Nat.add_right_comm stats.resolves]

/-- A first attempt is given the forward reference that it asks for and breaks off, while a second
thread waits for it; that thread tries again, while a third waits, and a call for an unknown type is
refused. -/
def contest : List (Action Nat) :=
  let ask (t : ThreadId) : List (Action Nat) := [.call t ⟨.bare "Node", none⟩, .step t]
  ask 0 ++ ask 1 ++ List.replicate 7 (.step 0) ++ [.step 1] ++ ask 2
    ++ [.call 3 ⟨.bare "Edge", none⟩, .step 3]

def contested : State Nat Nat String Unit :=
  (perform flaky contest (State.initial 0 0)).getD (State.initial 0 0)

theorem contested_accounts : perform flaky contest (State.initial 0 0) = some contested ∧
    (∀ t, (contested.thread t).stage.isSettled = true) ∧
    contested.store.stats = ⟨0, 0, 1, 0, 1⟩ ∧ contested.constructions.length = 1 ∧
    (history flaky contest (State.initial 0 0)).count .started = 0 + 1 + 1 ∧
    (history flaky contest (State.initial 0 0)).count .asked = 1 + 1 + 1 + 2 := by
  obtain ⟨hsome, hall, hstats, hopen, hcalls, hrefused⟩ :
      (perform flaky contest (State.initial 0 0)).isSome = true ∧
      (∀ p ∈ contested.threads, p.2.stage.isSettled = true) ∧
      contested.store.stats = ⟨0, 0, 1, 0, 1⟩ ∧ contested.constructions.length = 1 ∧
      Weight.calls.total contested = 2 ∧
      (history flaky contest (State.initial 0 0)).count .refused = 1 := by
    decide +kernel
  have hp : perform flaky contest (State.initial 0 0) = some contested := by
    obtain ⟨s, hs⟩ := Option.isSome_iff_exists.1 hsome
    rw [contested, hs, Option.getD_some]
  have hsettled : ∀ t, (contested.thread t).stage.isSettled = true :=
    State.forall_thread (P := fun th => th.stage.isSettled = true) rfl hall
  obtain ⟨-, -, -, hstarted, -, -, hasked⟩ := counters_account hp hsettled
  refine ⟨hp, hsettled, hstats, hopen, ?_, ?_⟩
  · rw [hstarted, hstats, hopen]
    rfl
  · rw [hasked, hstats, hrefused, hcalls]
    rfl

end Registry

end SchemaGraph
