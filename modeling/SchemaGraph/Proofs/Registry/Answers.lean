/-
**How many answers a run gives.**

Which calls are hits and which are answered with a forward reference depends on the schedule; how
many calls are answered does not, if the factory of a key makes the same number of calls whenever it
is run.  Each call that is in progress owes one answer, and each construction the answers to the
calls that it has yet to make.  With what is owed the answers are, at every moment of every run, the
calls from outside and those of the factories that were started.

Main definitions:

* `Priced` — how many calls a factory makes, and how many a program has yet to make;
* `Weight.owed` — the answers that a thread has yet to give;
* `Program.calls` — the calls of a program that are all answered with handles.

Main results:

* `Moved.owed` — what a thread owes after it has moved;
* `Weight.total_motion` — a sum after one thread has moved;
* `Event.resolves` — what an event does to the answers and to what is owed;
* `Session.resolves` — **the answers are the calls from outside and those of the factories that were
  started**, less what is owed;
* `Priced.of_keep` — factories that ask in order make one call for each of their requests.
-/

import Mathlib.Algebra.BigOperators.Group.Finset.Basic
import SchemaGraph.Proofs.Registry.Confluence
import SchemaGraph.Proofs.Registry.Counted

set_option autoImplicit false

namespace SchemaGraph.Registry

variable {ι σ ε ν : Type} {R : Setup ι σ ε ν} {D : Request → Prop} {s s' : State ι σ ε ν}
  {t : ThreadId} {k : Key} {r : Request} {frames : List (Frame ι σ ε ν)} {stage : Stage ι σ ε ν}
  {c : Call ι σ ε ν} {rs new : List Request} {ks : List Key}

/-! ### What is owed -/

/-- How many calls the factory of a key makes in all, and how many a program has yet to make, which
is what it is ahead of.  Requests are answered as the registry answers those that can be relied
on. -/
structure Priced (R : Setup ι σ ε ν) (D : Request → Prop) (ahead : Program ι σ ε ν → Nat)
    (cost : Key → Nat) : Prop where
  path : ∀ {r : Request} {k : Key} {log : List (Request × Answer ε)} {p : Program ι σ ε ν},
    D r → r.key = .ok k → Reaches R (Permitted D) r log p → ahead p + log.length = cost k
  done : ∀ y, ahead (.done y) = 0

/-- The answers that are owed to a call and to what its caller does next. -/
def Call.owed (ahead : Program ι σ ε ν → Nat) (c : Call ι σ ε ν) : Nat :=
  match c.resume with
  | none => 1
  | some next => ahead (.resolve c.request next)

/-- The answers that are owed before a thread comes back to the construction below. -/
def Stage.owed (ahead : Program ι σ ε ν → Nat) : Stage ι σ ε ν → Nat
  | .running p => ahead p
  | stage => (stage.call?.map (Call.owed ahead)).getD 0

/-- The answers that a thread has yet to give. -/
def Weight.owed (ahead : Program ι σ ε ν → Nat) : Weight ι σ ε ν where
  of th := (th.frames.map fun f => f.call.owed ahead).sum + th.stage.owed ahead
  atRest := rfl
  notify th := by
    rw [Thread.frames_notify, Thread.notify_stage th (Stage.owed ahead) fun _ _ => rfl]

/-- The answers that a step gives. -/
def Stage.answers : Stage ι σ ε ν → Nat
  | .reporting .. => 1
  | _ => 0

theorem Stage.resolves_counted (stage : Stage ι σ ε ν) (S : Stats) :
    (stage.counted S).resolves = S.resolves + stage.answers := by
  cases stage with
  | reporting c o x => exact S.resolves_count o
  | _ => rfl

/-- The keys of the constructions that a thread has begun. -/
def Thread.begun (th th' : Thread ι σ ε ν) : List Key :=
  (th'.frames.take (th'.frames.length - th.frames.length)).map fun f => f.call.key

section Owed

variable {ahead : Program ι σ ε ν → Nat} {cost : Key → Nat} {stage' : Stage ι σ ε ν}

@[simp] theorem Stage.owed_running (p : Program ι σ ε ν) :
    (Stage.running p).owed ahead = ahead p := rfl

@[simp] theorem Stage.owed_reporting (c : Call ι σ ε ν) (o : Outcome) (x : Handle) :
    (Stage.reporting c o x).owed ahead = c.owed ahead := rfl

theorem Stage.owed_of_call? (h : stage.call? = some c) : stage.owed ahead = c.owed ahead := by
  cases stage with
  | looking | asleep | ending | reporting | failing | fulfilling =>
      exact congrArg (Call.owed ahead) (Option.some.inj h)
  | _ => cases h

theorem Stage.owed_of_outside (h : stage.isOutside = true) : stage.owed ahead = 0 := by
  cases stage with
  | returned | panicked | awaited | awaiting => rfl
  | _ => cases h

theorem Stage.answers_of_outside (h : stage.isOutside = true) : stage.answers = 0 := by
  cases stage with
  | returned | panicked | awaited | awaiting => rfl
  | _ => cases h

theorem Stage.answers_of_looks (h : stage.looks = some c) : stage.answers = 0 := by
  cases stage with
  | looking | asleep => rfl
  | _ => cases h

theorem Weight.owed_of (frames : List (Frame ι σ ε ν)) (stage : Stage ι σ ε ν) :
    (Weight.owed ahead).of ⟨frames, stage⟩
      = (frames.map fun f => f.call.owed ahead).sum + stage.owed ahead := rfl

@[simp] theorem Thread.begun_same (frames : List (Frame ι σ ε ν)) (stage stage' : Stage ι σ ε ν) :
    Thread.begun ⟨frames, stage⟩ ⟨frames, stage'⟩ = [] := by
  rw [Thread.begun, Nat.sub_self, List.take_zero, List.map_nil]

/-- The program of a construction is on the path of its factory. -/
theorem Stage.Suits.path {p : Program ι σ ε ν} (hw : Woven R D D s frames)
    (hst : (Stage.running p).Suits R D D s frames) : ∃ f rest log, frames = f :: rest ∧
      D f.call.request ∧ f.call.request.key = .ok f.call.key ∧
      Reaches R (Permitted D) f.call.request log p := by
  obtain ⟨f, rest, rfl, hp⟩ := hst
  rcases hp with ⟨log, hp⟩ | ⟨hD, -⟩
  · exact ⟨f, rest, log, rfl, hw.1.allowed, hw.1.key, hp.mono fun _ _ => Holds.permitted⟩
  · exact absurd hw.1.allowed hD

/-- An answer that is delivered is one that was owed. -/
theorem Proper.owed_deliver (hP : Priced R D ahead cost) (hw : Woven R D D s frames)
    (hc : Proper R D D s frames c) {h : Handle} (ha : Holds D s c.request (.ok h : Answer ε)) :
    (c.deliver (.ok h)).owed ahead + 1 = c.owed ahead := by
  cases frames with
  | nil =>
      rw [Call.deliver, Call.owed, hc.bottom rfl]
      rfl
  | cons f rest =>
      obtain ⟨next, log, hn, hp⟩ := hc.waited f rest rfl
      have hp' := hp.mono fun _ _ => Holds.permitted
      -- the path before the answer and the one after it have one price
      have hbefore := hP.path hw.1.allowed hw.1.key hp'
      have hafter := hP.path hw.1.allowed hw.1.key
        (hp'.trans (.answer ha.permitted (.refl (next (.ok h)))))
      rw [List.length_append, List.length_singleton] at hafter
      simp only [Call.deliver, Call.owed, hn, Stage.answered, Stage.owed_running]
      omega

/-- **What a thread owes after it has moved.** -/
theorem Moved.owed (hR : Reliable R D D) (hP : Priced R D ahead cost) {S S' : Store ι}
    {th th' : Thread ι σ ε ν} (hm : Moved R S S' new th th') (hnew : ∀ r ∈ new, D r)
    (hl : th.Linked) (hw : Woven R D D s th.frames) (hst : th.stage.Suits R D D s th.frames)
    (hreport : ∀ c o h, th.stage = .reporting c o h → th'.stage = c.deliver (.ok h)) :
    (Weight.owed ahead).of th' + th.stage.answers
      = (Weight.owed ahead).of th + new.length + ((th.begun th').map cost).sum := by
  -- the constructions in progress stay, and nothing is answered
  have hstays : ∀ {frames : List (Frame ι σ ε ν)} {stage stage' : Stage ι σ ε ν},
      stage.answers = 0 → stage'.owed ahead = stage.owed ahead →
      (Weight.owed ahead).of ⟨frames, stage'⟩ + stage.answers = (Weight.owed ahead).of ⟨frames, stage⟩
        + ([] : List Request).length + ((Thread.begun ⟨frames, stage⟩ ⟨frames, stage'⟩).map cost).sum := by
    intro frames stage stage' hanswers howed
    rw [Weight.owed_of, Weight.owed_of, hanswers, howed, Thread.begun_same]
    rfl
  have hcall : ∀ {frames : List (Frame ι σ ε ν)} {stage stage' : Stage ι σ ε ν} {c : Call ι σ ε ν},
      stage.answers = 0 → stage.call? = some c → stage'.call? = some c →
      (Weight.owed ahead).of ⟨frames, stage'⟩ + stage.answers = (Weight.owed ahead).of ⟨frames, stage⟩
        + ([] : List Request).length + ((Thread.begun ⟨frames, stage⟩ ⟨frames, stage'⟩).map cost).sum :=
    fun hanswers hc hc' =>
      hstays hanswers ((Stage.owed_of_call? hc').trans (Stage.owed_of_call? hc).symm)
  cases hm with
  | stays =>
      obtain ⟨frames, stage⟩ := th
      refine hstays ?_ rfl
      cases stage with
      | reporting c o h =>
          have hsame : Stage.reporting c o h = c.deliver (.ok h) := hreport c o h rfl
          unfold Call.deliver at hsame
          cases hres : c.resume <;> simp [hres, Stage.answered] at hsame
      | _ => rfl
  | arrives _ hrest hk =>
      have hout := Stage.isOutside_of_resting hrest
      obtain ⟨frames, stage⟩ := th
      obtain rfl : frames = [] := hl.frames_eq_nil hrest
      rw [Weight.owed_of, Weight.owed_of, Stage.owed_of_outside hout,
        Stage.answers_of_outside hout, Thread.begun_same]
      rfl
  | misled e _ hrest hk =>
      obtain ⟨k, hk'⟩ := hR.keyed (hnew _ List.mem_cons_self)
      rw [hk] at hk'
      cases hk'
  | awaits h _ hrest =>
      have hout := Stage.isOutside_of_resting hrest
      obtain ⟨frames, stage⟩ := th
      obtain rfl : frames = [] := hl.frames_eq_nil hrest
      exact hstays (Stage.answers_of_outside hout) (Stage.owed_of_outside hout).symm
  | arrived => exact hstays rfl rfl
  | goes _ hgoes =>
      obtain ⟨f, rest, log, -, hD, hk, hp⟩ := hst.path hw
      have hbefore := hP.path hD hk hp
      have hafter := hP.path hD hk (hp.goes hgoes)
      refine hstays rfl ?_
      rw [Stage.owed_running, Stage.owed_running]
      omega
  | asks => exact hstays rfl rfl
  | misasks e _ hk =>
      obtain ⟨f, rest, log, -, hD, -, hp⟩ := hst.path hw
      obtain ⟨k, hk'⟩ := hR.keyed (hR.within hD hp)
      rw [hk] at hk'
      cases hk'
  | refused e _ hlooks hrefuses =>
      exact absurd hrefuses (hR.served (hst.looks hlooks).allowed)
  | hits o _ hlooks =>
      exact hcall (Stage.answers_of_looks hlooks) (Stage.call?_of_looks hlooks) rfl
  | defers _ hlooks =>
      exact hcall (Stage.answers_of_looks hlooks) (Stage.call?_of_looks hlooks) rfl
  | sleeps _ hlooks =>
      exact hcall (Stage.answers_of_looks hlooks) (Stage.call?_of_looks hlooks) rfl
  | @claims frames stage c factory f t hlooks hf hnone hfactory =>
      subst hf
      have hc := hst.looks hlooks
      have hprice : ahead (factory.build f.site) + 0 = cost f.call.key :=
        hP.path hc.allowed hc.key ⟨_, factory, hc.key, hfactory, .refl _⟩
      have hbegun : Thread.begun ⟨frames, stage⟩ ⟨f :: frames, .running (factory.build f.site)⟩
          = [f.call.key] := by simp [Thread.begun]
      rw [Weight.owed_of, Weight.owed_of, Stage.owed_of_call? (Stage.call?_of_looks hlooks),
        Stage.answers_of_looks hlooks, hbegun, Stage.owed_running, List.map_cons, List.sum_cons,
        List.map_singleton, List.sum_singleton, ← hprice, List.length_nil]
      omega
  | @publishes f frames y =>
      have hbegun : Thread.begun ⟨f :: frames, .running (.done y)⟩
          ⟨frames, .fulfilling f (S.place y)⟩ = [] := by simp [Thread.begun]
      rw [Weight.owed_of, Weight.owed_of, Stage.owed_of_call? rfl, hbegun, Stage.owed_running,
        hP.done, List.map_cons, List.sum_cons]
      simp only [Stage.answers, List.map_nil, List.sum_nil, List.length_nil]
      omega
  | undoes hfails => exact absurd hw.1.allowed (Traceable.not_reliable hR hst hfails)
  | fulfils => exact hcall rfl rfl rfl
  | succeeds => exact hcall rfl rfl rfl
  | failed => exact absurd hst.1.allowed hst.2
  | reports =>
      have hdeliver := hst.1.owed_deliver hP hw hst.2
      rw [Weight.owed_of, Weight.owed_of, Thread.begun_same, Stage.owed_reporting]
      simp only [Stage.answers, List.map_nil, List.sum_nil, List.length_nil]
      omega
  | reportsFailure => exact absurd hst.1.allowed hst.2

end Owed

/-! ### The sum over all threads -/

theorem State.thread_of_not_mem (h : t ∉ Dictionary.names s.threads) : s.thread t = .atRest := by
  rw [State.thread, (Dictionary.find?_eq_none_iff _ _).2 h, Option.getD_none]

/-- The sum over all threads is one over any of their names, the others being at rest. -/
theorem Weight.total_eq_sum (w : Weight ι σ ε ν) (hnodup : (Dictionary.names s.threads).Nodup)
    {U : Finset ThreadId} (hU : ∀ u ∈ Dictionary.names s.threads, u ∈ U) :
    w.total s = ∑ u ∈ U, w.of (s.thread u) := by
  have hmap : s.threads.map (fun p => w.of p.2)
      = (Dictionary.names s.threads).map fun u => w.of (s.thread u) := by
    rw [Dictionary.names, List.map_map]
    refine List.map_congr_left fun p hp => ?_
    rw [Function.comp_apply,
      State.thread_of_find? ((Dictionary.mem_iff_find? hnodup p.1 p.2).1 hp)]
  rw [Weight.total, hmap, ← List.sum_toFinset _ hnodup]
  refine Finset.sum_subset (fun u hu => hU u (List.mem_toFinset.1 hu)) fun u _ hu => ?_
  rw [State.thread_of_not_mem fun h => hu (List.mem_toFinset.2 h), w.atRest]

/-- **A sum after one thread has moved.** -/
theorem Weight.total_motion (w : Weight ι σ ε ν) (hs : Listed s) (hs' : Listed s')
    (hm : Motion R t new s s') :
    w.total s' + w.of (s.thread t) = w.total s + w.of (s'.thread t) := by
  let U := insert t ((Dictionary.names s.threads).toFinset ∪ (Dictionary.names s'.threads).toFinset)
  have ht : t ∈ U := Finset.mem_insert_self _ _
  have hbeside : ∑ u ∈ U.erase t, w.of (s'.thread u) = ∑ u ∈ U.erase t, w.of (s.thread u) := by
    refine Finset.sum_congr rfl fun u hu => ?_
    rcases hm.beside u (Finset.ne_of_mem_erase hu) with h | h
    · rw [h]
    · rw [h, w.notify]
  rw [w.total_eq_sum hs.threads (U := U) (fun u hu => by simp [U, hu]),
    w.total_eq_sum hs'.threads (U := U) (fun u hu => by simp [U, hu]),
    ← Finset.add_sum_erase U _ ht, ← Finset.add_sum_erase U _ ht, hbeside]
  omega

/-! ### The answers of a run -/

/-- No construction begins where none is new. -/
theorem begun_eq_nil (hs : Legal s) (hs' : Legal s')
    (h : ∀ k u q, Dictionary.find? k s'.store.table.entries = some (.pending u q) →
      Dictionary.find? k s.store.table.entries = some (.pending u q)) : begun s s' = [] := by
  refine List.eq_nil_iff_forall_not_mem.2 fun k hk => ?_
  obtain ⟨⟨u, q, he⟩, hnone⟩ := (mem_begun_iff hs hs').1 hk
  exact hnone ⟨u, q, h k u q he⟩

/-- The constructions that an event begins are those of the thread that it moves. -/
theorem Motion.begun (hs : Legal s) (hs' : Legal s') (hm : Motion R t new s s') :
    begun s s' = (s.thread t).begun (s'.thread t) := by
  have hmoved := hm.moved
  generalize s.thread t = th at hmoved
  generalize s'.thread t = th' at hmoved
  have hsame : Preserves s.store s'.store → Registry.begun s s' = [] := fun hp =>
    begun_eq_nil hs hs' fun k u q h => by rwa [hp.entries] at h
  have hless : ∀ {frames frames' : List (Frame ι σ ε ν)} {stage stage' : Stage ι σ ε ν},
      frames'.length ≤ frames.length → Thread.begun ⟨frames, stage⟩ ⟨frames', stage'⟩ = [] := by
    intro frames frames' stage stage' h
    rw [Thread.begun, Nat.sub_eq_zero_of_le h, List.take_zero, List.map_nil]
  cases hmoved with
  | @claims frames stage c factory f t hlooks hf hnone hfactory he =>
      subst hf
      have hkeys : ∀ k, k ∈ Registry.begun s s' ↔ k ∈ [f.call.key] := by
        intro k
        rw [mem_begun_iff hs hs', List.mem_singleton]
        by_cases hk : f.call.key = k
        · subst hk
          simp [he, hnone]
        · simp [he, hk, Ne.symm hk]
      have hnodup : (Registry.begun s s').Nodup := hs'.nodup_keys.filter _
      have hperm := (List.perm_ext_iff_of_nodup hnodup (List.nodup_singleton _)).2 hkeys
      simp [List.perm_singleton.1 hperm, Thread.begun]
  | publishes he =>
      rw [hless (by simp)]
      refine begun_eq_nil hs hs' fun k u q h => ?_
      rw [he] at h
      split at h
      · cases h
      · exact h
  | undoes _ he =>
      rw [hless (by simp)]
      refine begun_eq_nil hs hs' fun k u q h => ?_
      rw [he] at h
      split at h
      · cases h
      · exact h
  | stays _ hp => rw [hsame hp, hless (Nat.le_refl _)]
  | arrives hp => rw [hsame hp, hless (Nat.zero_le _)]
  | misled _ hp => rw [hsame hp, hless (Nat.zero_le _)]
  | awaits _ hp => rw [hsame hp, hless (Nat.zero_le _)]
  | arrived _ hp => rw [hsame hp, hless (Nat.le_refl _)]
  | goes hp => rw [hsame hp, hless (Nat.le_refl _)]
  | asks hp => rw [hsame hp, hless (Nat.le_refl _)]
  | misasks _ hp => rw [hsame hp, hless (Nat.le_refl _)]
  | refused _ hp => rw [hsame hp, hless (Nat.le_refl _)]
  | hits _ hp => rw [hsame hp, hless (Nat.le_refl _)]
  | defers hp => rw [hsame hp, hless (Nat.le_refl _)]
  | sleeps hp => rw [hsame hp, hless (Nat.le_refl _)]
  | fulfils hp => rw [hsame hp, hless (Nat.le_refl _)]
  | succeeds hp => rw [hsame hp, hless (Nat.le_refl _)]
  | failed hp => rw [hsame hp, hless (Nat.le_refl _)]
  | reports hp => rw [hsame hp, hless (Nat.le_refl _)]
  | reportsFailure hp => rw [hsame hp, hless (Nat.le_refl _)]

/-- An answer is delivered in the step that reports it. -/
theorem deliver_of_step {o : Outcome} {h : Handle} (hth : (s.thread t).stage = .reporting c o h)
    (hstep : Registry.step R t s = some s') : (s'.thread t).stage = c.deliver (.ok h) := by
  rw [step_eq_stepThread] at hstep
  simp only [stepThread, hth, report, Option.some.injEq] at hstep
  rw [← hstep, State.thread_put_self]

section Resolves

variable {ahead : Program ι σ ε ν → Nat} {cost : Key → Nat}

/-- **What an event does to the answers and to what is owed.** -/
theorem Event.resolves (hR : Reliable R D D) (hP : Priced R D ahead cost) (hs : Session R rs ks s)
    (hrs : ∀ r ∈ rs, D r) (hnew : ∀ r ∈ new, D r) (he : Event R s new s') :
    s'.store.stats.resolves + (Weight.owed ahead).total s' = s.store.stats.resolves
      + (Weight.owed ahead).total s + new.length + ((Registry.begun s s').map cost).sum := by
  have hlegal := hs.reachable.legal
  have hlegal' := hlegal.changes he.next.takes.changes
  have ht := hs.traceable hR hrs
  -- the thread that moves answers the call that it reports
  have hmoves : ∀ t, Motion R t new s s' →
      s'.store.stats.resolves = s.store.stats.resolves + (s.thread t).stage.answers →
      (∀ c o h, (s.thread t).stage = .reporting c o h →
        (s'.thread t).stage = c.deliver (.ok h)) →
      s'.store.stats.resolves + (Weight.owed ahead).total s' = s.store.stats.resolves
        + (Weight.owed ahead).total s + new.length + ((Registry.begun s s').map cost).sum := by
    intro t hm hstats hreport
    have htotal := (Weight.owed ahead).total_motion hlegal.listed hlegal'.listed hm
    have howed := hm.moved.owed hR hP hnew (hlegal.linked t) (ht.woven t) (ht.suits t) hreport
    rw [← hm.begun hlegal hlegal'] at howed
    omega
  -- no thread moves, and nothing is counted
  have haside : s'.threads = s.threads → s'.store.stats = s.store.stats → new = [] →
      s'.store.stats.resolves + (Weight.owed ahead).total s' = s.store.stats.resolves
        + (Weight.owed ahead).total s + new.length + ((Registry.begun s s').map cost).sum := by
    rintro hthreads hstats rfl
    have hbegun : Registry.begun s s' = [] := by
      have hsame : s'.constructions = s.constructions := by
        rw [State.constructions, hthreads, State.constructions]
      rw [Registry.begun, hsame]
      exact List.filter_eq_nil_iff.2 fun k hk => by simpa using hk
    rw [hstats, Weight.total_congr _ hthreads, hbegun]
    rfl
  have hrest : ∀ t, s.isIdle t = true → (s.thread t).stage.answers = 0 ∧
      ∀ c o h, (s.thread t).stage ≠ .reporting c o h := by
    intro t hidle
    have hr := State.isResting_of_isIdle hidle
    refine ⟨Stage.answers_of_outside (Stage.isOutside_of_resting hr), fun c o h hst => ?_⟩
    rw [hst] at hr
    cases hr
  cases he with
  | step t hstep =>
      refine hmoves t (motion_step hstep) ?_ fun c o h hst => deliver_of_step hst hstep
      rw [stats_of_step hstep, Stage.resolves_counted]
  | call t r hidle =>
      refine hmoves t (motion_call r hidle) ?_ fun c o h hst => absurd hst ((hrest t hidle).2 c o h)
      rw [(hrest t hidle).1, State.call, store_enter, Nat.add_zero]
  | await t h hidle =>
      refine hmoves t ?_ ?_ fun c o h hst => absurd hst ((hrest t hidle).2 c o h)
      · exact .put rfl rfl (.awaits h (.refl _) (State.isResting_of_isIdle hidle))
      · rw [(hrest t hidle).1]
        rfl
  | passGate t =>
      by_cases hgate : ∃ frames name next, s.thread t = ⟨frames, .running (.gate name next)⟩
      · obtain ⟨frames, name, next, hth⟩ := hgate
        have hpass : s.passGate t = s.put t frames (.running next) := by
          rw [State.passGate_eq, hth]
        refine hmoves t ?_ ?_ fun c o h hst => ?_
        · rw [hpass]
          exact .put rfl hth (.goes (.refl _) (.gate name next))
        · rw [hpass, hth]
          rfl
        · rw [hth] at hst
          cases hst
      · have hpass : s.passGate t = s := State.passGate_of_not_gate fun name next hst =>
          hgate ⟨(s.thread t).frames, name, next, by rw [← hst]⟩
        exact haside (by rw [hpass]) (by rw [hpass]) rfl
  | openGate name => exact haside rfl rfl rfl
  | note f => exact haside rfl rfl rfl
  | clone q => exact haside rfl rfl rfl
  | drop q => exact haside rfl rfl rfl

/-- **The answers are the calls from outside and those of the factories that were started**, less
what is owed. -/
theorem Session.resolves (hR : Reliable R D D) (hP : Priced R D ahead cost)
    (hs : Session R rs ks s) (hrs : ∀ r ∈ rs, D r) :
    s.store.stats.resolves + (Weight.owed ahead).total s = rs.length + (ks.map cost).sum := by
  induction hs with
  | initial => rfl
  | event hs he ih =>
      obtain ⟨hnew, hold⟩ := List.forall_mem_append.1 hrs
      have hevent := he.resolves hR hP hs hold hnew
      have hbefore := ih hold
      rw [List.length_append, List.map_append, List.sum_append]
      omega

/-- At rest nothing is owed. -/
theorem AtRest.resolves (hR : Reliable R D D) (hP : Priced R D ahead cost) (hs : AtRest R rs s)
    (hsession : Session R rs ks s) (hrs : ∀ r ∈ rs, D r) :
    s.store.stats.resolves = rs.length + (ks.map cost).sum := by
  have hnone : (Weight.owed ahead).total s = 0 := by
    refine Weight.total_eq_zero _ hs.reachable.legal.listed.threads fun t => ?_
    rw [Weight.owed_of, Stage.owed_of_outside (hs.outside t),
      (hs.reachable.legal.linked t).frames_of_outside (hs.outside t)]
    rfl
  rw [← hsession.resolves hR hP hrs, hnone, Nat.add_zero]

end Resolves

/-! ### Factories that ask in order -/

/-- The calls that a program makes if all of them are answered with handles, as far as it neither
takes notes nor looks at the registry. -/
def Program.calls : Program ι σ ε ν → Nat
  | .resolve _ next => (next (.ok default)).calls + 1
  | .say _ next | .gate _ next => next.calls
  | .done _ | .fail _ | .panic _ | .note _ _ | .inspect _ => 0

theorem Program.calls_keep (rs : List Request) (f : List Handle → Yield ι) :
    (keep rs fun hs => .done (f hs) : Program ι σ ε ν).calls = rs.length := by
  induction rs generalizing f with
  | nil => rfl
  | cons r rs ih => exact congrArg (· + 1) (ih fun hs => f (default :: hs))

/-- Along a path without errors, the calls that were made and those to come are all the requests. -/
theorem Program.Leads.calls_of_keep {A : Request → Answer ε → Prop} {f : List Handle → Yield ι}
    {log : List (Request × Answer ε)} {p : Program ι σ ε ν}
    (h : (keep rs fun hs => .done (f hs) : Program ι σ ε ν).Leads A log p)
    (hlog : ∀ r e, (r, .error e) ∉ log) : p.calls + log.length = rs.length := by
  induction rs generalizing f log with
  | nil =>
      cases h
      rfl
  | cons r rs ih =>
      rw [keep_cons] at h
      rcases h.of_request with ⟨rfl, rfl⟩ | ⟨x, rest, -, rfl, hrest⟩ | ⟨e, rfl, -⟩
      · exact calls_keep (r :: rs) f
      · have hcalls := ih (f := fun hs => f (x :: hs)) hrest
          fun r e hr => hlog r e (List.mem_cons_of_mem _ hr)
        simp only [List.length_cons]
        omega
      · exact absurd (List.mem_singleton.2 rfl) (hlog r e)

/-- **Factories that ask in order make one call for each of their requests.** -/
theorem Priced.of_keep (hR : Reliable R D D) {cost : Key → Nat}
    (h : ∀ {r : Request} {k : Key} {factory : Factory ι σ ε ν}, D r → r.key = .ok k →
      Dictionary.find? r.identifier.name R.factories = some factory →
      ∃ (rs : List Request) (f : List Handle → Yield ι),
        factory.build ⟨r.identifier, r.context, k⟩ = .keep rs (fun hs => .done (f hs)) ∧
        rs.length = cost k) : Priced R D Program.calls cost where
  done _ := rfl
  path {r k log p} hD hk hp := by
    have herror : ∀ r' e, (r', .error e) ∉ log := by
      intro r' e hmem
      obtain ⟨log₀, next, hp'⟩ := hp.asked hmem
      exact hp.answered _ hmem (hR.within hD hp')
    obtain ⟨key, factory, hk', hf, hl⟩ := hp
    obtain rfl : k = key := Except.ok.inj (hk.symm.trans hk')
    obtain ⟨rs, f, hbuild, hlen⟩ := h hD hk hf
    rw [hbuild] at hl
    rw [hl.calls_of_keep herror, hlen]

end SchemaGraph.Registry
