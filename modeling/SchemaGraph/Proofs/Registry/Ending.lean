/-
**Calls of a single thread come to an end.**

Threads cannot go on for ever, so a thread that goes on by itself comes to a state in which it has
no step.  It is not asleep there, since no other thread constructs anything, and it stands at no
gate.  So its call is over, however deep the thread was in it when the others stopped.

Main results:

* `exists_halt` — a thread that cannot go on for ever comes to a state in which it has no step;
* `Own.replies` — **a single thread that is at work on a request replies to it**;
* `Own.comes_to_rest` — so does one that is in the middle of a call;
* `resolve_ends` — **a call of a single thread is answered, given steps enough**.
-/

import SchemaGraph.Proofs.Registry.Alone
import SchemaGraph.Proofs.Registry.Bounded

set_option autoImplicit false

namespace SchemaGraph.Registry

variable {ι σ ε ν : Type} {R : Setup ι σ ε ν} {s : State ι σ ε ν} {t : ThreadId} {K : List Key}
  {Q : Request → Prop} {r : Request}

/-! ### A thread that has no step -/

theorem exists_halt (h : Acc (Follows R) s) (t : ThreadId) :
    ∃ n, step R t (runThread R t n s) = none := by
  induction h with
  | intro s _ ih =>
      cases hstep : step R t s with
      | none => exact ⟨0, hstep⟩
      | some s' =>
          obtain ⟨n, hn⟩ := ih s' ⟨t, hstep⟩
          exact ⟨n + 1, by rwa [runThread_succ, hstep]⟩

/-- A thread alone is outside calls when it has no step and stands at no gate. -/
theorem Own.outside_of_no_step (ho : Own R t s) (hgate : s.closedGate? t = none)
    (hnone : Registry.step R t s = none) : (s.thread t).stage.isOutside = true := by
  rcases ho.reachable.legal.cases_of_no_step hnone with h | ⟨g, h⟩ | ⟨k, h⟩ | ⟨q, h, -⟩
  · exact Stage.isOutside_of_resting h
  · rw [hgate] at h
    cases h
  · rw [ho.awake] at h
    cases h
  · cases hst : (s.thread t).stage <;> simp [hst, Stage.awaits, Stage.isOutside] at h ⊢

/-- When no call is in progress, none is for another request. -/
theorem Reachable.stems (hs : Reachable R s) (hout : ∀ t, (s.thread t).stage.isOutside = true) :
    Stems R Q s where
  reachable := hs
  woven t := by
    rw [(hs.legal.linked t).frames_of_outside (hout t)]
    trivial
  suits t := by
    have hout := hout t
    cases hst : (s.thread t).stage <;> first | trivial | (rw [hst] at hout; cases hout)

/-! ### The reply of a single thread -/

theorem State.reply_ne_unfinished (hlisted : t ∈ Dictionary.names s.threads)
    (h : (∃ a, (s.thread t).stage = .returned a) ∨
      ∃ message, (s.thread t).stage = .panicked message) : s.reply t ≠ .unfinished := by
  obtain ⟨th, hfind⟩ := Option.isSome_iff_exists.1 ((Dictionary.find?_isSome_iff _ _).2 hlisted)
  rw [State.thread_of_find? hfind] at h
  rcases h with ⟨a, h⟩ | ⟨message, h⟩ <;> simp [State.reply, State.stage?, hfind, h]

theorem State.mem_names_of_thread (h : s.thread t ≠ .atRest) : t ∈ Dictionary.names s.threads := by
  rw [← Dictionary.find?_isSome_iff, State.find?_of_thread rfl h]
  rfl

/-- **A single thread that is at work on a request replies to it**, given steps enough. -/
theorem Own.replies (ho : Own R t s) (hQ : Finitary R K Q) (hs : Stems R Q s)
    (hlisted : t ∈ Dictionary.names s.threads)
    (hr : Replying (fun _ => False) s r (s.thread t)) :
    ∃ n, (Registry.runThread R t n s).reply t ≠ .unfinished := by
  obtain ⟨n, hnone⟩ := exists_halt (hs.acc hQ) t
  obtain ⟨rs, ks, hsession⟩ := ho.reachable.session
  have hR : Reliable R (fun _ => True) fun _ => False := .nothing fun _ _ => trivial
  have hs' := hs.steps hQ (steps_runThread R t n s)
  have hout := (ho.runThread n).outside_of_no_step (hs'.closedGate?_eq_none hQ t) hnone
  refine ⟨n, State.reply_ne_unfinished ?_ ?_⟩
  · exact names_subset_of_changes (run_runThread R t n s).changes hlisted
  · cases (runThread_replying hR hsession (fun _ _ => trivial) hr n).2 with
    | working hroot =>
        rw [(hs'.reachable.legal.linked t).root?_eq_none hout] at hroot
        cases hroot
    | answered a ha => exact Or.inl ⟨a, ha⟩
    | broken message hm => exact Or.inr ⟨message, hm⟩

/-- **A single thread that is in the middle of a call comes to its reply**, when each request can
lead to finitely many keys only. -/
theorem Own.comes_to_rest (ho : Own R t s) (hin : (s.thread t).stage.isOutside = false)
    (hfinite : ∀ r, ∃ K Q, Q r ∧ Finitary R K Q) :
    ∃ n, (Registry.runThread R t n s).reply t ≠ .unfinished := by
  obtain ⟨rs, ks, hsession⟩ := ho.reachable.session
  obtain ⟨K, Q, hrs, hQ⟩ := exists_finitary_of_forall fun r (_ : r ∈ rs) => hfinite r
  obtain ⟨r, hr⟩ := (ho.reachable.legal.linked t).exists_root hin
  have hlisted : t ∈ Dictionary.names s.threads := by
    refine State.mem_names_of_thread fun h => ?_
    rw [h] at hin
    cases hin
  exact ho.replies hQ (hsession.stems hQ hrs) hlisted (.working hr)

/-- **A call of a single thread is answered, given steps enough**, or it breaks off.  No call is in
progress then, and more steps change nothing. -/
theorem resolve_ends (hQ : Finitary R K Q) (hr : Q r) (hs : Reachable R s)
    (hout : ∀ t, (s.thread t).stage.isOutside = true) (hidle : s.isIdle 0 = true) :
    ∃ n, (resolve R n r s).1 ≠ .unfinished ∧
      (∀ t, ((resolve R n r s).2.thread t).stage.isOutside = true) ∧
      (resolve R n r s).2.isIdle 0 = true ∧
      ∀ fuel, n ≤ fuel → resolve R fuel r s = resolve R n r s := by
  have hown := Own.call hs hout hidle r
  have hstems : Stems R Q (s.call R 0 r) :=
    (hs.stems hout).event hQ (List.forall_mem_singleton.2 hr) (.call 0 r hidle)
  have hmoved := (motion_call (R := R) r hidle).moved
  have hlisted : 0 ∈ Dictionary.names (s.call R 0 r).threads := by
    refine State.mem_names_of_thread fun h => ?_
    rw [h] at hmoved
    cases hmoved
  obtain ⟨n, hn⟩ := hown.replies hQ hstems hlisted (hmoved.begins (.nothing fun _ _ => trivial))
  have hidle' := State.isIdle_of_reply hn
  have hnone := step_eq_none_of_thread (R := R) (State.isResting_of_isIdle hidle')
  refine ⟨n, hn, (hown.runThread n).outside hidle', hidle', fun fuel hfuel => ?_⟩
  obtain ⟨m, rfl⟩ := Nat.exists_eq_add_of_le hfuel
  simp only [resolve, runThread_add, runThread_of_none hnone]

end SchemaGraph.Registry
