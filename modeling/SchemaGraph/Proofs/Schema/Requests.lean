/-
**What requests come to.**

If there is a type for all that is used by what is asked for from outside, every request of a run can
be relied on.  Then requests that are made in order are granted, one and all.  Whatever a call from
outside returns is ready, if calls wait for the constructions of other threads.

Main results:

* `reliable_of_wellReferenced` — **the requests to a well referenced set can be relied on**;
* `ok_of_prewarm`, `exists_of_prewarm` — requests in order, all of which are granted;
* `ready_of_returned`, `ready_of_request` — what is returned is ready.
-/

import SchemaGraph.Proofs.Schema.History
import SchemaGraph.Proofs.Schema.References

set_option autoImplicit false

namespace SchemaGraph

open Registry (Handle Request Options Answer ThreadId Possible Apart Reliable AtRest Session)

variable {nodes : NodeTypes} {options : Options} {rs new : List Request} {s s' : TypeState}
  {r : Request} {fuel : Nat} {x : Handle}

/-! ### Requests that can be relied on -/

/-- What a run asks for is wanted by a root, if all that is asked for from outside is one. -/
theorem exists_wanted (hs : nodes.Sound)
    (hroots : ∀ r ∈ rs, ∃ root, nodes.Stands r root ∧ nodes.Whole root)
    (hr : Possible (nodes.setup options) rs r) :
    ∃ root, nodes.Whole root ∧ nodes.Wanted options root rs r := by
  induction hr with
  | root hr =>
      obtain ⟨root, hstands, hw⟩ := hroots _ hr
      exact ⟨root, hw, .root hr, root, .refl, hstands⟩
  | asked _ hp ih =>
      obtain ⟨root, hw, hwanted⟩ := ih
      exact ⟨root, hw, hwanted.asked hs hp⟩

/-- If there is a type for all that is used by what is asked for from outside, all requests of a run
can be relied on. -/
theorem reliable_of_roots (hs : nodes.Sound)
    (hroots : ∀ r ∈ rs, ∃ root, nodes.Stands r root ∧ nodes.Whole root)
    (hrs : ∀ r ∈ rs, r.identifier.Distinct) (ha : Apart (nodes.setup options) rs) :
    Reliable (nodes.setup options) (Possible (nodes.setup options) rs)
      (Possible (nodes.setup options) rs) where
  asks hr hp := .asked hr (hp.mono fun _ _ => Registry.Permitted.weaken)
  sound hr _ _ _ := hr
  served hr := by
    obtain ⟨root, hw, hwanted⟩ := exists_wanted hs hroots hr
    exact (NodeTypes.reliable hs hw hrs ha).served hwanted
  keyed hr := by
    obtain ⟨root, hw, hwanted⟩ := exists_wanted hs hroots hr
    exact (NodeTypes.reliable hs hw hrs ha).keyed hwanted
  steady hr hp := by
    obtain ⟨root, hw, hwanted⟩ := exists_wanted hs hroots hr
    refine (NodeTypes.reliable hs hw hrs ha).steady hwanted (hp.mono fun r a ha => ?_)
    cases a with
    | ok x => exact ha
    | error e => exact fun hwanted => ha hwanted.1
  within hr hp := .asked hr (hp.mono fun _ _ => Registry.Permitted.weaken)

/-- **The requests for known names of a well referenced set can be relied on.** -/
theorem reliable_of_wellReferenced (hn : nodes.Accepted) (hw : nodes.WellReferenced)
    (hrs : ∀ r ∈ rs, ∃ name, nodes.Knows name ∧ r = nodes.reference (.named name))
    (ha : Apart (nodes.setup options) rs) :
    Reliable (nodes.setup options) (Possible (nodes.setup options) rs)
      (Possible (nodes.setup options) rs) := by
  refine reliable_of_roots hn.sound (fun r hr => ?_) (fun r hr => ?_) ha
  · obtain ⟨name, hk, rfl⟩ := hrs r hr
    exact ⟨_, .refl _, NodeTypes.whole_of_wellReferenced hn hw hk⟩
  · obtain ⟨name, -, rfl⟩ := hrs r hr
    exact nodes.distinct_reference _

section Requests

variable {R : TypeSetup} {V : Request → Prop} (hR : Reliable R V V)

include hR

/-- A request that can be relied on is granted. -/
theorem ok_of_request (hrest : AtRest R rs s) (hrs : ∀ r ∈ rs, V r) (hr : V r)
    {answer : Except SchemaError Handle} (h : request R fuel r s = (answer, s'))
    (hanswer : answer ≠ .error .unfinished) : ∃ x, answer = .ok x := by
  obtain ⟨ks, hsession⟩ := hrest.session
  rcases hres : Registry.resolve R fuel r s with ⟨reply, s''⟩
  obtain ⟨-, hholds, hbroken⟩ := Registry.resolve_reply hR hsession hrs hr hrest.idle hres
  simp only [request, hres, Prod.mk.injEq] at h
  obtain ⟨rfl, rfl⟩ := h
  cases reply with
  | answer a =>
      cases a with
      | ok x => exact ⟨x, rfl⟩
      | error e => exact absurd hr (hholds _ rfl)
  | panicked message => exact absurd hr (hbroken _ rfl)
  | unfinished => exact absurd rfl hanswer

/-- So are several in order. -/
theorem ok_of_prewarm (hrest : AtRest R rs s) (hrs : ∀ r ∈ rs, V r) (hnew : ∀ r ∈ new, V r)
    {answer : Except SchemaError (List Handle)} (h : prewarm R fuel new s = (answer, s'))
    (hanswer : answer ≠ .error .unfinished) : ∃ xs, answer = .ok xs := by
  induction new generalizing rs s answer s' with
  | nil => exact ⟨[], (congrArg Prod.fst h).symm⟩
  | cons r new ih =>
      obtain ⟨hr, hnew⟩ := List.forall_mem_cons.1 hnew
      rcases prewarm_cons_eq h with ⟨e, hreq, rfl⟩ | ⟨x, s₁, others, hreq, hlast, rfl⟩
      · obtain ⟨x, hx⟩ := ok_of_request hR hrest hrs hr hreq
          fun he => hanswer (congrArg _ (Except.error.inj he))
        cases hx
      · have hothers : others ≠ .error .unfinished := by
          rintro rfl
          exact hanswer rfl
        obtain ⟨xs, rfl⟩ := ih (rest_of_request hrest hreq (by simp))
          (List.forall_mem_cons.2 ⟨hr, hrs⟩) hnew hlast hothers
        exact ⟨x :: xs, rfl⟩

end Requests

/-! ### Requests that were granted -/

/-- When several requests in order are granted, each of them was. -/
theorem exists_of_prewarm {R : TypeSetup} {xs : List Handle} (hrest : AtRest R rs s)
    (h : prewarm R fuel new s = (.ok xs, s')) : ∀ r ∈ new, ∃ rs₁ s₁ s₂ x, rs₁ ⊆ new ++ rs ∧
      AtRest R rs₁ s₁ ∧ request R fuel r s₁ = (.ok x, s₂) := by
  induction new generalizing rs s s' xs with
  | nil => exact fun r hr => absurd hr List.not_mem_nil
  | cons r new ih =>
      obtain ⟨x, s₁, ys, hreq, hlast, -⟩ := prewarm_cons_eq_ok h
      refine List.forall_mem_cons.2 ⟨⟨rs, s, s₁, x, ?_, hrest, hreq⟩, fun r' hr' => ?_⟩
      · exact List.subset_append_right _ _
      · obtain ⟨rs₁, s₁', s₂', y, hsub, hat⟩ :=
          ih (rest_of_request hrest hreq (by simp)) hlast r' hr'
        exact ⟨rs₁, s₁', s₂', y, List.Subset.trans hsub List.perm_middle.subset, hat⟩

/-- A handle that a call from outside has returned is ready, if calls wait for the constructions of
other threads. -/
theorem ready_of_returned {R : TypeSetup} {ks : List Key} {t : ThreadId}
    (hblock : R.options.block = true) (hsession : Session R rs ks s)
    (hst : (s.thread t).stage = .returned (.ok x)) :
    ∃ i, Dictionary.find? x.key s.store.table.entries = some (.ready i) := by
  have hresting : (s.thread t).stage.isResting = true := by
    rw [hst]
    rfl
  have hframes := (hsession.reachable.legal.linked t).frames_eq_nil hresting
  have hdirect := hsession.reachable.direct hblock t hframes
  rw [hst] at hdirect
  obtain ⟨i, -, hi⟩ := hdirect
  exact ⟨i, hi⟩

/-- So is what a request is answered with, under the key of what was asked for. -/
theorem ready_of_request {R : TypeSetup} (hblock : R.options.block = true)
    (hrest : AtRest R rs s) (h : request R fuel r s = (.ok x, s')) :
    ∃ i, r.key = .ok x.key ∧ Dictionary.find? x.key s'.store.table.entries = some (.ready i) := by
  have hres := request_eq_ok_iff.1 h
  obtain ⟨ks, hsession⟩ := hrest.session
  obtain ⟨⟨ks', hsession'⟩, hholds, -⟩ := Registry.resolve_reply (V := fun _ => True)
    (.nothing fun _ _ => trivial) hsession (fun _ _ => trivial) trivial hrest.idle hres
  obtain ⟨hreply, hs'⟩ := Prod.mk.inj hres
  have hst := Registry.State.stage_of_answer hreply
  obtain ⟨i, hi⟩ := ready_of_returned hblock hsession' (hs' ▸ hst)
  exact ⟨i, (hholds _ rfl).1, hi⟩

/-! ### Errors of requests -/

theorem request_ne_conflict {R : TypeSetup} {answer : Except SchemaError Handle}
    (h : request R fuel r s = (answer, s')) (name : String) :
    answer ≠ .error (.conflictingName name) := by
  rcases hres : Registry.resolve R fuel r s with ⟨reply, s''⟩
  simp only [request, hres, Prod.mk.injEq] at h
  obtain ⟨rfl, -⟩ := h
  cases reply with
  | answer a => cases a <;> simp [replyResult]
  | panicked message => simp [replyResult]
  | unfinished => simp [replyResult]

theorem prewarm_ne_conflict {R : TypeSetup} {answer : Except SchemaError (List Handle)}
    (h : prewarm R fuel new s = (answer, s')) (name : String) :
    answer ≠ .error (.conflictingName name) := by
  induction new generalizing s answer s' with
  | nil =>
      obtain rfl := congrArg Prod.fst h
      simp [prewarm]
  | cons r new ih =>
      rcases prewarm_cons_eq h with ⟨e, hreq, rfl⟩ | ⟨x, s₁, others, -, hlast, rfl⟩
      · exact fun he => request_ne_conflict hreq name (congrArg _ (Except.error.inj he))
      · have hothers := ih hlast
        cases others with
        | error e => exact fun he => hothers (congrArg _ (Except.error.inj he))
        | ok xs => simp [Except.map]

end SchemaGraph
