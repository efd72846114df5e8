/-
**Requests to a registry of schema types.**

A registry of schema types is asked by one thread at a time, and each request is run to its end
within a given number of steps.

Main definitions:

* `request` — a request, answered by a handle;
* `requestInstance` — a request, answered by the instance;
* `prewarm` — several requests in order, up to the first that fails.

Main results:

* `request_eq_ok_iff` — when a request is granted;
* `prewarm_cons_eq`, `prewarm_cons_eq_ok` — what several requests come to, by the first of them.
-/

import SchemaGraph.Registry.Run
import SchemaGraph.Schema.Error
import SchemaGraph.Schema.Generated

set_option autoImplicit false

namespace SchemaGraph

open Registry (Handle InstanceId Reply Request)

/-- The answer of a call. -/
def replyResult : Reply TypeFault → Except SchemaError Handle
  | .answer (.ok h) => .ok h
  | .answer (.error e) => .error (.registry e)
  | .panicked message => .error (.panicked message)
  | .unfinished => .error .unfinished

/-- A request, answered by a handle. -/
def request (R : TypeSetup) (fuel : Nat) (r : Request) (s : TypeState) :
    Except SchemaError Handle × TypeState :=
  let (reply, s) := Registry.resolve R fuel r s
  (replyResult reply, s)

/-- A request, answered by the instance. -/
def requestInstance (R : TypeSetup) (fuel : Nat) (r : Request) (s : TypeState) :
    Except SchemaError InstanceId × TypeState :=
  let (answer, s) := request R fuel r s
  (answer.bind fun h => (h.get s.store).mapError .registry, s)

/-- Several requests in order; none is made after one that fails. -/
def prewarm (R : TypeSetup) (fuel : Nat) :
    List Request → TypeState → Except SchemaError (List Handle) × TypeState
  | [], s => (.ok [], s)
  | r :: rs, s =>
    match request R fuel r s with
    | (.error e, s) => (.error e, s)
    | (.ok h, s) =>
      let (answer, s) := prewarm R fuel rs s
      (answer.map (h :: ·), s)

theorem replyResult_eq_ok_iff {reply : Reply TypeFault} {h : Handle} :
    replyResult reply = .ok h ↔ reply = .answer (.ok h) := by
  cases reply with
  | answer a => cases a <;> simp [replyResult]
  | panicked message => simp [replyResult]
  | unfinished => simp [replyResult]

theorem request_eq_ok_iff {R : TypeSetup} {fuel : Nat} {r : Request} {s s' : TypeState}
    {h : Handle} :
    request R fuel r s = (.ok h, s') ↔ Registry.resolve R fuel r s = (.answer (.ok h), s') := by
  simp [request, Prod.ext_iff, replyResult_eq_ok_iff]

/-- Several requests are answered when the first one is refused, or else with what the others are
answered with. -/
theorem prewarm_cons_eq {R : TypeSetup} {fuel : Nat} {r : Request} {rs : List Request}
    {s s' : TypeState} {answer : Except SchemaError (List Handle)}
    (h : prewarm R fuel (r :: rs) s = (answer, s')) :
    (∃ e, request R fuel r s = (.error e, s') ∧ answer = .error e) ∨
      ∃ x s₁ others, request R fuel r s = (.ok x, s₁) ∧
        prewarm R fuel rs s₁ = (others, s') ∧ answer = others.map (x :: ·) := by
  rcases hfirst : request R fuel r s with ⟨first, s₁⟩
  cases first with
  | error e =>
      simp only [prewarm, hfirst, Prod.mk.injEq] at h
      obtain ⟨rfl, rfl⟩ := h
      exact Or.inl ⟨e, rfl, rfl⟩
  | ok x =>
      rcases hothers : prewarm R fuel rs s₁ with ⟨others, s₂⟩
      simp only [prewarm, hfirst, hothers, Prod.mk.injEq] at h
      obtain ⟨rfl, rfl⟩ := h
      exact Or.inr ⟨x, s₁, others, rfl, hothers, rfl⟩

/-- Several requests are granted when each of them is. -/
theorem prewarm_cons_eq_ok {R : TypeSetup} {fuel : Nat} {r : Request} {rs : List Request}
    {s s' : TypeState} {xs : List Handle} (h : prewarm R fuel (r :: rs) s = (.ok xs, s')) :
    ∃ x s₁ ys, request R fuel r s = (.ok x, s₁) ∧ prewarm R fuel rs s₁ = (.ok ys, s') ∧
      xs = x :: ys := by
  rcases prewarm_cons_eq h with ⟨e, -, he⟩ | ⟨x, s₁, others, hfirst, hothers, hxs⟩
  · cases he
  · cases others with
    | error e => cases hxs
    | ok ys => exact ⟨x, s₁, ys, hfirst, hothers, Except.ok.inj hxs⟩

end SchemaGraph
