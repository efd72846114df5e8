/-
**Calls on a registry of node types end.**

Node types refer to each other in circles, so no construction is smaller than what it asks for.
What bounds a call is that no key is constructed inside its own construction, and that the objects
ask for finitely many types only: for those that stand in the definitions.  Wrappers may be given
from outside, but what they ask for is smaller than they are.  A failure removes keys again, and so
gives no new bound; it is enough that an error makes no request on its way out.

Main results:

* `NodeTypes.orderly_setup` — the factories of a registry of node types stop at the first error;
* `resolution_terminates` — **from every state in which no other thread is in a call, every call
  ends**, and what a thread in a call does on the way.
-/

import SchemaGraph.Proofs.Registry.Orderly
import SchemaGraph.Proofs.Schema.Built

set_option autoImplicit false

namespace SchemaGraph

open Registry (Request Options Program Reachable Own runThread)

variable {nodes : NodeTypes} {options : Options} {s : TypeState}

namespace NodeTypes

theorem Keeps.orderly {P : Request → Prop} {p : TypeProgram} (h : Keeps P p) : p.Orderly P := by
  cases h with
  | makes rs make hrs hp => exact hp ▸ Program.orderly_keep hrs fun hs => .new (make hs)
  | fails err hp => exact hp ▸ .fail err

/-- **The factories of a registry of node types stop at the first error.** -/
theorem orderly_setup (nodes : NodeTypes) (options : Options) :
    (nodes.setup options).Orderly nodes.Requests :=
  fun _ _ _ hf => (build_requests hf _).orderly

/-- What a wrapper asks for is smaller than the wrapper, and asked for in the same scope. -/
theorem Requests.smaller {r r' : Request} (h : nodes.Requests r r')
    (hname : r.identifier.name = listName ∨ r.identifier.name = nonNullName) :
    r'.context = r.context ∧ sizeOf r'.identifier < sizeOf r.identifier := by
  cases h with
  | stated hobject =>
      obtain hname | hname := hname <;> rw [hname] at hobject <;> exact absurd hobject (by decide)
  | wrapped _ hof => exact ⟨rfl, sizeOf_wrappedType hof⟩

end NodeTypes

/-- A call from outside does not break off. -/
theorem resolve_ne_panicked (hs : Reachable (nodes.setup options) s) (hidle : s.isIdle 0 = true)
    (r : Request) (fuel : Nat) (message : String) :
    (Registry.resolve (nodes.setup options) fuel r s).1 ≠ .panicked message := by
  intro hreply
  have hstart : ∀ message,
      ((s.call (nodes.setup options) 0 r).thread 0).stage ≠ .panicked message := by
    have hm := (Registry.motion_call (R := nodes.setup options) r hidle).moved
    generalize (s.call (nodes.setup options) 0 r).thread 0 = th at hm
    cases hm <;> nofun
  refine Registry.runThread_ne_panicked (nodes.orderly_setup options)
    (hs.next (.call 0 r hidle)) hstart fuel message ?_
  exact Registry.State.stage_of_panicked hreply

/-- **Calls on a registry of node types end**, from every state in which no other thread is in a
call.  When the thread is idle, whatever it asks for is answered, given steps enough, and it is idle
again; and when it is in the middle of a call, that call returns.  On the way the keys under
construction are distinct.  A construction of a node object or of the query object asks only for what
stands in the definitions, and a wrapper for something smaller in the same scope; each stops at the
first error.  Once an error is on its way out, it stays so: no request is made any more. -/
theorem resolution_terminates (ho : Own (nodes.setup options) 0 s) :
    (s.isIdle 0 = true → ∀ r, ∃ n a s', s'.isIdle 0 = true ∧ ∀ fuel, n ≤ fuel →
      Registry.resolve (nodes.setup options) fuel r s = (.answer a, s')) ∧
    ((s.thread 0).stage.isOutside = false → ∃ n a,
      ((runThread (nodes.setup options) 0 n s).thread 0).stage = .returned a) ∧
    ((s.thread 0).frames.map fun f => f.call.key).Nodup ∧
    (∀ f frames r next, s.thread 0 = ⟨f :: frames, .running (.resolve r next)⟩ →
      nodes.Requests f.call.request r ∧
      (f.call.request.identifier.name = listName ∨ f.call.request.identifier.name = nonNullName →
        r.context = f.call.request.context ∧
          sizeOf r.identifier < sizeOf f.call.request.identifier) ∧
      ∀ e, next (.error e) = .fail e) ∧
    ((s.thread 0).stage.isLeaving = true → ∀ n,
      ((runThread (nodes.setup options) 0 n s).thread 0).stage.isLeaving = true) := by
  have horderly := nodes.orderly_setup options
  refine ⟨fun hidle r => ?_, fun hin => ?_, ho.reachable.legal.owned.distinct 0, ?_,
    fun hl n => Registry.runThread_leaving horderly ho.reachable hl n⟩
  · obtain ⟨K, Q, hr, hQ⟩ := nodes.exists_finitary options r
    obtain ⟨n, hended, -, hidle', hfuel⟩ :=
      Registry.resolve_ends hQ hr ho.reachable (ho.outside hidle) hidle
    obtain ⟨a, ha⟩ : ∃ a, (Registry.resolve (nodes.setup options) n r s).1 = .answer a := by
      cases hreply : (Registry.resolve (nodes.setup options) n r s).1 with
      | answer a => exact ⟨a, rfl⟩
      | panicked message => exact absurd hreply (resolve_ne_panicked ho.reachable hidle r n message)
      | unfinished => exact absurd hreply hended
    exact ⟨n, a, _, hidle', fun fuel hle => by rw [hfuel fuel hle, ← ha]⟩
  · have hcall : ∀ message, (s.thread 0).stage ≠ .panicked message := by
      rintro message hst
      rw [hst] at hin
      cases hin
    obtain ⟨n, hn⟩ := ho.comes_to_rest hin (nodes.exists_finitary options)
    cases hreply : (runThread (nodes.setup options) 0 n s).reply 0 with
    | answer a => exact ⟨n, a, Registry.State.stage_of_answer hreply⟩
    | panicked message =>
        exact absurd (Registry.State.stage_of_panicked hreply)
          (Registry.runThread_ne_panicked horderly ho.reachable hcall n message)
    | unfinished => exact absurd hreply hn
  · intro f frames r next hth
    have hf := ho.reachable.orderly horderly 0
    rw [hth] at hf
    exact ⟨hf.request.1, hf.request.1.smaller, hf.request.2⟩

/-- A page is under construction, and in it the list of its links. -/
def linksBegun : TypeState :=
  runThread (pages.setup {}) 0 7
    (NodeTypes.start.call (pages.setup {}) 0 (pages.reference (.named "Page")))

theorem links_returned : Own (pages.setup {}) 0 linksBegun ∧
    (linksBegun.thread 0).stage.isOutside = false ∧ (linksBegun.thread 0).frames.length = 2 ∧
    ∃ n a, ((runThread (pages.setup {}) 0 n linksBegun).thread 0).stage = .returned a := by
  have hown : Own (pages.setup {}) 0 linksBegun :=
    (Own.call (.initial () 0) (fun _ => rfl) rfl _).runThread 7
  have hin : (linksBegun.thread 0).stage.isOutside = false := by decide +kernel
  exact ⟨hown, hin, by decide +kernel, (resolution_terminates hown).2.1 hin⟩

end SchemaGraph
