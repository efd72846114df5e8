/-
**What is read from an instance is what was asked for.**

An expression becomes an identifier with one option inside the other.  For each of them the registry
makes an instance, in the scope that it was asked in, and the instance is read back through its
handles.  Some of these lead nowhere, when an attempt has failed and left them behind.  But whatever
can be read is the expression that was asked for, and the instance under all wrappers is the one of
its name; and in a registry in which no construction has failed all can be read.  So an instance is
that of one expression only.

Main definitions:

* `NodeTypes.Caches` — the instance that a registry has for an expression.

Main results:

* `exprWithin_of_wraps`, `namedWithin_of_wraps` — wrappers are followed one at a time;
* `Given.expr_eq`, `Given.exists_root` — what a handle reads as, and what lies under its wrappers;
* `Given.eq_of_instance` — an instance is that of one expression;
* `reading_of_resolve` — **expression, identifier and instance agree**.
-/

import SchemaGraph.Proofs.Registry.Outside
import SchemaGraph.Proofs.Registry.Unfailed
import SchemaGraph.Proofs.Schema.Built

set_option autoImplicit false

namespace SchemaGraph

open Registry (Handle InstanceId Request Options Possible Apart Reliable AtRest Run Coherent)

variable {nodes : NodeTypes} {options : Options} {rs : List Request} {s s' : TypeState}
  {S : TypeStore} {D : Request → Prop} {e e' : TypeExpr} {h h' : Handle} {i j : InstanceId}
  {t : SchemaType} {n : Nat}

/-! ### One wrapper -/

theorem shows_of_typeOf (h' : typeOf S h = .ok t) : ∃ i, Shows S h i t := by
  unfold typeOf at h'
  cases hi : h.get? S with
  | none => simp [hi] at h'
  | some i =>
      cases ht : S.instances[i]? with
      | none => simp [hi, ht] at h'
      | some t' =>
          simp only [hi, ht, Except.ok.injEq] at h'
          exact ⟨i, hi, h' ▸ ht⟩

/-- A wrapper is read through its handle. -/
theorem exprWithin_of_wraps {wrap : TypeExpr → TypeExpr} {of : Handle}
    (hwrap : ∀ inner, exprVia inner t = (inner of).map wrap) (he : exprWithin S n t = .ok e) :
    ∃ m i' t' e', Shows S of i' t' ∧ exprWithin S m t' = .ok e' ∧ e = wrap e' := by
  cases n with
  | zero =>
      rw [exprWithin, hwrap] at he
      cases he
  | succ m =>
      rw [exprWithin, hwrap] at he
      cases ht : typeOf S of with
      | error fault => simp [ht, Except.bind, Except.map] at he
      | ok t' =>
          cases hinner : exprWithin S m t' with
          | error fault => simp [ht, hinner, Except.bind, Except.map] at he
          | ok inner =>
              simp only [ht, hinner, Except.bind, Except.map, Except.ok.injEq] at he
              obtain ⟨i', hs⟩ := shows_of_typeOf ht
              exact ⟨m, i', t', inner, hs, hinner, he.symm⟩

theorem namedWithin_of_wraps {of : Handle} (ht : S.instances[i]? = some t)
    (hwrapped : t.wrapped? = some of) (hj : namedWithin S n i = .ok j) :
    ∃ m i', of.get? S = some i' ∧ namedWithin S m i' = .ok j := by
  cases n with
  | zero => simp [namedWithin, namedVia, ht, hwrapped] at hj
  | succ m =>
      simp only [namedWithin, namedVia, ht, Option.bind_some, hwrapped, Handle.get] at hj
      cases hi : of.get? S with
      | none => simp [hi, Except.bind] at hj
      | some i' =>
          simp only [hi, Except.bind] at hj
          exact ⟨m, i', rfl, hj⟩

/-! ### What is cached -/

/-- The instance that a registry has for an expression. -/
def NodeTypes.Caches (nodes : NodeTypes) (S : TypeStore) (e : TypeExpr) (i : InstanceId) : Prop :=
  ∃ k, (nodes.reference e).key = .ok k ∧ S.table.ready? k = some i

/-- The request for an expression has the key of the handles that were given for it. -/
theorem Given.key (hg : Given nodes options rs D s h e) :
    (nodes.reference e).key = .ok h.key := by
  obtain ⟨r, -, hstands, hkey, -⟩ := hg
  exact hstands.key.symm.trans hkey

/-- What a handle leads to is cached for the expression that it was given for. -/
theorem Given.caches (hst : Still nodes options rs s) (hg : Given nodes options rs D s h e)
    (hi : h.get? s.store = some i) : nodes.Caches s.store e i := by
  obtain ⟨r, -, -, -, hcoherent, -⟩ := id hg
  exact ⟨h.key, hg.key, hcoherent.ready_of_get? hst.legal.slotted hi⟩

/-- A handle that names an instance of the table was given for the requests of its key. -/
theorem given_of_found (hmem : nodes.reference e ∈ rs)
    (hkey : (nodes.reference e).key = .ok h.key) (hfound : h.Found s.store.table) :
    Given nodes options rs (fun _ => False) s h e := by
  obtain ⟨i, htarget, hready⟩ := hfound
  have hcoherent : Coherent s h := by
    unfold Coherent
    rw [htarget]
    exact hready
  exact ⟨_, .root hmem, .refl _, hkey, hcoherent, False.elim⟩

section

variable (hst : Still nodes options rs s)
  (hR : Reliable (nodes.setup options) (Possible (nodes.setup options) rs) D)

include hst hR

/-- A handle that leads to an instance leads to a type. -/
theorem Given.shows_of_get? (hg : Given nodes options rs D s h e)
    (hi : h.get? s.store = some i) : ∃ t, Shows s.store h i t := by
  obtain ⟨r, -, -, -, hcoherent, -⟩ := hg
  have hready := hcoherent.ready_of_get? hst.legal.slotted hi
  obtain ⟨y, -, S, ht⟩ := (hst.traceable hR).given (Registry.Table.ready?_eq_some_iff.1 hready)
  exact ⟨_, hi, ht⟩

/-- **An instance is that of one expression.** -/
theorem Given.eq_of_instance (hg : Given nodes options rs D s h e)
    (hg' : Given nodes options rs D s h' e') (hi : h.get? s.store = some i)
    (hi' : h'.get? s.store = some i) : e = e' := by
  obtain ⟨t, hs⟩ := hg.shows_of_get? hst hR hi
  obtain ⟨t', hs'⟩ := hg'.shows_of_get? hst hR hi'
  refine hg.unique hst hg' ((hst.traceable hR).distinct ?_ (hg.ready hst hs) (hg'.ready hst hs'))
  rintro k y ⟨r, log, -, -, hp⟩
  exact new_of_reaches hp

/-! ### What is read -/

/-- **What is read is what was asked for**, layer by layer. -/
theorem Given.expr_eq (hg : Given nodes options rs D s h e) (hs : Shows s.store h i t)
    (he : exprWithin s.store n t = .ok e') : e' = e := by
  induction e generalizing h i t n e' with
  | named name =>
      obtain ⟨hcan, hs', rfl, -⟩ := hg.step hst hR hs
      rw [exprWithin_of_name (NodeTypes.name?_make_named hcan hs')] at he
      exact (Except.ok.inj he).symm
  | list of ih =>
      obtain ⟨x, rfl, hof⟩ := hg.wrapped hst hR hs rfl
      obtain ⟨m, i', t', inner, hs', hinner, rfl⟩ := exprWithin_of_wraps (fun _ => rfl) he
      rw [ih hof hs' hinner]
  | nonNull of ih =>
      obtain ⟨x, rfl, hof⟩ := hg.wrapped hst hR hs rfl
      obtain ⟨m, i', t', inner, hs', hinner, rfl⟩ := exprWithin_of_wraps (fun _ => rfl) he
      rw [ih hof hs' hinner]

/-- **Under all wrappers lies what was given for the name.** -/
theorem Given.exists_root (hg : Given nodes options rs D s h e) (hs : Shows s.store h i t)
    (hj : namedWithin s.store n i = .ok j) :
    ∃ x, Given nodes options rs D s x (.named e.root) ∧ x.get? s.store = some j := by
  -- the handle of a wrapper leads to an instance, and so to a type
  have hwraps : ∀ {of : TypeExpr} {x : Handle} {t : SchemaType} {i : InstanceId} {n : Nat},
      Given nodes options rs D s x of → s.store.instances[i]? = some t → t.wrapped? = some x →
      namedWithin s.store n i = .ok j →
      ∃ m i' t', Shows s.store x i' t' ∧ namedWithin s.store m i' = .ok j := by
    intro of x t i n hof hstored hwrapped hj
    obtain ⟨m, i', hi', hinner⟩ := namedWithin_of_wraps hstored hwrapped hj
    obtain ⟨t', hs'⟩ := hof.shows_of_get? hst hR hi'
    exact ⟨m, i', t', hs', hinner⟩
  induction e generalizing h i t n with
  | named name =>
      obtain ⟨hcan, hs', rfl, -⟩ := hg.step hst hR hs
      have hnone := wrapped?_of_name (NodeTypes.name?_make_named hcan hs')
      obtain rfl : i = j := by
        cases n <;> exact Except.ok.inj ((namedVia_of_name hs.stored hnone _).symm.trans hj)
      exact ⟨h, hg, hs.leads⟩
  | list of ih =>
      obtain ⟨x, rfl, hof⟩ := hg.wrapped hst hR hs rfl
      obtain ⟨m, i', t', hs', hinner⟩ := hwraps hof hs.stored rfl hj
      exact ih hof hs' hinner
  | nonNull of ih =>
      obtain ⟨x, rfl, hof⟩ := hg.wrapped hst hR hs rfl
      obtain ⟨m, i', t', hs', hinner⟩ := hwraps hof hs.stored rfl hj
      exact ih hof hs' hinner

end

/-- If no construction has failed, all can be read. -/
theorem Given.reads_of_unfailed (hst : Still nodes options rs s)
    (hg : Given nodes options rs (fun _ => False) s h e)
    (hnone : s.store.stats.failures = 0) : ∃ j, Reads s.store h e j := by
  refine hg.reads hst reliable_nothing fun {h e'} _ hg' => ?_
  obtain ⟨r, -, -, -, hcoherent, -⟩ := id hg'
  obtain ⟨i, hi, -⟩ := hst.rest.ready hnone hcoherent
  obtain ⟨t, hs⟩ := hg'.shows_of_get? hst reliable_nothing hi
  exact ⟨i, t, hs⟩

/-! ### Expression, identifier and instance -/

/-- No request for another expression is answered, now or later, with the instance that a handle
names. -/
theorem eq_of_answer (hst : Still nodes options rs s) (hg : Given nodes options rs D s h e)
    (hfound : h.Found s.store.table) {rs₁ : List Request} {s₁ s₂ : TypeState} {e₁ : TypeExpr}
    {fuel : Nat} {h₁ : Handle} (hrun : Run (nodes.setup options) s s₁)
    (hst₁ : Still nodes options rs₁ s₁) (hmem : nodes.reference e ∈ rs₁)
    (hapart : Apart (nodes.setup options) (nodes.reference e₁ :: rs₁))
    (hres : Registry.resolve (nodes.setup options) fuel (nodes.reference e₁) s₁
      = (.answer (.ok h₁), s₂))
    (hi : h.get? s₂.store = some i) (hi₁ : h₁.get? s₂.store = some i) : e₁ = e := by
  have hst₂ := still_of_resolve hst₁.sound hst₁.rest hst₁.distinct hapart (by simp) hres
  have hlast := Registry.run_resolve (R := nodes.setup options) hst₁.rest.idle fuel
    (nodes.reference e₁)
  rw [hres] at hlast
  -- the handle still names its instance when the other request is answered
  have hfound₂ : h.Found s₂.store.table :=
    hfound.mono fun he => hst.legal.ready_of_changes (hrun.trans hlast).changes he
  have hg₁ := given_of_resolve hst₁.rest reliable_nothing hres
  have hg₂ : Given nodes options (nodes.reference e₁ :: rs₁) (fun _ => False) s₂ h e :=
    given_of_found (List.mem_cons_of_mem _ hmem) hg.key hfound₂
  exact hg₁.eq_of_instance hst₂ reliable_nothing hg₂ hi₁ hi

/-- **Expression, identifier and instance agree.**  Whatever a registry of node types has been asked
before, if the request for an expression is answered with a handle then the handle leads to an
instance, the one cached for the expression.  If the type of the instance can be written, it is
written like the expression; if the instance under its wrappers can be reached, it is the one cached
for the name of the expression; and both can be done if no construction has failed so far.  No
request for another expression is ever answered with the same instance. -/
theorem reading_of_resolve (hs : nodes.Sound) (hrest : AtRest (nodes.setup options) rs s)
    (hrs : ∀ r ∈ rs, r.identifier.Distinct)
    (hapart : Apart (nodes.setup options) (nodes.reference e :: rs)) {fuel : Nat}
    (hres : Registry.resolve (nodes.setup options) fuel (nodes.reference e) s
      = (.answer (.ok h), s')) :
    ∃ i t, (h.get s'.store : Except TypeError InstanceId) = .ok i ∧
      s'.store.instances[i]? = some t ∧ nodes.Caches s'.store e i ∧
      (∀ text, t.ref s'.store = .ok text → text = e.text) ∧
      (∀ j, namedInstance s'.store i = .ok j → nodes.Caches s'.store (.named e.root) j) ∧
      (s'.store.stats.failures = 0 →
        (∃ text, t.ref s'.store = .ok text) ∧ ∃ j, namedInstance s'.store i = .ok j) ∧
      ∀ rs₁ s₁ e₁ fuel₁ h₁ s₂, Run (nodes.setup options) s' s₁ →
        Still nodes options rs₁ s₁ → nodes.reference e ∈ rs₁ →
        Apart (nodes.setup options) (nodes.reference e₁ :: rs₁) →
        Registry.resolve (nodes.setup options) fuel₁ (nodes.reference e₁) s₁
          = (.answer (.ok h₁), s₂) →
        (h₁.get s₂.store : Except TypeError InstanceId) = .ok i → e₁ = e := by
  have hst := still_of_resolve hs hrest hrs hapart (by simp) hres
  have hg := given_of_resolve hrest reliable_nothing hres
  have hfound := hrest.found hres
  obtain ⟨i, htarget, -⟩ := id hfound
  have hget : ∀ S : TypeStore, h.get? S = some i := fun S => by rw [Handle.get?, htarget]
  obtain ⟨t, hshows⟩ := hg.shows_of_get? hst reliable_nothing (hget _)
  refine ⟨i, t, get_of_shows hshows, hshows.stored, hg.caches hst (hget _), fun text ht => ?_,
    fun j hj => ?_, fun hnone => ?_, fun rs₁ s₁ e₁ fuel₁ h₁ s₂ hrun hst₁ hmem hapart₁ hres₁ hi => ?_⟩
  · cases hx : t.expr s'.store with
    | error fault => simp [SchemaType.ref, hx, Except.map] at ht
    | ok e' =>
        simp only [SchemaType.ref, hx, Except.map, Except.ok.injEq] at ht
        rw [← ht, hg.expr_eq hst reliable_nothing hshows hx]
  · obtain ⟨x, hx, hj⟩ := hg.exists_root hst reliable_nothing hshows hj
    exact hx.caches hst hj
  · obtain ⟨j, hreads⟩ := hg.reads_of_unfailed hst hnone
    have hdepth := Nat.le_of_lt hreads.depth_lt
    refine ⟨⟨e.text, ?_⟩, j, namedWithin_of_reads hreads hshows hdepth⟩
    rw [SchemaType.ref, SchemaType.expr, exprWithin_of_reads hreads hshows hdepth]
    rfl
  · exact eq_of_answer hst hg hfound hrun hst₁ hmem hapart₁ hres₁ (hget _)
      (Handle.get_eq_ok_iff.1 hi)

/-- A node type that refers to itself in a list, and to a type that is missing. -/
def tornPages : NodeTypes := ⟨[("Page", {
  context := ⟨"Page", [("links", .text "[Page]"), ("lost", .text "Missing")]⟩
  description := none
  properties := [("links", .list (.named "Page")), ("lost", .named "Missing")] })]⟩

/-- Its registry after a request for its object, which has failed. -/
def tornState : TypeState :=
  (request (tornPages.setup {}) 60 (tornPages.reference (.named "Page")) NodeTypes.start).2

/-- The list was made before the failure, and is still given out.  It cannot be written any more. -/
example : tornState.store.stats.failures = 1 ∧
    ((request (tornPages.setup {}) 60 (tornPages.reference (.list (.named "Page")))
      tornState).1.toOption.map fun h => (refOf tornState.store h).isOk) = some false := by
  decide +kernel

/-- A list of pages, none of which is null. -/
def pageList : TypeExpr := .list (.nonNull (.named "Page"))

/-- The registry that has refused the missing type, after pages were requested in a list. -/
def listedPages : TypeState :=
  (request (pages.setup {}) 60 (pages.reference pageList) refusedMissing).2

theorem page_list_read : ∃ h i t,
    Registry.resolve (pages.setup {}) 60 (pages.reference pageList) refusedMissing
      = (.answer (.ok h), listedPages) ∧
    (h.get listedPages.store : Except TypeError InstanceId) = .ok i ∧
    listedPages.store.instances[i]? = some t ∧ t.ref listedPages.store = .ok "[Page!]" ∧
    ∃ j, namedInstance listedPages.store i = .ok j ∧
      pages.Caches listedPages.store (.named "Page") j := by
  obtain ⟨hgranted, hnone⟩ :
      (request (pages.setup {}) 60 (pages.reference pageList) refusedMissing).1.isOk = true ∧
      listedPages.store.stats.failures = 0 := by
    decide +kernel
  obtain ⟨h, hres⟩ : ∃ h, Registry.resolve (pages.setup {}) 60 (pages.reference pageList)
      refusedMissing = (.answer (.ok h), listedPages) := by
    rcases hreq : request (pages.setup {}) 60 (pages.reference pageList) refusedMissing
      with ⟨answer, s'⟩
    have hs' : listedPages = s' := congrArg Prod.snd hreq
    rw [hreq] at hgranted
    cases answer with
    | error fault => cases hgranted
    | ok h => exact ⟨h, hs' ▸ request_eq_ok_iff.1 hreq⟩
  have hapart : Apart (pages.setup {}) ([pageList, .named "Missing"].map pages.reference) :=
    NodeTypes.apart_of_keys sound_pages (by decide +kernel)
  obtain ⟨i, t, hi, ht, -, href, hnamed, hread, -⟩ := reading_of_resolve sound_pages
    rest_refusedMissing (List.forall_mem_singleton.2 (pages.distinct_reference _)) hapart hres
  obtain ⟨⟨text, htext⟩, j, hj⟩ := hread hnone
  obtain rfl : text = "[Page!]" := href text htext
  exact ⟨h, i, t, hres, hi, ht, htext, j, hj, hnamed j hj⟩

end SchemaGraph
