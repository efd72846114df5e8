/-
**What a registry of node types holds.**

A registry of node types has seen any calls before, and none is in progress.  A handle that was
given for the request of an expression leads, if it leads anywhere, to the type that the definitions
say, made of handles that were given for what is below.  So whatever can be reached from the root of
a schema is used by the root, and once a schema was walked there is a type for everything that is
used.  But then none of its constructions ever failed, in whichever order they took place, and all
handles on the way are ready.

Main definitions:

* `Still` — a registry of node types at rest, and the requests it has seen;
* `Given` — a handle that was given for the request of an expression;
* `Field.Draws` — a field of a schema is as an expression says.

Main results:

* `Given.step` — a type is made as the definitions say;
* `Given.reads` — a handle reads as its expression;
* `whole_of_toured` — after a walk there is a type for everything that is used;
* `draws_of_object` — **the fields of an object are as they are defined**.
-/

import SchemaGraph.Proofs.Registry.Alone
import SchemaGraph.Proofs.Registry.Reply
import SchemaGraph.Proofs.Schema.Closure
import SchemaGraph.Proofs.Schema.Walk

set_option autoImplicit false

namespace SchemaGraph

open Registry (Handle InstanceId Request Options Answer Program Possible Apart Reliable AtRest
  Holds Legal Coherent)

variable {nodes : NodeTypes} {options : Options} {rs : List Request} {s s' : TypeState}
  {D : Request → Prop} {root e e' : TypeExpr} {h h' : Handle} {i j : InstanceId}
  {t t' : SchemaType} {r : Request}

/-! ### A registry at rest -/

/-- A registry of node types at rest, and the requests that were made from outside. -/
structure Still (nodes : NodeTypes) (options : Options) (rs : List Request) (s : TypeState) :
    Prop where
  sound : nodes.Sound
  rest : AtRest (nodes.setup options) rs s
  distinct : ∀ r ∈ rs, r.identifier.Distinct
  apart : Apart (nodes.setup options) rs

theorem Still.legal (hst : Still nodes options rs s) : Legal s := hst.rest.reachable.legal

theorem Still.traceable (hst : Still nodes options rs s)
    (hR : Reliable (nodes.setup options) (Possible (nodes.setup options) rs) D) :
    Registry.Traceable (nodes.setup options) (Possible (nodes.setup options) rs) D s := by
  obtain ⟨ks, hs⟩ := hst.rest.session
  exact hs.traceable hR fun r hr => .root hr

/-- Nothing has to be relied on. -/
theorem reliable_nothing : Reliable (nodes.setup options) (Possible (nodes.setup options) rs)
    fun _ => False :=
  .nothing fun hr hp => .asked hr hp

theorem Still.reliable (hst : Still nodes options rs s) (hw : nodes.Whole root) :
    Reliable (nodes.setup options) (Possible (nodes.setup options) rs)
      (nodes.Wanted options root rs) :=
  NodeTypes.reliable hst.sound hw hst.distinct hst.apart

/-! ### Handles that were given -/

/-- A handle that was given for the request of an expression. -/
def Given (nodes : NodeTypes) (options : Options) (rs : List Request) (D : Request → Prop)
    (s : TypeState) (h : Handle) (e : TypeExpr) : Prop :=
  ∃ r, Possible (nodes.setup options) rs r ∧ nodes.Stands r e ∧
    Holds D s r (.ok h : Answer TypeFault)

theorem Given.key_eq (hg : Given nodes options rs D s h e) : h.key = nodes.keyOf e := by
  obtain ⟨r, -, hstands, hk, -⟩ := hg
  exact NodeTypes.keyOf_eq hstands hk

/-- Handles of one key were given for one expression. -/
theorem Given.unique (hst : Still nodes options rs s) (hg : Given nodes options rs D s h e)
    (hg' : Given nodes options rs D s h' e') (hk : h.key = h'.key) : e = e' := by
  obtain ⟨r, hr, hstands, hkey, -⟩ := hg
  obtain ⟨r', hr', hstands', hkey', -⟩ := hg'
  have hsame := NodeTypes.stands_of_canonical hstands hkey hkey'
    (hstands'.identifier ▸ nodes.distinct_reference e') (hst.apart hr' hr hkey' (hk ▸ hkey))
  exact NodeTypes.reference_inj hst.sound
    ⟨hsame.identifier.symm.trans hstands'.identifier, hsame.scope.symm.trans hstands'.scope⟩

/-- What a handle leads to is what the table has for its key. -/
theorem Given.ready (hst : Still nodes options rs s) (hg : Given nodes options rs D s h e)
    (hs : Shows s.store h i t) :
    Dictionary.find? h.key s.store.table.entries = some (.ready i) := by
  obtain ⟨r, -, -, -, hcoherent, -⟩ := hg
  exact Registry.Table.ready?_eq_some_iff.1 (hcoherent.ready_of_get? hst.legal.slotted hs.leads)

theorem Given.instance_eq (hst : Still nodes options rs s) (hg : Given nodes options rs D s h e)
    (hg' : Given nodes options rs D s h' e') (hk : h.key = h'.key) (hs : Shows s.store h i t)
    (hs' : Shows s.store h' j t') : i = j := by
  have hready := hg.ready hst hs
  rw [hk, hg'.ready hst hs', Option.some.injEq, Registry.Entry.ready.injEq] at hready
  exact hready.symm

/-- The handles that requests were answered with, and the expressions of the requests. -/
theorem forall₂_granted {P : Request → TypeExpr → Prop} {Q : Request → Answer TypeFault → Prop}
    {rs : List Request} {es : List TypeExpr} {hs : List Handle} (h : List.Forall₂ P rs es)
    (hlen : hs.length = rs.length) (hQ : ∀ x ∈ Program.granted rs hs, Q x.1 x.2) :
    List.Forall₂ (fun h e => ∃ r, P r e ∧ Q r (.ok h)) hs es := by
  induction h generalizing hs with
  | nil =>
      rw [List.length_eq_zero_iff.1 hlen]
      exact .nil
  | @cons r e rs es hP _ ih =>
      cases hs with
      | nil => cases hlen
      | cons h hs =>
          obtain ⟨hfirst, hrest⟩ := List.forall_mem_cons.1 hQ
          exact .cons ⟨r, hP, hfirst⟩ (ih (Nat.succ.inj hlen) hrest)

/-- **A type is made as the definitions say.** -/
theorem Given.step (hst : Still nodes options rs s)
    (hR : Reliable (nodes.setup options) (Possible (nodes.setup options) rs) D)
    (hg : Given nodes options rs D s h e) (hs : Shows s.store h i t) :
    nodes.CanMake e ∧ ∃ hs, t = nodes.make e hs ∧
      List.Forall₂ (Given nodes options rs D s) hs (nodes.below e) := by
  have hready := hg.ready hst hs
  obtain ⟨r, hr, hstands, hkey, -⟩ := hg
  obtain ⟨x, hx, r', log, hr', hkey', hp⟩ :=
    (hst.traceable hR).given_new (fun _ _ hp => new_of_reaches hp) hready
  obtain rfl : t = x := Option.some.inj (hs.stored.symm.trans hx)
  -- the request that the type was made for is for the same expression
  have hstands' : nodes.Stands r' e := NodeTypes.stands_of_canonical hstands hkey hkey'
    (distinct_of_arises hst.distinct hr') (hst.apart hr' hr hkey' hkey)
  cases course_of_reaches hst.sound hstands' hp with
  | made asked hs hcan hasked hlen hlog hd =>
      have hlog' : ∀ x ∈ Program.granted asked hs,
          Possible (nodes.setup options) rs x.1 ∧ Holds D s x.1 x.2 := by
        intro x hx
        rw [← hlog] at hx
        obtain ⟨log₀, next, hp'⟩ := hp.asked hx
        exact ⟨hR.asks hr' (hp'.mono fun _ _ => Holds.permitted), hp.answered x hx⟩
      refine ⟨hcan, hs, Registry.Yield.new.inj (Program.done.inj hd), ?_⟩
      refine (forall₂_granted (Q := fun r a => Possible (nodes.setup options) rs r ∧ Holds D s r a)
        hasked hlen hlog').imp fun h e hgiven => ?_
      obtain ⟨r, hstands, hpossible, hholds⟩ := hgiven
      exact ⟨r, hpossible, hstands, hholds⟩
  | asks _ _ _ _ hd => cases hd
  | failed _ hd => cases hd
  | refused _ _ hd => cases hd

theorem zipWith_type {fields : List DefinedField} {hs : List Handle}
    (h : hs.length = fields.length) : (fields.zipWith (fun f h =>
      (⟨f.name, h, f.description⟩ : Field)) hs).map Field.type = hs := by
  induction fields generalizing hs with
  | nil =>
      rw [List.length_eq_zero_iff.1 h]
      rfl
  | cons f fields ih =>
      cases hs with
      | nil => cases h
      | cons x hs => exact congrArg (x :: ·) (ih (Nat.succ.inj h))

/-- The handles of a type are those that it was made of. -/
theorem NodeTypes.handles_make {hs : List Handle} (hcan : nodes.CanMake e)
    (hlen : hs.length = (nodes.below e).length) : (nodes.make e hs).handles = hs := by
  cases e with
  | named name =>
      obtain ⟨d, hd⟩ := Option.ne_none_iff_exists'.1 hcan
      simp only [below, hd, Option.map_some, Option.getD_some] at hlen
      simp only [make, hd, Option.map_some, Option.getD_some]
      cases d with
      | scalar description => rw [List.length_eq_zero_iff.1 hlen]; rfl
      | object fields description => exact zipWith_type (by simpa [DefinedType.types] using hlen)
  | list of =>
      obtain ⟨h, rfl⟩ := List.length_eq_one_iff.1 hlen
      rfl
  | nonNull of =>
      obtain ⟨h, rfl⟩ := List.length_eq_one_iff.1 hlen
      rfl

/-- The handles of a type were given for what is below. -/
theorem Given.handles (hst : Still nodes options rs s)
    (hR : Reliable (nodes.setup options) (Possible (nodes.setup options) rs) D)
    (hg : Given nodes options rs D s h e) (hs : Shows s.store h i t) :
    List.Forall₂ (Given nodes options rs D s) t.handles (nodes.below e) := by
  obtain ⟨hcan, hs, rfl, hbelow⟩ := hg.step hst hR hs
  rwa [NodeTypes.handles_make hcan hbelow.length_eq]

/-- The type of a wrapper is made of a handle that was given for what is wrapped. -/
theorem Given.wrapped {of : TypeExpr} (hst : Still nodes options rs s)
    (hR : Reliable (nodes.setup options) (Possible (nodes.setup options) rs) D)
    (hg : Given nodes options rs D s h e) (hs : Shows s.store h i t)
    (hbelow : nodes.below e = [of]) :
    ∃ h', t = nodes.make e [h'] ∧ Given nodes options rs D s h' of := by
  obtain ⟨-, hs', rfl, hgiven⟩ := hg.step hst hR hs
  rw [hbelow] at hgiven
  obtain ⟨h', rest, hfirst, hnil, rfl⟩ := List.forall₂_cons_right_iff.1 hgiven
  cases hnil
  exact ⟨h', rfl, hfirst⟩

/-- **A handle reads as its expression**, if the handles lead to types that were given for what the
expression uses. -/
theorem Given.reads (hst : Still nodes options rs s)
    (hR : Reliable (nodes.setup options) (Possible (nodes.setup options) rs) D)
    (hg : Given nodes options rs D s h e)
    (hshows : ∀ {h e'}, nodes.Uses e e' → Given nodes options rs D s h e' →
      ∃ i t, Shows s.store h i t) : ∃ j, Reads s.store h e j := by
  induction e generalizing h with
  | named name =>
      obtain ⟨i, t, hs⟩ := hshows .refl hg
      obtain ⟨hcan, hs', rfl, -⟩ := hg.step hst hR hs
      exact ⟨i, .named hs (NodeTypes.name?_make_named hcan hs')⟩
  | list of ih =>
      obtain ⟨i, t, hs⟩ := hshows .refl hg
      obtain ⟨h', rfl, hgiven⟩ := hg.wrapped hst hR hs rfl
      obtain ⟨j, hj⟩ := ih hgiven fun he => hshows (.head (List.mem_singleton_self of) he)
      exact ⟨j, .list hs hj⟩
  | nonNull of ih =>
      obtain ⟨i, t, hs⟩ := hshows .refl hg
      obtain ⟨h', rfl, hgiven⟩ := hg.wrapped hst hR hs rfl
      obtain ⟨j, hj⟩ := ih hgiven fun he => hshows (.head (List.mem_singleton_self of) he)
      exact ⟨j, .nonNull hs hj⟩

/-- What can be reached from the handle of a root was given for what the root uses. -/
theorem Given.reached (hst : Still nodes options rs s)
    (hR : Reliable (nodes.setup options) (Possible (nodes.setup options) rs) D)
    (hg : Given nodes options rs D s h root) (hr : Reached s.store [h] h') :
    ∃ e, nodes.Uses root e ∧ Given nodes options rs D s h' e := by
  induction hr with
  | entry hmem => exact ⟨root, .refl, List.mem_singleton.1 hmem ▸ hg⟩
  | through _ hs hmem ih =>
      obtain ⟨e, he, hgiven⟩ := ih
      obtain ⟨e', he', hgiven'⟩ := (exists_of_forall₂ (hgiven.handles hst hR hs)).1 _ hmem
      exact ⟨e', he.below he', hgiven'⟩

/-! ### After a walk -/

/-- A walk from the handle of a root visits a handle of everything that the root uses. -/
theorem visited_of_uses (hst : Still nodes options rs s)
    (hR : Reliable (nodes.setup options) (Possible (nodes.setup options) rs) D)
    (hg : Given nodes options rs D s h root) {found found' : Dictionary String InstanceId}
    {visited : List Handle}
    (ht : Toured s.store (h.key :: storedKeys s.store) found found' [h] visited)
    (he : nodes.Uses root e) : ∃ v ∈ visited, Given nodes options rs D s v e ∧
      ∃ i t, Shows s.store v i t := by
  -- a visited handle of the key of an expression was given for that expression
  have hvisit : ∀ {x e}, Given nodes options rs D s x e → (∃ v ∈ visited, v.key = x.key) →
      ∃ v ∈ visited, Given nodes options rs D s v e ∧ ∃ i t, Shows s.store v i t := by
    rintro x e hx ⟨v, hv, hk⟩
    obtain ⟨e', -, hgiven⟩ := hg.reached hst hR (ht.reached v hv)
    obtain ⟨i, t, hs, -⟩ := ht.closed v hv
    obtain rfl := hgiven.unique hst hx hk
    exact ⟨v, hv, hgiven, i, t, hs⟩
  induction he with
  | refl => exact hvisit hg (ht.covers h List.mem_cons_self List.mem_cons_self)
  | tail _ hbelow ih =>
      obtain ⟨v, hv, hgiven, -⟩ := ih
      obtain ⟨i, t, hs, hclosed⟩ := ht.closed v hv
      obtain ⟨x, hx, hgiven'⟩ := (exists_of_forall₂ (hgiven.handles hst hR hs)).2 _ hbelow
      exact hvisit hgiven' (hclosed x hx (List.mem_cons_of_mem _ (key_mem_storedKeys hs.stored hx)))

/-- **After a walk there is a type for everything that is used.** -/
theorem whole_of_toured (hst : Still nodes options rs s)
    (hR : Reliable (nodes.setup options) (Possible (nodes.setup options) rs) D)
    (hg : Given nodes options rs D s h root) {found found' : Dictionary String InstanceId}
    {visited : List Handle}
    (ht : Toured s.store (h.key :: storedKeys s.store) found found' [h] visited) :
    nodes.Whole root := by
  intro e he
  obtain ⟨v, hv, hgiven, i, t, hs⟩ := visited_of_uses hst hR hg ht he
  exact (hgiven.step hst hR hs).1

/-! ### What is used is ready -/

/-- A handle leads to a type if the requests that it may have been given for can be relied on. -/
theorem Given.shows_of_unharmed (hg : Given nodes options rs D s h e)
    (hst : Still nodes options rs s)
    (hR : Reliable (nodes.setup options) (Possible (nodes.setup options) rs) D)
    (hD : ∀ r, Possible (nodes.setup options) rs r → nodes.Stands r e → D r) :
    ∃ i t, Shows s.store h i t := by
  obtain ⟨r, hr, hstands, -, hcoherent, hun⟩ := hg
  obtain ⟨i, hi, hready⟩ := hcoherent.ready_of_unharmed hst.legal hst.rest.outside
    (hun (hD r hr hstands))
  obtain ⟨y, -, S, ht⟩ := (hst.traceable hR).given hready
  exact ⟨i, _, hi, ht⟩

section Whole

variable (hst : Still nodes options rs s) (hw : nodes.Whole root)

include hst hw

/-- What is used is ready: nothing of it ever failed, and nothing of it is in progress. -/
theorem Given.shows (hg : Given nodes options rs (nodes.Wanted options root rs) s h e)
    (he : nodes.Uses root e) : ∃ i t, Shows s.store h i t :=
  hg.shows_of_unharmed hst (hst.reliable hw) fun _ hr hstands => ⟨hr, e, he, hstands⟩

/-- What is used reads as its expression. -/
theorem Given.reads_of_whole (hg : Given nodes options rs (nodes.Wanted options root rs) s h e)
    (he : nodes.Uses root e) : ∃ j, Reads s.store h e j :=
  hg.reads hst (hst.reliable hw) fun he' hg' => hg'.shows hst hw (he.trans he')

end Whole

/-! ### Schemas -/

/-- A field of a schema is as an expression says: the type that it leads to is written like the
expression, and under its wrappers lies what the schema has under the name of the expression. -/
structure Field.Draws (S : TypeStore) (schema : Schema) (f : Field) (e : TypeExpr) : Prop where
  ref : ∃ i t, (f.type.get S : Except TypeError InstanceId) = .ok i ∧ S.instances[i]? = some t ∧
    t.ref S = .ok e.text ∧
      ∃ j, namedInstance S i = .ok j ∧ schema.get? e.root = some j

/-- What a type is called. -/
theorem NodeTypes.eq_of_name?_make {hs : List Handle} {name : String} (hcan : nodes.CanMake e)
    (h : (nodes.make e hs).name? = some name) : e = .named name := by
  cases e with
  | named n =>
      rw [name?_make_named hcan, Option.some.injEq] at h
      rw [h]
  | list of => cases h
  | nonNull of => cases h

section Toured

variable {found : Dictionary String InstanceId} {visited : List Handle} {name : String}
  (hst : Still nodes options rs s) (hw : nodes.Whole root)
  (hg : Given nodes options rs (nodes.Wanted options root rs) s h root)
  (ht : Toured s.store (h.key :: storedKeys s.store) [] found [h] visited)

include hst hw hg ht

/-- What a walk finds under a name is the type that the name stands for. -/
theorem found_eq (hf : Dictionary.find? name found = some i) : nodes.Uses root (.named name) ∧
    nodes.CanMake (.named name) ∧ ∃ hs, s.store.instances[i]? = some (nodes.make (.named name) hs) ∧
      List.Forall₂ (Given nodes options rs (nodes.Wanted options root rs) s) hs
        (nodes.below (.named name)) := by
  have hR := hst.reliable hw
  rcases (ht.found_iff name i).1 hf with hnone | ⟨v, hv, t, hs, hname⟩
  · simp at hnone
  · obtain ⟨e, he, hgiven⟩ := hg.reached hst hR (ht.reached v hv)
    obtain ⟨hcan, hs', rfl, hbelow⟩ := hgiven.step hst hR hs
    obtain rfl := NodeTypes.eq_of_name?_make hcan hname
    exact ⟨he, hcan, hs', hs.stored, hbelow⟩

/-- What is used is found under its name. -/
theorem find?_of_uses (he : nodes.Uses root (.named name))
    (hg' : Given nodes options rs (nodes.Wanted options root rs) s h' (.named name))
    (hs : Shows s.store h' i t) : Dictionary.find? name found = some i := by
  have hR := hst.reliable hw
  obtain ⟨v, hv, hgiven, j, t', hs'⟩ := visited_of_uses hst hR hg ht he
  obtain rfl := hgiven.instance_eq hst hg' (hgiven.key_eq.trans hg'.key_eq.symm) hs' hs
  obtain ⟨hcan, hs'', rfl, -⟩ := hgiven.step hst hR hs'
  exact (ht.found_iff name j).2
    (Or.inr ⟨v, hv, _, hs', NodeTypes.name?_make_named hcan hs''⟩)

/-- **A field is as the expression says that its handle was given for.** -/
theorem draws_of_given {schema : Schema} (hschema : ∀ name, schema.get? name
      = Dictionary.find? name found) {f : Field}
    (hf : Given nodes options rs (nodes.Wanted options root rs) s f.type e)
    (he : nodes.Uses root e) : f.Draws s.store schema e := by
  have hR := hst.reliable hw
  obtain ⟨i, t, hs⟩ := hf.shows hst hw he
  obtain ⟨j, hreads⟩ := hf.reads_of_whole hst hw he
  have hdepth := Nat.le_of_lt hreads.depth_lt
  obtain ⟨h', t', hreach, hs', hname⟩ := hreads.bottom
  -- what lies under the wrappers was given for the name
  obtain ⟨e', he', hgiven⟩ := hf.reached hst hR hreach
  obtain ⟨hcan, hs'', rfl, -⟩ := hgiven.step hst hR hs'
  obtain rfl := NodeTypes.eq_of_name?_make hcan hname
  refine ⟨i, t, get_of_shows hs, hs.stored, ?_, j, namedWithin_of_reads hreads hs hdepth, ?_⟩
  · rw [SchemaType.ref, SchemaType.expr, exprWithin_of_reads hreads hs hdepth]
    rfl
  · rw [hschema]
    exact find?_of_uses hst hw hg ht (he.trans he') hgiven hs'

/-- The fields of an object are as they are defined. -/
theorem draws_of_object {schema : Schema} (hschema : ∀ name, schema.get? name
      = Dictionary.find? name found) {fields : List DefinedField} {d : Option String}
    (hd : nodes.definition? name = some (.object fields d))
    (hf : Dictionary.find? name found = some i) :
    ∃ fs, s.store.instances[i]? = some ⟨.object name fs, d⟩ ∧
      List.Forall₂ (fun f p => f.name = p.name ∧ f.description = p.description ∧
        f.Draws s.store schema p.type) fs fields := by
  obtain ⟨he, hcan, hs, hstored, hbelow⟩ := found_eq hst hw hg ht hf
  have hmake : nodes.make (.named name) hs = (DefinedType.object fields d).make name hs := by
    simp only [NodeTypes.make, hd, Option.map_some, Option.getD_some]
  have htypes : nodes.below (.named name) = fields.map DefinedField.type := by
    simp only [NodeTypes.below, hd, Option.map_some, Option.getD_some, DefinedType.types]
  refine ⟨_, hmake ▸ hstored, ?_⟩
  have huses : ∀ p ∈ fields, nodes.Uses root p.type :=
    fun p hp => he.below (htypes ▸ List.mem_map_of_mem hp)
  rw [htypes] at hbelow
  clear hmake htypes hstored hd
  induction fields generalizing hs with
  | nil => exact .nil
  | cons p fields ih =>
      obtain ⟨x, rest, hx, hrest, rfl⟩ := List.forall₂_cons_right_iff.1 hbelow
      obtain ⟨hp, hall⟩ := List.forall_mem_cons.1 huses
      exact .cons ⟨rfl, rfl, draws_of_given hst hw hg ht hschema (f := ⟨p.name, x, p.description⟩)
        hx hp⟩ (ih rest hrest hall)

end Toured

end SchemaGraph
