/-
**What a root uses.**

From a root the definitions lead to finitely many expressions, however they refer to each other in
circles.  If there is a type for each of them, the requests for them can be relied on: the factories
ask for nothing else, and none of them fails.  And requests for them come to an end in any case.

Main definitions:

* `NodeTypes.Uses` — an expression is used by another, directly or through others;
* `NodeTypes.Whole` — there is a type for everything that is used;
* `Course` — how far a factory has come with the request of an expression;
* `NodeTypes.Wanted` — the requests for what a root uses.

Main results:

* `course_of_reaches` — the paths of a factory, as the definitions say;
* `NodeTypes.mem_expressions` — what is used is among finitely many expressions;
* `NodeTypes.exists_finitary` — **every request comes to an end**, whatever it is for;
* `NodeTypes.reliable` — **if there is a type for all that a root uses, its requests can be relied
  on**.
-/

import SchemaGraph.Proofs.Registry.Bounded
import SchemaGraph.Proofs.Schema.Definitions

set_option autoImplicit false

namespace SchemaGraph

open Registry (Handle Request Options Answer Program Yield Reaches Arises Permitted Possible Apart
  Reliable Finitary)
open Relation (ReflTransGen)

variable {nodes : NodeTypes} {options : Options} {r r' : Request} {e e' root : TypeExpr}
  {A : Request → Answer TypeFault → Prop} {log : List (Request × Answer TypeFault)}
  {p : TypeProgram}

theorem exists_of_forall₂ {α β : Type} {P : α → β → Prop} {as : List α} {bs : List β}
    (h : List.Forall₂ P as bs) : (∀ a ∈ as, ∃ b ∈ bs, P a b) ∧ ∀ b ∈ bs, ∃ a ∈ as, P a b := by
  induction h with
  | nil => simp
  | cons hab _ ih =>
      refine ⟨List.forall_mem_cons.2 ⟨⟨_, List.mem_cons_self, hab⟩, fun a ha => ?_⟩,
        List.forall_mem_cons.2 ⟨⟨_, List.mem_cons_self, hab⟩, fun b hb => ?_⟩⟩
      · obtain ⟨b, hb, hab⟩ := ih.1 a ha
        exact ⟨b, List.mem_cons_of_mem _ hb, hab⟩
      · obtain ⟨a, ha, hab⟩ := ih.2 b hb
        exact ⟨a, List.mem_cons_of_mem _ ha, hab⟩

/-! ### Paths of factories -/

/-- How far a factory has come with the request of an expression. -/
inductive Course (nodes : NodeTypes) (e : TypeExpr) (log : List (Request × Answer TypeFault))
    (p : TypeProgram) : Prop where
  /-- it asks for the next of the types below -/
  | asks (rs : List Request) (r : Request) (next : Answer TypeFault → TypeProgram) :
      List.Forall₂ nodes.Stands rs (nodes.below e) →
      p = .resolve r next → log.map Prod.fst ++ [r] <+: rs → Course nodes e log p
  /-- it has made the type of the answers -/
  | made (rs : List Request) (hs : List Handle) : nodes.CanMake e →
      List.Forall₂ nodes.Stands rs (nodes.below e) →
      hs.length = rs.length → log = Program.granted rs hs → p = .done (.new (nodes.make e hs)) →
      Course nodes e log p
  /-- one of the answers was an error -/
  | failed (err : TypeError) : p = .fail err → (∃ r, (r, .error err) ∈ log) → Course nodes e log p
  /-- there is no such type -/
  | refused (err : TypeError) : ¬ nodes.CanMake e → p = .fail err → Course nodes e log p

/-- **The paths of a factory, as the definitions say.** -/
theorem course_of_reaches (hs : nodes.Sound) (h : nodes.Stands r e)
    (hp : Reaches (nodes.setup options) A r log p) : Course nodes e log p := by
  obtain ⟨key, factory, -, hf, hl⟩ := hp
  cases NodeTypes.build_of_stands hs h hf key with
  | makes rs hcan hrs hbuild =>
      rw [hbuild] at hl
      rcases hl.of_keep with ⟨r', next, hr', hhead⟩ | ⟨hs, hlen, hlog, hd⟩ | ⟨err, he, hr'⟩
      · exact .asks rs r' next hrs hr' hhead
      · exact .made rs hs hcan hrs hlen hlog hd
      · exact .failed err he hr'
  | fails err hcan hbuild =>
      rw [hbuild] at hl
      cases hl
      exact .refused err hcan rfl

/-- A factory asks for what it may ask for, whatever it is called with, hands over what is new, and
comes to no gate. -/
theorem asks_of_reaches (hp : Reaches (nodes.setup options) A r log p) :
    (∃ r' next, p = .resolve r' next ∧ nodes.Asks r.identifier r.context r') ∨
      (∃ t, p = .done (.new t)) ∨ ∃ err, p = .fail err := by
  obtain ⟨key, factory, -, hf, hl⟩ := hp
  have hkeeps : NodeTypes.Keeps (nodes.Asks r.identifier r.context)
      (factory.build ⟨r.identifier, r.context, key⟩) := NodeTypes.build_keeps hf
  cases hkeeps with
  | makes rs make hrs hbuild =>
      rw [hbuild] at hl
      rcases hl.of_keep with ⟨r', next, hr', hhead⟩ | ⟨hs, -, -, hd⟩ | ⟨err, he, -⟩
      · exact Or.inl ⟨r', next, hr', hrs _ (hhead.subset (by simp))⟩
      · exact Or.inr (Or.inl ⟨_, hd⟩)
      · exact Or.inr (Or.inr ⟨err, he⟩)
  | fails err hbuild =>
      rw [hbuild] at hl
      cases hl
      exact Or.inr (Or.inr ⟨err, rfl⟩)

/-- What a factory hands over is new. -/
theorem new_of_reaches {y : Yield SchemaType}
    (hp : Reaches (nodes.setup options) A r log (.done y)) : ∃ t, y = .new t := by
  rcases asks_of_reaches hp with ⟨r', next, hd, -⟩ | ⟨t, hd⟩ | ⟨err, hd⟩
  · cases hd
  · exact ⟨t, Program.done.inj hd⟩
  · cases hd

/-- An option that is set twice is set so from outside. -/
theorem distinct_of_arises {rs : List Request} (hrs : ∀ r ∈ rs, r.identifier.Distinct)
    (hr : Arises (nodes.setup options) A rs r) : r.identifier.Distinct := by
  induction hr with
  | root hr => exact hrs _ hr
  | asked _ hp ih =>
      rcases asks_of_reaches hp with ⟨r', next, heq, hasks⟩ | ⟨t, heq⟩ | ⟨err, heq⟩
      · obtain ⟨rfl, -⟩ := Program.resolve.inj heq
        exact hasks.distinct ih
      · cases heq
      · cases heq

/-! ### What is used -/

namespace NodeTypes

/-- An expression is used by another, directly or through others. -/
def Uses (nodes : NodeTypes) : TypeExpr → TypeExpr → Prop :=
  ReflTransGen fun e e' => e' ∈ nodes.below e

theorem Uses.below (h : nodes.Uses root e) (he : e' ∈ nodes.below e) : nodes.Uses root e' :=
  h.tail he

/-- There is a type for everything that is used. -/
def Whole (nodes : NodeTypes) (root : TypeExpr) : Prop :=
  ∀ e, nodes.Uses root e → nodes.CanMake e

/-- A factory asks for what is used. -/
theorem Uses.of_reaches (hs : nodes.Sound) (h : nodes.Uses root e)
    (hr : nodes.Stands r e) {next : Answer TypeFault → TypeProgram}
    (hp : Reaches (nodes.setup options) A r log (.resolve r' next)) :
    ∃ e', nodes.Uses root e' ∧ nodes.Stands r' e' := by
  cases course_of_reaches hs hr hp with
  | asks rs r'' next' hrs hr' hhead =>
      obtain ⟨rfl, -⟩ := Program.resolve.inj hr'
      have hmem : r' ∈ rs := hhead.subset (by simp)
      obtain ⟨e', he', hstands⟩ := (exists_of_forall₂ hrs).1 r' hmem
      exact ⟨e', h.below he', hstands⟩
  | made _ _ _ _ _ _ hd => cases hd
  | failed _ he => cases he
  | refused _ _ he => cases he

end NodeTypes

/-! ### Finitely many expressions -/

/-- An expression and all that it wraps. -/
def TypeExpr.parts : TypeExpr → List TypeExpr
  | .named n => [.named n]
  | .list of => .list of :: of.parts
  | .nonNull of => .nonNull of :: of.parts

theorem TypeExpr.mem_parts_self (e : TypeExpr) : e ∈ e.parts := by
  cases e <;> simp [parts]

/-- What a part wraps is a part. -/
theorem TypeExpr.mem_parts_of_wrapped {of : TypeExpr}
    (h : TypeExpr.list of ∈ e.parts ∨ TypeExpr.nonNull of ∈ e.parts) : of ∈ e.parts := by
  induction e with
  | named n => simp [parts] at h
  | list inner ih =>
      simp only [parts, List.mem_cons, TypeExpr.list.injEq, reduceCtorEq, false_or] at h ⊢
      rcases h with (rfl | h) | h
      · exact Or.inr of.mem_parts_self
      · exact Or.inr (ih (Or.inl h))
      · exact Or.inr (ih (Or.inr h))
  | nonNull inner ih =>
      simp only [parts, List.mem_cons, TypeExpr.nonNull.injEq, reduceCtorEq, false_or] at h ⊢
      rcases h with h | rfl | h
      · exact Or.inr (ih (Or.inl h))
      · exact Or.inr of.mem_parts_self
      · exact Or.inr (ih (Or.inr h))

namespace NodeTypes

/-- The key of an expression. -/
def keyOf (nodes : NodeTypes) (e : TypeExpr) : Key := Key.ofCanonical (nodes.reference e).canonical

theorem keyOf_eq {k : Key} (h : nodes.Stands r e) (hk : r.key = .ok k) : k = nodes.keyOf e := by
  rw [Request.eq_ofCanonical hk, h.canonical]
  rfl

/-- A root and the expressions that stand in the definitions, and all that they wrap. -/
def expressions (nodes : NodeTypes) (root : TypeExpr) : List TypeExpr :=
  (root :: nodes.stated).flatMap TypeExpr.parts

theorem mem_expressions_of_source (h : e ∈ root :: nodes.stated) : e ∈ nodes.expressions root :=
  List.mem_flatMap.2 ⟨e, h, e.mem_parts_self⟩

/-- What a wrapper among the expressions wraps is among them. -/
theorem mem_expressions_of_wrapped {of : TypeExpr}
    (h : TypeExpr.list of ∈ nodes.expressions root ∨ TypeExpr.nonNull of ∈ nodes.expressions root) :
    of ∈ nodes.expressions root := by
  simp only [expressions, List.mem_flatMap] at h ⊢
  rcases h with ⟨source, hsource, hpart⟩ | ⟨source, hsource, hpart⟩
  · exact ⟨source, hsource, TypeExpr.mem_parts_of_wrapped (Or.inl hpart)⟩
  · exact ⟨source, hsource, TypeExpr.mem_parts_of_wrapped (Or.inr hpart)⟩

/-- A name refers to what stands in the definitions. -/
theorem below_named_subset (nodes : NodeTypes) (n : String) :
    nodes.below (.named n) ⊆ nodes.stated := by
  intro e he
  cases hg : nodes.get? n with
  | some node =>
      simp only [below, definition?_of_get? hg, definedNode, DefinedType.types, Option.map_some,
        Option.getD_some, List.map_map] at he
      refine List.mem_append_left _ (List.mem_flatMap.2 ⟨(n, node), Dictionary.mem_of_find? hg, ?_⟩)
      simpa using he
  | none =>
      simp only [below, definition?, hg] at he
      split at he
      · simp [DefinedType.types] at he
      · split at he
        · simp [DefinedType.types] at he
        · split at he
          · refine List.mem_append_right _ ?_
            simpa [DefinedType.types, definedQuery] using he
          · simp at he

theorem mem_expressions_of_below (h : e ∈ nodes.expressions root) (he : e' ∈ nodes.below e) :
    e' ∈ nodes.expressions root := by
  cases e with
  | named n =>
      exact mem_expressions_of_source (List.mem_cons_of_mem _ (nodes.below_named_subset n he))
  | list of =>
      obtain rfl := List.mem_singleton.1 he
      exact mem_expressions_of_wrapped (Or.inl h)
  | nonNull of =>
      obtain rfl := List.mem_singleton.1 he
      exact mem_expressions_of_wrapped (Or.inr h)

/-- **What is used is among finitely many expressions.** -/
theorem mem_expressions (h : nodes.Uses root e) : e ∈ nodes.expressions root := by
  induction h with
  | refl => exact mem_expressions_of_source List.mem_cons_self
  | tail _ he ih => exact mem_expressions_of_below ih he

/-! ### Calls come to an end -/

/-- What the identifier of an expression wraps is that of what the expression wraps, in the same
scope. -/
theorem wrappedType_reference {of : Identifier}
    (h : wrappedType (nodes.reference e).identifier = .ok of) :
    ∃ e', (e = .list e' ∨ e = .nonNull e') ∧
      nodes.reference e' = ⟨of, (nodes.reference e).context⟩ := by
  cases e with
  | named n =>
      rw [wrappedType_eq_ok_iff, Identifier.option?, Identifier.config, options_reference] at h
      cases h
  | list e' =>
      rw [reference_list, wrappedType_withOption, Except.ok.injEq] at h
      exact ⟨e', Or.inl rfl, by rw [reference_list, ← h]⟩
  | nonNull e' =>
      rw [reference_nonNull, wrappedType_withOption, Except.ok.injEq] at h
      exact ⟨e', Or.inr rfl, by rw [reference_nonNull, ← h]⟩

/-- What an identifier wraps is smaller. -/
theorem sizeOf_wrappedType {id of : Identifier} (h : wrappedType id = .ok of) :
    sizeOf of < sizeOf id := by
  have hmem := Dictionary.mem_of_find? (wrappedType_eq_ok_iff.1 h)
  have hlt := List.sizeOf_lt_of_mem hmem
  obtain ⟨name, options⟩ := id
  simp only [Identifier.config, Prod.mk.sizeOf_spec, Value.type.sizeOf_spec] at hlt
  simp only [Identifier.mk.sizeOf_spec]
  omega

/-- An identifier wraps finitely many others, one in the other. -/
theorem exists_wrapped (id : Identifier) : ∃ ids : List Identifier, id ∈ ids ∧
    ∀ x ∈ ids, ∀ of, wrappedType x = .ok of → of ∈ ids := by
  induction hsize : sizeOf id using Nat.strong_induction_on generalizing id with
  | _ size ih =>
      cases hw : wrappedType id with
      | error fault =>
          refine ⟨[id], List.mem_singleton_self id, List.forall_mem_singleton.2 fun of hof => ?_⟩
          rw [hw] at hof
          cases hof
      | ok inner =>
          obtain ⟨ids, hinner, hclosed⟩ := ih _ (hsize ▸ sizeOf_wrappedType hw) inner rfl
          refine ⟨id :: ids, List.mem_cons_self, List.forall_mem_cons.2 ⟨fun of hof => ?_,
            fun x hx of hof => List.mem_cons_of_mem _ (hclosed x hx of hof)⟩⟩
          obtain rfl : inner = of := Except.ok.inj (hw.symm.trans hof)
          exact List.mem_cons_of_mem _ hinner

/-- **Every request to a registry of node types comes to an end**: it leads to what it wraps, and to
what stands in the definitions. -/
theorem exists_finitary (nodes : NodeTypes) (options : Options) (r : Request) :
    ∃ K Q, Q r ∧ Finitary (nodes.setup options) K Q := by
  obtain ⟨ids, hid, hclosed⟩ := exists_wrapped r.identifier
  -- the root of the expressions does not matter
  refine ⟨ids.filterMap (fun id => (Request.key ⟨id, r.context⟩).toOption)
      ++ (nodes.expressions (.named queryName)).map nodes.keyOf,
    fun r' => (r'.identifier ∈ ids ∧ r'.context = r.context) ∨
      ∃ e ∈ nodes.expressions (.named queryName), r' = nodes.reference e,
    Or.inl ⟨hid, rfl⟩, fun {r' k} hr hk => ?_, fun hr hp => ?_, fun _ hp => ?_⟩
  · rcases hr with ⟨hmem, hscope⟩ | ⟨e, he, rfl⟩
    · refine List.mem_append_left _ (List.mem_filterMap.2 ⟨r'.identifier, hmem, ?_⟩)
      rw [← hscope, hk]
      rfl
    · rw [keyOf_eq (.refl _) hk]
      exact List.mem_append_right _ (List.mem_map_of_mem he)
  · rcases asks_of_reaches hp with ⟨r', next, heq, hasks⟩ | ⟨t, heq⟩ | ⟨err, heq⟩
    · obtain ⟨rfl, -⟩ := Program.resolve.inj heq
      cases hasks with
      | stated he => exact Or.inr ⟨_, mem_expressions_of_source (List.mem_cons_of_mem _ he), rfl⟩
      | wrapped hof =>
          rcases hr with ⟨hmem, hscope⟩ | ⟨e, he, rfl⟩
          · exact Or.inl ⟨hclosed _ hmem _ hof, hscope⟩
          · obtain ⟨e', hwraps, hreference⟩ := wrappedType_reference hof
            have hmem := mem_expressions_of_wrapped
              (hwraps.imp (fun h => h ▸ he) fun h => h ▸ he)
            exact Or.inr ⟨e', hmem, hreference.symm⟩
    · cases heq
    · cases heq
  · rcases asks_of_reaches hp with ⟨r', next, heq, -⟩ | ⟨t, heq⟩ | ⟨err, heq⟩ <;> cases heq

/-! ### Sets of node types that can be checked -/

instance (nodes : NodeTypes) (e : TypeExpr) : Decidable (nodes.CanMake e) :=
  match e with
  | .named name =>
    decidable_of_iff ((nodes.definition? name).isSome = true) Option.isSome_iff_ne_none
  | .list _ => isTrue trivial
  | .nonNull of =>
    inferInstanceAs (Decidable ((nodes.reference of).identifier.name ≠ nonNullName))

/-- Whether there is a type for everything that is used can be seen from the definitions. -/
theorem whole_of_expressions (h : ∀ e ∈ nodes.expressions root, nodes.CanMake e) :
    nodes.Whole root :=
  fun e he => h e (mem_expressions he)

/-- A run of requests for expressions asks for nothing but what these use. -/
theorem uses_of_possible (hs : nodes.Sound) {es : List TypeExpr}
    (hr : Possible (nodes.setup options) (es.map nodes.reference) r) :
    ∃ root ∈ es, ∃ e, nodes.Uses root e ∧ nodes.Stands r e := by
  induction hr with
  | root hr =>
      obtain ⟨root, hroot, rfl⟩ := List.mem_map.1 hr
      exact ⟨root, hroot, root, .refl, .refl _⟩
  | asked _ hp ih =>
      obtain ⟨root, hroot, e, he, hstands⟩ := ih
      exact ⟨root, hroot, he.of_reaches hs hstands hp⟩

/-- Whether the identities of a run have distinct keys can be seen from the definitions. -/
theorem apart_of_keys (hs : nodes.Sound) {es : List TypeExpr}
    (h : ((es.flatMap nodes.expressions).dedup.map nodes.keyOf).Nodup) :
    Apart (nodes.setup options) (es.map nodes.reference) := by
  intro r r' k hr hr' hk hk'
  obtain ⟨root, hroot, e, he, hstands⟩ := uses_of_possible hs hr
  obtain ⟨root', hroot', e', he', hstands'⟩ := uses_of_possible hs hr'
  have hmem : e ∈ (es.flatMap nodes.expressions).dedup :=
    List.mem_dedup.2 (List.mem_flatMap.2 ⟨root, hroot, mem_expressions he⟩)
  have hmem' : e' ∈ (es.flatMap nodes.expressions).dedup :=
    List.mem_dedup.2 (List.mem_flatMap.2 ⟨root', hroot', mem_expressions he'⟩)
  obtain rfl := List.inj_on_of_nodup_map h hmem hmem'
    ((keyOf_eq hstands hk).symm.trans (keyOf_eq hstands' hk'))
  rw [hstands.canonical, hstands'.canonical]

/-! ### Requests that can be relied on -/

theorem faultless_named {n : String} (h : nodes.CanMake (.named n)) :
    (nodes.reference (.named n)).identifier.fault? = none := by
  cases hg : nodes.get? n with
  | some node =>
      rw [reference_named_of_get? hg]
      exact (by decide +kernel : (Identifier.bare nodeName).fault? = none)
  | none =>
      have hall : ∀ n ∈ queryName :: dateTimeName :: builtinScalars,
          (Identifier.bare n).fault? = none := by decide +kernel
      rw [reference_named_of_none hg]
      refine hall n ?_
      by_contra hn
      simp only [List.mem_cons, not_or] at hn
      exact h (by simp only [definition?, hg, if_neg hn.1, if_neg hn.2.1, if_neg hn.2.2])

theorem faultless_wrapper {wrapper : String} {inner : Identifier}
    (hw : Text.isBlank wrapper = false) (h : inner.fault? = none) :
    ((Identifier.bare wrapper).withOption wrappedOption (.type inner)).fault? = none := by
  have hoption : Text.isBlank wrappedOption = false := by decide +kernel
  have hname : Text.isBlank (Identifier.bare wrapper).name = false := hw
  rw [Identifier.fault?_eq, Identifier.name_withOption, if_neg (by rw [hname]; decide),
    optionsFault?_eq_none_iff]
  exact List.forall_mem_singleton.2 ⟨hoption, by rw [Value.fault?]; exact h⟩

/-- If there is a type for everything that is used, all of it has keys. -/
theorem Whole.keyed (h : nodes.Whole root) (he : nodes.Uses root e) :
    (nodes.reference e).key = .ok (nodes.keyOf e) := by
  refine (Key.ofIdentifier_eq_ok_iff _ _ _).2 ⟨?_, rfl⟩
  induction e with
  | named n => exact faultless_named (h _ he)
  | list of ih =>
      rw [reference_list]
      exact faultless_wrapper (by decide +kernel) (ih (he.below (List.mem_singleton.2 rfl)))
  | nonNull of ih =>
      rw [reference_nonNull]
      exact faultless_wrapper (by decide +kernel) (ih (he.below (List.mem_singleton.2 rfl)))

/-- The requests of a run for what a root uses. -/
def Wanted (nodes : NodeTypes) (options : Options) (root : TypeExpr) (rs : List Request)
    (r : Request) : Prop :=
  Possible (nodes.setup options) rs r ∧ ∃ e, nodes.Uses root e ∧ nodes.Stands r e

variable {rs : List Request}

theorem Wanted.asked (hs : nodes.Sound) {D : Request → Prop}
    (h : nodes.Wanted options root rs r) {next : Answer TypeFault → TypeProgram}
    (hp : Reaches (nodes.setup options) (Permitted D) r log (.resolve r' next)) :
    nodes.Wanted options root rs r' := by
  obtain ⟨hr, e, he, hstands⟩ := h
  exact ⟨.asked hr (hp.mono fun _ _ => Permitted.weaken), he.of_reaches hs hstands hp⟩

/-- **If there is a type for all that a root uses, its requests can be relied on.** -/
theorem reliable (hs : nodes.Sound) (hw : nodes.Whole root)
    (hrs : ∀ r ∈ rs, r.identifier.Distinct) (ha : Apart (nodes.setup options) rs) :
    Reliable (nodes.setup options) (Possible (nodes.setup options) rs)
      (nodes.Wanted options root rs) where
  asks hr hp := .asked hr (hp.mono fun _ _ => Permitted.weaken)
  sound hr hr' hk hk' := by
    obtain ⟨hpossible, e, he, hstands⟩ := hr'
    exact ⟨hr, e, he, stands_of_canonical hstands hk' hk (distinct_of_arises hrs hr)
      (ha hr hpossible hk hk')⟩
  served hr hrefuses := by
    obtain ⟨-, e, he, hstands⟩ := hr
    obtain ⟨f, hf⟩ := find?_of_canMake (hw e he)
    rw [← hstands.identifier] at hf
    obtain ⟨n, hn⟩ := hrefuses f hf
    exact Bool.noConfusion ((admits_factory hf n).symm.trans hn)
  keyed hr := by
    obtain ⟨-, e, he, hstands⟩ := hr
    exact ⟨nodes.keyOf e, hstands.key.trans (hw.keyed he)⟩
  steady hr hp hfails := by
    obtain ⟨e, he, hstands⟩ := hr.2
    cases course_of_reaches hs hstands hp with
    | asks _ _ _ _ hr' =>
        subst hr'
        cases hfails
    | made _ _ _ _ _ _ hd =>
        subst hd
        cases hfails
    | failed err _ hlog =>
        -- what was asked for can be relied on too, and was not answered with an error
        obtain ⟨r', hmem⟩ := hlog
        obtain ⟨log₀, next, hp'⟩ := hp.asked hmem
        exact hp.answered _ hmem (Wanted.asked hs hr hp')
    | refused err hcan _ => exact hcan (hw e he)
  within hr hp := Wanted.asked hs hr hp

end NodeTypes

end SchemaGraph
