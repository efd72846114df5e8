/-
**Which names the definitions refer to.**

The type of a property has a name under its wrappers.  A set of node types is well referenced when
each such name is known: that of a node type of the set, of a scalar, or of the query object.  Then
there is a type for all that any of its types uses.  If a name is not known, no type that is wrapped
around it can be had, and the object of a node type with such a property is never constructed, in
whatever order and on however many threads constructions take place.

Main definitions:

* `NodeTypes.Knows`, `NodeTypes.WellReferenced` — the names that a property may refer to, and the
  sets whose properties refer to no other;
* `NodeTypes.Refers` — what an expression refers to, by the definitions alone;
* `NodeTypes.Reached` — the names that are reached from one, by the definitions alone.

Main results:

* `NodeTypes.uses_named_iff` — a root uses what is reached from it;
* `NodeTypes.reached_query_iff` — what is reached from the query object;
* `NodeTypes.whole_of_wellReferenced` — there is a type for all that a well referenced set uses;
* `NodeTypes.barred_of_unknown` — types of unknown names cannot be had;
* `NodeTypes.knows_of_ready` — **what was constructed refers to known names alone**.
-/

import SchemaGraph.Proofs.Nodes.Accepted
import SchemaGraph.Proofs.Registry.Barred
import SchemaGraph.Proofs.Schema.Built

set_option autoImplicit false

namespace SchemaGraph.NodeTypes

open Registry (Request Options Answer Program Possible Apart Session Barred Guided Withholds Reaches)

variable {nodes : NodeTypes} {options : Options} {name m n : String} {node : NodeType}
  {e e' root : TypeExpr} {rs : List Request} {r : Request} {s : TypeState} {k : Key}

/-! ### Known names -/

/-- A name that the type of a property may have: a node type of the set, a scalar, or the query
object. -/
def Knows (nodes : NodeTypes) (name : String) : Prop :=
  (nodes.get? name).isSome = true ∨ name ∈ builtinScalars ∨ name = dateTimeName ∨ name = queryName

/-- All properties of all node types refer to known names. -/
def WellReferenced (nodes : NodeTypes) : Prop :=
  ∀ name node, nodes.get? name = some node → ∀ p ∈ node.properties, nodes.Knows p.2.root

theorem canMake_named_iff : nodes.CanMake (.named name) ↔ nodes.Knows name := by
  cases hg : nodes.get? name with
  | some node => simp [CanMake, Knows, definition?_of_get? hg, hg]
  | none =>
      simp only [CanMake, definition?, Knows, hg, Option.isSome_none, Bool.false_eq_true, false_or]
      split
      · simp [*]
      · split
        · simp [*]
        · split <;> simp [*]

/-- A node type refers to the types of its properties. -/
theorem below_named_of_get? (h : nodes.get? n = some node) :
    nodes.below (.named n) = node.properties.map Prod.snd := by
  simp [below, definition?_of_get? h, definedNode, DefinedType.types]

theorem below_query (hs : nodes.Sound) :
    nodes.below (.named queryName) = (queryFields nodes).map PlannedField.type := by
  simp [below, hs.definition?_query, definedQuery, DefinedType.types]

theorem below_named_of_none (h : nodes.get? n = none) (hn : n ≠ queryName) :
    nodes.below (.named n) = [] := by
  simp only [below, definition?, h, if_neg hn]
  split
  · rfl
  · split <;> rfl

/-- The query object refers to each node type, on its own and in a list. -/
theorem mem_queryFields (hs : nodes.Sound) :
    e ∈ (queryFields nodes).map PlannedField.type ↔ ∃ name, (nodes.get? name).isSome = true ∧
      (e = .named name ∨ e = .nonNull (.list (.nonNull (.named name)))) := by
  simp only [queryFields, List.map_flatMap, List.mem_flatMap, fieldsFor, List.map_cons,
    List.map_nil, List.mem_cons, List.not_mem_nil, or_false, hs.mem_toList]
  constructor
  · rintro ⟨node, hget, he⟩
    exact ⟨node.name, by rw [hget]; rfl, he⟩
  · rintro ⟨name, hsome, he⟩
    obtain ⟨node, hget⟩ := Option.isSome_iff_exists.1 hsome
    obtain rfl := hs.named hget
    exact ⟨node, hget, he⟩

/-- What the definitions say that an expression refers to. -/
inductive Refers (nodes : NodeTypes) : TypeExpr → TypeExpr → Prop where
  | property {n : String} {node : NodeType} {p : String × TypeExpr} : nodes.get? n = some node →
      p ∈ node.properties → Refers nodes (.named n) p.2
  | single {n : String} : (nodes.get? n).isSome = true → Refers nodes (.named queryName) (.named n)
  | all {n : String} : (nodes.get? n).isSome = true →
      Refers nodes (.named queryName) (.nonNull (.list (.nonNull (.named n))))
  | list {of : TypeExpr} : Refers nodes (.list of) of
  | nonNull {of : TypeExpr} : Refers nodes (.nonNull of) of

theorem refers_of_below (hs : nodes.Sound) (he : e' ∈ nodes.below e) : nodes.Refers e e' := by
  cases e with
  | named n =>
      cases hg : nodes.get? n with
      | some node =>
          rw [below_named_of_get? hg, List.mem_map] at he
          obtain ⟨p, hp, rfl⟩ := he
          exact .property hg hp
      | none =>
          by_cases hquery : n = queryName
          · subst hquery
            rw [below_query hs, mem_queryFields hs] at he
            obtain ⟨name, hsome, rfl | rfl⟩ := he
            · exact .single hsome
            · exact .all hsome
          · rw [below_named_of_none hg hquery] at he
            cases he
  | list of =>
      obtain rfl := List.mem_singleton.1 he
      exact .list
  | nonNull of =>
      obtain rfl := List.mem_singleton.1 he
      exact .nonNull

/-! ### What is reached -/

/-- The type of a property of one node type has a name. -/
def Mentions (nodes : NodeTypes) (n m : String) : Prop :=
  ∃ node, nodes.get? n = some node ∧ ∃ p ∈ node.properties, p.2.root = m

/-- The names that are reached from one: the least set that contains it, is closed under the names
that the properties of its node types mention, and contains every node type once it contains the
query object. -/
inductive Reached (nodes : NodeTypes) (root : String) : String → Prop where
  | root : Reached nodes root root
  | mentioned {n m : String} : Reached nodes root n → nodes.Mentions n m → Reached nodes root m
  | queried {n : String} : Reached nodes root queryName → (nodes.get? n).isSome = true →
      Reached nodes root n

/-- An expression uses its name. -/
theorem uses_root (nodes : NodeTypes) (e : TypeExpr) : nodes.Uses e (.named e.root) := by
  induction e with
  | named n => exact .refl
  | list of ih => exact .head (List.mem_singleton.2 rfl) ih
  | nonNull of ih => exact .head (List.mem_singleton.2 rfl) ih

/-- The names of what is used are reached. -/
theorem Uses.reached {root : String} (hs : nodes.Sound) (h : nodes.Uses (.named root) e) :
    nodes.Reached root e.root := by
  induction h with
  | refl => exact .root
  | tail _ he ih =>
      cases refers_of_below hs he with
      | property hg hp => exact ih.mentioned ⟨_, hg, _, hp, rfl⟩
      | single hsome => exact .queried ih hsome
      | all hsome => exact .queried ih hsome
      | list => exact ih
      | nonNull => exact ih

/-- **A root uses what is reached from it.** -/
theorem uses_named_iff {root : String} (hs : nodes.Sound) :
    nodes.Uses (.named root) (.named name) ↔ nodes.Reached root name := by
  refine ⟨fun h => h.reached hs, fun h => ?_⟩
  induction h with
  | root => exact .refl
  | @mentioned n _ _ hm ih =>
      obtain ⟨node, hg, p, hp, rfl⟩ := hm
      have hbelow : p.2 ∈ nodes.below (.named n) := by
        rw [below_named_of_get? hg]
        exact List.mem_map_of_mem hp
      exact (ih.below hbelow).trans (nodes.uses_root p.2)
  | @queried n _ hsome ih =>
      have hbelow : .named n ∈ nodes.below (.named queryName) := by
        rw [below_query hs, mem_queryFields hs]
        exact ⟨n, hsome, Or.inl rfl⟩
      exact ih.below hbelow

/-- The query object reaches itself, all node types, and the scalars that they mention. -/
theorem reached_query_iff (hw : nodes.WellReferenced) : nodes.Reached queryName name ↔
    name = queryName ∨ (nodes.get? name).isSome = true ∨
      ((name ∈ builtinScalars ∨ name = dateTimeName) ∧ ∃ n, nodes.Mentions n name) := by
  constructor
  · intro h
    induction h with
    | root => exact Or.inl rfl
    | @mentioned n m _ hm _ =>
        have hmentions := hm
        obtain ⟨node, hg, p, hp, rfl⟩ := hm
        rcases hw n node hg p hp with h | h | h | h
        · exact Or.inr (Or.inl h)
        · exact Or.inr (Or.inr ⟨Or.inl h, n, hmentions⟩)
        · exact Or.inr (Or.inr ⟨Or.inr h, n, hmentions⟩)
        · exact Or.inl h
    | queried _ hsome => exact Or.inr (Or.inl hsome)
  · rintro (rfl | hsome | ⟨-, n, hm⟩)
    · exact .root
    · exact .queried .root hsome
    · obtain ⟨node, hg, -⟩ := id hm
      exact (Reached.queried .root (by rw [hg]; rfl)).mentioned hm

/-! ### Well referenced sets -/

/-- Null is excluded from what does not exclude it already. -/
theorem canMake_of_single (h : e.Single) (hk : nodes.Knows e.root) : nodes.CanMake e := by
  cases e with
  | named n => exact canMake_named_iff.2 hk
  | list of => trivial
  | nonNull of =>
      intro hname
      cases of with
      | named n =>
          cases hg : nodes.get? n with
          | some node =>
              rw [reference_named_of_get? hg] at hname
              exact absurd hname (by decide +kernel : nodeName ≠ nonNullName)
          | none =>
              rw [reference_named_of_none hg] at hname
              obtain rfl : n = nonNullName := hname
              have hunknown : ¬ (nonNullName ∈ builtinScalars ∨ nonNullName = dateTimeName ∨
                  nonNullName = queryName) := by decide +kernel
              exact hk.elim (fun h => by simp [TypeExpr.root, hg] at h) hunknown
      | list of =>
          rw [reference_list] at hname
          exact absurd hname (by decide +kernel : listName ≠ nonNullName)
      | nonNull of => exact h.2 of rfl

/-- **There is a type for all that a known name of a well referenced set uses.** -/
theorem whole_of_wellReferenced (hn : nodes.Accepted) (hw : nodes.WellReferenced)
    (hk : nodes.Knows name) : nodes.Whole (.named name) := by
  have hknown : ∀ e, nodes.Uses (.named name) e → e.Single ∧ nodes.Knows e.root := by
    intro e he
    induction he with
    | refl => exact ⟨trivial, hk⟩
    | tail _ he ih =>
        cases refers_of_below hn.sound he with
        | property hg hp =>
            obtain ⟨text, hread⟩ := (hn.defined hg).read _ hp
            exact ⟨single_of_read hread, hw _ _ hg _ hp⟩
        | single hsome => exact ⟨trivial, Or.inl hsome⟩
        | all hsome => exact ⟨⟨⟨trivial, nofun⟩, nofun⟩, Or.inl hsome⟩
        | list => exact ih
        | nonNull => exact ⟨ih.1.1, ih.2⟩
  exact fun e he => canMake_of_single (hknown e he).1 (hknown e he).2

/-! ### Unknown names -/

/-- The request of an expression whose name is not known. -/
def Unknown (nodes : NodeTypes) (r : Request) : Prop :=
  ∃ e, nodes.Stands r e ∧ ¬ nodes.Knows e.root

/-- What an expression refers to is known, if it was answered with handles. -/
theorem knows_of_done {log : List (Request × Answer TypeFault)} {y : Registry.Yield SchemaType}
    (hs : nodes.Sound) (h : nodes.Stands r e)
    (hp : Reaches (nodes.setup options) (Withholds nodes.Unknown) r log (.done y)) :
    nodes.CanMake e ∧ ∀ e' ∈ nodes.below e, nodes.Knows e'.root := by
  cases course_of_reaches hs h hp with
  | asks _ _ _ _ hd => cases hd
  | failed _ hd => cases hd
  | refused _ _ hd => cases hd
  | made rs hs hcan hrs hlen hlog =>
      subst hlog
      refine ⟨hcan, fun e' he' => ?_⟩
      obtain ⟨h, -, r', hstands, hknown⟩ :=
        (exists_of_forall₂ (forall₂_granted hrs hlen hp.answered)).2 e' he'
      by_contra hunknown
      exact hknown ⟨e', hstands, hunknown⟩

/-- An expression that refers to another one with an unknown name has that name itself, and its
identifier is larger. -/
theorem Unknown.below {e e' : TypeExpr} (hk : ¬ nodes.Knows e.root) (he : e' ∈ nodes.below e) :
    ¬ nodes.Knows e'.root ∧
      sizeOf (nodes.reference e').identifier < sizeOf (nodes.reference e).identifier := by
  have hwrapper : ∀ (wrapper : String) (inner : Identifier), sizeOf inner
      < sizeOf ((Identifier.bare wrapper).withOption wrappedOption (.type inner)) := by
    intro wrapper inner
    rw [show (Identifier.bare wrapper).withOption wrappedOption (.type inner)
      = ⟨wrapper, [(wrappedOption, .type inner)]⟩ from rfl]
    simp only [Identifier.mk.sizeOf_spec, List.cons.sizeOf_spec, Prod.mk.sizeOf_spec,
      Value.type.sizeOf_spec]
    omega
  cases e with
  | named n =>
      have hnone : nodes.definition? n = none := not_not.1 fun h => hk (canMake_named_iff.1 h)
      simp [NodeTypes.below, hnone] at he
  | list of =>
      obtain rfl := List.mem_singleton.1 he
      rw [reference_list]
      exact ⟨hk, hwrapper _ _⟩
  | nonNull of =>
      obtain rfl := List.mem_singleton.1 he
      rw [reference_nonNull]
      exact ⟨hk, hwrapper _ _⟩

/-- **Types of unknown names cannot be had.** -/
theorem barred_of_unknown (hs : nodes.Sound) (hrs : ∀ r ∈ rs, r.identifier.Distinct)
    (ha : Apart (nodes.setup options) rs) :
    Barred (nodes.setup options) (Possible (nodes.setup options) rs) nodes.Unknown
      fun r => sizeOf r.identifier where
  asks hr hp := .asked hr hp
  sound hr hr' hk hk' hX := by
    obtain ⟨e, hstands, hunknown⟩ := hX
    have hstands' := stands_of_canonical hstands hk hk' (distinct_of_arises hrs hr')
      (ha hr' hr hk' hk)
    exact ⟨⟨e, hstands', hunknown⟩, by rw [hstands'.identifier, hstands.identifier]⟩
  descends hX hp := by
    obtain ⟨e, hstands, hunknown⟩ := hX
    cases course_of_reaches hs hstands hp with
    | asks rs r'' next hrs hr' hhead =>
        obtain ⟨rfl, -⟩ := Program.resolve.inj hr'
        have hmem : _ ∈ rs := hhead.subset (List.mem_append_right _ (List.mem_singleton.2 rfl))
        obtain ⟨e', he', hstands'⟩ := (exists_of_forall₂ hrs).1 _ hmem
        obtain ⟨hunknown', hlt⟩ := Unknown.below hunknown he'
        exact ⟨⟨e', hstands', hunknown'⟩, by rwa [hstands'.identifier, hstands.identifier]⟩
    | made _ _ _ _ _ _ hd => cases hd
    | failed _ hd => cases hd
    | refused _ _ hd => cases hd
  undone hX hp := by
    obtain ⟨e, hstands, hunknown⟩ := hX
    obtain ⟨hcan, hknown⟩ := knows_of_done hs hstands hp
    cases e with
    | named n => exact hunknown (canMake_named_iff.1 hcan)
    | list of => exact hunknown (hknown of (List.mem_singleton.2 rfl))
    | nonNull of => exact hunknown (hknown of (List.mem_singleton.2 rfl))

/-- **What was constructed refers to known names alone**, if calls wait for the constructions of
other threads. -/
theorem knows_of_ready {made : List Request} {ks : List Key} {i : Registry.InstanceId}
    (hs : nodes.Sound) (hrs : ∀ r ∈ rs, r.identifier.Distinct) (ha : Apart (nodes.setup options) rs)
    (hblock : options.block = true) (hsession : Session (nodes.setup options) made ks s)
    (hmade : made ⊆ rs) (hr : Possible (nodes.setup options) rs r) (h : nodes.Stands r e)
    (hk : r.key = .ok k) (hready : Dictionary.find? k s.store.table.entries = some (.ready i)) :
    ∀ e' ∈ nodes.below e, nodes.Knows e'.root := by
  have hguided := (barred_of_unknown hs hrs ha).guided hblock hsession fun r hr => .root (hmade hr)
  obtain ⟨r', log, y, hr', hk', hp⟩ := hguided.made hready
  have hstands := stands_of_canonical h hk hk' (distinct_of_arises hrs hr') (ha hr' hr hk' hk)
  exact (knows_of_done hs hstands hp).2

end SchemaGraph.NodeTypes
