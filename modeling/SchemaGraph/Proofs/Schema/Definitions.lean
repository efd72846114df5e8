/-
**What the definitions say.**

A set of node types defines a graph of type expressions: a node type refers to the types of its
properties, the query object to those of its fields, and a wrapper to what it wraps.  Expressions
stand for requests, and no two of them for the same one.  The factories of the registry do for the
request of an expression what the graph says: they ask for what is below it, in order, and make the
type of the answers; or they fail at once.

Main definitions:

* `NodeTypes.Sound` — each node type stands under its own name, which has no fixed meaning;
* `DefinedType`, `NodeTypes.definition?` — what a name stands for;
* `NodeTypes.below`, `NodeTypes.CanMake`, `NodeTypes.make` — what an expression refers to, whether
  there is a type for it, and the type made of handles;
* `Request.Alike` — requests for one identifier in scopes of one name.

Main results:

* `NodeTypes.sound_empty`, `NodeTypes.Sound.insert` — sets of node types are sound;
* `NodeTypes.Sound.mem_toList`, `NodeTypes.Sound.pairwise_toList` — the node types by name;
* `NodeTypes.reference_inj` — different expressions stand for different requests;
* `NodeTypes.stands_of_canonical` — the canonical identity tells which expression a request is for;
* `NodeTypes.build_of_stands` — **factories do what the definitions say**;
* `NodeTypes.build_keeps` — what they ask for, whatever they are called with.
-/

import SchemaGraph.Proofs.Identity.Unambiguous
import SchemaGraph.Proofs.Registry.Motion
import SchemaGraph.Nodes.Definitions
import SchemaGraph.Schema.Generated

set_option autoImplicit false

namespace SchemaGraph

open Decimal (Binary64)
open Registry (Handle Request Options Answer)

/-! ### Sets of node types -/

/-- Each node type stands once, under its own name, which has no fixed meaning. -/
structure NodeTypes.Sound (nodes : NodeTypes) : Prop where
  distinct : (Dictionary.names nodes.entries).Nodup
  named : ∀ {name : String} {node : NodeType}, nodes.get? name = some node → node.name = name
  free : ∀ {name : String} {node : NodeType}, nodes.get? name = some node → name ∉ reservedNames

namespace NodeTypes

variable {nodes : NodeTypes}

theorem sound_empty : empty.Sound where
  distinct := List.nodup_nil
  named h := by simp [get?, empty] at h
  free h := by simp [get?, empty] at h

/-- Inserting node types keeps a set sound. -/
theorem Sound.insert {nodes' : NodeTypes} {node : NodeType} (hs : nodes.Sound)
    (h : nodes.insert node = .ok nodes') : nodes'.Sound := by
  have hget := get?_insert h
  obtain ⟨hfault, rfl⟩ := insert_eq_ok_iff.1 h
  refine ⟨Dictionary.nodup_names_set hs.distinct _ _, fun {n m} hn => ?_, fun {n m} hn => ?_⟩
  · rw [hget] at hn
    split at hn
    · rw [Option.some.injEq] at hn
      rw [← hn, ‹node.name = n›]
    · exact hs.named hn
  · rw [hget] at hn
    split at hn
    · rename_i hname
      rw [← hname]
      intro hmem
      simp [nodeNameFault?, hmem] at hfault
    · exact hs.free hn

theorem Sound.mem_toList (hs : nodes.Sound) (node : NodeType) :
    node ∈ nodes.toList ↔ nodes.get? node.name = some node := by
  rw [toList, List.mem_map]
  constructor
  · rintro ⟨⟨name, node⟩, hmem, rfl⟩
    have hget : nodes.get? name = some node :=
      (Dictionary.mem_iff_find? hs.distinct name node).1 (Dictionary.mem_sorted.1 hmem)
    rw [hs.named hget, hget]
  · intro hget
    exact ⟨(node.name, node), Dictionary.mem_sorted.2 (Dictionary.mem_of_find? hget), rfl⟩

/-- The node types are listed by name. -/
theorem Sound.pairwise_toList (hs : nodes.Sound) :
    nodes.toList.Pairwise fun a b => a.name < b.name := by
  have hkeys : ∀ p ∈ Dictionary.sorted nodes.entries, p.2.name = p.1 := fun p hp =>
    hs.named ((Dictionary.mem_iff_find? hs.distinct p.1 p.2).1 (Dictionary.mem_sorted.1 hp))
  have hnodup : (Dictionary.sorted nodes.entries).Pairwise fun p q => p.1 ≠ q.1 :=
    List.pairwise_map.1 (((Dictionary.sorted_perm nodes.entries).map Prod.fst).nodup_iff.2
      hs.distinct)
  refine List.pairwise_map.2 (((Dictionary.pairwise_sorted nodes.entries).and
    hnodup).imp_of_mem fun {p q} hp hq hpq => ?_)
  rw [hkeys p hp, hkeys q hq]
  by_contra hlt
  exact hpq.2 (String.le_antisymm hpq.1 (String.not_lt.1 hlt))

end NodeTypes

/-! ### The graph of definitions -/

/-- A field as it is defined. -/
structure DefinedField where
  name : String
  type : TypeExpr
  description : Option String

/-- What a name is defined to be. -/
inductive DefinedType where
  | scalar (description : Option String)
  | object (fields : List DefinedField) (description : Option String)

namespace DefinedType

/-- The expressions that a type refers to, in order. -/
def types : DefinedType → List TypeExpr
  | .scalar _ => []
  | .object fields _ => fields.map DefinedField.type

/-- The type of a name, made of handles to the types that it refers to. -/
def make (name : String) : DefinedType → List Handle → SchemaType
  | .scalar d, _ => ⟨.scalar name, d⟩
  | .object fields d, types =>
    ⟨.object name (fields.zipWith (fun f h => ⟨f.name, h, f.description⟩) types), d⟩

theorem name?_make (d : DefinedType) (name : String) (hs : List Handle) :
    (d.make name hs).name? = some name := by
  cases d <;> rfl

end DefinedType

namespace NodeTypes

variable {nodes : NodeTypes}

/-- The object of a node type, as it is defined. -/
def definedNode (node : NodeType) : DefinedType :=
  .object (node.properties.map fun p => ⟨p.1, p.2, none⟩) node.description

/-- The query object, as it is defined. -/
def definedQuery (nodes : NodeTypes) : DefinedType :=
  .object ((queryFields nodes).map fun f => ⟨f.name, f.type, some f.description⟩) none

/-- What a name stands for: a node type, or one of the types that every schema has. -/
def definition? (nodes : NodeTypes) (name : String) : Option DefinedType :=
  match nodes.get? name with
  | some node => some (definedNode node)
  | none =>
    if name ∈ builtinScalars then some (.scalar none)
    else if name = dateTimeName then some (.scalar dateTime.description)
    else if name = queryName then some (definedQuery nodes)
    else none

/-- The expressions that an expression refers to, in order. -/
def below (nodes : NodeTypes) : TypeExpr → List TypeExpr
  | .named name => ((nodes.definition? name).map DefinedType.types).getD []
  | .list of | .nonNull of => [of]

/-- Whether there is a type for an expression, as far as the expression itself is concerned. -/
def CanMake (nodes : NodeTypes) : TypeExpr → Prop
  | .named name => nodes.definition? name ≠ none
  | .list _ => True
  | .nonNull of => (nodes.reference of).identifier.name ≠ nonNullName

/-- The type for an expression, made of handles to what is below it. -/
def make (nodes : NodeTypes) : TypeExpr → List Handle → SchemaType
  | .named name, hs => ((nodes.definition? name).map fun d => d.make name hs).getD default
  | .list _, hs => ⟨.list (hs.headD default), none⟩
  | .nonNull _, hs => ⟨.nonNull (hs.headD default), none⟩

theorem definition?_of_get? {name : String} {node : NodeType} (h : nodes.get? name = some node) :
    nodes.definition? name = some (definedNode node) := by
  simp only [definition?, h]

theorem name?_make_named {name : String} (h : nodes.CanMake (.named name)) (hs : List Handle) :
    (nodes.make (.named name) hs).name? = some name := by
  obtain ⟨d, hd⟩ := Option.ne_none_iff_exists'.1 h
  simp only [make, hd, Option.map_some, Option.getD_some, DefinedType.name?_make]

/-! ### Requests for expressions -/

theorem reference_named_of_get? {name : String} {node : NodeType}
    (h : nodes.get? name = some node) : nodes.reference (.named name) = objectOf node := by
  simp only [reference, TypeExpr.root, h]
  rfl

theorem reference_named_of_none {name : String} (h : nodes.get? name = none) :
    nodes.reference (.named name) = ⟨.bare name, none⟩ := by
  simp only [reference, TypeExpr.root, h]
  rfl

theorem reference_list (nodes : NodeTypes) (e : TypeExpr) : nodes.reference (.list e)
    = ⟨(Identifier.bare listName).withOption wrappedOption (.type (nodes.reference e).identifier),
      (nodes.reference e).context⟩ := by
  simp only [reference, TypeExpr.root]
  split <;> rfl

theorem reference_nonNull (nodes : NodeTypes) (e : TypeExpr) : nodes.reference (.nonNull e)
    = ⟨(Identifier.bare nonNullName).withOption wrappedOption
      (.type (nodes.reference e).identifier), (nodes.reference e).context⟩ := by
  simp only [reference, TypeExpr.root]
  split <;> rfl

/-- The identifiers of expressions set at most one option, at every depth. -/
theorem identifier_reference (nodes : NodeTypes) (e : TypeExpr) :
    ∃ name, (nodes.reference e).identifier = e.wrap (.bare name) := by
  unfold reference
  split
  · exact ⟨_, rfl⟩
  · exact ⟨_, rfl⟩

end NodeTypes

theorem TypeExpr.distinct_wrap (name : String) (e : TypeExpr) :
    (e.wrap (.bare name)).Distinct := by
  induction e with
  | named n => exact Identifier.distinct_bare name
  | list e ih => exact (Identifier.distinct_bare _).withOption _ ((Value.distinct_type _).2 ih)
  | nonNull e ih => exact (Identifier.distinct_bare _).withOption _ ((Value.distinct_type _).2 ih)

theorem NodeTypes.distinct_reference (nodes : NodeTypes) (e : TypeExpr) :
    (nodes.reference e).identifier.Distinct := by
  obtain ⟨name, h⟩ := nodes.identifier_reference e
  rw [h]
  exact e.distinct_wrap name

/-- What agrees with an identifier of one option has one option too. -/
theorem Identifier.eq_of_agrees_single {floats : Binary64 → Binary64 → Bool} {a : Identifier}
    {name option : String} {w : Value} (ha : (Dictionary.names a.config).Nodup)
    (h : a.agrees floats ⟨name, [(option, w)]⟩ = true) :
    ∃ v, a = ⟨name, [(option, v)]⟩ ∧ v.agrees floats w = true := by
  obtain ⟨hname, hoptions⟩ := (Identifier.agrees_iff ha).1 h
  have hself : Option.Rel (fun v w => v.agrees floats w = true) (a.option? option) (some w) := by
    have hrel := hoptions option
    rwa [show Identifier.option? ⟨name, [(option, w)]⟩ option = some w by
      simp [Identifier.option?, Identifier.config, Dictionary.find?]] at hrel
  obtain ⟨v, hv, hagree⟩ : ∃ v, a.option? option = some v ∧ v.agrees floats w = true := by
    generalize a.option? option = found at hself
    cases hself with
    | some hvw => exact ⟨_, rfl, hvw⟩
  -- all options have the one name, and no two have the same
  have honly : ∀ p ∈ a.config, p = (option, v) := by
    intro p hp
    have hfind := (Dictionary.mem_iff_find? ha p.1 p.2).1 hp
    have hrel := hoptions p.1
    rw [Identifier.option?, hfind] at hrel
    by_cases hop : option = p.1
    · subst hop
      rw [Identifier.option?, hfind, Option.some.injEq] at hv
      exact Prod.ext rfl hv
    · rw [show Identifier.option? ⟨name, [(option, w)]⟩ p.1 = none by
        simp [Identifier.option?, Identifier.config, Dictionary.find?, hop]] at hrel
      cases hrel
  have hmem : (option, v) ∈ a.config := (Dictionary.mem_iff_find? ha option v).2 hv
  refine ⟨v, ?_, hagree⟩
  obtain ⟨m, options⟩ := a
  have hlist : options = [(option, v)] := by
    have hrep := List.eq_replicate_of_mem honly
    have hnodup : (Identifier.config ⟨m, options⟩).Nodup := Dictionary.nodup_of_names ha
    rw [hrep] at hnodup
    have hle := List.nodup_replicate.1 hnodup
    have hpos := List.length_pos_of_mem hmem
    rw [show (Identifier.config ⟨m, options⟩).length = 1 by omega] at hrep
    exact hrep
  simp only at hname
  rw [hname, hlist]

/-- What agrees with the identifier of an expression is that identifier. -/
theorem Identifier.eq_of_agrees_wrap {floats : Binary64 → Binary64 → Bool} (name : String)
    (e : TypeExpr) {a : Identifier} (ha : a.Distinct)
    (h : a.agrees floats (e.wrap (.bare name)) = true) : a = e.wrap (.bare name) := by
  have hwrapper : ∀ {wrapper : String} {e : TypeExpr} {a : Identifier}, a.Distinct →
      (∀ {a : Identifier}, a.Distinct → a.agrees floats (e.wrap (.bare name)) = true →
        a = e.wrap (.bare name)) →
      a.agrees floats ⟨wrapper, [(wrappedOption, .type (e.wrap (.bare name)))]⟩ = true →
      a = ⟨wrapper, [(wrappedOption, .type (e.wrap (.bare name)))]⟩ := by
    intro wrapper e a ha ih h
    rw [Identifier.distinct_iff] at ha
    obtain ⟨v, rfl, hagree⟩ := Identifier.eq_of_agrees_single ha.1 h
    cases v with
    | type inner =>
        have hinner := ha.2 (wrappedOption, .type inner) (List.mem_singleton.2 rfl)
        rw [Value.agrees] at hagree
        rw [ih ((Value.distinct_type _).1 hinner) hagree]
    | _ => cases hagree
  induction e generalizing a with
  | named n =>
      obtain ⟨hname, hoptions⟩ :=
        (Identifier.agrees_iff ((Identifier.distinct_iff a).1 ha).1).1 h
      obtain ⟨m, options⟩ := a
      cases options with
      | nil => exact congrArg (Identifier.mk · []) hname
      | cons p options =>
          have hrel := hoptions p.1
          simp [Identifier.option?, Identifier.config, Dictionary.find?, TypeExpr.wrap,
            Identifier.bare] at hrel
  | list e ih => exact hwrapper ha (fun ha => ih ha) h
  | nonNull e ih => exact hwrapper ha (fun ha => ih ha) h

/-! ### Requests that are alike -/

namespace Registry.Request

/-- Requests for one identifier in scopes of one name. -/
structure Alike (r r' : Request) : Prop where
  identifier : r.identifier = r'.identifier
  scope : r.context.map Context.name = r'.context.map Context.name

variable {r r' r'' : Request}

theorem Alike.refl (r : Request) : r.Alike r := ⟨rfl, rfl⟩

theorem Alike.canonical (h : r.Alike r') : r.canonical = r'.canonical := by
  rw [Request.canonical, Request.canonical, ← String.toList_inj, toList_canonicalIdentity,
    toList_canonicalIdentity, h.identifier, (scopeChars_eq_iff _ _).2 h.scope]

theorem Alike.key (h : r.Alike r') : r.key = r'.key := by
  have hcanonical : canonicalIdentity r.identifier r.context
      = canonicalIdentity r'.identifier r'.context := h.canonical
  rw [Request.key, Request.key, Key.ofIdentifier, Key.ofIdentifier, hcanonical, h.identifier]

theorem fault?_of_key {k : Key} (h : r.key = .ok k) : r.identifier.fault? = none :=
  ((Key.ofIdentifier_eq_ok_iff _ _ _).1 h).1

end Registry.Request

/-- A request stands for an expression. -/
abbrev NodeTypes.Stands (nodes : NodeTypes) (r : Request) (e : TypeExpr) : Prop :=
  r.Alike (nodes.reference e)

namespace NodeTypes

variable {nodes : NodeTypes} {r r' : Request} {e e' : TypeExpr}

/-- The request of a name, and the name that its scope or its identifier has. -/
theorem name_reference_named (hs : nodes.Sound) (name : String) :
    ((nodes.reference (.named name)).context.map Context.name).getD
      (nodes.reference (.named name)).identifier.name = name := by
  cases hg : nodes.get? name with
  | none =>
      rw [reference_named_of_none hg]
      rfl
  | some node =>
      rw [reference_named_of_get? hg]
      exact hs.named hg

theorem options_reference (nodes : NodeTypes) (e : TypeExpr) :
    (nodes.reference e).identifier.options = match e with
      | .named _ => []
      | .list of | .nonNull of => [(wrappedOption, .type (nodes.reference of).identifier)] := by
  cases e with
  | named n =>
      obtain ⟨name, h⟩ := nodes.identifier_reference (.named n)
      rw [h]
      rfl
  | list of =>
      rw [reference_list]
      rfl
  | nonNull of =>
      rw [reference_nonNull]
      rfl

/-- **Different expressions stand for different requests.** -/
theorem reference_inj (hs : nodes.Sound)
    (h : (nodes.reference e).Alike (nodes.reference e')) : e = e' := by
  have hwrappers : ∀ of of' : TypeExpr, (nodes.reference (.list of)).identifier.name
      ≠ (nodes.reference (.nonNull of')).identifier.name := by
    intro of of'
    rw [reference_list, reference_nonNull]
    exact (by decide : listName ≠ nonNullName)
  induction e generalizing e' with
  | named n =>
      have hoptions := congrArg Identifier.options h.identifier
      rw [options_reference, options_reference] at hoptions
      cases e' with
      | named n' =>
          have hname := name_reference_named hs n
          rw [h.identifier, h.scope, name_reference_named hs n'] at hname
          rw [hname]
      | list of' => cases hoptions
      | nonNull of' => cases hoptions
  | list of ih =>
      have hoptions := congrArg Identifier.options h.identifier
      rw [options_reference, options_reference] at hoptions
      cases e' with
      | named n' => cases hoptions
      | list of' =>
          have hscope := h.scope
          rw [reference_list, reference_list] at hscope
          simp only [List.cons.injEq, Prod.mk.injEq, Value.type.injEq, true_and, and_true]
            at hoptions
          rw [ih ⟨hoptions, hscope⟩]
      | nonNull of' => exact absurd (congrArg Identifier.name h.identifier) (hwrappers of of')
  | nonNull of ih =>
      have hoptions := congrArg Identifier.options h.identifier
      rw [options_reference, options_reference] at hoptions
      cases e' with
      | named n' => cases hoptions
      | list of' => exact absurd (congrArg Identifier.name h.identifier).symm (hwrappers of' of)
      | nonNull of' =>
          have hscope := h.scope
          rw [reference_nonNull, reference_nonNull] at hscope
          simp only [List.cons.injEq, Prod.mk.injEq, Value.type.injEq, true_and, and_true]
            at hoptions
          rw [ih ⟨hoptions, hscope⟩]

/-- **The canonical identity tells which expression a request is for.** -/
theorem stands_of_canonical {k k' : Key} (h : nodes.Stands r e) (hk : r.key = .ok k)
    (hk' : r'.key = .ok k') (hd : r'.identifier.Distinct) (hc : r'.canonical = r.canonical) :
    nodes.Stands r' e := by
  have hdistinct : r.identifier.Distinct := h.identifier ▸ nodes.distinct_reference e
  obtain ⟨hagree, hscope⟩ := (canonicalIdentity_unambiguous (Request.fault?_of_key hk')
    (Request.fault?_of_key hk) hd hdistinct r'.context r.context).1.1 hc
  obtain ⟨name, hname⟩ := nodes.identifier_reference e
  rw [h.identifier, hname] at hagree
  refine ⟨?_, hscope.trans h.scope⟩
  rw [hname]
  exact Identifier.eq_of_agrees_wrap name e hd hagree

end NodeTypes

/-! ### Factories -/

namespace NodeTypes

variable {nodes : NodeTypes} {options : Options} {r : Request} {e : TypeExpr} {n : String}
  {f : TypeFactory}

/-- The factories of a registry, by name. -/
theorem factory_cases (h : Dictionary.find? n nodes.factories = some f) :
    (n ∈ builtinScalars ∧ f = fixedFactory (scalarType n)) ∨
      (n, f) ∈ [(dateTimeName, fixedFactory dateTime), (enumName, enumFactory),
        (listName, listFactory), (nonNullName, nonNullFactory), (nodeName, nodeFactory nodes),
        (queryName, queryFactory nodes)] := by
  have hmem := Dictionary.mem_of_find? h
  simp only [factories, builtinFactories, List.append_assoc, List.mem_append, List.mem_map] at hmem
  rcases hmem with ⟨name, hname, heq⟩ | hmem | hmem
  · obtain ⟨rfl, rfl⟩ := Prod.mk.inj heq
    exact Or.inl ⟨hname, rfl⟩
  · exact Or.inr (List.mem_append_left [_, _] hmem)
  · exact Or.inr (List.mem_append_right [_, _, _, _] hmem)

/-- All factories are of the family. -/
theorem admits_factory (h : Dictionary.find? n nodes.factories = some f) (asked : Nat) :
    schemaFamily.admits asked n f.tag = true := by
  rw [schemaFamily, Registry.Family.admits_ofTags]
  rcases factory_cases h with ⟨-, rfl⟩ | hmem
  · exact (scalarType n).tag_mem_schemaTags
  · simp only [List.mem_cons, Prod.mk.injEq, List.not_mem_nil, or_false] at hmem
    rcases hmem with ⟨-, rfl⟩ | ⟨-, rfl⟩ | ⟨-, rfl⟩ | ⟨-, rfl⟩ | ⟨-, rfl⟩ | ⟨-, rfl⟩ <;>
      simp [schemaTags, fixedFactory, SchemaType.tag, dateTime, enumFactory, listFactory,
        nonNullFactory, nodeFactory, queryFactory]

/-- What is found under the names with a fixed meaning. -/
theorem find?_scalar (nodes : NodeTypes) (h : n ∈ builtinScalars) :
    Dictionary.find? n nodes.factories = some (fixedFactory (scalarType n)) := by
  simp only [builtinScalars, List.mem_cons, List.not_mem_nil, or_false] at h
  rcases h with rfl | rfl | rfl | rfl | rfl <;> rfl

/-- There is a factory for what can be made. -/
theorem find?_of_canMake (h : nodes.CanMake e) :
    ∃ f, Dictionary.find? (nodes.reference e).identifier.name nodes.factories = some f := by
  cases e with
  | named n =>
      cases hg : nodes.get? n with
      | some node =>
          rw [reference_named_of_get? hg]
          exact ⟨_, rfl⟩
      | none =>
          rw [reference_named_of_none hg]
          simp only [CanMake, definition?, hg] at h
          by_cases hscalar : n ∈ builtinScalars
          · exact ⟨_, find?_scalar nodes hscalar⟩
          · rw [if_neg hscalar] at h
            by_cases hdate : n = dateTimeName
            · exact hdate ▸ ⟨_, rfl⟩
            · rw [if_neg hdate] at h
              by_cases hquery : n = queryName
              · exact hquery ▸ ⟨_, rfl⟩
              · exact absurd (if_neg hquery) h
  | list of =>
      rw [reference_list]
      exact ⟨_, rfl⟩
  | nonNull of =>
      rw [reference_nonNull]
      exact ⟨_, rfl⟩

/-- What a program does with the request of an expression: it makes a new type of the answers to
what is below, or fails at once. -/
inductive Builds (nodes : NodeTypes) (e : TypeExpr) (p : TypeProgram) : Prop where
  | makes (rs : List Request) : nodes.CanMake e →
      List.Forall₂ nodes.Stands rs (nodes.below e) →
      p = .keep rs (fun hs => .done (.new (nodes.make e hs))) → Builds nodes e p
  | fails (err : TypeError) : ¬ nodes.CanMake e → p = .fail err → Builds nodes e p

theorem forall₂_stands (nodes : NodeTypes) (es : List TypeExpr) :
    List.Forall₂ nodes.Stands (es.map nodes.reference) es :=
  List.forall₂_map_left_iff.2 (List.forall₂_same.2 fun e _ => .refl (nodes.reference e))

/-- A wrapper asks for what it wraps, in its own scope. -/
theorem builds_wrapper {wrap : Handle → TypeKind} {of : TypeExpr} {scope : Option Context}
    (hcan : nodes.CanMake e) (hbelow : nodes.below e = [of])
    (hmake : ∀ h, nodes.make e [h] = ⟨wrap h, none⟩)
    (hscope : scope.map Context.name = (nodes.reference of).context.map Context.name) :
    Builds nodes e (.request ⟨(nodes.reference of).identifier, scope⟩
      fun h => .done (.new ⟨wrap h, none⟩)) := by
  refine .makes [⟨(nodes.reference of).identifier, scope⟩] hcan ?_ ?_
  · rw [hbelow]
    exact .cons ⟨rfl, hscope⟩ .nil
  · rw [Registry.Program.keep_cons]
    simp only [Registry.Program.keep_nil, hmake]

theorem builds_scalar {d : Option String}
    (hd : nodes.definition? n = some (.scalar d)) :
    Builds nodes (.named n) (.done (.new ⟨.scalar n, d⟩)) := by
  refine .makes [] (by simp [CanMake, hd]) ?_ ?_
  · simp [below, hd, DefinedType.types]
  · simp [make, hd, DefinedType.make]

theorem builds_object {fields : List DefinedField} {d : Option String} {p : TypeProgram}
    (hd : nodes.definition? n = some (.object fields d))
    (hp : p = .keep (fields.map fun f => nodes.reference f.type) fun hs =>
      .done (.new ((DefinedType.object fields d).make n hs))) : Builds nodes (.named n) p := by
  have hbelow : fields.map (fun f => nodes.reference f.type)
      = (nodes.below (.named n)).map nodes.reference := by
    simp [below, hd, DefinedType.types]
  refine .makes _ (by simp [CanMake, hd]) (forall₂_stands nodes _) ?_
  rw [hp, hbelow]
  simp only [make, hd, Option.map_some, Option.getD_some]

theorem nodeProgram_eq (node : NodeType) : nodeProgram nodes node
    = .keep ((node.properties.map fun p => (⟨p.1, p.2, none⟩ : DefinedField)).map
        fun f => nodes.reference f.type)
      fun hs => .done (.new ((definedNode node).make node.name hs)) := by
  simp only [nodeProgram, definedNode, DefinedType.make, nodeFields, List.map_map,
    List.zipWith_map_left]
  rfl

theorem queryProgram_eq : queryProgram nodes
    = .keep (((queryFields nodes).map fun f =>
        (⟨f.name, f.type, some f.description⟩ : DefinedField)).map fun f => nodes.reference f.type)
      fun hs => .done (.new ((definedQuery nodes).make queryName hs)) := by
  simp only [queryProgram, definedQuery, DefinedType.make, List.map_map, List.zipWith_map_left]
  rfl

/-- The factory of a node type does what its definition says. -/
theorem build_of_node {node : NodeType} (hs : nodes.Sound) (hg : nodes.get? n = some node)
    (h : nodes.Stands r (.named n))
    (hf : Dictionary.find? r.identifier.name nodes.factories = some f) (key : Key) :
    Builds nodes (.named n) (f.build ⟨r.identifier, r.context, key⟩) := by
  obtain ⟨hid, hscope⟩ := h
  rw [reference_named_of_get? hg] at hid hscope
  have hnode : Dictionary.find? nodeName nodes.factories = some (nodeFactory nodes) := rfl
  obtain rfl : f = nodeFactory nodes := by
    rw [hid] at hf
    exact (Option.some.inj (hnode.symm.trans hf)).symm
  obtain ⟨c, hcontext, hc⟩ : ∃ c, r.context = some c ∧ c.name = node.name :=
    Option.map_eq_some_iff.1 hscope
  have hof : nodeOf nodes r.identifier.name (some c) = .ok node := by
    simp only [nodeOf, hc, hs.named hg, hg]
  simp only [nodeFactory, hcontext, hof, Registry.Program.attempt]
  refine builds_object (definition?_of_get? hg) ?_
  rw [nodeProgram_eq, hs.named hg]
  rfl

/-- The factory of a name with a fixed meaning does what its definition says. -/
theorem build_of_free (hg : nodes.get? n = none) (h : nodes.Stands r (.named n))
    (hf : Dictionary.find? r.identifier.name nodes.factories = some f) (key : Key) :
    Builds nodes (.named n) (f.build ⟨r.identifier, r.context, key⟩) := by
  obtain ⟨hid, hscope⟩ := h
  rw [reference_named_of_none hg] at hid hscope
  have hnone : r.context = none := Option.map_eq_none_iff.1 hscope
  rw [hid] at hf
  rw [hid, hnone]
  have hdefinition : nodes.definition? n = if n ∈ builtinScalars then some (.scalar none)
      else if n = dateTimeName then some (.scalar dateTime.description)
      else if n = queryName then some (definedQuery nodes) else none := by
    simp only [definition?, hg]
  rcases factory_cases (n := n) hf with ⟨hscalar, rfl⟩ | hmem
  · exact builds_scalar (d := none) (hdefinition.trans (if_pos hscalar))
  · simp only [List.mem_cons, Prod.mk.injEq, List.not_mem_nil, or_false] at hmem
    rcases hmem with ⟨rfl, rfl⟩ | ⟨rfl, rfl⟩ | ⟨rfl, rfl⟩ | ⟨rfl, rfl⟩ | ⟨rfl, rfl⟩ | ⟨rfl, rfl⟩
    · exact builds_scalar (hdefinition.trans rfl)
    · exact .fails _ (fun h => h (hdefinition.trans rfl)) rfl
    · exact .fails _ (fun h => h (hdefinition.trans rfl)) rfl
    · exact .fails _ (fun h => h (hdefinition.trans rfl)) rfl
    · exact .fails _ (fun h => h (hdefinition.trans rfl)) rfl
    · exact builds_object (hdefinition.trans rfl) queryProgram_eq

/-- **Factories do what the definitions say.** -/
theorem build_of_stands (hs : nodes.Sound) (h : nodes.Stands r e)
    (hf : Dictionary.find? r.identifier.name nodes.factories = some f) (key : Key) :
    Builds nodes e (f.build ⟨r.identifier, r.context, key⟩) := by
  cases e with
  | named n =>
      cases hg : nodes.get? n with
      | some node => exact build_of_node hs hg h hf key
      | none => exact build_of_free hg h hf key
  | list of =>
      obtain ⟨hid, hscope⟩ := h
      rw [reference_list] at hid hscope
      rw [hid] at hf ⊢
      have hlist : Dictionary.find? listName nodes.factories = some listFactory := rfl
      obtain rfl : f = listFactory := (Option.some.inj (hlist.symm.trans hf)).symm
      simp only [listFactory, wrappedType_withOption, Registry.Program.attempt]
      exact builds_wrapper trivial rfl (fun _ => rfl) hscope
  | nonNull of =>
      obtain ⟨hid, hscope⟩ := h
      rw [reference_nonNull] at hid hscope
      rw [hid] at hf ⊢
      have hnonNull : Dictionary.find? nonNullName nodes.factories = some nonNullFactory := rfl
      obtain rfl : f = nonNullFactory := (Option.some.inj (hnonNull.symm.trans hf)).symm
      simp only [nonNullFactory, wrappedNullable, wrappedType_withOption, Except.bind]
      by_cases hname : (nodes.reference of).identifier.name = nonNullName
      · rw [if_pos hname]
        exact .fails _ (fun h => h hname) rfl
      · rw [if_neg hname]
        exact builds_wrapper hname rfl (fun _ => rfl) hscope

/-! ### Whatever is asked for -/

/-- A wrapper is told what to wrap by its option. -/
theorem wrappedType_eq_ok_iff {id of : Identifier} :
    wrappedType id = .ok of ↔ id.option? wrappedOption = some (.type of) := by
  unfold wrappedType requiredOption
  cases id.option? wrappedOption with
  | none => simp [Except.bind]
  | some v => cases v <;> simp [Except.bind, Value.type?, contentOf]

theorem wrappedType_of_nullable {id of : Identifier} (h : wrappedNullable id = .ok of) :
    wrappedType id = .ok of := by
  unfold wrappedNullable at h
  cases hw : wrappedType id with
  | error fault => simp [hw, Except.bind] at h
  | ok inner =>
      simp only [hw, Except.bind] at h
      split at h
      · cases h
      · exact h

/-- The expressions that stand in the definitions. -/
def stated (nodes : NodeTypes) : List TypeExpr :=
  (nodes.entries.flatMap fun p => p.2.properties.map Prod.snd)
    ++ (queryFields nodes).map PlannedField.type

/-- What a factory may ask for: what the identifier that it is called with wraps, in the same scope,
and what stands in the definitions. -/
inductive Asks (nodes : NodeTypes) (id : Identifier) (scope : Option Context) : Request → Prop where
  | wrapped {of : Identifier} : wrappedType id = .ok of → Asks nodes id scope ⟨of, scope⟩
  | stated {e : TypeExpr} : e ∈ nodes.stated → Asks nodes id scope (nodes.reference e)

/-- What a factory asks for, by the name that it is registered under: the factories of objects ask
for what stands in the definitions, and those of wrappers for what the identifier wraps, in the same
scope. -/
inductive Requests (nodes : NodeTypes) (r : Request) : Request → Prop where
  | stated {e : TypeExpr} : r.identifier.name = nodeName ∨ r.identifier.name = queryName →
      e ∈ nodes.stated → Requests nodes r (nodes.reference e)
  | wrapped {of : Identifier} : r.identifier.name = listName ∨ r.identifier.name = nonNullName →
      wrappedType r.identifier = .ok of → Requests nodes r ⟨of, r.context⟩

theorem Requests.asks {r' : Request} (h : nodes.Requests r r') :
    nodes.Asks r.identifier r.context r' := by
  cases h with
  | stated _ he => exact .stated he
  | wrapped _ hof => exact .wrapped hof

/-- No factory sets an option twice in what it asks for. -/
theorem Asks.distinct {id : Identifier} {scope : Option Context} (h : nodes.Asks id scope r)
    (hid : id.Distinct) : r.identifier.Distinct := by
  cases h with
  | wrapped hof =>
      have hoption := Dictionary.mem_of_find? (wrappedType_eq_ok_iff.1 hof)
      exact (Value.distinct_type _).1 (((Identifier.distinct_iff id).1 hid).2 _ hoption)
  | stated _ => exact nodes.distinct_reference _

/-- A program that asks for types of a kind in order and makes a new one of the answers, or that
fails at once. -/
inductive Keeps (P : Request → Prop) (p : TypeProgram) : Prop where
  | makes (rs : List Request) (make : List Handle → SchemaType) : (∀ r ∈ rs, P r) →
      p = .keep rs (fun hs => .done (.new (make hs))) → Keeps P p
  | fails (err : TypeError) : p = .fail err → Keeps P p

theorem keeps_attempt {α : Type} {P : Request → Prop} {result : Except TypeFault α}
    {k : α → TypeProgram} (h : ∀ a, result = .ok a → Keeps P (k a)) :
    Keeps P (.attempt result k) := by
  cases result with
  | ok a => exact h a rfl
  | error fault => exact .fails _ rfl

theorem keeps_references {P : Request → Prop} {types : List TypeExpr}
    (h : ∀ e ∈ types, P (nodes.reference e)) (make : List Handle → SchemaType) :
    Keeps P (.keep (types.map nodes.reference) fun hs => .done (.new (make hs))) := by
  refine .makes _ make (fun r hr => ?_) rfl
  obtain ⟨e, he, rfl⟩ := List.mem_map.1 hr
  exact h e he

/-- What a factory asks for by its name, whatever it is called with. -/
theorem build_requests
    (hf : Dictionary.find? r.identifier.name nodes.factories = some f) (key : Key) :
    Keeps (nodes.Requests r) (f.build ⟨r.identifier, r.context, key⟩) := by
  have hdone : ∀ t, Keeps (nodes.Requests r) (.done (.new t)) :=
    fun t => .makes [] (fun _ => t) nofun rfl
  have hwrapper : ∀ (wrap : Handle → TypeKind) (of : Identifier),
      r.identifier.name = listName ∨ r.identifier.name = nonNullName →
      wrappedType r.identifier = .ok of →
      Keeps (nodes.Requests r) (.request ⟨of, r.context⟩ fun h => .done (.new ⟨wrap h, none⟩)) :=
    fun wrap of hname hof => .makes [⟨of, r.context⟩] (fun hs => ⟨wrap (hs.headD default), none⟩)
      (List.forall_mem_singleton.2 (.wrapped hname hof)) rfl
  rcases factory_cases hf with ⟨-, rfl⟩ | hmem
  · exact hdone _
  · simp only [List.mem_cons, Prod.mk.injEq, List.not_mem_nil, or_false] at hmem
    rcases hmem with ⟨-, rfl⟩ | ⟨-, rfl⟩ | ⟨hname, rfl⟩ | ⟨hname, rfl⟩ | ⟨hname, rfl⟩ | ⟨hname, rfl⟩
    · exact hdone _
    · exact keeps_attempt fun t _ => hdone t
    · exact keeps_attempt fun of hof => hwrapper .list of (.inl hname) hof
    · exact keeps_attempt fun of hof =>
        hwrapper .nonNull of (.inr hname) (wrappedType_of_nullable hof)
    · refine keeps_attempt fun node hnode => ?_
      obtain ⟨name, hget⟩ : ∃ name, nodes.get? name = some node := by
        cases hscope : r.context with
        | none => rw [hscope] at hnode; cases hnode
        | some c =>
            rw [hscope] at hnode
            refine ⟨c.name, ?_⟩
            cases hg : nodes.get? c.name <;> simp [nodeOf, hg] at hnode ⊢
            exact hnode
      have htypes : (node.properties.map fun p => nodes.reference p.2)
          = (node.properties.map Prod.snd).map nodes.reference := by
        rw [List.map_map]
        rfl
      rw [nodeProgram, htypes]
      refine keeps_references (fun e he => .stated (.inl hname) (List.mem_append_left _ ?_)) _
      exact List.mem_flatMap.2 ⟨(name, node), Dictionary.mem_of_find? hget, he⟩
    · have htypes : ((queryFields nodes).map fun f => nodes.reference f.type)
          = ((queryFields nodes).map PlannedField.type).map nodes.reference := by
        rw [List.map_map]
        rfl
      simp only [queryFactory, queryProgram, htypes]
      exact keeps_references (fun e he => .stated (.inr hname) (List.mem_append_right _ he)) _

/-- What a factory asks for, whatever it is called with. -/
theorem build_keeps {key : Key}
    (hf : Dictionary.find? r.identifier.name nodes.factories = some f) :
    Keeps (nodes.Asks r.identifier r.context) (f.build ⟨r.identifier, r.context, key⟩) := by
  cases build_requests hf key with
  | makes rs make hrs hbuild => exact .makes rs make (fun r hr => (hrs r hr).asks) hbuild
  | fails err hbuild => exact .fails err hbuild

end NodeTypes

end SchemaGraph
