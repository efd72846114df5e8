/-
**What is constructed, and how often it is asked for.**

The object of each node type uses the types of its properties, and the query object uses what it
offers of each node type.  So what the objects and a root use can be listed from the definitions.  A
registry that was asked for them, and at which no call is in progress, holds one instance for each
of the listed expressions and nothing else, and each of them was asked for by the one factory call
of every expression that refers to it.  That makes the answers a sum over the list: one for each
call from outside, and one for each reference.

Main definitions:

* `NodeTypes.Queries` — a command comes to the query object;
* `NodeTypes.census` — what the objects and a root use, listed from the definitions;
* `NodeTypes.identities` — the identities of the census;
* `wrappersOf` — the lists and the types without null that a registry holds.

Main results:

* `NodeTypes.mem_census_iff` — **the census is what the objects and a root use**;
* `NodeTypes.sum_below_census` — the references of the census;
* `Still.given_of_uses` — what is used was given;
* `Still.names_entries`, `Still.size_eq` — a registry holds what is used, each once;
* `Still.wrappersOf_eq` — the wrappers that it holds;
* `Still.resolves_eq` — **the answers are the calls from outside and the references**.
-/

import SchemaGraph.Proofs.Registry.Answers
import SchemaGraph.Proofs.Schema.Requests

set_option autoImplicit false

namespace SchemaGraph

open Registry (Handle Request Options Possible Reliable Priced Program)

variable {nodes : NodeTypes} {options : Options} {root : Option String} {e e' : TypeExpr}
  {rs : List Request} {s : TypeState} {r : Request}

/-! ### The census of the definitions -/

/-- The expression is a list or excludes null. -/
def TypeExpr.isWrapper : TypeExpr → Bool
  | .named _ => false
  | .list _ | .nonNull _ => true

/-- The only name among the parts of an expression is its own. -/
theorem TypeExpr.root_of_mem_parts {n : String} (h : .named n ∈ e.parts) : e.root = n := by
  induction e with
  | named m => simpa [parts, root, eq_comm] using h
  | list of ih => exact ih (by simpa [parts] using h)
  | nonNull of ih => exact ih (by simpa [parts] using h)

namespace NodeTypes

/-- The types of all properties of all node types. -/
def propertyTypes (nodes : NodeTypes) : List TypeExpr :=
  nodes.toList.flatMap fun node => node.properties.map Prod.snd

/-- What the query object offers of the node types: each on its own, and all of them as a list. -/
def offered (nodes : NodeTypes) : List TypeExpr :=
  nodes.toList.flatMap fun node =>
    [.named node.name, .nonNull (.list (.nonNull (.named node.name)))]

/-- A command comes to the query object: it is the root, or a property names it. -/
def Queries (nodes : NodeTypes) (root : Option String) : Prop :=
  root = none ∨ ∃ e ∈ nodes.propertyTypes, e.root = queryName

instance (nodes : NodeTypes) (root : Option String) : Decidable (nodes.Queries root) :=
  inferInstanceAs (Decidable (root = none ∨ ∃ e ∈ nodes.propertyTypes, e.root = queryName))

/-- The objects that a command comes to: those of the node types, and maybe the query object. -/
def objects (nodes : NodeTypes) (root : Option String) : List TypeExpr :=
  nodes.toList.map (fun node => .named node.name)
    ++ if nodes.Queries root then [.named queryName] else []

/-- The expressions that the definitions speak of: these, the types of all properties, and maybe what
the query object offers. -/
def sources (nodes : NodeTypes) (root : Option String) : List TypeExpr :=
  nodes.objects root ++ nodes.propertyTypes ++ if nodes.Queries root then nodes.offered else []

/-- These, and all that they wrap. -/
def census (nodes : NodeTypes) (root : Option String) : Finset TypeExpr :=
  ((nodes.sources root).flatMap TypeExpr.parts).toFinset

/-- The identities of the census. -/
def identities (nodes : NodeTypes) (root : Option String) : Finset String :=
  (nodes.census root).image fun e => (nodes.reference e).canonical

/-- The expressions whose requests a command makes from outside. -/
def outsets (nodes : NodeTypes) (root : Option String) : List TypeExpr :=
  nodes.toList.map (fun node => .named node.name) ++ [.named (root.getD queryName)]

theorem mem_objects :
    e ∈ nodes.objects root ↔ (∃ node ∈ nodes.toList, TypeExpr.named node.name = e) ∨
      nodes.Queries root ∧ e = .named queryName := by
  by_cases h : nodes.Queries root <;> simp [objects, h]

theorem mem_sources : e ∈ nodes.sources root ↔ e ∈ nodes.objects root ∨ e ∈ nodes.propertyTypes ∨
    nodes.Queries root ∧ e ∈ nodes.offered := by
  by_cases h : nodes.Queries root <;> simp [sources, h]

theorem mem_census : e ∈ nodes.census root ↔ ∃ source ∈ nodes.sources root, e ∈ source.parts := by
  rw [census, List.mem_toFinset, List.mem_flatMap]

theorem mem_census_of_source (h : e ∈ nodes.sources root) : e ∈ nodes.census root :=
  mem_census.2 ⟨e, h, e.mem_parts_self⟩

theorem mem_propertyTypes (hs : nodes.Sound) {n : String} {node : NodeType}
    (hg : nodes.get? n = some node) {p : String × TypeExpr} (hp : p ∈ node.properties) :
    p.2 ∈ nodes.propertyTypes :=
  List.mem_flatMap.2 ⟨node, (hs.mem_toList node).2 (hs.named hg ▸ hg), List.mem_map_of_mem hp⟩

theorem offered_eq (hs : nodes.Sound) : nodes.offered = nodes.below (.named queryName) := by
  rw [below_query hs, queryFields, offered, List.map_flatMap]
  rfl

/-- A node type is not called like the query object. -/
theorem name_ne_query (hs : nodes.Sound) {node : NodeType} (h : node ∈ nodes.toList) :
    node.name ≠ queryName := by
  intro hname
  have hget := (hs.mem_toList node).1 h
  rw [hname, hs.get?_query] at hget
  cases hget

/-- A command whose census has the query object comes to it. -/
theorem queries_of_mem_census (hs : nodes.Sound) (h : .named queryName ∈ nodes.census root) :
    nodes.Queries root := by
  obtain ⟨source, hsource, hpart⟩ := mem_census.1 h
  have hroot := TypeExpr.root_of_mem_parts hpart
  rcases mem_sources.1 hsource with hobject | hproperty | ⟨hqueries, -⟩
  · rcases mem_objects.1 hobject with ⟨node, hnode, rfl⟩ | ⟨hqueries, -⟩
    · exact absurd hroot (name_ne_query hs hnode)
    · exact hqueries
  · exact Or.inr ⟨source, hproperty, hroot⟩
  · exact hqueries

/-- What an expression of the census refers to is in the census. -/
theorem mem_census_of_below (hs : nodes.Sound) (h : e ∈ nodes.census root)
    (he : e' ∈ nodes.below e) : e' ∈ nodes.census root := by
  cases e with
  | named n =>
      cases hg : nodes.get? n with
      | some node =>
          rw [below_named_of_get? hg, List.mem_map] at he
          obtain ⟨p, hp, rfl⟩ := he
          exact mem_census_of_source (mem_sources.2 (Or.inr (Or.inl (mem_propertyTypes hs hg hp))))
      | none =>
          by_cases hquery : n = queryName
          · subst hquery
            have hqueries := queries_of_mem_census hs h
            rw [← offered_eq hs] at he
            exact mem_census_of_source (mem_sources.2 (Or.inr (Or.inr ⟨hqueries, he⟩)))
          · rw [below_named_of_none hg hquery] at he
            cases he
  | list of | nonNull of =>
      obtain rfl := List.mem_singleton.1 he
      obtain ⟨source, hsource, hpart⟩ := mem_census.1 h
      refine mem_census.2 ⟨source, hsource, TypeExpr.mem_parts_of_wrapped ?_⟩
      first | exact Or.inl hpart | exact Or.inr hpart

/-- An expression uses its parts. -/
theorem uses_of_part (nodes : NodeTypes) (h : e' ∈ e.parts) : nodes.Uses e e' := by
  induction e with
  | named n =>
      obtain rfl := List.mem_singleton.1 h
      exact .refl
  | list of ih | nonNull of ih =>
      rcases List.mem_cons.1 h with rfl | h
      · exact .refl
      · exact .head (List.mem_singleton_self of) (ih h)

/-- What the definitions speak of is used by the object of a node type or by the root. -/
theorem exists_uses_of_source (hs : nodes.Sound) (h : e ∈ nodes.sources root) :
    ∃ x ∈ nodes.outsets root, nodes.Uses x e := by
  have hproperty : ∀ e ∈ nodes.propertyTypes, ∃ x ∈ nodes.outsets root, nodes.Uses x e := by
    intro e he
    obtain ⟨node, hnode, he⟩ := List.mem_flatMap.1 he
    refine ⟨.named node.name, List.mem_append_left _ (List.mem_map_of_mem hnode), .single ?_⟩
    rw [below_named_of_get? ((hs.mem_toList node).1 hnode)]
    exact he
  have hquery : nodes.Queries root → ∃ x ∈ nodes.outsets root, nodes.Uses x (.named queryName) := by
    rintro (rfl | ⟨e, he, hroot⟩)
    · exact ⟨_, List.mem_append_right _ (List.mem_singleton_self _), .refl⟩
    · obtain ⟨x, hx, hu⟩ := hproperty e he
      exact ⟨x, hx, hu.trans (hroot ▸ nodes.uses_root e)⟩
  rcases mem_sources.1 h with hobject | he | ⟨hqueries, he⟩
  · rcases mem_objects.1 hobject with ⟨node, hnode, rfl⟩ | ⟨hqueries, rfl⟩
    · exact ⟨_, List.mem_append_left _ (List.mem_map_of_mem hnode), .refl⟩
    · exact hquery hqueries
  · exact hproperty e he
  · obtain ⟨x, hx, hu⟩ := hquery hqueries
    exact ⟨x, hx, hu.below (offered_eq hs ▸ he)⟩

/-- **The census is what the objects of the node types and the root use.** -/
theorem mem_census_iff (hs : nodes.Sound)
    (hroot : ∀ name, root = some name → (nodes.get? name).isSome = true) :
    e ∈ nodes.census root ↔ ∃ x ∈ nodes.outsets root, nodes.Uses x e := by
  have hobject : ∀ x ∈ nodes.outsets root, x ∈ nodes.objects root := by
    intro x hx
    rw [mem_objects]
    rcases List.mem_append.1 hx with hx | hx
    · exact Or.inl (List.mem_map.1 hx)
    · obtain rfl := List.mem_singleton.1 hx
      cases root with
      | none => exact Or.inr ⟨Or.inl rfl, rfl⟩
      | some name =>
          obtain ⟨node, hg⟩ := Option.isSome_iff_exists.1 (hroot name rfl)
          obtain rfl := hs.named hg
          exact Or.inl ⟨node, (hs.mem_toList node).2 hg, rfl⟩
  constructor
  · intro h
    obtain ⟨source, hsource, hpart⟩ := mem_census.1 h
    obtain ⟨x, hx, hu⟩ := exists_uses_of_source hs hsource
    exact ⟨x, hx, hu.trans (nodes.uses_of_part hpart)⟩
  · rintro ⟨x, hx, hu⟩
    induction hu with
    | refl => exact mem_census_of_source (mem_sources.2 (Or.inl (hobject x hx)))
    | tail _ he ih => exact mem_census_of_below hs ih he

/-- An identity of the census is that of one expression alone if no two of them share a key. -/
theorem card_identities (hinj : Set.InjOn nodes.keyOf (nodes.census root)) :
    (nodes.identities root).card = (nodes.census root).card :=
  Finset.card_image_of_injOn fun _ he _ he' h => hinj he he' (congrArg Key.ofCanonical h)

/-! ### The references of the census -/

section References

variable (hs : nodes.Sound)

include hs

theorem nodup_objects : (nodes.objects root).Nodup := by
  have hnodes : (nodes.toList.map fun node => TypeExpr.named node.name).Nodup := by
    refine List.pairwise_map.2 (hs.pairwise_toList.imp fun hlt heq => ?_)
    rw [TypeExpr.named.inj heq] at hlt
    exact String.lt_irrefl _ hlt
  by_cases h : nodes.Queries root
  · refine List.nodup_append.2 ⟨hnodes, by simp [h], fun x hx y hy hxy => ?_⟩
    obtain ⟨node, hnode, rfl⟩ := List.mem_map.1 hx
    obtain rfl : y = .named queryName := by simpa [h] using hy
    exact name_ne_query hs hnode (TypeExpr.named.inj hxy)
  · simpa [objects, h] using hnodes

/-- Node types refer to the types of their properties, and the query object to two types for each
node type. -/
theorem sum_below_objects : ((nodes.objects root).map fun e => (nodes.below e).length).sum
    = (nodes.toList.map fun node => node.properties.length).sum
      + if nodes.Queries root then 2 * nodes.size else 0 := by
  have hnodes : (nodes.toList.map fun node => (nodes.below (.named node.name)).length)
      = nodes.toList.map fun node => node.properties.length := by
    refine List.map_congr_left fun node hnode => ?_
    rw [below_named_of_get? ((hs.mem_toList node).1 hnode), List.length_map]
  have hquery : (nodes.below (.named queryName)).length = 2 * nodes.size := by
    rw [below_query hs, List.length_map, length_queryFields]
  rw [objects, List.map_append, List.sum_append, List.map_map]
  congr 1
  · exact congrArg List.sum hnodes
  · by_cases h : nodes.Queries root <;> simp [h, hquery]

/-- A name that refers to something is that of an object. -/
theorem mem_objects_of_below {n : String} (h : .named n ∈ nodes.census root)
    (hne : nodes.below (.named n) ≠ []) : .named n ∈ nodes.objects root := by
  rw [mem_objects]
  cases hg : nodes.get? n with
  | some node =>
      obtain rfl := hs.named hg
      exact Or.inl ⟨node, (hs.mem_toList node).2 hg, rfl⟩
  | none =>
      by_cases hquery : n = queryName
      · subst hquery
        exact Or.inr ⟨queries_of_mem_census hs h, rfl⟩
      · exact absurd (below_named_of_none hg hquery) hne

/-- **The references of the census**: one for each property, two for each node type if there is a
query object, and one for each wrapper. -/
theorem sum_below_census : ∑ e ∈ nodes.census root, (nodes.below e).length
    = (nodes.toList.map fun node => node.properties.length).sum
      + (if nodes.Queries root then 2 * nodes.size else 0)
      + ((nodes.census root).filter fun e => e.isWrapper = true).card := by
  let refs : TypeExpr → Nat := fun e => (nodes.below e).length
  have hwrappers : ∑ e ∈ nodes.census root with e.isWrapper = true, refs e
      = ((nodes.census root).filter fun e => e.isWrapper = true).card := by
    rw [Finset.card_eq_sum_ones]
    refine Finset.sum_congr rfl fun e he => ?_
    cases e with
    | named n => cases (Finset.mem_filter.1 he).2
    | list of | nonNull of => rfl
  -- the names of the census are those of objects, and others that refer to nothing
  have hnames : ∑ e ∈ (nodes.objects root).toFinset, refs e
      = ∑ e ∈ nodes.census root with ¬ e.isWrapper = true, refs e := by
    refine Finset.sum_subset (fun e he => ?_) fun e he hnot => ?_
    · rw [List.mem_toFinset] at he
      refine Finset.mem_filter.2 ⟨mem_census_of_source (mem_sources.2 (Or.inl he)), ?_⟩
      rcases mem_objects.1 he with ⟨node, -, rfl⟩ | ⟨-, rfl⟩ <;> exact Bool.false_ne_true
    · obtain ⟨hmem, hwrapper⟩ := Finset.mem_filter.1 he
      cases e with
      | list of | nonNull of => exact absurd rfl hwrapper
      | named n =>
          by_contra hne
          exact hnot (List.mem_toFinset.2
            (mem_objects_of_below hs hmem fun h => hne (congrArg List.length h)))
  calc ∑ e ∈ nodes.census root, refs e
      = ∑ e ∈ nodes.census root with e.isWrapper = true, refs e
        + ∑ e ∈ nodes.census root with ¬ e.isWrapper = true, refs e :=
        (Finset.sum_filter_add_sum_filter_not _ _ refs).symm
    _ = ((nodes.census root).filter fun e => e.isWrapper = true).card
        + ((nodes.objects root).map refs).sum := by
        rw [hwrappers, ← hnames, List.sum_toFinset _ (nodup_objects hs)]
    _ = _ := by rw [sum_below_objects hs, Nat.add_comm]

end References

end NodeTypes

/-! ### What was given -/

section Given

variable {h : Handle} {x : TypeExpr} (hst : Still nodes options rs s)
  (hR : Reliable (nodes.setup options) (Possible (nodes.setup options) rs)
    (Possible (nodes.setup options) rs))

include hst hR

/-- What was asked for from outside was given. -/
theorem Still.given_of_mem (hr : r ∈ rs) (hstands : nodes.Stands r x) :
    ∃ h, Given nodes options rs (Possible (nodes.setup options) rs) s h x := by
  obtain ⟨ks, hsession⟩ := hst.rest.session
  obtain ⟨k, hk⟩ := hR.keyed (.root hr)
  rcases hsession.asked hR (fun r hr => .root hr) hr (.root hr) hk with hentry | ⟨t, c, hc, -⟩
  · obtain ⟨i, hi⟩ := hst.legal.ready_of_entry hst.rest.outside hentry
    exact ⟨⟨k, r.reference, .ready i⟩, r, .root hr, hstands, hk, hi, fun _ q hq => by cases hq⟩
  · have hout := hst.rest.outside t
    cases hstage : (s.thread t).stage <;>
      simp [hstage, Registry.Stage.seeks, Registry.Stage.isOutside] at hc hout

/-- **What is used was given.** -/
theorem Still.given_of_uses (hr : r ∈ rs) (hstands : nodes.Stands r x) (hu : nodes.Uses x e) :
    ∃ h, Given nodes options rs (Possible (nodes.setup options) rs) s h e := by
  induction hu with
  | refl => exact hst.given_of_mem hR hr hstands
  | tail _ he ih =>
      obtain ⟨h, hg⟩ := ih
      obtain ⟨i, t, hs⟩ := hg.shows_of_unharmed hst hR fun _ hr _ => hr
      obtain ⟨h', -, hg'⟩ := (exists_of_forall₂ (hg.handles hst hR hs)).2 _ he
      exact ⟨h', hg'⟩

end Given

/-! ### What a registry holds -/

/-- The lists and the types without null that a registry holds. -/
def wrappersOf (S : TypeStore) : Nat :=
  S.table.instances.countP fun p => (S.instances[p.2]?.bind SchemaType.wrapped?).isSome

/-- The type for an expression wraps another if the expression does. -/
theorem NodeTypes.isSome_wrapped?_make {hs : List Handle} (hcan : nodes.CanMake e) :
    (nodes.make e hs).wrapped?.isSome = e.isWrapper := by
  cases e with
  | named n => rw [wrapped?_of_name (name?_make_named hcan hs)]; rfl
  | list of | nonNull of => rfl

section Holds

variable {xs : List TypeExpr} {C : Finset TypeExpr}
  (hst : Still nodes options (xs.map nodes.reference) s)
  (hR : Reliable (nodes.setup options) (Possible (nodes.setup options) (xs.map nodes.reference))
    (Possible (nodes.setup options) (xs.map nodes.reference)))
  (hC : ∀ e, e ∈ C ↔ ∃ x ∈ xs, nodes.Uses x e)

include hst hR hC

theorem Still.given (he : e ∈ C) : ∃ h i t, Shows s.store h i t ∧ Given nodes options
    (xs.map nodes.reference) (Possible (nodes.setup options) (xs.map nodes.reference)) s h e := by
  obtain ⟨x, hx, hu⟩ := (hC e).1 he
  obtain ⟨h, hg⟩ := hst.given_of_uses hR (List.mem_map_of_mem hx) (.refl _) hu
  obtain ⟨i, t, hs⟩ := hg.shows_of_unharmed hst hR fun _ hr _ => hr
  exact ⟨h, i, t, hs, hg⟩

/-- What is used has keys of its own. -/
theorem Still.keyOf_injOn : Set.InjOn nodes.keyOf C := by
  intro e he e' he' hk
  obtain ⟨h, -, -, -, hg⟩ := hst.given hR hC he
  obtain ⟨h', -, -, -, hg'⟩ := hst.given hR hC he'
  exact hg.unique hst hg' (by rw [hg.key_eq, hg'.key_eq, hk])

/-- **A registry holds what is used and nothing else.** -/
theorem Still.names_entries :
    (Dictionary.names s.store.table.entries).toFinset = C.image nodes.keyOf := by
  ext k
  rw [List.mem_toFinset, Finset.mem_image, ← Dictionary.find?_isSome_iff]
  constructor
  · intro hsome
    obtain ⟨i, hi⟩ := hst.legal.ready_of_entry hst.rest.outside
      (Option.isSome_iff_ne_none.1 hsome)
    obtain ⟨y, ⟨r, log, hr, hk, -⟩, -⟩ := (hst.traceable hR).given hi
    obtain ⟨x, hx, e, hu, hstands⟩ := NodeTypes.uses_of_possible hst.sound hr
    exact ⟨e, (hC e).2 ⟨x, hx, hu⟩, (NodeTypes.keyOf_eq hstands hk).symm⟩
  · rintro ⟨e, he, rfl⟩
    obtain ⟨h, i, t, hs, hg⟩ := hst.given hR hC he
    rw [← hg.key_eq, hg.ready hst hs]
    rfl

/-- Each of them is held once. -/
theorem Still.size_eq : s.store.table.size = C.card := by
  have hnames := List.toFinset_card_of_nodup hst.legal.listed.entries
  rw [hst.names_entries hR hC, Finset.card_image_of_injOn (hst.keyOf_injOn hR hC)] at hnames
  rw [hnames, Dictionary.names, List.length_map]
  rfl

/-- **The wrappers that a registry holds** are those that are used. -/
theorem Still.wrappersOf_eq :
    wrappersOf s.store = (C.filter fun e => e.isWrapper = true).card := by
  let W : Key → Bool := fun k => decide (∃ e ∈ C, nodes.keyOf e = k ∧ e.isWrapper = true)
  have hinj := hst.keyOf_injOn hR hC
  have hW : ∀ e ∈ C, W (nodes.keyOf e) = e.isWrapper := by
    intro e he
    rw [Bool.eq_iff_iff, decide_eq_true_eq]
    refine ⟨?_, fun hw => ⟨e, he, rfl, hw⟩⟩
    rintro ⟨e', he', hk, hw⟩
    exact hinj he' he hk ▸ hw
  -- an instance wraps another if the expression of its key does
  have hinstances : wrappersOf s.store = s.store.table.instances.countP (W ∘ Prod.fst) := by
    refine List.countP_congr fun p hp => ?_
    have hready := (Registry.Table.mem_instances hst.legal.listed.entries).1 hp
    have hmem : p.1 ∈ C.image nodes.keyOf := by
      rw [← hst.names_entries hR hC, List.mem_toFinset, ← Dictionary.find?_isSome_iff, hready]
      rfl
    obtain ⟨e, he, hk⟩ := Finset.mem_image.1 hmem
    obtain ⟨h, i, t, hs, hg⟩ := hst.given hR hC he
    obtain ⟨hcan, hs', rfl, -⟩ := hg.step hst hR hs
    have hi := hg.ready hst hs
    rw [hg.key_eq, hk, hready, Option.some.injEq, Registry.Entry.ready.injEq] at hi
    rw [hi, hs.stored, Option.bind_some, NodeTypes.isSome_wrapped?_make hcan, Function.comp_apply,
      ← hk, hW e he]
  calc wrappersOf s.store
      = (Dictionary.names s.store.table.entries).countP fun k => W k = true := by
        rw [hinstances, ← List.countP_map, hst.rest.keys_instances.countP_eq]
        simp
    _ = ((C.image nodes.keyOf).filter fun k => W k = true).card := by
        rw [← hst.legal.listed.entries.card_eq_countP, hst.names_entries hR hC]
    _ = ((C.filter fun e => e.isWrapper = true).image nodes.keyOf).card := by
        rw [Finset.filter_image, Finset.filter_congr fun e he => by rw [hW e he]]
    _ = (C.filter fun e => e.isWrapper = true).card :=
        Finset.card_image_of_injOn (hinj.mono (Finset.filter_subset _ _))

/-- **The answers are the calls from outside and the references.** -/
theorem Still.resolves_eq :
    s.store.stats.resolves = xs.length + ∑ e ∈ C, (nodes.below e).length := by
  let cost : Key → Nat := fun k => ∑ e ∈ C with nodes.keyOf e = k, (nodes.below e).length
  have hcost : ∀ e ∈ C, cost (nodes.keyOf e) = (nodes.below e).length := by
    intro e he
    have hself : C.filter (fun e' => nodes.keyOf e' = nodes.keyOf e) = {e} := by
      ext e'
      rw [Finset.mem_filter, Finset.mem_singleton]
      exact ⟨fun h => hst.keyOf_injOn hR hC h.1 he h.2, by rintro rfl; exact ⟨he, rfl⟩⟩
    show ∑ e' ∈ C with nodes.keyOf e' = nodes.keyOf e, (nodes.below e').length = _
    rw [hself, Finset.sum_singleton]
  have hP : Priced (nodes.setup options) (Possible (nodes.setup options) (xs.map nodes.reference))
      Program.calls cost := by
    refine .of_keep hR fun {r k factory} hr hk hf => ?_
    obtain ⟨x, hx, e, hu, hstands⟩ := NodeTypes.uses_of_possible hst.sound hr
    cases NodeTypes.build_of_stands hst.sound hstands hf k with
    | makes rs hcan hrs hbuild =>
        refine ⟨rs, _, hbuild, ?_⟩
        rw [NodeTypes.keyOf_eq hstands hk, hcost e ((hC e).2 ⟨x, hx, hu⟩), hrs.length_eq]
    | fails err hcan hbuild =>
        have hfails : (factory.build ⟨r.identifier, r.context, k⟩).Fails (.error err) :=
          hbuild ▸ .fail err
        exact absurd hfails (hR.steady hr ⟨k, factory, hk, hf, .refl _⟩)
  obtain ⟨ks, hsession⟩ := hst.rest.session
  obtain ⟨hnodup, hknown⟩ := hsession.begun_once hR fun r hr => .root hr
  have hkeys : ks.toFinset = C.image nodes.keyOf := by
    rw [← hst.names_entries hR hC]
    ext k
    rw [List.mem_toFinset, List.mem_toFinset, hknown, ← Dictionary.find?_isSome_iff,
      Option.isSome_iff_ne_none]
  rw [hst.rest.resolves hR hP hsession fun r hr => .root hr, List.length_map,
    ← List.sum_toFinset _ hnodup, hkeys,
    Finset.sum_fiberwise_of_maps_to fun e he => Finset.mem_image_of_mem nodes.keyOf he]

end Holds

end SchemaGraph
