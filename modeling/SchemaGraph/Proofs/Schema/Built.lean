/-
**The schema graph is the definitions graph.**

A registry of node types is asked for a root once it is at rest, whatever calls it has seen before.
A schema is built exactly when the definitions have a type for everything that the root uses.  Then
each object in it has the fields that its definition says, and each field leads, through the wrappers
of its expression, to the one instance that the schema has under the name of the expression.

Main definitions:

* `Built` — a schema that was built at a root;
* `NodeTypes.IsRoot` — the query object, or the object of a node type.

Main results:

* `built_of_build`, `builds_of_whole` — **a schema is built exactly when there is a type for all that
  its root uses**;
* `Built.get?_of_uses`, `Built.uses_of_get?` — the types of a schema are those that its root uses;
* `schema_draws_definitions` — **the graph of a schema is the one of the definitions**.
-/

import SchemaGraph.Proofs.Registry.Ending
import SchemaGraph.Proofs.Schema.Graph

set_option autoImplicit false

namespace SchemaGraph

open Registry (Handle InstanceId Request Options Answer Possible Apart Reliable AtRest Holds)

variable {nodes : NodeTypes} {options : Options} {rs : List Request} {s s' : TypeState}
  {D : Request → Prop} {root : TypeExpr} {h : Handle} {i : InstanceId} {r : Request}

/-! ### What it takes to build a schema -/

theorem Schema.ofHandle_eq_ok_iff {S : TypeStore} {schema : Schema} :
    Schema.ofHandle S h = .ok schema ↔ ∃ found,
      walk S (h.key :: storedKeys S) [] [h] = .ok found ∧
      (h.get S).bind (namedInstance S) = .ok schema.query ∧
      schema.types = Dictionary.sorted found := by
  obtain ⟨query, types⟩ := schema
  unfold Schema.ofHandle
  cases hq : (h.get S).bind (namedInstance S) with
  | error e => simp [Except.mapError]
  | ok i =>
      cases hw : walk S (h.key :: storedKeys S) [] [h] with
      | error e => simp [Except.mapError]
      | ok found => simp [Except.mapError, eq_comm]

theorem Schema.build_eq_ok_iff {R : TypeSetup} {fuel : Nat} {schema : Schema} :
    Schema.build R fuel r s = (.ok schema, s') ↔
      ∃ h, Registry.resolve R fuel r s = (.answer (.ok h), s') ∧
        Schema.ofHandle s'.store h = .ok schema := by
  rcases hres : Registry.resolve R fuel r s with ⟨reply, s''⟩
  simp only [Schema.build, request, hres, Prod.mk.injEq]
  cases hr : replyResult reply with
  | error e =>
      have hreply : ∀ h, reply ≠ .answer (.ok h) := fun h ha => by simp [ha, replyResult] at hr
      simp [Except.bind, hreply]
  | ok h =>
      rw [replyResult_eq_ok_iff] at hr
      subst hr
      constructor
      · rintro ⟨hbind, rfl⟩
        exact ⟨h, ⟨rfl, rfl⟩, hbind⟩
      · rintro ⟨h', ⟨heq, rfl⟩, hof⟩
        obtain rfl : h = h' := by simpa using heq
        exact ⟨hof, rfl⟩

/-- A schema that was built at a root, in a registry that is at rest. -/
structure Built (nodes : NodeTypes) (options : Options) (rs : List Request) (root : TypeExpr)
    (s : TypeState) (schema : Schema) : Prop where
  still : Still nodes options rs s
  whole : nodes.Whole root
  toured : ∃ h found visited, Given nodes options rs (nodes.Wanted options root rs) s h root ∧
    Toured s.store (h.key :: storedKeys s.store) [] found [h] visited ∧
    (h.get s.store).bind (namedInstance s.store) = .ok schema.query ∧
    schema.types = Dictionary.sorted found

/-- Nothing stands in the way of the walk from a root, if there is a type for all that it uses. -/
theorem clear_of_whole (hst : Still nodes options rs s) (hw : nodes.Whole root)
    (hg : Given nodes options rs (nodes.Wanted options root rs) s h root) :
    Clear s.store [] [h] := by
  have hR := hst.reliable hw
  refine ⟨fun hr => ?_, fun {x x' j j' t t' name} hr hr' hs hs' hname hname' => ?_,
    fun _ _ _ hf => by simp at hf⟩
  · obtain ⟨e, he, hgiven⟩ := hg.reached hst hR hr
    exact hgiven.shows hst hw he
  · -- types of one name were made for one expression
    obtain ⟨e, -, hgiven⟩ := hg.reached hst hR hr
    obtain ⟨e', -, hgiven'⟩ := hg.reached hst hR hr'
    obtain ⟨hcan, hs₁, rfl, -⟩ := hgiven.step hst hR hs
    obtain ⟨hcan', hs₂, rfl, -⟩ := hgiven'.step hst hR hs'
    obtain rfl := NodeTypes.eq_of_name?_make hcan hname
    obtain rfl := NodeTypes.eq_of_name?_make hcan' hname'
    exact hgiven.instance_eq hst hgiven' (hgiven.key_eq.trans hgiven'.key_eq.symm) hs hs'

/-- There is a schema at a handle that was given for a root, if there is a type for all that the root
uses. -/
theorem ofHandle_of_whole (hst : Still nodes options rs s) (hw : nodes.Whole root)
    (hg : Given nodes options rs (nodes.Wanted options root rs) s h root) :
    ∃ schema, Schema.ofHandle s.store h = .ok schema := by
  -- the handle reads as the root, and the walk from it ends
  obtain ⟨j, hreads⟩ := hg.reads_of_whole hst hw .refl
  obtain ⟨found, hwalk⟩ : ∃ found, walk s.store (h.key :: storedKeys s.store) [] [h] = .ok found :=
    walk_ok (clear_of_whole hst hw hg)
  exact ⟨⟨j, Dictionary.sorted found⟩,
    Schema.ofHandle_eq_ok_iff.2 ⟨found, hwalk, hreads.namedInstance, rfl⟩⟩

section Build

variable {fuel : Nat} {schema : Schema} (hs : nodes.Sound)
  (hrest : AtRest (nodes.setup options) rs s) (hrs : ∀ r ∈ rs, r.identifier.Distinct)
  (hapart : Apart (nodes.setup options) (nodes.reference root :: rs))

include hrest

/-- The handle that a request is answered with was given for it. -/
theorem given_of_resolve
    (hR : Reliable (nodes.setup options)
      (Possible (nodes.setup options) (nodes.reference root :: rs)) D)
    (hres : Registry.resolve (nodes.setup options) fuel (nodes.reference root) s
      = (.answer (.ok h), s')) :
    Given nodes options (nodes.reference root :: rs) D s' h root := by
  obtain ⟨ks, hsession⟩ := hrest.session
  have hroot : Possible (nodes.setup options) (nodes.reference root :: rs) (nodes.reference root) :=
    .root List.mem_cons_self
  obtain ⟨-, hholds, -⟩ := Registry.resolve_reply hR hsession
    (fun r hr => .root (List.mem_cons_of_mem _ hr)) hroot hrest.idle hres
  exact ⟨_, hroot, .refl _, hholds _ rfl⟩

include hs hrs hapart

theorem still_of_resolve {reply : Registry.Reply TypeFault} (hreply : reply ≠ .unfinished)
    (hres : Registry.resolve (nodes.setup options) fuel (nodes.reference root) s = (reply, s')) :
    Still nodes options (nodes.reference root :: rs) s' where
  sound := hs
  rest := hrest.resolve hres hreply
  distinct := List.forall_mem_cons.2 ⟨nodes.distinct_reference root, hrs⟩
  apart := hapart

/-- **A build that ends without an error visits all that the definitions say.** -/
theorem built_of_build
    (hb : Schema.build (nodes.setup options) fuel (nodes.reference root) s = (.ok schema, s')) :
    Built nodes options (nodes.reference root :: rs) root s' schema := by
  obtain ⟨h, hres, hof⟩ := Schema.build_eq_ok_iff.1 hb
  obtain ⟨found, hwalk, hquery, htypes⟩ := Schema.ofHandle_eq_ok_iff.1 hof
  obtain ⟨visited, htoured⟩ := walk_toured hwalk
  have hstill := still_of_resolve hs hrest hrs hapart (by simp) hres
  -- nothing is relied on until it is known that there is a type for all that is used
  have hwhole := whole_of_toured hstill reliable_nothing
    (given_of_resolve hrest reliable_nothing hres) htoured
  have hR := hstill.reliable hwhole
  exact ⟨hstill, hwhole, h, found, visited, given_of_resolve hrest hR hres, htoured, hquery, htypes⟩

/-- If there is a type for all that a root uses, the request for it is answered with a handle, and
more steps change nothing. -/
theorem resolve_of_whole (hw : nodes.Whole root) : ∃ n h s', ∀ fuel, n ≤ fuel →
    Registry.resolve (nodes.setup options) fuel (nodes.reference root) s
      = (.answer (.ok h), s') := by
  have hroot : nodes.Wanted options root (nodes.reference root :: rs) (nodes.reference root) :=
    ⟨.root List.mem_cons_self, root, .refl, .refl _⟩
  obtain ⟨K, Q, hQ, hfinitary⟩ := nodes.exists_finitary options (nodes.reference root)
  obtain ⟨n, hreply, -, -, hmore⟩ := Registry.resolve_ends hfinitary hQ
    hrest.reachable hrest.outside hrest.idle
  rcases hres : Registry.resolve (nodes.setup options) n (nodes.reference root) s
    with ⟨reply, s'⟩
  rw [hres] at hreply
  have hst := still_of_resolve hs hrest hrs hapart hreply hres
  -- the request can be relied on, so it is neither refused nor broken off
  obtain ⟨ks, hsession⟩ := hrest.session
  obtain ⟨-, hholds, hbroken⟩ := Registry.resolve_reply (hst.reliable hw) hsession
    (fun r hr => .root (List.mem_cons_of_mem _ hr)) hroot.1 hrest.idle hres
  cases reply with
  | answer a =>
      cases a with
      | ok h => exact ⟨n, h, s', fun fuel hfuel => (hmore fuel hfuel).trans hres⟩
      | error e => exact absurd hroot (hholds _ rfl)
  | panicked message => exact absurd hroot (hbroken _ rfl)
  | unfinished => exact absurd rfl hreply

/-- **A schema is built when there is a type for all that its root uses**, given steps enough. -/
theorem builds_of_whole (hw : nodes.Whole root) : ∃ n schema s', ∀ fuel, n ≤ fuel →
    Schema.build (nodes.setup options) fuel (nodes.reference root) s = (.ok schema, s') := by
  obtain ⟨n, h, s', hres⟩ := resolve_of_whole hs hrest hrs hapart hw
  have hst := still_of_resolve hs hrest hrs hapart (by simp) (hres n le_rfl)
  have hg := given_of_resolve hrest (hst.reliable hw) (hres n le_rfl)
  obtain ⟨schema, hof⟩ := ofHandle_of_whole hst hw hg
  exact ⟨n, schema, s', fun fuel hfuel =>
    Schema.build_eq_ok_iff.2 ⟨h, hres fuel hfuel, hof⟩⟩

theorem build_of_whole (hw : nodes.Whole root) : ∃ fuel schema s',
    Schema.build (nodes.setup options) fuel (nodes.reference root) s = (.ok schema, s') := by
  obtain ⟨n, schema, s', hbuild⟩ := builds_of_whole hs hrest hrs hapart hw
  exact ⟨n, schema, s', hbuild n le_rfl⟩

end Build

/-! ### The types of a schema -/

section Built

variable {schema : Schema} (hb : Built nodes options rs root s schema) {name : String}

include hb

/-- What is found under the names of a schema is what its walk has found. -/
theorem Built.exists_found : ∃ h found visited,
    Given nodes options rs (nodes.Wanted options root rs) s h root ∧
    Toured s.store (h.key :: storedKeys s.store) [] found [h] visited ∧
    ∀ name, schema.get? name = Dictionary.find? name found := by
  obtain ⟨h, found, visited, hg, ht, -, htypes⟩ := hb.toured
  refine ⟨h, found, visited, hg, ht, fun name => ?_⟩
  rw [Schema.get?, htypes, Dictionary.find?_sorted (ht.nodup List.nodup_nil)]

/-- What has a name in a schema is used by its root. -/
theorem Built.uses_of_get? (hi : schema.get? name = some i) : nodes.Uses root (.named name) := by
  obtain ⟨h, found, visited, hg, ht, hschema⟩ := hb.exists_found
  rw [hschema] at hi
  exact (found_eq hb.still hb.whole hg ht hi).1

/-- What is used by the root of a schema has a name in it. -/
theorem Built.get?_of_uses (hu : nodes.Uses root (.named name)) :
    ∃ i, schema.get? name = some i := by
  obtain ⟨h, found, visited, hg, ht, hschema⟩ := hb.exists_found
  have hR := hb.still.reliable hb.whole
  obtain ⟨v, -, hgiven, i, t, hs⟩ := visited_of_uses hb.still hR hg ht hu
  exact ⟨i, (hschema name).trans (find?_of_uses hb.still hb.whole hg ht hu hgiven hs)⟩

theorem Built.scalar {d : Option String} (hd : nodes.definition? name = some (.scalar d))
    (hi : schema.get? name = some i) : s.store.instances[i]? = some ⟨.scalar name, d⟩ := by
  obtain ⟨h, found, visited, hg, ht, hschema⟩ := hb.exists_found
  rw [hschema] at hi
  obtain ⟨-, -, hs, hstored, -⟩ := found_eq hb.still hb.whole hg ht hi
  rw [hstored]
  simp only [NodeTypes.make, hd, Option.map_some, Option.getD_some, DefinedType.make]

/-- The objects of a schema have the fields that they are defined to have. -/
theorem Built.object {fields : List DefinedField} {d : Option String}
    (hd : nodes.definition? name = some (.object fields d)) (hi : schema.get? name = some i) :
    ∃ fs, s.store.instances[i]? = some ⟨.object name fs, d⟩ ∧
      List.Forall₂ (fun f p => f.name = p.name ∧ f.description = p.description ∧
        f.Draws s.store schema p.type) fs fields := by
  obtain ⟨h, found, visited, hg, ht, hschema⟩ := hb.exists_found
  rw [hschema] at hi
  exact draws_of_object hb.still hb.whole hg ht hschema hd hi

end Built

/-! ### Roots -/

namespace NodeTypes

/-- The query object, or the object of a node type. -/
def IsRoot (nodes : NodeTypes) (r : Request) : Prop :=
  r = ⟨.bare queryName, none⟩ ∨ ∃ name, nodes.nodeReference? name = some r

/-- No node type is called like the query object. -/
theorem Sound.get?_query (hs : nodes.Sound) : nodes.get? queryName = none := by
  cases hg : nodes.get? queryName with
  | none => rfl
  | some node => exact absurd (by decide +kernel : queryName ∈ reservedNames) (hs.free hg)

theorem Sound.definition?_query (hs : nodes.Sound) :
    nodes.definition? queryName = some (definedQuery nodes) := by
  simp only [definition?, hs.get?_query]
  rfl

/-- A root is requested like the expression that is its name. -/
theorem IsRoot.exists_named (hs : nodes.Sound) (h : nodes.IsRoot r) :
    ∃ name, r = nodes.reference (.named name) := by
  rcases h with rfl | ⟨name, hname⟩
  · exact ⟨queryName, (reference_named_of_none hs.get?_query).symm⟩
  · obtain ⟨node, hget, rfl⟩ := Option.map_eq_some_iff.1 hname
    exact ⟨name, (reference_named_of_get? hget).symm⟩

end NodeTypes

/-- **The graph of a schema is the one of the definitions.**  Whatever a registry of node types has
been asked before, if a schema is built at a root then the object of each node type in it has the
name, the description and, in order, the properties of the node type; the query object has two fields
for each node type, by name.  The type of each field is written as its expression, and under the
wrappers of the field lies the very instance that the schema has under the name in the expression. -/
theorem schema_draws_definitions (hs : nodes.Sound) (hrest : AtRest (nodes.setup options) rs s)
    (hrs : ∀ r ∈ rs, r.identifier.Distinct) (hroot : nodes.IsRoot r)
    (hapart : Apart (nodes.setup options) (r :: rs)) {fuel : Nat} {schema : Schema}
    (hb : Schema.build (nodes.setup options) fuel r s = (.ok schema, s')) :
    (∀ name node i, nodes.get? name = some node → schema.get? name = some i →
      ∃ fields, s'.store.instances[i]? = some ⟨.object node.name fields, node.description⟩ ∧
        List.Forall₂ (fun f p => f.name = p.1 ∧ f.Draws s'.store schema p.2)
          fields node.properties) ∧
    (∀ i, schema.get? queryName = some i →
      ∃ fields, s'.store.instances[i]? = some ⟨.object queryName fields, none⟩ ∧
        List.Forall₂ (fun f p => f.name = p.1 ∧ f.Draws s'.store schema p.2) fields
          (nodes.toList.flatMap fun node =>
            [(lowerFirst node.name, TypeExpr.named node.name),
              ("all" ++ node.name, .nonNull (.list (.nonNull (.named node.name))))])) ∧
    nodes.toList.Pairwise (fun a b => a.name < b.name) ∧
    ∀ node, node ∈ nodes.toList ↔ nodes.get? node.name = some node := by
  obtain ⟨root, rfl⟩ := hroot.exists_named hs
  have hbuilt := built_of_build hs hrest hrs hapart hb
  refine ⟨fun name node i hget hi => ?_, fun i hi => ?_, hs.pairwise_toList, hs.mem_toList⟩
  · obtain ⟨fields, hstored, hfields⟩ :=
      hbuilt.object (NodeTypes.definition?_of_get? hget) hi
    refine ⟨fields, hs.named hget ▸ hstored, ?_⟩
    exact (List.forall₂_map_right_iff.1 hfields).imp fun f p hf => ⟨hf.1, hf.2.2⟩
  · obtain ⟨fields, hstored, hfields⟩ := hbuilt.object hs.definition?_query hi
    have hplanned : List.Forall₂ (fun f p => f.name = p.1 ∧ f.Draws s'.store schema p.2) fields
        ((queryFields nodes).map fun f => (f.name, f.type)) :=
      List.forall₂_map_right_iff.2 ((List.forall₂_map_right_iff.1 hfields).imp
        fun f p hf => ⟨hf.1, hf.2.2⟩)
    rw [queryFields, List.map_flatMap] at hplanned
    exact ⟨fields, hstored, hplanned⟩

/-- A node type that refers to itself, directly and in a list. -/
def page : NodeType where
  context := ⟨"Page", [("next", .text "Page"), ("links", .text "[Page!]")]⟩
  description := some "A page."
  properties := [("next", .named "Page"), ("links", .list (.nonNull (.named "Page")))]

/-- The set of it alone. -/
def pages : NodeTypes := ⟨[("Page", page)]⟩

/-- Its query object, its object, and a type that it does not have. -/
def pageRoots : List TypeExpr := [.named queryName, .named "Page", .named "Missing"]

/-- A registry of it that has refused the missing type. -/
def refusedMissing : TypeState :=
  (Registry.resolve (pages.setup {}) 9 (pages.reference (.named "Missing")) NodeTypes.start).2

theorem sound_pages : pages.Sound := by
  have hget : ∀ {name : String} {node : NodeType}, pages.get? name = some node →
      name = "Page" ∧ node = page := by
    intro name node h
    simpa [pages, NodeTypes.get?, Dictionary.find?_cons, eq_comm] using h
  refine ⟨List.nodup_singleton _, fun h => ?_, fun h => ?_⟩
  · obtain ⟨rfl, rfl⟩ := hget h
    rfl
  · obtain ⟨rfl, rfl⟩ := hget h
    decide +kernel

theorem whole_pages : pages.Whole (.named queryName) :=
  NodeTypes.whole_of_expressions (by decide +kernel)

theorem apart_pages : Apart (pages.setup {}) (pageRoots.map pages.reference) :=
  NodeTypes.apart_of_keys sound_pages (by decide +kernel)

theorem rest_refusedMissing :
    AtRest (pages.setup {}) [pages.reference (.named "Missing")] refusedMissing := by
  have hreply : ∃ e, (Registry.resolve (pages.setup {}) 9 (pages.reference (.named "Missing"))
      NodeTypes.start).1 = .answer (.error e) := ⟨_, by rfl⟩
  obtain ⟨e, he⟩ := hreply
  exact (AtRest.initial _ () 0).resolve (Prod.ext he rfl) nofun

theorem pages_drawn : ∃ fuel schema s' i fields,
    Schema.build (pages.setup {}) fuel ⟨.bare queryName, none⟩ refusedMissing
      = (.ok schema, s') ∧ schema.get? "Page" = some i ∧
    s'.store.instances[i]? = some ⟨.object "Page" fields, some "A page."⟩ ∧
    List.Forall₂ (fun f p => f.name = p.1 ∧ f.Draws s'.store schema p.2) fields
      [("next", .named "Page"), ("links", .list (.nonNull (.named "Page")))] := by
  have hrs : ∀ r ∈ [pages.reference (.named "Missing")], r.identifier.Distinct :=
    List.forall_mem_singleton.2 (pages.distinct_reference _)
  have hapart : Apart (pages.setup {})
      [pages.reference (.named queryName), pages.reference (.named "Missing")] :=
    apart_pages.subset (by simp [pageRoots])
  have hroot : pages.IsRoot (pages.reference (.named queryName)) := Or.inl rfl
  obtain ⟨fuel, schema, s', hb⟩ :=
    build_of_whole sound_pages rest_refusedMissing hrs hapart whole_pages
  -- the query object has a field of the node type
  have huses : pages.Uses (.named queryName) (.named "Page") :=
    .single (by decide +kernel)
  obtain ⟨i, hi⟩ :=
    (built_of_build sound_pages rest_refusedMissing hrs hapart hb).get?_of_uses huses
  have hdrawn := schema_draws_definitions sound_pages rest_refusedMissing hrs hroot hapart hb
  obtain ⟨fields, hstored, hfields⟩ := hdrawn.1 "Page" page i rfl hi
  exact ⟨fuel, schema, s', i, fields, hb, hi, hstored, hfields⟩

end SchemaGraph
