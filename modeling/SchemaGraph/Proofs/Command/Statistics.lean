/-
**What the counters of a command say.**

A command asks for the object of each node type and for its root, one after the other and on one
thread.  So what its registry holds at the end, and how often it was asked, can be read from the
definitions: there is one construction for each identity that the definitions speak of, and one
answer for each request from outside and for each reference of one type to another.  In which order
the requests come, and which of them finds its instance ready, underway or not begun, makes no
difference.

Main definitions:

* `library` — two node types that refer to each other.

Main results:

* `still_of_assemble` — the registry when a command has built its schema;
* `statistics_of_definitions` — **the counters of a command are determined by its definitions**.
-/

import SchemaGraph.Proofs.Command.Rendering
import SchemaGraph.Proofs.Schema.Census

set_option autoImplicit false

namespace SchemaGraph.Command

open Registry (Handle Request Options Possible Apart Reliable AtRest)

variable {nodes : NodeTypes} {options : Options} {rs new : List Request} {s s' : TypeState}
  {fuel : Nat} {root : Option String} {schema : Schema}

/-! ### The registry of a command -/

/-- After requests in order that were granted, all of them were made and no wait was counted. -/
theorem rest_of_granted {R : TypeSetup} {xs : List Handle} (hs : AtRest R rs s)
    (h : prewarm R fuel new s = (.ok xs, s')) : AtRest R (new.reverse ++ rs) s' ∧
      s'.store.stats.waited = s.store.stats.waited := by
  induction new generalizing rs s xs with
  | nil =>
      obtain ⟨-, rfl⟩ := Prod.mk.inj h
      exact ⟨hs, rfl⟩
  | cons r new ih =>
      obtain ⟨x, s₁, ys, hreq, hlast, -⟩ := prewarm_cons_eq_ok h
      obtain ⟨hrest, hwaited⟩ := ih (rest_of_request hs hreq (by simp)) hlast
      have hfirst : s₁.store.stats.waited = s.store.stats.waited := by
        rw [← hs.waited_eq fuel r, request_eq_ok_iff.1 hreq]
      rw [List.reverse_cons, List.append_assoc]
      exact ⟨hrest, hwaited.trans hfirst⟩

/-- A command that has a root makes the requests of the definitions. -/
theorem commandRequests_eq (hs : nodes.Sound)
    (hroot : ∀ name, root = some name → (nodes.get? name).isSome = true) :
    commandRequests nodes root = (nodes.outsets root).map nodes.reference := by
  have hobjects : nodes.toList.map NodeTypes.objectOf
      = (nodes.toList.map fun node => .named node.name).map nodes.reference := by
    rw [List.map_map]
    exact List.map_congr_left fun node hnode => objectOf_eq_reference hs hnode
  rw [commandRequests, (rootRequest_eq_ok_iff hs).2 ⟨hroot, rfl⟩, hobjects, NodeTypes.outsets,
    List.map_append]
  rfl

/-- The identities of a command have distinct keys if the expressions of its census have. -/
theorem apart_of_census (hs : nodes.Sound)
    (hroot : ∀ name, root = some name → (nodes.get? name).isSome = true)
    (h : Set.InjOn nodes.keyOf (nodes.census root)) :
    Apart (nodes.setup options) (commandRequests nodes root) := by
  have hcensus : ∀ {r}, Possible (nodes.setup options) (commandRequests nodes root) r →
      ∃ e ∈ nodes.census root, nodes.Stands r e := by
    intro r hr
    rw [commandRequests_eq hs hroot] at hr
    obtain ⟨x, hx, e, hu, hstands⟩ := NodeTypes.uses_of_possible hs hr
    exact ⟨e, (NodeTypes.mem_census_iff hs hroot).2 ⟨x, hx, hu⟩, hstands⟩
  intro r r' k hr hr' hk hk'
  obtain ⟨e, he, hstands⟩ := hcensus hr
  obtain ⟨e', he', hstands'⟩ := hcensus hr'
  obtain rfl := h he he'
    ((NodeTypes.keyOf_eq hstands hk).symm.trans (NodeTypes.keyOf_eq hstands' hk'))
  rw [hstands.canonical, hstands'.canonical]

/-- **The registry when a command has built its schema**: all its requests were made, the last one
for the root, no call is in progress and no wait was counted. -/
theorem still_of_assemble (hn : nodes.Accepted)
    (hapart : Apart (nodes.setup options) (commandRequests nodes root))
    (h : assemble fuel nodes options root = .ok (schema, s)) :
    Still nodes options ((nodes.outsets root).reverse.map nodes.reference) s ∧
      s.store.stats.waited = 0 := by
  obtain ⟨xs, s₁, r, hprewarm, hroot, hbuild⟩ := assemble_eq_ok_iff.1 h
  obtain ⟨hknown, rfl⟩ := (rootRequest_eq_ok_iff hn.sound).1 hroot
  obtain ⟨x, hres, -⟩ := Schema.build_eq_ok_iff.1 hbuild
  obtain ⟨hrest, hwaited⟩ := rest_of_granted (.initial (nodes.setup options) () 0) hprewarm
  have hrequests : (nodes.outsets root).reverse.map nodes.reference
      = nodes.reference (.named (root.getD queryName))
        :: ((nodes.toList.map NodeTypes.objectOf).reverse ++ []) := by
    rw [List.map_reverse, ← commandRequests_eq hn.sound hknown, commandRequests, hroot]
    simp [Except.toOption]
  have hsub : nodes.reference (.named (root.getD queryName))
      :: ((nodes.toList.map NodeTypes.objectOf).reverse ++ []) ⊆ commandRequests nodes root := by
    rw [← hrequests, List.map_reverse, ← commandRequests_eq hn.sound hknown]
    exact (List.reverse_perm _).subset
  have hdistinct : ∀ r ∈ commandRequests nodes root, r.identifier.Distinct :=
    distinct_of_mem_commandRequests hn.sound
  rw [hrequests]
  refine ⟨still_of_resolve hn.sound hrest (fun r hr => hdistinct r (hsub (.tail _ hr)))
    (hapart.subset hsub) (by simp) hres, ?_⟩
  have hlast := hrest.waited_eq fuel (nodes.reference (.named (root.getD queryName)))
  rw [hres] at hlast
  exact hlast.trans hwaited

/-! ### The counters -/

theorem length_outsets (nodes : NodeTypes) (root : Option String) :
    (nodes.outsets root).length = nodes.size + 1 := by
  rw [NodeTypes.outsets, List.length_append, List.length_map, List.length_singleton,
    NodeTypes.toList, List.length_map, (Dictionary.sorted_perm _).length_eq]
  rfl

/-- **The counters of a command are determined by its definitions.**  If the identities of the run
have distinct keys and the counters are printed, then no failure and no wait was counted; there was
one construction for each identity that the definitions speak of, and all of them are held; and there
was one answer for each node type and one for the root, one for each property, two for each node type
if there is a query object, and one for each wrapper that is held. -/
theorem statistics_of_definitions {text : String} (hn : nodes.Accepted) (inv : Invocation)
    (hapart : Apart (nodes.setup (inv.options "stats")) (commandRequests nodes inv.root))
    (h : renderStats fuel nodes inv = .ok text) :
    ∃ schema s, assemble fuel nodes (inv.options "stats") inv.root = .ok (schema, s) ∧
      text = statsText nodes schema (nodes.setup (inv.options "stats")).names s ∧
      s.store.stats.failures = 0 ∧ s.store.stats.waited = 0 ∧
      s.store.stats.misses = s.store.table.instances.length ∧
      s.store.table.instances.length = s.store.table.size ∧
      s.store.table.size = (nodes.identities inv.root).card ∧
      s.store.stats.resolves = nodes.size + 1
        + (nodes.toList.map fun node => node.properties.length).sum
        + (if nodes.Queries inv.root then 2 * nodes.size else 0) + wrappersOf s.store ∧
      wrappersOf s.store = ((nodes.census inv.root).filter fun e => e.isWrapper = true).card := by
  rw [renderStats_eq] at h
  cases hassemble : assemble fuel nodes (inv.options "stats") inv.root with
  | error e =>
      rw [hassemble] at h
      cases h
  | ok built =>
      obtain ⟨schema, s⟩ := built
      rw [hassemble] at h
      obtain ⟨hst, hwaited⟩ := still_of_assemble hn hapart hassemble
      obtain ⟨hw, hroot⟩ := renderable_of_assemble hn hapart rfl hassemble
      have hrequests : ∀ r ∈ (nodes.outsets inv.root).reverse.map nodes.reference,
          ∃ name, nodes.Knows name ∧ r = nodes.reference (.named name) := fun r hr => by
        rw [List.map_reverse, List.mem_reverse, ← commandRequests_eq hn.sound hroot] at hr
        exact exists_of_mem_commandRequests hn.sound hr
      have hR := reliable_of_wellReferenced hn hw hrequests hst.apart
      have hC : ∀ e, e ∈ nodes.census inv.root
          ↔ ∃ x ∈ (nodes.outsets inv.root).reverse, nodes.Uses x e := fun e => by
        simp only [List.mem_reverse, NodeTypes.mem_census_iff hn.sound hroot]
      have hlength : s.store.table.instances.length = s.store.table.size := by
        rw [← List.length_map Prod.fst, hst.rest.keys_instances.length_eq, Dictionary.names,
          List.length_map]
        rfl
      have hwrappers := hst.wrappersOf_eq hR hC
      obtain ⟨ks, hsession⟩ := hst.rest.session
      refine ⟨schema, s, rfl, (Except.ok.inj h).symm,
        hsession.unfailed hR fun r hr => .root hr, hwaited,
        hst.rest.misses_eq.trans hlength.symm, hlength, ?_, ?_, hwrappers⟩
      · rw [hst.size_eq hR hC, NodeTypes.card_identities (hst.keyOf_injOn hR hC)]
      · rw [hst.resolves_eq hR hC, List.length_reverse, length_outsets,
          NodeTypes.sum_below_census hn.sound, ← hwrappers]
        omega

/-- A book has a title, perhaps an author, and books that it resembles. -/
def book : NodeType where
  context := ⟨"Book", [("author", .text "Author"), ("similar", .text "[Book]"),
    ("title", .text "String!")]⟩
  properties := [("author", .named "Author"), ("similar", .list (.named "Book")),
    ("title", .nonNull (.named "String"))]

/-- An author has books. -/
def author : NodeType where
  context := ⟨"Author", [("books", .text "[Book!]!")]⟩
  description := some "Writes books"
  properties := [("books", .nonNull (.list (.nonNull (.named "Book"))))]

/-- The set of the two. -/
def library : NodeTypes := ⟨[("Author", author), ("Book", book)]⟩

theorem accepted_library : library.Accepted := by
  have hreads : TypeExpr.read "Author" = .ok (.named "Author") ∧
      TypeExpr.read "[Book]" = .ok (.list (.named "Book")) ∧
      TypeExpr.read "String!" = .ok (.nonNull (.named "String")) ∧
      TypeExpr.read "[Book!]!" = .ok (.nonNull (.list (.nonNull (.named "Book")))) := by
    decide +kernel
  obtain ⟨hname, hlist, hnonNull, hnested⟩ := hreads
  have hauthor : ((NodeType.ofName "Author").withDescription "Writes books").withProperties
      [("books", "[Book!]!")] = .ok author := by
    simp only [NodeType.withProperties, NodeType.withProperty, hnested]
    rfl
  have hbook : (NodeType.ofName "Book").withProperties
      [("author", "Author"), ("similar", "[Book]"), ("title", "String!")] = .ok book := by
    simp only [NodeType.withProperties, NodeType.withProperty, hname, hlist, hnonNull]
    rfl
  have hnames : nodeNameFault? "Author" = none ∧ nodeNameFault? "Book" = none := by decide +kernel
  have hone : NodeTypes.empty.insert author = .ok ⟨[("Author", author)]⟩ :=
    NodeTypes.insert_eq_ok_iff.2 ⟨hnames.1, rfl⟩
  have htwo : NodeTypes.insert ⟨[("Author", author)]⟩ book = .ok library :=
    NodeTypes.insert_eq_ok_iff.2 ⟨hnames.2, rfl⟩
  exact .insert (.insert .empty (((NodeType.Defined.ofName _).withDescription _).withProperties
    hauthor) hone) ((NodeType.Defined.ofName _).withProperties hbook) htwo

theorem toList_library : library.toList = [author, book] := by
  have hsorted : Dictionary.sorted library.entries = library.entries :=
    Dictionary.sorted_of_pairwise (by decide +kernel)
  rw [NodeTypes.toList, hsorted]
  rfl

theorem wellReferenced_library : library.WellReferenced := by
  have hknown : ∀ node ∈ [author, book], ∀ p ∈ node.properties,
      (library.get? p.2.root).isSome = true ∨ p.2.root ∈ builtinScalars := by decide +kernel
  intro name node hg p hp
  have hnode := (accepted_library.sound.mem_toList node).2
    (accepted_library.sound.named hg ▸ hg)
  rw [toList_library] at hnode
  exact (hknown node hnode p hp).imp_right Or.inl

/-- What the definitions speak of: the two objects and the query object, the types of the
properties, and what the query object offers. -/
theorem sources_library : library.sources none =
    [.named "Author", .named "Book", .named queryName,
      .nonNull (.list (.nonNull (.named "Book"))), .named "Author", .list (.named "Book"),
      .nonNull (.named "String"),
      .named "Author", .nonNull (.list (.nonNull (.named "Author"))),
      .named "Book", .nonNull (.list (.nonNull (.named "Book")))] := by
  have hqueries : library.Queries none := Or.inl rfl
  rw [NodeTypes.sources, NodeTypes.objects, if_pos hqueries, if_pos hqueries,
    NodeTypes.propertyTypes, NodeTypes.offered, toList_library]
  rfl

/-- No two of them share a key. -/
theorem injOn_library : Set.InjOn library.keyOf (library.census none) := by
  have hkeys : (((library.sources none).flatMap TypeExpr.parts).dedup.map library.keyOf).Nodup := by
    rw [sources_library]
    decide +kernel
  intro e he e' he' heq
  exact List.inj_on_of_nodup_map hkeys (List.mem_dedup.2 (List.mem_toFinset.1 he))
    (List.mem_dedup.2 (List.mem_toFinset.1 he')) heq

theorem card_library : (library.census none).card = 12 ∧
    ((library.census none).filter fun e => e.isWrapper = true).card = 8 := by
  rw [NodeTypes.census, sources_library]
  decide +kernel

/-- Two books and authors that refer to each other: twelve identities, eight of them of lists and of
types without null, and nineteen answers. -/
theorem library_counted : library.Accepted ∧
    Apart (library.setup (queryCommand.options "stats")) (commandRequests library none) ∧
    ∃ fuel schema s, renderStats fuel library queryCommand
        = .ok (statsText library schema (library.setup (queryCommand.options "stats")).names s) ∧
      s.store.stats.failures = 0 ∧ s.store.stats.waited = 0 ∧ s.store.stats.misses = 12 ∧
      s.store.table.size = 12 ∧ wrappersOf s.store = 8 ∧ s.store.stats.resolves = 19 := by
  have hrenderable : Renderable library none := ⟨wellReferenced_library, nofun⟩
  have hapart : Apart (library.setup (queryCommand.options "stats"))
      (commandRequests library none) :=
    apart_of_census accepted_library.sound hrenderable.2 injOn_library
  refine ⟨accepted_library, hapart, ?_⟩
  rcases assemble_ends accepted_library hapart rfl with ⟨-, fuel, schema, s, hassemble⟩ | ⟨hnot, -⟩
  · have hrender : renderStats fuel library queryCommand = .ok (statsText library schema
        (library.setup (queryCommand.options "stats")).names s) := by
      rw [renderStats_eq]
      exact congrArg _ (hassemble fuel le_rfl)
    obtain ⟨schema', s', -, htext, hfailures, hwaited, hmisses, hlength, hsize, hresolves,
      hwrappers⟩ := statistics_of_definitions accepted_library queryCommand hapart hrender
    have htwelve : s'.store.table.size = 12 :=
      hsize.trans ((NodeTypes.card_identities injOn_library).trans card_library.1)
    have height : wrappersOf s'.store = 8 := hwrappers.trans card_library.2
    have hqueries : library.Queries queryCommand.root := Or.inl rfl
    refine ⟨fuel, schema', s', htext ▸ hrender, hfailures, hwaited,
      hmisses.trans (hlength.trans htwelve), htwelve, height, ?_⟩
    rw [hresolves, height, toList_library, if_pos hqueries]
    rfl
  · exact absurd hrenderable hnot

end SchemaGraph.Command
