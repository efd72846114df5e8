/-
**What a rendered text says about the definitions.**

The text of a query schema has a block for each node type, so two sets with one text are the same as
far as blocks can be read back.  They cannot always: nothing is escaped, so the name of a property
may hold a line break and with it the line of another property.  Where no property is called so, and
no description holds its own end, equal texts come of equal definitions.

Main results:

* `exists_sdlOf_of_render`, `renders_sdlOf` — what is rendered is the text that the definitions
  determine;
* `definitions_of_text` — **definitions are read back from the text**, where no text in them holds
  what ends it and no two of the types in question share a key;
* `line_break_forges_property` — **a line break forges a property**.
-/

import SchemaGraph.Proofs.Command.Rendering
import SchemaGraph.Proofs.Schema.Lines

set_option autoImplicit false

namespace SchemaGraph.Command

open Registry (Options Request Apart)

variable {nodes nodes' : NodeTypes} {inv inv' : Invocation} {fuel fuel' : Nat} {text : String}
  {name : String}

/-! ### Equal texts -/

/-- What is rendered at the query object is the text that the definitions determine.  It lists known
names, the query object and all node types. -/
theorem exists_sdlOf_of_render (hn : nodes.Accepted)
    (hapart : Apart (nodes.setup (inv.options "schema")) (commandRequests nodes none))
    (hroot : inv.root = none) (h : renderSchema fuel nodes inv = .ok text) :
    ∃ names, text = nodes.sdlOf queryName names ∧ queryName ∈ names ∧
      (∀ name ∈ names, nodes.Knows name) ∧
      ∀ name, (nodes.get? name).isSome = true → name ∈ names := by
  rw [renderSchema_eq, hroot] at h
  cases hassemble : assemble fuel nodes (inv.options "schema") none with
  | error e => simp [hassemble, Except.bind] at h
  | ok p =>
      obtain ⟨schema, s⟩ := p
      obtain ⟨rs, hb⟩ := built_of_assemble hn hapart hassemble
      have hr := renderable_of_assemble hn hapart rfl hassemble
      have hnames := mem_names_iff hn.sound hr hb
      have hsdl := hb.sdl
      simp only [Option.getD_none] at hsdl
      simp only [hassemble, Except.bind, hsdl, Except.ok.injEq] at h
      refine ⟨_, h.symm, (hnames _).2 (Or.inl rfl), fun name hname => ?_, fun name hsome =>
        (hnames name).2 (Or.inr (Or.inl hsome))⟩
      exact NodeTypes.canMake_named_iff.1 (hb.whole _ ((hb.listed.mem_iff name).1 hname))

/-- **Definitions are read back from the text.**  Let no description hold its own end, and no name of
a property a line break; and let no two of the identities that a set's command requests, itself or
on the way, have one hash.  Then sets whose query schemas have one text have the same node types,
with the same descriptions and the same properties.  Sets that are read from texts of definitions
are accepted, by `NodeTypes.accepted_of_ofJson`. -/
theorem definitions_of_text (hn : nodes.Accepted) (hn' : nodes'.Accepted) (hp : nodes.Plain)
    (hp' : nodes'.Plain)
    (hapart : Apart (nodes.setup (inv.options "schema")) (commandRequests nodes none))
    (hapart' : Apart (nodes'.setup (inv'.options "schema")) (commandRequests nodes' none))
    (hroot : inv.root = none) (hroot' : inv'.root = none)
    (h : renderSchema fuel nodes inv = .ok text)
    (h' : renderSchema fuel' nodes' inv' = .ok text) (name : String) :
    nodes.content? name = nodes'.content? name := by
  obtain ⟨names, rfl, hq, hk, hall⟩ := exists_sdlOf_of_render hn hapart hroot h
  obtain ⟨names', htext, hq', hk', hall'⟩ := exists_sdlOf_of_render hn' hapart' hroot' h'
  exact NodeTypes.content?_of_sdlOf hn hn' hp hp' hk hk' hq hq' hall hall' htext name

/-- What can be rendered has the text that the definitions determine, given steps enough. -/
theorem renders_sdlOf {names : List String} (inv : Invocation) (hn : nodes.Accepted)
    (hapart : Apart (nodes.setup (inv.options "schema")) (commandRequests nodes none))
    (hroot : inv.root = none) (hw : nodes.WellReferenced)
    (hlisted : nodes.Listed (.named queryName) names) : ∃ n, ∀ fuel, n ≤ fuel →
      renderSchema fuel nodes inv = .ok (nodes.sdlOf queryName names) := by
  rcases assemble_ends hn hapart rfl with ⟨-, n, schema, s, hassemble⟩ | ⟨hr, -⟩
  · obtain ⟨rs, hb⟩ := built_of_assemble hn hapart (hassemble n le_rfl)
    refine ⟨n, fun fuel hfuel => ?_⟩
    rw [renderSchema_eq, hroot, hassemble fuel hfuel, hlisted.unique hb.listed]
    exact hb.sdl
  · exact absurd ⟨hw, nofun⟩ hr

/-! ### A node type with integers -/

/-- A node type whose properties are integers, called in this order, and set first in another. -/
def intNode (first names : List String) : NodeType where
  context := ⟨"Page", first.map fun n => (n, .text "Int")⟩
  properties := names.map fun n => (n, .named "Int")

/-- The set of it alone. -/
def intPage (first names : List String) : NodeTypes := ⟨[("Page", intNode first names)]⟩

variable {first names : List String}

theorem get?_intPage : (intPage first names).get? name
    = if "Page" = name then some (intNode first names) else none := rfl

/-- The properties of the node type are set one after the other. -/
def IntSettings (settings first names : List String) : Prop :=
  (NodeType.ofName "Page").withProperties (settings.map fun n => (n, "Int"))
    = .ok (intNode first names)

theorem insert_intNode : NodeTypes.empty.insert (intNode first names)
    = .ok (intPage first names) :=
  NodeTypes.insert_eq_ok_iff.2 ⟨(by decide +kernel : nodeNameFault? "Page" = none), rfl⟩

theorem accepted_intPage {settings : List String} (h : IntSettings settings first names) :
    (intPage first names).Accepted :=
  .insert .empty ((NodeType.Defined.ofName "Page").withProperties h) insert_intNode

theorem wellReferenced_intPage : (intPage first names).WellReferenced := by
  intro name node hg p hp
  rw [get?_intPage] at hg
  split at hg
  · obtain rfl := Option.some.inj hg
    obtain ⟨n, -, rfl⟩ := List.mem_map.1 hp
    exact Or.inr (Or.inl (by decide : "Int" ∈ builtinScalars))
  · cases hg

theorem mentions_intPage (hnames : names ≠ []) {n m : String} :
    (intPage first names).Mentions n m ↔ n = "Page" ∧ m = "Int" := by
  unfold NodeTypes.Mentions
  constructor
  · rintro ⟨node, hg, p, hp, rfl⟩
    rw [get?_intPage] at hg
    split at hg
    · obtain rfl := Option.some.inj hg
      obtain ⟨property, -, rfl⟩ := List.mem_map.1 hp
      exact ⟨Eq.symm ‹_›, rfl⟩
    · cases hg
  · rintro ⟨rfl, rfl⟩
    obtain ⟨property, hproperty⟩ := List.exists_mem_of_ne_nil names hnames
    exact ⟨_, rfl, _, List.mem_map_of_mem hproperty, rfl⟩

theorem listed_intPage (hs : (intPage first names).Sound) (hnames : names ≠ []) :
    (intPage first names).Listed (.named queryName) ["Int", "Page", queryName] where
  nodup := by decide
  ordered := by decide +kernel
  mem_iff name := by
    have hpage : ((intPage first names).get? name).isSome = true ↔ name = "Page" := by
      rw [get?_intPage]
      split <;> simp_all [eq_comm]
    have hscalar : "Int" ∈ builtinScalars := by decide
    rw [NodeTypes.uses_named_iff hs, NodeTypes.reached_query_iff wellReferenced_intPage, hpage]
    simp only [mentions_intPage hnames, List.mem_cons, List.not_mem_nil, or_false]
    constructor
    · rintro (rfl | rfl | rfl)
      · exact Or.inr (Or.inr ⟨Or.inl hscalar, "Page", rfl, rfl⟩)
      · exact Or.inr (Or.inl rfl)
      · exact Or.inl rfl
    · rintro (rfl | rfl | ⟨-, n, -, rfl⟩)
      · exact Or.inr (Or.inr rfl)
      · exact Or.inr (Or.inl rfl)
      · exact Or.inl rfl

/-- The expressions that are used in the set. -/
def intExpressions : List TypeExpr :=
  let page := TypeExpr.named "Page"
  [.named queryName, .named "Int", .nonNull (.list (.nonNull page)), .list (.nonNull page),
    .nonNull page, page]

/-- The set uses those, and no others. -/
def UsesInt (first names : List String) : Prop :=
  ([TypeExpr.named "Page", .named queryName].flatMap (intPage first names).expressions).dedup
    = intExpressions

instance (first names : List String) : Decidable (UsesInt first names) :=
  inferInstanceAs (Decidable (_ = _))

/-- The keys do not depend on what the properties are called. -/
theorem keyOf_intPage : (intPage first names).keyOf = (intPage [] []).keyOf := by
  funext e
  unfold NodeTypes.keyOf NodeTypes.reference
  rw [get?_intPage, get?_intPage]
  by_cases hname : "Page" = e.root
  · rw [if_pos hname, if_pos hname]
    rfl
  · rw [if_neg hname, if_neg hname]

theorem nodup_intKeys : (intExpressions.map (intPage [] []).keyOf).Nodup := by
  decide +kernel

theorem apart_intPage {options : Options} (hs : (intPage first names).Sound)
    (huses : UsesInt first names) :
    Apart ((intPage first names).setup options) (commandRequests (intPage first names) none) := by
  have hlist : (intPage first names).toList = [intNode first names] := by
    simp [intPage, NodeTypes.toList, Dictionary.sorted]
  have hrequests : commandRequests (intPage first names) none
      = [TypeExpr.named "Page", .named queryName].map (intPage first names).reference := by
    rw [commandRequests, hlist]
    rfl
  have hkeys : (([TypeExpr.named "Page", .named queryName].flatMap
      (intPage first names).expressions).dedup.map (intPage first names).keyOf).Nodup := by
    rw [show _ = intExpressions from huses, keyOf_intPage]
    exact nodup_intKeys
  rw [hrequests]
  intro r r' k
  exact NodeTypes.apart_of_keys hs hkeys

/-- Two such sets have one text when the definitions determine one. -/
theorem intPage_rendered_alike {first' names' : List String}
    (hn : (intPage first names).Accepted) (hn' : (intPage first' names').Accepted)
    (hnames : names ≠ []) (hnames' : names' ≠ []) (huses : UsesInt first names)
    (huses' : UsesInt first' names')
    (hsame : (intPage first names).sdlOf queryName ["Int", "Page", queryName]
      = (intPage first' names').sdlOf queryName ["Int", "Page", queryName]) :
    ∃ fuel text, renderSchema fuel (intPage first names) queryCommand = .ok text ∧
      renderSchema fuel (intPage first' names') queryCommand = .ok text := by
  obtain ⟨n, hrender⟩ := renders_sdlOf queryCommand hn (apart_intPage hn.sound huses) rfl
    wellReferenced_intPage (listed_intPage hn.sound hnames)
  obtain ⟨n', hrender'⟩ := renders_sdlOf queryCommand hn' (apart_intPage hn'.sound huses') rfl
    wellReferenced_intPage (listed_intPage hn'.sound hnames')
  exact ⟨max n n', _, hrender _ (le_max_left n n'), hsame ▸ hrender' _ (le_max_right n n')⟩

/-- Properties with integers can be set in any order. -/
theorem intSettings : IntSettings ["a", "b"] ["a", "b"] ["a", "b"] ∧
    IntSettings ["b", "a", "b"] ["b", "a"] ["a", "b"] ∧
    IntSettings ["a: Int\n  b"] ["a: Int\n  b"] ["a: Int\n  b"] := by
  have hint : TypeExpr.read "Int" = .ok (.named "Int") := by decide +kernel
  simp only [IntSettings, List.map_cons, List.map_nil, NodeType.withProperties,
    NodeType.withProperty, hint]
  exact ⟨rfl, rfl, rfl⟩

theorem plain_intPage (h : ∀ n ∈ names, '\n' ∉ n.toList) : (intPage first names).Plain := by
  intro name node hg
  rw [get?_intPage] at hg
  split at hg
  · obtain rfl := Option.some.inj hg
    refine ⟨by simp [intNode], fun p hp => ?_⟩
    obtain ⟨n, hmem, rfl⟩ := List.mem_map.1 hp
    exact h n hmem
  · cases hg

/-- Two sets with one text: in one of them a property was set again, so its scope has another
order. -/
theorem intPage_read_back : (intPage ["a", "b"] ["a", "b"]).Accepted ∧
    (intPage ["b", "a"] ["a", "b"]).Accepted ∧
    (intPage ["a", "b"] ["a", "b"]).Plain ∧ (intPage ["b", "a"] ["a", "b"]).Plain ∧
    ∃ fuel text, renderSchema fuel (intPage ["a", "b"] ["a", "b"]) queryCommand = .ok text ∧
      renderSchema fuel (intPage ["b", "a"] ["a", "b"]) queryCommand = .ok text ∧
      ∀ name, (intPage ["a", "b"] ["a", "b"]).content? name
        = (intPage ["b", "a"] ["a", "b"]).content? name := by
  obtain ⟨hone, htwo, -⟩ := intSettings
  have hn := accepted_intPage hone
  have hn' := accepted_intPage htwo
  have hp : ∀ first, (intPage first ["a", "b"]).Plain := fun first =>
    plain_intPage (by decide +kernel)
  have huses : UsesInt ["a", "b"] ["a", "b"] := by decide +kernel
  have huses' : UsesInt ["b", "a"] ["a", "b"] := by decide +kernel
  obtain ⟨fuel, text, h, h'⟩ := intPage_rendered_alike hn hn' (by simp) (by simp) huses huses'
    (by decide +kernel)
  exact ⟨hn, hn', hp _, hp _, fuel, text, h, h', definitions_of_text hn hn' (hp _) (hp _)
    (apart_intPage hn.sound huses) (apart_intPage hn'.sound huses') rfl rfl h h'⟩

/-! ### A forged property -/

deriving instance DecidableEq for Definition

/-- The set is defined by a text that says so. -/
theorem ofJson_intPage {settings : List String}
    (hread : (JsonValue.read? text).bind definitionsOf?
      = some [("Page", ⟨none, settings.map fun n => (n, "Int")⟩)])
    (hsorted : settings.Pairwise (· ≤ ·)) (h : IntSettings settings first names) :
    NodeTypes.ofJson text = .ok (intPage first names) := by
  have hproperties : Dictionary.sorted (settings.map fun n => (n, "Int"))
      = settings.map fun n => (n, "Int") :=
    Dictionary.sorted_of_pairwise (List.pairwise_map.2 hsorted)
  have hnode : NodeType.ofDefinition "Page" ⟨none, settings.map fun n => (n, "Int")⟩
      = .ok (intNode first names) := by
    rw [NodeType.ofDefinition, hproperties]
    exact h
  have hdefinitions : Dictionary.sorted [("Page", (⟨none, settings.map fun n => (n, "Int")⟩ :
      Definition))] = [("Page", ⟨none, settings.map fun n => (n, "Int")⟩)] :=
    List.mergeSort_singleton _
  simp only [NodeTypes.ofJson, hread, hdefinitions, NodeTypes.insertAll, hnode, insert_intNode]

/-- Two properties. -/
def honestText : String :=
  "\x7b\"nodeTypes\":\x7b\"Page\":\x7b\"properties\":\x7b\"a\":\"Int\",\"b\":\"Int\"\x7d\x7d\x7d\x7d"

/-- One property with a line break in its name. -/
def forgedText : String :=
  "\x7b\"nodeTypes\":\x7b\"Page\":\x7b\"properties\":\x7b\"a: Int\\n  b\":\"Int\"\x7d\x7d\x7d\x7d"

/-- **A line break forges a property**: a node type with one property is rendered like one with
two. -/
theorem line_break_forges_property : ∃ honest forged fuel text,
    NodeTypes.ofJson honestText = .ok honest ∧ NodeTypes.ofJson forgedText = .ok forged ∧
    renderSchema fuel honest queryCommand = .ok text ∧
    renderSchema fuel forged queryCommand = .ok text ∧
    (honest.get? "Page").map (fun node => Dictionary.names node.properties) = some ["a", "b"] ∧
    (forged.get? "Page").map (fun node => Dictionary.names node.properties)
      = some ["a: Int\n  b"] := by
  obtain ⟨hone, -, hforged⟩ := intSettings
  have hread : NodeTypes.ofJson honestText = .ok (intPage ["a", "b"] ["a", "b"]) :=
    ofJson_intPage (by decide +kernel) (by decide +kernel) hone
  have hread' : NodeTypes.ofJson forgedText = .ok (intPage ["a: Int\n  b"] ["a: Int\n  b"]) :=
    ofJson_intPage (by decide +kernel) (by decide +kernel) hforged
  obtain ⟨fuel, text, h, h'⟩ := intPage_rendered_alike (NodeTypes.accepted_of_ofJson hread)
    (NodeTypes.accepted_of_ofJson hread') (by simp) (by simp) (by decide +kernel)
    (by decide +kernel) (by decide +kernel)
  exact ⟨_, _, fuel, text, hread, hread', h, h', rfl, rfl⟩

end SchemaGraph.Command
