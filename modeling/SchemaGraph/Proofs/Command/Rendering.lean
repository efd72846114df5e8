/-
**Which definitions are rendered.**

A command first requests the object of every node type, and then builds the schema at its root.  If
the set is well referenced, all these requests can be relied on: none of them fails, on however many
threads they are made, and the schema at the root is built and has a text.  If it is not, the object
of some node type is granted to nobody who asks for it from outside, so the first part fails, on
however many threads the requests are made, and no schema is built.  In either case the first part
comes to an end, in whichever order the threads take their steps.

Main definitions:

* `commandRequests` — what a command requests;
* `Renderable` — the set is well referenced, and the root, if one is given, is a node type of it;
* `Prewarming`, `Prewarmed` — the objects of node types are requested on any number of threads, and no
  call is in progress any more;
* `InSchema` — the names that a schema should consist of.

Main results:

* `Prewarming.ends` — the requests for objects come to an end, on however many threads;
* `Prewarming.answered`, `exists_never_returned` — which requests for objects fail;
* `Prewarmed.built`, `Prewarmed.builds` — what is built next;
* `assemble_ends` — what a command comes to, and that it comes to an end;
* `renders_iff_wellReferenced` — **the sets that are rendered are those that are well referenced**.
-/

import SchemaGraph.Command.Render
import SchemaGraph.Proofs.Registry.Bounded
import SchemaGraph.Proofs.Schema.Requests

set_option autoImplicit false

namespace SchemaGraph.Command

open Registry (Handle Request Options ThreadId Possible Apart Reliable AtRest Session Stable perform)

variable {nodes : NodeTypes} {options : Options} {rs : List Request} {s s' : TypeState}
  {r : Request} {fuel : Nat} {root : Option String} {node : NodeType} {schema : Schema}

/-! ### What a command requests -/

/-- What a command requests: the objects of all node types, and its root if there is one. -/
def commandRequests (nodes : NodeTypes) (root : Option String) : List Request :=
  nodes.toList.map NodeTypes.objectOf ++ (rootRequest nodes root).toOption.toList

theorem objectOf_eq_reference (hs : nodes.Sound) (h : node ∈ nodes.toList) :
    NodeTypes.objectOf node = nodes.reference (.named node.name) :=
  (NodeTypes.reference_named_of_get? ((hs.mem_toList node).1 h)).symm

/-- A root is given if it is a node type, and is requested like the expression that is its name. -/
theorem rootRequest_eq_ok_iff (hs : nodes.Sound) : rootRequest nodes root = .ok r ↔
    (∀ name, root = some name → (nodes.get? name).isSome = true) ∧
      r = nodes.reference (.named (root.getD queryName)) := by
  cases root with
  | none =>
      rw [Option.getD_none, NodeTypes.reference_named_of_none hs.get?_query]
      exact ⟨fun h => ⟨nofun, (Except.ok.inj h).symm⟩, fun h => congrArg Except.ok h.2.symm⟩
  | some name =>
      simp only [rootRequest, NodeTypes.nodeReference?, Option.some.injEq, forall_eq',
        Option.getD_some]
      cases hg : nodes.get? name with
      | none => simp
      | some node =>
          rw [NodeTypes.reference_named_of_get? hg]
          simp [eq_comm]

/-- A root that is not had is not a node type. -/
theorem rootRequest_error {e : SchemaError} (h : rootRequest nodes root = .error e) :
    ∃ name, e = .unknownNode name := by
  cases root with
  | none => cases h
  | some name =>
      cases href : nodes.nodeReference? name with
      | some r => simp [rootRequest, href] at h
      | none =>
          simp only [rootRequest, href] at h
          exact ⟨name, (Except.error.inj h).symm⟩

theorem objects_subset (nodes : NodeTypes) (root : Option String) :
    nodes.toList.map NodeTypes.objectOf ⊆ commandRequests nodes root :=
  List.subset_append_left _ _

theorem mem_commandRequests (h : rootRequest nodes root = .ok r) :
    r ∈ commandRequests nodes root :=
  List.mem_append_right _ (by rw [h]; exact List.mem_singleton.2 rfl)

/-- A command requests known names alone. -/
theorem exists_of_mem_commandRequests (hs : nodes.Sound) (hr : r ∈ commandRequests nodes root) :
    ∃ name, nodes.Knows name ∧ r = nodes.reference (.named name) := by
  rcases List.mem_append.1 hr with hr | hr
  · obtain ⟨node, hnode, rfl⟩ := List.mem_map.1 hr
    refine ⟨node.name, Or.inl ?_, objectOf_eq_reference hs hnode⟩
    rw [(hs.mem_toList node).1 hnode]
    rfl
  · cases hroot : rootRequest nodes root with
    | error e => simp [hroot, Except.toOption] at hr
    | ok r' =>
        obtain rfl : r = r' := by simpa [hroot, Except.toOption] using hr
        obtain ⟨hknown, rfl⟩ := (rootRequest_eq_ok_iff hs).1 hroot
        cases root with
        | none => exact ⟨_, Or.inr (Or.inr (Or.inr rfl)), rfl⟩
        | some name => exact ⟨name, Or.inl (hknown name rfl), rfl⟩

theorem distinct_of_mem_commandRequests (hs : nodes.Sound) :
    ∀ r ∈ commandRequests nodes root, r.identifier.Distinct := by
  intro r hr
  obtain ⟨name, -, rfl⟩ := exists_of_mem_commandRequests hs hr
  exact nodes.distinct_reference _

/-- The sets and roots that are rendered: the set is well referenced, and the root, if one is given,
is a node type of the set. -/
def Renderable (nodes : NodeTypes) (root : Option String) : Prop :=
  nodes.WellReferenced ∧ ∀ name, root = some name → (nodes.get? name).isSome = true

theorem assemble_eq_ok_iff : assemble fuel nodes options root = .ok (schema, s') ↔
    ∃ xs s r, prewarmNodes (nodes.setup options) fuel nodes NodeTypes.start = (.ok xs, s) ∧
      rootRequest nodes root = .ok r ∧
      Schema.build (nodes.setup options) fuel r s = (.ok schema, s') := by
  rcases hprewarm : prewarmNodes (nodes.setup options) fuel nodes NodeTypes.start with ⟨answer, s⟩
  cases answer with
  | error e => simp [assemble, hprewarm]
  | ok xs =>
      cases hroot : rootRequest nodes root with
      | error e => simp [assemble, hprewarm, hroot]
      | ok r =>
          rcases hbuild : Schema.build (nodes.setup options) fuel r s with ⟨result, s''⟩
          cases result <;> simp [assemble, hprewarm, hroot, hbuild, Except.map]

/-! ### After the objects were requested -/

/-- The objects of node types have been requested, on however many threads. -/
def Prewarming (nodes : NodeTypes) (options : Options) (s : TypeState) : Prop :=
  ∃ rs ks, rs ⊆ nodes.toList.map NodeTypes.objectOf ∧ Session (nodes.setup options) rs ks s

/-- No call is in progress any more. -/
structure Prewarmed (nodes : NodeTypes) (options : Options) (s : TypeState) : Prop where
  prewarming : Prewarming nodes options s
  outside : ∀ t, (s.thread t).stage.isOutside = true
  idle : s.isIdle 0 = true

theorem Prewarmed.rest (h : Prewarmed nodes options s) :
    ∃ rs, rs ⊆ nodes.toList.map NodeTypes.objectOf ∧ AtRest (nodes.setup options) rs s := by
  obtain ⟨rs, ks, hsub, hsession⟩ := h.prewarming
  exact ⟨rs, hsub, ⟨ks, hsession⟩, h.outside, h.idle⟩

/-- **The requests for objects come to an end**: the threads that make them take finitely many steps,
in whichever order, and no call is in progress when none has a step. -/
theorem Prewarming.ends (h : Prewarming nodes options s) :
    (∃ (ts : List ThreadId) (s' : TypeState),
      perform (nodes.setup options) (ts.map .step) s = some s' ∧ Prewarmed nodes options s') ∧
    ∃ n, ∀ (ts : List ThreadId) s',
      perform (nodes.setup options) (ts.map .step) s = some s' → ts.length ≤ n ∧
        (Stable (nodes.setup options) s' → Prewarmed nodes options s') := by
  obtain ⟨rs, ks, hsub, hsession⟩ := h
  obtain ⟨⟨ts, s', hp, hstable⟩, n, hn⟩ :=
    hsession.ends fun r _ => nodes.exists_finitary options r
  have hover : ∀ (ts : List ThreadId) s',
      perform (nodes.setup options) (ts.map .step) s = some s' →
      Stable (nodes.setup options) s' → Prewarmed nodes options s' := by
    intro ts s' hp hstable
    have hrest := (hn ts s' hp).2 hstable
    obtain ⟨ks', hsession'⟩ := hsession.steps (Registry.steps_of_perform hp)
    refine ⟨⟨rs, ks', hsub, hsession'⟩, fun t => Registry.Stage.isOutside_of_resting (hrest t), ?_⟩
    rw [Registry.State.isIdle_eq]
    exact hrest 0
  exact ⟨⟨ts, s', hp, hover ts s' hp hstable⟩, n, fun ts s' hp => ⟨(hn ts s' hp).1, hover ts s' hp⟩⟩

/-- A command requests them one after the other. -/
theorem prewarmed_of_prewarmNodes {answer : Except SchemaError (List Handle)}
    (h : prewarmNodes (nodes.setup options) fuel nodes NodeTypes.start = (answer, s))
    (hanswer : answer ≠ .error .unfinished) : Prewarmed nodes options s := by
  obtain ⟨rs, hsub, hrest⟩ := Kept.prewarm (P := AtRest _) rest_of_request
    (.initial (nodes.setup options) () 0) h hanswer
  rw [List.append_nil] at hsub
  obtain ⟨ks, hsession⟩ := hrest.session
  exact ⟨⟨rs, ks, hsub, hsession⟩, hrest.outside, hrest.idle⟩

section Assembly

variable (hn : nodes.Accepted) (hapart : Apart (nodes.setup options) (commandRequests nodes root))

include hn hapart

/-! ### The objects of the node types -/

/-- All that a command requests can be relied on if the set is well referenced. -/
theorem reliable_command (hw : nodes.WellReferenced) :
    Reliable (nodes.setup options) (Possible (nodes.setup options) (commandRequests nodes root))
      (Possible (nodes.setup options) (commandRequests nodes root)) :=
  reliable_of_wellReferenced hn hw (fun _ hr => exists_of_mem_commandRequests hn.sound hr) hapart

/-- **No request for an object fails if the set is well referenced**, on any thread. -/
theorem Prewarming.answered (h : Prewarming nodes options s) (hw : nodes.WellReferenced)
    (t : ThreadId) : (∀ c failure, (s.thread t).stage ≠ .failing c failure) ∧
      ∀ e, (s.thread t).stage ≠ .returned (.error e) := by
  obtain ⟨rs, ks, hsub, hsession⟩ := h
  exact hsession.answered (reliable_command hn hapart hw)
    (fun r hr => .root (objects_subset nodes root (hsub hr))) t

/-- The properties of a node type whose object is ready refer to known names. -/
theorem Prewarming.knows {k : Key} {i : Registry.InstanceId} (h : Prewarming nodes options s)
    (hblock : options.block = true) (hnode : node ∈ nodes.toList)
    (hk : (NodeTypes.objectOf node).key = .ok k)
    (hready : Dictionary.find? k s.store.table.entries = some (.ready i)) :
    ∀ p ∈ node.properties, nodes.Knows p.2.root := by
  obtain ⟨rs, ks, hsub, hsession⟩ := h
  have hget := (hn.sound.mem_toList node).1 hnode
  have hpossible : Possible (nodes.setup options) (commandRequests nodes root)
      (NodeTypes.objectOf node) :=
    .root (objects_subset nodes root (List.mem_map_of_mem hnode))
  have hstands : nodes.Stands (NodeTypes.objectOf node) (.named node.name) := by
    rw [objectOf_eq_reference hn.sound hnode]
    exact .refl _
  have hknows := NodeTypes.knows_of_ready hn.sound (distinct_of_mem_commandRequests hn.sound)
    hapart hblock hsession (List.Subset.trans hsub (objects_subset nodes root)) hpossible hstands
    hk hready
  intro p hp
  refine hknows p.2 ?_
  rw [NodeTypes.below_named_of_get? hget]
  exact List.mem_map_of_mem hp

/-- **If the set is not well referenced there is an object that nobody is ever given**: on no thread
does a call return a handle for it. -/
theorem exists_never_returned (hblock : options.block = true) (hw : ¬ nodes.WellReferenced) :
    ∃ node ∈ nodes.toList, ∀ s t x, Prewarming nodes options s →
      (s.thread t).stage = .returned (.ok x) → (NodeTypes.objectOf node).key ≠ .ok x.key := by
  unfold NodeTypes.WellReferenced at hw
  push Not at hw
  obtain ⟨name, node, hget, p, hp, hunknown⟩ := hw
  obtain rfl := hn.sound.named hget
  have hnode := (hn.sound.mem_toList node).2 hget
  refine ⟨node, hnode, fun s t x h hst hk => ?_⟩
  have ⟨rs, ks, _, hsession⟩ := h
  obtain ⟨i, hready⟩ := ready_of_returned hblock hsession hst
  exact hunknown (h.knows hn hapart hblock hnode hk hready p hp)

/-- When the object of every node type is had, the set is well referenced. -/
theorem wellReferenced_of_prewarm {xs : List Handle} (hblock : options.block = true)
    (h : prewarmNodes (nodes.setup options) fuel nodes NodeTypes.start = (.ok xs, s)) :
    nodes.WellReferenced := by
  intro name node hget
  obtain rfl := hn.sound.named hget
  have hnode := (hn.sound.mem_toList node).2 hget
  obtain ⟨rs, s₁, s₂, x, hsub, hrest, hreq⟩ :=
    exists_of_prewarm (.initial (nodes.setup options) () 0) h _ (List.mem_map_of_mem hnode)
  obtain ⟨i, hk, hready⟩ := ready_of_request hblock hrest hreq
  obtain ⟨ks, hsession⟩ := (rest_of_request hrest hreq nofun).session
  rw [List.append_nil] at hsub
  have hprewarming : Prewarming nodes options s₂ :=
    ⟨_, ks, List.cons_subset.2 ⟨List.mem_map_of_mem hnode, hsub⟩, hsession⟩
  exact hprewarming.knows hn hapart hblock hnode hk hready

/-! ### The schema at the root -/

/-- What the root asks for next is as distinct as what was asked for before. -/
theorem Prewarmed.next (h : Prewarmed nodes options s) (hroot : rootRequest nodes root = .ok r) :
    ∃ rs, AtRest (nodes.setup options) rs s ∧ (∀ r ∈ rs, r.identifier.Distinct) ∧
      Apart (nodes.setup options) (r :: rs) := by
  obtain ⟨rs, hsub, hrest⟩ := h.rest
  have hsub' : r :: rs ⊆ commandRequests nodes root := List.cons_subset.2
    ⟨mem_commandRequests hroot, List.Subset.trans hsub (objects_subset nodes root)⟩
  exact ⟨rs, hrest, fun r hr => distinct_of_mem_commandRequests hn.sound r
    (hsub' (List.mem_cons_of_mem _ hr)), hapart.subset hsub'⟩

/-- **What a command that succeeds has built**, whatever the order of the requests before. -/
theorem Prewarmed.built (h : Prewarmed nodes options s) (hroot : rootRequest nodes root = .ok r)
    (hbuild : Schema.build (nodes.setup options) fuel r s = (.ok schema, s')) :
    ∃ rs, Built nodes options rs (.named (root.getD queryName)) s' schema := by
  obtain ⟨rs, hrest, hdistinct, hapart'⟩ := h.next hn hapart hroot
  obtain ⟨-, rfl⟩ := (rootRequest_eq_ok_iff hn.sound).1 hroot
  exact ⟨_, built_of_build hn.sound hrest hdistinct hapart' hbuild⟩

omit hapart in
/-- There is a type for all that the root of a well referenced set uses. -/
theorem whole_of_rootRequest (hw : nodes.WellReferenced) (hroot : rootRequest nodes root = .ok r) :
    ∃ name, nodes.Whole (.named name) ∧ r = nodes.reference (.named name) := by
  obtain ⟨name, hk, rfl⟩ := exists_of_mem_commandRequests hn.sound (mem_commandRequests hroot)
  exact ⟨name, NodeTypes.whole_of_wellReferenced hn hw hk, rfl⟩

/-- **The schema of a well referenced set is built**, given steps enough. -/
theorem Prewarmed.builds (h : Prewarmed nodes options s) (hw : nodes.WellReferenced)
    (hroot : rootRequest nodes root = .ok r) : ∃ n schema s', ∀ fuel, n ≤ fuel →
      Schema.build (nodes.setup options) fuel r s = (.ok schema, s') := by
  obtain ⟨rs, hrest, hdistinct, hapart'⟩ := h.next hn hapart hroot
  obtain ⟨name, hwhole, rfl⟩ := whole_of_rootRequest hn hw hroot
  exact builds_of_whole hn.sound hrest hdistinct hapart' hwhole

/-- No two types of one name are found by a build in a well referenced set. -/
theorem Prewarmed.build_ne_conflict {result : Except SchemaError Schema}
    (h : Prewarmed nodes options s) (hw : nodes.WellReferenced)
    (hroot : rootRequest nodes root = .ok r)
    (hbuild : Schema.build (nodes.setup options) fuel r s = (result, s')) (name : String) :
    result ≠ .error (.conflictingName name) := by
  obtain ⟨rs, hrest, hdistinct, hapart'⟩ := h.next hn hapart hroot
  obtain ⟨rootName, hwhole, rfl⟩ := whole_of_rootRequest hn hw hroot
  rcases hreq : request (nodes.setup options) fuel (nodes.reference (.named rootName)) s
    with ⟨answer, s''⟩
  simp only [Schema.build, hreq, Prod.mk.injEq] at hbuild
  obtain ⟨rfl, rfl⟩ := hbuild
  cases answer with
  | error e => exact fun he => request_ne_conflict hreq name (congrArg _ (Except.error.inj he))
  | ok x =>
      -- a handle was given for the root, and there is a schema at it
      have hres := request_eq_ok_iff.1 hreq
      have hst := still_of_resolve hn.sound hrest hdistinct hapart' (by simp) hres
      obtain ⟨schema, hof⟩ :=
        ofHandle_of_whole hst hwhole (given_of_resolve hrest (hst.reliable hwhole) hres)
      simp [Except.bind, hof]

/-! ### What a command comes to -/

theorem built_of_assemble (h : assemble fuel nodes options root = .ok (schema, s')) :
    ∃ rs, Built nodes options rs (.named (root.getD queryName)) s' schema := by
  obtain ⟨xs, s, r, hprewarm, hroot, hbuild⟩ := assemble_eq_ok_iff.1 h
  exact (prewarmed_of_prewarmNodes hprewarm nofun).built hn hapart hroot hbuild

/-- Only sets that can be rendered are assembled. -/
theorem renderable_of_assemble (hblock : options.block = true)
    (h : assemble fuel nodes options root = .ok (schema, s')) : Renderable nodes root := by
  obtain ⟨xs, s, r, hprewarm, hroot, -⟩ := assemble_eq_ok_iff.1 h
  exact ⟨wellReferenced_of_prewarm hn hapart hblock hprewarm,
    ((rootRequest_eq_ok_iff hn.sound).1 hroot).1⟩

/-- **A schema is assembled for the sets that can be rendered, and for no others**: there are steps
enough, after which the result stays the same. -/
theorem assemble_ends (hblock : options.block = true) :
    (Renderable nodes root ∧ ∃ n schema s', ∀ fuel, n ≤ fuel →
      assemble fuel nodes options root = .ok (schema, s')) ∨
    (¬ Renderable nodes root ∧ ∃ n e, e ≠ SchemaError.unfinished ∧ ∀ fuel, n ≤ fuel →
      assemble fuel nodes options root = .error e) := by
  obtain ⟨n, answer, s, hanswer, hprewarm⟩ := prewarm_ends
    (.initial (nodes.setup options) () 0) (nodes.toList.map NodeTypes.objectOf)
  replace hprewarm : ∀ fuel, n ≤ fuel →
    prewarmNodes (nodes.setup options) fuel nodes NodeTypes.start = (answer, s) := hprewarm
  by_cases hw : nodes.WellReferenced
  · obtain ⟨xs, rfl⟩ := ok_of_prewarm (reliable_command hn hapart hw)
      (.initial (nodes.setup options) () 0) nofun
      (fun r hr => .root (objects_subset nodes root hr)) (hprewarm n le_rfl) hanswer
    cases hroot : rootRequest nodes root with
    | ok r =>
        have hprewarmed := prewarmed_of_prewarmNodes (hprewarm n le_rfl) hanswer
        obtain ⟨m, schema, s', hbuild⟩ := hprewarmed.builds hn hapart hw hroot
        refine Or.inl ⟨⟨hw, ((rootRequest_eq_ok_iff hn.sound).1 hroot).1⟩, max n m, schema, s', ?_⟩
        exact fun fuel hfuel => assemble_eq_ok_iff.2 ⟨xs, s, r,
          hprewarm fuel (le_of_max_le_left hfuel), hroot, hbuild fuel (le_of_max_le_right hfuel)⟩
    | error e =>
        obtain ⟨name, rfl⟩ := rootRequest_error hroot
        refine Or.inr ⟨fun h => ?_, n, .unknownNode name, nofun, fun fuel hfuel => ?_⟩
        · rw [(rootRequest_eq_ok_iff hn.sound).2 ⟨h.2, rfl⟩] at hroot
          cases hroot
        · simp only [assemble, hprewarm fuel hfuel, hroot]
  · cases answer with
    | error e =>
        refine Or.inr ⟨fun h => hw h.1, n, e, fun he => hanswer (congrArg _ he),
          fun fuel hfuel => ?_⟩
        simp only [assemble, hprewarm fuel hfuel]
    | ok xs => exact absurd (wellReferenced_of_prewarm hn hapart hblock (hprewarm n le_rfl)) hw

/-- **No two types of one name are ever found.** -/
theorem assemble_ne_conflict (hblock : options.block = true) (fuel : Nat) (name : String) :
    assemble fuel nodes options root ≠ .error (.conflictingName name) := by
  intro hconflict
  rcases hprewarm : prewarmNodes (nodes.setup options) fuel nodes NodeTypes.start with ⟨answer, s⟩
  cases answer with
  | error e =>
      simp only [assemble, hprewarm] at hconflict
      exact prewarm_ne_conflict hprewarm name (congrArg _ (Except.error.inj hconflict))
  | ok xs =>
      cases hroot : rootRequest nodes root with
      | error e =>
          simp only [assemble, hprewarm, hroot] at hconflict
          obtain ⟨unknown, rfl⟩ := rootRequest_error hroot
          cases hconflict
      | ok r =>
          have hw := wellReferenced_of_prewarm hn hapart hblock hprewarm
          have hprewarmed := prewarmed_of_prewarmNodes hprewarm nofun
          rcases hbuild : Schema.build (nodes.setup options) fuel r s with ⟨result, s'⟩
          simp only [assemble, hprewarm, hroot, hbuild] at hconflict
          cases result with
          | error e =>
              exact hprewarmed.build_ne_conflict hn hapart hw hroot hbuild name
                (congrArg _ (Except.error.inj hconflict))
          | ok schema => cases hconflict

end Assembly

/-! ### The text -/

/-- Two schemas that were built at a root have one text. -/
theorem sdl_unique {name : String} {rs rs' : List Request} {schema' : Schema}
    (hb : Built nodes options rs (.named name) s schema)
    (hb' : Built nodes options rs' (.named name) s' schema') :
    schema.sdl s.store = schema'.sdl s'.store := by
  rw [hb.sdl, hb'.sdl, hb.listed.unique hb'.listed]

/-- The names of the types that a schema consists of: at the query object, its own, those of all node
types and of the scalars that they mention; at a node type, those that are reached from it. -/
def InSchema (nodes : NodeTypes) (root : Option String) (name : String) : Prop :=
  match root with
  | none => name = queryName ∨ (nodes.get? name).isSome = true ∨
      ((name ∈ builtinScalars ∨ name = dateTimeName) ∧ ∃ n, nodes.Mentions n name)
  | some root => nodes.Reached root name

theorem mem_names_iff (hs : nodes.Sound) (hr : Renderable nodes root)
    (hb : Built nodes options rs (.named (root.getD queryName)) s schema) (name : String) :
    name ∈ Dictionary.names schema.types ↔ InSchema nodes root name := by
  rw [hb.listed.mem_iff, NodeTypes.uses_named_iff hs]
  cases root with
  | none => exact NodeTypes.reached_query_iff hr.1
  | some root => exact Iff.rfl

/-- **The sets that are rendered are those that are well referenced.**  Whatever set of node types was
accepted, if the identities of the run have distinct keys a command comes to an end, and more steps
change nothing.  It prints a text if and only if the set is well referenced and the root, if one is
given, is a node type; then the schema has the types that the definitions say, and in no case are two
types of one name found.  The objects of the node types can be requested on any number of threads,
which take finitely many steps in whichever order, and all calls are over when none has a step.  If
the set is well referenced no request fails, and the schema that is built next has the same text;
otherwise there is an object for which no call returns a handle. -/
theorem renders_iff_wellReferenced (hn : nodes.Accepted) (inv : Invocation)
    (hapart : Apart (nodes.setup (inv.options "schema")) (commandRequests nodes inv.root)) :
    ∃ n result, result ≠ .error .unfinished ∧
      (∀ fuel, n ≤ fuel → renderSchema fuel nodes inv = result) ∧
      ((∃ text, result = .ok text) ↔ Renderable nodes inv.root) ∧
      (∀ fuel name, renderSchema fuel nodes inv ≠ .error (.conflictingName name)) ∧
      (∀ fuel schema s, assemble fuel nodes (inv.options "schema") inv.root = .ok (schema, s) →
        schema.sdl s.store = result ∧
        ∀ name, name ∈ Dictionary.names schema.types ↔ InSchema nodes inv.root name) ∧
      (nodes.WellReferenced → ∀ s t, Prewarming nodes (inv.options "schema") s →
        (∀ c failure, (s.thread t).stage ≠ .failing c failure) ∧
          ∀ e, (s.thread t).stage ≠ .returned (.error e)) ∧
      (¬ nodes.WellReferenced → ∃ node ∈ nodes.toList, ∀ s t x,
        Prewarming nodes (inv.options "schema") s → (s.thread t).stage = .returned (.ok x) →
          (NodeTypes.objectOf node).key ≠ .ok x.key) ∧
      (∀ s, Prewarming nodes (inv.options "schema") s →
        (∃ (ts : List ThreadId) (s' : TypeState),
          perform (nodes.setup (inv.options "schema")) (ts.map .step) s = some s' ∧
            Prewarmed nodes (inv.options "schema") s') ∧
        ∃ n, ∀ (ts : List ThreadId) s',
          perform (nodes.setup (inv.options "schema")) (ts.map .step) s = some s' →
            ts.length ≤ n ∧ (Stable (nodes.setup (inv.options "schema")) s' →
              Prewarmed nodes (inv.options "schema") s')) ∧
      (Renderable nodes inv.root → ∀ s, Prewarmed nodes (inv.options "schema") s →
        ∃ r m schema s', rootRequest nodes inv.root = .ok r ∧
          (∀ fuel, m ≤ fuel → Schema.build (nodes.setup (inv.options "schema")) fuel r s
            = (.ok schema, s')) ∧
          schema.sdl s'.store = result ∧
          ∀ name, name ∈ Dictionary.names schema.types ↔ InSchema nodes inv.root name) := by
  have hconflict : ∀ fuel name, renderSchema fuel nodes inv ≠ .error (.conflictingName name) := by
    intro fuel name h
    cases hassemble : assemble fuel nodes (inv.options "schema") inv.root with
    | error e =>
        simp only [renderSchema, hassemble] at h
        refine assemble_ne_conflict hn hapart rfl fuel name ?_
        rw [hassemble, Except.error.inj h]
    | ok p =>
        obtain ⟨rs, hb⟩ := built_of_assemble hn hapart hassemble
        simp only [renderSchema, hassemble, hb.sdl] at h
        cases h
  have hanswered : nodes.WellReferenced → ∀ s t, Prewarming nodes (inv.options "schema") s →
      (∀ c failure, (s.thread t).stage ≠ .failing c failure) ∧
        ∀ e, (s.thread t).stage ≠ .returned (.error e) :=
    fun hw s t h => h.answered hn hapart hw t
  have hdenied : ¬ nodes.WellReferenced → ∃ node ∈ nodes.toList, ∀ s t x,
      Prewarming nodes (inv.options "schema") s → (s.thread t).stage = .returned (.ok x) →
        (NodeTypes.objectOf node).key ≠ .ok x.key :=
    exists_never_returned hn hapart rfl
  rcases assemble_ends hn hapart rfl with ⟨hr, n, schema, s, hassemble⟩ | ⟨hr, n, e, hne, hassemble⟩
  · obtain ⟨rs, hb⟩ := built_of_assemble hn hapart (hassemble n le_rfl)
    refine ⟨n, schema.sdl s.store, ?_, fun fuel hfuel => ?_, ?_, hconflict,
      fun fuel schema' s' h => ?_, hanswered, hdenied, fun _ h => h.ends,
      fun _ s' hprewarmed => ?_⟩
    · rw [hb.sdl]
      nofun
    · rw [renderSchema, hassemble fuel hfuel]
    · exact iff_of_true ⟨_, hb.sdl⟩ hr
    · obtain ⟨rs', hb'⟩ := built_of_assemble hn hapart h
      exact ⟨sdl_unique hb' hb, mem_names_iff hn.sound hr hb'⟩
    · -- the text does not depend on how the objects were requested
      have hroot := (rootRequest_eq_ok_iff hn.sound).2 ⟨hr.2, rfl⟩
      obtain ⟨m, schema', s'', hbuild⟩ := hprewarmed.builds hn hapart hr.1 hroot
      obtain ⟨rs', hb'⟩ := hprewarmed.built hn hapart hroot (hbuild m le_rfl)
      exact ⟨_, m, schema', s'', hroot, hbuild, sdl_unique hb' hb, mem_names_iff hn.sound hr hb'⟩
  · refine ⟨n, .error e, fun he => hne (Except.error.inj he), fun fuel hfuel => ?_, ?_, hconflict,
      fun fuel schema s h => ?_, hanswered, hdenied, fun _ h => h.ends, fun h => absurd h hr⟩
    · rw [renderSchema, hassemble fuel hfuel]
    · exact iff_of_false nofun hr
    · exact absurd (renderable_of_assemble hn hapart rfl h) hr

/-- The set of a node type that refers to a name. -/
def linked (name : String) : NodeTypes :=
  ⟨[("Page", ⟨⟨"Page", [("next", .text name)]⟩, none, [("next", .named name)]⟩)]⟩

theorem accepted_linked {name : String} (h : TypeExpr.read name = .ok (.named name)) :
    (linked name).Accepted := by
  have hproperty : (NodeType.ofName "Page").withProperty "next" name
      = .ok ⟨⟨"Page", [("next", .text name)]⟩, none, [("next", .named name)]⟩ := by
    rw [NodeType.withProperty, h]
    rfl
  have hname : nodeNameFault? "Page" = none := by decide +kernel
  exact .insert .empty (.withProperty (.ofName _) hproperty)
    (NodeTypes.insert_eq_ok_iff.2 ⟨hname, rfl⟩)

theorem wellReferenced_linked_iff {name : String} :
    (linked name).WellReferenced ↔ (linked name).Knows name := by
  simp [NodeTypes.WellReferenced, linked, NodeTypes.get?, Dictionary.find?_cons, TypeExpr.root]

theorem commandRequests_linked (name : String) : commandRequests (linked name) none
    = [TypeExpr.named "Page", .named queryName].map (linked name).reference := by
  have hlist : (linked name).toList = (linked name).entries.map Prod.snd := by
    simp [linked, NodeTypes.toList, Dictionary.sorted]
  rw [commandRequests, hlist]
  rfl

theorem apart_linked {name : String} (h : (linked name).Accepted)
    (hkeys : (([TypeExpr.named "Page", .named queryName].flatMap (linked name).expressions).dedup.map
      (linked name).keyOf).Nodup) :
    Apart ((linked name).setup options) (commandRequests (linked name) none) := by
  rw [commandRequests_linked]
  exact NodeTypes.apart_of_keys h.sound hkeys

/-- The command that renders the query object, without any option. -/
def queryCommand : Invocation := ⟨"nodes.json", none, false⟩

/-- A node type that refers to itself is rendered, with its own name and that of the query object; one
that refers to nothing is not. -/
theorem linked_rendered :
    ((linked "Page").Accepted ∧ Apart ((linked "Page").setup (queryCommand.options "schema"))
        (commandRequests (linked "Page") none) ∧
      ∃ (n : Nat) (text : String) (schema : Schema) (s : TypeState), (∀ fuel, n ≤ fuel →
          renderSchema fuel (linked "Page") queryCommand = .ok text) ∧
        schema.sdl s.store = .ok text ∧ "Page" ∈ Dictionary.names schema.types ∧
        queryName ∈ Dictionary.names schema.types ∧
        "Missing" ∉ Dictionary.names schema.types) ∧
    (linked "Missing").Accepted ∧ Apart ((linked "Missing").setup (queryCommand.options "schema"))
        (commandRequests (linked "Missing") none) ∧
      ∃ n e, ∀ fuel, n ≤ fuel → renderSchema fuel (linked "Missing") queryCommand = .error e := by
  have hpage : (linked "Page").Accepted := accepted_linked (by decide +kernel)
  have hmissing : (linked "Missing").Accepted := accepted_linked (by decide +kernel)
  have hapart : Apart ((linked "Page").setup (queryCommand.options "schema"))
      (commandRequests (linked "Page") none) := apart_linked hpage (by decide +kernel)
  have hapart' : Apart ((linked "Missing").setup (queryCommand.options "schema"))
      (commandRequests (linked "Missing") none) := apart_linked hmissing (by decide +kernel)
  refine ⟨⟨hpage, hapart, ?_⟩, hmissing, hapart', ?_⟩
  · obtain ⟨n, result, -, hrender, hiff, -, -, -, -, -, hbuilds⟩ :=
      renders_iff_wellReferenced hpage queryCommand hapart
    have hr : Renderable (linked "Page") none :=
      ⟨wellReferenced_linked_iff.2 (Or.inl rfl), nofun⟩
    obtain ⟨text, rfl⟩ := hiff.2 hr
    -- a registry in which nothing was requested yet
    obtain ⟨r, m, schema, s, -, -, hsdl, hnames⟩ := hbuilds hr NodeTypes.start
      ⟨⟨[], [], List.nil_subset _, .initial () 0⟩, fun _ => rfl, rfl⟩
    refine ⟨n, text, schema, s, hrender, hsdl, (hnames _).2 (Or.inr (Or.inl rfl)),
      (hnames _).2 (Or.inl rfl), fun h => ?_⟩
    have hunknown : ¬ ("Missing" = queryName ∨ ((linked "Page").get? "Missing").isSome = true ∨
        "Missing" ∈ builtinScalars ∨ "Missing" = dateTimeName) := by decide +kernel
    rcases (hnames _).1 h with hquery | hnode | ⟨hscalar, -⟩
    · exact hunknown (Or.inl hquery)
    · exact hunknown (Or.inr (Or.inl hnode))
    · exact hunknown (Or.inr (Or.inr hscalar))
  · obtain ⟨n, result, -, hrender, hiff, -⟩ :=
      renders_iff_wellReferenced hmissing queryCommand hapart'
    have hunknown : ¬ (linked "Missing").Knows "Missing" := by
      unfold NodeTypes.Knows
      decide +kernel
    cases result with
    | ok text => exact absurd (wellReferenced_linked_iff.1 (hiff.1 ⟨text, rfl⟩).1) hunknown
    | error e => exact ⟨n, e, hrender⟩

end SchemaGraph.Command
