/-
**Which node types are accepted.**

A set of node types is had by inserting node types one after the other, and a node type by giving a
name, a description and properties; a text of definitions does the same.  A name is accepted when it
is not one of those with a fixed meaning, as it is written, and is a name after the white space
around it is taken away.  So white space tells names apart that stand for one type in expressions,
and hides a name with a fixed meaning.

Main definitions:

* `NodeType.Defined`, `NodeTypes.Accepted` — the node types and the sets that can be had.

Main results:

* `NodeTypes.accepted_of_ofJson` — texts of definitions lead to accepted sets;
* `NodeTypes.Accepted.sound`, `NodeTypes.Accepted.defined` — accepted sets are sound, and hold
  node types that can be had;
* `NodeType.Defined.read` — the type of a property was read from a text;
* `nodeNameFault?_eq_none_iff` — **which names are accepted**;
* `accepted_names` — **what is known of the names of an accepted set**.
-/

import SchemaGraph.Proofs.Schema.Definitions
import SchemaGraph.Proofs.TypeExpr.Written

set_option autoImplicit false

namespace SchemaGraph

/-! ### Node types and sets that can be had -/

/-- The node types that can be had: a name, with a description and with properties. -/
inductive NodeType.Defined : NodeType → Prop where
  | ofName (name : String) : Defined (.ofName name)
  | withDescription {node : NodeType} (text : String) : Defined node →
      Defined (node.withDescription text)
  | withProperty {node node' : NodeType} {property text : String} : Defined node →
      node.withProperty property text = .ok node' → Defined node'

/-- The sets that can be had: node types are inserted one after the other. -/
inductive NodeTypes.Accepted : NodeTypes → Prop where
  | empty : Accepted .empty
  | insert {nodes nodes' : NodeTypes} {node : NodeType} : Accepted nodes → node.Defined →
      nodes.insert node = .ok nodes' → Accepted nodes'

theorem NodeType.Defined.withProperties {node node' : NodeType} {ps : List (String × String)}
    (hn : node.Defined) (h : node.withProperties ps = .ok node') : node'.Defined := by
  induction ps generalizing node with
  | nil =>
      obtain rfl : node = node' := Except.ok.inj h
      exact hn
  | cons p ps ih =>
      obtain ⟨property, text⟩ := p
      rw [NodeType.withProperties] at h
      cases hp : node.withProperty property text with
      | error e => simp [hp] at h
      | ok next =>
          simp only [hp] at h
          exact ih (hn.withProperty hp) h

theorem NodeType.defined_of_ofDefinition {name : String} {d : Definition} {node : NodeType}
    (h : NodeType.ofDefinition name d = .ok node) : node.Defined := by
  refine NodeType.Defined.withProperties ?_ h
  cases d.description with
  | none => exact .ofName name
  | some text => exact (NodeType.Defined.ofName name).withDescription text

/-- The type of a property was read from a text. -/
theorem NodeType.Defined.read {node : NodeType} (h : node.Defined) :
    ∀ p ∈ node.properties, ∃ text, TypeExpr.read text = .ok p.2 := by
  induction h with
  | ofName name => exact fun p hp => absurd hp List.not_mem_nil
  | withDescription text _ ih => exact ih
  | withProperty _ hp ih =>
      obtain ⟨e, hread, rfl⟩ := NodeType.withProperty_eq_ok_iff.1 hp
      intro p hmem
      rcases List.mem_append.1 hmem with hmem | hmem
      · exact ih p (List.mem_of_mem_filter hmem)
      · obtain rfl := List.mem_singleton.1 hmem
        exact ⟨_, hread⟩

namespace NodeTypes

variable {nodes nodes' : NodeTypes}

theorem Accepted.insertAll {definitions : List (String × Definition)} (hs : nodes.Accepted)
    (h : nodes.insertAll definitions = .ok nodes') : nodes'.Accepted := by
  induction definitions generalizing nodes with
  | nil =>
      obtain rfl : nodes = nodes' := Except.ok.inj h
      exact hs
  | cons d definitions ih =>
      obtain ⟨name, d⟩ := d
      rw [NodeTypes.insertAll] at h
      cases hnode : NodeType.ofDefinition name d with
      | error e => simp [hnode] at h
      | ok node =>
          cases hinsert : nodes.insert node with
          | error e => simp [hnode, hinsert] at h
          | ok inserted =>
              simp only [hnode, hinsert] at h
              exact ih (hs.insert (NodeType.defined_of_ofDefinition hnode) hinsert) h

/-- Texts of definitions lead to accepted sets. -/
theorem accepted_of_ofJson {text : String} (h : ofJson text = .ok nodes) : nodes.Accepted := by
  unfold ofJson at h
  cases hd : (JsonValue.read? text).bind definitionsOf? with
  | none => simp [hd] at h
  | some definitions =>
      simp only [hd] at h
      exact Accepted.empty.insertAll h

theorem Accepted.sound (h : nodes.Accepted) : nodes.Sound := by
  induction h with
  | empty => exact sound_empty
  | insert _ _ hinsert ih => exact ih.insert hinsert

/-- What holds of the node type that is inserted and of those before holds of all. -/
theorem Accepted.forall_get? {P : String → NodeType → Prop} (h : nodes.Accepted)
    (hP : ∀ node : NodeType, node.Defined → nodeNameFault? node.name = none → P node.name node) :
    ∀ {name : String} {node : NodeType}, nodes.get? name = some node → P name node := by
  induction h with
  | empty => exact fun h => absurd h (by simp [get?, NodeTypes.empty])
  | insert _ hdefined hinsert ih =>
      intro name node hget
      rw [get?_insert hinsert] at hget
      split at hget
      · rename_i hname
        obtain rfl := Option.some.inj hget
        exact hname ▸ hP _ hdefined (insert_eq_ok_iff.1 hinsert).1
      · exact ih hget

/-- An accepted set holds node types that can be had. -/
theorem Accepted.defined (h : nodes.Accepted) {name : String} {node : NodeType}
    (hget : nodes.get? name = some node) : node.Defined :=
  h.forall_get? (P := fun _ node => node.Defined) (fun _ hd _ => hd) hget

end NodeTypes

/-! ### Names -/

/-- **Which names are accepted**: those that have no fixed meaning as they are written, and are a
name without the white space around them. -/
theorem nodeNameFault?_eq_none_iff (name : String) :
    nodeNameFault? name = none ↔ name ∉ reservedNames ∧ isName (trimmed name).toList = true := by
  have hread : (∃ n, TypeExpr.read name = .ok (.named n)) ↔ isName (trimmed name).toList = true := by
    constructor
    · rintro ⟨n, hn⟩
      obtain ⟨rfl, hname⟩ := read_eq_named_iff.1 hn
      exact hname
    · exact fun hname => ⟨_, read_eq_named_iff.2 ⟨rfl, hname⟩⟩
  rw [← hread]
  unfold nodeNameFault?
  by_cases hmem : name ∈ reservedNames
  · simp [hmem]
  · rw [if_neg hmem]
    cases TypeExpr.read name with
    | error problem => simp
    | ok e => cases e <;> simp [hmem]

/-- **What is known of the names of an accepted set.**  Each is read as the name without the white
space around it, and is not one of the names with a fixed meaning as it is written.  Without white
space around it, it is read as itself, and as the type of a property it stands for the object of its
own node type; and two names differ only in white space exactly when they are read as one.  A node
type is inserted exactly when its name is such a name. -/
theorem accepted_names {nodes : NodeTypes} (h : nodes.Accepted) :
    (∀ name node, nodes.get? name = some node →
      node.name = name ∧ name ∉ reservedNames ∧ isName (trimmed name).toList = true ∧
      TypeExpr.read name = .ok (.named (trimmed name)) ∧
      (trimmed name = name → nodes.reference (.named (trimmed name)) = NodeTypes.objectOf node)) ∧
    (∀ name node name' node', nodes.get? name = some node → nodes.get? name' = some node' →
      (unspaced name = unspaced name' ↔ trimmed name = trimmed name')) ∧
    ∀ node : NodeType, (∃ nodes', nodes.insert node = .ok nodes') ↔
      node.name ∉ reservedNames ∧ isName (trimmed node.name).toList = true := by
  have hnamed : ∀ {name node}, nodes.get? name = some node →
      name ∉ reservedNames ∧ isName (trimmed name).toList = true :=
    h.forall_get? (P := fun name _ => name ∉ reservedNames ∧ isName (trimmed name).toList = true)
      fun node _ hfault => (nodeNameFault?_eq_none_iff _).1 hfault
  refine ⟨fun name node hget => ?_, fun name node name' node' hget hget' => ?_, fun node => ?_⟩
  · obtain ⟨hfree, hname⟩ := hnamed hget
    refine ⟨h.sound.named hget, hfree, hname, read_eq_named_iff.2 ⟨rfl, hname⟩, fun htrim => ?_⟩
    rw [htrim]
    exact NodeTypes.reference_named_of_get? hget
  · rw [← unspaced_trimmed name, ← unspaced_trimmed name', unspaced_of_isName (hnamed hget).2,
      unspaced_of_isName (hnamed hget').2, String.toList_inj]
  · rw [← nodeNameFault?_eq_none_iff]
    constructor
    · rintro ⟨nodes', hinsert⟩
      exact (NodeTypes.insert_eq_ok_iff.1 hinsert).1
    · exact fun hfault => ⟨_, NodeTypes.insert_eq_ok_iff.2 ⟨hfault, rfl⟩⟩

/-! ### Sets of mere names -/

/-- What is entered under a new name stands last. -/
theorem Dictionary.set_of_notMem {κ α : Type} [DecidableEq κ] {k : κ} {d : Dictionary κ α}
    (h : k ∉ names d) (v : α) : set k v d = d ++ [(k, v)] := by
  induction d with
  | nil => rfl
  | cons p d ih =>
      simp only [names, List.map_cons, List.mem_cons, not_or] at h
      rw [set, if_neg (Ne.symm h.1), ih h.2, List.cons_append]

/-- Pairs that are in order already stay so. -/
theorem Dictionary.sorted_of_pairwise {α : Type} {d : Dictionary String α}
    (h : d.Pairwise fun p q => p.1 ≤ q.1) : sorted d = d :=
  List.mergeSort_of_pairwise (h.imp fun h => decide_eq_true h)

/-- Node types of given names, without properties. -/
def plainNodes (names : List String) : NodeTypes := ⟨names.map fun n => (n, .ofName n)⟩

theorem accepted_plainNodes {names : List String} (hnodup : names.Nodup)
    (h : ∀ name ∈ names, name ∉ reservedNames ∧ isName (trimmed name).toList = true) :
    (plainNodes names).Accepted := by
  induction names using List.reverseRecOn with
  | nil => exact .empty
  | append_singleton names name ih =>
      obtain ⟨hinit, hlast⟩ := List.forall_mem_append.1 h
      obtain ⟨hnodup, -, hdisjoint⟩ := List.nodup_append.1 hnodup
      refine (ih hnodup hinit).insert (.ofName name) (NodeTypes.insert_eq_ok_iff.2 ⟨?_, ?_⟩)
      · exact (nodeNameFault?_eq_none_iff name).2 (hlast name (List.mem_singleton.2 rfl))
      · have hfresh : name ∉ Dictionary.names (plainNodes names).entries := by
          simp only [plainNodes, Dictionary.names, List.map_map, Function.comp_def, List.map_id']
          exact fun hmem => hdisjoint name hmem name (List.mem_singleton.2 rfl) rfl
        rw [show (NodeType.ofName name).name = name from rfl, Dictionary.set_of_notMem hfresh]
        simp [plainNodes]

/-- A set with names that have white space around them. -/
def paddedNodes : NodeTypes := plainNodes ["Page", " Page", " Query"]

theorem accepted_paddedNodes : paddedNodes.Accepted :=
  accepted_plainNodes (by decide +kernel) (by decide +kernel)

theorem paddedNodes_names : paddedNodes.Accepted ∧
    TypeExpr.read " Page" = .ok (.named (trimmed " Page")) ∧
    paddedNodes.reference (.named (trimmed "Page")) = NodeTypes.objectOf (.ofName "Page") ∧
    (unspaced "Page" = unspaced " Page" ↔ trimmed "Page" = trimmed " Page") := by
  obtain ⟨hone, htwo, -⟩ := accepted_names accepted_paddedNodes
  refine ⟨accepted_paddedNodes, (hone " Page" (.ofName " Page") rfl).2.2.2.1,
    (hone "Page" (.ofName "Page") rfl).2.2.2.2 (by decide +kernel),
    htwo "Page" (.ofName "Page") " Page" (.ofName " Page") rfl rfl⟩

/-- **White space hides names**: a set is accepted in which one name is read as a name with a fixed
meaning, so not as itself, and two others differ in white space alone. -/
theorem padded_names_accepted : paddedNodes.Accepted ∧
    (paddedNodes.get? " Query").isSome = true ∧ (paddedNodes.get? "Page").isSome = true ∧
    (paddedNodes.get? " Page").isSome = true ∧
    TypeExpr.read " Query" = .ok (.named "Query") ∧ "Query" ∈ reservedNames ∧
    TypeExpr.read " Query" ≠ .ok (.named " Query") ∧ unspaced " Page" = unspaced "Page" := by
  have hread : TypeExpr.read " Query" = .ok (.named "Query") :=
    read_eq_named_iff.2 (by decide +kernel)
  refine ⟨accepted_paddedNodes, rfl, rfl, rfl, hread, by decide +kernel, ?_, by decide +kernel⟩
  rw [hread]
  decide +kernel

end SchemaGraph
