/-
**The two copies of the properties.**

A node type keeps its properties twice: in its scope as they were written, and beside it as the
expressions that the texts are.  The scope replaces a property in place, whereas the expression of a
property that is set again moves to the end.  However often names are set again, both copies list
the same names and hold what was set last, each in its own order; and since a scope takes part in
identities by its name alone, the keys in it stay as they were.

Main definitions:

* `firsts` — the members of a list in the order of their first places;
* `NodeType.Written` — the node types that come of a name by setting properties in a given order.

Main results:

* `NodeType.Written.names_properties`, `NodeType.Written.names_context` — the two orders;
* `NodeType.Written.property?`, `NodeType.Written.find?_properties` — what is held under a name;
* `key_ofName` — the keys in a scope depend on its name alone;
* `properties_in_step` — **the two copies stay in step**.
-/

import SchemaGraph.Identity.Key
import SchemaGraph.Proofs.Nodes.Accepted
import Mathlib.Data.List.Dedup

set_option autoImplicit false

namespace SchemaGraph

/-! ### Names in the order of their first and last places -/

theorem dedup_concat {α : Type} [DecidableEq α] (l : List α) (a : α) :
    (l ++ [a]).dedup = l.dedup.filter (· ≠ a) ++ [a] := by
  induction l with
  | nil => rfl
  | cons x l ih =>
      rw [List.cons_append]
      by_cases hlast : x ∈ l ++ [a]
      · rw [List.dedup_cons_of_mem hlast, ih]
        by_cases hx : x ∈ l
        · rw [List.dedup_cons_of_mem hx]
        · obtain rfl : x = a := by simpa [hx] using hlast
          rw [List.dedup_cons_of_notMem hx, List.filter_cons_of_neg (by simp)]
      · obtain ⟨hx, hxa⟩ : x ∉ l ∧ x ≠ a := by simpa using hlast
        rw [List.dedup_cons_of_notMem hlast, List.dedup_cons_of_notMem hx, ih,
          List.filter_cons_of_pos (by simpa using hxa), List.cons_append]

/-- Each member of a list once, in the order of the first places. -/
def firsts {α : Type} [DecidableEq α] (l : List α) : List α := l.reverse.dedup.reverse

theorem firsts_concat {α : Type} [DecidableEq α] (l : List α) (a : α) :
    firsts (l ++ [a]) = if a ∈ l then firsts l else firsts l ++ [a] := by
  unfold firsts
  rw [List.reverse_append, List.reverse_singleton, List.singleton_append]
  by_cases ha : a ∈ l
  · rw [if_pos ha, List.dedup_cons_of_mem (List.mem_reverse.2 ha)]
  · rw [if_neg ha, List.dedup_cons_of_notMem (fun h => ha (List.mem_reverse.1 h)),
      List.reverse_cons]

@[simp] theorem mem_firsts {α : Type} [DecidableEq α] {l : List α} {a : α} :
    a ∈ firsts l ↔ a ∈ l := by
  rw [firsts, List.mem_reverse, List.mem_dedup, List.mem_reverse]

theorem nodup_firsts {α : Type} [DecidableEq α] (l : List α) : (firsts l).Nodup :=
  List.nodup_reverse.2 (List.nodup_dedup _)

namespace NodeType

/-! ### Node types by what was set -/

/-- The node types that come of a name by setting properties in a given order, with descriptions at
any point. -/
inductive Written (name : String) : List (String × String) → NodeType → Prop where
  | start : Written name [] (.ofName name)
  | describe {settings : List (String × String)} {node : NodeType} (text : String) :
      Written name settings node → Written name settings (node.withDescription text)
  | set {settings : List (String × String)} {node node' : NodeType} {property text : String} :
      Written name settings node → node.withProperty property text = .ok node' →
      Written name (settings ++ [(property, text)]) node'

variable {name : String} {settings : List (String × String)} {node : NodeType}

/-- Setting several properties is setting one after the other. -/
theorem Written.withProperties {ps : List (String × String)} {node' : NodeType}
    (hw : Written name settings node) (h : node.withProperties ps = .ok node') :
    Written name (settings ++ ps) node' := by
  induction ps generalizing settings node with
  | nil =>
      obtain rfl : node = node' := Except.ok.inj h
      rwa [List.append_nil]
  | cons p ps ih =>
      obtain ⟨property, text⟩ := p
      rw [NodeType.withProperties] at h
      cases hp : node.withProperty property text with
      | error e => simp [hp] at h
      | ok next =>
          simp only [hp] at h
          have hrest := ih (hw.set hp) h
          rwa [List.append_assoc] at hrest

/-- A node type that can be had comes of its name by setting some properties. -/
theorem Defined.written (h : node.Defined) : ∃ settings, Written node.name settings node := by
  induction h with
  | ofName name => exact ⟨[], .start⟩
  | withDescription text _ ih =>
      obtain ⟨settings, hw⟩ := ih
      exact ⟨settings, hw.describe text⟩
  | withProperty _ hp ih =>
      obtain ⟨settings, hw⟩ := ih
      rw [name_withProperty hp]
      exact ⟨_, hw.set hp⟩

theorem Written.name_eq (h : Written name settings node) : node.name = name := by
  induction h with
  | start => rfl
  | describe text _ ih => exact ih
  | set _ hp ih => rw [name_withProperty hp, ih]

/-! ### The two orders -/

/-- The expressions are in the order in which the names were set last. -/
theorem Written.names_properties (h : Written name settings node) :
    Dictionary.names node.properties = (Dictionary.names settings).dedup := by
  induction h with
  | start => rfl
  | describe text _ ih => exact ih
  | @set settings node node' property text _ hp ih =>
      have hnames : Dictionary.names (settings ++ [(property, text)])
          = Dictionary.names settings ++ [property] := List.map_append
      rw [properties_withProperty hp, ih, hnames, dedup_concat]

/-- The texts are in the order in which the names were set first. -/
theorem Written.names_context (h : Written name settings node) :
    Dictionary.names node.context.properties = firsts (Dictionary.names settings) := by
  induction h with
  | start => rfl
  | describe text _ ih => exact ih
  | @set settings node node' property text _ hp ih =>
      obtain ⟨e, -, rfl⟩ := withProperty_eq_ok_iff.1 hp
      have hnames : Dictionary.names (settings ++ [(property, text)])
          = Dictionary.names settings ++ [property] := List.map_append
      rw [hnames, firsts_concat, Context.withProperty, Dictionary.names_set, ih]
      simp only [mem_firsts]

theorem Written.mem_names (h : Written name settings node) (property : String) :
    property ∈ Dictionary.names node.properties
      ↔ property ∈ Dictionary.names node.context.properties := by
  rw [h.names_properties, h.names_context, List.mem_dedup, mem_firsts]

/-! ### What is held under a name -/

theorem find?_reverse_concat (settings : List (String × String)) (property other text : String) :
    Dictionary.find? other (settings ++ [(property, text)]).reverse
      = if property = other then some text else Dictionary.find? other settings.reverse := by
  rw [List.reverse_append, List.reverse_singleton, List.singleton_append, Dictionary.find?_cons]

/-- The scope holds the text that was set last. -/
theorem Written.property? (h : Written name settings node) (property : String) :
    node.context.property? property
      = (Dictionary.find? property settings.reverse).map Value.text := by
  induction h with
  | start => rfl
  | describe text _ ih => exact ih
  | @set settings node node' last text _ hp ih =>
      obtain ⟨e, -, rfl⟩ := withProperty_eq_ok_iff.1 hp
      rw [find?_reverse_concat]
      simp only [Context.property?, Context.withProperty, Dictionary.find?_set]
      split
      · rfl
      · exact ih

/-- What stands after the other pairs is found when its name does not stand among them. -/
theorem find?_erase_concat (property other : String) (e : TypeExpr)
    (d : Dictionary String TypeExpr) :
    Dictionary.find? other (Dictionary.erase property d ++ [(property, e)])
      = if property = other then some e else Dictionary.find? other d := by
  have hfresh : property ∉ Dictionary.names (Dictionary.erase property d) := by
    rw [← Dictionary.find?_eq_none_iff, Dictionary.find?_erase_self]
  rw [← Dictionary.set_of_notMem hfresh, Dictionary.find?_set, Dictionary.find?_erase]
  split <;> rfl

/-- The expression is the one that the text set last is. -/
theorem Written.find?_properties (h : Written name settings node) {property text : String}
    (hlast : Dictionary.find? property settings.reverse = some text) :
    ∃ e, TypeExpr.parse text = .ok e ∧ Dictionary.find? property node.properties = some e := by
  induction h with
  | start => simp at hlast
  | describe _ _ ih => exact ih hlast
  | @set settings node node' last written _ hp ih =>
      obtain ⟨e, hread, rfl⟩ := withProperty_eq_ok_iff.1 hp
      rw [find?_reverse_concat] at hlast
      simp only [find?_erase_concat]
      split at hlast
      · rename_i hname
        obtain rfl : written = text := Option.some.inj hlast
        exact ⟨e, TypeExpr.parse_eq_ok_iff.2 hread, if_pos hname⟩
      · rename_i hname
        rw [if_neg hname]
        exact ih hlast

end NodeType

/-! ### The copies in step -/

/-- The keys in a scope depend on its name alone. -/
theorem key_ofName (id : Identifier) (scope : Context) :
    Key.ofIdentifier id (some scope) = Key.ofIdentifier id (some (.ofName scope.name)) := rfl

/-- **The two copies of the properties stay in step.**  However properties were set, the expressions
and the texts are under the same names, each listed once; the expressions in the order in which the
names were set last, the texts in the order in which they were set first.  Under each name stand the
text that was set last and the expression that this text is.  The name, and with it the key of any
identifier in the scope, is that of the node type without properties. -/
theorem properties_in_step {name : String} {settings : List (String × String)} {node : NodeType}
    (h : NodeType.Written name settings node) :
    (Dictionary.names node.properties).Nodup ∧
    (Dictionary.names node.context.properties).Nodup ∧
    (∀ property, property ∈ Dictionary.names node.properties
      ↔ property ∈ Dictionary.names node.context.properties) ∧
    Dictionary.names node.properties = (Dictionary.names settings).dedup ∧
    Dictionary.names node.context.properties = firsts (Dictionary.names settings) ∧
    (∀ property ∈ Dictionary.names node.properties, ∃ text e,
      Dictionary.find? property settings.reverse = some text ∧
      node.context.property? property = some (.text text) ∧
      TypeExpr.parse text = .ok e ∧ (property, e) ∈ node.properties) ∧
    node.name = name ∧
    ∀ id, Key.ofIdentifier id (some node.context)
      = Key.ofIdentifier id (some (NodeType.ofName name).context) := by
  have horder := h.names_properties
  have hcontext := h.names_context
  refine ⟨?_, ?_, h.mem_names, horder, hcontext, fun property hmem => ?_, h.name_eq, fun id => ?_⟩
  · rw [horder]
    exact List.nodup_dedup _
  · rw [hcontext]
    exact nodup_firsts _
  · have hset : property ∈ Dictionary.names settings.reverse := by
      rw [horder, List.mem_dedup] at hmem
      simpa [Dictionary.names] using hmem
    obtain ⟨text, hlast⟩ := Option.isSome_iff_exists.1
      ((Dictionary.find?_isSome_iff property settings.reverse).2 hset)
    obtain ⟨e, hparse, hfind⟩ := h.find?_properties hlast
    exact ⟨text, e, hlast, by rw [h.property?, hlast]; rfl, hparse, Dictionary.mem_of_find? hfind⟩
  · rw [key_ofName, show node.context.name = name from h.name_eq]
    rfl

/-- A node type with a property that was set again. -/
def revised : NodeType where
  context := ⟨"Page", [("title", .text "[Page!]"), ("author", .text "Tag!")]⟩
  properties := [("author", .nonNull (.named "Tag")), ("title", .list (.nonNull (.named "Page")))]

/-- The properties of that node type as they were set. -/
def revisions : List (String × String) :=
  [("title", "String"), ("author", "Tag!"), ("title", "[Page!]")]

theorem written_revised : NodeType.Written "Page" revisions revised := by
  have hstring : TypeExpr.read "String" = .ok (.named "String") := by decide +kernel
  have htag : TypeExpr.read "Tag!" = .ok (.nonNull (.named "Tag")) := by decide +kernel
  have hpages : TypeExpr.read "[Page!]" = .ok (.list (.nonNull (.named "Page"))) := by
    decide +kernel
  have hset : (NodeType.ofName "Page").withProperties revisions = .ok revised := by
    simp only [revisions, NodeType.withProperties, NodeType.withProperty, hstring, htag, hpages]
    rfl
  exact NodeType.Written.start.withProperties hset

theorem revised_in_step : NodeType.Written "Page" revisions revised ∧
    Dictionary.names revised.properties = (Dictionary.names revisions).dedup ∧
    Dictionary.names revised.context.properties = firsts (Dictionary.names revisions) ∧
    Dictionary.names revised.properties = ["author", "title"] ∧
    firsts (Dictionary.names revisions) = ["title", "author"] := by
  obtain ⟨-, -, -, hlast, hfirst, -⟩ := properties_in_step written_revised
  exact ⟨written_revised, hlast, hfirst, rfl, by decide⟩

end SchemaGraph
