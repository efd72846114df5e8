/-
**What can be read back from the blocks of a schema.**

Nothing is escaped in the text of a schema, so a block is read back only when the texts in it do not
hold what ends them: a description ends at three quotes and a line break, the line of a property at a
line break.  The names of node types hold letters, digits, underscores and white space alone, and the
types of properties no white space either, so those are never mistaken.  Then a block says which name
it defines and how, whatever follows it, and so does the text with all the blocks.

Main definitions:

* `Closed` — a description that does not hold its own end;
* `NodeTypes.Plain` — no description of a set holds its own end, and no property name a line break;
* `NodeTypes.content?` — the description and the properties under a name.

Main results:

* `append_blockEnd_inj` — a closed description ends at the first three quotes with a line break;
* `propertyLines_append_inj`, `queryLines_append_inj` — the lines of an object are read back;
* `NodeTypes.Blocked.append_inj` — **a block is read back, whatever follows it**;
* `NodeTypes.content?_of_sdlOf` — **so is all that is said about the node types**.
-/

import SchemaGraph.Proofs.Schema.References
import SchemaGraph.Proofs.Schema.History
import SchemaGraph.Proofs.Text.Words
import SchemaGraph.Proofs.TypeExpr.RoundTrip

set_option autoImplicit false

namespace SchemaGraph

open Text (StopsAt append_inj_of_stopsAt stopsAt_cons flatMap_append_inj)

/-! ### Descriptions -/

/-- What ends the description of a block. -/
def blockEnd : List Char := ['"', '"', '"', '\n']

/-- A description that does not hold its own end. -/
def Closed (d : String) : Prop := ¬ blockEnd <:+: d.toList

instance (d : String) : Decidable (Closed d) := inferInstanceAs (Decidable (¬ _))

/-- The end of a description does not begin within itself. -/
theorem nil_of_shifted {a r r' : List Char} (ha : ¬ blockEnd <:+: a)
    (h : blockEnd ++ r = a ++ (blockEnd ++ r')) : a = [] := by
  match a with
  | [] => rfl
  | [_] | [_, _] | [_, _, _] => simp [blockEnd] at h
  | w :: x :: y :: z :: rest =>
      simp only [blockEnd, List.cons_append, List.cons.injEq] at h
      obtain ⟨rfl, rfl, rfl, rfl, -⟩ := h
      exact absurd (List.prefix_append blockEnd rest).isInfix ha

/-- A closed description ends at the first three quotes with a line break. -/
theorem append_blockEnd_inj {d d' r r' : List Char} (hd : ¬ blockEnd <:+: d)
    (hd' : ¬ blockEnd <:+: d') (h : d ++ (blockEnd ++ r) = d' ++ (blockEnd ++ r')) :
    d = d' ∧ r = r' := by
  have hshift : ∀ {d d' a r r' : List Char}, ¬ blockEnd <:+: d' → d' = d ++ a →
      blockEnd ++ r = a ++ (blockEnd ++ r') → d' = d ∧ r' = r := by
    rintro d d' a r r' hd' rfl h
    obtain rfl := nil_of_shifted (fun ha => hd' (ha.trans (List.suffix_append d a).isInfix)) h
    exact ⟨List.append_nil d, (List.append_cancel_left h).symm⟩
  rcases List.append_eq_append_iff.1 h with ⟨a, ha, hrest⟩ | ⟨a, ha, hrest⟩
  · obtain ⟨rfl, rfl⟩ := hshift hd' ha hrest
    exact ⟨rfl, rfl⟩
  · exact hshift hd ha hrest

theorem toList_blockDescription (d : String) : (blockDescription (some d)).toList
    = '"' :: '"' :: '"' :: (d.toList ++ blockEnd) := by
  simp [blockDescription, blockEnd, String.toList_append]

/-- The description of a block is read back, when the block goes on with a keyword. -/
theorem blockDescription_append_inj {d d' : Option String} {r r' : List Char}
    (hd : ∀ t ∈ d, Closed t) (hd' : ∀ t ∈ d', Closed t) (hr : StopsAt (· ≠ '"') r)
    (hr' : StopsAt (· ≠ '"') r')
    (h : (blockDescription d).toList ++ r = (blockDescription d').toList ++ r') :
    d = d' ∧ r = r' := by
  have hkeyword : ∀ {t : String} {r r' : List Char}, StopsAt (· ≠ '"') r →
      (blockDescription none).toList ++ r ≠ (blockDescription (some t)).toList ++ r' := by
    intro t r r' hr h
    rw [toList_blockDescription] at h
    exact absurd (hr '"' (by rw [show r = _ from h]; rfl)) (by decide)
  match d, d' with
  | none, none => exact ⟨rfl, h⟩
  | none, some t => exact absurd h (hkeyword hr)
  | some t, none => exact absurd h.symm (hkeyword hr')
  | some t, some t' =>
      rw [toList_blockDescription, toList_blockDescription] at h
      simp only [List.cons_append, List.append_assoc, List.cons.injEq, true_and] at h
      obtain ⟨htext, hrest⟩ := append_blockEnd_inj (hd t rfl) (hd' t' rfl) h
      exact ⟨congrArg some (String.toList_inj.1 htext), hrest⟩

/-! ### Names and types -/

/-- The names of node types hold what names hold, and white space. -/
theorem isNamePart_or_isWhite {name : String} (h : isName (trimmed name).toList = true) :
    ∀ c ∈ name.toList, isNamePart c = true ∨ isWhite c = true := by
  obtain ⟨before, after, hb, ha, hs⟩ := eq_padded name
  intro c hc
  rw [hs, List.mem_append, List.mem_append] at hc
  rcases hc with hc | hc | hc
  · exact Or.inr (hb c hc)
  · exact Or.inl (isNamePart_of_isName h c hc)
  · exact Or.inr (ha c hc)

/-- They hold neither quotes nor braces. -/
theorem avoids_of_isName {name : String} (h : isName (trimmed name).toList = true) :
    (∀ c ∈ name.toList, decide (c = '"') = false) ∧
      ∀ c ∈ name.toList, decide (c = '\x7b') = false := by
  constructor <;> intro c hc <;> refine decide_eq_false ?_ <;> rintro rfl <;>
    exact absurd (isNamePart_or_isWhite h _ hc) (by decide)

/-- A type that was read is written without white space. -/
theorem isWhite_of_read {s : String} {e : TypeExpr} (h : TypeExpr.read s = .ok e) :
    ∀ c ∈ e.text.toList, isWhite c = false := by
  intro c hc
  rw [text_of_read h, unspaced, List.mem_filter] at hc
  simpa using hc.2

/-- Types that were read are told by how they are written. -/
theorem eq_of_text {s s' : String} {e e' : TypeExpr} (h : TypeExpr.read s = .ok e)
    (h' : TypeExpr.read s' = .ok e') (htext : e.text.toList = e'.text.toList) : e = e' := by
  have hread := read_text_of_read h
  rw [String.toList_inj.1 htext, read_text_of_read h'] at hread
  exact (Except.ok.inj hread).symm

/-! ### The lines of properties -/

/-- A property that is read back from its line: there is no line break in its name, and its type was
read from a text. -/
def PlainProperty (p : String × TypeExpr) : Prop :=
  '\n' ∉ p.1.toList ∧ ∃ s, TypeExpr.read s = .ok p.2

/-- A property as it is written. -/
def propertyText (p : String × TypeExpr) : List Char :=
  p.1.toList ++ ':' :: ' ' :: p.2.text.toList

/-- The line of a property. -/
def propertyLine (p : String × TypeExpr) : List Char :=
  ' ' :: ' ' :: (propertyText p ++ ['\n'])

variable {p q : String × TypeExpr} {r r' : List Char}

/-- A type is what follows the last space of a line. -/
theorem propertyText_inj (hp : PlainProperty p) (hq : PlainProperty q)
    (h : propertyText p = propertyText q) : p = q := by
  obtain ⟨-, s, hs⟩ := hp
  obtain ⟨-, s', hs'⟩ := hq
  have hspace : ∀ {s : String} {e : TypeExpr}, TypeExpr.read s = .ok e →
      ∀ c ∈ e.text.toList.reverse, decide (c = ' ') = false := by
    intro s e h c hc
    refine decide_eq_false ?_
    rintro rfl
    exact absurd (isWhite_of_read h _ (List.mem_reverse.1 hc)) (by decide)
  have hreversed := congrArg List.reverse h
  simp only [propertyText, List.reverse_append, List.reverse_cons, List.append_assoc,
    List.cons_append, List.nil_append] at hreversed
  obtain ⟨htype, hname⟩ := append_inj_of_stopsAt (hspace hs) (hspace hs')
    (stopsAt_cons (by simp) _) (stopsAt_cons (by simp) _) hreversed
  simp only [List.cons.injEq, true_and, List.reverse_inj] at htype hname
  exact Prod.ext (String.toList_inj.1 hname) (eq_of_text hs hs' htype)

theorem PlainProperty.avoids (hp : PlainProperty p) :
    ∀ c ∈ propertyText p, decide (c = '\n') = false := by
  obtain ⟨hname, s, hs⟩ := hp
  intro c hc
  refine decide_eq_false ?_
  rintro rfl
  simp only [propertyText, List.mem_append, List.mem_cons] at hc
  rcases hc with hc | hc | hc | hc
  · exact hname hc
  · exact absurd hc (by decide)
  · exact absurd hc (by decide)
  · exact absurd (isWhite_of_read hs _ hc) (by decide)

/-- A property is read back from its line. -/
theorem propertyLine_append_inj (hp : PlainProperty p) (hq : PlainProperty q)
    (h : propertyLine p ++ r = propertyLine q ++ r') : p = q ∧ r = r' := by
  simp only [propertyLine, List.cons_append, List.append_assoc, List.nil_append, List.cons.injEq,
    true_and] at h
  obtain ⟨htext, hrest⟩ := append_inj_of_stopsAt hp.avoids hq.avoids (stopsAt_cons (by simp) _)
    (stopsAt_cons (by simp) _) h
  exact ⟨propertyText_inj hp hq htext, (List.cons.inj hrest).2⟩

/-- Properties are read back from their lines, up to the closing brace. -/
theorem propertyLines_append_inj {ps qs : List (String × TypeExpr)}
    (hps : ∀ p ∈ ps, PlainProperty p) (hqs : ∀ q ∈ qs, PlainProperty q)
    (h : ps.flatMap propertyLine ++ '\x7d' :: r = qs.flatMap propertyLine ++ '\x7d' :: r') :
    ps = qs ∧ r = r' := by
  obtain ⟨hall, hrest⟩ : List.Forall₂ Eq ps qs ∧ r = r' :=
    flatMap_append_inj (fun _ => true) rfl
      (fun p hp q hq r r' _ _ => propertyLine_append_inj (hps p hp) (hqs q hq))
      (fun p _ => ⟨_, _, rfl, rfl, by decide⟩) (fun q _ => ⟨_, _, rfl, rfl, by decide⟩) h
  exact ⟨List.forall₂_eq_eq_eq ▸ hall, hrest⟩

theorem join_definedNode (ps : List (String × TypeExpr)) :
    (String.join ((ps.map fun p => (⟨p.1, p.2, none⟩ : DefinedField)).map DefinedField.sdl)).toList
      = ps.flatMap propertyLine := by
  rw [String.toList_join, List.map_map, List.flatMap_map]
  refine List.flatMap_congr fun p _ => ?_
  simp [DefinedField.sdl, fieldDescription, propertyLine, propertyText, String.toList_append]

/-! ### The lines of the query object -/

/-- What the lines of the query object for a name start with. -/
def queryStart : String := "  \"" ++ "Look up a single "

/-- The lines of the query object for a name, after the name itself. -/
def queryRest (name : String) : String :=
  "\"\n" ++ "  " ++ lowerFirst name ++ ": " ++ name ++ "\n" ++ DefinedField.sdl
    ⟨"all" ++ name, .nonNull (.list (.nonNull (.named name))), some ("Every " ++ name)⟩

/-- The lines of the query object for a name. -/
def queryLines (name : String) : List Char :=
  queryStart.toList ++ (name.toList ++ (queryRest name).toList)

/-- After the name there is a quote. -/
theorem exists_queryRest (name : String) : ∃ t, (queryRest name).toList = '"' :: t := by
  simp only [queryRest, String.toList_append, List.append_assoc]
  exact ⟨_, rfl⟩

/-- The name is read back from the first line. -/
theorem queryLines_append_inj {name name' : String} (hn : isName (trimmed name).toList = true)
    (hn' : isName (trimmed name').toList = true)
    (h : queryLines name ++ r = queryLines name' ++ r') : name = name' ∧ r = r' := by
  have hquote : ∀ (name : String) (r : List Char),
      StopsAt (fun c => decide (c = '"')) ((queryRest name).toList ++ r) := by
    intro name r
    obtain ⟨t, ht⟩ := exists_queryRest name
    rw [ht, List.cons_append]
    exact stopsAt_cons (by simp) _
  simp only [queryLines, List.append_assoc, List.append_cancel_left_eq] at h
  obtain ⟨hname, hrest⟩ := append_inj_of_stopsAt (avoids_of_isName hn).1 (avoids_of_isName hn').1
    (hquote name r) (hquote name' r') h
  obtain rfl := String.toList_inj.1 hname
  exact ⟨rfl, List.append_cancel_left hrest⟩

theorem fieldsFor_sdl (name : String) :
    String.join ((fieldsFor name).map fun f =>
      DefinedField.sdl ⟨f.name, f.type, some f.description⟩)
      = queryStart ++ name ++ queryRest name := by
  simp only [fieldsFor, List.map_cons, List.map_nil, String.join_cons, String.join_nil,
    DefinedField.sdl, fieldDescription, queryStart, queryRest, TypeExpr.text, String.append_assoc,
    String.append_empty]

theorem join_definedQuery (nodes : NodeTypes) :
    (String.join (((queryFields nodes).map fun f =>
      (⟨f.name, f.type, some f.description⟩ : DefinedField)).map DefinedField.sdl)).toList
      = (nodes.toList.map NodeType.name).flatMap queryLines := by
  rw [String.toList_join, List.map_map, queryFields, List.map_flatMap, List.flatMap_assoc,
    List.flatMap_map]
  refine List.flatMap_congr fun node _ => ?_
  rw [← String.toList_join, queryLines, Function.comp_def, fieldsFor_sdl]
  simp only [String.toList_append, List.append_assoc]

/-- Names are read back from the lines of the query object, up to the closing brace. -/
theorem queryLines_flatMap_append_inj {names names' : List String}
    (hnames : ∀ name ∈ names, isName (trimmed name).toList = true)
    (hnames' : ∀ name ∈ names', isName (trimmed name).toList = true)
    (h : names.flatMap queryLines ++ '\x7d' :: r = names'.flatMap queryLines ++ '\x7d' :: r') :
    names = names' ∧ r = r' := by
  have hstart : ∀ name, ∃ c t, queryLines name = c :: t ∧ true = true ∧ c ≠ '\x7d' := by
    obtain ⟨t, ht⟩ : ∃ t, queryStart.toList = ' ' :: t := ⟨_, by rfl⟩
    intro name
    exact ⟨' ', _, by rw [queryLines, ht, List.cons_append], rfl, by decide⟩
  obtain ⟨hall, hrest⟩ : List.Forall₂ Eq names names' ∧ r = r' :=
    flatMap_append_inj (fun _ => true) rfl
      (fun n hn n' hn' r r' _ _ => queryLines_append_inj (hnames n hn) (hnames' n' hn'))
      (fun name _ => hstart name) (fun name _ => hstart name) h
  exact ⟨List.forall₂_eq_eq_eq ▸ hall, hrest⟩

/-! ### Blocks -/

/-- The block of an object. -/
def objectText (d : Option String) (name : String) (body : List Char) : List Char :=
  (blockDescription d).toList ++ 't' :: 'y' :: 'p' :: 'e' :: ' ' ::
    (name.toList ++ ' ' :: '\x7b' :: '\n' :: (body ++ ['\x7d', '\n']))

theorem toList_sdl_object (name : String) (fields : List DefinedField) (d : Option String) :
    (DefinedType.sdl name (.object fields d)).toList
      = objectText d name (String.join (fields.map DefinedField.sdl)).toList := by
  simp [DefinedType.sdl, braced, objectText, String.toList_append]

theorem objectText_append (d : Option String) (name : String) (body r : List Char) :
    objectText d name body ++ r = (blockDescription d).toList ++ 't' :: 'y' :: 'p' :: 'e' :: ' ' ::
      ((name.toList ++ [' ']) ++ '\x7b' :: '\n' :: (body ++ '\x7d' :: '\n' :: r)) := by
  simp only [objectText, List.append_assoc, List.cons_append, List.nil_append]

/-- Description, name and lines are read back from the block of an object. -/
theorem objectText_append_inj {d d' : Option String} {name name' : String} {body body' : List Char}
    (hd : ∀ t ∈ d, Closed t) (hd' : ∀ t ∈ d', Closed t)
    (hn : ∀ c ∈ name.toList, decide (c = '\x7b') = false)
    (hn' : ∀ c ∈ name'.toList, decide (c = '\x7b') = false)
    (h : objectText d name body ++ r = objectText d' name' body' ++ r') :
    d = d' ∧ name = name' ∧ body ++ '\x7d' :: '\n' :: r = body' ++ '\x7d' :: '\n' :: r' := by
  have hword : ∀ {name : String}, (∀ c ∈ name.toList, decide (c = '\x7b') = false) →
      ∀ c ∈ name.toList ++ [' '], decide (c = '\x7b') = false := fun hname =>
    List.forall_mem_append.2 ⟨hname, List.forall_mem_singleton.2 (by decide)⟩
  rw [objectText_append, objectText_append] at h
  obtain ⟨hdescription, hrest⟩ := blockDescription_append_inj hd hd'
    (stopsAt_cons (by decide) _) (stopsAt_cons (by decide) _) h
  simp only [List.cons.injEq, true_and] at hrest
  obtain ⟨hname, hbody⟩ := append_inj_of_stopsAt (hword hn) (hword hn')
    (stopsAt_cons (by decide) _) (stopsAt_cons (by decide) _) hrest
  simp only [List.cons.injEq, true_and] at hbody
  exact ⟨hdescription, String.toList_inj.1 (List.append_cancel_right hname), hbody⟩

/-- The block of the scalar of dates. -/
def dateText : List Char :=
  (blockDescription dateTime.description).toList ++ ("scalar " ++ dateTimeName ++ "\n").toList

theorem closed_dateTime : ∀ t ∈ dateTime.description, Closed t := by
  decide +kernel

/-- It is not taken for the block of an object. -/
theorem objectText_append_ne {d : Option String} {name : String} {body : List Char}
    (hd : ∀ t ∈ d, Closed t) : objectText d name body ++ r ≠ dateText ++ r' := by
  obtain ⟨t, ht⟩ : ∃ t, ("scalar " ++ dateTimeName ++ "\n").toList = 's' :: t := ⟨_, by rfl⟩
  intro h
  rw [objectText_append, dateText, List.append_assoc, ht, List.cons_append] at h
  obtain ⟨-, hrest⟩ := blockDescription_append_inj hd closed_dateTime
    (stopsAt_cons (by decide) _) (stopsAt_cons (by decide) _) h
  exact absurd (List.cons.inj hrest).1 (by decide)

namespace NodeTypes

variable {nodes nodes' : NodeTypes} {name name' : String}

/-- The description and the properties under a name. -/
def content? (nodes : NodeTypes) (name : String) :
    Option (Option String × Dictionary String TypeExpr) :=
  (nodes.get? name).map fun node => (node.description, node.properties)

/-- No description of the set holds its own end, and no name of a property a line break. -/
def Plain (nodes : NodeTypes) : Prop :=
  ∀ name node, nodes.get? name = some node → (∀ t ∈ node.description, Closed t) ∧
    ∀ p ∈ node.properties, '\n' ∉ p.1.toList

/-- What the block of a name is. -/
inductive Blocked (nodes : NodeTypes) (name : String) : List Char → Prop where
  | node {node : NodeType} : nodes.get? name = some node → Blocked nodes name
      (objectText node.description name (node.properties.flatMap propertyLine))
  | query : name = queryName → Blocked nodes name
      (objectText none name ((nodes.toList.map NodeType.name).flatMap queryLines))
  | date : name = dateTimeName → Blocked nodes name dateText

/-- The known names that need a definition have a block. -/
theorem blocked_of_knows (hk : nodes.Knows name) (hname : name ∉ builtinScalars) :
    nodes.Blocked name (nodes.block name).toList := by
  cases hg : nodes.get? name with
  | some node =>
      have hblock : (nodes.block name).toList
          = objectText node.description name (node.properties.flatMap propertyLine) := by
        rw [block, definition?_of_get? hg, Option.map_some, Option.getD_some, definedNode,
          toList_sdl_object, join_definedNode]
      rw [hblock]
      exact .node hg
  | none =>
      rcases hk with hsome | hscalar | rfl | rfl
      · rw [hg] at hsome
        cases hsome
      · exact absurd hscalar hname
      · have hblock : (nodes.block dateTimeName).toList = dateText := by
          simp only [block, definition?, hg, if_neg hname, if_true, Option.map_some,
            Option.getD_some, DefinedType.sdl, dateText, String.toList_append, List.append_assoc]
        rw [hblock]
        exact .date rfl
      · have hblock : (nodes.block queryName).toList
            = objectText none queryName ((nodes.toList.map NodeType.name).flatMap queryLines) := by
          have hdate : queryName ≠ dateTimeName := by decide
          simp only [block, definition?, hg, if_neg hname, if_neg hdate, if_true, Option.map_some,
            Option.getD_some, definedQuery, toList_sdl_object, join_definedQuery]
        rw [hblock]
        exact .query rfl

theorem Accepted.isName (hn : nodes.Accepted) {node : NodeType}
    (hg : nodes.get? name = some node) : isName (trimmed name).toList = true :=
  ((accepted_names hn).1 name node hg).2.2.1

theorem Accepted.isName_names (hn : nodes.Accepted) :
    ∀ name ∈ nodes.toList.map NodeType.name, SchemaGraph.isName (trimmed name).toList = true := by
  intro name hname
  obtain ⟨node, hmem, rfl⟩ := List.mem_map.1 hname
  exact hn.isName ((hn.sound.mem_toList node).1 hmem)

theorem Plain.property (hp : nodes.Plain) (hn : nodes.Accepted) {node : NodeType}
    (hg : nodes.get? name = some node) : ∀ p ∈ node.properties, PlainProperty p :=
  fun p hmem => ⟨(hp name node hg).2 p hmem, (hn.defined hg).read p hmem⟩

/-- No node type is called like the query object, so its block is another one's. -/
theorem content?_query (hn : nodes.Accepted) : nodes.content? queryName = none := by
  rw [content?, hn.sound.get?_query]
  rfl

theorem content?_date (hn : nodes.Accepted) : nodes.content? dateTimeName = none := by
  cases hg : nodes.get? dateTimeName with
  | none => rw [content?, hg]; rfl
  | some node => exact absurd (by decide +kernel : dateTimeName ∈ reservedNames) (hn.sound.free hg)

/-- **A block is read back, whatever follows it**: the name that it defines, and what it says about
it. -/
theorem Blocked.append_inj {l l' r r' : List Char} (hb : nodes.Blocked name l)
    (hb' : nodes'.Blocked name' l') (hn : nodes.Accepted) (hn' : nodes'.Accepted)
    (hp : nodes.Plain) (hp' : nodes'.Plain) (h : l ++ r = l' ++ r') :
    name = name' ∧ nodes.content? name = nodes'.content? name' ∧ r = r' := by
  have hquery : ∀ c ∈ queryName.toList, decide (c = '\x7b') = false :=
    List.all_iff_forall_prop.1 (by decide)
  have hnone : ∀ t ∈ (none : Option String), Closed t := by simp
  cases hb with
  | node hg =>
      have hname := (avoids_of_isName (hn.isName hg)).2
      cases hb' with
      | node hg' =>
          obtain ⟨hdescription, rfl, hbody⟩ := objectText_append_inj (hp _ _ hg).1 (hp' _ _ hg').1
            hname (avoids_of_isName (hn'.isName hg')).2 h
          obtain ⟨hproperties, hr⟩ :=
            propertyLines_append_inj (hp.property hn hg) (hp'.property hn' hg') hbody
          refine ⟨rfl, ?_, (List.cons.inj hr).2⟩
          rw [content?, content?, hg, hg', Option.map_some, Option.map_some, hdescription,
            hproperties]
      | query heq =>
          subst heq
          obtain ⟨-, rfl, -⟩ := objectText_append_inj (hp _ _ hg).1 hnone hname hquery h
          rw [hn.sound.get?_query] at hg
          cases hg
      | date => exact absurd h (objectText_append_ne (hp _ _ hg).1)
  | query heq =>
      subst heq
      cases hb' with
      | node hg' =>
          obtain ⟨-, rfl, -⟩ := objectText_append_inj hnone (hp' _ _ hg').1 hquery
            (avoids_of_isName (hn'.isName hg')).2 h
          rw [hn'.sound.get?_query] at hg'
          cases hg'
      | query heq =>
          subst heq
          obtain ⟨-, -, hbody⟩ := objectText_append_inj hnone hnone hquery hquery h
          obtain ⟨-, hr⟩ :=
            queryLines_flatMap_append_inj hn.isName_names hn'.isName_names hbody
          exact ⟨rfl, by rw [content?_query hn, content?_query hn'], (List.cons.inj hr).2⟩
      | date => exact absurd h (objectText_append_ne hnone)
  | date heq =>
      subst heq
      cases hb' with
      | node hg' => exact absurd h.symm (objectText_append_ne (hp' _ _ hg').1)
      | query => exact absurd h.symm (objectText_append_ne hnone)
      | date heq =>
          subst heq
          exact ⟨rfl, by rw [content?_date hn, content?_date hn'], List.append_cancel_left h⟩

/-! ### All blocks -/

/-- A text with the blocks of some names, after a line break. -/
theorem break_intercalate {blocks : List String} (h : blocks ≠ []) :
    '\n' :: (String.intercalate "\n" blocks).toList
      = blocks.flatMap fun block => '\n' :: block.toList := by
  cases blocks with
  | nil => exact absurd rfl h
  | cons block blocks =>
      rw [String.toList_intercalate, List.map_cons, List.flatMap_cons, List.cons_append]
      exact congrArg ('\n' :: ·) ((Text.intercalate_cons '\n' _ _).trans
        (by rw [List.flatMap_map]))

theorem sdlOf_query (nodes : NodeTypes) (names : List String) : nodes.sdlOf queryName names
    = String.intercalate "\n" ((names.filter (· ∉ builtinScalars)).map nodes.block) := by
  rw [sdlOf, show rootBlock ⟨.object queryName [], none⟩ = [] from rfl, List.append_nil]

/-- The names that need a definition, and what is said about each, are read back from the text. -/
theorem forall₂_of_sdlOf {names names' : List String} (hn : nodes.Accepted) (hn' : nodes'.Accepted)
    (hp : nodes.Plain) (hp' : nodes'.Plain) (hk : ∀ name ∈ names, nodes.Knows name)
    (hk' : ∀ name ∈ names', nodes'.Knows name) (hq : queryName ∈ names) (hq' : queryName ∈ names')
    (h : nodes.sdlOf queryName names = nodes'.sdlOf queryName names') :
    List.Forall₂ (fun name name' => name = name' ∧ nodes.content? name = nodes'.content? name')
      (names.filter (· ∉ builtinScalars)) (names'.filter (· ∉ builtinScalars)) := by
  have hnonempty : ∀ {nodes : NodeTypes} {names : List String}, queryName ∈ names →
      (names.filter (· ∉ builtinScalars)).map nodes.block ≠ [] := by
    intro nodes names hq hnil
    have hmem : queryName ∈ names.filter (· ∉ builtinScalars) :=
      List.mem_filter.2 ⟨hq, by decide +kernel⟩
    rw [List.map_eq_nil_iff.1 hnil] at hmem
    exact List.not_mem_nil hmem
  have hbroken := congrArg (fun s : String => ('\n' :: s.toList) ++ ['\x00']) h
  simp only [sdlOf_query, break_intercalate (hnonempty hq), break_intercalate (hnonempty hq'),
    List.flatMap_map] at hbroken
  refine (Text.flatMap_append_inj (fun _ => true) rfl
    (fun n hmem n' hmem' r r' _ _ heq => ?_) (fun _ _ => ⟨_, _, rfl, rfl, by decide⟩)
    (fun _ _ => ⟨_, _, rfl, rfl, by decide⟩) hbroken).1
  obtain ⟨hmem, hscalar⟩ := List.mem_filter.1 hmem
  obtain ⟨hmem', hscalar'⟩ := List.mem_filter.1 hmem'
  obtain ⟨hname, hcontent, hr⟩ := (blocked_of_knows (hk n hmem) (of_decide_eq_true hscalar)).append_inj
    (blocked_of_knows (hk' n' hmem') (of_decide_eq_true hscalar')) hn hn' hp hp' (List.cons.inj heq).2
  exact ⟨⟨hname, hcontent⟩, hr⟩

/-- **All that is said about the node types is read back from the text**, when it lists them all. -/
theorem content?_of_sdlOf {names names' : List String} (hn : nodes.Accepted)
    (hn' : nodes'.Accepted) (hp : nodes.Plain) (hp' : nodes'.Plain)
    (hk : ∀ name ∈ names, nodes.Knows name) (hk' : ∀ name ∈ names', nodes'.Knows name)
    (hq : queryName ∈ names) (hq' : queryName ∈ names')
    (hall : ∀ name, (nodes.get? name).isSome = true → name ∈ names)
    (hall' : ∀ name, (nodes'.get? name).isSome = true → name ∈ names')
    (h : nodes.sdlOf queryName names = nodes'.sdlOf queryName names') (name : String) :
    nodes.content? name = nodes'.content? name := by
  have hboth := forall₂_of_sdlOf hn hn' hp hp' hk hk' hq hq' h
  have hsame : names.filter (· ∉ builtinScalars) = names'.filter (· ∉ builtinScalars) :=
    List.forall₂_eq_eq_eq ▸ hboth.imp fun _ _ h => h.1
  rw [← hsame, List.forall₂_same] at hboth
  have hlisted : ∀ {nodes : NodeTypes} {names : List String}, nodes.Accepted →
      (∀ name, (nodes.get? name).isSome = true → name ∈ names) →
      (nodes.get? name).isSome = true → name ∈ names.filter (· ∉ builtinScalars) := by
    intro nodes names hn hall hsome
    obtain ⟨node, hg⟩ := Option.isSome_iff_exists.1 hsome
    exact List.mem_filter.2 ⟨hall name hsome, decide_eq_true fun hscalar =>
      hn.sound.free hg (mem_reservedNames_of_builtin hscalar)⟩
  by_cases hsome : (nodes.get? name).isSome = true
  · exact (hboth name (hlisted hn hall hsome)).2
  · by_cases hsome' : (nodes'.get? name).isSome = true
    · exact (hboth name (hsame ▸ hlisted hn' hall' hsome')).2
    · rw [Option.not_isSome_iff_eq_none] at hsome hsome'
      rw [content?, content?, hsome, hsome']

end NodeTypes

end SchemaGraph
