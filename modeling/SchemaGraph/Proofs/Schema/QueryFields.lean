/-
**The fields of the query object.**

For each node type the query object has one field for a single one and one for all of them.  The
name of the first is that of the node type with its first letter in lower case, the name of the
second is the name with a word before it.  Two names that differ in the case of their first letter
alone give one field name, and so do a name that begins with the word and the name that follows it;
in all other sets each field has a name of its own.

Main definitions:

* `FieldNamesApart` — no two of some names give the query object one field name.

Main results:

* `nodup_fieldNames_iff` — **when the field names for some names differ**;
* `SchemaType.field?_of_nodup` — fields with names of their own are found by name;
* `fieldsSdl_eq_ok_iff` — the text of fields is that of each of them, in order;
* `query_of_reaches` — what a construction of the query object comes to;
* `query_fields_distinct_iff` — **when the fields of the query object have names of their own**,
  whenever it is constructed.
-/

import SchemaGraph.Proofs.Nodes.Accepted
import SchemaGraph.Proofs.Registry.Origin
import SchemaGraph.Schema.Sdl

set_option autoImplicit false

namespace SchemaGraph

open Registry (Handle Request Options Answer ThreadId Frame Yield Reachable Reaches Reliable)

/-! ### Field names -/

/-- No two of some names give the query object one field name. -/
structure FieldNamesApart (names : List String) : Prop where
  /-- the names differ in more than the case of their first letter -/
  single : ∀ m ∈ names, ∀ n ∈ names, lowerFirst m = lowerFirst n → m = n
  /-- none is another one with the word before it -/
  cross : ∀ m ∈ names, ∀ n ∈ names, lowerFirst m ≠ "all" ++ n

instance (names : List String) : Decidable (FieldNamesApart names) :=
  decidable_of_iff ((∀ m ∈ names, ∀ n ∈ names, lowerFirst m = lowerFirst n → m = n) ∧
      ∀ m ∈ names, ∀ n ∈ names, lowerFirst m ≠ "all" ++ n)
    ⟨fun h => ⟨h.1, h.2⟩, fun h => ⟨h.single, h.cross⟩⟩

theorem append_all_inj {m n : String} (h : "all" ++ m = "all" ++ n) : m = n := by
  rw [← String.toList_inj, String.toList_append, String.toList_append] at h
  exact String.toList_inj.1 (List.append_cancel_left h)

/-- **When the field names for some names differ.** -/
theorem nodup_fieldNames_iff {names : List String} (hnodup : names.Nodup) :
    (names.flatMap fun n => [lowerFirst n, "all" ++ n]).Nodup ↔ FieldNamesApart names := by
  rw [List.nodup_flatMap]
  constructor
  · rintro ⟨heach, hpairs⟩
    have hsymm : Std.Symm (Function.onFun List.Disjoint fun n => [lowerFirst n, "all" ++ n]) :=
      ⟨fun _ _ h => List.Disjoint.symm h⟩
    have hdisjoint : ∀ m ∈ names, ∀ n ∈ names, m ≠ n →
        List.Disjoint [lowerFirst m, "all" ++ m] [lowerFirst n, "all" ++ n] :=
      fun _ hm _ hn hne => hpairs.forall hm hn hne
    refine ⟨fun m hm n hn heq => ?_, fun m hm n hn heq => ?_⟩
    · by_contra hne
      exact hdisjoint m hm n hn hne (a := lowerFirst m) (by simp) (by simp [heq])
    · by_cases hne : m = n
      · subst hne
        simpa [heq] using heach m hm
      · exact hdisjoint m hm n hn hne (a := lowerFirst m) (by simp) (by simp [heq])
  · intro h
    refine ⟨fun n hn => by simpa using h.cross n hn n hn, ?_⟩
    refine hnodup.imp_of_mem fun {m n} hm hn hne => ?_
    -- one of the names of `m` is one of those of `n`
    intro a ham han
    simp only [List.mem_cons, List.not_mem_nil, or_false] at ham han
    rcases ham with rfl | rfl
    · rcases han with heq | heq
      · exact hne (h.single m hm n hn heq)
      · exact h.cross m hm n hn heq
    · rcases han with heq | heq
      · exact h.cross n hn m hm heq.symm
      · exact hne (append_all_inj heq)

theorem name_queryFields (nodes : NodeTypes) : (queryFields nodes).map PlannedField.name
    = (nodes.toList.map NodeType.name).flatMap fun n => [lowerFirst n, "all" ++ n] := by
  rw [queryFields, List.map_flatMap, List.flatMap_map]
  rfl

namespace NodeTypes

theorem Sound.nodup_names_toList {nodes : NodeTypes} (hs : nodes.Sound) :
    (nodes.toList.map NodeType.name).Nodup :=
  List.pairwise_map.2 (hs.pairwise_toList.imp fun h => String.ne_of_lt h)

end NodeTypes

/-! ### Fields of an object -/

theorem find?_of_nodup {fields : List Field} (h : (fields.map Field.name).Nodup) {f : Field}
    (hf : f ∈ fields) : fields.find? (fun g => g.name = f.name) = some f := by
  induction fields with
  | nil => exact absurd hf List.not_mem_nil
  | cons g fields ih =>
      rw [List.map_cons, List.nodup_cons] at h
      rcases List.mem_cons.1 hf with rfl | hf
      · rw [List.find?_cons_of_pos (by simp)]
      · have hne : g.name ≠ f.name := fun heq => h.1 (heq ▸ List.mem_map_of_mem hf)
        rw [List.find?_cons_of_neg (by simpa using hne)]
        exact ih h.2 hf

/-- Fields with names of their own are found by name. -/
theorem SchemaType.field?_of_nodup {x : SchemaType} (h : (x.fields.map Field.name).Nodup)
    {f : Field} (hf : f ∈ x.fields) : x.field? f.name = some f :=
  find?_of_nodup h hf

/-- The text of fields is that of each of them, in order. -/
theorem fieldsSdl_eq_ok_iff {S : TypeStore} {fields : List Field} {body : String} :
    fieldsSdl S fields = .ok body ↔ ∃ lines, List.Forall₂ (fun f line => f.sdl S = .ok line)
      fields lines ∧ body = lines.foldr (· ++ ·) "" := by
  induction fields generalizing body with
  | nil => simp [fieldsSdl, eq_comm]
  | cons f fields ih =>
      rw [fieldsSdl]
      cases hf : f.sdl S with
      | error e =>
          constructor
          · exact nofun
          · rintro ⟨_, hlines, -⟩
            obtain ⟨_, _, hline, -⟩ := List.forall₂_cons_left_iff.1 hlines
            rw [hf] at hline
            cases hline
      | ok line =>
          simp only [Except.bind, List.forall₂_cons_left_iff, hf, Except.ok.injEq]
          cases hfields : fieldsSdl S fields with
          | error e =>
              simp only [Except.map]
              constructor
              · exact nofun
              · rintro ⟨_, ⟨_, lines, -, hlines, rfl⟩, -⟩
                exact absurd (ih.2 ⟨lines, hlines, rfl⟩) (by simp [hfields])
          | ok rest =>
              simp only [Except.map, Except.ok.injEq]
              constructor
              · rintro rfl
                obtain ⟨lines, hlines, rfl⟩ := ih.1 hfields
                exact ⟨_, ⟨line, lines, rfl, hlines, rfl⟩, rfl⟩
              · rintro ⟨_, ⟨_, lines, rfl, hlines, rfl⟩, rfl⟩
                have hrest := ih.2 ⟨lines, hlines, rfl⟩
                rw [hfields] at hrest
                rw [Except.ok.inj hrest]
                rfl

theorem name_zipWith {fields : List PlannedField} {hs : List Handle}
    (h : hs.length = fields.length) :
    (fields.zipWith (fun f x => (⟨f.name, x, some f.description⟩ : Field)) hs).map Field.name
      = fields.map PlannedField.name := by
  induction fields generalizing hs with
  | nil => rfl
  | cons f fields ih =>
      cases hs with
      | nil => cases h
      | cons x hs =>
          rw [List.zipWith_cons_cons, List.map_cons, List.map_cons, ih (Nat.succ.inj h)]

/-! ### Whenever the query object is constructed -/

/-- What a construction of the query object comes to. -/
theorem query_of_reaches {nodes : NodeTypes} {options : Options}
    {A : Request → Answer TypeFault → Prop} {r : Request} {log : List (Request × Answer TypeFault)}
    {y : Yield SchemaType} (hr : r.identifier.name = queryName)
    (h : Reaches (nodes.setup options) A r log (.done y)) :
    ∃ hs : List Handle, hs.length = (queryFields nodes).length ∧
      y = .new ⟨.object queryName ((queryFields nodes).zipWith
        (fun f h => ⟨f.name, h, some f.description⟩) hs), none⟩ := by
  obtain ⟨key, factory, -, hfactory, hleads⟩ := h
  have hquery : Dictionary.find? queryName nodes.factories = some (queryFactory nodes) := rfl
  rw [hr] at hfactory
  obtain rfl : queryFactory nodes = factory := Option.some.inj (hquery.symm.trans hfactory)
  obtain ⟨hs, hlen, hx⟩ := hleads.done_of_keep
  rw [List.length_map] at hlen
  exact ⟨hs, hlen, hx⟩

/-- **When the fields of the query object have names of their own.**  Whenever the query object of
an accepted set is constructed, in whatever run: it has two fields for each node type, called after
it.  Their names differ exactly when no two node types are called the same but for the case of the
first letter, and none like another one with the word before it.  If they differ, each field is
found by its name; and the text of the fields has the lines of each of them once, in order. -/
theorem query_fields_distinct_iff {nodes : NodeTypes} {options : Options} {s : TypeState}
    {t : ThreadId} {f : Frame SchemaType Unit TypeFault Empty}
    {frames : List (Frame SchemaType Unit TypeFault Empty)} {y : Yield SchemaType}
    (hn : nodes.Accepted) (hs : Reachable (nodes.setup options) s)
    (hth : s.thread t = ⟨f :: frames, .running (.done y)⟩)
    (hquery : f.call.request.identifier.name = queryName) :
    ∃ x, y = .new x ∧ x.name? = some queryName ∧
    x.fields.map Field.name
      = (nodes.toList.map NodeType.name).flatMap (fun n => [lowerFirst n, "all" ++ n]) ∧
    ((x.fields.map Field.name).Nodup ↔ FieldNamesApart (nodes.toList.map NodeType.name)) ∧
    (FieldNamesApart (nodes.toList.map NodeType.name) →
      ∀ field ∈ x.fields, x.field? field.name = some field) ∧
    ∀ S body, fieldsSdl S x.fields = .ok body →
      ∃ lines, List.Forall₂ (fun f line => f.sdl S = .ok line) x.fields lines ∧
        body = lines.foldr (· ++ ·) "" := by
  obtain ⟨rs, ks, hsession⟩ := hs.session
  have htrace := hsession.traceable (V := fun _ => True)
    (Reliable.nothing fun _ _ => trivial) fun _ _ => trivial
  have hsuits := htrace.suits t
  rw [hth] at hsuits
  obtain ⟨f', rest, hf, hpath⟩ := hsuits
  obtain ⟨rfl, -⟩ := List.cons.inj hf
  obtain ⟨hs, hlen, rfl⟩ : ∃ hs : List Handle, hs.length = (queryFields nodes).length ∧
      y = .new ⟨.object queryName ((queryFields nodes).zipWith
        (fun f h => ⟨f.name, h, some f.description⟩) hs), none⟩ := by
    rcases hpath with ⟨log, hpath⟩ | ⟨-, message, hpanic⟩
    · exact query_of_reaches hquery hpath
    · cases hpanic
  have hnames := (name_zipWith hlen).trans (name_queryFields nodes)
  have hiff := nodup_fieldNames_iff hn.sound.nodup_names_toList
  refine ⟨_, rfl, rfl, hnames, ?_, fun hapart field hfield => ?_, fun S body h => ?_⟩
  · rw [← hiff, ← hnames]
    rfl
  · refine SchemaType.field?_of_nodup ?_ hfield
    rw [← hiff, ← hnames] at hapart
    exact hapart
  · exact fieldsSdl_eq_ok_iff.1 h

/-! ### Two sets of node types -/

/-- Names that are in order already stay so. -/
theorem toList_plainNodes {names : List String} (h : names.Pairwise (· ≤ ·)) :
    (plainNodes names).toList = names.map .ofName := by
  have hsorted : (plainNodes names).entries.Pairwise fun p q => p.1 ≤ q.1 := List.pairwise_map.2 h
  rw [NodeTypes.toList, Dictionary.sorted_of_pairwise hsorted]
  simp [plainNodes, Function.comp_def]

theorem queryFields_plainNodes {names : List String} (h : names.Pairwise (· ≤ ·)) :
    queryFields (plainNodes names) = names.flatMap fieldsFor := by
  rw [queryFields, toList_plainNodes h, List.flatMap_map]
  rfl

/-- The thread has the query object at hand, and is about to publish it. -/
def hasQuery (th : Registry.Thread SchemaType Unit TypeFault Empty) (names : List String) : Bool :=
  match th with
  | ⟨f :: _, .running (.done (.new x))⟩ =>
    f.call.request.identifier.name = queryName ∧ x.fields.map Field.name = names
  | _ => false

theorem exists_of_hasQuery {th : Registry.Thread SchemaType Unit TypeFault Empty}
    {names : List String} (h : hasQuery th names = true) :
    ∃ f frames x, th = ⟨f :: frames, .running (.done (.new x))⟩ ∧
      f.call.request.identifier.name = queryName ∧ x.fields.map Field.name = names := by
  unfold hasQuery at h
  split at h
  · exact ⟨_, _, _, rfl, of_decide_eq_true h⟩
  · cases h

/-- The query object of node types of given names is requested, and so many steps are taken. -/
def queryAfter (names : List String) (steps : Nat) : TypeState :=
  Registry.runThread ((plainNodes names).setup {}) 0 steps
    (NodeTypes.start.call ((plainNodes names).setup {}) 0 ⟨.bare queryName, none⟩)

theorem reachable_queryAfter (names : List String) (steps : Nat) :
    Reachable ((plainNodes names).setup {}) (queryAfter names steps) :=
  ((Reachable.initial () 0).next (.call 0 _ rfl)).run (Registry.run_runThread _ _ _ _)

/-- The kernel does not sort, so the fields are written out before the steps are taken. -/
theorem hasQuery_pages : hasQuery ((queryAfter ["Foo", "Page"] 55).thread 0)
    ["foo", "allFoo", "page", "allPage"] = true := by
  unfold queryAfter NodeTypes.setup NodeTypes.factories queryFactory queryProgram
  rw [queryFields_plainNodes (by decide +kernel)]
  decide +kernel

theorem query_fields_of_pages : (plainNodes ["Foo", "Page"]).Accepted ∧
    ∃ f frames x, (queryAfter ["Foo", "Page"] 55).thread 0
      = ⟨f :: frames, .running (.done (.new x))⟩ ∧
      f.call.request.identifier.name = queryName ∧
      x.fields.map Field.name = ["foo", "allFoo", "page", "allPage"] ∧
      FieldNamesApart ((plainNodes ["Foo", "Page"]).toList.map NodeType.name) ∧
      (x.fields.map Field.name).Nodup := by
  have haccepted : (plainNodes ["Foo", "Page"]).Accepted :=
    accepted_plainNodes (by decide +kernel) (by decide +kernel)
  obtain ⟨f, frames, x, hth, hquery, hnames⟩ :=
    exists_of_hasQuery hasQuery_pages
  have hapart : FieldNamesApart ((plainNodes ["Foo", "Page"]).toList.map NodeType.name) := by
    rw [toList_plainNodes (by decide +kernel)]
    decide +kernel
  obtain ⟨x', hx, -, -, hiff, -⟩ :=
    query_fields_distinct_iff haccepted (reachable_queryAfter _ _) hth hquery
  obtain rfl := Yield.new.inj hx
  exact ⟨haccepted, f, frames, x, hth, hquery, hnames, hapart, hiff.2 hapart⟩

theorem hasQuery_allFoo : hasQuery ((queryAfter ["AllFoo", "Foo"] 55).thread 0)
    ["allFoo", "allAllFoo", "foo", "allFoo"] = true := by
  unfold queryAfter NodeTypes.setup NodeTypes.factories queryFactory queryProgram
  rw [queryFields_plainNodes (by decide +kernel)]
  decide +kernel

/-- **Two fields of one name**: the node type `AllFoo` on its own, and all node types `Foo`.  The
second is not found by its name. -/
theorem query_fields_collide : (plainNodes ["AllFoo", "Foo"]).Accepted ∧
    ∃ f frames x, (queryAfter ["AllFoo", "Foo"] 55).thread 0
      = ⟨f :: frames, .running (.done (.new x))⟩ ∧
      f.call.request.identifier.name = queryName ∧
      x.fields.map Field.name = ["allFoo", "allAllFoo", "foo", "allFoo"] ∧
      ¬ (x.fields.map Field.name).Nodup := by
  refine ⟨accepted_plainNodes (by decide +kernel) (by decide +kernel), ?_⟩
  obtain ⟨f, frames, x, hth, hquery, hnames⟩ :=
    exists_of_hasQuery hasQuery_allFoo
  exact ⟨f, frames, x, hth, hquery, hnames, by rw [hnames]; decide +kernel⟩

end SchemaGraph
