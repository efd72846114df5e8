/-
**The text of a schema does not depend on the history of its registry.**

The types of a schema are those that its root uses, in the order of their names, and the block of
each is determined by the definition of its name.  So once a schema can be built its text is
determined, and whether it can be built is seen from the definitions too.  Nothing of this depends
on which calls the registry has answered before, on which of them failed, on which handles are still
held, or on what is left behind.

Main definitions:

* `DefinedType.sdl`, `NodeTypes.sdlOf` — the block of a name, and the text of a schema, as the
  definitions determine them;
* `NodeTypes.Listed` — the names that a root uses, in order;
* `Kept` — what every request keeps that comes to its end;
* `Earlier` — a registry of node types after any calls, with handles cloned and dropped;
* `Renders` — the schema at a root has a text.

Main results:

* `Built.sdl` — **the text of a schema is the one that the definitions determine**;
* `Earlier.resolve`, `Earlier.instance`, `Earlier.prewarm`, `Earlier.build` — requests, for handles
  or for instances, several at once or for a whole schema, lead from history to history;
* `Earlier.next` — any request can follow any calls, and comes to its end;
* `renders_iff` — when a schema has a text, and which;
* `sdl_independent_of_history` — **the text of a schema does not depend on the history of the
  registry**.
-/

import SchemaGraph.Proofs.Schema.Built

set_option autoImplicit false

namespace SchemaGraph

open Registry (Handle InstanceId SlotId Request Options Apart AtRest Proceeds)

variable {nodes : NodeTypes} {options : Options} {rs : List Request} {s s' : TypeState}
  {root : TypeExpr} {i : InstanceId} {r : Request} {name : String} {names names' : List String}

/-! ### The text that the definitions determine -/

/-- The lines of a field, as it is defined. -/
def DefinedField.sdl (f : DefinedField) : String :=
  fieldDescription f.description ++ "  " ++ f.name ++ ": " ++ f.type.text ++ "\n"

/-- The block of a name, as it is defined. -/
def DefinedType.sdl (name : String) : DefinedType → String
  | .scalar d => blockDescription d ++ "scalar " ++ name ++ "\n"
  | .object fields d =>
    blockDescription d ++ braced "type" name (String.join (fields.map DefinedField.sdl))

namespace NodeTypes

/-- The block of a name. -/
def block (nodes : NodeTypes) (name : String) : String :=
  ((nodes.definition? name).map (DefinedType.sdl name)).getD ""

/-- The text of a schema whose root and whose types have the given names. -/
def sdlOf (nodes : NodeTypes) (root : String) (names : List String) : String :=
  String.intercalate "\n" ((names.filter (· ∉ builtinScalars)).map nodes.block
    ++ rootBlock ⟨.object root [], none⟩)

/-- The names that a root uses, in order. -/
structure Listed (nodes : NodeTypes) (root : TypeExpr) (names : List String) : Prop where
  nodup : names.Nodup
  ordered : names.Pairwise (· ≤ ·)
  mem_iff : ∀ name, name ∈ names ↔ nodes.Uses root (.named name)

/-- There is one list of the names that a root uses. -/
theorem Listed.unique (h : nodes.Listed root names) (h' : nodes.Listed root names') :
    names = names' := by
  have hperm : names.Perm names' := (List.perm_ext_iff_of_nodup h.nodup h'.nodup).2
    fun name => (h.mem_iff name).trans (h'.mem_iff name).symm
  exact hperm.eq_of_pairwise (fun _ _ _ _ => String.le_antisymm) h.ordered h'.ordered

end NodeTypes

/-! ### The text of a schema that was built -/

section Built

variable {S : TypeStore} {schema : Schema} {f : Field} {fs : List Field}
  {fields : List DefinedField} {e : TypeExpr}

theorem Field.Draws.refOf (hf : f.Draws S schema e) : refOf S f.type = .ok e.text := by
  obtain ⟨i, t, hget, hstored, href, -⟩ := hf.ref
  rw [SchemaGraph.refOf, typeOf_of_shows ⟨Handle.get_eq_ok_iff.1 hget, hstored⟩]
  exact href

/-- The fields of an object are written as they are defined. -/
theorem fieldsSdl_of_draws (h : List.Forall₂ (fun f p => f.name = p.name ∧
    f.description = p.description ∧ f.Draws S schema p.type) fs fields) :
    fieldsSdl S fs = .ok (String.join (fields.map DefinedField.sdl)) := by
  induction h with
  | nil => rfl
  | cons hf _ ih =>
      obtain ⟨hname, hdescription, hdraws⟩ := hf
      rw [fieldsSdl, Field.sdl, hdraws.refOf, ih, hname, hdescription]
      simp only [Except.map, Except.bind, List.map_cons, String.join_cons, DefinedField.sdl]

/-- The blocks of types are those of their names. -/
theorem blocks_eq {types : Dictionary String InstanceId}
    (h : ∀ p ∈ types, (S.instances[p.2]?.getD default).sdl S = .ok (some (nodes.block p.1))) :
    blocks S types
      = .ok (((Dictionary.names types).filter (· ∉ builtinScalars)).map nodes.block) := by
  induction types with
  | nil => rfl
  | cons p rest ih =>
      obtain ⟨name, i⟩ := p
      obtain ⟨hfirst, hrest⟩ := List.forall_mem_cons.1 h
      rw [blocks, ih hrest]
      by_cases hscalar : name ∈ builtinScalars
      · rw [if_pos hscalar]
        simp [Dictionary.names, hscalar]
      · rw [if_neg hscalar, hfirst]
        simp [Dictionary.names, hscalar, Except.bind, Except.map]

variable (hb : Built nodes options rs root s schema)

include hb

theorem Built.nodup_names : (Dictionary.names schema.types).Nodup := by
  obtain ⟨h, found, visited, -, ht, -, htypes⟩ := hb.toured
  rw [htypes]
  exact ((Dictionary.sorted_perm found).map Prod.fst).nodup_iff.2 (ht.nodup List.nodup_nil)

/-- The names in a schema are those that its root uses, in order. -/
theorem Built.listed : nodes.Listed root (Dictionary.names schema.types) where
  nodup := hb.nodup_names
  ordered := by
    obtain ⟨h, found, visited, -, -, -, htypes⟩ := hb.toured
    rw [htypes]
    exact List.pairwise_map.2 (Dictionary.pairwise_sorted found)
  mem_iff name := by
    rw [← Dictionary.find?_isSome_iff, Option.isSome_iff_exists]
    exact ⟨fun ⟨i, hi⟩ => hb.uses_of_get? hi, hb.get?_of_uses⟩

/-- The block of a type is that of its name. -/
theorem Built.block (hi : schema.get? name = some i) :
    (s.store.instances[i]?.getD default).sdl s.store = .ok (some (nodes.block name)) := by
  obtain ⟨d, hd⟩ := Option.ne_none_iff_exists'.1 (hb.whole _ (hb.uses_of_get? hi))
  simp only [NodeTypes.block, hd, Option.map_some, Option.getD_some]
  cases d with
  | scalar d =>
      rw [hb.scalar hd hi]
      rfl
  | object fields d =>
      obtain ⟨fs, hstored, hdraws⟩ := hb.object hd hi
      rw [hstored]
      simp only [Option.getD_some, SchemaType.sdl, fieldsSdl_of_draws hdraws, Except.map,
        DefinedType.sdl]

omit hb in
/-- The root of a schema is called as it was asked for. -/
theorem Built.name?_query {root : String} (hb : Built nodes options rs (.named root) s schema) :
    (s.store.instances[schema.query]?.getD default).name? = some root := by
  obtain ⟨h, found, visited, hg, -, hquery, -⟩ := hb.toured
  obtain ⟨j, hreads⟩ := hg.reads_of_whole hb.still hb.whole .refl
  cases hreads with
  | named hs hname =>
      have hnamed := namedInstance_of_name hs.stored (wrapped?_of_name hname)
      rw [get_of_shows hs, Except.bind, hnamed, Except.ok.injEq] at hquery
      rw [← hquery, hs.stored]
      exact hname

omit hb in
/-- **The text of a schema is the one that the definitions determine.** -/
theorem Built.sdl {root : String} (hb : Built nodes options rs (.named root) s schema) :
    schema.sdl s.store = .ok (nodes.sdlOf root (Dictionary.names schema.types)) := by
  have hblocks := blocks_eq fun p hp =>
    hb.block ((Dictionary.mem_iff_find? hb.nodup_names p.1 p.2).1 hp)
  have hroot : rootBlock (s.store.instances[schema.query]?.getD default)
      = rootBlock ⟨.object root [], none⟩ := by
    rw [rootBlock, hb.name?_query]
    rfl
  rw [Schema.sdl, hblocks, hroot]
  rfl

end Built

/-- The text of the node type that refers to itself, and of its query object. -/
example : pages.sdlOf queryName ["Page", "Query"]
    = "\"\"\"A page.\"\"\"\ntype Page \x7b\n  next: Page\n  links: [Page!]\n\x7d\n\n"
      ++ "type Query \x7b\n  \"Look up a single Page\"\n  page: Page\n"
      ++ "  \"Every Page\"\n  allPage: [Page!]!\n\x7d\n" := by
  decide +kernel

/-! ### Calls before -/

section Calls

variable {R : TypeSetup} {fuel : Nat}

/-- What every request keeps that comes to its end, whatever its result. -/
def Kept (R : TypeSetup) (P : List Request → TypeState → Prop) : Prop :=
  ∀ {rs : List Request} {s s' : TypeState} {fuel : Nat} {r : Request}
    {answer : Except SchemaError Handle}, P rs s → request R fuel r s = (answer, s') →
    answer ≠ .error .unfinished → P (r :: rs) s'

section Kept

variable {P : List Request → TypeState → Prop} (hP : Kept R P) (hs : P rs s)

include hP hs

/-- It is kept by a request whose answer is read further. -/
theorem Kept.bind {β : Type} (read : Handle → Except SchemaError β)
    (hanswer : (request R fuel r s).1.bind read ≠ .error .unfinished) :
    P (r :: rs) (request R fuel r s).2 := by
  rcases hreq : request R fuel r s with ⟨answer, s'⟩
  rw [hreq] at hanswer
  refine hP hs hreq fun he => hanswer ?_
  rw [he]
  rfl

/-- It is kept by several requests in order, of which those were made that came first. -/
theorem Kept.prewarm {new : List Request} {answer : Except SchemaError (List Handle)}
    (h : prewarm R fuel new s = (answer, s')) (hanswer : answer ≠ .error .unfinished) :
    ∃ rs', rs' ⊆ new ++ rs ∧ P rs' s' := by
  induction new generalizing rs s answer s' with
  | nil =>
      simp only [SchemaGraph.prewarm, Prod.mk.injEq] at h
      obtain ⟨-, rfl⟩ := h
      exact ⟨rs, List.Subset.refl _, hs⟩
  | cons r new ih =>
      rcases prewarm_cons_eq h with ⟨e, hreq, rfl⟩ | ⟨x, s₁, others, hreq, hlast, rfl⟩
      · have hlater := hP hs hreq fun he => hanswer (congrArg _ (Except.error.inj he))
        exact ⟨r :: rs, List.cons_subset_cons _ (List.subset_append_right _ _), hlater⟩
      · have hothers : others ≠ .error .unfinished := by
          rintro rfl
          exact hanswer rfl
        obtain ⟨rs', hsub, hlater⟩ := ih (hP hs hreq (by simp)) hlast hothers
        exact ⟨rs', List.Subset.trans hsub List.perm_middle.subset, hlater⟩

end Kept

/-- No call is in progress after a request that came to its end. -/
theorem rest_of_request : Kept R (AtRest R) := by
  intro rs s s' fuel r answer hs h hanswer
  rcases hres : Registry.resolve R fuel r s with ⟨reply, s''⟩
  simp only [request, hres, Prod.mk.injEq] at h
  obtain ⟨rfl, rfl⟩ := h
  refine hs.resolve hres fun hreply => hanswer ?_
  rw [hreply]
  rfl

theorem replyResult_ne_unfinished {reply : Registry.Reply TypeFault} (h : reply ≠ .unfinished) :
    replyResult reply ≠ .error .unfinished := by
  cases reply with
  | answer a => cases a <;> nofun
  | panicked message => nofun
  | unfinished => exact absurd rfl h

/-- A request to a registry of node types comes to its end, and more steps change nothing. -/
theorem request_ends (hrest : AtRest (nodes.setup options) rs s) (r : Request) :
    ∃ n answer s', answer ≠ .error .unfinished ∧ AtRest (nodes.setup options) (r :: rs) s' ∧
      ∀ fuel, n ≤ fuel → request (nodes.setup options) fuel r s = (answer, s') := by
  obtain ⟨K, Q, hQ, hfinitary⟩ := nodes.exists_finitary options r
  obtain ⟨n, hreply, -, -, hmore⟩ := Registry.resolve_ends hfinitary hQ
    hrest.reachable hrest.outside hrest.idle
  rcases hres : Registry.resolve (nodes.setup options) n r s with ⟨reply, s'⟩
  rw [hres] at hreply
  have hrequest : ∀ fuel, n ≤ fuel →
      request (nodes.setup options) fuel r s = (replyResult reply, s') := by
    intro fuel hfuel
    rw [request, hmore fuel hfuel, hres]
  have hanswer := replyResult_ne_unfinished hreply
  exact ⟨n, _, s', hanswer, rest_of_request hrest (hrequest n le_rfl) hanswer, hrequest⟩

/-- So do several requests in order. -/
theorem prewarm_ends (hrest : AtRest (nodes.setup options) rs s) (new : List Request) :
    ∃ n answer s', answer ≠ .error .unfinished ∧
      ∀ fuel, n ≤ fuel → prewarm (nodes.setup options) fuel new s = (answer, s') := by
  induction new generalizing rs s with
  | nil => exact ⟨0, .ok [], s, by simp, fun _ _ => rfl⟩
  | cons r new ih =>
      obtain ⟨n, answer, s₁, hanswer, hrest₁, hrequest⟩ := request_ends hrest r
      cases answer with
      | error e =>
          refine ⟨n, .error e, s₁, fun he => hanswer (congrArg _ (Except.error.inj he)), ?_⟩
          intro fuel hfuel
          rw [prewarm, hrequest fuel hfuel]
      | ok h =>
          obtain ⟨m, others, s₂, hothers, hprewarm⟩ := ih hrest₁
          refine ⟨max n m, others.map (h :: ·), s₂, ?_, fun fuel hfuel => ?_⟩
          · cases others with
            | error e => exact fun he => hothers (congrArg _ (Except.error.inj he))
            | ok hs => simp [Except.map]
          · rw [prewarm, hrequest fuel (le_of_max_le_left hfuel)]
            simp only [hprewarm fuel (le_of_max_le_right hfuel)]

/-- A registry of node types after calls of a single thread, each made after the one before came to
its end, whatever its result; and the requests that were made, the last first.  Handles are cloned
and dropped between the calls, and by the factories in the middle of a call, as when a factory fails
that holds some. -/
inductive Earlier (R : TypeSetup) : List Request → TypeState → Prop where
  | start : Earlier R [] NodeTypes.start
  | call {rs : List Request} {s s' : TypeState} (r : Request) : Earlier R rs s →
      Proceeds R 0 (s.call R 0 r) s' → s'.isIdle 0 = true → Earlier R (r :: rs) s'
  | clone {rs : List Request} {s : TypeState} (q : SlotId) : Earlier R rs s →
      0 < s.store.handles q → Earlier R rs (s.withStore (s.store.share q))
  | drop {rs : List Request} {s : TypeState} (q : SlotId) : Earlier R rs s →
      0 < s.store.handles q → Earlier R rs (s.withStore (s.store.release q))

/-- No call is in progress after any of them. -/
theorem Earlier.rest (h : Earlier R rs s) : AtRest R rs s := by
  induction h with
  | start => exact .initial R () 0
  | call r _ hproceeds hidle ih => exact ih.call hproceeds hidle
  | clone q _ hq ih => exact ih.clone hq
  | drop q _ hq ih => exact ih.drop hq

/-- A request that comes to its end can follow any calls. -/
theorem Earlier.resolve : Kept R (Earlier R) := by
  intro rs s s' fuel r answer h hreq hanswer
  simp only [request, Prod.mk.injEq] at hreq
  obtain ⟨rfl, rfl⟩ := hreq
  refine .call r h (Proceeds.refl.runThread fuel) (Registry.State.isIdle_of_reply fun hreply => ?_)
  refine hanswer ?_
  rw [show (Registry.resolve R fuel r s).1 = .unfinished from hreply]
  rfl

/-- So can one for an instance. -/
theorem Earlier.instance {answer : Except SchemaError InstanceId} (h : Earlier R rs s)
    (hreq : requestInstance R fuel r s = (answer, s')) (hanswer : answer ≠ .error .unfinished) :
    Earlier R (r :: rs) s' := by
  simp only [requestInstance, Prod.mk.injEq] at hreq
  obtain ⟨rfl, rfl⟩ := hreq
  exact Kept.bind Earlier.resolve h _ hanswer

/-- So can several in order. -/
theorem Earlier.prewarm {new : List Request} {answer : Except SchemaError (List Handle)}
    (h : Earlier R rs s) (hnew : SchemaGraph.prewarm R fuel new s = (answer, s'))
    (hanswer : answer ≠ .error .unfinished) : ∃ rs', rs' ⊆ new ++ rs ∧ Earlier R rs' s' :=
  Kept.prewarm Earlier.resolve h hnew hanswer

/-- So can one for a schema. -/
theorem Earlier.build {answer : Except SchemaError Schema} (h : Earlier R rs s)
    (hbuild : Schema.build R fuel r s = (answer, s')) (hanswer : answer ≠ .error .unfinished) :
    Earlier R (r :: rs) s' := by
  simp only [Schema.build, Prod.mk.injEq] at hbuild
  obtain ⟨rfl, rfl⟩ := hbuild
  exact Kept.bind Earlier.resolve h _ hanswer

/-- Any request can be made next: it comes to its end. -/
theorem Earlier.next (h : Earlier (nodes.setup options) rs s) (r : Request) :
    ∃ s', Earlier (nodes.setup options) (r :: rs) s' := by
  obtain ⟨n, answer, s', hanswer, -, hrequest⟩ := request_ends h.rest r
  exact ⟨s', Earlier.resolve h (hrequest n le_rfl) hanswer⟩

end Calls

/-! ### Texts and histories -/

/-- The schema at a root is built and has a text. -/
def Renders (R : TypeSetup) (r : Request) (s : TypeState) (text : String) : Prop :=
  ∃ fuel schema s', Schema.build R fuel r s = (.ok schema, s') ∧ schema.sdl s'.store = .ok text

/-- If there is a type for all that its root uses, a schema has a text. -/
theorem renders_of_whole (hs : nodes.Sound) (hrest : AtRest (nodes.setup options) rs s)
    (hrs : ∀ r ∈ rs, r.identifier.Distinct)
    (hapart : Apart (nodes.setup options) (nodes.reference (.named name) :: rs))
    (hwhole : nodes.Whole (.named name)) : ∃ names, nodes.Listed (.named name) names ∧
      Renders (nodes.setup options) (nodes.reference (.named name)) s (nodes.sdlOf name names) := by
  obtain ⟨fuel, schema, s', hbuild⟩ := build_of_whole hs hrest hrs hapart hwhole
  have hb := built_of_build hs hrest hrs hapart hbuild
  exact ⟨_, hb.listed, fuel, schema, s', hbuild, hb.sdl⟩

/-- **When a schema has a text, and which**: when there is a type for all that its root uses, the
text that the definitions determine. -/
theorem renders_iff (hs : nodes.Sound) (hrest : AtRest (nodes.setup options) rs s)
    (hrs : ∀ r ∈ rs, r.identifier.Distinct)
    (hapart : Apart (nodes.setup options) (nodes.reference (.named name) :: rs)) (text : String) :
    Renders (nodes.setup options) (nodes.reference (.named name)) s text ↔
      nodes.Whole (.named name) ∧
        ∃ names, nodes.Listed (.named name) names ∧ text = nodes.sdlOf name names := by
  constructor
  · rintro ⟨fuel, schema, s', hbuild, hsdl⟩
    have hb := built_of_build hs hrest hrs hapart hbuild
    rw [hb.sdl, Except.ok.injEq] at hsdl
    exact ⟨hb.whole, _, hb.listed, hsdl.symm⟩
  · rintro ⟨hwhole, names, hlisted, rfl⟩
    obtain ⟨names', hlisted', hrenders⟩ := renders_of_whole hs hrest hrs hapart hwhole
    rwa [hlisted.unique hlisted']

/-- **The text of a schema does not depend on the history of the registry.**  After any calls of a
single thread, whether they succeeded or failed, and whichever handles were cloned and dropped in
between and meanwhile, the schema at a root is built and written if and only if it is in a fresh
registry, and then both texts are equal. -/
theorem sdl_independent_of_history (hs : nodes.Sound) (hearlier : Earlier (nodes.setup options) rs s)
    (hrs : ∀ r ∈ rs, r.identifier.Distinct) (hroot : nodes.IsRoot r)
    (hapart : Apart (nodes.setup options) (r :: rs)) :
    ((∃ text, Renders (nodes.setup options) r s text) ↔
      ∃ text, Renders (nodes.setup options) r NodeTypes.start text) ∧
    ∀ text text', Renders (nodes.setup options) r s text →
      Renders (nodes.setup options) r NodeTypes.start text' → text = text' := by
  obtain ⟨name, rfl⟩ := hroot.exists_named hs
  have hlater := renders_iff hs hearlier.rest hrs hapart
  have hfresh := renders_iff hs (.initial (nodes.setup options) () 0) nofun
    (hapart.subset (List.cons_subset_cons _ (List.nil_subset rs)))
  refine ⟨exists_congr fun text => (hlater text).trans (hfresh text).symm, fun text text' h h' => ?_⟩
  obtain ⟨-, names, hlisted, rfl⟩ := (hlater text).1 h
  obtain ⟨-, names', hlisted', rfl⟩ := (hfresh text').1 h'
  rw [hlisted.unique hlisted']

/-- The object of the node type that refers to itself, and a type that is missing. -/
def pageHistory : List Request :=
  [pages.reference (.named "Page"), pages.reference (.named "Missing")]

/-- The schema has one text before and after these calls, of which one handle was cloned and dropped
again. -/
theorem pages_text_independent : ∃ answer s text,
    prewarm (pages.setup {}) 60 pageHistory NodeTypes.start = (answer, s) ∧
      0 < s.store.handles 0 ∧
      Renders (pages.setup {}) ⟨.bare queryName, none⟩
        (s.withStore ((s.store.share 0).release 0)) text ∧
      Renders (pages.setup {}) ⟨.bare queryName, none⟩ NodeTypes.start text := by
  obtain ⟨hended, hheld, hheld'⟩ : (prewarm (pages.setup {}) 60 pageHistory NodeTypes.start).1
        ≠ .error .unfinished ∧
      0 < (prewarm (pages.setup {}) 60 pageHistory NodeTypes.start).2.store.handles 0 ∧
      0 < ((prewarm (pages.setup {}) 60 pageHistory NodeTypes.start).2.store.share 0).handles 0 := by
    decide +kernel
  rcases hp : prewarm (pages.setup {}) 60 pageHistory NodeTypes.start with ⟨answer, s⟩
  rw [hp] at hended hheld hheld'
  obtain ⟨made, hsub, hearlier⟩ := Earlier.prewarm .start hp hended
  rw [List.append_nil] at hsub
  have hrs : ∀ r ∈ pageHistory, r.identifier.Distinct :=
    List.forall_mem_cons.2 ⟨pages.distinct_reference _,
      List.forall_mem_singleton.2 (pages.distinct_reference _)⟩
  have hapart : Apart (pages.setup {}) [pages.reference (.named queryName)] :=
    apart_pages.subset (List.cons_subset_cons _ (List.nil_subset _))
  obtain ⟨names, -, hfresh⟩ := renders_of_whole sound_pages (.initial (pages.setup {}) () 0) nofun
    hapart whole_pages
  have hsame := sdl_independent_of_history sound_pages ((hearlier.clone 0 hheld).drop 0 hheld')
    (fun r hr => hrs r (hsub hr)) (Or.inl rfl) (apart_pages.subset (List.cons_subset_cons _ hsub))
  obtain ⟨text, hlater⟩ := hsame.1.2 ⟨_, hfresh⟩
  obtain rfl := hsame.2 _ _ hlater hfresh
  exact ⟨answer, s, _, rfl, hheld, hlater, hfresh⟩

end SchemaGraph
