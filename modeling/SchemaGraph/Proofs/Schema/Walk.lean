/-
**What a walk finds, and what a handle reads as.**

A walk that ends without an error has visited a handle of each key that it was to see: handles that
lead to types, whose own handles were visited in turn.  The names of the visited types are what it
has found, each with one instance.  It ends without an error when everything that can be reached
leads to a type, and no name to two instances.

Followed through wrappers, a handle reads as an expression.  Wrappers are followed only so often,
but no wrapper is reached twice on the way, so that is often enough.

Main definitions:

* `Shows`, `Reached` — a handle leads to a type, and can be reached from others;
* `Toured` — what a walk has visited and found;
* `TypeExpr.depth`, `Reads` — the wrappers of an expression, and what a handle reads as.

Main results:

* `walk_toured` — **what is visited is closed, and its names are what is found**;
* `walk_ok` — a walk ends without an error when nothing stands in its way;
* `exprWithin_of_reads`, `namedWithin_of_reads` — wrappers are followed to their end;
* `Reads.depth_lt` — **there are more instances than an expression has wrappers**.
-/

import Mathlib.Data.List.Nodup
import Mathlib.Data.List.Perm.Basic
import SchemaGraph.Schema.Sdl

set_option autoImplicit false

namespace SchemaGraph

open Registry (Handle InstanceId)

variable {S : TypeStore} {unseen : List Key} {found found' : Dictionary String InstanceId}
  {pending visited : List Handle} {h h' : Handle} {i j : InstanceId} {t t' : SchemaType}
  {name : String}

/-! ### Handles and types -/

/-- A handle leads to an instance, which is a type. -/
structure Shows (S : TypeStore) (h : Handle) (i : InstanceId) (t : SchemaType) : Prop where
  leads : h.get? S = some i
  stored : S.instances[i]? = some t

/-- A handle leads to one type. -/
theorem Shows.unique (hs : Shows S h i t) (hs' : Shows S h j t') : i = j ∧ t = t' := by
  obtain rfl : i = j := Option.some.inj (hs.leads.symm.trans hs'.leads)
  exact ⟨rfl, Option.some.inj (hs.stored.symm.trans hs'.stored)⟩

/-- A handle can be reached from others, through the types that they lead to. -/
inductive Reached (S : TypeStore) (entries : List Handle) : Handle → Prop where
  | entry {h : Handle} : h ∈ entries → Reached S entries h
  | through {h h' : Handle} {i : InstanceId} {t : SchemaType} :
      Reached S entries h → Shows S h i t → h' ∈ t.handles → Reached S entries h'

/-- What can be reached from what can be reached can be reached. -/
theorem Reached.trans {entries : List Handle} (hr : Reached S pending h)
    (hp : ∀ h ∈ pending, Reached S entries h) : Reached S entries h := by
  induction hr with
  | entry hh => exact hp _ hh
  | through _ hs hh' ih => exact .through ih hs hh'

/-- What is reached after a visit was reached before it. -/
theorem Reached.visit {rest : List Handle} (hs : Shows S h i t)
    (hr : Reached S (t.handles ++ rest) h') : Reached S (h :: rest) h' := by
  refine hr.trans fun x hx => ?_
  rcases List.mem_append.1 hx with hx | hx
  · exact .through (.entry List.mem_cons_self) hs hx
  · exact .entry (List.mem_cons_of_mem _ hx)

theorem Reached.skip {rest : List Handle} (hr : Reached S rest h') :
    Reached S (h :: rest) h' :=
  hr.trans fun _ hx => .entry (List.mem_cons_of_mem _ hx)

/-! ### What a walk has visited -/

/-- A walk is to see the keys of all handles that instances hold. -/
theorem key_mem_storedKeys (ht : S.instances[i]? = some t) (hmem : h ∈ t.handles) :
    h.key ∈ storedKeys S :=
  List.mem_flatMap.2
    ⟨t, Array.mem_toList_iff.2 (Array.mem_of_getElem? ht), List.mem_map_of_mem hmem⟩

/-- What a walk has visited, and what it has found. -/
structure Toured (S : TypeStore) (unseen : List Key) (found found' : Dictionary String InstanceId)
    (pending visited : List Handle) : Prop where
  /-- the keys that are pending were visited -/
  covers : ∀ h ∈ pending, h.key ∈ unseen → ∃ v ∈ visited, v.key = h.key
  reached : ∀ h ∈ visited, Reached S pending h
  /-- the keys of the types that were visited were visited -/
  closed : ∀ h ∈ visited, ∃ i t, Shows S h i t ∧
    ∀ h' ∈ t.handles, h'.key ∈ unseen → ∃ v ∈ visited, v.key = h'.key
  /-- their names were found -/
  found_iff : ∀ name i, Dictionary.find? name found' = some i ↔
    Dictionary.find? name found = some i ∨
      ∃ h ∈ visited, ∃ t, Shows S h i t ∧ t.name? = some name
  nodup : (Dictionary.names found).Nodup → (Dictionary.names found').Nodup

theorem toured_nil (S : TypeStore) (unseen : List Key) (found : Dictionary String InstanceId) :
    Toured S unseen found found [] [] where
  covers h hh := absurd hh List.not_mem_nil
  reached h hh := absurd hh List.not_mem_nil
  closed h hh := absurd hh List.not_mem_nil
  found_iff name i := by simp
  nodup h := h

theorem Toured.skip {rest : List Handle} (ht : Toured S unseen found found' rest visited)
    (hseen : h.key ∉ unseen) : Toured S unseen found found' (h :: rest) visited where
  covers x hx hu := by
    rcases List.mem_cons.1 hx with rfl | hx
    · exact absurd hu hseen
    · exact ht.covers x hx hu
  reached x hx := (ht.reached x hx).skip
  closed := ht.closed
  found_iff := ht.found_iff
  nodup := ht.nodup

/-- What was found after an instance was entered. -/
theorem find?_of_enter? (he : enter? found i t = .ok found') (name : String) (j : InstanceId) :
    Dictionary.find? name found' = some j ↔
      Dictionary.find? name found = some j ∨ j = i ∧ t.name? = some name := by
  cases hn : t.name? with
  | none =>
      obtain rfl : found = found' := by simpa [enter?, hn] using he
      simp
  | some n =>
      rcases (enter?_eq_ok_iff hn).1 he with ⟨hnone, rfl⟩ | ⟨hsome, rfl⟩
      · rw [Dictionary.find?_set]
        by_cases hname : n = name
        · subst hname
          simp [hnone, eq_comm]
        · simp [hname]
      · rw [Option.some.injEq]
        refine ⟨Or.inl, ?_⟩
        rintro (h | ⟨rfl, rfl⟩)
        · exact h
        · exact hsome

theorem nodup_of_enter? (he : enter? found i t = .ok found')
    (h : (Dictionary.names found).Nodup) : (Dictionary.names found').Nodup := by
  cases hn : t.name? with
  | none =>
      obtain rfl : found = found' := by simpa [enter?, hn] using he
      exact h
  | some n =>
      rcases (enter?_eq_ok_iff hn).1 he with ⟨-, rfl⟩ | ⟨-, rfl⟩
      · exact Dictionary.nodup_names_set h _ _
      · exact h

/-- A handle is visited, and then those of its type. -/
theorem Toured.visit {rest : List Handle} {entered : Dictionary String InstanceId}
    (hs : Shows S h i t) (he : enter? found i t = .ok entered)
    (ht : Toured S (without h.key unseen) entered found' (t.handles ++ rest) visited) :
    Toured S unseen found found' (h :: rest) (h :: visited) := by
  -- a key is that of the handle, or is left to be seen
  have hcovers : ∀ x : Handle, (x.key ∈ without h.key unseen → ∃ v ∈ visited, v.key = x.key) →
      x.key ∈ unseen → ∃ v ∈ h :: visited, v.key = x.key := by
    intro x hx hu
    by_cases hkey : x.key = h.key
    · exact ⟨h, List.mem_cons_self, hkey.symm⟩
    · obtain ⟨v, hv, hvx⟩ := hx (mem_without.2 ⟨hu, hkey⟩)
      exact ⟨v, List.mem_cons_of_mem _ hv, hvx⟩
  refine ⟨fun x hx hu => ?_, ?_, ?_, fun name j => ?_, fun hn => ht.nodup (nodup_of_enter? he hn)⟩
  · rcases List.mem_cons.1 hx with rfl | hx
    · exact ⟨x, List.mem_cons_self, rfl⟩
    · exact hcovers x (ht.covers x (List.mem_append_right _ hx)) hu
  · exact List.forall_mem_cons.2 ⟨.entry List.mem_cons_self, fun x hx => (ht.reached x hx).visit hs⟩
  · refine List.forall_mem_cons.2 ⟨⟨i, t, hs, fun x hx => ?_⟩, fun x hx => ?_⟩
    · exact hcovers x (ht.covers x (List.mem_append_left _ hx))
    · obtain ⟨i', t', hs', hclosed⟩ := ht.closed x hx
      exact ⟨i', t', hs', fun y hy => hcovers y (hclosed y hy)⟩
  · rw [ht.found_iff, find?_of_enter? he]
    constructor
    · rintro ((hold | ⟨rfl, hname⟩) | ⟨x, hx, hshown⟩)
      · exact Or.inl hold
      · exact Or.inr ⟨h, List.mem_cons_self, t, hs, hname⟩
      · exact Or.inr ⟨x, List.mem_cons_of_mem _ hx, hshown⟩
    · rintro (hold | ⟨x, hx, t', hs', hname⟩)
      · exact Or.inl (Or.inl hold)
      · rcases List.mem_cons.1 hx with rfl | hx
        · obtain ⟨rfl, rfl⟩ := hs.unique hs'
          exact Or.inl (Or.inr ⟨rfl, hname⟩)
        · exact Or.inr ⟨x, hx, t', hs', hname⟩

/-- **What a walk visits is closed, and its names are what the walk finds.** -/
theorem walk_toured (hw : walk S unseen found pending = .ok found') :
    ∃ visited, Toured S unseen found found' pending visited := by
  induction unseen, found, pending using walk.induct S with
  | case1 unseen found =>
      obtain rfl : found = found' := by simpa [walk] using hw
      exact ⟨[], toured_nil S unseen found⟩
  | case2 unseen found h rest hu hnone => simp [walk, hu, hnone] at hw
  | case3 unseen found h rest hu i hi hnone => simp [walk, hu, hi, hnone] at hw
  | case4 unseen found h rest hu i hi t ht e he => simp [walk, hu, hi, ht, he] at hw
  | case5 unseen found h rest hu i hi t ht entered he ih =>
      rw [walk] at hw
      simp only [hu, hi, ht, he, if_true] at hw
      obtain ⟨visited, htoured⟩ := ih hw
      exact ⟨_, htoured.visit ⟨hi, ht⟩ he⟩
  | case6 unseen found h rest hu ih =>
      rw [walk_of_seen hu] at hw
      obtain ⟨visited, htoured⟩ := ih hw
      exact ⟨_, htoured.skip hu⟩

/-! ### When a walk ends without an error -/

/-- Nothing stands in the way of a walk: everything that can be reached leads to a type, and no name
to two instances. -/
structure Clear (S : TypeStore) (found : Dictionary String InstanceId) (pending : List Handle) :
    Prop where
  shows : ∀ {h}, Reached S pending h → ∃ i t, Shows S h i t
  single : ∀ {h h' i j t t' name}, Reached S pending h → Reached S pending h' → Shows S h i t →
    Shows S h' j t' → t.name? = some name → t'.name? = some name → i = j
  agrees : ∀ {h i j t name}, Reached S pending h → Shows S h i t → t.name? = some name →
    Dictionary.find? name found = some j → i = j

/-- **A walk ends without an error when nothing stands in its way.** -/
theorem walk_ok (hc : Clear S found pending) : ∃ found', walk S unseen found pending = .ok found' := by
  induction unseen, found, pending using walk.induct S with
  | case1 unseen found => exact ⟨found, by rw [walk]⟩
  | case2 unseen found h rest hu hnone =>
      obtain ⟨i, t, hs⟩ := hc.shows (.entry List.mem_cons_self)
      rw [hs.leads] at hnone
      cases hnone
  | case3 unseen found h rest hu i hi hnone =>
      obtain ⟨j, t, hs⟩ := hc.shows (.entry List.mem_cons_self)
      obtain rfl := Option.some.inj (hi.symm.trans hs.leads)
      rw [hs.stored] at hnone
      cases hnone
  | case4 unseen found h rest hu i hi t ht e he =>
      -- the name is free, or the name of the same instance
      cases hn : t.name? with
      | none => simp [enter?, hn] at he
      | some name =>
          cases hf : Dictionary.find? name found with
          | none => simp [enter?, hn, hf] at he
          | some j =>
              have hij := hc.agrees (.entry List.mem_cons_self) ⟨hi, ht⟩ hn hf
              simp [enter?, hn, hf, hij] at he
  | case5 unseen found h rest hu i hi t ht entered he ih =>
      have hs : Shows S h i t := ⟨hi, ht⟩
      have hc' : Clear S entered (t.handles ++ rest) := by
        refine ⟨fun hr => hc.shows (hr.visit hs), fun hr hr' => hc.single (hr.visit hs) (hr'.visit hs),
          fun {x i' j' t' name} hr hs' hname hj => ?_⟩
        rcases (find?_of_enter? he name j').1 hj with hold | ⟨rfl, hname'⟩
        · exact hc.agrees (hr.visit hs) hs' hname hold
        · exact hc.single (hr.visit hs) (.entry List.mem_cons_self) hs' hs hname hname'
      obtain ⟨found', hw⟩ := ih hc'
      refine ⟨found', ?_⟩
      rw [walk]
      simp only [hu, hi, ht, he, if_true]
      exact hw
  | case6 unseen found h rest hu ih =>
      obtain ⟨found', hw⟩ := ih ⟨fun hr => hc.shows hr.skip, fun hr hr' => hc.single hr.skip hr'.skip,
        fun hr => hc.agrees hr.skip⟩
      exact ⟨found', by rw [walk_of_seen hu, hw]⟩

/-! ### What a handle reads as -/

/-- How many wrappers an expression has. -/
def TypeExpr.depth : TypeExpr → Nat
  | .named _ => 0
  | .list of | .nonNull of => of.depth + 1

/-- A handle reads as an expression: it leads through the wrappers of the expression to an instance
with its name. -/
inductive Reads (S : TypeStore) : Handle → TypeExpr → InstanceId → Prop where
  | named {h : Handle} {i : InstanceId} {t : SchemaType} {name : String} :
      Shows S h i t → t.name? = some name → Reads S h (.named name) i
  | list {h of : Handle} {i j : InstanceId} {d : Option String} {e : TypeExpr} :
      Shows S h i ⟨.list of, d⟩ → Reads S of e j → Reads S h (.list e) j
  | nonNull {h of : Handle} {i j : InstanceId} {d : Option String} {e : TypeExpr} :
      Shows S h i ⟨.nonNull of, d⟩ → Reads S of e j → Reads S h (.nonNull e) j

variable {e : TypeExpr} {n : Nat}

theorem Reads.shows (hr : Reads S h e j) : ∃ i t, Shows S h i t := by
  cases hr with
  | named hs => exact ⟨_, _, hs⟩
  | list hs => exact ⟨_, _, hs⟩
  | nonNull hs => exact ⟨_, _, hs⟩

theorem typeOf_of_shows (hs : Shows S h i t) : typeOf S h = .ok t := by
  simp only [typeOf, hs.leads, hs.stored]

theorem get_of_shows (hs : Shows S h i t) : (h.get S : Except TypeError InstanceId) = .ok i := by
  simp only [Handle.get, hs.leads]

/-- Wrappers are followed to the name. -/
theorem exprWithin_of_reads (hr : Reads S h e j) (hs : Shows S h i t) (hn : e.depth ≤ n) :
    exprWithin S n t = .ok e := by
  induction hr generalizing i t n with
  | named hs' hname =>
      obtain ⟨-, rfl⟩ := hs.unique hs'
      exact exprWithin_of_name hname S n
  | list hs' hr ih | nonNull hs' hr ih =>
      obtain ⟨-, rfl⟩ := hs.unique hs'
      obtain ⟨i', t', hof⟩ := hr.shows
      cases n with
      | zero => exact absurd hn (Nat.not_succ_le_zero _)
      | succ n =>
          have hinner := ih hof (Nat.le_of_succ_le_succ hn)
          simp only [exprWithin, exprVia, typeOf_of_shows hof, Except.bind, hinner]
          rfl

theorem wrapped?_of_name (h : t.name? = some name) : t.wrapped? = none :=
  (t.name?_isSome_iff).1 (by rw [h]; rfl)

/-- Wrappers are followed to the instance under all of them. -/
theorem namedWithin_of_reads (hr : Reads S h e j) (hs : Shows S h i t) (hn : e.depth ≤ n) :
    namedWithin S n i = .ok j := by
  induction hr generalizing i t n with
  | named hs' hname =>
      obtain ⟨rfl, rfl⟩ := hs.unique hs'
      cases n <;> exact namedVia_of_name hs.stored (wrapped?_of_name hname) _
  | list hs' hr ih | nonNull hs' hr ih =>
      obtain ⟨rfl, rfl⟩ := hs.unique hs'
      obtain ⟨i', t', hof⟩ := hr.shows
      cases n with
      | zero => exact absurd hn (Nat.not_succ_le_zero _)
      | succ n =>
          have hinner := ih hof (Nat.le_of_succ_le_succ hn)
          simp only [namedWithin, namedVia, hs.stored, Option.bind_some, SchemaType.wrapped?,
            get_of_shows hof, Except.bind, hinner]

/-- Under the wrappers lies a type with the name. -/
theorem Reads.bottom (hr : Reads S h e j) : ∃ h' t, Reached S [h] h' ∧ Shows S h' j t ∧
    t.name? = some e.root := by
  induction hr with
  | named hs hname => exact ⟨_, _, .entry List.mem_cons_self, hs, hname⟩
  | @list h of i j d e hs hr ih =>
      obtain ⟨h', t, hreach, hs', hname⟩ := ih
      refine ⟨h', t, hreach.trans fun x hx => ?_, hs', hname⟩
      obtain rfl := List.mem_singleton.1 hx
      exact .through (.entry List.mem_cons_self) hs (List.mem_singleton.2 rfl)
  | @nonNull h of i j d e hs hr ih =>
      obtain ⟨h', t, hreach, hs', hname⟩ := ih
      refine ⟨h', t, hreach.trans fun x hx => ?_, hs', hname⟩
      obtain rfl := List.mem_singleton.1 hx
      exact .through (.entry List.mem_cons_self) hs (List.mem_singleton.2 rfl)

/-! ### How deep an expression is -/

/-- Handles that lead to one instance read as one expression. -/
theorem Reads.unique {e' : TypeExpr} {j' : InstanceId} (hr : Reads S h e j)
    (hr' : Reads S h' e' j') (hs : Shows S h i t) (hs' : Shows S h' i t') : e = e' := by
  obtain rfl : t = t' := Option.some.inj (hs.stored.symm.trans hs'.stored)
  have hexpr := exprWithin_of_reads hr hs (Nat.le_max_left e.depth e'.depth)
  rw [exprWithin_of_reads hr' hs' (Nat.le_max_right e.depth e'.depth), Except.ok.injEq] at hexpr
  exact hexpr.symm

/-- Instances of an expression and of all that it wraps, one for each. -/
structure Layers (S : TypeStore) (e : TypeExpr) (is : List InstanceId) : Prop where
  length : is.length = e.depth + 1
  nodup : is.Nodup
  reads : ∀ i ∈ is, ∃ h e' j t, e'.depth ≤ e.depth ∧ Shows S h i t ∧ Reads S h e' j

/-- The instance of a wrapper is none of those of what it wraps. -/
theorem Layers.wrap {of : TypeExpr} {is : List InstanceId} (hl : Layers S of is)
    (hr : Reads S h e j) (hs : Shows S h i t) (hdepth : e.depth = of.depth + 1) :
    Layers S e (i :: is) where
  length := by rw [List.length_cons, hl.length, hdepth]
  nodup := by
    refine List.nodup_cons.2 ⟨fun hi => ?_, hl.nodup⟩
    obtain ⟨x, e', j', t', hle, hs', hr'⟩ := hl.reads i hi
    obtain rfl := hr.unique hr' hs hs'
    omega
  reads := by
    refine List.forall_mem_cons.2 ⟨⟨h, e, j, t, Nat.le_refl _, hs, hr⟩, fun k hk => ?_⟩
    obtain ⟨x, e', j', t', hle, hs', hr'⟩ := hl.reads k hk
    exact ⟨x, e', j', t', by omega, hs', hr'⟩

theorem Reads.layers (hr : Reads S h e j) : ∃ is, Layers S e is := by
  induction hr with
  | named hs hname =>
      exact ⟨[_], rfl, List.nodup_singleton _, List.forall_mem_singleton.2
        ⟨_, _, _, _, Nat.le_refl _, hs, .named hs hname⟩⟩
  | list hs hr ih =>
      obtain ⟨is, hl⟩ := ih
      exact ⟨_ :: is, hl.wrap (.list hs hr) hs rfl⟩
  | nonNull hs hr ih =>
      obtain ⟨is, hl⟩ := ih
      exact ⟨_ :: is, hl.wrap (.nonNull hs hr) hs rfl⟩

/-- **There are more instances than an expression has wrappers.** -/
theorem Reads.depth_lt (hr : Reads S h e j) : e.depth < S.instances.size := by
  obtain ⟨is, hlen, hnodup, his⟩ := hr.layers
  have hsub : is ⊆ List.range S.instances.size := by
    intro i hi
    obtain ⟨h', e', j', t', -, hs, -⟩ := his i hi
    exact List.mem_range.2 (Array.getElem?_eq_some_iff.1 hs.stored).1
  have hle := (List.subperm_of_subset hnodup hsub).length_le
  rw [hlen, List.length_range] at hle
  exact hle

/-- Wrappers are followed often enough. -/
theorem Reads.namedInstance (hr : Reads S h e j) : (h.get S).bind (namedInstance S) = .ok j := by
  obtain ⟨i, t, hs⟩ := hr.shows
  rw [get_of_shows hs]
  exact namedWithin_of_reads hr hs (Nat.le_of_lt hr.depth_lt)

end SchemaGraph
