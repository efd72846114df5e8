/-
**Instances keep the kind that their factory was registered for.**

A factory is registered with the kind of what it constructs, and the name of an identifier says
which factory that is.  So as long as no two identities of a run have one key, the kind of an
instance is told by the name of any request for it, whichever attempt made the instance and
whichever scope it was made in.  A wrapper without null was told to wrap something else than such a
wrapper, so that what it leads to is of another kind.  And the identity of what a wrapper wraps is a
part of its own identity: it is shorter, and following wrappers comes to an end, in a type with a
name or at a handle that is not ready yet.

Main definitions:

* `Product` — what a factory makes for a request;
* `Follows`, `Ends` — a wrapper leads to what it wraps, and where following wrappers ends.

Main results:

* `name_eq_of_canonical`, `length_canonical_lt` — the canonical identity tells the name, and what is
  wrapped has a shorter one;
* `product_of_reaches` — **what factories make is of their kind**;
* `Ends.lt_size`, `namedWithin_of_ends`, `exprWithin_of_ends` — wrappers are followed often enough;
* `kinds_of_instances` — **the kinds of instances, and where their wrappers end**;
* `twins_mixed_up` — without distinct keys a scalar stands for a wrapper.
-/

import SchemaGraph.Proofs.Hash.Lanes
import SchemaGraph.Proofs.Registry.Confluence
import SchemaGraph.Proofs.Schema.History

set_option autoImplicit false

namespace SchemaGraph

open Registry (Handle InstanceId Request Options Answer Program Yield Reaches Possible Apart Session
  Holds Coherent AtRest)
open Relation (ReflTransGen)

variable {nodes : NodeTypes} {options : Options} {rs : List Request} {ks : List Key}
  {s : TypeState} {r r' : Request} {k : Key} {h : Handle} {i j : InstanceId} {t : SchemaType}
  {f : TypeFactory} {log : List (Request × Answer TypeFault)}

/-! ### What the canonical identity tells -/

/-- The canonical identity tells the name. -/
theorem name_eq_of_canonical (h : r.canonical = r'.canonical) :
    r.identifier.name = r'.identifier.name := by
  rw [Request.canonical, Request.canonical, ← String.toList_inj, toList_canonicalIdentity,
    toList_canonicalIdentity, Identifier.chars_eq, Identifier.chars_eq, List.append_assoc,
    List.append_assoc] at h
  exact String.toList_inj.1 (Text.quotedChars_append_inj h).1

/-- What is joined is no longer than the whole. -/
theorem length_le_intercalate {α : Type} {sep l : List α} {ls : List (List α)} (h : l ∈ ls) :
    l.length ≤ (List.intercalate sep ls).length := by
  have hmem : l ∈ ls.intersperse sep := by
    obtain ⟨i, hi, rfl⟩ := List.mem_iff_getElem.1 h
    rw [@List.getElem_eq_getElem_intersperse_two_mul _ ls sep i hi]
    exact List.getElem_mem _
  rw [List.intercalate]
  exact (List.sublist_flatten_of_mem hmem).length_le

/-- What is wrapped has a shorter canonical identity. -/
theorem length_canonical_lt {of : Identifier} (h : wrappedType r.identifier = .ok of) :
    (Request.canonical ⟨of, r.context⟩).toList.length < r.canonical.toList.length := by
  have hoption : (wrappedOption, Value.type of) ∈ r.identifier.config :=
    Dictionary.mem_of_find? (NodeTypes.wrappedType_eq_ok_iff.1 h)
  have hbare : ¬ r.identifier.isBare = true := fun hb =>
    List.ne_nil_of_mem hoption (List.isEmpty_iff.1 hb)
  have hle : (optionChars (wrappedOption, .type of)).length ≤ (List.intercalate [',']
      ((Dictionary.sorted r.identifier.config).map optionChars)).length :=
    length_le_intercalate (List.mem_map_of_mem (Dictionary.mem_sorted.2 hoption))
  rw [optionChars, Value.chars_type] at hle
  rw [Request.canonical, Request.canonical, toList_canonicalIdentity, toList_canonicalIdentity,
    Identifier.chars_eq r.identifier, if_neg hbare]
  simp only [List.length_append, List.length_cons] at hle ⊢
  omega

/-! ### What factories make -/

/-- What a factory makes for a request. -/
structure Product (nodes : NodeTypes) (r : Request) (log : List (Request × Answer TypeFault))
    (t : SchemaType) : Prop where
  /-- it is of the kind that the factory is registered with -/
  kind : ∃ f, Dictionary.find? r.identifier.name nodes.factories = some f ∧ t.tag = f.tag
  /-- a wrapper holds the answer for what it was told to wrap, which excludes null no more than
  once -/
  wraps : ∀ {h : Handle}, t.wrapped? = some h → ∃ of, wrappedType r.identifier = .ok of ∧
    (⟨of, r.context⟩, .ok h) ∈ log ∧ (t.tag = nonNullTag → of.name ≠ nonNullName)

theorem product_of_plain (hf : Dictionary.find? r.identifier.name nodes.factories = some f)
    (htag : t.tag = f.tag) (hplain : t.wrapped? = none) : Product nodes r log t where
  kind := ⟨f, hf, htag⟩
  wraps hw := by
    rw [hplain] at hw
    cases hw

/-- A wrapper that was told what to wrap. -/
theorem product_of_wrapper {A : Request → Answer TypeFault → Prop} {wrap : Handle → TypeKind}
    {of : Identifier} (hf : Dictionary.find? r.identifier.name nodes.factories = some f)
    (htag : ∀ h, (SchemaType.mk (wrap h) none).tag = f.tag)
    (hwrap : ∀ h, (SchemaType.mk (wrap h) none).wrapped? = some h)
    (hof : wrappedType r.identifier = .ok of) (hnull : f.tag = nonNullTag → of.name ≠ nonNullName)
    (hl : (Program.request ⟨of, r.context⟩ fun h => .done (.new ⟨wrap h, none⟩) : TypeProgram).Leads A
      log (.done (.new t))) : Product nodes r log t := by
  rcases hl.of_request with ⟨-, hd⟩ | ⟨h, rest, -, rfl, hdone⟩ | ⟨e, -, hd⟩
  · cases hd
  · obtain rfl : t = ⟨wrap h, none⟩ := by
      cases hdone
      rfl
    refine ⟨⟨f, hf, htag h⟩, fun {h'} hw => ⟨of, hof, ?_, fun ht => hnull (htag h ▸ ht)⟩⟩
    obtain rfl : h = h' := Option.some.inj ((hwrap h).symm.trans hw)
    exact List.mem_cons_self
  · cases hd

theorem wrapped?_of_enumeration {id : Identifier} (h : enumeration id = .ok t) :
    t.tag = enumTag ∧ t.wrapped? = none := by
  unfold enumeration at h
  cases hname : enumerationName id with
  | error e => simp [hname, Except.bind] at h
  | ok name =>
      cases hvalues : enumerationValues id with
      | error e => simp [hname, hvalues, Except.bind, Except.map] at h
      | ok values =>
          simp only [hname, hvalues, Except.bind, Except.map, Except.ok.injEq] at h
          rw [← h]
          exact ⟨rfl, rfl⟩

theorem wrappedNullable_eq_ok {id of : Identifier} (h : wrappedNullable id = .ok of) :
    wrappedType id = .ok of ∧ of.name ≠ nonNullName := by
  have hof := NodeTypes.wrappedType_of_nullable h
  refine ⟨hof, fun hname => ?_⟩
  simp [wrappedNullable, hof, Except.bind, hname] at h

/-- **What factories make is of the kind that they are registered with.** -/
theorem product_of_reaches {A : Request → Answer TypeFault → Prop}
    (hp : Reaches (nodes.setup options) A r log (.done (.new t))) : Product nodes r log t := by
  obtain ⟨key, f, -, hf, hl⟩ := hp
  replace hf : Dictionary.find? r.identifier.name nodes.factories = some f := hf
  rcases NodeTypes.factory_cases hf with ⟨-, rfl⟩ | hmem
  · cases hl
    exact product_of_plain hf rfl rfl
  simp only [List.mem_cons, Prod.mk.injEq, List.not_mem_nil, or_false] at hmem
  rcases hmem with ⟨-, rfl⟩ | ⟨-, rfl⟩ | ⟨-, rfl⟩ | ⟨-, rfl⟩ | ⟨-, rfl⟩ | ⟨-, rfl⟩
  · cases hl
    exact product_of_plain hf rfl rfl
  · cases ht : enumeration r.identifier with
    | error e =>
        simp only [enumFactory, ht] at hl
        cases hl
    | ok t' =>
        simp only [enumFactory, ht] at hl
        cases hl
        obtain ⟨htag, hplain⟩ := wrapped?_of_enumeration ht
        exact product_of_plain hf htag hplain
  · cases hof : wrappedType r.identifier with
    | error e =>
        simp only [listFactory, hof] at hl
        cases hl
    | ok of =>
        simp only [listFactory, hof, Program.attempt] at hl
        have hlist : listFactory.tag ≠ nonNullTag := by decide
        exact product_of_wrapper hf (fun _ => rfl) (fun _ => rfl) hof (absurd · hlist) hl
  · cases hof : wrappedNullable r.identifier with
    | error e =>
        simp only [nonNullFactory, hof] at hl
        cases hl
    | ok of =>
        obtain ⟨hwrapped, hname⟩ := wrappedNullable_eq_ok hof
        simp only [nonNullFactory, hof, Program.attempt] at hl
        exact product_of_wrapper hf (fun _ => rfl) (fun _ => rfl) hwrapped (fun _ => hname) hl
  · cases hnode : nodeOf nodes r.identifier.name r.context with
    | error e =>
        simp only [nodeFactory, hnode] at hl
        cases hl
    | ok node =>
        simp only [nodeFactory, hnode, Program.attempt, nodeProgram] at hl
        obtain ⟨hs, -, ht⟩ := hl.done_of_keep
        obtain rfl := Yield.new.inj ht
        exact product_of_plain hf rfl rfl
  · simp only [queryFactory, queryProgram] at hl
    obtain ⟨hs, -, ht⟩ := hl.done_of_keep
    obtain rfl := Yield.new.inj ht
    exact product_of_plain hf rfl rfl

/-- A type with a name is a scalar, an enumeration or an object. -/
theorem tag_of_name {name : String} (h : t.name? = some name) :
    t.tag ∈ [scalarTag, enumTag, objectTag] := by
  obtain ⟨kind, d⟩ := t
  cases kind <;> first | (simp [SchemaType.tag]; done) | cases h

/-- The factory of types without null is the only one of its kind. -/
theorem tag_factory_ne {n : String} (hf : Dictionary.find? n nodes.factories = some f)
    (hn : n ≠ nonNullName) : f.tag ≠ nonNullTag := by
  rcases NodeTypes.factory_cases hf with ⟨-, rfl⟩ | hmem
  · exact (by decide : scalarTag ≠ nonNullTag)
  · simp only [List.mem_cons, Prod.mk.injEq, List.not_mem_nil, or_false] at hmem
    rcases hmem with ⟨-, rfl⟩ | ⟨-, rfl⟩ | ⟨-, rfl⟩ | ⟨rfl, -⟩ | ⟨-, rfl⟩ | ⟨-, rfl⟩
    · exact (by decide : scalarTag ≠ nonNullTag)
    · exact (by decide : enumTag ≠ nonNullTag)
    · exact (by decide : listTag ≠ nonNullTag)
    · exact absurd rfl hn
    · exact (by decide : objectTag ≠ nonNullTag)
    · exact (by decide : objectTag ≠ nonNullTag)

/-! ### Where following wrappers ends -/

/-- A wrapper leads to what it wraps. -/
def Follows (S : TypeStore) (i j : InstanceId) : Prop :=
  ∃ t h, S.instances[i]? = some t ∧ t.wrapped? = some h ∧ h.get? S = some j

/-- Following wrappers ends, after so many of them, at a type that is none, or at a wrapper whose
handle leads nowhere. -/
inductive Ends (S : TypeStore) : Nat → InstanceId → Except TypeError InstanceId → Prop where
  | named {i : InstanceId} {t : SchemaType} :
      S.instances[i]? = some t → t.wrapped? = none → Ends S 0 i (.ok i)
  | dangling {i : InstanceId} {t : SchemaType} {h : Handle} :
      S.instances[i]? = some t → t.wrapped? = some h → h.get? S = none →
      Ends S 0 i (.error h.unresolved)
  | through {n : Nat} {i j : InstanceId} {a : Except TypeError InstanceId} :
      Follows S i j → Ends S n j a → Ends S (n + 1) i a

section Ends

variable {S : TypeStore} {n m : Nat} {a b : Except TypeError InstanceId}

theorem Ends.stored (he : Ends S n i a) : ∃ t, S.instances[i]? = some t := by
  cases he with
  | named ht _ => exact ⟨_, ht⟩
  | dangling ht _ _ => exact ⟨_, ht⟩
  | through hf _ =>
      obtain ⟨t, _, ht, -⟩ := hf
      exact ⟨t, ht⟩

theorem Follows.unique {j' : InstanceId} (hf : Follows S i j) (hf' : Follows S i j') : j = j' := by
  obtain ⟨t, h, ht, hw, hj⟩ := hf
  obtain ⟨t', h', ht', hw', hj'⟩ := hf'
  obtain rfl : t = t' := Option.some.inj (ht.symm.trans ht')
  obtain rfl : h = h' := Option.some.inj (hw.symm.trans hw')
  exact Option.some.inj (hj.symm.trans hj')

/-- What is followed does not end at once. -/
theorem Follows.not_ends (hf : Follows S i j) : ¬ Ends S 0 i a := by
  obtain ⟨t, h, ht, hw, hj⟩ := hf
  intro he
  cases he with
  | named ht' hw' =>
      obtain rfl := Option.some.inj (ht.symm.trans ht')
      rw [hw] at hw'
      cases hw'
  | dangling ht' hw' hj' =>
      obtain rfl := Option.some.inj (ht.symm.trans ht')
      obtain rfl := Option.some.inj (hw.symm.trans hw')
      rw [hj] at hj'
      cases hj'

/-- There is one end. -/
theorem Ends.unique (he : Ends S n i a) (he' : Ends S m i b) : n = m := by
  induction he generalizing m with
  | named ht hw =>
      cases he' with
      | through hf _ => exact absurd (.named ht hw) hf.not_ends
      | _ => rfl
  | dangling ht hw hj =>
      cases he' with
      | through hf _ => exact absurd (.dangling ht hw hj) hf.not_ends
      | _ => rfl
  | through hf he ih =>
      cases he' with
      | through hf' he' => rw [ih (hf'.unique hf ▸ he')]
      | named ht hw => exact absurd (.named ht hw) hf.not_ends
      | dangling ht hw hj => exact absurd (.dangling ht hw hj) hf.not_ends

/-- The instances on the way to the end are all different. -/
theorem Ends.exists_way (he : Ends S n i a) : ∃ is : List InstanceId, is.length = n + 1 ∧
    is.Nodup ∧ ∀ j ∈ is, ∃ m ≤ n, ∃ b, Ends S m j b := by
  induction he with
  | @named i t ht hw =>
      exact ⟨[i], rfl, List.nodup_singleton _,
        List.forall_mem_singleton.2 ⟨0, Nat.le_refl _, _, .named ht hw⟩⟩
  | @dangling i t h ht hw hj =>
      exact ⟨[i], rfl, List.nodup_singleton _,
        List.forall_mem_singleton.2 ⟨0, Nat.le_refl _, _, .dangling ht hw hj⟩⟩
  | @through n i j a hf he ih =>
      obtain ⟨is, hlen, hnodup, his⟩ := ih
      refine ⟨i :: is, by rw [List.length_cons, hlen], List.nodup_cons.2 ⟨fun hi => ?_, hnodup⟩, ?_⟩
      · -- it would be as far from the end as what it wraps
        obtain ⟨m, hm, b, hb⟩ := his i hi
        have hsame := (Ends.through hf he).unique hb
        omega
      · refine List.forall_mem_cons.2 ⟨⟨n + 1, Nat.le_refl _, a, .through hf he⟩, fun x hx => ?_⟩
        obtain ⟨m, hm, b, hb⟩ := his x hx
        exact ⟨m, Nat.le_succ_of_le hm, b, hb⟩

/-- **Fewer wrappers are followed than there are instances.** -/
theorem Ends.lt_size (he : Ends S n i a) : n < S.instances.size := by
  obtain ⟨is, hlen, hnodup, his⟩ := he.exists_way
  have hsub : is ⊆ List.range S.instances.size := by
    intro j hj
    obtain ⟨m, -, b, hb⟩ := his j hj
    obtain ⟨t, ht⟩ := hb.stored
    exact List.mem_range.2 (Array.getElem?_eq_some_iff.1 ht).1
  have hle := (List.subperm_of_subset hnodup hsub).length_le
  rw [hlen, List.length_range] at hle
  exact hle

/-- Following wrappers often enough leads to the end. -/
theorem namedWithin_of_ends (he : Ends S n i a) (hm : n ≤ m) : namedWithin S m i = a := by
  induction he generalizing m with
  | named ht hw => cases m <;> exact namedVia_of_name ht hw _
  | dangling ht hw hj =>
      cases m <;> simp only [namedWithin, namedVia, ht, Option.bind_some, hw, Handle.get, hj,
        Except.bind]
  | through hf he ih =>
      obtain ⟨t, h, ht, hw, hj⟩ := hf
      cases m with
      | zero => exact absurd hm (Nat.not_succ_le_zero _)
      | succ m =>
          simp only [namedWithin, namedVia, ht, Option.bind_some, hw, Handle.get, hj, Except.bind,
            ih (Nat.le_of_succ_le_succ hm)]

/-- The expression for a wrapper is that for what it wraps, in one more wrapper. -/
theorem exprVia_of_wrapped (hw : t.wrapped? = some h) :
    ∃ wrap : TypeExpr → TypeExpr, (∀ e, (wrap e).depth = e.depth + 1 ∧ (wrap e).root = e.root) ∧
      ∀ inner, exprVia inner t = (inner h).map wrap := by
  obtain ⟨kind, d⟩ := t
  cases kind with
  | list of =>
      obtain rfl := Option.some.inj hw
      exact ⟨.list, fun e => ⟨rfl, rfl⟩, fun _ => rfl⟩
  | nonNull of =>
      obtain rfl := Option.some.inj hw
      exact ⟨.nonNull, fun e => ⟨rfl, rfl⟩, fun _ => rfl⟩
  | _ => cases hw

theorem typeOf_of_follows (hj : h.get? S = some j) (ht : S.instances[j]? = some t) :
    typeOf S h = .ok t := by
  simp only [typeOf, hj, ht]

/-- Following wrappers more often than to the end changes nothing. -/
theorem exprWithin_of_ends (he : Ends S n i a) (ht : S.instances[i]? = some t) (hm : n ≤ m) :
    exprWithin S m t = exprWithin S n t := by
  induction he generalizing t m with
  | named ht' hw =>
      obtain rfl := Option.some.inj (ht.symm.trans ht')
      obtain ⟨name, hname⟩ := Option.isSome_iff_exists.1 ((t.name?_isSome_iff).2 hw)
      rw [exprWithin_of_name hname, exprWithin_of_name hname]
  | dangling ht' hw hj =>
      obtain rfl := Option.some.inj (ht.symm.trans ht')
      obtain ⟨wrap, -, hexpr⟩ := exprVia_of_wrapped hw
      cases m with
      | zero => rfl
      | succ m => simp only [exprWithin, hexpr, typeOf, hj, Except.bind]
  | through hf he ih =>
      obtain ⟨t', h, ht', hw, hj⟩ := hf
      obtain rfl := Option.some.inj (ht.symm.trans ht')
      obtain ⟨wrap, -, hexpr⟩ := exprVia_of_wrapped hw
      obtain ⟨inner, hinner⟩ := he.stored
      cases m with
      | zero => exact absurd hm (Nat.not_succ_le_zero _)
      | succ m =>
          simp only [exprWithin, hexpr, typeOf_of_follows hj hinner, Except.bind,
            ih hinner (Nat.le_of_succ_le_succ hm)]

/-- The expression for a type whose wrappers lead to an end: it has the name of that end, in as
many wrappers, unless the end is an error. -/
def Expresses (S : TypeStore) (n : Nat) (a : Except TypeError InstanceId)
    (result : Except TypeError TypeExpr) : Prop :=
  match a with
  | .error err => result = .error err
  | .ok j => ∃ e t, result = .ok e ∧ e.depth = n ∧ S.instances[j]? = some t ∧
      t.name? = some e.root

theorem expresses_of_ends (he : Ends S n i a) (ht : S.instances[i]? = some t) :
    Expresses S n a (exprWithin S n t) := by
  induction he generalizing t with
  | named ht' hw =>
      obtain rfl := Option.some.inj (ht.symm.trans ht')
      obtain ⟨name, hname⟩ := Option.isSome_iff_exists.1 ((t.name?_isSome_iff).2 hw)
      exact ⟨.named name, t, exprWithin_of_name hname S 0, rfl, ht, hname⟩
  | dangling ht' hw hj =>
      obtain rfl := Option.some.inj (ht.symm.trans ht')
      obtain ⟨wrap, -, hexpr⟩ := exprVia_of_wrapped hw
      exact hexpr _
  | @through n i j a hf he ih =>
      obtain ⟨t', h, ht', hw, hj⟩ := hf
      obtain rfl := Option.some.inj (ht.symm.trans ht')
      obtain ⟨wrap, hwrap, hexpr⟩ := exprVia_of_wrapped hw
      obtain ⟨inner, hinner⟩ := he.stored
      have hall : exprWithin S (n + 1) t = (exprWithin S n inner).map wrap := by
        simp only [exprWithin, hexpr, typeOf_of_follows hj hinner, Except.bind]
      have hrest := ih hinner
      rw [hall]
      cases a with
      | error err => exact congrArg (Except.map wrap) hrest
      | ok l =>
          obtain ⟨e, t', he', hdepth, hstored, hname⟩ := hrest
          rw [he']
          exact ⟨wrap e, t', rfl, by rw [(hwrap e).1, hdepth], hstored, (hwrap e).2 ▸ hname⟩

/-- When every handle on the way leads somewhere, the end is a type that is no wrapper. -/
theorem Ends.ok_of_ready (he : Ends S n i a)
    (hready : ∀ j t h, ReflTransGen (Follows S) i j → S.instances[j]? = some t →
      t.wrapped? = some h → h.get? S ≠ none) : ∃ j, a = .ok j := by
  induction he with
  | named _ _ => exact ⟨_, rfl⟩
  | dangling ht hw hj => exact absurd hj (hready _ _ _ .refl ht hw)
  | through hf _ ih => exact ih fun j t h hj => hready j t h (.head hf hj)

end Ends

/-! ### Instances of a run -/

section Runs

variable (hs : Session (nodes.setup options) rs ks s)

include hs

/-- An instance was made by the factory of a request with its key. -/
theorem product_of_ready (hready : Dictionary.find? k s.store.table.entries = some (.ready i)) :
    ∃ r t log, s.store.instances[i]? = some t ∧ Possible (nodes.setup options) rs r ∧
      r.key = .ok k ∧ Product nodes r log t ∧
      ∀ x ∈ log, Possible (nodes.setup options) rs x.1 ∧ Holds (fun _ => False) s x.1 x.2 := by
  obtain ⟨t, ht, r, log, hr, hk, hp⟩ :=
    (hs.traceable reliable_nothing fun r hr => .root hr).given_new
      (fun _ _ hp => new_of_reaches hp) hready
  refine ⟨r, t, log, ht, hr, hk, product_of_reaches hp, fun x hx => ⟨?_, hp.answered x hx⟩⟩
  obtain ⟨log₀, next, hp'⟩ := hp.asked hx
  exact .asked hr (hp'.mono fun _ _ => Holds.permitted)

/-- What a wrapper leads to is an instance of a request for what it was told to wrap. -/
theorem wrapped_of_ready (hready : Dictionary.find? k s.store.table.entries = some (.ready i))
    (hf : Follows s.store i j) : ∃ r of, Possible (nodes.setup options) rs r ∧ r.key = .ok k ∧
      wrappedType r.identifier = .ok of ∧ Possible (nodes.setup options) rs ⟨of, r.context⟩ ∧
      (∀ t, s.store.instances[i]? = some t → t.tag = nonNullTag → of.name ≠ nonNullName) ∧
      ∃ k', Request.key ⟨of, r.context⟩ = .ok k' ∧
        Dictionary.find? k' s.store.table.entries = some (.ready j) := by
  obtain ⟨r, t, log, ht, hr, hk, hproduct, hlog⟩ := product_of_ready hs hready
  obtain ⟨t', h, ht', hw, hj⟩ := hf
  obtain rfl := Option.some.inj (ht.symm.trans ht')
  obtain ⟨of, hof, hmem, hnull⟩ := hproduct.wraps hw
  obtain ⟨hpossible, hkey, hcoherent, -⟩ := hlog _ hmem
  refine ⟨r, of, hr, hk, hof, hpossible, fun t'' ht'' => ?_, h.key, hkey, ?_⟩
  · obtain rfl := Option.some.inj (ht.symm.trans ht'')
    exact hnull
  · exact Registry.Table.ready?_eq_some_iff.1
      (hcoherent.ready_of_get? hs.reachable.legal.slotted hj)

variable (hapart : Apart (nodes.setup options) rs)

include hapart

/-- The kind of an instance is told by the name of any request for it. -/
theorem tag_of_ready (hr : Possible (nodes.setup options) rs r) (hk : r.key = .ok k)
    (hready : Dictionary.find? k s.store.table.entries = some (.ready i)) :
    ∃ t f, s.store.instances[i]? = some t ∧
      Dictionary.find? r.identifier.name nodes.factories = some f ∧ t.tag = f.tag := by
  obtain ⟨r', t, log, ht, hr', hk', hproduct, -⟩ := product_of_ready hs hready
  obtain ⟨f, hf, htag⟩ := hproduct.kind
  rw [name_eq_of_canonical (hapart hr' hr hk' hk)] at hf
  exact ⟨t, f, ht, hf, htag⟩

/-- Following wrappers from any instance comes to an end. -/
theorem exists_ends (hr : Possible (nodes.setup options) rs r) (hk : r.key = .ok k)
    (hready : Dictionary.find? k s.store.table.entries = some (.ready i)) :
    ∃ n a, Ends s.store n i a := by
  -- by induction on the length of the canonical identity
  induction hlen : r.canonical.toList.length using Nat.strong_induction_on
    generalizing r k i with
  | _ len ih =>
      obtain ⟨t, -, ht, -⟩ := tag_of_ready hs hapart hr hk hready
      cases hw : t.wrapped? with
      | none => exact ⟨0, _, .named ht hw⟩
      | some h =>
          cases hj : h.get? s.store with
          | none => exact ⟨0, _, .dangling ht hw hj⟩
          | some j =>
              have hf : Follows s.store i j := ⟨t, h, ht, hw, hj⟩
              obtain ⟨r', of, hr', hk', hof, hpossible, -, k', hkey, hready'⟩ :=
                wrapped_of_ready hs hready hf
              have hsame := hapart hr' hr hk' hk
              have hlt := length_canonical_lt hof
              rw [hsame, hlen] at hlt
              obtain ⟨n, a, he⟩ := ih _ hlt hpossible hkey hready' rfl
              exact ⟨n + 1, a, .through hf he⟩

end Runs

/-- **The kinds of instances, and where their wrappers end.**  In every state of a run of any
requests, from any threads, whose identities have different keys: an instance is of the kind that
the factory of the name in any request for it is registered with; there is such a request; what a
type without null leads to does not exclude null itself; and following wrappers ends at an instance
with a name, or else at the first handle that leads nowhere, after fewer wrappers than there are
instances. -/
theorem kinds_of_instances (hs : Session (nodes.setup options) rs ks s)
    (hapart : Apart (nodes.setup options) rs) :
    (∀ r k i, Possible (nodes.setup options) rs r → r.key = .ok k →
      s.store.table.ready? k = some i → ∃ t f, s.store.instances[i]? = some t ∧
        Dictionary.find? r.identifier.name nodes.factories = some f ∧ t.tag = f.tag) ∧
    (∀ k i, s.store.table.ready? k = some i →
      ∃ r, Possible (nodes.setup options) rs r ∧ r.key = .ok k) ∧
    (∀ k i j h d, s.store.table.ready? k = some i →
      s.store.instances[i]? = some ⟨.nonNull h, d⟩ → h.get? s.store = some j →
      ∃ t, s.store.instances[j]? = some t ∧ t.tag ≠ nonNullTag) ∧
    ∀ k i, s.store.table.ready? k = some i → ∃ t n a, s.store.instances[i]? = some t ∧
      Ends s.store n i a ∧ n < s.store.instances.size ∧ namedInstance s.store i = a ∧
      Expresses s.store n a (t.expr s.store) ∧
      (∀ m, n ≤ m → namedWithin s.store m i = namedInstance s.store i ∧
        exprWithin s.store m t = t.expr s.store) ∧
      ((∀ j t h, ReflTransGen (Follows s.store) i j → s.store.instances[j]? = some t →
        t.wrapped? = some h → h.get? s.store ≠ none) → ∃ j t, a = .ok j ∧
          s.store.instances[j]? = some t ∧ t.tag ∈ [scalarTag, enumTag, objectTag]) := by
  simp only [Registry.Table.ready?_eq_some_iff]
  refine ⟨fun r k i hr hk hready => tag_of_ready hs hapart hr hk hready, fun k i hready => ?_,
    fun k i j h d hready ht hj => ?_, fun k i hready => ?_⟩
  · obtain ⟨r, -, -, -, hr, hk, -⟩ := product_of_ready hs hready
    exact ⟨r, hr, hk⟩
  · obtain ⟨r, of, -, -, -, hpossible, hnull, k', hkey, hready'⟩ :=
      wrapped_of_ready hs hready ⟨_, h, ht, rfl, hj⟩
    obtain ⟨t, f, ht', hf, htag⟩ := tag_of_ready hs hapart hpossible hkey hready'
    exact ⟨t, ht', htag ▸ tag_factory_ne hf (hnull _ ht rfl)⟩
  · obtain ⟨r, -, -, -, hr, hk, -⟩ := product_of_ready hs hready
    obtain ⟨t, -, ht, -⟩ := tag_of_ready hs hapart hr hk hready
    obtain ⟨n, a, he⟩ := exists_ends hs hapart hr hk hready
    have hsize := Nat.le_of_lt he.lt_size
    have hexpr : t.expr s.store = exprWithin s.store n t := exprWithin_of_ends he ht hsize
    have hnamed : namedInstance s.store i = a := namedWithin_of_ends he hsize
    have hexpresses := expresses_of_ends he ht
    refine ⟨t, n, a, ht, he, he.lt_size, hnamed, hexpr ▸ hexpresses,
      fun m hm => ⟨?_, ?_⟩, fun hall => ?_⟩
    · rw [hnamed, namedWithin_of_ends he hm]
    · rw [hexpr, exprWithin_of_ends he ht hm]
    · obtain ⟨j, rfl⟩ := he.ok_of_ready hall
      obtain ⟨e, t', -, -, ht', hname⟩ := hexpresses
      exact ⟨j, t', rfl, ht', tag_of_name hname⟩

/-- A list of numbers. -/
def numberList : TypeExpr := .list (.named "Int")

/-- A registry without node types, after a request for it. -/
def listedNumbers : TypeState :=
  (request (NodeTypes.empty.setup {}) 30 (NodeTypes.empty.reference numberList)
    NodeTypes.start).2

/-- The list is a list, and its wrappers end. -/
theorem number_list_kind : ∃ k i t n a, (NodeTypes.empty.reference numberList).key = .ok k ∧
    listedNumbers.store.table.ready? k = some i ∧ listedNumbers.store.instances[i]? = some t ∧
    t.tag = listTag ∧ Ends listedNumbers.store n i a ∧
    n < listedNumbers.store.instances.size ∧ namedInstance listedNumbers.store i = a := by
  obtain ⟨hgranted, hready⟩ : (request (NodeTypes.empty.setup {}) 30
        (NodeTypes.empty.reference numberList) NodeTypes.start).1.isOk = true ∧
      (listedNumbers.store.table.ready? (NodeTypes.empty.keyOf numberList)).isSome = true := by
    decide +kernel
  obtain ⟨ks, hs⟩ : ∃ ks, Session (NodeTypes.empty.setup {})
      ([numberList].map NodeTypes.empty.reference) ks listedNumbers := by
    rcases hreq : request (NodeTypes.empty.setup {}) 30 (NodeTypes.empty.reference numberList)
      NodeTypes.start with ⟨answer, s'⟩
    have hs' : listedNumbers = s' := congrArg Prod.snd hreq
    rw [hreq] at hgranted
    refine hs' ▸ (rest_of_request (.initial _ () 0) hreq fun he => ?_).session
    rw [he] at hgranted
    cases hgranted
  have hapart : Apart (NodeTypes.empty.setup {}) ([numberList].map NodeTypes.empty.reference) :=
    NodeTypes.apart_of_keys NodeTypes.sound_empty (by decide +kernel)
  obtain ⟨hkind, -, -, hends⟩ := kinds_of_instances hs hapart
  have hkey : (NodeTypes.empty.reference numberList).key
      = .ok (NodeTypes.empty.keyOf numberList) :=
    (Key.ofIdentifier_eq_ok_iff _ _ _).2 ⟨by decide +kernel, rfl⟩
  obtain ⟨i, hi⟩ := Option.isSome_iff_exists.1 hready
  obtain ⟨t, f, ht, hf, htag⟩ := hkind _ _ i (.root (by simp)) hkey hi
  obtain ⟨t', n, a, ht', he, hn, hnamed, -⟩ := hends _ i hi
  obtain rfl := Option.some.inj (ht.symm.trans ht')
  obtain rfl : listFactory = f := Option.some.inj hf
  exact ⟨_, i, t, n, a, hkey, hi, ht, htag, he, hn, hnamed⟩

/-! ### A wrapper and a scalar with one key -/

section Twins

open Hash (twinText wrapperBody scalarBody wrapperTwin scalarTwin)
open Registry (spelled chars_spelled quotedChars_of_plain)
open Text (quotedChars escaped isPlain escaped_of_isPlain)

/-- A type of a name that is told to wrap texts, and that has one more option. -/
def told (name body : List Char) : Identifier :=
  ((Identifier.bare (String.ofList name)).withOption wrappedOption
    (.type (spelled ['S', 't', 'r', 'i', 'n', 'g']))).withOption "z" (.text (String.ofList body))

theorem config_told (name body : List Char) : (told name body).config
    = [(wrappedOption, .type (spelled ['S', 't', 'r', 'i', 'n', 'g'])),
      ("z", .text (String.ofList body))] := rfl

theorem sorted_told (name body : List Char) :
    Dictionary.sorted (told name body).config = (told name body).config := by
  refine List.mergeSort_of_pairwise ?_
  rw [config_told]
  have hle : wrappedOption ≤ "z" := by decide
  simp [hle]

/-- Its canonical identity, if its letters stand for themselves. -/
theorem canonical_told {name body : List Char} (hname : ∀ c ∈ name, escaped c = [c])
    (hbody : ∀ c ∈ body, escaped c = [c]) :
    canonicalIdentity (told name body) none = String.ofList (twinText name body) := by
  have hbare : (told name body).isBare = false := rfl
  have hnamed : (told name body).name.toList = name := String.toList_ofList
  have hplain : ∀ cs ∈ [wrappedOption.toList, ['z'], ['S', 't', 'r', 'i', 'n', 'g']],
      ∀ c ∈ cs, escaped c = [c] := by
    have hall : ∀ cs ∈ [wrappedOption.toList, ['z'], ['S', 't', 'r', 'i', 'n', 'g']],
        cs.all isPlain = true := by decide
    exact fun cs hcs c hc => escaped_of_isPlain (List.all_eq_true.1 (hall cs hcs) c hc)
  have hof : quotedChars wrappedOption.toList = ['"', 'o', 'f', '"'] :=
    quotedChars_of_plain (hplain _ (by simp))
  have hz : quotedChars ['z'] = ['"', 'z', '"'] := quotedChars_of_plain (hplain _ (by simp))
  have htext : (spelled ['S', 't', 'r', 'i', 'n', 'g']).chars
      = '"' :: (['S', 't', 'r', 'i', 'n', 'g'] ++ ['"']) :=
    chars_spelled (hplain _ (by simp))
  rw [← String.toList_inj, toList_canonicalIdentity, Identifier.chars_eq, sorted_told,
    config_told, hbare, hnamed]
  simp [optionChars, Value.chars_text, Value.chars_type, htext, hof, hz, scopeChars,
    quotedChars_of_plain hname, quotedChars_of_plain hbody, List.intercalate, twinText,
    Hash.twinHead]

/-- The request for a type without null. -/
def wrapperRequest : Request := ⟨told ['N', 'o', 'n', 'N', 'u', 'l', 'l'] wrapperBody, none⟩

/-- The request for a scalar, whose factory has no use for the options. -/
def scalarRequest : Request := ⟨told ['B', 'o', 'o', 'l', 'e', 'a', 'n'] scalarBody, none⟩

/-- Both have one key. -/
theorem key_twins : ∃ k, scalarRequest.key = .ok k ∧ wrapperRequest.key = .ok k := by
  have hfault : scalarRequest.identifier.fault? = none ∧
      wrapperRequest.identifier.fault? = none := by
    decide +kernel
  have hascii : (∀ c ∈ scalarTwin, c.utf8Size = 1) ∧ ∀ c ∈ wrapperTwin, c.utf8Size = 1 :=
    ⟨List.all_iff_forall_prop.1 (by decide +kernel), List.all_iff_forall_prop.1 (by decide +kernel)⟩
  have hletters : ∀ cs ∈ [['N', 'o', 'n', 'N', 'u', 'l', 'l'],
      ['B', 'o', 'o', 'l', 'e', 'a', 'n'], wrapperBody, scalarBody], cs.all isPlain = true := by
    decide +kernel
  have hplain := fun cs hcs c hc => escaped_of_isPlain (List.all_eq_true.1 (hletters cs hcs) c hc)
  have hcanonical : canonicalIdentity scalarRequest.identifier none = String.ofList scalarTwin ∧
      canonicalIdentity wrapperRequest.identifier none = String.ofList wrapperTwin :=
    ⟨canonical_told (hplain _ (by simp)) (hplain _ (by simp)),
      canonical_told (hplain _ (by simp)) (hplain _ (by simp))⟩
  refine ⟨Key.ofCanonical (String.ofList scalarTwin),
    (Key.ofIdentifier_eq_ok_iff _ _ _).2 ⟨hfault.1, ?_⟩,
    (Key.ofIdentifier_eq_ok_iff _ _ _).2 ⟨hfault.2, ?_⟩⟩
  · rw [← hcanonical.1]
    rfl
  · have hscope : wrapperRequest.context = none := rfl
    rw [hscope, hcanonical.2, Key.ofCanonical, Key.ofCanonical,
      Hash.data_toUTF8_ofList hascii.1, Hash.data_toUTF8_ofList hascii.2]
    exact congrArg Key.mk Hash.xxh3_twins.symm

/-- A registry without node types. -/
def bareSetup : TypeSetup := NodeTypes.empty.setup {}

/-- What the factory of the scalar goes through. -/
theorem done_of_scalarRequest {A : Request → Answer TypeFault → Prop} {p : TypeProgram}
    (hp : Reaches bareSetup A scalarRequest log p) : p = .done (.new (scalarType "Boolean")) := by
  obtain ⟨key, f, -, hf, hl⟩ := hp
  have hscalar : Dictionary.find? scalarRequest.identifier.name bareSetup.factories
      = some (fixedFactory (scalarType "Boolean")) := rfl
  obtain rfl := Option.some.inj (hscalar.symm.trans hf)
  cases hl
  rfl

/-- The request for the scalar can be relied on. -/
theorem reliable_scalarRequest :
    Registry.Reliable bareSetup (· = scalarRequest) (· = scalarRequest) where
  asks hr hp := by
    subst hr
    cases done_of_scalarRequest hp
  sound hr _ _ _ := hr
  served hr hrefuses := by
    subst hr
    obtain ⟨n, hn⟩ := hrefuses (fixedFactory (scalarType "Boolean")) rfl
    have hfactory : Dictionary.find? "Boolean" NodeTypes.empty.factories
        = some (fixedFactory (scalarType "Boolean")) := rfl
    exact Bool.noConfusion ((NodeTypes.admits_factory hfactory n).symm.trans hn)
  keyed hr := by
    obtain ⟨k, hk, -⟩ := key_twins
    exact ⟨k, hr ▸ hk⟩
  steady hr hp hfails := by
    subst hr
    rw [done_of_scalarRequest hp] at hfails
    cases hfails
  within hr hp := by
    subst hr
    cases done_of_scalarRequest hp

/-- **A scalar stands for a wrapper.**  After a request for the scalar, the one for the type without
null is answered with the scalar, though the factory of its name makes types of another kind. -/
theorem twins_mixed_up : ∃ n s₁ s₂ h i t ks,
    (request bareSetup n scalarRequest NodeTypes.start).2 = s₁ ∧
    request bareSetup 2 wrapperRequest s₁ = (.ok h, s₂) ∧
    Session bareSetup [wrapperRequest, scalarRequest] ks s₂ ∧
    wrapperRequest.key = .ok h.key ∧ s₂.store.table.ready? h.key = some i ∧
    s₂.store.instances[i]? = some t ∧
    Dictionary.find? wrapperRequest.identifier.name bareSetup.factories = some nonNullFactory ∧
    t.tag ≠ nonNullFactory.tag := by
  obtain ⟨k, hscalar, hwrapper⟩ := key_twins
  have hinitial : AtRest (NodeTypes.empty.setup {}) [] NodeTypes.start := .initial _ () 0
  obtain ⟨n, answer, s₁, -, hrest, hrequest⟩ := request_ends hinitial scalarRequest
  have hs₁ : (request bareSetup n scalarRequest NodeTypes.start).2 = s₁ :=
    congrArg Prod.snd (hrequest n (Nat.le_refl n))
  obtain ⟨ks, hsession⟩ := hrest.session
  -- the scalar was made
  have honly : ∀ r ∈ [scalarRequest], r = scalarRequest := fun r hr => List.mem_singleton.1 hr
  obtain ⟨i, hready⟩ : ∃ i, Dictionary.find? k s₁.store.table.entries = some (.ready i) := by
    rcases hsession.asked reliable_scalarRequest honly List.mem_cons_self rfl hscalar with
      hentry | ⟨u, c, hc, -⟩
    · exact hrest.reachable.legal.ready_of_entry hrest.outside hentry
    · have hout := hrest.outside u
      cases hst : (s₁.thread u).stage <;>
        simp [hst, Registry.Stage.seeks, Registry.Stage.isOutside] at hc hout
  obtain ⟨t, ht, r, log, hr, -, hp⟩ :=
    (hsession.traceable reliable_scalarRequest honly).given_new
      (fun hr _ hp => ⟨_, Program.done.inj (done_of_scalarRequest (hr ▸ hp))⟩) hready
  obtain rfl : t = scalarType "Boolean" :=
    Yield.new.inj (Program.done.inj (done_of_scalarRequest (hr ▸ hp)))
  -- the other request finds it
  obtain ⟨s₂, hresolve, hstore⟩ :=
    Registry.resolve_of_ready (R := bareSetup) hwrapper hready (Nat.le_refl 2)
  have hanswer := request_eq_ok_iff.2 hresolve
  obtain ⟨ks', hs₂⟩ := (rest_of_request hrest hanswer (by simp)).session
  refine ⟨n, s₁, s₂, _, i, scalarType "Boolean", ks', hs₁, hanswer, hs₂, hwrapper, ?_, ?_, rfl,
    by decide⟩
  · rw [Registry.Table.ready?_eq_some_iff, hstore]
    exact hready
  · rw [hstore]
    exact ht

end Twins

end SchemaGraph
