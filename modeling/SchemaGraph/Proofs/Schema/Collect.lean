/-
**A schema is all that can be reached, or there is none.**

A registry at rest may have constructed anything, as long as its instances hold only handles that it
has given out and that are alive.  Then handles of one key lead to one instance, although one
instance may be there under several keys, and a walk that visits each key once misses nothing: it
ends, it finds every name that can be reached, and it meets every handle that leads nowhere.  A
schema is built exactly when all that can be reached from its root is there and no two instances
have one name, and then it is what can be reached.

Main definitions:

* `explore` — the walk as a loop that marks the keys that it has visited;
* `wrappedBy?`, `Wraps` — the handle that is wrapped by what another leads to;
* `HoldsOwn` — the instances of a registry hold only handles that it has given out;
* `Rooted` — of the handles that can be reached, those of one key lead to one instance;
* `Found`, `Single`, `Bottom` — what can be reached, by which names, and what lies under wrappers;
* `Collects` — a schema is what can be reached from a handle.

Main results:

* `explore_ends` — **the loop ends**, and finds what the walk finds;
* `reads_of_acc` — a handle reads as an expression when its wrappers come to an end;
* `Rooted.meets`, `Rooted.collects` — a walk that ends without an error has met everything;
* `build_collects_reachable` — **a schema is all that can be reached, or there is none**.
-/

import SchemaGraph.Proofs.Schema.Built

set_option autoImplicit false

namespace SchemaGraph

open Registry (Handle InstanceId Request AtRest Reliable Coherent Issued State)

variable {S : TypeStore} {h h' of entry : Handle} {i j : InstanceId} {t t' : SchemaType}
  {e : TypeExpr} {found : Dictionary String InstanceId} {visited : List Handle} {schema : Schema}
  {R : TypeSetup} {rs : List Request} {s s' : TypeState}

/-! ### The loop -/

/-- At most so many rounds of the loop that takes a handle, passes it by when its key is marked, and
otherwise marks the key, enters the type and takes up the handles of the type.  The loop may not be
over by then. -/
def explore (S : TypeStore) : Nat → List Key → Dictionary String InstanceId → List Handle →
    Option (Except SchemaError (Dictionary String InstanceId))
  | 0, _, _, _ => none
  | _ + 1, _, found, [] => some (.ok found)
  | n + 1, marked, found, h :: rest =>
    if h.key ∈ marked then explore S n marked found rest
    else
      match h.get? S with
      | none => some (.error (.registry h.unresolved))
      | some i =>
        match S.instances[i]? with
        | none => some (.error (.registry h.unresolved))
        | some t =>
          match enter? found i t with
          | .error e => some (.error e)
          | .ok found => explore S n (h.key :: marked) found (t.handles ++ rest)

/-- One round more than what is left. -/
theorem from_succ {n : Nat} {P : Nat → Prop} (hP : ∀ m, n ≤ m → P (m + 1)) :
    ∀ m, n + 1 ≤ m → P m
  | m + 1, hm => hP m (Nat.le_of_succ_le_succ hm)

/-- From some number of rounds on the loop is over, with what the walk finds.  The keys that the
walk has yet to see are those that are not marked. -/
theorem explore_eq_walk (k : Key) {unseen marked : List Key} {pending : List Handle}
    (hkeys : ∀ h ∈ pending, h.key ∈ k :: storedKeys S)
    (hunseen : ∀ j ∈ k :: storedKeys S, j ∈ unseen ↔ j ∉ marked) :
    ∃ n, ∀ m, n ≤ m → explore S m marked found pending = some (walk S unseen found pending) := by
  induction unseen, found, pending using walk.induct S generalizing marked with
  | case1 unseen found => exact ⟨1, from_succ fun m _ => by rw [explore, walk]⟩
  | case2 unseen found h rest hu hnone =>
      have hm := (hunseen _ (hkeys h List.mem_cons_self)).1 hu
      exact ⟨1, from_succ fun m _ => by simp [explore, walk, hu, hm, hnone]⟩
  | case3 unseen found h rest hu i hi hnone =>
      have hm := (hunseen _ (hkeys h List.mem_cons_self)).1 hu
      exact ⟨1, from_succ fun m _ => by simp [explore, walk, hu, hm, hi, hnone]⟩
  | case4 unseen found h rest hu i hi t ht e he =>
      have hm := (hunseen _ (hkeys h List.mem_cons_self)).1 hu
      exact ⟨1, from_succ fun m _ => by simp [explore, walk, hu, hm, hi, ht, he]⟩
  | case5 unseen found h rest hu i hi t ht entered he ih =>
      have hm := (hunseen _ (hkeys h List.mem_cons_self)).1 hu
      have hkeys' : ∀ x ∈ t.handles ++ rest, x.key ∈ k :: storedKeys S := by
        intro x hx
        rcases List.mem_append.1 hx with hx | hx
        · exact List.mem_cons_of_mem _ (key_mem_storedKeys ht hx)
        · exact hkeys x (List.mem_cons_of_mem _ hx)
      have hunseen' : ∀ j ∈ k :: storedKeys S,
          j ∈ without h.key unseen ↔ j ∉ h.key :: marked := by
        intro j hj
        rw [mem_without, hunseen j hj, List.mem_cons, not_or, and_comm]
      obtain ⟨n, hn⟩ := ih hkeys' hunseen'
      refine ⟨n + 1, from_succ fun m hle => ?_⟩
      rw [explore, if_neg hm, walk, if_pos hu]
      simp only [hi, ht, he]
      exact hn m hle
  | case6 unseen found h rest hu ih =>
      have hm : h.key ∈ marked := by
        by_contra hm
        exact hu ((hunseen _ (hkeys h List.mem_cons_self)).2 hm)
      obtain ⟨n, hn⟩ := ih (fun x hx => hkeys x (List.mem_cons_of_mem _ hx)) hunseen
      refine ⟨n + 1, from_succ fun m hle => ?_⟩
      rw [explore, if_pos hm, walk_of_seen hu]
      exact hn m hle

/-- **The loop ends on every graph**, and finds what the walk finds. -/
theorem explore_ends (S : TypeStore) (entry : Handle) :
    ∃ n, ∀ m, n ≤ m → explore S m [] [] [entry]
      = some (walk S (entry.key :: storedKeys S) [] [entry]) := by
  refine explore_eq_walk entry.key (fun h hh => ?_) fun j hj => ?_
  · rw [List.mem_singleton.1 hh]
    exact List.mem_cons_self
  · simp [hj]

/-! ### Wrappers that come to an end -/

/-- The handle that is wrapped by what another leads to. -/
def wrappedBy? (S : TypeStore) (h : Handle) : Option Handle :=
  (h.get? S).bind fun i => S.instances[i]?.bind SchemaType.wrapped?

/-- A handle is wrapped by what another leads to. -/
def Wraps (S : TypeStore) (of h : Handle) : Prop := wrappedBy? S h = some of

theorem wrappedBy?_of_shows (hs : Shows S h i t) : wrappedBy? S h = t.wrapped? := by
  simp only [wrappedBy?, hs.leads, hs.stored, Option.bind_some]

/-- Wrappers come to an end when what is wrapped is no wrapper. -/
theorem acc_wraps (hnone : (wrappedBy? S h).bind (wrappedBy? S) = none) : Acc (Wraps S) h := by
  refine ⟨h, fun of (hof : _ = _) => ⟨of, fun of' (hof' : _ = _) => ?_⟩⟩
  rw [hof, Option.bind_some, hof'] at hnone
  cases hnone

/-- A handle reads as an expression when its wrappers come to an end, and all that can be reached
from it is there. -/
theorem reads_of_acc (hacc : Acc (Wraps S) h)
    (hshows : ∀ {h'}, Reached S [h] h' → ∃ i t, Shows S h' i t) : ∃ e j, Reads S h e j := by
  induction hacc with
  | intro h _ ih =>
      obtain ⟨i, t, hs⟩ := hshows (.entry List.mem_cons_self)
      cases hw : t.wrapped? with
      | none =>
          obtain ⟨name, hname⟩ := Option.isSome_iff_exists.1 (t.name?_isSome_iff.2 hw)
          exact ⟨.named name, i, .named hs hname⟩
      | some of =>
          have hof : ∀ {h'}, Reached S [of] h' → ∃ i t, Shows S h' i t := by
            intro h' hr
            refine hshows (hr.trans (List.forall_mem_singleton.2 ?_))
            exact .through (.entry List.mem_cons_self) hs
              (SchemaType.handles_of_wrapped hw ▸ List.mem_cons_self)
          obtain ⟨e, j, hr⟩ := ih of ((wrappedBy?_of_shows hs).trans hw) hof
          obtain ⟨kind, d⟩ := t
          cases kind with
          | list of' =>
              obtain rfl := Option.some.inj hw
              exact ⟨.list e, j, .list hs hr⟩
          | nonNull of' =>
              obtain rfl := Option.some.inj hw
              exact ⟨.nonNull e, j, .nonNull hs hr⟩
          | scalar | enumeration | object => cases hw

/-! ### Handles of one key -/

/-- The instances of a registry hold only handles that it has given out, and that are alive. -/
def HoldsOwn (R : TypeSetup) (s : TypeState) : Prop :=
  ∀ (i : InstanceId) (t : SchemaType), s.store.instances[i]? = some t → ∀ h ∈ t.handles,
    Issued R h s ∧ h.isCounted s.store = true

/-- Of the handles that can be reached, those that lead anywhere lead to types, and those of one key
lead to one instance. -/
structure Rooted (S : TypeStore) (entry : Handle) : Prop where
  stored : ∀ {h i}, Reached S [entry] h → h.get? S = some i → ∃ t, S.instances[i]? = some t
  agree : ∀ {h h' i}, Reached S [entry] h → Reached S [entry] h' → h.key = h'.key →
    h.get? S = some i → h'.get? S = some i

/-- What is reached is where the way begins, or it begins at a type and what is reached is held by
one. -/
theorem Reached.entry_or_held (hr : Reached S [entry] h) : h = entry ∨
    (∃ i t, Shows S entry i t) ∧
      ∃ (i : InstanceId) (t : SchemaType), S.instances[i]? = some t ∧ h ∈ t.handles := by
  induction hr with
  | entry hmem => exact Or.inl (List.mem_singleton.1 hmem)
  | through _ hs hmem ih =>
      refine Or.inr ⟨?_, _, _, hs.stored, hmem⟩
      rcases ih with rfl | ⟨hentry, -⟩
      · exact ⟨_, _, hs⟩
      · exact hentry

/-- Nothing has to be relied on, whatever is requested. -/
theorem reliable_anything : Reliable R (fun _ => True) fun _ => False := .nothing fun _ _ => trivial

section Resolve

variable {fuel : Nat} {root : Request} (hrest : AtRest R rs s)
  (hres : Registry.resolve R fuel root s = (.answer (.ok entry), s'))

include hrest hres

/-- The handle that a request is answered with agrees with the table. -/
theorem coherent_of_resolve : Coherent s' entry := by
  obtain ⟨ks, hsession⟩ := hrest.session
  obtain ⟨-, hholds, -⟩ :=
    Registry.resolve_reply reliable_anything hsession (fun _ _ => trivial) trivial hrest.idle hres
  exact (hholds _ rfl).2.1

/-- **Handles of one key lead to one instance**, if they were given out by the registry and are
alive. -/
theorem rooted_of_resolve (hown : HoldsOwn R s') : Rooted s'.store entry := by
  have hrest' := hrest.resolve hres (by simp)
  have hlegal := hrest'.reachable.legal
  have hentry := coherent_of_resolve hrest hres
  have hcoherent : ∀ {h}, Reached s'.store [entry] h → Coherent s' h := by
    intro h hr
    rcases hr.entry_or_held with rfl | ⟨-, i, t, ht, hmem⟩
    · exact hentry
    · exact (hown i t ht h hmem).1.coherent
  -- nothing is about to be fulfilled when no call is in progress
  have hcalm : ∀ u, (s'.thread u).stage.fulfils = none := by
    intro u
    have hout := hrest'.outside u
    cases hst : (s'.thread u).stage <;> simp_all [Registry.Stage.isOutside, Registry.Stage.fulfils]
  refine ⟨fun {h i} hr hget => ?_, fun {h h' i} hr hr' hk hget => ?_⟩
  · obtain ⟨ks, hsession⟩ := hrest'.session
    obtain ⟨y, -, S, ht⟩ := (hsession.traceable reliable_anything fun _ _ => trivial).given
      (Registry.Table.ready?_eq_some_iff.1 ((hcoherent hr).ready_of_get? hlegal.slotted hget))
    exact ⟨_, ht⟩
  · have hready := (hcoherent hr).ready_of_get? hlegal.slotted hget
    rw [hk] at hready
    rcases hr'.entry_or_held with rfl | ⟨-, j, t, ht, hmem⟩
    · -- the way begins at a type, or nothing but its beginning is reached
      rcases hr.entry_or_held with rfl | ⟨⟨j, t, hs⟩, -⟩
      · exact hget
      · have hready' := hentry.ready_of_get? hlegal.slotted hs.leads
        rw [hready, Option.some.injEq] at hready'
        rw [hready']
        exact hs.leads
    · refine (hcoherent hr').get?_of_ready hlegal.settled (hown j t ht h' hmem).2 ?_ hready
      simp [hcalm]

end Resolve

/-! ### What a schema has met -/

/-- An instance can be reached from a handle. -/
def Found (S : TypeStore) (entry : Handle) (i : InstanceId) (t : SchemaType) : Prop :=
  ∃ h, Reached S [entry] h ∧ Shows S h i t

/-- No two instances that can be reached have one name. -/
def Single (S : TypeStore) (entry : Handle) : Prop :=
  ∀ {i j t t' name}, Found S entry i t → Found S entry j t' → t.name? = some name →
    t'.name? = some name → i = j

/-- An instance lies under the wrappers of a handle, and has a name. -/
structure Bottom (S : TypeStore) (h : Handle) (name : String) (j : InstanceId) : Prop where
  reads : ∃ e, Reads S h e j ∧ e.root = name
  followed : (h.get S).bind (namedInstance S) = .ok j
  named : (S.instances[j]?).bind SchemaType.name? = some name

/-- A schema is what can be reached from a handle. -/
structure Collects (S : TypeStore) (entry : Handle) (schema : Schema) : Prop where
  get?_iff : ∀ name i, schema.get? name = some i ↔ ∃ t, Found S entry i t ∧ t.name? = some name
  query : ∃ name, Bottom S entry name schema.query ∧ schema.get? name = some schema.query
  fields : ∀ name i t, schema.get? name = some i → S.instances[i]? = some t →
    ∀ f ∈ SchemaType.fields t, ∃ name j, Bottom S f.type name j ∧ schema.get? name = some j

theorem SchemaType.mem_handles_of_field {f : Field} (hf : f ∈ t.fields) : f.type ∈ t.handles := by
  obtain ⟨kind, d⟩ := t
  cases kind with
  | object n fields => exact List.mem_map_of_mem hf
  | scalar | enumeration | list | nonNull => cases hf

theorem Reads.bottom_of (hr : Reads S h e j) : Bottom S h e.root j := by
  obtain ⟨h', t, -, hs, hname⟩ := hr.bottom
  exact ⟨⟨e, hr, rfl⟩, hr.namedInstance, by rw [hs.stored]; exact hname⟩

section Toured

variable (hrooted : Rooted S entry)
  (ht : Toured S (entry.key :: storedKeys S) [] found [entry] visited)

include hrooted ht

/-- **Of all that can be reached a handle was visited**, and it leads to the same instance. -/
theorem Rooted.meets (hr : Reached S [entry] h) :
    ∃ v ∈ visited, ∃ i t, Shows S v i t ∧ Shows S h i t ∧
      ∀ h' ∈ t.handles, ∃ w ∈ visited, w.key = h'.key := by
  -- a handle leads where the handle that was visited for its key leads
  have hshare : ∀ {x}, Reached S [entry] x → (∃ v ∈ visited, v.key = x.key) →
      ∃ v ∈ visited, ∃ i t, Shows S v i t ∧ Shows S x i t ∧
        ∀ h' ∈ t.handles, ∃ w ∈ visited, w.key = h'.key := by
    rintro x hx ⟨v, hv, hk⟩
    obtain ⟨i, t, hs, hclosed⟩ := ht.closed v hv
    refine ⟨v, hv, i, t, hs, ⟨hrooted.agree (ht.reached v hv) hx hk hs.leads, hs.stored⟩, ?_⟩
    exact fun h' hmem =>
      hclosed h' hmem (List.mem_cons_of_mem _ (key_mem_storedKeys hs.stored hmem))
  induction hr with
  | entry hmem =>
      obtain rfl := List.mem_singleton.1 hmem
      exact hshare (.entry hmem) (ht.covers _ hmem List.mem_cons_self)
  | through hr hs hmem ih =>
      obtain ⟨v, -, i, t, -, hs', hclosed⟩ := ih
      obtain ⟨rfl, rfl⟩ := hs.unique hs'
      exact hshare (.through hr hs hmem) (hclosed _ hmem)

/-- What was found under the names is what can be reached. -/
theorem Rooted.find?_iff (name : String) (i : InstanceId) :
    Dictionary.find? name found = some i ↔ ∃ t, Found S entry i t ∧ t.name? = some name := by
  rw [ht.found_iff]
  constructor
  · rintro (hnone | ⟨v, hv, t, hs, hname⟩)
    · simp at hnone
    · exact ⟨t, ⟨v, ht.reached v hv, hs⟩, hname⟩
  · rintro ⟨t, ⟨h, hr, hs⟩, hname⟩
    obtain ⟨v, hv, i', t', hs', hs'', -⟩ := hrooted.meets ht hr
    obtain ⟨rfl, rfl⟩ := hs.unique hs''
    exact Or.inr ⟨v, hv, t, hs', hname⟩

/-- **A schema is what can be reached**, when its wrappers come to an end. -/
theorem Rooted.collects (hacc : ∀ h, Reached S [entry] h → Acc (Wraps S) h)
    (hquery : (entry.get S).bind (namedInstance S) = .ok schema.query)
    (htypes : schema.types = Dictionary.sorted found) : Collects S entry schema := by
  have hget : ∀ name i, schema.get? name = some i ↔
      ∃ t, Found S entry i t ∧ t.name? = some name := by
    intro name i
    rw [Schema.get?, htypes, Dictionary.find?_sorted (ht.nodup List.nodup_nil)]
    exact hrooted.find?_iff ht name i
  -- under the wrappers of what can be reached lies what the schema has
  have hbottom : ∀ {x}, Reached S [entry] x →
      ∃ name j, Bottom S x name j ∧ schema.get? name = some j := by
    intro x hx
    have hwithin : ∀ {y}, Reached S [x] y → Reached S [entry] y :=
      fun hy => hy.trans (List.forall_mem_singleton.2 hx)
    obtain ⟨e, j, hreads⟩ := reads_of_acc (hacc x hx) fun {y} hy => by
      obtain ⟨-, -, i, t, -, hs, -⟩ := hrooted.meets ht (hwithin hy)
      exact ⟨i, t, hs⟩
    obtain ⟨y, t, hy, hs, hname⟩ := hreads.bottom
    exact ⟨e.root, j, hreads.bottom_of, (hget _ _).2 ⟨t, ⟨y, hwithin hy, hs⟩, hname⟩⟩
  refine ⟨hget, ?_, fun name i t hi hstored f hf => ?_⟩
  · obtain ⟨name, j, hb, hj⟩ := hbottom (.entry List.mem_cons_self)
    obtain rfl : schema.query = j := Except.ok.inj (hquery.symm.trans hb.followed)
    exact ⟨name, hb, hj⟩
  · obtain ⟨t', ⟨h, hr, hs⟩, -⟩ := (hget name i).1 hi
    obtain rfl : t = t' := Option.some.inj (hstored.symm.trans hs.stored)
    exact hbottom (.through hr hs (SchemaType.mem_handles_of_field hf))

end Toured

/-! ### All or nothing -/

/-- A schema is built when all that can be reached is there, and no two instances have one name. -/
theorem Rooted.ofHandle_eq_ok (hrooted : Rooted S entry)
    (hready : ∀ h, Reached S [entry] h → h.isReady S = true)
    (hacc : ∀ h, Reached S [entry] h → Acc (Wraps S) h) (hsingle : Single S entry) :
    ∃ schema, Schema.ofHandle S entry = .ok schema := by
  have hshows : ∀ {h}, Reached S [entry] h → ∃ i t, Shows S h i t := by
    intro h hr
    obtain ⟨i, hi⟩ := Option.isSome_iff_exists.1 (hready h hr)
    obtain ⟨t, ht⟩ := hrooted.stored hr hi
    exact ⟨i, t, hi, ht⟩
  have hclear : Clear S [] [entry] :=
    ⟨hshows, fun hr hr' hs hs' => hsingle ⟨_, hr, hs⟩ ⟨_, hr', hs'⟩, fun _ _ _ hf => by simp at hf⟩
  obtain ⟨e, j, hreads⟩ := reads_of_acc (hacc entry (.entry List.mem_cons_self)) hshows
  obtain ⟨found, hwalk⟩ : ∃ found, walk S (entry.key :: storedKeys S) [] [entry] = .ok found :=
    walk_ok hclear
  exact ⟨⟨j, Dictionary.sorted found⟩,
    Schema.ofHandle_eq_ok_iff.2 ⟨found, hwalk, hreads.namedInstance, rfl⟩⟩

/-- A schema that was built has met everything. -/
theorem Rooted.of_ofHandle (hrooted : Rooted S entry)
    (hacc : ∀ h, Reached S [entry] h → Acc (Wraps S) h)
    (hof : Schema.ofHandle S entry = .ok schema) :
    Collects S entry schema ∧ ∀ h, Reached S [entry] h → h.isReady S = true := by
  obtain ⟨found, hwalk, hquery, htypes⟩ := Schema.ofHandle_eq_ok_iff.1 hof
  obtain ⟨visited, htoured⟩ := walk_toured hwalk
  refine ⟨hrooted.collects htoured hacc hquery htypes, fun h hr => ?_⟩
  obtain ⟨-, -, i, t, -, hs, -⟩ := hrooted.meets htoured hr
  rw [Handle.isReady, hs.leads]
  rfl

/-- **A schema is all that can be reached, or there is none.**  A registry is at rest, whatever it
has constructed or shared among keys, and answers the request for a root with a handle; its instances
hold only handles that it has given out and that are alive, and wrappers come to an end.  The walk
from the root ends, however the types refer to each other.  When all that can be reached is ready, a
schema is built exactly when no two instances that can be reached have one name.  A schema that is
built has, by name, exactly the instances that can be reached and have a name; what lies under the
wrappers of the root and of each field is in it, under its own name.  When something that can be
reached is not ready, there is no schema. -/
theorem build_collects_reachable {fuel : Nat} {root : Request} (hrest : AtRest R rs s)
    (hreq : request R fuel root s = (.ok entry, s')) (hown : HoldsOwn R s')
    (hacc : ∀ h, Reached s'.store [entry] h → Acc (Wraps s'.store) h) :
    (∃ n, ∀ m, n ≤ m → explore s'.store m [] [] [entry]
      = some (walk s'.store (entry.key :: storedKeys s'.store) [] [entry])) ∧
    ((∀ h, Reached s'.store [entry] h → h.isReady s'.store = true) →
      ((∃ schema, Schema.build R fuel root s = (.ok schema, s')) ↔ Single s'.store entry)) ∧
    (∀ schema, Schema.build R fuel root s = (.ok schema, s') → Collects s'.store entry schema) ∧
    ∀ h, Reached s'.store [entry] h → h.isReady s'.store = false →
      ∃ e, Schema.build R fuel root s = (.error e, s') := by
  have hres := request_eq_ok_iff.1 hreq
  have hrooted := rooted_of_resolve hrest hres hown
  have hbuild : Schema.build R fuel root s = (Schema.ofHandle s'.store entry, s') := by
    simp only [Schema.build, hreq]
    rfl
  simp only [hbuild, Prod.mk.injEq, and_true]
  refine ⟨explore_ends _ _, fun hready => ⟨?_, hrooted.ofHandle_eq_ok hready hacc⟩,
    fun schema hof => (hrooted.of_ofHandle hacc hof).1, fun h hr hnot => ?_⟩
  · rintro ⟨schema, hof⟩ i j t t' name hi hj hname hname'
    have hget := (hrooted.of_ofHandle hacc hof).1.get?_iff name
    exact Option.some.inj
      (((hget i).2 ⟨t, hi, hname⟩).symm.trans ((hget j).2 ⟨t', hj, hname'⟩))
  · cases hof : Schema.ofHandle s'.store entry with
    | error e => exact ⟨e, rfl⟩
    | ok schema =>
        rw [(hrooted.of_ofHandle hacc hof).2 h hr] at hnot
        cases hnot

/-- A registry of a node whose field leads back to it.  The node is there under another key as well,
and the root holds it under both. -/
def ring : TypeSetup where
  factories := [
    ("Root", ⟨objectTag, fun _ => .keep [⟨.bare "Node", none⟩, ⟨.bare "Same", none⟩] fun hs =>
      .done (.new ⟨.object "Root" (hs.map fun h => ⟨h.reference, h, none⟩), none⟩)⟩),
    ("Node", ⟨objectTag, fun _ => .request ⟨.bare "Ref", none⟩ fun h =>
      .done (.new ⟨.object "Node" [⟨"next", h, none⟩], none⟩)⟩),
    ("Ref", ⟨nonNullTag, fun _ => .request ⟨.bare "Node", none⟩ fun h =>
      .done (.new ⟨.nonNull h, none⟩)⟩),
    ("Same", ⟨objectTag, fun _ => .request ⟨.bare "Node", none⟩ fun h =>
      .done (.shared h.get? ⟨.object "Node" [], none⟩)⟩)]
  admits := fun _ _ _ => true

/-- It so many steps after the root is requested. -/
@[irreducible] def ringAt (n : Nat) : TypeState :=
  Registry.runThread ring 0 n ((State.initial () 0).call ring 0 ⟨.bare "Root", none⟩)

/-- The handle of the root. -/
def ringEntry : Handle := ((ringAt 28).given? 0).getD default

/-- What was given out before the root was constructed is given out at its end. -/
theorem issued_ring {n m : Nat} (hg : (ringAt n).given? 0 = some h) :
    Issued ring h (ringAt (n + m)) := by
  unfold ringAt at hg ⊢
  have hcall : Registry.Reachable ring
      ((State.initial () 0).call ring 0 ⟨.bare "Root", none⟩) :=
    (Registry.Reachable.initial () 0).next (.call 0 _ rfl)
  rw [Registry.runThread_add]
  exact ⟨_, 0, hcall.run (Registry.run_runThread _ _ _ _), hg, Registry.run_runThread _ _ _ _⟩

/-- The node is ready under two keys, and is no conflict. -/
theorem ring_collected : ¬ ((ringAt 29).store.table.entries.map Prod.snd).Nodup ∧
    Single (ringAt 29).store ringEntry ∧
    ∃ schema, Schema.build ring 29 ⟨.bare "Root", none⟩ (State.initial () 0)
        = (.ok schema, ringAt 29) ∧
      Collects (ringAt 29).store ringEntry schema := by
  obtain ⟨hshared, hreply, hissued, hends, hnames⟩ :
      ¬ ((ringAt 29).store.table.entries.map Prod.snd).Nodup ∧
      replyResult ((ringAt 29).reply 0) = .ok ringEntry ∧
      (∀ t ∈ (ringAt 29).store.instances.toList, ∀ h ∈ t.handles,
        (∃ n ∈ [7, 11, 15, 24], (ringAt n).given? 0 = some h) ∧
        h.isCounted (ringAt 29).store = true) ∧
      (∀ h ∈ ringEntry :: (ringAt 29).store.instances.toList.flatMap SchemaType.handles,
        h.isReady (ringAt 29).store = true ∧
        (wrappedBy? (ringAt 29).store h).bind (wrappedBy? (ringAt 29).store) = none) ∧
      (ringAt 29).store.instances.toList.map SchemaType.name?
        = [none, some "Node", some "Root"] := by
    decide +kernel
  have hreq : request ring 29 ⟨.bare "Root", none⟩ (State.initial () 0)
      = (.ok ringEntry, ringAt 29) := by
    rw [← hreply]
    unfold ringAt
    rfl
  have hown : HoldsOwn ring (ringAt 29) := by
    intro i t ht h hmem
    have hin : t ∈ (ringAt 29).store.instances.toList :=
      Array.mem_toList_iff.2 (Array.mem_of_getElem? ht)
    obtain ⟨⟨n, hn, hg⟩, hcount⟩ := hissued t hin h hmem
    have hle : ∀ n ∈ [7, 11, 15, 24], n ≤ 29 := by decide
    exact ⟨Nat.add_sub_cancel' (hle n hn) ▸ issued_ring hg, hcount⟩
  have hreached : ∀ h, Reached (ringAt 29).store [ringEntry] h →
      h.isReady (ringAt 29).store = true ∧
      (wrappedBy? (ringAt 29).store h).bind (wrappedBy? (ringAt 29).store) = none := by
    intro h hr
    refine hends h ?_
    rcases hr.entry_or_held with rfl | ⟨-, i, t, ht, hmem⟩
    · exact List.mem_cons_self
    · exact List.mem_cons_of_mem _ (List.mem_flatMap.2
        ⟨t, Array.mem_toList_iff.2 (Array.mem_of_getElem? ht), hmem⟩)
  have hacc : ∀ h, Reached (ringAt 29).store [ringEntry] h → Acc (Wraps (ringAt 29).store) h :=
    fun h hr => acc_wraps (hreached h hr).2
  have hsingle : Single (ringAt 29).store ringEntry := by
    have hat : ∀ {i t name}, Found (ringAt 29).store ringEntry i t → t.name? = some name →
        [none, some "Node", some "Root"][i]? = some (some name) := by
      rintro i t name ⟨h, -, hs⟩ hname
      rw [← hnames, List.getElem?_map, Array.getElem?_toList, hs.stored, Option.map_some, hname]
    intro i j t t' name hi hj hname hname'
    have hin := hat hi hname
    exact (List.getElem?_inj (List.getElem?_eq_some_iff.1 hin).1 (by decide)).1
      (hin.trans (hat hj hname').symm)
  obtain ⟨-, hbuilt, hcollects, -⟩ :=
    build_collects_reachable (.initial ring () 0) hreq hown hacc
  obtain ⟨schema, hb⟩ := (hbuilt fun h hr => (hreached h hr).1).2 hsingle
  exact ⟨hshared, hsingle, schema, hb, hcollects schema hb⟩

end SchemaGraph
