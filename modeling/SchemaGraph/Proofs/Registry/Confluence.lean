/-
**What is resolved does not depend on the schedule.**

The factories of a family never fail, and what they refer to is a function of the canonical identity
that they construct.  Then the requests alone determine what a run leads to: which request
constructs a type, which waits for it and which is given a forward reference makes no difference
once no call is in progress.

All this is about keys, and identities that are different may have one key.  Among the identities
that a run needs that must not happen.

Main definitions:

* `Regular` — a request whose factory never fails and asks for what the identity refers to;
* `Needed` — the identities of the requests, and what they refer to;
* `Confluent` — **what a run leads to**;
* `listing` — a registry whose types hold what a function lists for them.

Main results:

* `Reliable.of_regular` — regular requests can be relied on;
* `Session.asked` — what was requested is known, or about to be looked up;
* `Session.begun_once` — no factory is started twice for one key;
* `confluent_of_regular` — **when no call is in progress, exactly the needed types are there**,
  whatever the schedule was;
* `regular_listing` — a registry of lists is regular;
* `crossing_not_confluent` — types with one key are mixed up.
-/

import Mathlib.Data.Bool.AllAny
import SchemaGraph.Proofs.Hash.Lanes
import SchemaGraph.Proofs.Identity.Unambiguous
import SchemaGraph.Proofs.Registry.Ending

set_option autoImplicit false

namespace SchemaGraph.Registry

variable {ι σ ε ν : Type} {R : Setup ι σ ε ν} {V D : Request → Prop} {s s' : State ι σ ε ν}
  {t : ThreadId} {k : Key} {h : Handle} {r : Request}

/-! ### Regular families -/

/-- A request is answered with a handle of its key. -/
def Granted (r : Request) (a : Answer ε) : Prop := ∃ h, a = .ok h ∧ r.key = .ok h.key

/-- The handles among the answers of requests, in order. -/
def handlesOf (log : List (Request × Answer ε)) : List Handle := log.filterMap fun p => p.2.toOption

/-- The request has a factory that is admitted and never fails.  It asks in order for what the
canonical identity of the request refers to.  A new instance holds the handles that the factory was
given, and one that is there already holds handles of the same keys. -/
structure Regular (R : Setup ι σ ε ν) (refs : String → List String) (links : ι → List Handle)
    (r : Request) : Prop where
  keyed : ∃ k, r.key = .ok k
  registered : ∃ factory, Dictionary.find? r.identifier.name R.factories = some factory ∧
    ∀ n, R.admits n r.identifier.name factory.tag = true
  steady : ∀ {log : List (Request × Answer ε)} {p : Program ι σ ε ν} {failure : Failure ε},
    Reaches R Granted r log p → ¬ p.Fails failure
  asks : ∀ {log : List (Request × Answer ε)} {r' : Request} {next : Answer ε → Program ι σ ε ν},
    Reaches R Granted r log (.resolve r' next) →
      log.map (fun p => p.1.canonical) ++ [r'.canonical] <+: refs r.canonical
  ends : ∀ {log : List (Request × Answer ε)} {y : Yield ι}, Reaches R Granted r log (.done y) →
    log.map (fun p => p.1.canonical) = refs r.canonical ∧ links y.content = handlesOf log
  shares : ∀ {log : List (Request × Answer ε)} {find : Store ι → Option InstanceId} {x : ι},
    Reaches R Granted r log (.done (.shared find x)) → ∀ S : Store ι,
      (links (S.yielded (.shared find x))).map Handle.key
        = (refs r.canonical).map Key.ofCanonical

/-- The canonical identities that requests need: their own, and what these refer to. -/
inductive Needed (refs : String → List String) (roots : List Request) : String → Prop where
  | root {r : Request} : r ∈ roots → Needed refs roots r.canonical
  | ref {c c' : String} : Needed refs roots c → c' ∈ refs c → Needed refs roots c'

section Regular

variable {refs : String → List String} {links : ι → List Handle} {rs : List Request}

/-- Among requests that can be relied on, whatever is permitted is a handle. -/
theorem Program.Leads.granted (hD : ∀ {log : List (Request × Answer ε)} {r' : Request}
      {next : Answer ε → Program ι σ ε ν}, Reaches R Granted r log (.resolve r' next) → D r')
    {p q : Program ι σ ε ν} {log : List (Request × Answer ε)} (hl : p.Leads (Permitted D) log q) :
    ∀ {log₀ : List (Request × Answer ε)}, Reaches R Granted r log₀ p →
      p.Leads Granted log q ∧ ∀ x ∈ log, D x.1 := by
  induction hl with
  | refl p => exact fun _ => ⟨.refl p, fun x hx => absurd hx List.not_mem_nil⟩
  | @answer r' next a q log ha _ ih =>
      intro log₀ hp
      have hr' : D r' := hD hp
      have hgrant : Granted r' a := by
        cases a with
        | ok h => exact ⟨h, rfl, ha⟩
        | error e => exact absurd hr' ha
      obtain ⟨hl, hall⟩ := ih (hp.trans (.answer hgrant (.refl _)))
      exact ⟨.answer hgrant hl, List.forall_mem_cons.2 ⟨hr', hall⟩⟩
  | note n _ ih =>
      intro log₀ hp
      obtain ⟨hl, hall⟩ := ih (hp.goes (.note _ _ n))
      exact ⟨.note n hl, hall⟩
  | inspect S _ ih =>
      intro log₀ hp
      obtain ⟨hl, hall⟩ := ih (hp.goes (.inspect _ S))
      exact ⟨.inspect S hl, hall⟩
  | say _ ih =>
      intro log₀ hp
      obtain ⟨hl, hall⟩ := ih (hp.goes (.say _ _))
      exact ⟨.say hl, hall⟩
  | gate _ ih =>
      intro log₀ hp
      obtain ⟨hl, hall⟩ := ih (hp.goes (.gate _ _))
      exact ⟨.gate hl, hall⟩

theorem Reaches.granted (hD : ∀ {log : List (Request × Answer ε)} {r' : Request}
      {next : Answer ε → Program ι σ ε ν}, Reaches R Granted r log (.resolve r' next) → D r')
    {log : List (Request × Answer ε)} {p : Program ι σ ε ν} (hp : Reaches R (Permitted D) r log p) :
    Reaches R Granted r log p ∧ ∀ x ∈ log, D x.1 := by
  obtain ⟨key, factory, hk, hf, hl⟩ := hp
  obtain ⟨hl, hall⟩ := hl.granted hD ⟨key, factory, hk, hf, .refl _⟩
  exact ⟨⟨key, factory, hk, hf, hl⟩, hall⟩

/-- **Regular requests can be relied on.** -/
theorem Reliable.of_regular (hreg : ∀ r, Arises R Granted rs r → Regular R refs links r) :
    Reliable R (Arises R Granted rs) (Arises R Granted rs) where
  asks hr hp := .asked hr (hp.granted fun hp => .asked hr hp).1
  sound hr _ _ _ := hr
  served hr hrefuses := by
    obtain ⟨factory, hf, hadmits⟩ := (hreg _ hr).registered
    obtain ⟨n, hn⟩ := hrefuses factory hf
    rw [hadmits n] at hn
    exact Bool.noConfusion hn
  keyed hr := (hreg _ hr).keyed
  steady hr hp := (hreg _ hr).steady (hp.granted fun hp => .asked hr hp).1
  within hr hp := .asked hr (hp.granted fun hp => .asked hr hp).1

theorem Arises.needed (hreg : ∀ r, Arises R Granted rs r → Regular R refs links r)
    (hr : Arises R Granted rs r) : Needed refs rs r.canonical := by
  induction hr with
  | root hr => exact .root hr
  | @asked r r' log next hr hp ih =>
      refine .ref ih (((hreg r hr).asks hp).subset ?_)
      simp

end Regular

/-! ### What was requested -/

/-- The call that looks for its key, and may sleep meanwhile. -/
def Stage.seeks : Stage ι σ ε ν → Option (Call ι σ ε ν)
  | .looking c _ | .asleep c _ => some c
  | _ => none

theorem Stage.seeks_of_looks {stage : Stage ι σ ε ν} {c : Call ι σ ε ν}
    (h : stage.looks = some c) : stage.seeks = some c := by
  cases stage with
  | looking c' w => exact h
  | asleep c' notified =>
      cases notified with
      | false => simp [looks] at h
      | true => exact h
  | _ => simp [looks] at h

@[simp] theorem Thread.seeks_notify (th : Thread ι σ ε ν) :
    th.notify.stage.seeks = th.stage.seeks := by
  obtain ⟨frames, stage⟩ := th
  cases stage <;> rfl

/-- A call that looks for a key that can be relied on goes on looking, or there is an entry. -/
theorem Moved.seeks (hR : Reliable R V D) {new : List Request} {th th' : Thread ι σ ε ν}
    (hm : Moved R s.store s'.store new th th') (hst : th.stage.Suits R V D s th.frames)
    {c : Call ι σ ε ν} (hc : th.stage.seeks = some c) (hD : D c.request)
    (hk : c.request.key = .ok k) :
    Dictionary.find? k s'.store.table.entries ≠ none ∨ th'.stage.seeks = some c := by
  have hlooks : ∀ {stage : Stage ι σ ε ν} {frames : List (Frame ι σ ε ν)} {c' : Call ι σ ε ν},
      stage.seeks = some c → stage.Suits R V D s frames → stage.looks = some c' →
      c' = c ∧ c'.key = k := by
    intro stage frames c' hc hst hl
    have hcc : c' = c := Option.some.inj ((Stage.seeks_of_looks hl).symm.trans hc)
    have hkey := (hst.looks hl).key
    rw [hcc, hk, Except.ok.injEq] at hkey
    exact ⟨hcc, by rw [hcc, hkey]⟩
  cases hm with
  | stays => exact Or.inr hc
  | arrives _ hrest | misled _ _ hrest | awaits _ _ hrest =>
      cases hth : th.stage <;> simp [hth, Stage.seeks, Stage.isResting] at hc hrest
  | refused e hp hl hrefuses =>
      rw [(hlooks hc hst hl).1] at hrefuses
      exact absurd hrefuses (hR.served hD)
  | hits o hp hl he =>
      rw [(hlooks hc hst hl).2] at he
      exact Or.inl (by simp [hp.entries, he])
  | defers hp hl he =>
      rw [(hlooks hc hst hl).2] at he
      exact Or.inl (by simp [hp.entries, he])
  | sleeps hp hl => exact Or.inr (by rw [(hlooks hc hst hl).1]; rfl)
  | claims t hl hf hnone hfactory he =>
      exact Or.inl (by simp [he, (hlooks hc hst hl).2])
  | _ => simp [Stage.seeks] at hc

/-- **What was requested is known, or about to be looked up.** -/
theorem Session.asked (hR : Reliable R V D) {rs : List Request} {ks : List Key}
    (hs : Session R rs ks s) (hrs : ∀ r ∈ rs, V r) (hr : r ∈ rs) (hD : D r)
    (hk : r.key = .ok k) : Dictionary.find? k s.store.table.entries ≠ none ∨
      ∃ t c, (s.thread t).stage.seeks = some c ∧ c.request = r := by
  induction hs with
  | initial => simp at hr
  | @event rs new ks s s' hs he ih =>
      have hV := List.forall_mem_append.1 hrs
      have ht := hs.traceable hR hV.2
      obtain ⟨t, hm⟩ := he.motion
      rcases List.mem_append.1 hr with hnew | hold
      · have hmoved := hm.moved
        generalize s.thread t = th at hmoved
        generalize hth : s'.thread t = th' at hmoved
        cases hmoved with
        | arrives =>
            obtain rfl := List.mem_singleton.1 hnew
            exact Or.inr ⟨t, _, by rw [hth]; rfl, rfl⟩
        | misled e _ _ hfault =>
            obtain rfl := List.mem_singleton.1 hnew
            simp [hk] at hfault
        | _ => simp at hnew
      · rcases ih hV.2 hold with hentry | ⟨u, c, hc, rfl⟩
        · exact Or.inl (ht.keeps hR hm hD hk hentry)
        · by_cases hu : u = t
          · subst hu
            exact (hm.moved.seeks hR (ht.suits u) hc hD hk).imp_right fun h => ⟨u, c, h, rfl⟩
          · refine Or.inr ⟨u, c, ?_, rfl⟩
            rcases hm.beside u hu with h | h <;> simp [h, hc]

/-! ### Factories are started once -/

theorem Legal.mem_keys_iff (hs : Legal s) : k ∈ s.constructions.map Construction.key ↔
    ∃ t q, Dictionary.find? k s.store.table.entries = some (.pending t q) := by
  rw [List.mem_map]
  constructor
  · rintro ⟨c, hc, rfl⟩
    exact ⟨c.thread, c.slot, (hs.mem_constructions_iff c).1 hc⟩
  · rintro ⟨t, q, he⟩
    exact ⟨⟨k, t, q⟩, (hs.mem_constructions_iff _).2 he, rfl⟩

theorem mem_begun_iff (hs : Legal s) (hs' : Legal s') : k ∈ begun s s' ↔
    (∃ t q, Dictionary.find? k s'.store.table.entries = some (.pending t q)) ∧
      ¬ ∃ t q, Dictionary.find? k s.store.table.entries = some (.pending t q) := by
  rw [begun, List.mem_filter, hs'.mem_keys_iff, decide_eq_true_eq, hs.mem_keys_iff]

/-- A factory is started for a key that is not known, and all keys of a family that can be relied on
stay known. -/
theorem Event.begun (hR : Reliable R D D) (ht : Traceable R D D s) (hs : Legal s)
    {new : List Request} (he : Event R s new s') :
    (∀ k ∈ begun s s', Dictionary.find? k s.store.table.entries = none) ∧
      ∀ k, Dictionary.find? k s'.store.table.entries ≠ none ↔
        k ∈ begun s s' ∨ Dictionary.find? k s.store.table.entries ≠ none := by
  have hbegun := fun k => mem_begun_iff (k := k) hs (hs.changes he.next.takes.changes)
  obtain ⟨t, hm⟩ := he.motion
  simp only [hbegun]
  cases hm.moved.effect with
  | none hp =>
      simp only [hp.entries, and_not_self, false_or, implies_true, and_true]
      exact fun k hk => hk.elim
  | begins c u q _ hnone he =>
      have hself : ∀ k, Dictionary.find? k s.store.table.entries = none ∨ c.key ≠ k := by
        intro k
        by_cases hck : c.key = k
        · exact Or.inl (hck ▸ hnone)
        · exact Or.inr hck
      constructor
      · rintro k ⟨⟨u', q', hk⟩, hold⟩
        rcases hself k with h | h
        · exact h
        · rw [he, if_neg h] at hk
          exact absurd ⟨u', q', hk⟩ hold
      · intro k
        by_cases hck : c.key = k
        · subst hck
          simp [he, hnone]
        · simp [he, hck]
  | publishes f frames y hth he =>
      have hf : f ∈ (s.thread t).frames := by simp [hth]
      have hpend := hs.owned.pending hf
      constructor
      · rintro k ⟨⟨u', q', hk⟩, hold⟩
        rw [he] at hk
        split at hk
        · simp at hk
        · exact absurd ⟨u', q', hk⟩ hold
      · intro k
        by_cases hck : f.call.key = k
        · subst hck
          simp [he, hpend]
        · simp [he, hck]
  | undoes f frames p failure hth hfails =>
      have hw := ht.woven t
      have hst := ht.suits t
      rw [hth] at hw hst
      exact absurd hw.1.allowed (Traceable.not_reliable hR hst hfails)

/-- **No factory is started twice for one key**, and the keys whose factories were started are those
that are known. -/
theorem Session.begun_once (hR : Reliable R D D) {rs : List Request} {ks : List Key}
    (hs : Session R rs ks s) (hrs : ∀ r ∈ rs, D r) :
    ks.Nodup ∧ ∀ k, k ∈ ks ↔ Dictionary.find? k s.store.table.entries ≠ none := by
  induction hs with
  | initial => simp [State.initial]
  | @event rs new ks s s' hs he ih =>
      have hD := List.forall_mem_append.1 hrs
      have ht := hs.traceable hR hD.2
      have hl := hs.reachable.legal
      obtain ⟨hnodup, hks⟩ := ih hD.2
      obtain ⟨hfresh, hknown⟩ := he.begun hR ht hl
      constructor
      · have hb : (begun s s').Nodup :=
          (hl.changes he.next.takes.changes).nodup_keys.filter _
        refine List.nodup_append.2 ⟨hb, hnodup, ?_⟩
        rintro k hk j hj rfl
        exact (hks k).1 hj (hfresh k hk)
      · intro k
        rw [List.mem_append, hks, hknown]

/-! ### Confluence -/

/-- What a run of a family leads to: the instances of exactly the needed identities, each
constructed once, with links in the order of its references, and all of them ready. -/
structure Confluent (refs : String → List String) (links : ι → List Handle) (rs : List Request)
    (ks : List Key) (s : State ι σ ε ν) : Prop where
  /-- nothing is left in progress -/
  settled : s.store.table.inProgress = []
  /-- the keys of exactly the needed identities are ready -/
  ready : ∀ k, (∃ i, s.store.table.ready? k = some i) ↔
    ∃ c, Needed refs rs c ∧ Key.ofCanonical c = k
  /-- the factory was started once for each of them -/
  once : ks.Nodup ∧ ∀ k, k ∈ ks ↔ ∃ c, Needed refs rs c ∧ Key.ofCanonical c = k
  /-- the links have the keys of the references, and lead to the instances of these keys -/
  linked : ∀ c, Needed refs rs c → ∃ i x, s.store.table.ready? (Key.ofCanonical c) = some i ∧
    s.store.instances[i]? = some x ∧ (links x).map Handle.key = (refs c).map Key.ofCanonical ∧
    ∀ h ∈ links x, ∃ j, (h.get s.store : Except (RegistryError ε) InstanceId) = .ok j ∧
      s.store.table.ready? h.key = some j

theorem map_key_handlesOf {log : List (Request × Answer ε)} (hlog : ∀ x ∈ log, Granted x.1 x.2) :
    (handlesOf log).map Handle.key = log.map fun p => Key.ofCanonical p.1.canonical := by
  induction log with
  | nil => rfl
  | cons p log ih =>
      obtain ⟨⟨h, hp, hk⟩, hrest⟩ := List.forall_mem_cons.1 hlog
      obtain ⟨r, a⟩ := p
      simp only at hp hk
      subst hp
      have hcons : handlesOf ((r, (.ok h : Answer ε)) :: log) = h :: handlesOf log := rfl
      rw [hcons, List.map_cons, List.map_cons, ih hrest, Request.eq_ofCanonical hk]

namespace Program

variable {rs : List Request} {hs : List Handle}

theorem map_canonical_granted (h : hs.length = rs.length) :
    (granted rs hs : List (Request × Answer ε)).map (fun p => p.1.canonical)
      = rs.map Request.canonical := by
  rw [granted, List.map_map]
  have hfst : (fun p : Request × Answer ε => p.1.canonical) ∘ (fun p : Request × Handle =>
      (p.1, .ok p.2)) = Request.canonical ∘ Prod.fst := rfl
  rw [hfst, ← List.map_map, List.map_fst_zip (Nat.le_of_eq h.symm)]

theorem handlesOf_granted (h : hs.length = rs.length) :
    handlesOf (granted rs hs : List (Request × Answer ε)) = hs := by
  rw [handlesOf, granted, List.filterMap_map]
  have hsnd : (fun p : Request × Answer ε => p.2.toOption) ∘ (fun p : Request × Handle =>
      (p.1, .ok p.2)) = some ∘ Prod.snd := rfl
  rw [hsnd, List.filterMap_eq_map, List.map_snd_zip (Nat.le_of_eq h)]

end Program

section Confluent

variable {refs : String → List String} {links : ι → List Handle} {rs : List Request}
  {ks : List Key}

/-- What a regular request hands over holds handles of the keys of its references. -/
theorem Regular.links_yielded (hreg : Regular R refs links r) {log : List (Request × Answer ε)}
    {y : Yield ι} (hp : Reaches R Granted r log (.done y)) (S : Store ι) :
    (links (S.yielded y)).map Handle.key = (refs r.canonical).map Key.ofCanonical := by
  cases y with
  | new x =>
      obtain ⟨hrefs, hlinks⟩ := hreg.ends hp
      rw [Store.yielded_new, ← hrefs, List.map_map]
      exact (congrArg _ hlinks).trans (map_key_handlesOf hp.answered)
  | shared find x => exact hreg.shares hp S

section

variable (hreg : ∀ r, Arises R Granted rs r → Regular R refs links r)
  (ht : Traceable R (Arises R Granted rs) (Arises R Granted rs) s)

include hreg ht

/-- The links of an instance lead to the instances of their keys, as the requests were answered when
it was made. -/
theorem Traceable.leads (hs : Legal s) (hout : ∀ t, (s.thread t).stage.isOutside = true)
    {i : InstanceId} {x : ι} (hx : s.store.instances[i]? = some x) {h : Handle} (hh : h ∈ links x) :
    ∃ j, h.get? s.store = some j ∧
      Dictionary.find? h.key s.store.table.entries = some (.ready j) := by
  obtain ⟨k, y, ⟨r, log, hr, -, hp⟩, rfl⟩ := ht.made hx
  have hholds := hp.answered
  obtain ⟨hgranted, hall⟩ := (hp.mono fun _ _ => Holds.permitted).granted fun hp => .asked hr hp
  rw [((hreg r hr).ends hgranted).2] at hh
  obtain ⟨⟨r', a⟩, hmem, ha⟩ := List.mem_filterMap.1 hh
  cases a with
  | error e => simp [Except.toOption] at ha
  | ok h' =>
      obtain rfl : h' = h := by simpa [Except.toOption] using ha
      obtain ⟨-, hcoherent, hun⟩ := hholds _ hmem
      exact hcoherent.ready_of_unharmed hs hout (hun (hall _ hmem))

/-- What is known of the instance of a key that is ready: the identity that it was handed over for,
and where its links lead. -/
theorem Traceable.linked (hs : Legal s) (hout : ∀ t, (s.thread t).stage.isOutside = true)
    {i : InstanceId} (hk : Dictionary.find? k s.store.table.entries = some (.ready i)) :
    ∃ x c, s.store.instances[i]? = some x ∧ Needed refs rs c ∧ Key.ofCanonical c = k ∧
      (links x).map Handle.key = (refs c).map Key.ofCanonical ∧
      ∀ h ∈ links x, ∃ j, h.get? s.store = some j ∧
        Dictionary.find? h.key s.store.table.entries = some (.ready j) := by
  obtain ⟨y, ⟨r, log, hr, hkey, hp⟩, S, hx⟩ := ht.given hk
  have hgranted := ((hp.mono fun _ _ => Holds.permitted).granted fun hp => .asked hr hp).1
  refine ⟨_, r.canonical, hx, hr.needed hreg, (Request.eq_ofCanonical hkey).symm, ?_, ?_⟩
  · exact (hreg r hr).links_yielded hgranted S
  · exact fun h hh => ht.leads hreg hs hout hx hh

end

section

variable (hs : Session R rs ks s)
  (hreg : ∀ r, Arises R Granted rs r → Regular R refs links r)
  (hkeys : ∀ c c', Needed refs rs c → Needed refs rs c' →
    Key.ofCanonical c = Key.ofCanonical c' → c = c')
  (hout : ∀ t, (s.thread t).stage.isOutside = true)

include hs hreg hkeys hout

/-- The instance of a needed identity was made for it, since no other has its key. -/
theorem Session.linked {c : String} (hc : Needed refs rs c) {i : InstanceId}
    (hi : Dictionary.find? (Key.ofCanonical c) s.store.table.entries = some (.ready i)) :
    ∃ x, s.store.instances[i]? = some x ∧
      (links x).map Handle.key = (refs c).map Key.ofCanonical ∧
      ∀ h ∈ links x, ∃ j, h.get? s.store = some j ∧
        Dictionary.find? h.key s.store.table.entries = some (.ready j) := by
  have ht := hs.traceable (Reliable.of_regular hreg) fun r hr => .root hr
  obtain ⟨x, c', hx, hc', hcc, hmap, hall⟩ := ht.linked hreg hs.reachable.legal hout hi
  obtain rfl := hkeys c' c hc' hc hcc
  exact ⟨x, hx, hmap, hall⟩

/-- Needed identities are ready, by induction on why they are needed. -/
theorem Session.ready_of_needed {c : String} (hc : Needed refs rs c) :
    ∃ i, Dictionary.find? (Key.ofCanonical c) s.store.table.entries = some (.ready i) := by
  induction hc with
  | @root r hr =>
      obtain ⟨k, hk⟩ := (hreg r (.root hr)).keyed
      rw [← Request.eq_ofCanonical hk]
      rcases hs.asked (Reliable.of_regular hreg) (fun r hr => .root hr) hr (.root hr) hk with
        hentry | ⟨t, c, hc, -⟩
      · exact hs.reachable.legal.ready_of_entry hout hentry
      · have ho := hout t
        cases hst : (s.thread t).stage <;> simp [hst, Stage.seeks, Stage.isOutside] at hc ho
  | @ref c c' hc hmem ih =>
      obtain ⟨i, hi⟩ := ih
      obtain ⟨x, -, hmap, hall⟩ := hs.linked hreg hkeys hout hc hi
      have hkey : Key.ofCanonical c' ∈ (links x).map Handle.key := by
        rw [hmap]
        exact List.mem_map_of_mem hmem
      obtain ⟨h, hh, hhk⟩ := List.mem_map.1 hkey
      obtain ⟨j, -, hj⟩ := hall h hh
      exact ⟨j, hhk ▸ hj⟩

end

/-- **When no call is in progress, exactly the needed types are there**, whatever the schedule: in
whichever order and by whichever threads the requests were made, and whether or not calls wait for
the constructions of other threads.  No two of the needed identities may have one key. -/
theorem confluent_of_regular (hs : Session R rs ks s)
    (hreg : ∀ r, Arises R Granted rs r → Regular R refs links r)
    (hkeys : ∀ c c', Needed refs rs c → Needed refs rs c' →
      Key.ofCanonical c = Key.ofCanonical c' → c = c')
    (hout : ∀ t, (s.thread t).stage.isOutside = true) : Confluent refs links rs ks s := by
  have hR := Reliable.of_regular hreg
  have hroots : ∀ r ∈ rs, Arises R Granted rs r := fun r hr => .root hr
  have hl := hs.reachable.legal
  obtain ⟨hnodup, hbegun⟩ := hs.begun_once hR hroots
  have hiff : ∀ k, (∃ i, Dictionary.find? k s.store.table.entries = some (.ready i)) ↔
      ∃ c, Needed refs rs c ∧ Key.ofCanonical c = k := by
    intro k
    constructor
    · rintro ⟨i, hi⟩
      obtain ⟨x, c, -, hc, hck, -⟩ := (hs.traceable hR hroots).linked hreg hl hout hi
      exact ⟨c, hc, hck⟩
    · rintro ⟨c, hc, rfl⟩
      exact hs.ready_of_needed hreg hkeys hout hc
  refine ⟨(hl.quiescent hout).1, fun k => ?_, ⟨hnodup, fun k => ?_⟩, fun c hc => ?_⟩
  · simp only [Table.ready?_eq_some_iff]
    exact hiff k
  · rw [hbegun, ← hiff]
    refine ⟨hl.ready_of_entry hout, ?_⟩
    rintro ⟨i, hi⟩
    simp [hi]
  · obtain ⟨i, hi⟩ := hs.ready_of_needed hreg hkeys hout hc
    obtain ⟨x, hx, hmap, hall⟩ := hs.linked hreg hkeys hout hc hi
    refine ⟨i, x, Table.ready?_eq_some_iff.2 hi, hx, hmap, fun h hh => ?_⟩
    obtain ⟨j, hj, hentry⟩ := hall h hh
    exact ⟨j, Handle.get_eq_ok_iff.2 hj, Table.ready?_eq_some_iff.2 hentry⟩

end Confluent

/-! ### Registries of lists -/

section Listing

variable {names : List String} {asks : Request → List Request} {A : Request → Answer Unit → Prop}

/-- What all types of a registry of lists are made by. -/
def listFactory (asks : Request → List Request) : Factory (List Handle) Unit Unit Unit :=
  ⟨⟨"object"⟩, fun site => .keep (asks ⟨site.identifier, site.context⟩) fun hs => .done (.new hs)⟩

/-- A registry of lists: each type holds what a function lists for its request. -/
def listing (names : List String) (asks : Request → List Request) :
    Setup (List Handle) Unit Unit Unit where
  factories := names.map fun n => (n, listFactory asks)
  admits := fun _ _ _ => true

theorem find?_listing (n : String) : Dictionary.find? n (listing names asks).factories
    = if n ∈ names then some (listFactory asks) else none := by
  simp only [listing]
  induction names with
  | nil => rfl
  | cons m names ih =>
      rw [List.map_cons, Dictionary.find?_cons, ih]
      by_cases hmn : m = n
      · simp [hmn]
      · simp [hmn, Ne.symm hmn]

/-- What a factory of lists goes through. -/
theorem Reaches.of_listing {log : List (Request × Answer Unit)}
    {p : Program (List Handle) Unit Unit Unit} (hp : Reaches (listing names asks) A r log p) :
    (∃ r' next, p = .resolve r' next ∧ log.map Prod.fst ++ [r'] <+: asks r) ∨
      (∃ hs, hs.length = (asks r).length ∧ log = Program.granted (asks r) hs ∧ p = .done (.new hs)) ∨
      ∃ e, p = .fail e ∧ ∃ r', (r', .error e) ∈ log := by
  obtain ⟨key, factory, -, hf, hl⟩ := hp
  rw [find?_listing, Option.ite_none_right_eq_some, Option.some.injEq] at hf
  obtain ⟨-, rfl⟩ := hf
  exact hl.of_keep

/-- Requests of a registry of lists are regular. -/
theorem regular_listing {refs : String → List String} (hkey : ∃ k, r.key = .ok k)
    (hname : r.identifier.name ∈ names)
    (hrefs : (asks r).map Request.canonical = refs r.canonical) :
    Regular (listing names asks) refs id r where
  keyed := hkey
  registered := ⟨listFactory asks, by rw [find?_listing, if_pos hname], fun _ => rfl⟩
  steady hp hfails := by
    rcases hp.of_listing with ⟨r', next, rfl, -⟩ | ⟨hs, -, -, rfl⟩ | ⟨e, rfl, r', hmem⟩
    · cases hfails
    · cases hfails
    · obtain ⟨h, hh, -⟩ := hp.answered _ hmem
      exact absurd hh (by simp)
  asks hp := by
    rcases hp.of_listing with ⟨r', next, hr', hhead⟩ | ⟨hs, -, -, hd⟩ | ⟨e, he, -⟩
    · obtain ⟨rfl, -⟩ := Program.resolve.inj hr'
      rw [← hrefs]
      have hmap := hhead.map Request.canonical
      rwa [List.map_append, List.map_map] at hmap
    · cases hd
    · cases he
  ends hp := by
    rcases hp.of_listing with ⟨r', next, hr', -⟩ | ⟨hs, hlen, rfl, hd⟩ | ⟨e, he, -⟩
    · cases hr'
    · obtain rfl := Program.done.inj hd
      rw [← hrefs]
      exact ⟨Program.map_canonical_granted hlen, (Program.handlesOf_granted hlen).symm⟩
    · cases he
  shares hp := by
    rcases hp.of_listing with ⟨r', next, hr', -⟩ | ⟨hs, -, -, hd⟩ | ⟨e, he, -⟩
    · cases hr'
    · cases hd
    · cases he

variable {family rs : List Request} (hclosed : ∀ r ∈ family, ∀ r' ∈ asks r, r' ∈ family)

include hclosed

theorem Reaches.mem_family {log : List (Request × Answer Unit)} {r' : Request}
    {next : Answer Unit → Program (List Handle) Unit Unit Unit} (hr : r ∈ family)
    (hp : Reaches (listing names asks) A r log (.resolve r' next)) : r' ∈ family := by
  rcases hp.of_listing with ⟨r'', next', hr', hhead⟩ | ⟨hs, -, -, hd⟩ | ⟨e, he, -⟩
  · obtain ⟨rfl, -⟩ := Program.resolve.inj hr'
    exact hclosed r hr _ (hhead.subset (by simp))
  · cases hd
  · cases he

/-- What a closed family of requests leads to is in the family. -/
theorem Arises.mem_family (hrs : ∀ r ∈ rs, r ∈ family)
    (hr : Arises (listing names asks) A rs r) : r ∈ family := by
  induction hr with
  | root hr => exact hrs _ hr
  | asked _ hp ih => exact hp.mem_family hclosed ih

theorem finitary_listing {K : List Key} (hkeys : ∀ r ∈ family, ∀ k, r.key = .ok k → k ∈ K) :
    Finitary (listing names asks) K (· ∈ family) where
  keys hr hk := hkeys _ hr _ hk
  asks hr hp := hp.mem_family hclosed hr
  ungated _ hp := by
    rcases hp.of_listing with ⟨r', next, hr', -⟩ | ⟨hs, -, -, hd⟩ | ⟨e, he, -⟩
    · cases hr'
    · cases hd
    · cases he

end Listing

/-! ### Two types that refer to each other -/

/-- A type without options. -/
def plainRequest (name : String) : Request := ⟨.bare name, none⟩

/-- Each of two types refers to the other one. -/
def pairAsks (r : Request) : List Request :=
  if r.identifier.name = "A" then [plainRequest "B"] else [plainRequest "A"]

/-- Their references, by identity. -/
def pairRefs (c : String) : List String :=
  if c = (plainRequest "A").canonical then [(plainRequest "B").canonical]
  else [(plainRequest "A").canonical]

/-- A registry of the two types. -/
def pair : Setup (List Handle) Unit Unit Unit := listing ["A", "B"] pairAsks

/-- One thread is about to ask for the second type while another constructs it.  The other one waits
for the first type, is notified, and goes on. -/
def pairBuilt : State (List Handle) Unit Unit Unit :=
  let first := runThread pair 1 3 ((State.initial () 0).call pair 1 (plainRequest "A"))
  let second := runThread pair 2 9 (first.call pair 2 (plainRequest "B"))
  runThread pair 2 20 (runThread pair 1 20 second)

/-- Both are there in the end and refer to each other, though one thread waited for the other. -/
theorem pair_confluent : pairBuilt.store.stats.waited = 1 ∧
    ∃ ks, Confluent pairRefs id [plainRequest "B", plainRequest "A"] ks pairBuilt := by
  have hclosed : ∀ r ∈ [plainRequest "B", plainRequest "A"], ∀ r' ∈ pairAsks r,
      r' ∈ [plainRequest "B", plainRequest "A"] := by
    intro r _ r' hr'
    unfold pairAsks at hr'
    split at hr' <;> simp [List.mem_singleton.1 hr']
  have hregular : ∀ r ∈ [plainRequest "B", plainRequest "A"],
      Regular pair pairRefs id r := by
    intro r hr
    have hr : r = plainRequest "B" ∨ r = plainRequest "A" := by simpa using hr
    rcases hr with rfl | rfl
    · exact regular_listing ⟨_, rfl⟩ (by decide) (by decide +kernel)
    · exact regular_listing ⟨_, rfl⟩ (by decide) (by decide +kernel)
  have hneeded : ∀ c, Needed pairRefs [plainRequest "B", plainRequest "A"] c →
      c ∈ [(plainRequest "B").canonical, (plainRequest "A").canonical] := by
    intro c hc
    induction hc with
    | root hr => exact List.mem_map_of_mem (f := Request.canonical) hr
    | ref _ hc' _ =>
        unfold pairRefs at hc'
        split at hc' <;> simp [List.mem_singleton.1 hc']
  have hkeys : ∀ c ∈ [(plainRequest "B").canonical, (plainRequest "A").canonical],
      ∀ c' ∈ [(plainRequest "B").canonical, (plainRequest "A").canonical],
      Key.ofCanonical c = Key.ofCanonical c' → c = c' := by decide +kernel
  have hstart := Session.initial (R := pair) () 0
  obtain ⟨ks₁, hfirst⟩ := (hstart.event (.call 1 (plainRequest "A") rfl)).steps
    (steps_runThread pair 1 3 _)
  obtain ⟨ks₂, hsecond⟩ := (hfirst.event (.call 2 (plainRequest "B") (by decide +kernel))).steps
    (steps_runThread pair 2 9 _)
  obtain ⟨ks₃, hthird⟩ := hsecond.steps (steps_runThread pair 1 20 _)
  obtain ⟨ks, hlast⟩ := hthird.steps (steps_runThread pair 2 20 _)
  have hruns : Session pair [plainRequest "B", plainRequest "A"] ks pairBuilt := by
    rw [pairBuilt]
    exact hlast
  have hout : ∀ p ∈ pairBuilt.threads, p.2.stage.isOutside = true := by decide +kernel
  refine ⟨by decide +kernel, ks, confluent_of_regular hruns
    (fun r hr => hregular r (hr.mem_family hclosed fun _ h => h))
    (fun c c' hc hc' => hkeys c (hneeded c hc) c' (hneeded c' hc')) ?_⟩
  exact State.forall_thread (P := fun th => th.stage.isOutside = true) rfl hout

/-! ### Two types with one key -/

section Crossing

open Hash (crossText)
open Text (quotedChars escaped)

/-- A type of the name that the characters spell. -/
def spelled (cs : List Char) : Identifier := .bare (String.ofList cs)

/-- A type that refers to another one, with a text before the reference and one after it. -/
def referring (before name after : List Char) : Identifier :=
  (((Identifier.bare "T").withOption "a" (.text (String.ofList before))).withOption "of"
    (.type (spelled name))).withOption "z" (.text (String.ofList after))

theorem config_referring (before name after : List Char) :
    (referring before name after).config = [("a", .text (String.ofList before)),
      ("of", .type (spelled name)), ("z", .text (String.ofList after))] := rfl

theorem sorted_referring (before name after : List Char) :
    Dictionary.sorted (referring before name after).config
      = (referring before name after).config := by
  refine List.mergeSort_of_pairwise ?_
  rw [config_referring]
  have hle : "a" ≤ "of" ∧ "a" ≤ "z" ∧ "of" ≤ "z" := by decide
  simp [hle]

/-- The letters of the types below stand for themselves. -/
theorem escaped_letter {c : Char}
    (h : c ∈ ['T', 'a', 'c', 'f', 'o', 'p', 'x', 'z', '9', 'B', 'W', 'R']) : escaped c = [c] := by
  have hall : ∀ c ∈ ['T', 'a', 'c', 'f', 'o', 'p', 'x', 'z', '9', 'B', 'W', 'R'],
      Text.isPlain c = true := List.all_eq_true.1 (by decide)
  exact Text.escaped_of_isPlain (hall c h)

/-- A text of characters that stand for themselves. -/
theorem quotedChars_of_plain {cs : List Char} (h : ∀ c ∈ cs, escaped c = [c]) :
    quotedChars cs = '"' :: (cs ++ ['"']) := by
  have hflat : cs.flatMap escaped = cs := by
    induction cs with
    | nil => rfl
    | cons c cs ih =>
        obtain ⟨hc, hcs⟩ := List.forall_mem_cons.1 h
        rw [List.flatMap_cons, hc, ih hcs]
        rfl
  rw [quotedChars, hflat]

theorem chars_spelled {cs : List Char} (h : ∀ c ∈ cs, escaped c = [c]) :
    (spelled cs).chars = '"' :: (cs ++ ['"']) := by
  have hbare : (spelled cs).isBare = true := rfl
  have hname : (spelled cs).name.toList = cs := String.toList_ofList
  rw [Identifier.chars_eq, if_pos hbare, List.append_nil, hname, quotedChars_of_plain h]

/-- The canonical identity of a type that refers to another one. -/
theorem canonical_referring {before name after : List Char} (hb : ∀ c ∈ before, escaped c = [c])
    (hn : ∀ c ∈ name, escaped c = [c]) (ha : ∀ c ∈ after, escaped c = [c]) :
    canonicalIdentity (referring before name after) none = String.ofList
      (['"', 'T', '"', '\x7b', '"', 'a', '"', ':', '"'] ++ before
        ++ ['"', ',', '"', 'o', 'f', '"', ':', '@', '"'] ++ name
        ++ ['"', ',', '"', 'z', '"', ':', '"'] ++ after ++ ['"', '\x7d', '#', '~']) := by
  have hbare : (referring before name after).isBare = false := rfl
  have hname : (referring before name after).name = "T" := rfl
  have hT : quotedChars ['T'] = ['"', 'T', '"'] :=
    quotedChars_of_plain (by simp [escaped_letter])
  have ha' : quotedChars ['a'] = ['"', 'a', '"'] :=
    quotedChars_of_plain (by simp [escaped_letter])
  have hof : quotedChars ['o', 'f'] = ['"', 'o', 'f', '"'] :=
    quotedChars_of_plain (by simp [escaped_letter])
  have hz : quotedChars ['z'] = ['"', 'z', '"'] :=
    quotedChars_of_plain (by simp [escaped_letter])
  rw [← String.toList_inj, toList_canonicalIdentity, Identifier.chars_eq, sorted_referring,
    config_referring, hbare, hname]
  simp [optionChars, Value.chars_text, Value.chars_type, chars_spelled hn, hT, ha', hof, hz,
    quotedChars_of_plain hb, quotedChars_of_plain ha, scopeChars, List.intercalate]

/-- A type that refers to another one by a name that ends with the first letter.  The second letter
stands in the text after it. -/
def crossed (p q : Char) : Identifier :=
  referring (List.replicate 14 'x') ['p', 'a', 'a', 'a', p]
    (List.replicate 52 'x' ++ ['9', 'B', 'W', 'R'] ++ q :: List.replicate 136 'x')

theorem canonical_crossed {p q : Char} (hp : escaped p = [p]) (hq : escaped q = [q]) :
    canonicalIdentity (crossed p q) none = String.ofList (crossText p q) := by
  rw [crossed, canonical_referring]
  · simp [-List.reduceReplicate, crossText, Hash.crossHead, Hash.crossMiddle, Hash.crossTail]
  · simp [escaped_letter]
  · simp [escaped_letter, hp]
  · simp [-List.reduceReplicate, escaped_letter, hq, or_imp, forall_and]

/-- The request for the type. -/
def crossedRequest (p q : Char) : Request := ⟨crossed p q, none⟩

/-- The request for what it refers to. -/
def spelledRequest (p : Char) : Request := ⟨spelled ['p', 'a', 'a', 'a', p], none⟩

/-- A type asks for what its option refers to. -/
def crossingAsks (r : Request) : List Request :=
  ((r.identifier.option? "of").bind Value.type?).toList.map fun id => ⟨id, r.context⟩

/-- The references, by identity. -/
def crossingRefs (c : String) : List String :=
  if c = (crossedRequest 'a' 'c').canonical then [(spelledRequest 'a').canonical]
  else if c = (crossedRequest 'c' 'a').canonical then [(spelledRequest 'c').canonical]
  else []

/-- A registry of the types. -/
def crossing : Setup (List Handle) Unit Unit Unit := listing ["T", "paaaa", "paaac"] crossingAsks

/-- All requests of the registry. -/
def crossingRequests : List Request :=
  [crossedRequest 'c' 'a', crossedRequest 'a' 'c', spelledRequest 'a', spelledRequest 'c']

/-- Both types have one key. -/
theorem key_crossed : Key.ofCanonical (crossedRequest 'a' 'c').canonical
    = Key.ofCanonical (crossedRequest 'c' 'a').canonical := by
  have hsize : ∀ c ∈ crossText 'a' 'c', c.utf8Size = 1 :=
    List.all_iff_forall_prop.1 (by decide +kernel)
  have hsize' : ∀ c ∈ crossText 'c' 'a', c.utf8Size = 1 :=
    List.all_iff_forall_prop.1 (by decide +kernel)
  have ha : escaped 'a' = ['a'] := escaped_letter (by simp)
  have hc : escaped 'c' = ['c'] := escaped_letter (by simp)
  simp only [Key.ofCanonical, Request.canonical, crossedRequest, canonical_crossed ha hc,
    canonical_crossed hc ha, Hash.data_toUTF8_ofList hsize, Hash.data_toUTF8_ofList hsize']
  exact congrArg Key.mk Hash.xxh3_crossBytes

theorem crossingRefs_canonical {r : Request} (hr : r ∈ crossingRequests) :
    (crossingAsks r).map Request.canonical = crossingRefs r.canonical := by
  have ha : escaped 'a' = ['a'] := escaped_letter (by simp)
  have hc : escaped 'c' = ['c'] := escaped_letter (by simp)
  have hspelled : ∀ p, escaped p = [p] → (spelledRequest p).canonical.toList.length = 9 := by
    intro p hp
    have hplain : ∀ c ∈ ['p', 'a', 'a', 'a', p], escaped c = [c] := by
      simp [escaped_letter, hp]
    rw [Request.canonical, spelledRequest, toList_canonicalIdentity, chars_spelled hplain]
    rfl
  have hcrossed : ∀ p q, escaped p = [p] → escaped q = [q] →
      (crossedRequest p q).canonical = String.ofList (crossText p q) :=
    fun p q hp hq => canonical_crossed hp hq
  have hne : (crossedRequest 'c' 'a').canonical ≠ (crossedRequest 'a' 'c').canonical := by
    rw [hcrossed _ _ ha hc, hcrossed _ _ hc ha, ne_eq, String.ofList_inj]
    simp [-List.reduceReplicate, crossText, Hash.crossHead, Hash.crossMiddle, Hash.crossTail]
  have hne' : ∀ p p' q', escaped p = [p] → escaped p' = [p'] → escaped q' = [q'] →
      (spelledRequest p).canonical ≠ (crossedRequest p' q').canonical := by
    intro p p' q' hp hp' hq' h
    have hlength := hspelled p hp
    rw [h, hcrossed _ _ hp' hq', String.toList_ofList] at hlength
    exact absurd hlength (by
      simp [-List.reduceReplicate, crossText, Hash.crossHead, Hash.crossMiddle, Hash.crossTail])
  simp only [crossingRequests, List.mem_cons, List.not_mem_nil, or_false] at hr
  rcases hr with rfl | rfl | rfl | rfl
  · rw [crossingRefs, if_neg hne, if_pos rfl]
    rfl
  · rw [crossingRefs, if_pos rfl]
    rfl
  · rw [crossingRefs, if_neg (hne' _ _ _ ha ha hc), if_neg (hne' _ _ _ ha hc ha)]
    rfl
  · rw [crossingRefs, if_neg (hne' _ _ _ hc ha hc), if_neg (hne' _ _ _ hc hc ha)]
    rfl

theorem regular_crossing {r : Request} (hr : r ∈ crossingRequests) :
    Regular crossing crossingRefs id r := by
  have hfaults : ∀ r ∈ crossingRequests, r.identifier.fault? = none ∧
      r.identifier.name ∈ ["T", "paaaa", "paaac"] := by decide
  obtain ⟨hfault, hname⟩ := hfaults r hr
  refine regular_listing ⟨_, (Key.ofIdentifier_eq_ok_iff _ _ _).2 ⟨hfault, rfl⟩⟩ hname
    (crossingRefs_canonical hr)

/-- **Types with one key are mixed up.**  The second request is answered with the instance of the
first, and what only the second one refers to is never constructed. -/
theorem crossing_not_confluent : ∃ (rs : List Request) (ks : List Key)
    (s : State (List Handle) Unit Unit Unit), Session crossing rs ks s ∧
      (∀ t, (s.thread t).stage.isOutside = true) ∧
      (∀ r, Arises crossing Granted rs r → Regular crossing crossingRefs id r) ∧
      ¬ Confluent crossingRefs id rs ks s := by
  have hclosed : ∀ r ∈ crossingRequests, ∀ r' ∈ crossingAsks r, r' ∈ crossingRequests := by
    intro r hr r' hr'
    simp only [crossingRequests, List.mem_cons, List.not_mem_nil, or_false] at hr
    rcases hr with rfl | rfl | rfl | rfl
    · obtain rfl : r' = spelledRequest 'c' := List.mem_singleton.1 hr'
      simp [crossingRequests]
    · obtain rfl : r' = spelledRequest 'a' := List.mem_singleton.1 hr'
      simp [crossingRequests]
    · exact absurd hr' List.not_mem_nil
    · exact absurd hr' List.not_mem_nil
  have hfin : Finitary crossing (crossingRequests.map fun r => Key.ofCanonical r.canonical)
      (· ∈ crossingRequests) :=
    finitary_listing hclosed fun r hr k hk =>
      List.mem_map.2 ⟨r, hr, (Request.eq_ofCanonical hk).symm⟩
  -- one thread makes both requests
  have hstart := Session.initial (R := crossing) () 0
  obtain ⟨n, -, hout, hidle, -⟩ := resolve_ends hfin (r := crossedRequest 'a' 'c')
    (by simp [crossingRequests]) hstart.reachable (fun _ => rfl) rfl
  obtain ⟨ks, hfirst⟩ := (hstart.event (.call 0 (crossedRequest 'a' 'c') rfl)).steps
    (steps_runThread crossing 0 n _)
  obtain ⟨n', -, hout', -, -⟩ := resolve_ends hfin (r := crossedRequest 'c' 'a')
    (by simp [crossingRequests]) hfirst.reachable hout hidle
  obtain ⟨ks', hsecond⟩ := (hfirst.event (.call 0 (crossedRequest 'c' 'a') hidle)).steps
    (steps_runThread crossing 0 n' _)
  refine ⟨_, ks', _, hsecond, hout', fun r hr => regular_crossing (hr.mem_family hclosed ?_), ?_⟩
  · simp [crossingRequests]
  · intro hconfluent
    obtain ⟨i, x, hi, hx, hlinks, -⟩ := hconfluent.linked (crossedRequest 'a' 'c').canonical
      (.root (by simp))
    obtain ⟨i', x', hi', hx', hlinks', -⟩ := hconfluent.linked (crossedRequest 'c' 'a').canonical
      (.root (by simp))
    -- both have the same instance, and so the same links
    rw [key_crossed, hi', Option.some.injEq] at hi
    subst hi
    rw [hx', Option.some.injEq] at hx
    subst hx
    rw [hlinks, ← crossingRefs_canonical (by simp [crossingRequests]),
      ← crossingRefs_canonical (by simp [crossingRequests])] at hlinks'
    have hkey : Key.ofCanonical (spelledRequest 'a').canonical
        = Key.ofCanonical (spelledRequest 'c').canonical := List.head_eq_of_cons_eq hlinks'
    exact absurd hkey (by decide +kernel)

end Crossing

end SchemaGraph.Registry
