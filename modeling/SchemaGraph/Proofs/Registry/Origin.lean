/-
**Where instances come from.**

Every instance was made by the factory of a request, and what a key leads to was handed over by the
factory of a request with the key, along a path on which each request was answered by the registry:
with a handle of its own key, or with an error.  That holds for every registry, however its
constructions interleave and fail.

Some requests can be relied on: those whose factories never fail, as long as the requests that they
make can be relied on too.  Such a request is never answered with an error, whatever happens to
others, its key is never forgotten, and its slot is never abandoned.

Main definitions:

* `Reaches` — a path of the factory of a request;
* `Permitted`, `Holds` — what a request may be answered with, at any time and in a state;
* `Reliable` — requests that can be relied on, among those of a run;
* `Yields` — a construction of a key hands something over;
* `Traceable` — **the invariant**: each call was made by the construction below it, along a path of
  its factory, and each instance was handed over along such a path.

Main results:

* `Traceable.keeps` — a key that can be relied on is not forgotten;
* `Holds.motion` — an answer stays what it was;
* `Session.traceable` — the invariant holds in every state of a run.
-/

import SchemaGraph.Proofs.Registry.Motion

set_option autoImplicit false

namespace SchemaGraph.Registry

open Relation (ReflGen ReflTransGen)

variable {ι σ ε ν : Type} {R : Setup ι σ ε ν} {V D : Request → Prop} {s s' : State ι σ ε ν}
  {t : ThreadId} {k : Key} {h : Handle} {r : Request}

/-! ### Paths of a construction -/

/-- The construction of a request comes to a program, its own requests answered as listed. -/
def Reaches (R : Setup ι σ ε ν) (A : Request → Answer ε → Prop) (r : Request)
    (log : List (Request × Answer ε)) (p : Program ι σ ε ν) : Prop :=
  ∃ key factory, r.key = .ok key ∧
    Dictionary.find? r.identifier.name R.factories = some factory ∧
    (factory.build ⟨r.identifier, r.context, key⟩).Leads A log p

theorem Reaches.mono {A B : Request → Answer ε → Prop} {log : List (Request × Answer ε)}
    {p : Program ι σ ε ν} (hp : Reaches R A r log p) (hAB : ∀ r a, A r a → B r a) :
    Reaches R B r log p := by
  obtain ⟨key, factory, hk, hf, hl⟩ := hp
  exact ⟨key, factory, hk, hf, hl.mono hAB⟩

theorem Reaches.trans {A : Request → Answer ε → Prop} {log log' : List (Request × Answer ε)}
    {p q : Program ι σ ε ν} (hp : Reaches R A r log p) (hq : p.Leads A log' q) :
    Reaches R A r (log ++ log') q := by
  obtain ⟨key, factory, hk, hf, hl⟩ := hp
  exact ⟨key, factory, hk, hf, hl.trans hq⟩

theorem Reaches.answered {A : Request → Answer ε → Prop} {log : List (Request × Answer ε)}
    {p : Program ι σ ε ν} (hp : Reaches R A r log p) : ∀ x ∈ log, A x.1 x.2 := by
  obtain ⟨key, factory, hk, hf, hl⟩ := hp
  exact hl.answered

theorem Reaches.asked {A : Request → Answer ε → Prop} {log : List (Request × Answer ε)}
    {p : Program ι σ ε ν} (hp : Reaches R A r log p) {x : Request × Answer ε} (hx : x ∈ log) :
    ∃ log₀ next, Reaches R A r log₀ (.resolve x.1 next) := by
  obtain ⟨key, factory, hk, hf, hl⟩ := hp
  obtain ⟨log₀, next, hl⟩ := hl.asked hx
  exact ⟨log₀, next, key, factory, hk, hf, hl⟩

theorem Reaches.goes {A : Request → Answer ε → Prop} {log : List (Request × Answer ε)}
    {p q : Program ι σ ε ν} (hp : Reaches R A r log p) (hq : p.Goes q) : Reaches R A r log q := by
  have hl : p.Leads A [] q := by
    cases hq with
    | note f k n => exact .note n (.refl _)
    | inspect k S => exact .inspect S (.refl _)
    | say event next => exact .say (.refl _)
    | gate name next => exact .gate (.refl _)
  simpa using hp.trans hl

/-- The requests that a run can lead to, from those that are made from outside. -/
inductive Arises (R : Setup ι σ ε ν) (A : Request → Answer ε → Prop) (rs : List Request) :
    Request → Prop where
  | root {r : Request} : r ∈ rs → Arises R A rs r
  | asked {r r' : Request} {log : List (Request × Answer ε)} {next : Answer ε → Program ι σ ε ν} :
      Arises R A rs r → Reaches R A r log (.resolve r' next) → Arises R A rs r'

/-! ### Answers -/

/-- What a request may be answered with: a handle of the key that it asks for, or an error, unless
the request can be relied on. -/
def Permitted (D : Request → Prop) (r : Request) : Answer ε → Prop
  | .ok h => r.key = .ok h.key
  | .error _ => ¬ D r

/-- The construction behind a handle did not fail. -/
def Handle.Unharmed (h : Handle) (S : Store ι) : Prop :=
  ∀ q, h.target = .slot q → S.slotState? q ≠ some .abandoned

/-- What a request was answered with, seen in a state. -/
def Holds (D : Request → Prop) (s : State ι σ ε ν) (r : Request) : Answer ε → Prop
  | .ok h => r.key = .ok h.key ∧ Coherent s h ∧ (D r → h.Unharmed s.store)
  | .error _ => ¬ D r

theorem Holds.permitted {a : Answer ε} (ha : Holds D s r a) : Permitted D r a := by
  cases a with
  | ok h => exact ha.1
  | error e => exact ha

theorem Permitted.weaken {a : Answer ε} (ha : Permitted D r a) :
    Permitted (fun _ => False) r a := by
  cases a with
  | ok h => exact ha
  | error e => exact not_false

/-- A request that a run can make, after the given ones were made from outside. -/
def Possible (R : Setup ι σ ε ν) (rs : List Request) : Request → Prop :=
  Arises R (Permitted fun _ => False) rs

/-- No two identities that a run can ask for have one key. -/
def Apart (R : Setup ι σ ε ν) (rs : List Request) : Prop :=
  ∀ {r r' : Request} {k : Key}, Possible R rs r → Possible R rs r' → r.key = .ok k →
    r'.key = .ok k → r.canonical = r'.canonical

theorem Arises.subset {A : Request → Answer ε → Prop} {rs rs' : List Request} (hsub : rs ⊆ rs')
    (hr : Arises R A rs r) : Arises R A rs' r := by
  induction hr with
  | root hr => exact .root (hsub hr)
  | asked _ hp ih => exact .asked ih hp

theorem Apart.subset {rs rs' : List Request} (hsub : rs ⊆ rs') (h : Apart R rs') : Apart R rs :=
  fun hr hr' => h (Arises.subset hsub hr) (Arises.subset hsub hr')

/-- Requests that can be relied on (`D`), among all those of a run (`V`). -/
structure Reliable (R : Setup ι σ ε ν) (V D : Request → Prop) : Prop where
  /-- factories make requests of the run -/
  asks : ∀ {r r' : Request} {log : List (Request × Answer ε)} {next : Answer ε → Program ι σ ε ν},
    V r → Reaches R (Permitted D) r log (.resolve r' next) → V r'
  /-- a key tells whether a request can be relied on -/
  sound : ∀ {r r' : Request} {k : Key}, V r → D r' → r.key = .ok k → r'.key = .ok k → D r
  /-- there is a factory -/
  served : ∀ {r : Request}, D r → ¬ Refuses R r
  /-- there is a key -/
  keyed : ∀ {r : Request}, D r → ∃ k, r.key = .ok k
  /-- the factory does not fail -/
  steady : ∀ {r : Request} {log : List (Request × Answer ε)} {p : Program ι σ ε ν}
    {failure : Failure ε}, D r → Reaches R (Permitted D) r log p → ¬ p.Fails failure
  /-- the factory makes requests that can be relied on -/
  within : ∀ {r r' : Request} {log : List (Request × Answer ε)}
    {next : Answer ε → Program ι σ ε ν},
    D r → Reaches R (Permitted D) r log (.resolve r' next) → D r'

/-- Nothing has to be relied on. -/
theorem Reliable.nothing (hV : ∀ {r r' : Request} {log : List (Request × Answer ε)}
    {next : Answer ε → Program ι σ ε ν}, V r →
      Reaches R (Permitted fun _ => False) r log (.resolve r' next) → V r') :
    Reliable R V fun _ => False :=
  ⟨hV, fun _ hf => hf.elim, False.elim, False.elim, False.elim, False.elim⟩

/-! ### The invariant -/

/-- A call knows its key, and was made by the construction below it. -/
structure Proper (R : Setup ι σ ε ν) (V D : Request → Prop) (s : State ι σ ε ν)
    (frames : List (Frame ι σ ε ν)) (c : Call ι σ ε ν) : Prop where
  key : c.request.key = .ok c.key
  allowed : V c.request
  bottom : frames = [] → c.resume = none
  waited : ∀ f rest, frames = f :: rest → ∃ next log, c.resume = some next ∧
    Reaches R (Holds D s) f.call.request log (.resolve c.request next)

/-- Each construction was asked for by the one below it. -/
def Woven (R : Setup ι σ ε ν) (V D : Request → Prop) (s : State ι σ ε ν) :
    List (Frame ι σ ε ν) → Prop
  | [] => True
  | f :: frames => Proper R V D s frames f.call ∧ Woven R V D s frames

/-- What a thread does next suits the constructions that it has in progress. -/
def Stage.Suits (R : Setup ι σ ε ν) (V D : Request → Prop) (s : State ι σ ε ν)
    (frames : List (Frame ι σ ε ν)) : Stage ι σ ε ν → Prop
  | .running p => ∃ f rest, frames = f :: rest ∧
      ((∃ log, Reaches R (Holds D s) f.call.request log p) ∨
        ¬ D f.call.request ∧ ∃ message, p = .panic message)
  | .looking c _ | .asleep c _ | .ending c (.ok _) => Proper R V D s frames c
  | .fulfilling f _ => Proper R V D s frames f.call
  | .ending c (.error _) | .failing c _ => Proper R V D s frames c ∧ ¬ D c.request
  | .reporting c _ h => Proper R V D s frames c ∧ Holds D s c.request (.ok h)
  | .awaiting _ | .returned _ | .panicked _ | .awaited _ => True

/-- The factory of a request with a key hands something over. -/
def Yields (R : Setup ι σ ε ν) (V D : Request → Prop) (s : State ι σ ε ν) (k : Key) (y : Yield ι) :
    Prop :=
  ∃ r log, V r ∧ r.key = .ok k ∧ Reaches R (Holds D s) r log (.done y)

/-- Constructions and instances can be traced back to requests. -/
structure Traceable (R : Setup ι σ ε ν) (V D : Request → Prop) (s : State ι σ ε ν) : Prop where
  woven : ∀ t, Woven R V D s (s.thread t).frames
  suits : ∀ t, (s.thread t).stage.Suits R V D s (s.thread t).frames
  /-- each instance was new when it was handed over first -/
  made : ∀ {i : InstanceId} {x : ι}, s.store.instances[i]? = some x →
    ∃ k y, Yields R V D s k y ∧ x = y.content
  /-- what a key leads to was handed over for the key, given the store of that moment -/
  given : ∀ {k : Key} {i : InstanceId},
    Dictionary.find? k s.store.table.entries = some (.ready i) →
    ∃ y, Yields R V D s k y ∧ ∃ S : Store ι, s.store.instances[i]? = some (S.yielded y)
  /-- each instance has one key when everything that is handed over is new -/
  distinct : (∀ k y, Yields R V D s k y → ∃ x, y = .new x) → ∀ {k j : Key} {i : InstanceId},
    Dictionary.find? k s.store.table.entries = some (.ready i) →
    Dictionary.find? j s.store.table.entries = some (.ready i) → k = j

theorem traceable_initial (notes : σ) (asked : Nat) :
    Traceable R V D (State.initial notes asked : State ι σ ε ν) where
  woven _ := trivial
  suits _ := trivial
  made hi := by simp [State.initial] at hi
  given hk := by simp [State.initial] at hk
  distinct _ _ _ _ hk := by simp [State.initial] at hk

/-- What a key leads to is stored, and was made for the key if only new instances are handed over. -/
theorem Traceable.given_new (ht : Traceable R V D s)
    (hnew : ∀ {r log y}, V r → r.key = .ok k → Reaches R (Holds D s) r log (.done y) →
      ∃ x, y = .new x) {i : InstanceId}
    (hk : Dictionary.find? k s.store.table.entries = some (.ready i)) :
    ∃ x, s.store.instances[i]? = some x ∧ ∃ r log, V r ∧ r.key = .ok k ∧
      Reaches R (Holds D s) r log (.done (.new x)) := by
  obtain ⟨y, ⟨r, log, hV, hkey, hp⟩, S, hx⟩ := ht.given hk
  obtain ⟨x, rfl⟩ := hnew hV hkey hp
  exact ⟨x, by simpa using hx, r, log, hV, hkey, hp⟩

/-! ### What is kept -/

section Mono

variable (hmono : ∀ r (a : Answer ε), Holds D s r a → Holds D s' r a)
  {frames : List (Frame ι σ ε ν)} {c : Call ι σ ε ν} {stage : Stage ι σ ε ν}

include hmono

theorem Proper.mono (hc : Proper R V D s frames c) : Proper R V D s' frames c where
  key := hc.key
  allowed := hc.allowed
  bottom := hc.bottom
  waited f rest hf := by
    obtain ⟨next, log, hn, hp⟩ := hc.waited f rest hf
    exact ⟨next, log, hn, hp.mono hmono⟩

theorem Woven.mono (hw : Woven R V D s frames) : Woven R V D s' frames := by
  induction frames with
  | nil => trivial
  | cons f frames ih => exact ⟨hw.1.mono hmono, ih hw.2⟩

theorem Stage.Suits.mono (hst : stage.Suits R V D s frames) : stage.Suits R V D s' frames := by
  cases stage with
  | running p =>
      obtain ⟨f, rest, hf, hp⟩ := hst
      exact ⟨f, rest, hf, hp.imp_left fun ⟨log, hl⟩ => ⟨log, hl.mono hmono⟩⟩
  | looking c w => exact Proper.mono hmono hst
  | asleep c w => exact Proper.mono hmono hst
  | fulfilling f i => exact Proper.mono hmono hst
  | ending c result =>
      cases result with
      | ok i => exact Proper.mono hmono hst
      | error e => exact ⟨hst.1.mono hmono, hst.2⟩
  | reporting c o h => exact ⟨hst.1.mono hmono, hmono _ _ hst.2⟩
  | failing c f => exact ⟨hst.1.mono hmono, hst.2⟩
  | _ => trivial

theorem Yields.mono {y : Yield ι} (hy : Yields R V D s k y) : Yields R V D s' k y := by
  obtain ⟨r, log, hV, hk, hp⟩ := hy
  exact ⟨r, log, hV, hk, hp.mono hmono⟩

end Mono

/-- A call that is answered goes on along the path of the construction that made it. -/
theorem Proper.deliver {frames : List (Frame ι σ ε ν)} {c : Call ι σ ε ν} {a : Answer ε}
    (hc : Proper R V D s frames c) (ha : Holds D s c.request a) :
    (c.deliver a).Suits R V D s frames := by
  cases frames with
  | nil =>
      rw [Call.deliver, hc.bottom rfl]
      trivial
  | cons f rest =>
      obtain ⟨next, log, hn, hp⟩ := hc.waited f rest rfl
      rw [Call.deliver, hn]
      exact ⟨f, rest, rfl, Or.inl ⟨_, hp.trans (.answer ha (.refl _))⟩⟩

/-- A failure is passed on to the construction that made the call, which cannot be relied on. -/
theorem Proper.deliverFailure (hR : Reliable R V D) {frames : List (Frame ι σ ε ν)}
    {c : Call ι σ ε ν} (hc : Proper R V D s frames c) (hD : ¬ D c.request) (failure : Failure ε) :
    (c.deliverFailure failure).Suits R V D s frames := by
  cases failure with
  | error e => exact hc.deliver (a := .error _) hD
  | panic message =>
      cases frames with
      | nil =>
          rw [Call.deliverFailure, hc.bottom rfl]
          trivial
      | cons f rest =>
          obtain ⟨next, log, hn, hp⟩ := hc.waited f rest rfl
          rw [Call.deliverFailure, hn]
          refine ⟨f, rest, rfl, Or.inr ⟨fun hf => hD ?_, message, rfl⟩⟩
          exact hR.within hf (hp.mono fun _ _ => Holds.permitted)

/-- What a construction is about to hand over can be traced back to its request. -/
theorem Traceable.yields (ht : Traceable R V D s) {f : Frame ι σ ε ν}
    {frames : List (Frame ι σ ε ν)} {y : Yield ι}
    (hth : s.thread t = ⟨f :: frames, .running (.done y)⟩) : Yields R V D s f.call.key y := by
  have hw := ht.woven t
  obtain ⟨f', rest, hf, hp⟩ : Stage.Suits R V D s (f :: frames) (.running (.done y)) := by
    simpa only [hth] using ht.suits t
  rw [hth] at hw
  obtain ⟨rfl, -⟩ := List.cons.inj hf
  rcases hp with ⟨log, hp⟩ | ⟨-, message, hmessage⟩
  · exact ⟨f.call.request, log, hw.1.allowed, hw.1.key, hp⟩
  · cases hmessage

/-- A construction that fails cannot be relied on. -/
theorem Traceable.not_reliable (hR : Reliable R V D) {frames : List (Frame ι σ ε ν)}
    {f : Frame ι σ ε ν} {p : Program ι σ ε ν} {failure : Failure ε}
    (hp : (Stage.running p).Suits R V D s (f :: frames)) (hfails : p.Fails failure) :
    ¬ D f.call.request := by
  obtain ⟨f', rest, hf, hp⟩ := hp
  obtain ⟨rfl, -⟩ := List.cons.inj hf
  rcases hp with ⟨log, hp⟩ | ⟨hD, -⟩
  · exact fun hD => hR.steady hD (hp.mono fun _ _ => Holds.permitted) hfails
  · exact hD

/-- **A key that can be relied on is not forgotten.** -/
theorem Traceable.keeps (hR : Reliable R V D) (hs : Traceable R V D s) {rs : List Request}
    (hm : Motion R t rs s s') (hD : D r) (hk : r.key = .ok k)
    (hentry : Dictionary.find? k s.store.table.entries ≠ none) :
    Dictionary.find? k s'.store.table.entries ≠ none := by
  have hw := hs.woven t
  have hst := hs.suits t
  cases hm.moved.effect with
  | none hp => rwa [hp.entries]
  | begins c t q _ _ he =>
      rw [he]
      split
      · simp
      · exact hentry
  | publishes f frames y _ he =>
      rw [he]
      split
      · simp
      · exact hentry
  | undoes f frames p failure hth hfails he =>
      rw [hth] at hw hst
      rw [he]
      split
      · rename_i hfk
        have hkey : f.call.request.key = .ok k := by rw [hw.1.key, hfk]
        exact absurd (hR.sound hw.1.allowed hD hkey hk) (not_reliable hR hst hfails)
      · exact hentry

/-! ### Answers stay what they were -/

/-- The slot that a handle was given is abandoned only when its key is forgotten. -/
theorem Change.forgets (hc : Change s s') (hs : Legal s) (hh : Coherent s h) {q : SlotId}
    (hq : h.target = .slot q) (hold : s.store.slotState? q ≠ some .abandoned)
    (hnew : s'.store.slotState? q = some .abandoned) :
    Dictionary.find? h.key s.store.table.entries ≠ none ∧
      Dictionary.find? h.key s'.store.table.entries = none := by
  have ht : Tracks s h.key q := by simpa only [Coherent, hq] using hh
  have hsame : s'.store.slotState? q ≠ s.store.slotState? q := fun he => hold (he ▸ hnew)
  rcases hc.quiet_or_turn hs.owned with hc | hc
  · exact absurd (hc.state q) hsame
  cases hc with
  | claim t k _ hS =>
      obtain ⟨hself, hother, -⟩ := hs.slotted.claimed k t
      by_cases hp : (s.store.claim t k).1 = q
      · rw [hS, ← hp, hself] at hnew
        exact absurd hnew (by simp)
      · exact absurd (by rw [hS, hother q hp]) hsame
  | publish t k p y _ hS =>
      exact absurd (Store.slotState?_congr (by rw [hS]; rfl) q) hsame
  | fulfil t k p i hf _ hS =>
      by_cases hp : p = q
      · subst hp
        rw [hS, Store.slotState?_fulfil_self (hs.slotted.state (.fulfilling hf))] at hnew
        exact absurd hnew (by simp)
      · exact absurd (by rw [hS, Store.slotState?_fulfil _ _ _ _ hp]) hsame
  | rollBack t k p hpend hS =>
      by_cases hp : p = q
      · subst hp
        obtain rfl := ht.key_eq hs.slotted (.pending hpend)
        rw [hS, Store.find?_rollBack, if_pos rfl, hpend]
        exact ⟨by simp, rfl⟩
      · exact absurd (by rw [hS, Store.slotState?_rollBack hp]) hsame

theorem Takes.forgets (hn : Takes s s') (hs : Legal s) (hh : Coherent s h) {q : SlotId}
    (hq : h.target = .slot q) (hold : s.store.slotState? q ≠ some .abandoned)
    (hnew : s'.store.slotState? q = some .abandoned) :
    Dictionary.find? h.key s.store.table.entries ≠ none ∧
      Dictionary.find? h.key s'.store.table.entries = none := by
  obtain ⟨s₁, hpre, hc⟩ := hn
  induction hpre using ReflTransGen.head_induction_on with
  | refl =>
      cases hc with
      | refl => exact absurd hnew hold
      | single hc => exact hc.forgets hs hh hq hold hnew
  | head hp _ ih =>
      have hc' : Change _ _ := .prelude hp
      rw [← hp.entries_eq]
      exact ih (hs.change hc') (hc'.coherent hs hh) (by rwa [hp.quiet.state])

/-- **An answer stays what it was.** -/
theorem Traceable.holds (hR : Reliable R V D) (ht : Traceable R V D s) (hs : Legal s)
    {rs : List Request} (he : Event R s rs s') {a : Answer ε} (ha : Holds D s r a) :
    Holds D s' r a := by
  cases a with
  | error e => exact ha
  | ok h =>
      obtain ⟨hk, hh, hun⟩ := ha
      refine ⟨hk, hs.coherent_of_changes he.next.takes.changes hh, fun hD q hq hnew => ?_⟩
      obtain ⟨hentry, hnone⟩ := he.next.takes.forgets hs hh hq (hun hD q hq) hnew
      obtain ⟨t, hm⟩ := he.motion
      exact ht.keeps hR hm hD hk hentry hnone

/-! ### The invariant is kept -/

section Kept

variable {frames : List (Frame ι σ ε ν)} {stage : Stage ι σ ε ν} {c : Call ι σ ε ν}

/-- The call that is about to look up its key was made by the construction below it. -/
theorem Stage.Suits.looks (hst : stage.Suits R V D s frames) (hl : stage.looks = some c) :
    Proper R V D s frames c := by
  cases stage with
  | looking c' w =>
      obtain rfl := Option.some.inj hl
      exact hst
  | asleep c' notified =>
      cases notified with
      | false => simp [Stage.looks] at hl
      | true =>
          obtain rfl := Option.some.inj hl
          exact hst
  | _ => simp [Stage.looks] at hl

/-- What a thread does next still suits its constructions.  The state before has the invariant,
what it says of answers is kept, and a handle that is given out agrees with the table. -/
theorem Moved.suits (hR : Reliable R V D) (hl : Legal s') {new : List Request}
    (hnew : ∀ r ∈ new, V r) (hmono : ∀ r (a : Answer ε), Holds D s r a → Holds D s' r a)
    {th th' : Thread ι σ ε ν} (hm : Moved R s.store s'.store new th th')
    (hw : Woven R V D s th.frames) (hst : th.stage.Suits R V D s th.frames)
    (hgiven : ∀ c o h, th'.stage = .reporting c o h → Coherent s' h) :
    Woven R V D s' th'.frames ∧ th'.stage.Suits R V D s' th'.frames := by
  have hw' := hw.mono hmono
  have hst' := hst.mono hmono
  cases hm with
  | stays => exact ⟨hw', hst'⟩
  | @arrives _ r key hp hr hk =>
      exact ⟨trivial, ⟨hk, hnew r (by simp), fun _ => rfl, fun f rest h => by simp at h⟩⟩
  | misled | awaits => exact ⟨trivial, trivial⟩
  | arrived => exact ⟨hw', trivial⟩
  | goes hp hgoes =>
      obtain ⟨f, rest, hf, hp⟩ := hst'
      refine ⟨hw', f, rest, hf, ?_⟩
      rcases hp with ⟨log, hp⟩ | ⟨-, message, rfl⟩
      · exact Or.inl ⟨log, hp.goes hgoes⟩
      · cases hgoes
  | @asks f frames r key next hp hk =>
      obtain ⟨f', rest, hf, hp⟩ := hst'
      obtain ⟨rfl, -⟩ := List.cons.inj hf
      rcases hp with ⟨log, hp⟩ | ⟨-, message, hmessage⟩
      · refine ⟨hw', ⟨hk, ?_, fun h => by simp at h, fun g rest' h => ?_⟩⟩
        · exact hR.asks hw.1.allowed (hp.mono fun _ _ => Holds.permitted)
        · obtain ⟨rfl, -⟩ := List.cons.inj h
          exact ⟨next, log, rfl, hp⟩
      · cases hmessage
  | @misasks f frames r reason next e hp hk =>
      obtain ⟨f', rest, hf, hp⟩ := hst'
      obtain ⟨rfl, -⟩ := List.cons.inj hf
      rcases hp with ⟨log, hp⟩ | ⟨-, message, hmessage⟩
      · have hD : ¬ D r := fun hD => by
          obtain ⟨k, hk'⟩ := hR.keyed hD
          simp [hk] at hk'
        refine ⟨hw', f, frames, rfl, Or.inl ⟨_, hp.trans (.answer ?_ (.refl _))⟩⟩
        exact hD
      · cases hmessage
  | refused e hp hlooks hrefuses =>
      have hD := fun hD => hR.served hD hrefuses
      exact ⟨hw', (hst'.looks hlooks).deliver (a := .error e) hD⟩
  | hits o hp hlooks he =>
      have hc := hst'.looks hlooks
      exact ⟨hw', hc, hc.key, hgiven _ _ _ rfl, fun _ q hq => by simp at hq⟩
  | @defers frames stage c u q hp hlooks he =>
      have hc := hst'.looks hlooks
      refine ⟨hw', hc, hc.key, hgiven _ _ _ rfl, fun _ q' hq hab => ?_⟩
      -- the slot of a construction in progress waits
      have hu : Uses s' c.key q .waiting := .pending (by rw [hp.entries, he])
      obtain rfl := Target.slot.inj hq
      simp [hl.slotted.state hu] at hab
  | sleeps hp hlooks => exact ⟨hw', hst'.looks hlooks⟩
  | @claims frames stage c factory f t hlooks hf hnone hfactory =>
      subst hf
      have hc := hst'.looks hlooks
      refine ⟨⟨hc, hw'⟩, f, frames, rfl, Or.inl ⟨[], f.call.key, factory, hc.key, hfactory, ?_⟩⟩
      exact .refl _
  | publishes => exact ⟨hw'.2, hw'.1⟩
  | undoes hfails => exact ⟨hw'.2, hw'.1, Traceable.not_reliable hR hst hfails⟩
  | fulfils => exact ⟨hw', hst'⟩
  | succeeds =>
      have hc : Proper R V D s' _ _ := hst'
      exact ⟨hw', hc, hc.key, hgiven _ _ _ rfl, fun _ q hq => by simp at hq⟩
  | failed => exact ⟨hw', hst'⟩
  | reports => exact ⟨hw', hst'.1.deliver hst'.2⟩
  | reportsFailure => exact ⟨hw', hst'.1.deliverFailure hR hst'.2 _⟩

end Kept

theorem Stage.suits_notify {th : Thread ι σ ε ν} {frames : List (Frame ι σ ε ν)}
    (h : th.stage.Suits R V D s frames) : th.notify.stage.Suits R V D s frames := by
  obtain ⟨_, stage⟩ := th
  cases stage <;> exact h

/-- What each thread does next still suits its constructions: the others are notified at most. -/
theorem Motion.suits (hR : Reliable R V D) {new : List Request} (hm : Motion R t new s s')
    (hl : Legal s') (hnew : ∀ r ∈ new, V r)
    (hmono : ∀ r (a : Answer ε), Holds D s r a → Holds D s' r a)
    (hw : ∀ u, Woven R V D s (s.thread u).frames)
    (hst : ∀ u, (s.thread u).stage.Suits R V D s (s.thread u).frames) (u : ThreadId) :
    Woven R V D s' (s'.thread u).frames ∧
      (s'.thread u).stage.Suits R V D s' (s'.thread u).frames := by
  by_cases hu : u = t
  · subst hu
    exact hm.moved.suits hR hl hnew hmono (hw u) (hst u) fun c o h hst => hl.coherent_reporting hst
  · rcases hm.beside u hu with h | h <;> rw [h]
    · exact ⟨(hw u).mono hmono, (hst u).mono hmono⟩
    · rw [Thread.frames_notify]
      exact ⟨(hw u).mono hmono, Stage.suits_notify ((hst u).mono hmono)⟩

/-- **An event keeps the invariant.** -/
theorem Traceable.event (hR : Reliable R V D) (ht : Traceable R V D s) (hs : Legal s)
    {new : List Request} (hnew : ∀ r ∈ new, V r) (he : Event R s new s') :
    Traceable R V D s' := by
  have hl := hs.changes he.next.takes.changes
  have hmono : ∀ r (a : Answer ε), Holds D s r a → Holds D s' r a :=
    fun r a => ht.holds hR hs he
  obtain ⟨t, hm⟩ := he.motion
  have heff := hm.moved.effect
  have hkept := hm.suits hR hl hnew hmono ht.woven ht.suits
  refine ⟨fun u => (hkept u).1, fun u => (hkept u).2, fun {i x} hi => ?_, fun {k i} hk => ?_,
    fun hall {k j i} hk hj => ?_⟩
  · rcases heff.made hi with hold | ⟨f, frames, y, hth, rfl⟩
    · obtain ⟨k, y, hy, hx⟩ := ht.made hold
      exact ⟨k, y, hy.mono hmono, hx⟩
    · exact ⟨f.call.key, y, (ht.yields hth).mono hmono, rfl⟩
  · rcases heff.ready hk with hold | ⟨f, frames, y, hth, rfl, rfl, hi⟩
    · obtain ⟨y, hy, S, hx⟩ := ht.given hold
      exact ⟨y, hy.mono hmono, S, heff.instances hx⟩
    · exact ⟨y, (ht.yields hth).mono hmono, s.store, hi⟩
  · -- a new instance has a number of its own
    have hfresh : ∀ {k : Key} {i : InstanceId},
        Dictionary.find? k s.store.table.entries = some (.ready i) → i ≠ s.store.instances.size := by
      intro k i hk
      obtain ⟨y, -, S, hx⟩ := ht.given hk
      exact Nat.ne_of_lt (Array.getElem?_eq_some_iff.1 hx).1
    have hplace : ∀ {f : Frame ι σ ε ν} {frames : List (Frame ι σ ε ν)} {y : Yield ι},
        s.thread t = ⟨f :: frames, .running (.done y)⟩ → s.store.place y = s.store.instances.size := by
      intro f frames y hth
      obtain ⟨x, rfl⟩ := hall _ _ ((ht.yields hth).mono hmono)
      rfl
    rcases heff.ready hk with hold | ⟨f, frames, y, hth, hfk, hi, -⟩
    · rcases heff.ready hj with hold' | ⟨g, frames', y', hth', -, hi, -⟩
      · exact ht.distinct (fun k y hy => hall k y (hy.mono hmono)) hold hold'
      · exact absurd (hi.trans (hplace hth')) (hfresh hold)
    · rcases heff.ready hj with hold' | ⟨g, frames', y', hth', hgj, -, -⟩
      · exact absurd (hi.trans (hplace hth)) (hfresh hold')
      · rw [hth] at hth'
        simp only [Thread.mk.injEq, List.cons.injEq] at hth'
        rw [← hfk, hth'.1.1, hgj]

/-- **Constructions and instances can be traced back to requests, in every state of a run.** -/
theorem Session.traceable {rs : List Request} {ks : List Key} (hR : Reliable R V D)
    (hs : Session R rs ks s) (hrs : ∀ r ∈ rs, V r) : Traceable R V D s := by
  induction hs with
  | initial notes asked => exact traceable_initial notes asked
  | event hs he ih =>
      have hV := List.forall_mem_append.1 hrs
      exact (ih hV.2).event hR hs.reachable.legal hV.1 he

end SchemaGraph.Registry
