/-
**What the program of a construction goes through.**

A factory is a tree of requests, and a construction follows one path through it.  This module says
which path: a program leads to another by the answers that were given on the way.  And it says what
one event does to the thread that it is about, with the program and the calls of that thread, and
what it does to the entries and instances of the registry.  Everything that depends on what
factories do, and not only on the changes of the table, is derived from that.

Main definitions:

* `Program.Leads` — a program leads to another, its requests answered one by one;
* `Event`, `Session` — an event of a run, and a run with the requests that were made from outside
  and the keys whose factories were started;
* `Moved`, `Motion` — what an event does to the thread that it is about;
* `Effect` — what that does to entries and instances.

Main results:

* `Program.Leads.trans` — paths are put together;
* `Program.Leads.of_keep`, `Program.Leads.done_of_keep` — the paths of a program that asks for types
  in order;
* `Event.motion` — **every event moves one thread in one of a few ways**, and leaves the others as
  they are but for notifications;
* `Session.reachable`, `Reachable.session` — sessions are runs.
-/

import SchemaGraph.Proofs.Registry.Coherence

set_option autoImplicit false

namespace SchemaGraph.Registry

variable {ι σ ε ν : Type}

/-! ### Paths of a program -/

/-- What a request is answered with. -/
abbrev Answer (ε : Type) := Except (RegistryError ε) Handle

/-- The key that a request asks for. -/
def Request.key (r : Request) : Except IdentifierError Key :=
  Key.ofIdentifier r.identifier r.context

/-- The canonical identity that a request asks for. -/
def Request.canonical (r : Request) : String := canonicalIdentity r.identifier r.context

theorem Request.eq_ofCanonical {r : Request} {k : Key} (hk : r.key = .ok k) :
    k = Key.ofCanonical r.canonical := ((Key.ofIdentifier_eq_ok_iff _ _ _).1 hk).2

namespace Program

/-- A program leads to another when its requests are answered as listed.  Which answers a request
may be given is left open. -/
inductive Leads (A : Request → Answer ε → Prop) :
    Program ι σ ε ν → List (Request × Answer ε) → Program ι σ ε ν → Prop where
  | refl (p : Program ι σ ε ν) : Leads A p [] p
  | answer {r : Request} {k : Answer ε → Program ι σ ε ν} {a : Answer ε} {q : Program ι σ ε ν}
      {log : List (Request × Answer ε)} :
      A r a → Leads A (k a) log q → Leads A (.resolve r k) ((r, a) :: log) q
  | note {f : σ → σ} {k : σ → Program ι σ ε ν} (n : σ) {q : Program ι σ ε ν}
      {log : List (Request × Answer ε)} : Leads A (k n) log q → Leads A (.note f k) log q
  | inspect {k : Store ι → Program ι σ ε ν} (S : Store ι) {q : Program ι σ ε ν}
      {log : List (Request × Answer ε)} : Leads A (k S) log q → Leads A (.inspect k) log q
  | say {event : ν} {next q : Program ι σ ε ν} {log : List (Request × Answer ε)} :
      Leads A next log q → Leads A (.say event next) log q
  | gate {name : String} {next q : Program ι σ ε ν} {log : List (Request × Answer ε)} :
      Leads A next log q → Leads A (.gate name next) log q

variable {A B : Request → Answer ε → Prop} {p q q' : Program ι σ ε ν}
  {log log' : List (Request × Answer ε)}

theorem Leads.mono (h : p.Leads A log q) (hAB : ∀ r a, A r a → B r a) : p.Leads B log q := by
  induction h with
  | refl p => exact .refl p
  | answer ha _ ih => exact .answer (hAB _ _ ha) ih
  | note n _ ih => exact .note n ih
  | inspect S _ ih => exact .inspect S ih
  | say _ ih => exact .say ih
  | gate _ ih => exact .gate ih

theorem Leads.trans (h : p.Leads A log q) (h' : q.Leads A log' q') :
    p.Leads A (log ++ log') q' := by
  induction h with
  | refl p => exact h'
  | answer ha _ ih => exact .answer ha (ih h')
  | note n _ ih => exact .note n (ih h')
  | inspect S _ ih => exact .inspect S (ih h')
  | say _ ih => exact .say (ih h')
  | gate _ ih => exact .gate (ih h')

/-- The answers along a path are among those that are allowed. -/
theorem Leads.answered (h : p.Leads A log q) : ∀ x ∈ log, A x.1 x.2 := by
  induction h with
  | refl p => exact fun x hx => absurd hx List.not_mem_nil
  | answer ha _ ih => exact List.forall_mem_cons.2 ⟨ha, ih⟩
  | note n _ ih => exact ih
  | inspect S _ ih => exact ih
  | say _ ih => exact ih
  | gate _ ih => exact ih

/-- What was answered along a path was asked there. -/
theorem Leads.asked (h : p.Leads A log q) {x : Request × Answer ε} (hx : x ∈ log) :
    ∃ log₀ next, p.Leads A log₀ (.resolve x.1 next) := by
  induction h with
  | refl p => exact absurd hx List.not_mem_nil
  | @answer r next a q log ha _ ih =>
      rcases List.mem_cons.1 hx with rfl | hx
      · exact ⟨[], next, .refl _⟩
      · obtain ⟨log₀, next', hl⟩ := ih hx
        exact ⟨_, next', .answer ha hl⟩
  | note n _ ih =>
      obtain ⟨log₀, next, hl⟩ := ih hx
      exact ⟨log₀, next, .note n hl⟩
  | inspect S _ ih =>
      obtain ⟨log₀, next, hl⟩ := ih hx
      exact ⟨log₀, next, .inspect S hl⟩
  | say _ ih =>
      obtain ⟨log₀, next, hl⟩ := ih hx
      exact ⟨log₀, next, .say hl⟩
  | gate _ ih =>
      obtain ⟨log₀, next, hl⟩ := ih hx
      exact ⟨log₀, next, .gate hl⟩

/-! ### Programs that ask in order -/

/-- The answers of requests with handles. -/
def granted (rs : List Request) (hs : List Handle) : List (Request × Answer ε) :=
  (rs.zip hs).map fun p => (p.1, .ok p.2)

/-- A program leads to itself, or its first request was answered. -/
theorem Leads.of_request {r : Request} {k : Handle → Program ι σ ε ν}
    (h : (request r k).Leads A log p) : (log = [] ∧ p = request r k) ∨
      (∃ x rest, A r (.ok x) ∧ log = (r, .ok x) :: rest ∧ (k x).Leads A rest p) ∨
      ∃ e, log = [(r, .error e)] ∧ p = .fail e := by
  cases h with
  | refl => exact Or.inl ⟨rfl, rfl⟩
  | @answer _ _ a _ rest ha h =>
      cases a with
      | ok x => exact Or.inr (Or.inl ⟨x, rest, ha, rfl, h⟩)
      | error e =>
          cases h
          exact Or.inr (Or.inr ⟨e, rfl, rfl⟩)

/-- What a program leads to that asks for types in order and makes something of the handles: it asks
for the next one, it is done after the last one, or it fails with one of them. -/
theorem Leads.of_keep {rs : List Request} {f : List Handle → Yield ι}
    (h : (keep rs fun hs => .done (f hs) : Program ι σ ε ν).Leads A log p) :
    (∃ r next, p = .resolve r next ∧ log.map Prod.fst ++ [r] <+: rs) ∨
      (∃ hs, hs.length = rs.length ∧ log = granted rs hs ∧ p = .done (f hs)) ∨
      ∃ e, p = .fail e ∧ ∃ r, (r, .error e) ∈ log := by
  induction rs generalizing f log with
  | nil =>
      cases h
      exact Or.inr (Or.inl ⟨[], rfl, rfl, rfl⟩)
  | cons r rs ih =>
      rw [keep_cons] at h
      rcases h.of_request with ⟨rfl, rfl⟩ | ⟨x, rest, -, rfl, hrest⟩ | ⟨e, rfl, rfl⟩
      · exact Or.inl ⟨r, _, rfl, ⟨rs, rfl⟩⟩
      · clear h
        rcases ih (f := fun hs => f (x :: hs)) hrest with ⟨r', next, rfl, hp⟩ |
          ⟨hs, hlen, rfl, rfl⟩ | ⟨e, rfl, r', hmem⟩
        · exact Or.inl ⟨r', next, rfl, List.cons_prefix_cons.2 ⟨rfl, hp⟩⟩
        · exact Or.inr (Or.inl ⟨x :: hs, by simp [hlen], rfl, rfl⟩)
        · exact Or.inr (Or.inr ⟨e, rfl, r', List.mem_cons_of_mem _ hmem⟩)
      · exact Or.inr (Or.inr ⟨e, rfl, r, List.mem_singleton.2 rfl⟩)

/-- Such a program is done only with what it makes of the handles. -/
theorem Leads.done_of_keep {rs : List Request} {f : List Handle → Yield ι} {y : Yield ι}
    (h : (keep rs fun hs => .done (f hs) : Program ι σ ε ν).Leads A log (.done y)) :
    ∃ hs, hs.length = rs.length ∧ y = f hs := by
  rcases h.of_keep with ⟨_, _, hask, -⟩ | ⟨hs, hlen, -, hdone⟩ | ⟨_, hfail, -⟩
  · cases hask
  · exact ⟨hs, hlen, done.inj hdone⟩
  · cases hfail

end Program

/-! ### Events and sessions -/

variable {R : Setup ι σ ε ν} {s s' : State ι σ ε ν} {t u : ThreadId} {k : Key}

/-- An event of a run, with the requests that it makes from outside. -/
inductive Event (R : Setup ι σ ε ν) : State ι σ ε ν → List Request → State ι σ ε ν → Prop where
  | step {s s' : State ι σ ε ν} (t : ThreadId) : step R t s = some s' → Event R s [] s'
  | call {s : State ι σ ε ν} (t : ThreadId) (r : Request) :
      s.isIdle t = true → Event R s [r] (s.call R t r)
  | await {s : State ι σ ε ν} (t : ThreadId) (h : Handle) :
      s.isIdle t = true → Event R s [] (s.await t h)
  | openGate (s : State ι σ ε ν) (name : String) : Event R s [] (s.openGate name)
  | passGate (s : State ι σ ε ν) (t : ThreadId) : Event R s [] (s.passGate t)
  | note (s : State ι σ ε ν) (f : σ → σ) : Event R s [] { s with notes := f s.notes }
  | clone {s : State ι σ ε ν} (q : SlotId) :
      0 < s.store.handles q → Event R s [] (s.withStore (s.store.share q))
  | drop {s : State ι σ ε ν} (q : SlotId) :
      0 < s.store.handles q → Event R s [] (s.withStore (s.store.release q))

theorem Event.next {rs : List Request} (h : Event R s rs s') : Next R s s' := by
  cases h with
  | step t h => exact .step t h
  | call t r hi => exact .call t r hi
  | await t h hi => exact .await t h hi
  | openGate name => exact .openGate s name
  | passGate t => exact .passGate s t
  | note f => exact .note s f
  | clone q hq => exact .clone q hq
  | drop q hq => exact .drop q hq

theorem Next.event (h : Next R s s') : ∃ rs, Event R s rs s' := by
  cases h with
  | step t h => exact ⟨_, .step t h⟩
  | call t r hi => exact ⟨_, .call t r hi⟩
  | await t h hi => exact ⟨_, .await t h hi⟩
  | openGate name => exact ⟨_, .openGate s name⟩
  | passGate t => exact ⟨_, .passGate s t⟩
  | note f => exact ⟨_, .note s f⟩
  | clone q hq => exact ⟨_, .clone q hq⟩
  | drop q hq => exact ⟨_, .drop q hq⟩

/-- The keys whose constructions an event begins. -/
def begun (s s' : State ι σ ε ν) : List Key :=
  (s'.constructions.map Construction.key).filter fun k =>
    k ∉ s.constructions.map Construction.key

/-- A run, with the requests that were made from outside and the keys whose factories were started,
newest first. -/
inductive Session (R : Setup ι σ ε ν) : List Request → List Key → State ι σ ε ν → Prop where
  | initial (notes : σ) (asked : Nat) : Session R [] [] (State.initial notes asked)
  | event {rs new : List Request} {ks : List Key} {s s' : State ι σ ε ν} :
      Session R rs ks s → Event R s new s' → Session R (new ++ rs) (begun s s' ++ ks) s'

theorem Session.reachable {rs : List Request} {ks : List Key} (h : Session R rs ks s) :
    Reachable R s := by
  induction h with
  | initial notes asked => exact .initial notes asked
  | event _ he ih => exact ih.next he.next

theorem Reachable.session (h : Reachable R s) : ∃ rs ks, Session R rs ks s := by
  induction h with
  | initial notes asked => exact ⟨_, _, .initial notes asked⟩
  | next _ hn ih =>
      obtain ⟨rs, ks, hs⟩ := ih
      obtain ⟨new, he⟩ := hn.event
      exact ⟨_, _, hs.event he⟩

/-- Steps make no requests from outside. -/
theorem Session.steps {rs : List Request} {ks : List Key} (h : Session R rs ks s)
    (hsteps : Steps R s s') : ∃ ks', Session R rs ks' s' := by
  induction hsteps generalizing ks with
  | refl s => exact ⟨ks, h⟩
  | head t hstep _ ih => exact ih (h.event (.step t hstep))

/-! ### What an event does to a thread -/

/-- The call that is about to look up its key. -/
def Stage.looks : Stage ι σ ε ν → Option (Call ι σ ε ν)
  | .looking c _ | .asleep c true => some c
  | _ => none

/-- What the factory of a construction is given. -/
def Frame.site (f : Frame ι σ ε ν) : Site :=
  ⟨f.call.request.identifier, f.call.request.context, f.call.key⟩

/-- A program goes on without a call. -/
inductive Program.Goes : Program ι σ ε ν → Program ι σ ε ν → Prop where
  | note (f : σ → σ) (k : σ → Program ι σ ε ν) (n : σ) : Goes (.note f k) (k n)
  | inspect (k : Store ι → Program ι σ ε ν) (S : Store ι) : Goes (.inspect k) (k S)
  | say (event : ν) (next : Program ι σ ε ν) : Goes (.say event next) next
  | gate (name : String) (next : Program ι σ ε ν) : Goes (.gate name next) next

/-- The program of a construction that fails, and how. -/
inductive Program.Fails : Program ι σ ε ν → Failure ε → Prop where
  | fail (e : RegistryError ε) : Fails (.fail e) (.error e)
  | panic (message : String) : Fails (.panic message) (.panic message)

/-- The registry has no factory for a request, or does not admit it. -/
def Refuses (R : Setup ι σ ε ν) (r : Request) : Prop :=
  ∀ factory, Dictionary.find? r.identifier.name R.factories = some factory →
    ∃ n, R.admits n r.identifier.name factory.tag = false

/-- Entries and instances stay as they are. -/
structure Preserves (S S' : Store ι) : Prop where
  entries : S'.table.entries = S.table.entries
  instances : S'.instances = S.instances

theorem Preserves.refl (S : Store ι) : Preserves S S := ⟨rfl, rfl⟩

/-- What an event does to the thread that it is about. -/
inductive Moved (R : Setup ι σ ε ν) (S S' : Store ι) :
    List Request → Thread ι σ ε ν → Thread ι σ ε ν → Prop where
  /-- nothing -/
  | stays (th : Thread ι σ ε ν) : Preserves S S' → Moved R S S' [] th th
  /-- a thread at rest makes a call -/
  | arrives {th : Thread ι σ ε ν} {r : Request} {key : Key} : Preserves S S' →
      th.stage.isResting = true → r.key = .ok key →
      Moved R S S' [r] th ⟨[], .looking ⟨r, key, r.reference, none⟩ false⟩
  /-- a thread at rest makes a call that has no key -/
  | misled {th : Thread ι σ ε ν} {r : Request} {reason : IdentifierError} (e : RegistryError ε) :
      Preserves S S' → th.stage.isResting = true → r.key = .error reason →
      Moved R S S' [r] th ⟨[], .returned (.error e)⟩
  /-- a thread at rest begins to wait for a handle -/
  | awaits {th : Thread ι σ ε ν} (h : Handle) : Preserves S S' → th.stage.isResting = true →
      Moved R S S' [] th ⟨[], .awaiting h⟩
  /-- the wait for a handle is over -/
  | arrived {frames : List (Frame ι σ ε ν)} {h : Handle}
      (a : Except (RegistryError ε) InstanceId) : Preserves S S' →
      Moved R S S' [] ⟨frames, .awaiting h⟩ ⟨frames, .awaited a⟩
  /-- a factory goes on without a call -/
  | goes {frames : List (Frame ι σ ε ν)} {p p' : Program ι σ ε ν} : Preserves S S' → p.Goes p' →
      Moved R S S' [] ⟨frames, .running p⟩ ⟨frames, .running p'⟩
  /-- a factory makes a call -/
  | asks {f : Frame ι σ ε ν} {frames : List (Frame ι σ ε ν)} {r : Request} {key : Key}
      {next : Answer ε → Program ι σ ε ν} : Preserves S S' → r.key = .ok key →
      Moved R S S' [] ⟨f :: frames, .running (.resolve r next)⟩
        ⟨f :: frames, .looking ⟨r, key, r.reference, some next⟩ false⟩
  /-- a factory makes a call that has no key -/
  | misasks {f : Frame ι σ ε ν} {frames : List (Frame ι σ ε ν)} {r : Request}
      {reason : IdentifierError} {next : Answer ε → Program ι σ ε ν} (e : RegistryError ε) :
      Preserves S S' → r.key = .error reason →
      Moved R S S' [] ⟨f :: frames, .running (.resolve r next)⟩
        ⟨f :: frames, .running (next (.error e))⟩
  /-- a call is refused -/
  | refused {frames : List (Frame ι σ ε ν)} {stage : Stage ι σ ε ν} {c : Call ι σ ε ν}
      (e : RegistryError ε) : Preserves S S' → stage.looks = some c → Refuses R c.request →
      Moved R S S' [] ⟨frames, stage⟩ ⟨frames, c.deliver (.error e)⟩
  /-- a call finds an instance -/
  | hits {frames : List (Frame ι σ ε ν)} {stage : Stage ι σ ε ν} {c : Call ι σ ε ν}
      {i : InstanceId} (o : Outcome) : Preserves S S' → stage.looks = some c →
      Dictionary.find? c.key S.table.entries = some (.ready i) →
      Moved R S S' [] ⟨frames, stage⟩ ⟨frames, .reporting c o ⟨c.key, c.reference, .ready i⟩⟩
  /-- a call is given a forward reference -/
  | defers {frames : List (Frame ι σ ε ν)} {stage : Stage ι σ ε ν} {c : Call ι σ ε ν}
      {u : ThreadId} {q : SlotId} : Preserves S S' → stage.looks = some c →
      Dictionary.find? c.key S.table.entries = some (.pending u q) →
      Moved R S S' [] ⟨frames, stage⟩
        ⟨frames, .reporting c .deferred ⟨c.key, c.reference, .slot q⟩⟩
  /-- a call goes to sleep -/
  | sleeps {frames : List (Frame ι σ ε ν)} {stage : Stage ι σ ε ν} {c : Call ι σ ε ν} :
      Preserves S S' → stage.looks = some c →
      Moved R S S' [] ⟨frames, stage⟩ ⟨frames, .asleep c false⟩
  /-- a construction begins -/
  | claims {frames : List (Frame ι σ ε ν)} {stage : Stage ι σ ε ν} {c : Call ι σ ε ν}
      {factory : Factory ι σ ε ν} {f : Frame ι σ ε ν} (t : ThreadId) :
      stage.looks = some c → f.call = c →
      Dictionary.find? c.key S.table.entries = none →
      Dictionary.find? c.request.identifier.name R.factories = some factory →
      (∀ k, Dictionary.find? k S'.table.entries
        = if c.key = k then some (.pending t f.slot) else Dictionary.find? k S.table.entries) →
      S'.instances = S.instances →
      Moved R S S' [] ⟨frames, stage⟩ ⟨f :: frames, .running (factory.build f.site)⟩
  /-- a construction succeeds -/
  | publishes {f : Frame ι σ ε ν} {frames : List (Frame ι σ ε ν)} {y : Yield ι} :
      (∀ k, Dictionary.find? k S'.table.entries
        = if f.call.key = k then some (.ready (S.place y))
          else Dictionary.find? k S.table.entries) →
      S'.instances = (S.publish f.call.key y).instances →
      Moved R S S' [] ⟨f :: frames, .running (.done y)⟩ ⟨frames, .fulfilling f (S.place y)⟩
  /-- a construction fails -/
  | undoes {f : Frame ι σ ε ν} {frames : List (Frame ι σ ε ν)} {p : Program ι σ ε ν}
      {failure : Failure ε} : p.Fails failure →
      (∀ k, Dictionary.find? k S'.table.entries
        = if f.call.key = k then none else Dictionary.find? k S.table.entries) →
      S'.instances = S.instances →
      Moved R S S' [] ⟨f :: frames, .running p⟩ ⟨frames, .ending f.call (.error failure)⟩
  /-- the slot of a published instance is fulfilled -/
  | fulfils {f : Frame ι σ ε ν} {frames : List (Frame ι σ ε ν)} {i : InstanceId} :
      Preserves S S' → Moved R S S' [] ⟨frames, .fulfilling f i⟩ ⟨frames, .ending f.call (.ok i)⟩
  /-- the sleepers are notified of a success -/
  | succeeds {frames : List (Frame ι σ ε ν)} {c : Call ι σ ε ν} {i : InstanceId} :
      Preserves S S' → Moved R S S' [] ⟨frames, .ending c (.ok i)⟩
        ⟨frames, .reporting c .miss ⟨c.key, c.reference, .ready i⟩⟩
  /-- the sleepers are notified of a failure -/
  | failed {frames : List (Frame ι σ ε ν)} {c : Call ι σ ε ν} {failure : Failure ε} :
      Preserves S S' → Moved R S S' [] ⟨frames, .ending c (.error failure)⟩
        ⟨frames, .failing c failure⟩
  /-- an answer is delivered -/
  | reports {frames : List (Frame ι σ ε ν)} {c : Call ι σ ε ν} {o : Outcome} {h : Handle} :
      Preserves S S' → Moved R S S' [] ⟨frames, .reporting c o h⟩ ⟨frames, c.deliver (.ok h)⟩
  /-- a failure is delivered -/
  | reportsFailure {frames : List (Frame ι σ ε ν)} {c : Call ι σ ε ν} {failure : Failure ε} :
      Preserves S S' → Moved R S S' [] ⟨frames, .failing c failure⟩
        ⟨frames, c.deliverFailure failure⟩

/-- What an event that moves a thread does to entries and instances. -/
inductive Effect (S S' : Store ι) (th : Thread ι σ ε ν) : Prop where
  /-- nothing -/
  | none : Preserves S S' → Effect S S' th
  /-- a construction begins -/
  | begins (c : Call ι σ ε ν) (t : ThreadId) (q : SlotId) : th.stage.looks = some c →
      Dictionary.find? c.key S.table.entries = .none →
      (∀ k, Dictionary.find? k S'.table.entries
        = if c.key = k then some (.pending t q) else Dictionary.find? k S.table.entries) →
      S'.instances = S.instances → Effect S S' th
  /-- a construction succeeds -/
  | publishes (f : Frame ι σ ε ν) (frames : List (Frame ι σ ε ν)) (y : Yield ι) :
      th = ⟨f :: frames, .running (.done y)⟩ →
      (∀ k, Dictionary.find? k S'.table.entries
        = if f.call.key = k then some (.ready (S.place y))
          else Dictionary.find? k S.table.entries) →
      S'.instances = (S.publish f.call.key y).instances → Effect S S' th
  /-- a construction fails -/
  | undoes (f : Frame ι σ ε ν) (frames : List (Frame ι σ ε ν)) (p : Program ι σ ε ν)
      (failure : Failure ε) : th = ⟨f :: frames, .running p⟩ → p.Fails failure →
      (∀ k, Dictionary.find? k S'.table.entries
        = if f.call.key = k then .none else Dictionary.find? k S.table.entries) →
      S'.instances = S.instances → Effect S S' th

/-- Most ways in which a thread moves are of no effect on entries and instances. -/
theorem Moved.effect {S S' : Store ι} {rs : List Request} {th th' : Thread ι σ ε ν}
    (hm : Moved R S S' rs th th') : Effect S S' th := by
  cases hm with
  | claims t hlooks hc hnone _ he hi =>
      subst hc
      exact .begins _ t _ hlooks hnone he hi
  | publishes he hi => exact .publishes _ _ _ rfl he hi
  | undoes hfails he hi => exact .undoes _ _ _ _ rfl hfails he hi
  | stays _ hp => exact .none hp
  | arrives hp => exact .none hp
  | misled _ hp => exact .none hp
  | awaits _ hp => exact .none hp
  | arrived _ hp => exact .none hp
  | goes hp => exact .none hp
  | asks hp => exact .none hp
  | misasks _ hp => exact .none hp
  | refused _ hp => exact .none hp
  | hits _ hp => exact .none hp
  | defers hp => exact .none hp
  | sleeps hp => exact .none hp
  | fulfils hp => exact .none hp
  | succeeds hp => exact .none hp
  | failed hp => exact .none hp
  | reports hp => exact .none hp
  | reportsFailure hp => exact .none hp

section Effect

variable {S S' : Store ι} {th : Thread ι σ ε ν} {i : InstanceId} {x : ι}

theorem Effect.instances (he : Effect S S' th) (hi : S.instances[i]? = some x) :
    S'.instances[i]? = some x := by
  cases he with
  | none hp => rwa [hp.instances]
  | begins _ _ _ _ _ _ hsame => rwa [hsame]
  | undoes _ _ _ _ _ _ _ hsame => rwa [hsame]
  | publishes f _ y _ _ hinstances =>
      rw [hinstances]
      exact Store.getElem?_publish_of_some hi f.call.key y

/-- An instance was there before, or is what a construction has just handed over. -/
theorem Effect.made (he : Effect S S' th) (hi : S'.instances[i]? = some x) :
    S.instances[i]? = some x ∨
      ∃ f frames y, th = ⟨f :: frames, .running (.done y)⟩ ∧ x = y.content := by
  cases he with
  | none hp => exact Or.inl (hp.instances ▸ hi)
  | begins _ _ _ _ _ _ hsame => exact Or.inl (hsame ▸ hi)
  | undoes _ _ _ _ _ _ _ hsame => exact Or.inl (hsame ▸ hi)
  | publishes f frames y hth _ hinstances =>
      rw [hinstances] at hi
      exact (Store.getElem?_publish_cases hi).imp_right fun hx => ⟨f, frames, y, hth, hx⟩

/-- A key that is ready was so before, or its instance has just been published. -/
theorem Effect.ready (he : Effect S S' th)
    (hk : Dictionary.find? k S'.table.entries = some (.ready i)) :
    Dictionary.find? k S.table.entries = some (.ready i) ∨
      ∃ f frames y, th = ⟨f :: frames, .running (.done y)⟩ ∧ f.call.key = k ∧
        i = S.place y ∧ S'.instances[i]? = some (S.yielded y) := by
  cases he with
  | none hp =>
      rw [hp.entries] at hk
      exact Or.inl hk
  | begins _ _ _ _ _ he =>
      rw [he] at hk
      split at hk
      · exact absurd hk (by simp)
      · exact Or.inl hk
  | publishes f frames y hth he hinstances =>
      rw [he] at hk
      split at hk
      · simp only [Option.some.injEq, Entry.ready.injEq] at hk
        subst hk
        refine Or.inr ⟨f, frames, y, hth, ‹_›, rfl, ?_⟩
        rw [hinstances]
        exact Store.getElem?_publish_place S f.call.key y
      · exact Or.inl hk
  | undoes _ _ _ _ _ _ he =>
      rw [he] at hk
      split at hk
      · exact absurd hk (by simp)
      · exact Or.inl hk

end Effect

/-- An event moves one thread, and leaves the others as they are but for notifications. -/
structure Motion (R : Setup ι σ ε ν) (t : ThreadId) (rs : List Request) (s s' : State ι σ ε ν) :
    Prop where
  moved : Moved R s.store s'.store rs (s.thread t) (s'.thread t)
  beside : ∀ u, u ≠ t → s'.thread u = s.thread u ∨ s'.thread u = (s.thread u).notify

/-- A thread is put to another stage, after other things than threads have changed. -/
theorem Motion.put {rs : List Request} {s₁ : State ι σ ε ν} {th : Thread ι σ ε ν}
    {frames : List (Frame ι σ ε ν)} {stage : Stage ι σ ε ν} (ht : s₁.threads = s.threads)
    (hth : s.thread t = th) (h : Moved R s.store s₁.store rs th ⟨frames, stage⟩) :
    Motion R t rs s (s₁.put t frames stage) := by
  refine ⟨?_, fun u hu => Or.inl ?_⟩
  · rw [State.thread_put_self, hth]
    exact h
  · rw [State.thread_put_of_ne hu.symm, State.thread_congr ht]

/-- Nothing happens to threads, entries and instances. -/
theorem Motion.stays (t : ThreadId) (ht : s'.threads = s.threads)
    (h : Preserves s.store s'.store) : Motion R t [] s s' := by
  refine ⟨?_, fun u _ => Or.inl (State.thread_congr ht u)⟩
  rw [State.thread_congr ht]
  exact .stays _ h

@[simp] theorem State.find?_put_self (s : State ι σ ε ν) (t : ThreadId)
    (frames : List (Frame ι σ ε ν)) (stage : Stage ι σ ε ν) :
    Dictionary.find? t (s.put t frames stage).threads = some ⟨frames, stage⟩ :=
  Dictionary.find?_set_self ..

theorem step_put (s : State ι σ ε ν) (t : ThreadId) (frames : List (Frame ι σ ε ν))
    (stage : Stage ι σ ε ν) :
    step R t (s.put t frames stage) = stepThread R t ⟨frames, stage⟩ (s.put t frames stage) := by
  rw [step, State.find?_put_self, Option.bind_some]

/-! ### Every event moves one thread -/

variable {frames : List (Frame ι σ ε ν)} {stage : Stage ι σ ε ν} {c : Call ι σ ε ν}

theorem enter_threads (R : Setup ι σ ε ν) (t : ThreadId) (frames : List (Frame ι σ ε ν))
    (r : Request) {key : Key} (hk : r.key = .ok key)
    (resume : Option (Answer ε → Program ι σ ε ν)) (s : State ι σ ε ν) :
    ∃ s₁ : State ι σ ε ν, s₁.threads = s.threads ∧ s₁.store = s.store ∧
      enter R t frames r resume s
        = s₁.put t frames (.looking ⟨r, key, r.reference, resume⟩ false) := by
  have hk' : Key.ofIdentifier r.identifier r.context = .ok key := hk
  simp only [enter, hk']
  refine ⟨_, ?_, ?_, rfl⟩
  · split <;> rfl
  · split <;> rfl

theorem enter_of_error (R : Setup ι σ ε ν) (t : ThreadId) (frames : List (Frame ι σ ε ν))
    (r : Request) {reason : IdentifierError} (hk : r.key = .error reason)
    (resume : Option (Answer ε → Program ι σ ε ν)) (s : State ι σ ε ν) : ∃ e : RegistryError ε,
      enter R t frames r resume s = s.put t frames (.answered resume (.error e)) := by
  have hk' : Key.ofIdentifier r.identifier r.context = .error reason := hk
  simp only [enter, hk']
  exact ⟨_, rfl⟩

/-- A call that finds no entry is refused, or begins a construction. -/
theorem motion_begin {S : Store ι} (hth : s.thread t = ⟨frames, stage⟩)
    (hlooks : stage.looks = some c) (hS : Preserves s.store S)
    (hnone : Dictionary.find? c.key s.store.table.entries = none) :
    Motion R t [] s (begin R t frames c (s.withStore S)) := by
  cases hf : Dictionary.find? c.request.identifier.name R.factories with
  | none =>
      simp only [begin, hf]
      refine .put rfl hth (.refused _ hS hlooks fun factory hfactory => ?_)
      rw [hf] at hfactory
      exact absurd hfactory (by simp)
  | some factory =>
      simp only [begin, hf]
      split
      · refine .put rfl hth (.claims t hlooks rfl hnone hf (fun k => ?_) ?_)
        · refine (Store.find?_claim S.ask t c.key k).trans ?_
          rw [← hS.entries]
          rfl
        · refine Eq.trans ?_ hS.instances
          simp only [State.store_withStore, Store.claim, Store.takeSlot]
          split <;> rfl
      · rename_i hadmits
        refine .put rfl hth (.refused _ ⟨hS.entries, hS.instances⟩ hlooks fun g hg => ?_)
        rw [hf, Option.some.injEq] at hg
        exact ⟨S.asked, by simpa [← hg] using hadmits⟩

/-- A call looks up its key. -/
theorem motion_look {S : Store ι} (hth : s.thread t = ⟨frames, stage⟩)
    (hlooks : stage.looks = some c) (hS : Preserves s.store S) (w : Bool) :
    Motion R t [] s (look R t frames c w (s.withStore S)) := by
  cases he : Dictionary.find? c.key s.store.table.entries with
  | none =>
      have he' : Dictionary.find? c.key (s.withStore S).store.table.entries = none :=
        (congrArg _ hS.entries).trans he
      simp only [look, he']
      exact motion_begin hth hlooks hS he
  | some e =>
      have he' : Dictionary.find? c.key (s.withStore S).store.table.entries = some e :=
        (congrArg _ hS.entries).trans he
      cases e with
      | ready i =>
          simp only [look, he']
          exact .put rfl hth (.hits _ hS hlooks he)
      | pending u q =>
          simp only [look, he']
          split
          · exact .put rfl hth (.defers ⟨hS.entries, hS.instances⟩ hlooks he)
          · exact .put rfl hth (.sleeps ⟨hS.entries, hS.instances⟩ hlooks)

/-- The factory of the innermost construction goes on. -/
theorem motion_runProgram {f : Frame ι σ ε ν} {p : Program ι σ ε ν}
    (hth : s.thread t = ⟨f :: frames, .running p⟩) (h : runProgram R t f frames p s = some s') :
    Motion R t [] s s' := by
  cases p with
  | done y =>
      simp only [runProgram, Option.some.injEq] at h
      rw [← h]
      exact .put rfl hth (.publishes (fun k => Store.find?_publish _ _ k y) rfl)
  | fail e =>
      simp only [runProgram, undo, Option.some.injEq] at h
      rw [← h]
      exact .put rfl hth (.undoes (.fail e) (fun k => Store.find?_rollBack _ _ k _) rfl)
  | panic message =>
      simp only [runProgram, undo, Option.some.injEq] at h
      rw [← h]
      exact .put rfl hth (.undoes (.panic message) (fun k => Store.find?_rollBack _ _ k _) rfl)
  | resolve r next =>
      simp only [runProgram, Option.some.injEq] at h
      cases hk : r.key with
      | error reason =>
          obtain ⟨e, he⟩ := enter_of_error R t (f :: frames) r hk (some next) s
          rw [← h, he]
          exact .put rfl hth (.misasks e (.refl _) hk)
      | ok key =>
          obtain ⟨s₁, ht, hS, he⟩ := enter_threads R t (f :: frames) r hk (some next) s
          rw [← h, he]
          exact .put ht hth (.asks (hS ▸ .refl _) hk)
  | note g next =>
      simp only [runProgram, Option.some.injEq] at h
      rw [← h]
      exact .put rfl hth (.goes (.refl _) (.note g next _))
  | inspect next =>
      simp only [runProgram, Option.some.injEq] at h
      rw [← h]
      exact .put rfl hth (.goes (.refl _) (.inspect next _))
  | say event next =>
      simp only [runProgram, Option.some.injEq] at h
      rw [← h]
      exact .put rfl hth (.goes (.refl _) (.say event next))
  | gate name next =>
      simp only [runProgram, Option.ite_none_right_eq_some, Option.some.injEq] at h
      rw [← h.2]
      exact .put rfl hth (.goes (.refl _) (.gate name next))

theorem motion_announce {result : Except (Failure ε) InstanceId}
    (hth : s.thread t = ⟨frames, .ending c result⟩) :
    Motion R t [] s (announce t frames c result s) := by
  refine ⟨?_, fun u hu => Or.inr (State.thread_announce_of_ne hu.symm ..)⟩
  rw [State.thread_announce_self, hth]
  cases result with
  | ok i => exact .succeeds (.refl _)
  | error failure => exact .failed (.refl _)

/-- **A step moves the thread that takes it.** -/
theorem motion_step (h : step R t s = some s') : Motion R t [] s s' := by
  simp only [step, Option.bind_eq_some_iff] at h
  obtain ⟨⟨frames, stage⟩, hfind, h⟩ := h
  have hth := State.thread_of_find? hfind
  cases stage with
  | running p =>
      cases frames with
      | nil => simp [stepThread] at h
      | cons f frames => exact motion_runProgram hth h
  | looking c w =>
      simp only [stepThread, Option.some.injEq] at h
      rw [← h]
      exact motion_look (S := s.store) hth rfl (.refl _) w
  | asleep c notified =>
      cases notified with
      | false => simp [stepThread] at h
      | true =>
          simp only [stepThread, Option.some.injEq] at h
          rw [← h]
          exact motion_look (S := s.store.wake t) hth rfl ⟨rfl, rfl⟩ true
  | fulfilling f i =>
      simp only [stepThread, Option.some.injEq] at h
      rw [← h]
      exact .put rfl hth (.fulfils ⟨rfl, rfl⟩)
  | ending c result =>
      simp only [stepThread, Option.some.injEq] at h
      exact h ▸ motion_announce hth
  | reporting c o x =>
      simp only [stepThread, report, Option.some.injEq] at h
      rw [← h]
      exact .put (by simp) hth (.reports ⟨by simp [Store.count], by simp [Store.count]⟩)
  | failing c failure =>
      simp only [stepThread, reportFailure, Option.some.injEq] at h
      rw [← h]
      refine .put ?_ hth (.reportsFailure ⟨?_, ?_⟩) <;> cases failure <;> rfl
  | awaiting x =>
      simp only [stepThread, Option.ite_none_left_eq_some, Option.some.injEq] at h
      rw [← h.2]
      exact .put rfl hth (.arrived _ (.refl _))
  | returned a => simp [stepThread] at h
  | panicked message => simp [stepThread] at h
  | awaited a => simp [stepThread] at h

/-- A call from outside moves the thread that makes it. -/
theorem motion_call (r : Request) (hi : s.isIdle t = true) :
    Motion R t [r] s (s.call R t r) := by
  have hr := State.isResting_of_isIdle hi
  cases hk : r.key with
  | error reason =>
      obtain ⟨e, he⟩ := enter_of_error R t [] r hk none s
      rw [State.call, he]
      exact .put rfl rfl (.misled e (.refl _) hr hk)
  | ok key =>
      obtain ⟨s₁, ht, hS, he⟩ := enter_threads R t [] r hk none s
      rw [State.call, he]
      exact .put ht rfl (.arrives (hS ▸ .refl _) hr hk)

/-- **Every event moves one thread in one of a few ways.** -/
theorem Event.motion {rs : List Request} (h : Event R s rs s') : ∃ t, Motion R t rs s s' := by
  cases h with
  | step t h => exact ⟨t, motion_step h⟩
  | call t r hi => exact ⟨t, motion_call r hi⟩
  | await t x hi => exact ⟨t, .put rfl rfl (.awaits x (.refl _) (State.isResting_of_isIdle hi))⟩
  | openGate name => exact ⟨0, .stays 0 rfl (.refl _)⟩
  | passGate t =>
      refine ⟨t, ?_⟩
      unfold State.passGate
      split
      · rename_i frames name next hf
        exact .put rfl (State.thread_of_find? hf) (.goes (.refl _) (.gate name next))
      · exact .stays t rfl (.refl _)
  | note f => exact ⟨0, .stays 0 rfl (.refl _)⟩
  | clone q => exact ⟨0, .stays 0 rfl ⟨rfl, rfl⟩⟩
  | drop q => exact ⟨0, .stays 0 rfl ⟨rfl, rfl⟩⟩

end SchemaGraph.Registry
