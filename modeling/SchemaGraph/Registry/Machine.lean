/-
**Calls on a registry, step by step.**

Any number of threads call on one registry.  A call derives the key of what it asks for and looks it
up under the lock.  What it finds there decides: the instance is there; the type is under
construction, and the call is given a forward reference or goes to sleep; or nothing is known, and
after the family has admitted the factory the call claims the key and runs the factory, without the
lock.  The factory may call in turn, so a thread is a stack of constructions.

One step of one thread is one moment in which the thread has the registry to itself.  Publishing an
instance, fulfilling its slot, waking the sleepers, and counting and reporting the answer are
moments of their own; so are rolling back a failed construction, waking the sleepers, and counting
the failure.

Main definitions:

* `Options`, `Sink`, `Setup` — what a registry is built from;
* `Notice` — what is reported while it works;
* `Call`, `Frame`, `Stage`, `Thread`, `State` — calls, constructions, threads, and the whole;
* `enter`, `look`, `runProgram`, `step` — the step of one thread;
* `State.call`, `State.await`, `State.openGate`, `State.passGate` — what happens from outside.

Main results:

* `step_eq_none_of_resting` — a thread whose call is over has no step.
-/

import SchemaGraph.Registry.Program
import SchemaGraph.Registry.Store

set_option autoImplicit false

namespace SchemaGraph.Registry

/-! ### What a registry is built from -/

/-- The settings of a registry. -/
structure Options where
  /-- the label of everything that is reported -/
  session : String := "schema"
  /-- report the canonical identity of every call -/
  dumpIdentities : Bool := false
  /-- wait for a construction of another thread, rather than take a forward reference -/
  block : Bool := true
deriving DecidableEq, Repr, Inhabited

/-- Who receives the record of each answer. -/
inductive Sink where
  /-- nobody -/
  | none
  /-- the log -/
  | trace
  /-- a recorder -/
  | record
  /-- a recorder that fails after each record -/
  | fail (message : String)
  /-- a recorder that breaks off after each record -/
  | panic
deriving DecidableEq, Repr, Inhabited

/-- What a registry is built from. -/
structure Setup (ι σ ε ν : Type) where
  factories : Dictionary String (Factory ι σ ε ν)
  /-- whether the family admits a factory, after so many questions before -/
  admits : Nat → String → Tag → Bool
  sink : Sink := .trace
  options : Options := {}

/-! ### What is reported -/

/-- What is reported while a registry works. -/
inductive Notice (ε ν : Type) where
  /-- the identity of a call -/
  | identity (key : Key) (canonical : String)
  /-- an answer, in the log -/
  | traced (reference : String) (key : Key) (outcome : Outcome)
  /-- an answer, to the recorder -/
  | recorded (reference : String) (key : Key) (outcome : Outcome)
  /-- the recorder failed -/
  | sinkFailed (message : String)
  /-- the recorder broke off -/
  | sinkPanicked
  /-- a factory failed -/
  | constructionFailed (reference : String) (key : Key) (source : RegistryError ε)
  /-- a factory broke off -/
  | constructionPanicked (key : Key)
  /-- an event of a factory's own -/
  | said (event : ν)
deriving Repr

/-- The reports of one answer. -/
def Sink.notices {ε ν : Type} (sink : Sink) (reference : String) (key : Key) (o : Outcome) :
    List (Notice ε ν) :=
  match sink with
  | .none => []
  | .trace => [.traced reference key o]
  | .record => [.recorded reference key o]
  | .fail message => [.recorded reference key o, .sinkFailed message]
  | .panic => [.recorded reference key o, .sinkPanicked]

/-! ### Threads -/

section Types

variable (ι σ ε ν : Type)

/-- A call: what is asked for, and how the construction that asks goes on with the answer. -/
structure Call where
  request : Request
  key : Key
  /-- the text of the request -/
  reference : String
  /-- none for a call from outside all constructions -/
  resume : Option (Except (RegistryError ε) Handle → Program ι σ ε ν)

/-- A construction in progress. -/
structure Frame where
  call : Call ι σ ε ν
  slot : SlotId

/-- How a construction failed. -/
inductive Failure where
  | error (e : RegistryError ε)
  | panic (message : String)
deriving DecidableEq, Repr, Inhabited

/-- What a thread does next. -/
inductive Stage where
  /-- the factory of the innermost construction goes on -/
  | running (p : Program ι σ ε ν)
  /-- a call is about to look up its key, after it waited or not -/
  | looking (c : Call ι σ ε ν) (waited : Bool)
  /-- a call sleeps, and was notified or not -/
  | asleep (c : Call ι σ ε ν) (notified : Bool)
  /-- an instance was published; its slot is not fulfilled yet -/
  | fulfilling (f : Frame ι σ ε ν) (i : InstanceId)
  /-- a construction has ended; the sleepers are not notified yet -/
  | ending (c : Call ι σ ε ν) (result : Except (Failure ε) InstanceId)
  /-- an answer is not counted and reported yet -/
  | reporting (c : Call ι σ ε ν) (o : Outcome) (h : Handle)
  /-- a failure is not counted and reported yet -/
  | failing (c : Call ι σ ε ν) (f : Failure ε)
  /-- the thread waits for the construction behind a handle -/
  | awaiting (h : Handle)
  /-- the call is over -/
  | returned (answer : Except (RegistryError ε) Handle)
  /-- the call broke off -/
  | panicked (message : String)
  /-- the wait for a handle is over -/
  | awaited (answer : Except (RegistryError ε) InstanceId)

/-- A thread: its constructions in progress, innermost first, and what it does next. -/
structure Thread where
  frames : List (Frame ι σ ε ν)
  stage : Stage ι σ ε ν

/-- A registry at work. -/
structure State where
  store : Store ι
  threads : Dictionary ThreadId (Thread ι σ ε ν)
  /-- the notes that factories share -/
  notes : σ
  openGates : List String
  /-- what was reported, newest first -/
  log : List (ThreadId × Notice ε ν)

end Types

variable {ι σ ε ν : Type}

/-- The next stage of a caller after an answer. -/
def Stage.answered (resume : Option (Except (RegistryError ε) Handle → Program ι σ ε ν))
    (answer : Except (RegistryError ε) Handle) : Stage ι σ ε ν :=
  match resume with
  | none => .returned answer
  | some k => .running (k answer)

/-- The next stage of the caller after the call was answered. -/
def Call.deliver (c : Call ι σ ε ν) (answer : Except (RegistryError ε) Handle) : Stage ι σ ε ν :=
  .answered c.resume answer

/-- The next stage of the caller after a failed construction.  A construction that broke off breaks
off the one that asked for it. -/
def Call.deliverFailure (c : Call ι σ ε ν) : Failure ε → Stage ι σ ε ν
  | .error e => c.deliver (.error (.constructionFailed c.reference e))
  | .panic message =>
    match c.resume with
    | none => .panicked message
    | some _ => .running (.panic message)

/-- Whether a thread has nothing left to do. -/
def Stage.isResting : Stage ι σ ε ν → Bool
  | .returned _ | .panicked _ | .awaited _ => true
  | _ => false

/-- A sleeping thread is notified. -/
def Thread.notify (th : Thread ι σ ε ν) : Thread ι σ ε ν :=
  match th.stage with
  | .asleep c _ => { th with stage := .asleep c true }
  | _ => th

namespace State

/-- A thread goes on to another stage. -/
def put (s : State ι σ ε ν) (t : ThreadId) (frames : List (Frame ι σ ε ν))
    (stage : Stage ι σ ε ν) : State ι σ ε ν :=
  { s with threads := Dictionary.set t ⟨frames, stage⟩ s.threads }

/-- The store changes. -/
def withStore (s : State ι σ ε ν) (S : Store ι) : State ι σ ε ν := { s with store := S }

/-- A thread reports something. -/
def tell (s : State ι σ ε ν) (t : ThreadId) (n : Notice ε ν) : State ι σ ε ν :=
  { s with log := (t, n) :: s.log }

/-- A thread reports several things in order. -/
def tellAll (s : State ι σ ε ν) (t : ThreadId) (ns : List (Notice ε ν)) : State ι σ ε ν :=
  ns.foldl (fun s n => s.tell t n) s

/-- All sleeping threads are notified. -/
def notifyAll (s : State ι σ ε ν) : State ι σ ε ν :=
  { s with threads := s.threads.map fun p => (p.1, p.2.notify) }

/-- What a thread does next. -/
def stage? (s : State ι σ ε ν) (t : ThreadId) : Option (Stage ι σ ε ν) :=
  (Dictionary.find? t s.threads).map Thread.stage

end State

/-! ### The steps of a call -/

/-- A call begins: its key is derived. -/
def enter (R : Setup ι σ ε ν) (t : ThreadId) (frames : List (Frame ι σ ε ν)) (r : Request)
    (resume : Option (Except (RegistryError ε) Handle → Program ι σ ε ν)) (s : State ι σ ε ν) :
    State ι σ ε ν :=
  match Key.ofIdentifier r.identifier r.context with
  | .error reason =>
    s.put t frames (.answered resume (.error (.invalidIdentifier r.identifier.display reason)))
  | .ok key =>
    let s := if R.options.dumpIdentities
      then s.tell t (.identity key (canonicalIdentity r.identifier r.context)) else s
    s.put t frames (.looking ⟨r, key, r.reference, resume⟩ false)

/-- A call finds no entry for its key: the factory is looked up and the family asked, and the
construction begins or the call is refused. -/
def begin (R : Setup ι σ ε ν) (t : ThreadId) (frames : List (Frame ι σ ε ν)) (c : Call ι σ ε ν)
    (s : State ι σ ε ν) : State ι σ ε ν :=
  let id := c.request.identifier
  match Dictionary.find? id.name R.factories with
  | none => s.put t frames (c.deliver (.error (.invalidReference id.display .notRegistered)))
  | some factory =>
    let asked := s.withStore s.store.ask
    if R.admits s.store.asked id.name factory.tag then
      let (slot, S) := asked.store.claim t c.key
      (asked.withStore S).put t (⟨c, slot⟩ :: frames)
        (.running (factory.build ⟨id, c.request.context, c.key⟩))
    else
      asked.put t frames
        (c.deliver (.error (.invalidReference id.name (.outsideFamily factory.tag))))

/-- Whether a call takes a forward reference to a construction of the owner, rather than wait. -/
def defers (R : Setup ι σ ε ν) (t owner : ThreadId) (T : Table) : Bool :=
  owner == t || !R.options.block || T.closesWaitCycle owner t

/-- A call looks up its key under the lock. -/
def look (R : Setup ι σ ε ν) (t : ThreadId) (frames : List (Frame ι σ ε ν)) (c : Call ι σ ε ν)
    (waited : Bool) (s : State ι σ ε ν) : State ι σ ε ν :=
  match Dictionary.find? c.key s.store.table.entries with
  | some (.ready i) =>
    s.put t frames (.reporting c (if waited then .waited else .hit)
      ⟨c.key, c.reference, .ready i⟩)
  | some (.pending owner slot) =>
    if defers R t owner s.store.table then
      (s.withStore (s.store.share slot)).put t frames
        (.reporting c .deferred ⟨c.key, c.reference, .slot slot⟩)
    else (s.withStore (s.store.sleep t c.key)).put t frames (.asleep c false)
  | none => begin R t frames c s

/-- A construction fails: its key is forgotten. -/
def undo (t : ThreadId) (f : Frame ι σ ε ν) (frames : List (Frame ι σ ε ν)) (failure : Failure ε)
    (s : State ι σ ε ν) : State ι σ ε ν :=
  (s.withStore (s.store.rollBack f.call.key f.slot)).put t frames (.ending f.call (.error failure))

/-- The factory of the innermost construction goes on. -/
def runProgram (R : Setup ι σ ε ν) (t : ThreadId) (f : Frame ι σ ε ν)
    (frames : List (Frame ι σ ε ν)) (p : Program ι σ ε ν) (s : State ι σ ε ν) :
    Option (State ι σ ε ν) :=
  match p with
  | .done y =>
    some ((s.withStore (s.store.publish f.call.key y)).put t frames
      (.fulfilling f (s.store.place y)))
  | .fail e => some (undo t f frames (.error e) s)
  | .panic message =>
    some (undo t f frames (.panic message) (s.tell t (.constructionPanicked f.call.key)))
  | .resolve r k => some (enter R t (f :: frames) r (some k) s)
  | .note g k => some (State.put { s with notes := g s.notes } t (f :: frames) (.running (k s.notes)))
  | .inspect k => some (s.put t (f :: frames) (.running (k s.store)))
  | .say event next => some ((s.tell t (.said event)).put t (f :: frames) (.running next))
  | .gate name next =>
    if name ∈ s.openGates then some (s.put t (f :: frames) (.running next)) else none

/-- The sleepers are notified that a construction has ended. -/
def announce (t : ThreadId) (frames : List (Frame ι σ ε ν)) (c : Call ι σ ε ν)
    (result : Except (Failure ε) InstanceId) (s : State ι σ ε ν) : State ι σ ε ν :=
  s.notifyAll.put t frames <|
    match result with
    | .ok i => .reporting c .miss ⟨c.key, c.reference, .ready i⟩
    | .error failure => .failing c failure

/-- An answer is counted and reported. -/
def report (R : Setup ι σ ε ν) (t : ThreadId) (frames : List (Frame ι σ ε ν)) (c : Call ι σ ε ν)
    (o : Outcome) (h : Handle) (s : State ι σ ε ν) : State ι σ ε ν :=
  ((s.withStore (s.store.count o)).tellAll t (R.sink.notices c.reference c.key o)).put t frames
    (c.deliver (.ok h))

/-- A failure is counted and reported. -/
def reportFailure (t : ThreadId) (frames : List (Frame ι σ ε ν)) (c : Call ι σ ε ν)
    (failure : Failure ε) (s : State ι σ ε ν) : State ι σ ε ν :=
  let s := s.withStore s.store.countFailure
  let s := match failure with
    | .error e => s.tell t (.constructionFailed c.reference c.key e)
    | .panic _ => s
  s.put t frames (c.deliverFailure failure)

/-- The step of a thread, if it has one. -/
def stepThread (R : Setup ι σ ε ν) (t : ThreadId) (th : Thread ι σ ε ν) (s : State ι σ ε ν) :
    Option (State ι σ ε ν) :=
  match th.stage with
  | .running p =>
    match th.frames with
    | f :: frames => runProgram R t f frames p s
    | [] => none
  | .looking c waited => some (look R t th.frames c waited s)
  | .asleep c true => some (look R t th.frames c true (s.withStore (s.store.wake t)))
  | .asleep _ false => none
  | .fulfilling f i =>
    some ((s.withStore (s.store.fulfil f.slot i)).put t th.frames (.ending f.call (.ok i)))
  | .ending c result => some (announce t th.frames c result s)
  | .reporting c o h => some (report R t th.frames c o h s)
  | .failing c failure => some (reportFailure t th.frames c failure s)
  | .awaiting h =>
    if h.isWaiting s.store then none else some (s.put t th.frames (.awaited (h.get s.store)))
  | .returned _ | .panicked _ | .awaited _ => none

/-- **One step of one thread.** -/
def step (R : Setup ι σ ε ν) (t : ThreadId) (s : State ι σ ε ν) : Option (State ι σ ε ν) :=
  (Dictionary.find? t s.threads).bind fun th => stepThread R t th s

theorem step_eq_none_of_resting {R : Setup ι σ ε ν} {t : ThreadId} {s : State ι σ ε ν}
    {stage : Stage ι σ ε ν} (hs : s.stage? t = some stage) (hr : stage.isResting = true) :
    step R t s = none := by
  simp only [State.stage?, Option.map_eq_some_iff] at hs
  obtain ⟨th, hth, rfl⟩ := hs
  obtain ⟨frames, stage⟩ := th
  cases stage <;> simp_all [step, stepThread, Stage.isResting]

/-! ### From outside -/

namespace State

/-- A registry before any call. -/
def initial (notes : σ) (asked : Nat) : State ι σ ε ν where
  store := { asked := asked }
  threads := []
  notes := notes
  openGates := []
  log := []

/-- Whether a thread can make a call: it has made none yet, or its last one is over. -/
def isIdle (s : State ι σ ε ν) (t : ThreadId) : Bool := (s.stage? t).all Stage.isResting

/-- A thread calls from outside all constructions. -/
def call (R : Setup ι σ ε ν) (t : ThreadId) (r : Request) (s : State ι σ ε ν) : State ι σ ε ν :=
  enter R t [] r none s

/-- A thread waits for the construction behind a handle. -/
def await (t : ThreadId) (h : Handle) (s : State ι σ ε ν) : State ι σ ε ν := s.put t [] (.awaiting h)

/-- A gate is opened for good. -/
def openGate (name : String) (s : State ι σ ε ν) : State ι σ ε ν :=
  { s with openGates := name :: s.openGates }

/-- The gate at which a thread stands, if it is closed. -/
def closedGate? (s : State ι σ ε ν) (t : ThreadId) : Option String :=
  match s.stage? t with
  | some (.running (.gate name _)) => if name ∈ s.openGates then none else some name
  | _ => none

/-- A thread passes the gate at which it stands, and the gate stays closed. -/
def passGate (t : ThreadId) (s : State ι σ ε ν) : State ι σ ε ν :=
  match Dictionary.find? t s.threads with
  | some ⟨frames, .running (.gate _ next)⟩ => s.put t frames (.running next)
  | _ => s

end State

end SchemaGraph.Registry
