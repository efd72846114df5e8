/-
**Sessions with one registry.**

A session first collects scripted factories, then builds the registry, then calls on it from a
single thread and looks at it between calls.  Handles can be stored under names, by the session and
by the factories alike.

Main definitions:

* `SessionStep`, `Answer` — what a session is asked to do, and what it answers;
* `Session` — collecting, failed to build, or running;
* `Session.perform` — one step: the answer, what was reported meanwhile, and the session after;
* `Session.run` — a list of steps.
-/

import SchemaGraph.Registry.Run
import SchemaGraph.Scenario.Script

set_option autoImplicit false

namespace SchemaGraph.Scenario

open Registry

/-- The state of a registry with scripted factories. -/
abbrev ScriptState := State Shape Notes String Event

/-! ### Steps and answers -/

/-- What a session is asked to do. -/
inductive SessionStep where
  | register (name : String) (tag : Tag) (script : Script)
  | family (f : Family)
  | build
  /-- a call; the handle may be stored -/
  | resolve (r : Request) (storeAs : Option String)
  /-- a call, and the instance is read -/
  | instanceOf (r : Request)
  /-- the instance of a key, without a call -/
  | lookup (r : Request)
  | size
  | stats
  | instances
  | names
  | registered (name : String)
  | options
  | summary
  /-- a stored handle -/
  | handle (name : String)
  /-- the instance of a stored handle -/
  | get (name : String)
  /-- the instance of a stored handle, once its construction has ended -/
  | wait (name : String)
  | clone (name other : String)
  | drop (name : String)

/-- What can be seen of a shape. -/
structure ShapeView where
  serial : Nat
  shape : Shape
  links : List HandleView

/-- What a session answers. -/
inductive Answer where
  | accepted (b : Bool)
  /-- the registry was built before -/
  | alreadyBuilt
  /-- there is no registry -/
  | noRegistry
  | error (e : RegistryError String)
  /-- an identifier has no key -/
  | identifierError (e : IdentifierError)
  | panicked (message : String)
  /-- the call did not come to an end -/
  | unfinished
  | handle (h : HandleView)
  | shape (s : ShapeView)
  | lookup (contains : Bool) (found : Option ShapeView)
  | size (n : Nat)
  | stats (s : Stats)
  | instances (is : List (Key × Nat))
  | names (ns : List String)
  | registered (b : Bool)
  | options (o : Options)
  | summary (text : String)
  | stored (found : Option (HandleView × String))
  | got (found : Option (Except (RegistryError String) ShapeView))
  | waited (found : Option (Except (RegistryError String) Nat))

/-- What can be seen of an instance. -/
def shapeView (S : Store Shape) (i : InstanceId) : ShapeView :=
  let shape := S.instances[i]?.getD default
  ⟨serial i, shape, shape.links.map fun h => view h S⟩

/-! ### Sessions -/

/-- A registry with scripted factories, at work. -/
structure Running where
  setup : Setup Shape Notes String Event
  state : ScriptState

/-- Where a session stands. -/
inductive Phase where
  | collecting (b : Builder Shape Notes String Event)
  | failed
  | running (r : Running)

/-- A session: where it stands, and the sink and settings that its registry is given. -/
structure Session where
  phase : Phase
  sink : Sink
  settings : Options

/-- What was reported by any thread. -/
abbrev Report := ThreadId × Notice String Event

namespace Running

/-- A stored handle. -/
def stored? (r : Running) (name : String) : Option Handle :=
  Dictionary.find? name r.state.notes.handles

/-- The stored handles are changed. -/
def withHandles (r : Running) (f : Dictionary String Handle → Dictionary String Handle) : Running :=
  { r with state := { r.state with
    notes := { r.state.notes with handles := f r.state.notes.handles } } }

/-- A call, run to its end; the answer is made of the handle and the store after it. -/
def call (r : Running) (fuel : Nat) (request : Request)
    (answer : Running → Handle → Answer × Running) : Answer × Running :=
  let (reply, s) := resolve r.setup fuel request r.state
  let r := { r with state := s }
  match reply with
  | .answer (.ok h) => answer r h
  | .answer (.error e) => (.error e, r)
  | .panicked message => (.panicked message, r)
  | .unfinished => (.unfinished, r)

/-- A step on a registry that was built. -/
def perform (r : Running) (fuel : Nat) : SessionStep → Answer × Running
  | .register .. | .family _ | .build => (.alreadyBuilt, r)
  | .resolve request storeAs =>
    r.call fuel request fun r h =>
      (.handle (view h r.state.store),
        match storeAs with
        | some name => r.withHandles (Dictionary.set name h)
        | none => r)
  | .instanceOf request =>
    r.call fuel request fun r h =>
      match h.get r.state.store with
      | .ok i => (.shape (shapeView r.state.store i), r)
      | .error e => (.error e, r)
  | .lookup request =>
    match Key.ofIdentifier request.identifier request.context with
    | .error e => (.identifierError e, r)
    | .ok k =>
      let T := r.state.store.table
      (.lookup (Dictionary.find? k T.entries).isSome
        ((T.ready? k).map (shapeView r.state.store)), r)
  | .size => (.size r.state.store.table.size, r)
  | .stats => (.stats r.state.store.stats, r)
  | .instances =>
    (.instances (r.state.store.table.instances.map fun p => (p.1, serial p.2)), r)
  | .names => (.names r.setup.names, r)
  | .registered name => (.registered (r.setup.isRegistered name), r)
  | .options => (.options r.setup.options, r)
  | .summary => (.summary (r.setup.summary r.state), r)
  | .handle name =>
    let S := r.state.store
    (.stored ((r.stored? name).map fun h => (view h S, h.summary S)), r)
  | .get name =>
    let S := r.state.store
    (.got ((r.stored? name).map fun h => (h.get S).map (shapeView S)), r)
  | .wait name => (.waited ((r.stored? name).map fun h => (h.get r.state.store).map serial), r)
  | .clone name other =>
    match r.stored? name with
    | some h => (.accepted true, r.withHandles (Dictionary.set other h))
    | none => (.accepted false, r)
  | .drop name =>
    (.accepted (r.stored? name).isSome, r.withHandles (Dictionary.erase name))

end Running

namespace Session

/-- A session before any step. -/
def start (sink : Sink) (settings : Options) : Session := ⟨.collecting {}, sink, settings⟩

/-- A step before the registry is built. -/
def collect (s : Session) (b : Builder Shape Notes String Event) : SessionStep → Answer × Session
  | .register name tag script =>
    match b.register name (script.factory tag) with
    | (.ok _, b) => (.accepted true, { s with phase := .collecting b })
    | (.error e, b) => (.error e, { s with phase := .collecting b })
  | .family f => (.accepted true, { s with phase := .collecting { b with family := f, asked := 0 } })
  | .build =>
    match b.build with
    | .ok asked =>
      let running : Running := ⟨b.setup s.sink s.settings, .initial {} asked⟩
      (.accepted true, { s with phase := .running running })
    | .error e => (.error e, { s with phase := .failed })
  | _ => (.noRegistry, s)

/-- One step: the answer, what was reported meanwhile in order, and the session after. -/
def perform (s : Session) (fuel : Nat) (c : SessionStep) : Answer × List Report × Session :=
  match s.phase with
  | .collecting b =>
    let (a, s) := s.collect b c
    (a, [], s)
  | .failed =>
    match c with
    | .register .. | .family _ | .build => (.alreadyBuilt, [], s)
    | _ => (.noRegistry, [], s)
  | .running r =>
    let (a, r') := r.perform fuel c
    let new := r'.state.log.take (r'.state.log.length - r.state.log.length)
    (a, new.reverse, { s with phase := .running r' })

/-- A list of steps: for each the answer and what was reported meanwhile. -/
def run (fuel : Nat) : Session → List SessionStep → List (Answer × List Report)
  | _, [] => []
  | s, c :: cs =>
    let (a, reports, s) := s.perform fuel c
    (a, reports) :: run fuel s cs

end Session

end SchemaGraph.Scenario
