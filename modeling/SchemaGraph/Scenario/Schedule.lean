/-
**Schedules of several threads.**

Several threads call on one registry with scripted factories that stand still at gates.  A plan
starts threads, opens gates, and lets single threads pass; after each of its steps every thread goes
on until its call is over, or it stands at a closed gate, or it is blocked in the registry.

Main definitions:

* `PlanStep` — a step of a plan;
* `Status`, `Moment` — what can be seen of a thread, and of all after a step;
* `Schedule`, `Schedule.settle` — threads by label, and letting them go on;
* `Schedule.run` — a plan: the moments, and the handles at the end.
-/

import SchemaGraph.Scenario.Session

set_option autoImplicit false

namespace SchemaGraph.Scenario

open Registry

/-! ### Plans and what can be seen -/

/-- A step of a plan. -/
inductive PlanStep where
  /-- a new thread calls; afterwards it may wait for the construction behind its handle -/
  | start (label : String) (r : Request) (waits : Bool)
  /-- a gate is opened for good -/
  | openGate (name : String)
  /-- one thread passes the gate at which it stands -/
  | next (label : String)

/-- How a thread ended. -/
inductive Result where
  | handle (h : HandleView) (waited : Option (Except (RegistryError String) Nat))
  | error (e : RegistryError String)
  | panicked (message : String)

/-- What can be seen of a thread. -/
inductive Status where
  | atGate (name : String)
  | blocked
  | ended (r : Result)

/-- What can be seen after a step of a plan. -/
structure Moment where
  threads : List (String × Status)
  /-- what each thread reported since the step before -/
  events : List (String × List (Notice String Event))
  size : Nat
  ready : Nat
  stats : String

/-! ### Schedules -/

/-- A thread of a schedule. -/
structure Lane where
  label : String
  /-- whether it waits for the construction behind its handle -/
  waits : Bool
  /-- the handle it was given, and what could be seen of it then -/
  given : Option (Handle × HandleView)

/-- Threads that call on one registry. -/
structure Schedule where
  setup : Setup Shape Notes String Event
  state : ScriptState
  /-- the threads in order of their numbers -/
  lanes : List Lane

namespace Schedule

/-- The first thread that has a step, and the state after it. -/
def firstStep? (s : Schedule) : Option (ThreadId × ScriptState) :=
  (List.range s.lanes.length).findSome? fun t => (step s.setup t s.state).map fun s' => (t, s')

/-- When a thread's call has returned a handle, the handle is noted, and the thread may go on to
wait. -/
def note (s : Schedule) (t : ThreadId) : Schedule :=
  match s.state.stage? t, s.lanes[t]? with
  | some (.returned (.ok h)), some lane =>
    let lanes := s.lanes.set t { lane with given := some (h, view h s.state.store) }
    { s with lanes := lanes, state := if lane.waits then s.state.await t h else s.state }
  | _, _ => s

/-- Every thread goes on until none has a step. -/
def settle : Nat → Schedule → Schedule
  | 0, s => s
  | n + 1, s =>
    match s.firstStep? with
    | some (t, state) => settle n (note { s with state := state } t)
    | none => s

/-- A step of a plan, before the threads go on. -/
def apply (s : Schedule) : PlanStep → Schedule
  | .start label r waits =>
    let t := s.lanes.length
    note { s with
      state := s.state.call s.setup t r
      lanes := s.lanes ++ [⟨label, waits, none⟩] } t
  | .openGate name => { s with state := s.state.openGate name }
  | .next label =>
    match s.lanes.findIdx? (·.label = label) with
    | some t => { s with state := s.state.passGate t }
    | none => s

/-- What can be seen of a thread. -/
def status (s : Schedule) (t : ThreadId) (lane : Lane) : Status :=
  match s.state.stage? t with
  | some (.returned (.error e)) => .ended (.error e)
  | some (.panicked message) => .ended (.panicked message)
  | some (.returned (.ok h)) =>
    .ended (.handle ((lane.given.map Prod.snd).getD (view h s.state.store)) none)
  | some (.awaited answer) =>
    match lane.given with
    | some (_, h) => .ended (.handle h (some (answer.map serial)))
    | none => .blocked
  | some (.running (.gate name _)) => .atGate name
  | _ => .blocked

/-- What each thread reported, of a number of reports, oldest first. -/
def eventsOf (s : Schedule) (count : Nat) : List (String × List (Notice String Event)) :=
  let new := (s.state.log.take count).reverse
  s.lanes.zipIdx.filterMap fun (lane, t) =>
    match new.filterMap fun (u, n) => if u = t then some n else none with
    | [] => none
    | ns => some (lane.label, ns)

/-- What can be seen, when so many reports were made before. -/
def moment (s : Schedule) (before : Nat) : Moment where
  threads := s.lanes.zipIdx.map fun (lane, t) => (lane.label, s.status t lane)
  events := s.eventsOf (s.state.log.length - before)
  size := s.state.store.table.size
  ready := s.state.store.table.instances.length
  stats := s.state.store.stats.text

/-- The moments of a plan, and the schedule after it. -/
def moments (fuel : Nat) : Schedule → List PlanStep → List Moment × Schedule
  | s, [] => ([], s)
  | s, p :: ps =>
    let after := settle fuel (s.apply p)
    let (ms, last) := moments fuel after ps
    (after.moment s.state.log.length :: ms, last)

/-- A plan: the moments, and at the end what can be seen of every handle that was given. -/
def run (fuel : Nat) (s : Schedule) (plan : List PlanStep) :
    List Moment × List (String × HandleView) :=
  let (ms, last) := moments fuel s plan
  (ms, last.lanes.filterMap fun lane =>
    lane.given.map fun p => (lane.label, view p.1 last.state.store))

/-- The schedule of registered scripts, or the refusal of one of them. -/
def start (factories : List (String × Tag × Script)) (sink : Sink) (settings : Options) :
    Except (RegistryError String) Schedule :=
  let named := factories.map fun f => (f.1, Script.factory f.2.1 f.2.2)
  match Builder.registerAll {} named with
  | (.error e, _) => .error e
  | (.ok _, b) => b.build.map fun asked => ⟨b.setup sink settings, .initial {} asked, []⟩

end Schedule

end SchemaGraph.Scenario
