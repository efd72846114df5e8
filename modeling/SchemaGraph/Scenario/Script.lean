/-
**Scripted factories.**

To observe a registry at work, a factory is given as a script: a list of actions that it takes in
order before it completes.  An action may be limited to the first attempts at a name or to the later
ones, so that failures and retries can be arranged.  What is constructed is a shape, which records
what its factory was given and the handles that the factory kept.

Main definitions:

* `Shape` — what a scripted factory constructs;
* `Notes` — what scripted factories share: attempts by name, and stored handles;
* `Event` — what they report, with `HandleView` and `Probe`;
* `Action`, `ScriptStep`, `Script` — scripts;
* `Script.factory` — the factory that a script describes.

Main results:

* `Script.program_nil` — a script without actions completes.
-/

import SchemaGraph.Registry.Builder

set_option autoImplicit false

namespace SchemaGraph.Scenario

open Registry

/-! ### What scripted factories construct, share and report -/

/-- What a scripted factory constructs. -/
structure Shape where
  name : String
  /-- the name of the scope -/
  context : Option String
  /-- the text of the identifier -/
  options : String
  /-- the handles that were kept -/
  links : List Handle
deriving Inhabited

/-- What scripted factories share. -/
structure Notes where
  /-- how often each factory was run -/
  attempts : Dictionary String Nat := []
  /-- handles stored by name -/
  handles : Dictionary String Handle := []
deriving Inhabited

/-- The serial number of an instance counts from one. -/
def serial (i : InstanceId) : Nat := i + 1

/-- What can be seen of a handle. -/
structure HandleView where
  key : Key
  reference : String
  deferred : Bool
  ready : Bool
  /-- the serial number of the instance -/
  got : Except (RegistryError String) Nat

/-- What can be seen of a handle at a moment. -/
def view {ι : Type} (h : Handle) (S : Store ι) : HandleView where
  key := h.key
  reference := h.reference
  deferred := h.isDeferred
  ready := h.isReady S
  got := (h.get S).map serial

/-- What a factory sees of the registry and of its own key. -/
structure Probe where
  name : String
  key : Key
  options : Nat
  context : Option String
  contains : Bool
  found : Bool
  size : Nat
  ready : Nat
  stats : String

/-- What a factory sees when it is run. -/
def probe {ι : Type} (site : Site) (S : Store ι) : Probe where
  name := site.identifier.name
  key := site.key
  options := site.identifier.config.length
  context := site.context.map Context.name
  contains := (Dictionary.find? site.key S.table.entries).isSome
  found := (S.table.ready? site.key).isSome
  size := S.table.size
  ready := S.table.instances.length
  stats := S.stats.text

/-- What scripted factories report. -/
inductive Event where
  /-- a factory is run, for the so-manieth time -/
  | build (name : String) (attempt : Nat)
  | resolved (h : HandleView)
  | caught (e : RegistryError String)
  | got (serial : Nat)
  | probed (p : Probe)
  | option (name : String) (value : Option String)
  | read (h : Option HandleView)

/-! ### Scripts -/

/-- What a scripted factory does. -/
inductive Action where
  /-- requests a type, in the factory's own scope or in a given one -/
  | resolve (id : Identifier) (context : Option Context) (inContext keep : Bool)
      (leak : Option String) (catches : Bool)
  /-- requests a type and reads the instance -/
  | read (id : Identifier) (context : Option Context) (catches : Bool)
  /-- requests its own type with a positive option lowered by one -/
  | countdown (option : String) (keep : Bool)
  /-- requests the type that an option refers to -/
  | nested (option : String)
  /-- looks at the registry -/
  | probe
  /-- looks at an option -/
  | option (name : String)
  /-- looks at a stored handle -/
  | get (handle : String)
  /-- forgets a stored handle -/
  | drop (handle : String)
  | gate (name : String)
  | fail (message : String)
  | panic (message : String)

/-- An action, and the attempts at which it is taken. -/
structure ScriptStep where
  action : Action
  /-- only up to this attempt -/
  times : Option Nat := none
  /-- only after this attempt -/
  after : Option Nat := none

/-- Whether a step is taken at an attempt. -/
def ScriptStep.isTaken (s : ScriptStep) (attempt : Nat) : Bool :=
  s.times.all (attempt ≤ ·) && s.after.all (· < attempt)

/-- What a factory does before it completes. -/
abbrev Script := List ScriptStep

/-- The programs of scripted factories. -/
abbrev ScriptProgram := Program Shape Notes String Event

/-- A handle is kept among the links or not. -/
def kept (keep : Bool) (links : List Handle) (h : Handle) : List Handle :=
  if keep then links ++ [h] else links

/-- An error is caught or becomes the factory's own. -/
def caughtOr (catches : Bool) (e : RegistryError String) (next : ScriptProgram) : ScriptProgram :=
  if catches then .say (.caught e) next else .fail e

/-- One action at a site, before what follows with the links kept so far. -/
def Action.program (a : Action) (site : Site) (links : List Handle)
    (next : List Handle → ScriptProgram) : ScriptProgram :=
  match a with
  | .resolve id context inContext keep leak catches =>
    .resolve ⟨id, if inContext then site.context else context⟩ fun answer =>
      match answer with
      | .ok h => .inspect fun S => .say (.resolved (view h S)) <|
          match leak with
          | some name =>
            .note (fun n => { n with handles := Dictionary.set name h n.handles }) fun _ =>
              next (kept keep links h)
          | none => next (kept keep links h)
      | .error e => caughtOr catches e (next links)
  | .read id context catches =>
    .resolve ⟨id, context⟩ fun answer =>
      match answer with
      | .ok h => .inspect fun S =>
          match h.get S with
          | .ok i => .say (.got (serial i)) (next links)
          | .error e => caughtOr catches e (next links)
      | .error e => caughtOr catches e (next links)
  | .countdown name keep =>
    let left := ((site.identifier.option? name).bind Value.int?).getD 0
    if left ≤ 0 then next links
    else
      .resolve ⟨site.identifier.withOption name (.int (left - 1)), none⟩ fun answer =>
        match answer with
        | .ok h => next (kept keep links h)
        | .error e => .fail e
  | .nested name =>
    match (site.identifier.option? name).bind Value.type? with
    | some id =>
      .resolve ⟨id, site.context⟩ fun answer =>
        match answer with
        | .ok h => next (links ++ [h])
        | .error e => .fail e
    | none => next links
  | .probe => .inspect fun S => .say (.probed (Scenario.probe site S)) (next links)
  | .option name =>
    .say (.option name ((site.identifier.option? name).map Value.display)) (next links)
  | .get handle =>
    .note id fun n =>
      match Dictionary.find? handle n.handles with
      | some h => .inspect fun S => .say (.read (some (view h S))) (next links)
      | none => .say (.read none) (next links)
  | .drop handle =>
    .note (fun n => { n with handles := Dictionary.erase handle n.handles }) fun _ => next links
  | .gate name => .gate name (next links)
  | .fail message => .fail (.raised message)
  | .panic message => .panic message

namespace Script

/-- The steps of a script at an attempt, with the links kept so far. -/
def program (site : Site) (attempt : Nat) : Script → List Handle → ScriptProgram
  | [], links =>
    .done (.new ⟨site.identifier.name, site.context.map Context.name, site.identifier.display,
      links⟩)
  | step :: rest, links =>
    if step.isTaken attempt then step.action.program site links (program site attempt rest)
    else program site attempt rest links

@[simp] theorem program_nil (site : Site) (attempt : Nat) (links : List Handle) :
    program site attempt [] links =
      .done (.new ⟨site.identifier.name, site.context.map Context.name, site.identifier.display,
        links⟩) := rfl

/-- The number of attempts at a name. -/
def attempts (n : Notes) (name : String) : Nat := (Dictionary.find? name n.attempts).getD 0

/-- The factory that a script describes: it counts the attempt, reports it, and takes the steps. -/
def factory (tag : Tag) (script : Script) : Factory Shape Notes String Event where
  tag := tag
  build site :=
    let name := site.identifier.name
    let counted (n : Notes) : Notes :=
      { n with attempts := Dictionary.set name (attempts n name + 1) n.attempts }
    .note counted fun n =>
      .say (.build name (attempts n name + 1)) (program site (attempts n name + 1) script [])

end Script

end SchemaGraph.Scenario
