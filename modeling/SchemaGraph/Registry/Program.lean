/-
**What a factory does.**

A factory is given the identifier, the scope and the key of the type to construct.  What it does is
a tree of requests to the registry, each with a continuation for every answer, so nothing is assumed
about it: it may request any types, look at the registry, hand over a new instance or one that is
there already, fail, or break off.

Main definitions:

* `Request`, `Site` — what is asked for, and what a factory is given;
* `Yield` — what a factory hands over: a new instance, or one that is there already;
* `Program` — the tree: over what is constructed (`ι`), the notes that factories share (`σ`), errors
  of their own (`ε`) and events they report (`ν`);
* `Program.attempt`, `Program.request`, `Program.keep` — goes on with a result, with one handle,
  with the handles of several requests in order;
* `Factory` — a tag and a program for each site.
-/

import SchemaGraph.Registry.Handle

set_option autoImplicit false

namespace SchemaGraph.Registry

/-- A type that is asked for. -/
structure Request where
  identifier : Identifier
  context : Option Context
deriving Inhabited

/-- The text of a request in handles and errors. -/
def Request.reference (r : Request) : String := r.identifier.reference r.context

/-- What a factory is given. -/
structure Site where
  identifier : Identifier
  context : Option Context
  key : Key
deriving Inhabited

/-- What a factory hands over. -/
inductive Yield (ι : Type) where
  /-- a new instance -/
  | new (x : ι)
  /-- an instance that is there already, published under whichever key, if it is found in the store
  when it is handed over; otherwise a new one -/
  | shared (find : Store ι → Option InstanceId) (x : ι)

/-- What is handed over when it is new. -/
def Yield.content {ι : Type} : Yield ι → ι
  | .new x | .shared _ x => x

/-- What a factory does. -/
inductive Program (ι σ ε ν : Type) where
  /-- the construction succeeds -/
  | done (y : Yield ι)
  /-- the construction fails -/
  | fail (e : RegistryError ε)
  /-- the construction breaks off -/
  | panic (message : String)
  /-- a related type is requested -/
  | resolve (r : Request) (k : Except (RegistryError ε) Handle → Program ι σ ε ν)
  /-- the shared notes are changed; the continuation is given the notes before -/
  | note (f : σ → σ) (k : σ → Program ι σ ε ν)
  /-- the registry is looked at -/
  | inspect (k : Store ι → Program ι σ ε ν)
  /-- an event is reported -/
  | say (event : ν) (next : Program ι σ ε ν)
  /-- the thread stands still until a gate is open -/
  | gate (name : String) (next : Program ι σ ε ν)

instance {ι σ ε ν : Type} : Inhabited (Program ι σ ε ν) := ⟨.panic ""⟩

namespace Program

variable {ι σ ε ν : Type}

/-- Goes on with a result, or fails with an error of the factory's own. -/
def attempt {α : Type} (result : Except ε α) (k : α → Program ι σ ε ν) : Program ι σ ε ν :=
  match result with
  | .ok a => k a
  | .error fault => .fail (.raised fault)

/-- Requests a type; an error is the program's own. -/
def request (r : Request) (k : Handle → Program ι σ ε ν) : Program ι σ ε ν :=
  .resolve r fun answer =>
    match answer with
    | .ok h => k h
    | .error e => .fail e

/-- Requests types in order; the first error is the program's own. -/
def keep : List Request → (List Handle → Program ι σ ε ν) → Program ι σ ε ν
  | [], k => k []
  | r :: rs, k => request r fun h => keep rs fun hs => k (h :: hs)

@[simp] theorem keep_nil (k : List Handle → Program ι σ ε ν) : keep [] k = k [] := rfl

theorem keep_cons (r : Request) (rs : List Request) (k : List Handle → Program ι σ ε ν) :
    keep (r :: rs) k = request r fun h => keep rs fun hs => k (h :: hs) := rfl

end Program

/-- A factory: the kind of type it constructs, and what it does at each site. -/
structure Factory (ι σ ε ν : Type) where
  tag : Tag
  build : Site → Program ι σ ε ν

end SchemaGraph.Registry
