/-
**Arguments of a command.**

A command that reads definitions is given the path of a file and options, in any order.  A root is
given by `--root` and the argument after it, whatever that is, or in one argument by `--root=`; of
several roots the last counts.  Any other argument that starts with a dash must be
`--dump-identities`.

Main definitions:

* `UsageError` — why arguments are refused;
* `Part`, `readPart` — what an argument on its own says;
* `Choices`, `readArguments` — what the arguments say together, read from left to right;
* `Invocation`, `Invocation.parse` — a path with options.

Main results:

* `readArguments_root`, `readArguments_part` — one step of the reader.
-/

set_option autoImplicit false

namespace SchemaGraph.Command

/-! ### Errors -/

/-- Why arguments are refused. -/
inductive UsageError where
  /-- there is no argument after the option for the root -/
  | missingRoot
  | unknownOption (argument : String)
  /-- a second path -/
  | extraPath (argument : String)
  | missingPath
deriving DecidableEq, Repr, Inhabited

/-- The text of an error. -/
def UsageError.message : UsageError → String
  | .missingRoot => "--root needs a node type name"
  | .unknownOption argument => "unknown option `" ++ argument ++ "`"
  | .extraPath argument => "unexpected argument `" ++ argument ++ "`"
  | .missingPath => "missing node-type definitions file"

/-! ### Arguments -/

/-- The option for the root, in two arguments. -/
def rootOption : String := "--root"

/-- The option for the root, in one argument. -/
def rootEquals : String := "--root="

/-- The option to report identities. -/
def dumpOption : String := "--dump-identities"

/-- What one argument, or two, say. -/
inductive Part where
  | root (name : String)
  | dumpIdentities
  | path (path : String)
deriving DecidableEq, Repr, Inhabited

/-- What is left of a text after its start, if it starts so. -/
def afterStart? (start s : String) : Option String :=
  if start.toList.isPrefixOf s.toList then some (String.ofList (s.toList.drop start.toList.length))
  else none

/-- What an argument on its own says. -/
def readPart (argument : String) : Except UsageError Part :=
  match afterStart? rootEquals argument with
  | some name => .ok (.root name)
  | none =>
    if argument = dumpOption then .ok .dumpIdentities
    else if argument.toList.head? = some '-' then .error (.unknownOption argument)
    else .ok (.path argument)

/-- What arguments have said so far. -/
structure Choices where
  path : Option String := none
  root : Option String := none
  dumpIdentities : Bool := false
deriving DecidableEq, Repr, Inhabited

/-- The choices with another part. -/
def Choices.add (c : Choices) : Part → Except UsageError Choices
  | .root name => .ok { c with root := some name }
  | .dumpIdentities => .ok { c with dumpIdentities := true }
  | .path path =>
    match c.path with
    | none => .ok { c with path := some path }
    | some _ => .error (.extraPath path)

/-- The choices with what further arguments say, from left to right. -/
def readArguments (c : Choices) : List String → Except UsageError Choices
  | [] => .ok c
  | [argument] =>
    if argument = rootOption then .error .missingRoot else (readPart argument).bind c.add
  | argument :: next :: rest =>
    if argument = rootOption then readArguments { c with root := some next } rest
    else ((readPart argument).bind c.add).bind fun c => readArguments c (next :: rest)

theorem readArguments_root (c : Choices) (name : String) (rest : List String) :
    readArguments c (rootOption :: name :: rest)
      = readArguments { c with root := some name } rest := by
  simp [readArguments]

theorem readArguments_part {argument : String} (h : argument ≠ rootOption) (c : Choices)
    (rest : List String) :
    readArguments c (argument :: rest)
      = ((readPart argument).bind c.add).bind fun c => readArguments c rest := by
  cases rest with
  | nil =>
      simp only [readArguments, if_neg h]
      cases (readPart argument).bind c.add <;> rfl
  | cons next rest => simp [readArguments, h]

/-! ### Invocations -/

/-- What a command that reads definitions is told. -/
structure Invocation where
  /-- the path of the definitions -/
  nodes : String
  /-- the node type at the root, in place of the query object -/
  root : Option String := none
  dumpIdentities : Bool := false
deriving DecidableEq, Repr, Inhabited

/-- The invocation that arguments say, if there is a path among them. -/
def Invocation.parse (arguments : List String) : Except UsageError Invocation :=
  (readArguments {} arguments).bind fun c =>
    match c.path with
    | some path => .ok ⟨path, c.root, c.dumpIdentities⟩
    | none => .error .missingPath

end SchemaGraph.Command
