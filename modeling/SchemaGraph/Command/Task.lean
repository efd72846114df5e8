/-
**The command line.**

The first argument names a command.  Two commands read definitions and print what comes of them; the
others answer at once.  An error goes to the error output, with its sources, a line each.

Main definitions:

* `Reply` — what is printed, and how the program ends;
* `Task`, `taskOf` — what arguments ask for;
* `Task.finish` — the reply, once the file that a task asks for was read;
* `run` — the reply over the files of a folder.
-/

import SchemaGraph.Command.Folder
import SchemaGraph.Command.Render
import SchemaGraph.Nodes.Definitions

set_option autoImplicit false

namespace SchemaGraph.Command

/-! ### Replies -/

/-- What is printed, and how the program ends. -/
structure Reply where
  /-- zero, unless something went wrong -/
  code : Nat := 0
  output : String := ""
  errors : String := ""
deriving DecidableEq, Repr, Inhabited

/-- Lines of text, each ended. -/
def lines (ls : List String) : String := String.join (ls.map (· ++ "\n"))

/-- How the program is used. -/
def usage : String := lines [
  "gqlr - schema builder for node-type definitions",
  "",
  "Usage: gqlr <command> [options]",
  "",
  "Commands:",
  "  schema <nodes.json>  Print the schema as SDL",
  "  stats <nodes.json>   Print type registry statistics",
  "  help                 Show this help message",
  "  version              Show version information",
  "",
  "Options:",
  "  --root <NodeType>    Use a node type as the query root instead of Query",
  "  --dump-identities    Trace the canonical identity of every resolve",
  "",
  "Logging is controlled by GQLR_LOG (falls back to RUST_LOG), e.g. GQLR_LOG=gqlr_registry=debug"]

/-- The version of the program. -/
def version : String := "0.1.0"

/-- The reply to arguments that a command refuses. -/
def refusal (command : String) (e : UsageError) : Reply where
  code := 1
  errors := lines ["error: " ++ e.message,
    "Usage: gqlr " ++ command ++ " <nodes.json> [--root <NodeType>] [--dump-identities]"]

/-- The reply to an unknown command. -/
def unknownCommand (command : String) : Reply where
  code := 1
  output := usage
  errors := lines ["Unknown command: " ++ command, ""]

/-- An error and its sources, a line each. -/
def report (e : SchemaError) : String :=
  lines (("error: " ++ e.message) :: e.messages.tail.map ("  caused by: " ++ ·))

/-- The reply to a command that printed something or failed. -/
def replyOf : Except SchemaError String → Reply
  | .ok text => { output := text }
  | .error e => { code := 1, errors := report e }

/-! ### Tasks -/

/-- The output that a command is to print. -/
inductive Output where
  | schema
  | stats
deriving DecidableEq, Repr, Inhabited

/-- The name of the command. -/
def Output.command : Output → String
  | .schema => "schema"
  | .stats => "stats"

/-- The output over node types. -/
def Output.render (o : Output) (fuel : Nat) (nodes : NodeTypes) (inv : Invocation) :
    Except SchemaError String :=
  match o with
  | .schema => renderSchema fuel nodes inv
  | .stats => renderStats fuel nodes inv

/-- What arguments ask for. -/
inductive Task where
  /-- an answer at once -/
  | reply (r : Reply)
  /-- an output over the definitions in a file -/
  | render (o : Output) (inv : Invocation)
deriving Inhabited

/-- The task of a command that reads definitions. -/
def renderTask (o : Output) (arguments : List String) : Task :=
  match Invocation.parse arguments with
  | .ok inv => .render o inv
  | .error e => .reply (refusal o.command e)

/-- The task that arguments ask for. -/
def taskOf : List String → Task
  | [] => .reply { output := usage }
  | command :: arguments =>
    if command = Output.schema.command then renderTask .schema arguments
    else if command = Output.stats.command then renderTask .stats arguments
    else if command ∈ ["help", "--help", "-h"] then .reply { output := usage }
    else if command ∈ ["version", "--version", "-V"] then
      .reply { output := lines ["gqlr " ++ version] }
    else .reply (unknownCommand command)

/-- The path of the file that a task asks for. -/
def Task.path? : Task → Option String
  | .reply _ => none
  | .render _ inv => some inv.nodes

/-- The reply to a task, given the text of the file that it asks for. -/
def Task.finish (t : Task) (fuel : Nat) (content : Except ReadFault String) : Reply :=
  match t with
  | .reply r => r
  | .render o inv =>
    match NodeTypes.ofFile inv.nodes content with
    | .error e => replyOf (.error (.definition e))
    | .ok nodes => replyOf (o.render fuel nodes inv)

/-- The reply to arguments over the files of a folder. -/
def run (fuel : Nat) (F : Folder) (arguments : List String) : Reply :=
  let t := taskOf arguments
  t.finish fuel (F.read (t.path?.getD ""))

end SchemaGraph.Command
