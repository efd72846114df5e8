/-
**The program.**

The only part that touches files and streams: it reads the file that the arguments ask for, and
prints the reply.

Main definitions:

* `contentOf` — the text of a file, or why there is none;
* `main` — the program.
-/

import SchemaGraph.Command.Task

set_option autoImplicit false

namespace SchemaGraph.Command

/-- More steps than the constructions of any definitions take. -/
def stepLimit : Nat := 1000000000000

/-- The number of an error of the system, which is reported with either sign. -/
def errorNumber (code : UInt32) : Nat := min code.toNat (-code).toNat

/-- The text of an error of the system and its number. -/
def systemText (code : UInt32) (details : String) : String :=
  details ++ " (os error " ++ toString (errorNumber code) ++ ")"

/-- The fault that an error of the system stands for. -/
def faultOf (e : IO.Error) : ReadFault :=
  match e with
  | .noFileOrDirectory .. => .missing
  | .inappropriateType _ code _ => if errorNumber code = 21 then .folder else .belowFile
  | .invalidArgument _ code details =>
    if errorNumber code = 36 then .longName else .other (systemText code details)
  | .permissionDenied _ code details => .other (systemText code details)
  | e => .other (toString e)

/-- The text of a file. -/
def contentOf (path : String) : IO (Except ReadFault String) := do
  if path.isEmpty then return .error .missing
  try
    let bytes ← IO.FS.readBinFile path
    match String.fromUTF8? bytes with
    | some text => return .ok text
    | none => return .error .noText
  catch e => return .error (faultOf e)

end SchemaGraph.Command

open SchemaGraph.Command in
/-- Runs the task that the arguments ask for. -/
def main (arguments : List String) : IO UInt32 := do
  let task := taskOf arguments
  let content ← match task.path? with
    | some path => contentOf path
    | none => pure (.error .missing)
  let reply := task.finish stepLimit content
  IO.print reply.output
  IO.eprint reply.errors
  return UInt32.ofNat reply.code
