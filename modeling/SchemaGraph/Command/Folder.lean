/-
**Files of a folder.**

The file at a path is found by following the parts of the path from the folder, one after the other.
Every part but the last must lead to a folder, and so must the last if a slash follows it.  What
lies outside the folder is not known: the folders above it are there, with nothing else in them.

Main definitions:

* `Folder` — files, each at its path of names below the folder;
* `Place` — where a path has led so far;
* `Folder.follow`, `Folder.read` — the place that a path leads to, and the text of the file there.
-/

import SchemaGraph.Nodes.NodeType

set_option autoImplicit false

namespace SchemaGraph.Command

/-- Files, each at its path of names below the folder. -/
structure Folder where
  files : Dictionary (List String) ByteArray := []

/-- Where a path has led so far. -/
inductive Place where
  /-- the folder, or one below it, at a path of names -/
  | inside (names : List String)
  /-- a folder above or beside -/
  | outside
  | file (bytes : ByteArray)

/-- The most bytes of a name. -/
def longestName : Nat := 255

/-- The most bytes of a path. -/
def longestPath : Nat := 4095

namespace Folder

/-- Whether there is a file below a path of names. -/
def hasBelow (F : Folder) (names : List String) : Bool :=
  F.files.any fun p => names.isPrefixOf p.1

/-- The place that a name leads to from a path of names. -/
def entryAt (F : Folder) (names : List String) (name : String) : Except ReadFault Place :=
  if longestName < name.utf8ByteSize then .error .longName
  else
    match Dictionary.find? (names ++ [name]) F.files with
    | some bytes => .ok (.file bytes)
    | none => if F.hasBelow (names ++ [name]) then .ok (.inside (names ++ [name])) else .error .missing

/-- The place that one part of a path leads to. -/
def follow (F : Folder) (place : Place) (part : String) : Except ReadFault Place :=
  match place with
  | .file _ => .error .belowFile
  | .outside =>
    if part = "" ∨ part = "." ∨ part = ".." then .ok .outside
    else if longestName < part.utf8ByteSize then .error .longName
    else .error .missing
  | .inside names =>
    if part = "" ∨ part = "." then .ok place
    else if part = ".." then .ok (if names.isEmpty then .outside else .inside names.dropLast)
    else F.entryAt names part

/-- The place that the parts of a path lead to. -/
def followAll (F : Folder) (place : Place) : List String → Except ReadFault Place
  | [] => .ok place
  | part :: parts => (F.follow place part).bind fun place => F.followAll place parts

/-- The text at a place. -/
def textAt : Place → Except ReadFault String
  | .file bytes =>
    match String.fromUTF8? bytes with
    | some text => .ok text
    | none => .error .noText
  | .inside _ | .outside => .error .folder

/-- The text of the file at a path. -/
def read (F : Folder) (path : String) : Except ReadFault String :=
  if path = "" then .error .missing
  else if '\x00' ∈ path.toList then .error .nullInPath
  else if longestPath < path.utf8ByteSize then .error .longName
  else
    let start := if path.toList.head? = some '/' then .outside else .inside []
    (F.followAll start (path.splitOn "/")).bind textAt

end Folder

end SchemaGraph.Command
