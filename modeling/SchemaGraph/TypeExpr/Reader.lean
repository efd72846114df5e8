/-
**Reading type expressions.**

An expression is read from the bytes of its text.  All that it consists of — letters, digits, the
underscore, brackets, the exclamation mark, and the five white bytes space, tab, line feed, form
feed and carriage return — is a single byte each, so reading stops at the first byte of any other
character.

Main definitions:

* `textBytes` — the bytes of a text, each as the character of that number;
* `NotationProblem` — what is wrong with a text that is no expression;
* `readName`, `readMark`, `readType` — the parts of the reader; each returns the bytes that are
  left;
* `TypeExpr.read` — the reader of a whole text.

Main results:

* `length_skipWhite_le` — skipping leaves no more than there was;
* `readType_eq` — the equation of the reader.
-/

import SchemaGraph.TypeExpr.Basic

set_option autoImplicit false

namespace SchemaGraph

/-! ### Bytes and their classes -/

/-- The bytes of a text, each as the character of that number. -/
def textBytes (s : String) : List Char := s.toUTF8.data.toList.map fun b => Char.ofNat b.toNat

/-- The five white bytes. -/
def isWhite (c : Char) : Bool := c = ' ' || c = '\t' || c = '\n' || c = '\x0c' || c = '\r'

/-- A byte that begins a name. -/
def isNameStart (c : Char) : Bool :=
  ('A' ≤ c && c ≤ 'Z') || ('a' ≤ c && c ≤ 'z') || c = '_'

/-- A byte that goes on a name. -/
def isNamePart (c : Char) : Bool := isNameStart c || ('0' ≤ c && c ≤ '9')

/-- What is left after white bytes. -/
def skipWhite (cs : List Char) : List Char := cs.dropWhile isWhite

theorem length_skipWhite_le (cs : List Char) : (skipWhite cs).length ≤ cs.length :=
  (List.dropWhile_sublist _).length_le

/-! ### The reader -/

/-- Why a text is not what was asked for. -/
inductive NotationProblem where
  | expectedName
  | missingBracket
  | trailingInput
  /-- a name was asked for, and the text is a list or excludes null -/
  | wrappedName
deriving DecidableEq, Repr, Inhabited

/-- The text of a problem. -/
def NotationProblem.message : NotationProblem → String
  | .expectedName => "expected a type name"
  | .missingBracket => "missing `]`"
  | .trailingInput => "unexpected trailing input"
  | .wrappedName => "node type names cannot be wrapped"

/-- A name, as long as possible. -/
def readName : List Char → Option (String × List Char)
  | [] => none
  | c :: cs =>
    if isNameStart c then
      some (String.ofList (c :: cs.takeWhile isNamePart), cs.dropWhile isNamePart)
    else none

/-- At most one exclamation mark after an expression. -/
def readMark (e : TypeExpr) (cs : List Char) : TypeExpr × List Char :=
  match skipWhite cs with
  | '!' :: rest => (.nonNull e, rest)
  | rest => (e, rest)

/-- An expression, and what is left after it. -/
def readType (cs : List Char) : Except NotationProblem (TypeExpr × List Char) :=
  match h : skipWhite cs with
  | '[' :: rest =>
    have : rest.length < cs.length :=
      Nat.lt_of_lt_of_le (by simp [h]) (length_skipWhite_le cs)
    match readType rest with
    | .error problem => .error problem
    | .ok (inner, rest) =>
      match skipWhite rest with
      | ']' :: rest => .ok (readMark (.list inner) rest)
      | _ => .error .missingBracket
  | start =>
    match readName start with
    | some (name, rest) => .ok (readMark (.named name) rest)
    | none => .error .expectedName
termination_by cs.length

theorem readType_eq (cs : List Char) :
    readType cs =
      match skipWhite cs with
      | '[' :: rest =>
        match readType rest with
        | .error problem => .error problem
        | .ok (inner, rest) =>
          match skipWhite rest with
          | ']' :: rest => .ok (readMark (.list inner) rest)
          | _ => .error .missingBracket
      | start =>
        match readName start with
        | some (name, rest) => .ok (readMark (.named name) rest)
        | none => .error .expectedName := by
  rw [readType]
  split <;> simp_all

/-- The expression that a text is. -/
def TypeExpr.read (s : String) : Except NotationProblem TypeExpr :=
  match readType (textBytes s) with
  | .error problem => .error problem
  | .ok (e, rest) => if (skipWhite rest).isEmpty then .ok e else .error .trailingInput

end SchemaGraph
