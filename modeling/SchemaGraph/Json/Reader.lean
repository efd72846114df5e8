/-
**Reading JSON.**

Definitions are given as a JSON text.  The reader is strict: no mark at the start, nothing but white
space around the value, no control character in a string, no half of a surrogate pair on its own.
Members of an object keep their order and may repeat a name.

Main definitions:

* `JsonValue` — the values; a number keeps its text;
* `readString`, `readNumber` — the scalars that need more than a comparison;
* `readValue`, `readItems`, `readMembers` — values, and what follows an opening bracket;
* `JsonValue.read?` — the value that a text is.

Every call of the reader but the first follows a character that was consumed, so as many calls as
there are characters suffice, one inside the other.
-/

set_option autoImplicit false

namespace SchemaGraph

/-- A JSON value. -/
inductive JsonValue where
  | null
  | bool (b : Bool)
  | number (text : String)
  | text (s : String)
  | array (items : List JsonValue)
  | object (members : List (String × JsonValue))

namespace JsonValue

/-! ### Scalars -/

/-- White space between tokens. -/
def isGap (c : Char) : Bool := c = ' ' || c = '\t' || c = '\n' || c = '\r'

/-- What is left after white space. -/
def skipGap (cs : List Char) : List Char := cs.dropWhile isGap

/-- The value of a hexadecimal digit. -/
def hexDigit? (c : Char) : Option Nat :=
  if '0' ≤ c ∧ c ≤ '9' then some (c.toNat - '0'.toNat)
  else if 'a' ≤ c ∧ c ≤ 'f' then some (c.toNat - 'a'.toNat + 10)
  else if 'A' ≤ c ∧ c ≤ 'F' then some (c.toNat - 'A'.toNat + 10)
  else none

/-- Four hexadecimal digits. -/
def readUnit : List Char → Option (Nat × List Char)
  | a :: b :: c :: d :: rest => do
    let a ← hexDigit? a
    let b ← hexDigit? b
    let c ← hexDigit? c
    let d ← hexDigit? d
    pure (((a * 16 + b) * 16 + c) * 16 + d, rest)
  | _ => none

/-- The character of a code given by one unit, or by the two halves of a surrogate pair. -/
def readCode (cs : List Char) : Option (Char × List Char) := do
  let (first, rest) ← readUnit cs
  if first < 0xd800 ∨ 0xdfff < first then pure (Char.ofNat first, rest)
  else if 0xdc00 ≤ first then none
  else
    match rest with
    | '\\' :: 'u' :: rest =>
      let (second, rest) ← readUnit rest
      if 0xdc00 ≤ second ∧ second ≤ 0xdfff then
        pure (Char.ofNat (0x10000 + (first - 0xd800) * 0x400 + (second - 0xdc00)), rest)
      else none
    | _ => none

/-- The character after a backslash. -/
def readEscape : List Char → Option (Char × List Char)
  | '"' :: rest => some ('"', rest)
  | '\\' :: rest => some ('\\', rest)
  | '/' :: rest => some ('/', rest)
  | 'b' :: rest => some ('\x08', rest)
  | 'f' :: rest => some ('\x0c', rest)
  | 'n' :: rest => some ('\n', rest)
  | 'r' :: rest => some ('\r', rest)
  | 't' :: rest => some ('\t', rest)
  | 'u' :: rest => readCode rest
  | _ => none

/-- The characters of a string after its opening quote, within so many characters. -/
def readString : Nat → List Char → Option (List Char × List Char)
  | 0, _ => none
  | _ + 1, [] => none
  | n + 1, c :: rest =>
    if c = '"' then some ([], rest)
    else if c = '\\' then do
      let (c, rest) ← readEscape rest
      let (cs, rest) ← readString n rest
      pure (c :: cs, rest)
    else if c.toNat < 0x20 then none
    else do
      let (cs, rest) ← readString n rest
      pure (c :: cs, rest)

/-- A run of digits, at least one. -/
def readDigits (cs : List Char) : Option (List Char × List Char) :=
  match cs.takeWhile Char.isDigit with
  | [] => none
  | digits => some (digits, cs.dropWhile Char.isDigit)

/-- The whole part of a number: zero, or digits that do not start with zero. -/
def readWhole (cs : List Char) : Option (List Char × List Char) :=
  match cs with
  | '0' :: rest => some (['0'], rest)
  | _ => readDigits cs

/-- The fraction of a number, if there is a point. -/
def readFraction (cs : List Char) : Option (List Char × List Char) :=
  match cs with
  | '.' :: rest => (readDigits rest).map fun (digits, rest) => ('.' :: digits, rest)
  | _ => some ([], cs)

/-- The exponent of a number, if there is its letter. -/
def readExponent (cs : List Char) : Option (List Char × List Char) :=
  match cs with
  | c :: rest =>
    if c = 'e' ∨ c = 'E' then
      match rest with
      | s :: more =>
        if s = '+' ∨ s = '-' then
          (readDigits more).map fun (digits, rest) => (c :: s :: digits, rest)
        else (readDigits rest).map fun (digits, rest) => (c :: digits, rest)
      | [] => none
    else some ([], cs)
  | [] => some ([], [])

/-- The text of a number. -/
def readNumber (cs : List Char) : Option (String × List Char) := do
  let (sign, cs) := match cs with
    | '-' :: rest => (['-'], rest)
    | _ => ([], cs)
  let (whole, cs) ← readWhole cs
  let (fraction, cs) ← readFraction cs
  let (exponent, cs) ← readExponent cs
  pure (String.ofList (sign ++ whole ++ fraction ++ exponent), cs)

/-- What is left after a word. -/
def readWord (word : String) (cs : List Char) : Option (List Char) :=
  if word.toList.isPrefixOf cs then some (cs.drop word.length) else none

/-! ### Values -/

mutual

/-- A value, and what is left after it. -/
def readValue : Nat → List Char → Option (JsonValue × List Char)
  | 0, _ => none
  | n + 1, cs =>
    match skipGap cs with
    | '[' :: rest =>
      match skipGap rest with
      | ']' :: rest => some (.array [], rest)
      | _ => (readItems n rest).map fun (items, rest) => (.array items, rest)
    | '\x7b' :: rest =>
      match skipGap rest with
      | '\x7d' :: rest => some (.object [], rest)
      | _ => (readMembers n rest).map fun (members, rest) => (.object members, rest)
    | '"' :: rest =>
      (readString (rest.length + 1) rest).map fun (s, rest) => (.text (String.ofList s), rest)
    | 'n' :: rest => (readWord "ull" rest).map fun rest => (.null, rest)
    | 't' :: rest => (readWord "rue" rest).map fun rest => (.bool true, rest)
    | 'f' :: rest => (readWord "alse" rest).map fun rest => (.bool false, rest)
    | start => (readNumber start).map fun (digits, rest) => (.number digits, rest)

/-- The items of an array up to its closing bracket, at least one. -/
def readItems : Nat → List Char → Option (List JsonValue × List Char)
  | 0, _ => none
  | n + 1, cs =>
    match readValue n cs with
    | none => none
    | some (item, rest) =>
      match skipGap rest with
      | ',' :: rest => (readItems n rest).map fun (items, rest) => (item :: items, rest)
      | ']' :: rest => some ([item], rest)
      | _ => none

/-- The members of an object up to its closing brace, at least one. -/
def readMembers : Nat → List Char → Option (List (String × JsonValue) × List Char)
  | 0, _ => none
  | n + 1, cs =>
    match skipGap cs with
    | '"' :: rest =>
      match readString (rest.length + 1) rest with
      | none => none
      | some (name, rest) =>
        match skipGap rest with
        | ':' :: rest =>
          match readValue n rest with
          | none => none
          | some (value, rest) =>
            match skipGap rest with
            | ',' :: rest =>
              (readMembers n rest).map fun (members, rest) =>
                ((String.ofList name, value) :: members, rest)
            | '\x7d' :: rest => some ([(String.ofList name, value)], rest)
            | _ => none
        | _ => none
    | _ => none

end

/-- The value that a text is. -/
def read? (s : String) : Option JsonValue :=
  match readValue (2 * s.length + 1) s.toList with
  | some (value, rest) => if (skipGap rest).isEmpty then some value else none
  | none => none

end JsonValue

end SchemaGraph
