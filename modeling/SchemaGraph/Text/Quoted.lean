/-
**Quoted text.**

A text is quoted between two double quotes.  Inside, a double quote and a backslash follow a
backslash; tab, line feed, carriage return and the null character have letters of their own; every
other character that has no picture, or that would merge with the one before, is given by its code
point in hexadecimal digits.

Main definitions:

* `escaped` — the text that stands for one character;
* `quotedChars`, `quoted` — a whole text between its quotes.

Main results:

* `quotedChars_eq` — the quotes enclose the escaped characters in order.
-/

import SchemaGraph.Text.Unprintable
import SchemaGraph.Text.GraphemeExtend

set_option autoImplicit false

namespace SchemaGraph.Text

/-- Whether a character is given by its code point. -/
def needsCode (c : Char) : Bool := isGraphemeExtend c || isUnprintable c

/-- A character given by its code point. -/
def codeEscape (c : Char) : List Char :=
  '\\' :: 'u' :: '{' :: (Nat.toDigits 16 c.toNat ++ ['}'])

/-- The text that stands for one character between quotes. -/
def escaped (c : Char) : List Char :=
  if c = '"' then ['\\', '"']
  else if c = '\\' then ['\\', '\\']
  else if c = '\t' then ['\\', 't']
  else if c = '\n' then ['\\', 'n']
  else if c = '\r' then ['\\', 'r']
  else if c = '\x00' then ['\\', '0']
  else if needsCode c then codeEscape c
  else [c]

/-- A sequence of characters between quotes. -/
def quotedChars (s : List Char) : List Char := '"' :: (s.flatMap escaped ++ ['"'])

theorem quotedChars_eq (s : List Char) : quotedChars s = ['"'] ++ s.flatMap escaped ++ ['"'] := rfl

/-- A text between quotes. -/
def quoted (s : String) : String := String.ofList (quotedChars s.toList)

@[simp] theorem toList_quoted (s : String) : (quoted s).toList = quotedChars s.toList := by
  simp [quoted]

end SchemaGraph.Text
