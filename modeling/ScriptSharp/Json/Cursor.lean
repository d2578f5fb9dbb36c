/-!
# Places in a text

A cursor stands in front of what is left of a text and knows its line. Lines count from one, and a
line feed ends a line.
-/

namespace ScriptSharp.Json

/-- What is left of a text, and the line that it begins on. -/
structure Cursor where
  rest : List Char
  line : Nat
  deriving DecidableEq, Repr

namespace Cursor

/-- The beginning of a text. -/
def start (text : String) : Cursor := ⟨text.toList, 1⟩

/-- The line behind a character. -/
def lineBehind (line : Nat) (character : Char) : Nat :=
  if character = '\n' then line + 1 else line

/-- The line behind the first character of what is left, if there is one. -/
def lineBehindFirst (line : Nat) : List Char → Nat
  | [] => line
  | character :: _ => lineBehind line character

/-- The line behind the first four bytes of what is left, or behind all of it if it is shorter.
`bytes` is the number of bytes already counted. -/
def lineBehindFour (line bytes : Nat) : List Char → Nat
  | [] => line
  | character :: rest =>
    if bytes < 4 then lineBehindFour (lineBehind line character) (bytes + character.utf8Size) rest
    else line

/-- Passes over spaces, tabs and line ends. -/
def skipBlanksFrom (line : Nat) : List Char → Cursor
  | '\n' :: rest => skipBlanksFrom (line + 1) rest
  | ' ' :: rest => skipBlanksFrom line rest
  | '\t' :: rest => skipBlanksFrom line rest
  | '\r' :: rest => skipBlanksFrom line rest
  | rest => ⟨rest, line⟩

/-- Passes over spaces, tabs and line ends. -/
def skipBlanks (cursor : Cursor) : Cursor :=
  skipBlanksFrom cursor.line cursor.rest

/-- Where the search for the end of a list stops: a comma is passed over, since it can only be
followed by a further item. -/
def listEnd (cursor : Cursor) : Cursor :=
  let next := cursor.skipBlanks
  match next.rest with
  | ',' :: rest => skipBlanks ⟨rest, next.line⟩
  | _ => next

end Cursor

end ScriptSharp.Json
