import ScriptSharp.Json.Number
import ScriptSharp.Json.Quoted

/-!
# Scalars in JSON

The values that hold no others: `null`, truth values, numbers and texts. None of them runs over a
line end.
-/

namespace ScriptSharp.Json

/-- A value that holds no others. -/
inductive Scalar where
  | null
  | bool (value : Bool)
  | number (value : Number)
  | text (value : String)
  deriving DecidableEq, Repr

namespace Scalar

/-- Passes over the rest of a word. -/
def word (line : Nat) : List Char → List Char → Except Nat (List Char)
  | [], rest => .ok rest
  | _ :: _, [] => .error line
  | expected :: others, character :: rest =>
    if character = expected then word line others rest
    else .error (Cursor.lineBehind line character)

/-- A number behind its sign. -/
def readNumber (line : Nat) (negative : Bool) (rest : List Char) :
    Except Nat (Scalar × List Char) := do
  let (parts, rest) ← Number.parts line rest
  match Number.ofParts? negative parts with
  | some value => return (.number value, rest)
  | none => .error line

/-- Reads a scalar. No scalar begins with any other character. -/
def read (line : Nat) : List Char → Except Nat (Scalar × List Char)
  | 'n' :: rest => do
    let rest ← word line ['u', 'l', 'l'] rest
    return (.null, rest)
  | 't' :: rest => do
    let rest ← word line ['r', 'u', 'e'] rest
    return (.bool true, rest)
  | 'f' :: rest => do
    let rest ← word line ['a', 'l', 's', 'e'] rest
    return (.bool false, rest)
  | '"' :: rest => do
    let (value, rest) ← Quoted.read line [] none rest
    return (.text value, rest)
  | '-' :: rest => readNumber line true rest
  | character :: rest =>
    if character.isDigit then readNumber line false (character :: rest) else .error line
  | [] => .error line

/-- Passes over a scalar. Its number or text need not be one that can be represented. -/
def skip (line : Nat) : List Char → Except Nat (List Char)
  | 'n' :: rest => word line ['u', 'l', 'l'] rest
  | 't' :: rest => word line ['r', 'u', 'e'] rest
  | 'f' :: rest => word line ['a', 'l', 's', 'e'] rest
  | '"' :: rest => Quoted.skip line rest
  | '-' :: rest => (Number.parts line rest).map Prod.snd
  | character :: rest =>
    if character.isDigit then (Number.parts line (character :: rest)).map Prod.snd
    else .error line
  | [] => .error line

/-- The truth value of a scalar. -/
def bool? : Scalar → Option Bool
  | .bool value => some value
  | _ => none

/-- The text of a scalar. -/
def text? : Scalar → Option String
  | .text value => some value
  | _ => none

/-- The number of a scalar. -/
def number? : Scalar → Option Number
  | .number value => some value
  | _ => none

end Scalar

end ScriptSharp.Json
