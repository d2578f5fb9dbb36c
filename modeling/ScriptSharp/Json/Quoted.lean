import ScriptSharp.Json.Cursor

/-!
# Quoted text in JSON

Reading a quoted text decodes its escapes; passing over one only looks at their form. A character
beyond the basic plane is written as two numeric escapes, of which neither may stand alone. Readers
begin behind the opening quote and fail with the line that they have reached.
-/

namespace ScriptSharp.Json.Quoted

/-- The value of a hexadecimal digit. -/
def hexDigit? (character : Char) : Option Nat :=
  if '0' ≤ character ∧ character ≤ '9' then some (character.toNat - '0'.toNat)
  else if 'a' ≤ character ∧ character ≤ 'f' then some (character.toNat - 'a'.toNat + 10)
  else if 'A' ≤ character ∧ character ≤ 'F' then some (character.toNat - 'A'.toNat + 10)
  else none

/-- The value of four hexadecimal digits. -/
def hexCode? (first second third fourth : Char) : Option Nat := do
  let first ← hexDigit? first
  let second ← hexDigit? second
  let third ← hexDigit? third
  let fourth ← hexDigit? fourth
  return ((first * 16 + second) * 16 + third) * 16 + fourth

/-- The code is the first half of a pair that stands for one character. -/
def isLeading (code : Nat) : Bool := decide (0xD800 ≤ code) && decide (code < 0xDC00)

/-- The code is the second half of a pair. -/
def isTrailing (code : Nat) : Bool := decide (0xDC00 ≤ code) && decide (code < 0xE000)

/-- The character that a pair stands for. -/
def pairCharacter (leading trailing : Nat) : Char :=
  Char.ofNat (0x10000 + (leading - 0xD800) * 0x400 + (trailing - 0xDC00))

/-- The character behind a backslash, for the escapes of one character. -/
def escaped? (character : Char) : Option Char :=
  match character with
  | '"' => some '"'
  | '\\' => some '\\'
  | '/' => some '/'
  | 'b' => some (Char.ofNat 8)
  | 'f' => some (Char.ofNat 12)
  | 'n' => some '\n'
  | 'r' => some '\r'
  | 't' => some '\t'
  | _ => none

/-- Control characters have to be escaped. -/
def isControl (character : Char) : Bool := decide (character.toNat < 0x20)

/-- Reads a text. The characters read so far stand in `characters`, the last one first, and
`leading` is the first half of a pair whose second half has to follow. -/
def read (line : Nat) (characters : List Char) (leading : Option Nat) :
    List Char → Except Nat (String × List Char)
  | [] => .error line
  | ['\\'] => .error line
  | '\\' :: 'u' :: first :: second :: third :: fourth :: rest =>
    match hexCode? first second third fourth, leading with
    | none, _ => .error (Cursor.lineBehindFour line 0 [first, second, third, fourth])
    | some code, none =>
      if isTrailing code then .error line
      else if isLeading code then read line characters (some code) rest
      else read line (Char.ofNat code :: characters) none rest
    | some code, some leading =>
      if isTrailing code then read line (pairCharacter leading code :: characters) none rest
      else .error line
  | '\\' :: 'u' :: rest => .error (Cursor.lineBehindFour line 0 rest)
  | '\\' :: mark :: rest =>
    match escaped? mark, leading with
    | some character, none => read line (character :: characters) none rest
    | _, _ => .error (Cursor.lineBehind line mark)
  | character :: rest =>
    if leading.isSome || isControl character then .error (Cursor.lineBehind line character)
    else if character = '"' then .ok (String.ofList characters.reverse, rest)
    else read line (character :: characters) none rest

/-- Passes over a text. A control character is not passed over. -/
def skip (line : Nat) : List Char → Except Nat (List Char)
  | [] => .error line
  | ['\\'] => .error line
  | '\\' :: 'u' :: first :: second :: third :: fourth :: rest =>
    match hexCode? first second third fourth with
    | some _ => skip line rest
    | none => .error (Cursor.lineBehindFour line 0 [first, second, third, fourth])
  | '\\' :: 'u' :: rest => .error (Cursor.lineBehindFour line 0 rest)
  | '\\' :: mark :: rest =>
    match escaped? mark with
    | some _ => skip line rest
    | none => .error (Cursor.lineBehind line mark)
  | character :: rest =>
    if isControl character then .error line
    else if character = '"' then .ok rest
    else skip line rest

end ScriptSharp.Json.Quoted
