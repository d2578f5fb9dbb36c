import ScriptSharp.Decimal.Scaling
import ScriptSharp.Json.Cursor

/-!
# Numbers in JSON

The parts of a number, and the value that they stand for. Readers take the text behind what has
been read, and fail with the line that they have reached.
-/

namespace ScriptSharp.Json

/-- A number of a JSON text. -/
inductive Number where
  /-- A number without fraction and exponent that fits into 64 bits. -/
  | whole (value : Int)
  /-- Any other number. -/
  | decimal (value : Binary64)
  deriving DecidableEq, Repr

namespace Number

/-- What a number is made of, apart from its sign. -/
structure Parts where
  whole : List Char
  fraction : List Char
  exponent : Option Int
  deriving DecidableEq, Repr

/-! ## Reading the parts -/

/-- The value of a digit. -/
def digitValue (digit : Char) : Nat := digit.toNat - '0'.toNat

/-- The value of a row of digits. -/
def digitsValue (digits : List Char) : Nat :=
  digits.foldl (fun value digit => value * 10 + digitValue digit) 0

/-- The fraction of a number, if there is one. -/
def fractionPart (line : Nat) : List Char → Except Nat (List Char × List Char)
  | '.' :: rest =>
    match rest.takeWhile Char.isDigit with
    | [] => .error (Cursor.lineBehindFirst line rest)
    | digits => .ok (digits, rest.dropWhile Char.isDigit)
  | rest => .ok ([], rest)

/-- The digits of an exponent. -/
def exponentDigits (line : Nat) (negative : Bool) (rest : List Char) :
    Except Nat (Option Int × List Char) :=
  match rest.takeWhile Char.isDigit with
  | [] => .error (Cursor.lineBehindFirst line rest)
  | digits =>
    let magnitude : Int := digitsValue digits
    .ok (some (if negative then -magnitude else magnitude), rest.dropWhile Char.isDigit)

/-- The exponent of a number, if there is one. -/
def exponentPart (line : Nat) : List Char → Except Nat (Option Int × List Char)
  | mark :: rest =>
    if mark = 'e' ∨ mark = 'E' then
      match rest with
      | '+' :: digits => exponentDigits line false digits
      | '-' :: digits => exponentDigits line true digits
      | digits => exponentDigits line false digits
    else .ok (none, mark :: rest)
  | [] => .ok (none, [])

/-- The parts of a number behind its sign. A zero in front of further digits is none. -/
def parts (line : Nat) (rest : List Char) : Except Nat (Parts × List Char) :=
  match rest.takeWhile Char.isDigit with
  | [] => .error (Cursor.lineBehindFirst line rest)
  | '0' :: _ :: _ => .error line
  | digits => do
    let (fraction, rest) ← fractionPart line (rest.dropWhile Char.isDigit)
    let (exponent, rest) ← exponentPart line rest
    return (⟨digits, fraction, exponent⟩, rest)

/-! ## The value of the parts -/

/-- Appends digits to a significand as long as it fits into 64 bits. The digits that are left over
stand beside it. -/
def appendDigits (significand : Nat) : List Char → Nat × List Char
  | [] => (significand, [])
  | digit :: rest =>
    let longer := significand * 10 + digitValue digit
    if longer < UInt64.size then appendDigits longer rest else (significand, digit :: rest)

/-- The number with these parts, unless it is too large for a double. Digits of the whole part that
the significand does not take raise the exponent; those of the fraction are dropped. -/
def ofParts? (negative : Bool) (parts : Parts) : Option Number :=
  let (front, surplus) := appendDigits 0 parts.whole
  let isWhole := surplus.isEmpty && parts.fraction.isEmpty && parts.exponent.isNone
  if isWhole && !negative then some (.whole front)
  else if isWhole && decide (0 < front) && decide (front ≤ UInt64.size / 2) then
    some (.whole (-(front : Int)))
  else
    let (significand, dropped) := appendDigits front parts.fraction
    let taken : Int := parts.fraction.length - dropped.length
    let exponent := parts.exponent.getD 0 + surplus.length - taken
    (Decimal.read? significand exponent).map fun magnitude =>
      .decimal (magnitude.withSign negative)

/-- A whole number as a double. -/
def wholeToDouble (value : Int) : Binary64 :=
  (Binary64.ofNat value.natAbs).withSign (decide (value < 0))

/-- The number as a double. -/
def toDouble : Number → Binary64
  | .whole value => wholeToDouble value
  | .decimal value => value

end Number

end ScriptSharp.Json
