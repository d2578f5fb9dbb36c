import ScriptSharp.Decimal.Layout
import ScriptSharp.Emit.Token
import ScriptSharp.Tree.Literal

/-!
# Spelling literals

Characters that would end a literal or break a line are written as escape sequences. Numbers of
single precision end in `f`, long ones in `L`.
-/

namespace ScriptSharp.Emit

/-- The control characters of Unicode. -/
def isControl (character : Char) : Bool :=
  let code := character.toNat
  decide (code < 0x20) || (decide (0x7F ≤ code) && decide (code < 0xA0))

/-- The code of a character in hexadecimal, with at least four digits. -/
def fourDigits (character : Char) : List Char :=
  let digits := Nat.toDigits 16 character.toNat
  List.replicate (4 - digits.length) '0' ++ digits

/-- The quote of a character literal. -/
def singleQuote : Char := Char.ofNat 39

/-- The quote of a string literal. -/
def doubleQuote : Char := '"'

/-- How a character is written in a literal that ends in `quote`. -/
def escapeChar (quote character : Char) : List Char :=
  if character = '\\' then ['\\', '\\']
  else if character = '\n' then ['\\', 'n']
  else if character = '\r' then ['\\', 'r']
  else if character = '\t' then ['\\', 't']
  else if character = Char.ofNat 0 then ['\\', '0']
  else if character = quote then ['\\', character]
  else if isControl character then '\\' :: 'u' :: fourDigits character
  else [character]

/-- The characters of a literal between two quotes. -/
def quoted (quote : Char) (characters : List Char) : List Char :=
  quote :: characters.flatMap (escapeChar quote) ++ [quote]

/-- The spelling of a number without its sign. -/
def numberText (number : Binary64) : String :=
  Decimal.Layout.standard.unsigned number

/-- The spelling of a literal without its sign. -/
def unsignedText : Literal → String
  | .null => "null"
  | .bool true => "true"
  | .bool false => "false"
  | .int value => toString value.natAbs
  | .long value => toString value.natAbs ++ "L"
  | .float value => numberText value ++ "f"
  | .double value => numberText value
  | .char value => String.ofList (quoted singleQuote [value])
  | .string value => String.ofList (quoted doubleQuote value.toList)

/-- The code of a literal. A negative number is a sign in front of its magnitude. -/
def literalCode (value : Literal) : Code :=
  if value.isSigned then [.symbol "-", .literal (unsignedText value)]
  else [.literal (unsignedText value)]

end ScriptSharp.Emit
