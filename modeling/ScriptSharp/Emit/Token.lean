/-!
# Emitted code as tokens

Expressions are emitted as a list of tokens, the blanks between them included. The text of the code
is the tokens written one behind the other.
-/

namespace ScriptSharp.Emit

/-- A piece of an emitted expression. -/
inductive Token where
  /-- A keyword. -/
  | keyword (text : String)
  /-- A name of the program. -/
  | name (text : String)
  /-- The spelling of a type. -/
  | typeName (text : String)
  /-- A literal without its sign. -/
  | literal (text : String)
  /-- An operator, a bracket or a separator. -/
  | symbol (text : String)
  | space
  /-- The statements of a function literal, over several lines. -/
  | body (text : String)
  deriving DecidableEq, Repr

/-- What a token looks like. -/
def Token.text : Token → String
  | .keyword text | .name text | .typeName text | .literal text | .symbol text | .body text => text
  | .space => " "

/-- The tokens of an emitted expression. -/
abbrev Code := List Token

namespace Code

/-- The text of the code. -/
def text (code : Code) : String :=
  String.join (code.map Token.text)

/-- The code between parentheses. -/
def parenthesized (code : Code) : Code :=
  .symbol "(" :: code ++ [.symbol ")"]

/-- Several pieces of code with commas between them. -/
def commaSeparated : List Code → Code
  | [] => []
  | [code] => code
  | code :: rest => code ++ .symbol "," :: .space :: commaSeparated rest

/-- The text begins with a sign, so that a sign in front would fuse with it. -/
def startsWithSign (code : Code) : Bool :=
  match code.text.toList with
  | '-' :: _ => true
  | '+' :: _ => true
  | _ => false

end Code

end ScriptSharp.Emit
