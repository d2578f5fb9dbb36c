import ScriptSharp.Text.Blank
import ScriptSharp.Text.Lines

/-!
# Conditional compilation directives

A directive is a line whose first character that is not blank is `#`, unless the line begins inside
a block comment. Block comments are the only thing that outlives a line: strings and line comments
end with it. The text on a directive line opens no comment.
-/

namespace ScriptSharp

/-- What a directive does. -/
inductive DirectiveKind where
  | ifDirective
  | elifDirective
  | elseDirective
  | endifDirective
  | pragma
  | other
  deriving DecidableEq, Repr

namespace DirectiveKind

/-- The kind that a keyword stands for. -/
def ofKeyword (keyword : String) : DirectiveKind :=
  if keyword = "if" then .ifDirective
  else if keyword = "elif" then .elifDirective
  else if keyword = "else" then .elseDirective
  else if keyword = "endif" then .endifDirective
  else if keyword = "pragma" then .pragma
  else .other

/-- The argument is a condition on symbols. -/
def carriesExpression : DirectiveKind → Bool
  | .ifDirective | .elifDirective => true
  | .elseDirective | .endifDirective | .pragma | .other => false

/-- The directive as it is shown. -/
def render : DirectiveKind → String
  | .ifDirective => "#if"
  | .elifDirective => "#elif"
  | .elseDirective => "#else"
  | .endifDirective => "#endif"
  | .pragma => "#pragma"
  | .other => "#<other>"

end DirectiveKind

/-- A directive of a text. -/
structure Directive where
  kind : DirectiveKind
  /-- The number of its line, counted from one. -/
  line : Nat
  /-- What follows the keyword, without blanks at the ends and without a line comment. -/
  argument : String
  deriving DecidableEq, Repr

namespace Directive

/-- What surrounds a character of a line. -/
inductive Region where
  | code
  | comment
  | quoted (quote : Char)
  deriving DecidableEq, Repr

/-- The quotes that a string can begin with. -/
def isQuote (character : Char) : Bool :=
  character == '"' || character == Char.ofNat 39

/-- Whether a line ends inside a block comment, where `region` is what it begins in. -/
def endsInComment : Region → List Char → Bool
  | .code, [] => false
  | .code, '/' :: '/' :: _ => false
  | .code, '/' :: '*' :: rest => endsInComment .comment rest
  | .code, character :: rest =>
    endsInComment (if isQuote character then .quoted character else .code) rest
  | .comment, [] => true
  | .comment, '*' :: '/' :: rest => endsInComment .code rest
  | .comment, _ :: rest => endsInComment .comment rest
  | .quoted _, [] => false
  | .quoted _, ['\\'] => false
  | .quoted quote, '\\' :: _ :: rest => endsInComment (.quoted quote) rest
  | .quoted quote, character :: rest =>
    endsInComment (if character = quote then .code else .quoted quote) rest

/-- The part of a text in front of the first line comment. -/
def beforeComment : List Char → List Char
  | [] => []
  | '/' :: '/' :: _ => []
  | character :: rest => character :: beforeComment rest

/-- A letter of a keyword. -/
def isLetter (character : Char) : Bool :=
  ('a' ≤ character && character ≤ 'z') || ('A' ≤ character && character ≤ 'Z')

/-- The directive on a line, given what follows its `#`. -/
def ofBody (line : Nat) (body : List Char) : Directive :=
  let body := Text.trimStart body
  { kind := .ofKeyword (String.ofList (body.takeWhile isLetter))
    line
    argument := String.ofList (Text.trim (beforeComment (body.dropWhile isLetter))) }

/-- The directive on a line that does not begin in a block comment. -/
def ofLine? (number : Nat) (line : List Char) : Option Directive :=
  match Text.trimStart line with
  | '#' :: body => some (ofBody number body)
  | _ => none

/-- The directives on lines, where `number` is the number of the first one and `inComment` says
that it begins in a block comment. -/
def ofLines (number : Nat) (inComment : Bool) : List (List Char) → List Directive
  | [] => []
  | line :: rest =>
    if inComment then ofLines (number + 1) (endsInComment .comment line) rest
    else
      match ofLine? number line with
      | some directive => directive :: ofLines (number + 1) false rest
      | none => ofLines (number + 1) (endsInComment .code line) rest

/-- The directives of a text. -/
def scan (text : String) : List Directive :=
  ofLines 1 false (Text.lines text.toList)

end Directive

end ScriptSharp
