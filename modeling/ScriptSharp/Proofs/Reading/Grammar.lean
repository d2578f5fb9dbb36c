import ScriptSharp.Proofs.Reading.Tokens
import ScriptSharp.Tree.Literal

/-!
# The grammar of emitted expressions

The expressions of the emitted language, as a grammar over tokens without blanks. Its levels are
numbered from the loosest to the tightest:

- 0 is assignment, which groups to the right;
- 1 is the conditional, which groups to the right;
- 2 to 11 are the operators between two operands, which group to the left (`infixOp?`);
- 12 are prefix operators and casts;
- 13 are names, literals, parentheses and what stands behind an operand.

A type in parentheses is always a cast. The grammar is unambiguous: `Phrase.unique` says that no
token list has two readings.
-/

namespace ScriptSharp.Emit

/-- What an expression says, without the parentheses that it is written with. -/
inductive Term where
  | literal (text : String)
  | name (text : String)
  | selfRef
  | superRef
  | typeName (text : String)
  | member (target : Term) (name : String)
  | call (callee : Term) (args : List Term)
  | index (target : Term) (indices : List Term)
  | binary (op : BinaryOp) (left right : Term)
  | unary (op : UnaryOp) (operand : Term)
  | ternary (condition thenValue elseValue : Term)
  | cast (type : String) (operand : Term)
  | tryCast (operand : Term) (type : String)
  | assign (op : Option BinaryOp) (target value : Term)

/-! ## Operators -/

/-- The operators between two operands, with their levels. -/
def infixOp? : String → Option (Nat × BinaryOp)
  | "||" => some (2, .or)
  | "&&" => some (3, .and)
  | "|" => some (4, .bitOr)
  | "^" => some (5, .bitXor)
  | "&" => some (6, .bitAnd)
  | "==" => some (7, .eq)
  | "!=" => some (7, .ne)
  | "<" => some (8, .lt)
  | "<=" => some (8, .le)
  | ">" => some (8, .gt)
  | ">=" => some (8, .ge)
  | "<<" => some (9, .shl)
  | ">>" => some (9, .shr)
  | "+" => some (10, .add)
  | "-" => some (10, .sub)
  | "*" => some (11, .mul)
  | "/" => some (11, .div)
  | "%" => some (11, .mod)
  | _ => none

/-- The operators in front of an operand. -/
def prefixOp? : String → Option UnaryOp
  | "-" => some .neg
  | "!" => some .not
  | "~" => some .bitNot
  | "++" => some .preInc
  | "--" => some .preDec
  | _ => none

/-- The operators behind an operand. -/
def postfixOp? : String → Option UnaryOp
  | "++" => some .postInc
  | "--" => some .postDec
  | _ => none

/-- The assignment operators, with the operator that a compound one applies. -/
def assignOp? : String → Option (Option BinaryOp)
  | "=" => some none
  | "+=" => some (some .add)
  | "-=" => some (some .sub)
  | "*=" => some (some .mul)
  | "/=" => some (some .div)
  | "%=" => some (some .mod)
  | "<<=" => some (some .shl)
  | ">>=" => some (some .shr)
  | "&=" => some (some .bitAnd)
  | "|=" => some (some .bitOr)
  | "^=" => some (some .bitXor)
  | _ => none

/-! ## Phrases -/

/-- Token lists with commas between them. -/
def separated : List Code → Code
  | [] => []
  | [code] => code
  | code :: rest => code ++ .symbol "," :: separated rest

/-- `Phrase level code term`: the tokens form an expression on the level, and it says `term`. -/
inductive Phrase : Nat → Code → Term → Prop where
  | widen {level tighter code term} (inner : Phrase tighter code term) (looser : level ≤ tighter) :
      Phrase level code term
  | assign {left right target value symbol op} (known : assignOp? symbol = some op)
      (first : Phrase 12 left target) (second : Phrase 0 right value) :
      Phrase 0 (left ++ .symbol symbol :: right) (.assign op target value)
  | ternary {test whenTrue whenFalse condition thenValue elseValue}
      (first : Phrase 2 test condition) (second : Phrase 0 whenTrue thenValue)
      (third : Phrase 0 whenFalse elseValue) :
      Phrase 1 (test ++ .symbol "?" :: (whenTrue ++ .symbol ":" :: whenFalse))
        (.ternary condition thenValue elseValue)
  | binary {level left right first second symbol op}
      (known : infixOp? symbol = some (level, op))
      (leftPhrase : Phrase level left first) (rightPhrase : Phrase (level + 1) right second) :
      Phrase level (left ++ .symbol symbol :: right) (.binary op first second)
  | tryCast {code operand type} (inner : Phrase 8 code operand) :
      Phrase 8 (code ++ [.keyword "as", .typeName type]) (.tryCast operand type)
  | unary {code operand symbol op} (known : prefixOp? symbol = some op)
      (inner : Phrase 12 code operand) :
      Phrase 12 (.symbol symbol :: code) (.unary op operand)
  | cast {code operand type} (inner : Phrase 12 code operand) :
      Phrase 12 (.symbol "(" :: .typeName type :: .symbol ")" :: code) (.cast type operand)
  | literal {text} : Phrase 13 [.literal text] (.literal text)
  | name {text} : Phrase 13 [.name text] (.name text)
  | selfRef : Phrase 13 [.keyword "this"] .selfRef
  | superRef : Phrase 13 [.keyword "base"] .superRef
  | typeName {text} : Phrase 13 [.typeName text] (.typeName text)
  | parens {code term} (inner : Phrase 0 code term) (value : ∀ type, term ≠ .typeName type) :
      Phrase 13 (.symbol "(" :: (code ++ [.symbol ")"])) term
  | member {code target name} (inner : Phrase 13 code target) :
      Phrase 13 (code ++ [.symbol ".", .name name]) (.member target name)
  | step {code operand symbol op} (known : postfixOp? symbol = some op)
      (inner : Phrase 13 code operand) :
      Phrase 13 (code ++ [.symbol symbol]) (.unary op operand)
  | call {code callee} (args : List (Code × Term)) (inner : Phrase 13 code callee)
      (parts : ∀ arg ∈ args, Phrase 0 arg.1 arg.2) :
      Phrase 13 (code ++ .symbol "(" :: (separated (args.map (·.1)) ++ [.symbol ")"]))
        (.call callee (args.map (·.2)))
  | index {code target} (indices : List (Code × Term)) (present : indices ≠ [])
      (inner : Phrase 13 code target) (parts : ∀ index ∈ indices, Phrase 0 index.1 index.2) :
      Phrase 13 (code ++ .symbol "[" :: (separated (indices.map (·.1)) ++ [.symbol "]"]))
        (.index target (indices.map (·.2)))

end ScriptSharp.Emit
