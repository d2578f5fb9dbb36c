import ScriptSharp.Emit.Line
import ScriptSharp.Emit.Literal
import ScriptSharp.Emit.Precedence
import ScriptSharp.Emit.TypeName

/-!
# Emitting method bodies

Expressions become code and statements become lines. An operand that binds less tightly than its
place requires is put in parentheses; parentheses of the source leave no trace. The bodies of
control statements are always between braces, and a function literal with a block body continues
on lines that are indented one level further than the line it stands on.
-/

namespace ScriptSharp.Emit

/-- What the emission of a unit depends on. -/
structure Printer where
  names : Names
  /-- The number of spaces of one level. -/
  indentWidth : Nat

/-- The code of an operand on a place that requires `least`. -/
def enclose (least : Precedence) (operand : Expr) (code : Code) : Code :=
  if (Precedence.ofExpr operand).isLooserThan least then code.parenthesized else code

/-- The code of an operand behind a prefix operator or a cast. A sign in front of it would fuse
with the operator. -/
def encloseSigned (operand : Expr) (code : Code) : Code :=
  let code := enclose .unary operand code
  if code.startsWithSign then code.parenthesized else code

/-- An argument with the keyword of the parameter that it goes to. -/
def withModifier (signature : Option Signature) (index : Nat) (code : Code) : Code :=
  match (signature.map (·.modifierAt index)).bind ParamModifier.argumentKeyword? with
  | some keyword => .keyword keyword :: .space :: code
  | none => code

/-- The element type of an array without the dimensions inside it, and their number. -/
def innermostElement : Ty → Ty × Nat
  | .array element => ((innermostElement element).1, (innermostElement element).2 + 1)
  | ty => (ty, 0)

/-- The spelling of an assignment operator. -/
def assignSymbol (op : Option BinaryOp) : String :=
  match op with
  | some op => op.symbol ++ "="
  | none => "="

/-- The declaration of a variable. -/
def declarationText (ty : String) (name : Ident) (init : Option String) : String :=
  match init with
  | some init => ty ++ " " ++ name.render ++ " = " ++ init
  | none => ty ++ " " ++ name.render

namespace Printer

/-- A type as code. -/
def typeCode (printer : Printer) (ty : Ty) : Except Fault Code := do
  let text ← printer.names.render ty
  return [.typeName text]

/-- Type arguments as code. -/
def typeArgsCode (printer : Printer) (types : List Ty) : Except Fault Code := do
  let texts ← printer.names.renderAll types
  if texts.isEmpty then return []
  return .symbol "<" :: Code.commaSeparated (texts.map fun text => [.typeName text]) ++
    [.symbol ">"]

/-- A parameter of a function literal as code. -/
def lambdaParamCode (printer : Printer) (param : LambdaParam) : Except Fault Code :=
  match param.ty with
  | some ty => do
    let ty ← printer.typeCode ty
    return ty ++ [.space, .name param.name.render]
  | none => .ok [.name param.name.render]

mutual
/-- The code of an expression on a place where nothing has to be put in parentheses. `depth` is the
level of the line that the expression stands on. -/
def expr (printer : Printer) (depth : Nat) : Expr → Except Fault Code
  | .literal _ value => return literalCode value
  | .ident _ name _ => return [.name name.render]
  | .selfRef _ => return [.keyword "this"]
  | .superRef _ => return [.keyword "base"]
  | .typeRef _ named => printer.typeCode named
  | .member _ target name _ => do
    let code ← printer.expr depth target
    return enclose .primary target code ++ [.symbol ".", .name name.render]
  | .invoke _ callee typeArgs args signature => do
    let code ← printer.expr depth callee
    let typeArgs ← printer.typeArgsCode typeArgs
    let args ← printer.args depth signature 0 args
    return enclose .primary callee code ++ typeArgs ++ (Code.commaSeparated args).parenthesized
  | .index _ target indices => do
    let code ← printer.expr depth target
    let indices ← printer.args depth none 0 indices
    return enclose .primary target code ++
      (.symbol "[" :: Code.commaSeparated indices ++ [.symbol "]"])
  | .binary _ op left right => do
    let leftCode ← printer.expr depth left
    let rightCode ← printer.expr depth right
    let level := Precedence.ofBinary op
    return enclose level left leftCode ++ [.space, .symbol op.symbol, .space] ++
      enclose level.tighter right rightCode
  | .unary _ op operand => do
    let code ← printer.expr depth operand
    if op.isTrailing then
      return enclose .primary operand code ++ [.symbol op.symbol]
    return .symbol op.symbol :: encloseSigned operand code
  | .ternary _ condition thenValue elseValue => do
    let conditionCode ← printer.expr depth condition
    let thenCode ← printer.expr depth thenValue
    let elseCode ← printer.expr depth elseValue
    return enclose .or condition conditionCode ++ [.space, .symbol "?", .space] ++
      enclose .conditional thenValue thenCode ++ [.space, .symbol ":", .space] ++
      enclose .conditional elseValue elseCode
  | .cast _ operand target _ => do
    let target ← printer.typeCode target
    let code ← printer.expr depth operand
    return target.parenthesized ++ .space :: encloseSigned operand code
  | .tryCast _ operand target => do
    let code ← printer.expr depth operand
    let target ← printer.typeCode target
    return enclose .relational operand code ++ [.space, .keyword "as", .space] ++ target
  | .typeOf _ named => do
    let named ← printer.typeCode named
    return .keyword "typeof" :: named.parenthesized
  | .defaultOf _ named => do
    let named ← printer.typeCode named
    return .keyword "default" :: named.parenthesized
  | .construct _ constructed args signature => do
    let constructed ← printer.typeCode constructed
    let args ← printer.args depth signature 0 args
    return .keyword "new" :: .space :: constructed ++ (Code.commaSeparated args).parenthesized
  | .newArray _ element size => do
    let (innermost, dimensions) := innermostElement element
    let innermost ← printer.typeCode innermost
    let size ← printer.expr depth size
    return .keyword "new" :: .space :: innermost ++ (.symbol "[" :: size ++ [.symbol "]"]) ++
      (List.replicate dimensions [Token.symbol "[", .symbol "]"]).flatten
  | .lambda _ params _ body => do
    let params ← params.mapM printer.lambdaParamCode
    let body ← printer.lambdaBody depth body
    return (Code.commaSeparated params).parenthesized ++ [.space, .symbol "=>", .space] ++ body
  | .array _ element items => do
    let items ← printer.args depth none 0 items
    let items := Code.commaSeparated items
    let element ← printer.typeCode element
    let head : Code := .keyword "new" :: .space :: element ++ [.symbol "[", .symbol "]", .space]
    if items.text.isEmpty then
      return head ++ [.symbol "\x7b", .symbol "\x7d"]
    return head ++ (.symbol "\x7b" :: .space :: items ++ [.space, .symbol "\x7d"])
  | .map _ entries => do
    let hashtable ← printer.names.named printer.names.table.wellKnown.hashtable
    let entries ← printer.entries depth entries
    let head : Code :=
      [.keyword "new", .space, .typeName hashtable, .symbol "(", .symbol ")"]
    if entries.isEmpty then
      return head
    return head ++ (.space :: .symbol "\x7b" :: .space :: Code.commaSeparated entries ++
      [.space, .symbol "\x7d"])
  | .assign _ op target value => do
    let targetCode ← printer.expr depth target
    let valueCode ← printer.expr depth value
    return enclose .unary target targetCode ++ [.space, .symbol (assignSymbol op), .space] ++
      valueCode
  | .paren _ inner => printer.expr depth inner

/-- The codes of arguments, the first of which goes to the parameter at `index`. -/
def args (printer : Printer) (depth : Nat) (signature : Option Signature) (index : Nat) :
    List Expr → Except Fault (List Code)
  | [] => return []
  | first :: rest => do
    let code ← printer.expr depth first
    let rest ← printer.args depth signature (index + 1) rest
    return withModifier signature index code :: rest

/-- The codes of the entries of a map. -/
def entries (printer : Printer) (depth : Nat) : List (Expr × Expr) → Except Fault (List Code)
  | [] => return []
  | (key, value) :: rest => do
    let key ← printer.expr depth key
    let value ← printer.expr depth value
    let rest ← printer.entries depth rest
    return (.symbol "\x7b" :: .space :: key ++ .symbol "," :: .space :: value ++
      [.space, .symbol "\x7d"]) :: rest

/-- The code of the body of a function literal. -/
def lambdaBody (printer : Printer) (depth : Nat) : LambdaBody → Except Fault Code
  | .expr value => printer.expr depth value
  | .block body => do
    let lines ← printer.stmts (depth + 1) body
    let texts := lines.map fun line => line.render printer.indentWidth ++ "\n"
    return [.body ("\x7b\n" ++ String.join texts ++ Line.indentation printer.indentWidth depth ++
      "\x7d")]

/-- The text of an expression that may be missing. -/
def optional (printer : Printer) (depth : Nat) : Option Expr → Except Fault (Option String)
  | none => return none
  | some present => do
    let code ← printer.expr depth present
    return some code.text

/-- The lines of a statement. -/
def stmt (printer : Printer) (depth : Nat) : Stmt → Except Fault (List Line)
  | .expr value => do
    let code ← printer.expr depth value
    return [⟨depth, code.text ++ ";"⟩]
  | .declare name declared ty init _ => do
    let ty ← printer.names.render (declared.getD ty)
    let init ← printer.optional depth init
    return [⟨depth, declarationText ty name init ++ ";"⟩]
  | .branch condition thenBody elseBody => do
    let condition ← printer.expr depth condition
    let thenBody ← printer.stmts (depth + 1) thenBody
    let elseLines ← printer.elseLines depth elseBody
    return ⟨depth, "if (" ++ condition.text ++ ")"⟩ :: braced depth thenBody ++ elseLines
  | .whileLoop condition body => do
    let condition ← printer.expr depth condition
    let body ← printer.stmts (depth + 1) body
    return ⟨depth, "while (" ++ condition.text ++ ")"⟩ :: braced depth body
  | .forLoop init condition step body => do
    let init ← printer.initializers depth init
    let condition ← printer.optional depth condition
    let step ← printer.args depth none 0 step
    let body ← printer.stmts (depth + 1) body
    return ⟨depth, "for (" ++ ", ".intercalate init ++ "; " ++ condition.getD "" ++ "; " ++
      (Code.commaSeparated step).text ++ ")"⟩ :: braced depth body
  | .forEach item itemTy source body => do
    let itemTy ← printer.names.render itemTy
    let source ← printer.expr depth source
    let body ← printer.stmts (depth + 1) body
    return ⟨depth, "foreach (" ++ itemTy ++ " " ++ item.render ++ " in " ++ source.text ++ ")"⟩ ::
      braced depth body
  | .ret value _ => do
    let value ← printer.optional depth value
    return match value with
      | some value => [⟨depth, "return " ++ value ++ ";"⟩]
      | none => [⟨depth, "return;"⟩]
  | .throw value => do
    let code ← printer.expr depth value
    return [⟨depth, "throw " ++ code.text ++ ";"⟩]
  | .breakLoop => return [⟨depth, "break;"⟩]
  | .continueLoop => return [⟨depth, "continue;"⟩]
  | .block body => do
    let body ← printer.stmts (depth + 1) body
    return braced depth body

/-- The lines of statements. -/
def stmts (printer : Printer) (depth : Nat) : List Stmt → Except Fault (List Line)
  | [] => return []
  | first :: rest => do
    let first ← printer.stmt depth first
    let rest ← printer.stmts depth rest
    return first ++ rest

/-- The lines of an `else` branch. A branch that consists of one `if` statement continues the chain
of conditions. -/
def elseLines (printer : Printer) (depth : Nat) : Option (List Stmt) → Except Fault (List Line)
  | none => return []
  | some [.branch condition thenBody elseBody] => do
    let condition ← printer.expr depth condition
    let thenBody ← printer.stmts (depth + 1) thenBody
    let elseLines ← printer.elseLines depth elseBody
    return ⟨depth, "else if (" ++ condition.text ++ ")"⟩ :: braced depth thenBody ++ elseLines
  | some body => do
    let body ← printer.stmts (depth + 1) body
    return ⟨depth, "else"⟩ :: braced depth body

/-- The texts of the statements in front of a `for` loop. Only declarations and expressions can
stand there. -/
def initializers (printer : Printer) (depth : Nat) : List Stmt → Except Fault (List String)
  | [] => return []
  | .declare name declared ty init _ :: rest => do
    let ty ← printer.names.render (declared.getD ty)
    let init ← printer.optional depth init
    let rest ← printer.initializers depth rest
    return declarationText ty name init :: rest
  | .expr value :: rest => do
    let code ← printer.expr depth value
    let rest ← printer.initializers depth rest
    return code.text :: rest
  | other :: _ => .error (.loopInitializer other.form)
end

/-- The lines of an `else` branch that is not one `if` statement. -/
theorem elseLines_of_not_branch (printer : Printer) {depth : Nat} {body : List Stmt}
    (several : ∀ condition thenBody elseBody, body ≠ [.branch condition thenBody elseBody]) :
    printer.elseLines depth (some body) = do
      let body ← printer.stmts (depth + 1) body
      return ⟨depth, "else"⟩ :: braced depth body := by
  rw [Printer.elseLines]
  exact several

end Printer

end ScriptSharp.Emit
