import ScriptSharp.Source.Span
import ScriptSharp.Tree.Ident
import ScriptSharp.Tree.Literal
import ScriptSharp.Types.Signature

/-!
# Expressions and statements

The annotated tree of method bodies. Every expression carries a note with its static type and its
position, and every reference carries the declaration that it is bound to. A block is a list of
statements.
-/

namespace ScriptSharp

/-- What a member of a type is. -/
inductive MemberKind where
  | field
  | property
  | method
  | enumMember
  deriving DecidableEq, Repr

/-- The declaration that a member reference is bound to. -/
structure MemberBinding where
  declaring : TypeId
  kind : MemberKind
  isStatic : Bool
  /-- The spelling in the emitted language, when it differs from the one in the source. -/
  targetName : Option String
  deriving DecidableEq, Repr

/-- What a plain name is bound to. -/
inductive Binding where
  | localVariable
  | parameter
  | member (binding : MemberBinding)
  | unresolved
  deriving DecidableEq, Repr

/-- A parameter of a function literal. Its type may be left open. -/
structure LambdaParam where
  name : Ident
  ty : Option Ty
  deriving DecidableEq

/-- What every expression carries: its static type and its position. -/
structure Note where
  ty : Ty
  span : Span
  deriving DecidableEq, Inhabited

mutual
/-- An expression. -/
inductive Expr where
  | literal (note : Note) (value : Literal)
  | ident (note : Note) (name : Ident) (binding : Binding)
  | selfRef (note : Note)
  | superRef (note : Note)
  /-- A type named where an expression stands: a receiver, a callee, or a value. -/
  | typeRef (note : Note) (named : Ty)
  | member (note : Note) (target : Expr) (name : Ident) (binding : MemberBinding)
  | invoke (note : Note) (callee : Expr) (typeArgs : List Ty) (args : List Expr)
      (signature : Option Signature)
  | index (note : Note) (target : Expr) (indices : List Expr)
  | binary (note : Note) (op : BinaryOp) (left right : Expr)
  | unary (note : Note) (op : UnaryOp) (operand : Expr)
  | ternary (note : Note) (condition thenValue elseValue : Expr)
  /-- A cast that fails on a value of another type. `synthesized` marks the casts that lowering
  put in. -/
  | cast (note : Note) (operand : Expr) (target : Ty) (synthesized : Bool)
  /-- A cast that gives `null` on a value of another type. -/
  | tryCast (note : Note) (operand : Expr) (target : Ty)
  | typeOf (note : Note) (named : Ty)
  | defaultOf (note : Note) (named : Ty)
  | construct (note : Note) (constructed : Ty) (args : List Expr) (signature : Option Signature)
  | newArray (note : Note) (element : Ty) (size : Expr)
  | lambda (note : Note) (params : List LambdaParam) (ret : Option Ty) (body : LambdaBody)
  | array (note : Note) (element : Ty) (items : List Expr)
  | map (note : Note) (entries : List (Expr × Expr))
  /-- An assignment, with an operator when it is a compound one. -/
  | assign (note : Note) (op : Option BinaryOp) (target value : Expr)
  | paren (note : Note) (inner : Expr)

/-- The body of a function literal. -/
inductive LambdaBody where
  | expr (value : Expr)
  | block (body : List Stmt)

/-- A statement. -/
inductive Stmt where
  | expr (value : Expr)
  /-- The declaration of a local variable. `declared` is the type written in the source. -/
  | declare (name : Ident) (declared : Option Ty) (ty : Ty) (init : Option Expr) (span : Span)
  | branch (condition : Expr) (thenBody : List Stmt) (elseBody : Option (List Stmt))
  | whileLoop (condition : Expr) (body : List Stmt)
  | forLoop (init : List Stmt) (condition : Option Expr) (step : List Expr) (body : List Stmt)
  | forEach (item : Ident) (itemTy : Ty) (source : Expr) (body : List Stmt)
  | ret (value : Option Expr) (span : Span)
  | throw (value : Expr)
  | breakLoop
  | continueLoop
  | block (body : List Stmt)
end

instance : Inhabited Expr := ⟨.selfRef default⟩

instance : Inhabited Stmt := ⟨.breakLoop⟩

namespace Expr

/-! ## The note of an expression -/

/-- Type and position of an expression. -/
def note : Expr → Note
  | .literal note .. | .ident note .. | .selfRef note | .superRef note | .typeRef note ..
  | .member note .. | .invoke note .. | .index note .. | .binary note .. | .unary note ..
  | .ternary note .. | .cast note .. | .tryCast note .. | .typeOf note .. | .defaultOf note ..
  | .construct note .. | .newArray note .. | .lambda note .. | .array note .. | .map note ..
  | .assign note .. | .paren note _ => note

/-- The static type of an expression. -/
def ty (expr : Expr) : Ty := expr.note.ty

/-- The position of an expression. -/
def span (expr : Expr) : Span := expr.note.span

/-! ## Parentheses -/

/-- The expression under the parentheses of the source. -/
def stripParens : Expr → Expr
  | .paren _ inner => inner.stripParens
  | expr => expr

/-! ## Tests -/

/-- The expression names a type, possibly in parentheses. -/
def isTypeRef (expr : Expr) : Bool :=
  match expr.stripParens with
  | .typeRef .. => true
  | _ => false

/-- The expression is a function literal, possibly in parentheses. -/
def isLambda (expr : Expr) : Bool :=
  match expr.stripParens with
  | .lambda .. => true
  | _ => false

/-- The expression is a call, possibly in parentheses. -/
def isInvoke (expr : Expr) : Bool :=
  match expr.stripParens with
  | .invoke .. => true
  | _ => false

/-- The expression is a cast to `target` that lowering put in, possibly in parentheses. -/
def isSynthesizedCastTo (target : Ty) (expr : Expr) : Bool :=
  match expr.stripParens with
  | .cast _ _ castTarget synthesized => synthesized && decide (castTarget = target)
  | _ => false

/-- The value of a whole number literal, through parentheses and negations. -/
def intLiteral? : Expr → Option Int
  | .paren _ inner => inner.intLiteral?
  | .literal _ (.int value) => some value
  | .literal _ (.long value) => some value
  | .unary _ .neg operand => operand.intLiteral?.map fun value => -value
  | _ => none

/-! ## Building expressions -/

/-- A note without a position. -/
def noteOf (ty : Ty) : Note := ⟨ty, .unknown⟩

/-- The `null` literal. -/
def nullLiteral : Expr := .literal (noteOf .null) .null

/-- A boolean literal. -/
def boolLiteral (value : Bool) : Expr := .literal (noteOf .bool) (.bool value)

/-- A reference to a local variable. -/
def localRef (name : String) (ty : Ty) : Expr :=
  .ident (noteOf ty) (.plain name) .localVariable

/-- The cast that lowering puts around an expression, at the position of the expression. -/
def castTo (target : Ty) (expr : Expr) : Expr :=
  .cast ⟨target, expr.span⟩ expr target true

/-- A plain assignment that lowering makes. It has the type of its target and no position. -/
def assignTo (target value : Expr) : Expr :=
  .assign (noteOf target.ty) none target value

end Expr

/-- The name of a statement form, as faults show it. -/
def Stmt.form : Stmt → String
  | .expr .. => "Expr"
  | .declare .. => "Var"
  | .branch .. => "If"
  | .whileLoop .. => "While"
  | .forLoop .. => "For"
  | .forEach .. => "ForEach"
  | .ret .. => "Return"
  | .throw .. => "Throw"
  | .breakLoop => "Break"
  | .continueLoop => "Continue"
  | .block .. => "Block"

end ScriptSharp
