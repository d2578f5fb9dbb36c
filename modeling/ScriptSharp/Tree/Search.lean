import ScriptSharp.Tree.Expr

/-!
# Searching a tree

A search asks a test of one expression after another until the test says yes: an expression is
asked about before its parts, and the parts from left to right. What it does not come to is not
asked about. The test runs in an arbitrary monad, so it may note what it is asked.
-/

namespace ScriptSharp

variable {m : Type → Type} [Monad m]

mutual
/-- Asks about an expression, and then about the expressions below it. -/
def Expr.search (test : Expr → m Bool) : Expr → m Bool
  | node@(.literal ..) => test node
  | node@(.ident ..) => test node
  | node@(.selfRef ..) => test node
  | node@(.superRef ..) => test node
  | node@(.typeRef ..) => test node
  | node@(.typeOf ..) => test node
  | node@(.defaultOf ..) => test node
  | node@(.member _ target _ _) => test node <||> target.search test
  | node@(.invoke _ callee _ args _) =>
    test node <||> callee.search test <||> Expr.searchAll test args
  | node@(.index _ target indices) =>
    test node <||> target.search test <||> Expr.searchAll test indices
  | node@(.binary _ _ left right) => test node <||> left.search test <||> right.search test
  | node@(.unary _ _ operand) => test node <||> operand.search test
  | node@(.ternary _ condition thenValue elseValue) =>
    test node <||> condition.search test <||> thenValue.search test <||> elseValue.search test
  | node@(.cast _ operand _ _) => test node <||> operand.search test
  | node@(.tryCast _ operand _) => test node <||> operand.search test
  | node@(.construct _ _ args _) => test node <||> Expr.searchAll test args
  | node@(.newArray _ _ size) => test node <||> size.search test
  | node@(.lambda _ _ _ body) => test node <||> body.search test
  | node@(.array _ _ items) => test node <||> Expr.searchAll test items
  | node@(.map _ entries) => test node <||> Expr.searchEntries test entries
  | node@(.assign _ _ target value) => test node <||> target.search test <||> value.search test
  | node@(.paren _ inner) => test node <||> inner.search test

/-- Asks about expressions from left to right. -/
def Expr.searchAll (test : Expr → m Bool) : List Expr → m Bool
  | [] => pure false
  | first :: rest => first.search test <||> Expr.searchAll test rest

/-- Asks about the entries of a map, the key of each before its value. -/
def Expr.searchEntries (test : Expr → m Bool) : List (Expr × Expr) → m Bool
  | [] => pure false
  | (key, value) :: rest =>
    key.search test <||> value.search test <||> Expr.searchEntries test rest

/-- Asks about an expression that may be missing. -/
def Expr.searchOptional (test : Expr → m Bool) : Option Expr → m Bool
  | none => pure false
  | some present => present.search test

/-- Asks about the body of a function literal. -/
def LambdaBody.search (test : Expr → m Bool) : LambdaBody → m Bool
  | .expr value => value.search test
  | .block body => Stmt.searchAll test body

/-- Asks about the expressions of a statement. -/
def Stmt.search (test : Expr → m Bool) : Stmt → m Bool
  | .expr value => value.search test
  | .declare _ _ _ init _ => Expr.searchOptional test init
  | .branch condition thenBody elseBody =>
    condition.search test <||> Stmt.searchAll test thenBody <||> Stmt.searchBlock test elseBody
  | .whileLoop condition body => condition.search test <||> Stmt.searchAll test body
  | .forLoop init condition step body =>
    Stmt.searchAll test init <||> Expr.searchOptional test condition <||>
      Expr.searchAll test step <||> Stmt.searchAll test body
  | .forEach _ _ source body => source.search test <||> Stmt.searchAll test body
  | .ret value _ => Expr.searchOptional test value
  | .throw value => value.search test
  | .breakLoop => pure false
  | .continueLoop => pure false
  | .block body => Stmt.searchAll test body

/-- Asks about statements in order. -/
def Stmt.searchAll (test : Expr → m Bool) : List Stmt → m Bool
  | [] => pure false
  | first :: rest => first.search test <||> Stmt.searchAll test rest

/-- Asks about a block that may be missing. -/
def Stmt.searchBlock (test : Expr → m Bool) : Option (List Stmt) → m Bool
  | none => pure false
  | some body => Stmt.searchAll test body
end

end ScriptSharp
