import ScriptSharp.Tree.Expr

/-!
# The expressions of a tree

All expressions at or below a node, each before its parts and the parts from left to right. Every
question whether some expression of a kind occurs is asked of these lists.
-/

namespace ScriptSharp

mutual
/-- An expression and all expressions below it. -/
def Expr.subexpressions : Expr → List Expr
  | node@(.literal ..) => [node]
  | node@(.ident ..) => [node]
  | node@(.selfRef ..) => [node]
  | node@(.superRef ..) => [node]
  | node@(.typeRef ..) => [node]
  | node@(.typeOf ..) => [node]
  | node@(.defaultOf ..) => [node]
  | node@(.member _ target _ _) => node :: target.subexpressions
  | node@(.invoke _ callee _ args _) =>
    node :: (callee.subexpressions ++ Expr.allSubexpressions args)
  | node@(.index _ target indices) =>
    node :: (target.subexpressions ++ Expr.allSubexpressions indices)
  | node@(.binary _ _ left right) => node :: (left.subexpressions ++ right.subexpressions)
  | node@(.unary _ _ operand) => node :: operand.subexpressions
  | node@(.ternary _ condition thenValue elseValue) =>
    node :: (condition.subexpressions ++ thenValue.subexpressions ++ elseValue.subexpressions)
  | node@(.cast _ operand _ _) => node :: operand.subexpressions
  | node@(.tryCast _ operand _) => node :: operand.subexpressions
  | node@(.construct _ _ args _) => node :: Expr.allSubexpressions args
  | node@(.newArray _ _ size) => node :: size.subexpressions
  | node@(.lambda _ _ _ body) => node :: body.subexpressions
  | node@(.array _ _ items) => node :: Expr.allSubexpressions items
  | node@(.map _ entries) => node :: Expr.entrySubexpressions entries
  | node@(.assign _ _ target value) => node :: (target.subexpressions ++ value.subexpressions)
  | node@(.paren _ inner) => node :: inner.subexpressions

/-- The expressions of a list. -/
def Expr.allSubexpressions : List Expr → List Expr
  | [] => []
  | first :: rest => first.subexpressions ++ Expr.allSubexpressions rest

/-- The expressions of the entries of a map. -/
def Expr.entrySubexpressions : List (Expr × Expr) → List Expr
  | [] => []
  | (key, value) :: rest =>
    key.subexpressions ++ value.subexpressions ++ Expr.entrySubexpressions rest

/-- The expressions of an expression that may be missing. -/
def Expr.optionalSubexpressions : Option Expr → List Expr
  | none => []
  | some present => present.subexpressions

/-- The expressions of the body of a function literal. -/
def LambdaBody.subexpressions : LambdaBody → List Expr
  | .expr value => value.subexpressions
  | .block body => Stmt.allSubexpressions body

/-- The expressions of a statement. -/
def Stmt.subexpressions : Stmt → List Expr
  | .expr value => value.subexpressions
  | .declare _ _ _ init _ => Expr.optionalSubexpressions init
  | .branch condition thenBody elseBody =>
    condition.subexpressions ++ Stmt.allSubexpressions thenBody ++
      Stmt.blockSubexpressions elseBody
  | .whileLoop condition body => condition.subexpressions ++ Stmt.allSubexpressions body
  | .forLoop init condition step body =>
    Stmt.allSubexpressions init ++ Expr.optionalSubexpressions condition ++
      Expr.allSubexpressions step ++ Stmt.allSubexpressions body
  | .forEach _ _ source body => source.subexpressions ++ Stmt.allSubexpressions body
  | .ret value _ => Expr.optionalSubexpressions value
  | .throw value => value.subexpressions
  | .breakLoop => []
  | .continueLoop => []
  | .block body => Stmt.allSubexpressions body

/-- The expressions of a list of statements. -/
def Stmt.allSubexpressions : List Stmt → List Expr
  | [] => []
  | first :: rest => first.subexpressions ++ Stmt.allSubexpressions rest

/-- The expressions of a block that may be missing. -/
def Stmt.blockSubexpressions : Option (List Stmt) → List Expr
  | none => []
  | some body => Stmt.allSubexpressions body
end

namespace Expr

/-- Some expression at or below this one satisfies the test. -/
def contains (test : Expr → Bool) (expr : Expr) : Bool :=
  expr.subexpressions.any test

/-- The expressions that a search looks at: everything up to the first one that satisfies the
test, that one included. -/
def searched (test : Expr → Bool) : List Expr → List Expr
  | [] => []
  | first :: rest => if test first then [first] else first :: searched test rest

end Expr

namespace Stmt

/-- Some expression of the statement satisfies the test. -/
def contains (test : Expr → Bool) (stmt : Stmt) : Bool :=
  stmt.subexpressions.any test

/-- Some expression of the block satisfies the test. -/
def blockContains (test : Expr → Bool) (body : List Stmt) : Bool :=
  (allSubexpressions body).any test

end Stmt

end ScriptSharp
