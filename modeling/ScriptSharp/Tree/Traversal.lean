import ScriptSharp.Tree.Decl

/-!
# Walking the tree

One walk serves every lowering step that works node by node. A `Traversal` says what to carry down
into the parts of a node and what to make of a node whose parts are done; the walk itself visits
the parts from left to right. `Traversal.plain` changes nothing and is what a step starts from.

The walk is written for an arbitrary monad: a step that cannot fail runs in `Id`, one that can
fail in `Except Fault`.
-/

namespace ScriptSharp

/-- What a walk carries below an expression. -/
structure Descent (ρ : Type) where
  /-- Carried into the target of an assignment. -/
  target : ρ
  /-- Carried into every other part. -/
  parts : ρ

/-- What to do at the nodes of a method body, where `ρ` is carried from the root to the leaves. -/
structure Traversal (m : Type → Type) (ρ : Type) where
  /-- Runs before the parts of an expression. With `none` the expression stays as it is, and
  nothing below it is visited. -/
  enter : ρ → Expr → m (Option (Descent ρ))
  /-- Runs on the expression made of the finished parts. -/
  leave : ρ → Expr → m Expr
  /-- Carried into the expressions of a statement. The statements inside it get what the statement
  got itself. -/
  enterStmt : ρ → Stmt → ρ
  /-- Runs on the statement made of the finished parts. -/
  leaveStmt : ρ → Stmt → m Stmt

namespace Traversal

variable {m : Type → Type} [Monad m] {ρ : Type}

/-- The walk that visits everything and changes nothing. -/
def plain : Traversal m ρ where
  enter env _ := pure (some ⟨env, env⟩)
  leave _ expr := pure expr
  enterStmt env _ := env
  leaveStmt _ stmt := pure stmt

/-- Runs `parts` on an expression, between entering and leaving it. -/
def around (traversal : Traversal m ρ) (env : ρ) (expr : Expr)
    (parts : Descent ρ → m Expr) : m Expr := do
  match ← traversal.enter env expr with
  | none => pure expr
  | some below => traversal.leave env (← parts below)

mutual
/-- Walks an expression. -/
def expr (traversal : Traversal m ρ) (env : ρ) : Expr → m Expr
  | node@(.literal ..) => traversal.around env node fun _ => pure node
  | node@(.ident ..) => traversal.around env node fun _ => pure node
  | node@(.selfRef ..) => traversal.around env node fun _ => pure node
  | node@(.superRef ..) => traversal.around env node fun _ => pure node
  | node@(.typeRef ..) => traversal.around env node fun _ => pure node
  | node@(.typeOf ..) => traversal.around env node fun _ => pure node
  | node@(.defaultOf ..) => traversal.around env node fun _ => pure node
  | node@(.member note target name binding) => traversal.around env node fun below => do
    let target ← traversal.expr below.parts target
    return .member note target name binding
  | node@(.invoke note callee typeArgs args signature) => traversal.around env node fun below => do
    let callee ← traversal.expr below.parts callee
    let args ← traversal.exprs below.parts args
    return .invoke note callee typeArgs args signature
  | node@(.index note target indices) => traversal.around env node fun below => do
    let target ← traversal.expr below.parts target
    let indices ← traversal.exprs below.parts indices
    return .index note target indices
  | node@(.binary note op left right) => traversal.around env node fun below => do
    let left ← traversal.expr below.parts left
    let right ← traversal.expr below.parts right
    return .binary note op left right
  | node@(.unary note op operand) => traversal.around env node fun below => do
    let operand ← traversal.expr below.parts operand
    return .unary note op operand
  | node@(.ternary note condition thenValue elseValue) =>
    traversal.around env node fun below => do
      let condition ← traversal.expr below.parts condition
      let thenValue ← traversal.expr below.parts thenValue
      let elseValue ← traversal.expr below.parts elseValue
      return .ternary note condition thenValue elseValue
  | node@(.cast note operand target synthesized) => traversal.around env node fun below => do
    let operand ← traversal.expr below.parts operand
    return .cast note operand target synthesized
  | node@(.tryCast note operand target) => traversal.around env node fun below => do
    let operand ← traversal.expr below.parts operand
    return .tryCast note operand target
  | node@(.construct note constructed args signature) =>
    traversal.around env node fun below => do
      let args ← traversal.exprs below.parts args
      return .construct note constructed args signature
  | node@(.newArray note element size) => traversal.around env node fun below => do
    let size ← traversal.expr below.parts size
    return .newArray note element size
  | node@(.lambda note params ret body) => traversal.around env node fun below => do
    let body ← traversal.lambdaBody below.parts body
    return .lambda note params ret body
  | node@(.array note element items) => traversal.around env node fun below => do
    let items ← traversal.exprs below.parts items
    return .array note element items
  | node@(.map note entries) => traversal.around env node fun below => do
    let entries ← traversal.entries below.parts entries
    return .map note entries
  | node@(.assign note op target value) => traversal.around env node fun below => do
    let target ← traversal.expr below.target target
    let value ← traversal.expr below.parts value
    return .assign note op target value
  | node@(.paren note inner) => traversal.around env node fun below => do
    let inner ← traversal.expr below.parts inner
    return .paren note inner

/-- Walks expressions from left to right. -/
def exprs (traversal : Traversal m ρ) (env : ρ) : List Expr → m (List Expr)
  | [] => pure []
  | first :: rest => do
    let first ← traversal.expr env first
    let rest ← traversal.exprs env rest
    return first :: rest

/-- Walks the entries of a map, the key of each before its value. -/
def entries (traversal : Traversal m ρ) (env : ρ) : List (Expr × Expr) → m (List (Expr × Expr))
  | [] => pure []
  | (key, value) :: rest => do
    let key ← traversal.expr env key
    let value ← traversal.expr env value
    let rest ← traversal.entries env rest
    return (key, value) :: rest

/-- Walks an expression that may be missing. -/
def optional (traversal : Traversal m ρ) (env : ρ) : Option Expr → m (Option Expr)
  | none => pure none
  | some present => do
    let present ← traversal.expr env present
    return some present

/-- Walks the body of a function literal. -/
def lambdaBody (traversal : Traversal m ρ) (env : ρ) : LambdaBody → m LambdaBody
  | .expr value => do
    let value ← traversal.expr env value
    return .expr value
  | .block body => do
    let body ← traversal.stmts env body
    return .block body

/-- Walks a statement. -/
def stmt (traversal : Traversal m ρ) (env : ρ) : Stmt → m Stmt
  | node@(.expr value) => do
    let value ← traversal.expr (traversal.enterStmt env node) value
    traversal.leaveStmt env (.expr value)
  | node@(.declare name declared ty init span) => do
    let init ← traversal.optional (traversal.enterStmt env node) init
    traversal.leaveStmt env (.declare name declared ty init span)
  | node@(.branch condition thenBody elseBody) => do
    let condition ← traversal.expr (traversal.enterStmt env node) condition
    let thenBody ← traversal.stmts env thenBody
    let elseBody ← traversal.block? env elseBody
    traversal.leaveStmt env (.branch condition thenBody elseBody)
  | node@(.whileLoop condition body) => do
    let condition ← traversal.expr (traversal.enterStmt env node) condition
    let body ← traversal.stmts env body
    traversal.leaveStmt env (.whileLoop condition body)
  | node@(.forLoop init condition step body) => do
    let init ← traversal.stmts env init
    let condition ← traversal.optional (traversal.enterStmt env node) condition
    let step ← traversal.exprs (traversal.enterStmt env node) step
    let body ← traversal.stmts env body
    traversal.leaveStmt env (.forLoop init condition step body)
  | node@(.forEach item itemTy source body) => do
    let source ← traversal.expr (traversal.enterStmt env node) source
    let body ← traversal.stmts env body
    traversal.leaveStmt env (.forEach item itemTy source body)
  | node@(.ret value span) => do
    let value ← traversal.optional (traversal.enterStmt env node) value
    traversal.leaveStmt env (.ret value span)
  | node@(.throw value) => do
    let value ← traversal.expr (traversal.enterStmt env node) value
    traversal.leaveStmt env (.throw value)
  | .breakLoop => traversal.leaveStmt env .breakLoop
  | .continueLoop => traversal.leaveStmt env .continueLoop
  | .block body => do
    let body ← traversal.stmts env body
    traversal.leaveStmt env (.block body)

/-- Walks statements in order. -/
def stmts (traversal : Traversal m ρ) (env : ρ) : List Stmt → m (List Stmt)
  | [] => pure []
  | first :: rest => do
    let first ← traversal.stmt env first
    let rest ← traversal.stmts env rest
    return first :: rest

/-- Walks a block that may be missing. -/
def block? (traversal : Traversal m ρ) (env : ρ) : Option (List Stmt) → m (Option (List Stmt))
  | none => pure none
  | some body => do
    let body ← traversal.stmts env body
    return some body
end

end Traversal

/-- What to do at the declarations of a unit, besides the nodes of method bodies. -/
structure DeclTraversal (m : Type → Type) (ρ : Type) extends Traversal m ρ where
  /-- Carried into a type declaration. -/
  enterDecl : ρ → TypeDecl → ρ
  /-- Carried into a member. -/
  enterMember : ρ → Member → ρ
  /-- Runs on an attribute with finished arguments. -/
  leaveAttribute : ρ → Attribute → m Attribute
  /-- Runs on a member with finished parts. -/
  leaveMember : ρ → Member → m Member
  /-- Runs on a declaration with finished members. -/
  leaveDecl : ρ → TypeDecl → m TypeDecl

namespace DeclTraversal

variable {m : Type → Type} [Monad m] {ρ : Type}

/-- Walks all declarations with a walk of method bodies, and changes nothing else. -/
def ofTraversal (traversal : Traversal m ρ) : DeclTraversal m ρ :=
  { traversal with
    enterDecl := fun env _ => env
    enterMember := fun env _ => env
    leaveAttribute := fun _ attr => pure attr
    leaveMember := fun _ member => pure member
    leaveDecl := fun _ decl => pure decl }

/-- Walks the arguments of an attribute. -/
def attr (traversal : DeclTraversal m ρ) (env : ρ) (attr : Attribute) : m Attribute := do
  let args ← attr.args.mapM fun arg => do
    let value ← traversal.expr env arg.value
    return { arg with value }
  traversal.leaveAttribute env { attr with args }

/-- Walks attributes in order. -/
def attrs (traversal : DeclTraversal m ρ) (env : ρ) (attrs : List Attribute) :
    m (List Attribute) :=
  attrs.mapM (traversal.attr env)

/-- Walks a constructor chain that may be missing. -/
def chain? (traversal : DeclTraversal m ρ) (env : ρ) : Option CtorChain → m (Option CtorChain)
  | none => pure none
  | some chain => do
    let args ← traversal.exprs env chain.args
    return some { chain with args }

/-- Walks the parts of a member: attributes before the initializer or the body, and the arguments
of a constructor chain before the body. -/
def memberParts (traversal : DeclTraversal m ρ) (env : ρ) : Member → m Member
  | .field field => do
    let attrs ← traversal.attrs env field.attrs
    let init ← traversal.optional env field.init
    return .field { field with attrs, init }
  | .method method => do
    let attrs ← traversal.attrs env method.attrs
    let body ← traversal.block? env method.body
    return .method { method with attrs, body }
  | .ctor ctor => do
    let chain ← traversal.chain? env ctor.chain
    let body ← traversal.stmts env ctor.body
    return .ctor { ctor with chain, body }

/-- Walks a member. -/
def member (traversal : DeclTraversal m ρ) (env : ρ) (member : Member) : m Member := do
  let parts ← traversal.memberParts (traversal.enterMember env member) member
  traversal.leaveMember env parts

/-- Walks a type declaration: attributes, then members. -/
def decl (traversal : DeclTraversal m ρ) (env : ρ) (decl : TypeDecl) : m TypeDecl := do
  let below := traversal.enterDecl env decl
  let attrs ← traversal.attrs below decl.attrs
  let members ← decl.members.mapM (traversal.member below)
  traversal.leaveDecl env { decl with attrs, members }

/-- Walks the declarations of a unit. -/
def decls (traversal : DeclTraversal m ρ) (env : ρ) (decls : List TypeDecl) : m (List TypeDecl) :=
  decls.mapM (traversal.decl env)

/-- Walks a unit: declarations, then top level statements. -/
def unit (traversal : DeclTraversal m ρ) (env : ρ) (unit : SourceUnit) : m SourceUnit := do
  let decls ← traversal.decls env unit.decls
  let globals ← traversal.stmts env unit.globals
  return { unit with decls, globals }

end DeclTraversal

end ScriptSharp
