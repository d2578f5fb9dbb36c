import ScriptSharp.Proofs.Tree.Walk

/-!
# What a step establishes in a tree

A lowering step takes a tree apart, replaces the parts of each node, and makes something of the node
with the new parts. `Passing` collects what has to be known of a step at one node so that it turns
a property of all nodes into another one, and `Passing.throughout` is the induction over the tree.

What a node requires of its parts is told by their heads: whether a receiver names a type, and
whether a callee is one or the base object. A step that replaces parts may rely on the heads only
because it keeps them.
-/

namespace ScriptSharp

open Outcome

/-- What an expression is under its parentheses, as far as a receiver or a callee depends on it. -/
inductive Head where
  /-- The name of a type. -/
  | typeName
  /-- The object itself as one of its base type. -/
  | base
  | other
  deriving DecidableEq

/-- The head of an expression. -/
def Expr.head (expr : Expr) : Head :=
  match expr.stripParens with
  | .typeRef .. => .typeName
  | .superRef _ => .base
  | _ => .other

namespace Node

/-- The head of a node. -/
def head : Node → Head
  | .expr root => root.head
  | _ => .other

/-- Every part of the first node has the head of the corresponding part of the second one. -/
abbrev SameHeads : Node → Node → Prop :=
  Matches fun _ child replacement => child.head = replacement.head

/-- Nodes with the same heads have the same head at the root. -/
theorem SameHeads.head_eq {source result : Node} (same : SameHeads source result) :
    source.head = result.head := by
  obtain ⟨shell, parts⟩ := same
  cases source <;> cases result <;> simp only [Node.shell, reduceCtorEq, Node.expr.injEq] at shell
  case expr.expr left right =>
    cases left <;> cases right <;> simp only [Expr.shell, reduceCtorEq] at shell
    case paren.paren =>
      cases parts with
      | cons first _ => exact first.2
    all_goals rfl
  all_goals rfl

/-! ## Properties of all expressions -/

/-- Every node satisfies what is always true. -/
theorem throughout_true (node : Node) : Throughout (fun _ => True) node := by
  induction node using Node.induct with
  | step node inductionHypothesis => exact .node trivial inductionHypothesis

/-- The property holds of the node if it is an expression. -/
def OfExpr (holds : Expr → Prop) : Node → Prop
  | .expr root => holds root
  | _ => True

/-- The property holds of every expression at or below the node. -/
abbrev AllExprs (holds : Expr → Prop) : Node → Prop :=
  Throughout (OfExpr holds)

/-- All expressions of a node are those at the node and those below its parts. -/
theorem allExprs_iff {holds : Expr → Prop} {node : Node} : AllExprs holds node ↔
    OfExpr holds node ∧ ∀ child ∈ node.children, AllExprs holds child :=
  throughout_iff

/-- The first expression of an expression is itself. -/
theorem allExprs_expr {holds : Expr → Prop} {expr : Expr} : AllExprs holds (.expr expr) ↔
    holds expr ∧ ∀ child ∈ (Node.expr expr).children, AllExprs holds child :=
  throughout_iff

/-- What follows for each expression follows for all of them. -/
theorem AllExprs.mono {holds other : Expr → Prop} (follows : ∀ expr, holds expr → other expr)
    {node : Node} (all : AllExprs holds node) : AllExprs other node := by
  induction node using Node.induct with
  | step node inductionHypothesis =>
    refine allExprs_iff.2 ⟨?_, fun child member =>
      inductionHypothesis child member (all.inside member)⟩
    cases node with
    | expr root => exact follows root all.here
    | _ => trivial

/-- A node that is no expression has what its parts have. -/
theorem allExprs_of_children {holds : Expr → Prop} {node : Node} (other : ∀ expr, node ≠ .expr expr)
    (inside : ∀ child ∈ node.children, AllExprs holds child) : AllExprs holds node := by
  refine .node ?_ inside
  cases node with
  | expr root => exact absurd rfl (other root)
  | _ => trivial

/-! One equation for each form that a step builds. -/

section Forms

variable {holds : Expr → Prop} {note : Note} {target value : Expr} {args : List Expr}

@[simp]
theorem allExprs_literal {literal : Literal} :
    AllExprs holds (.expr (.literal note literal)) ↔ holds (.literal note literal) := by
  rw [allExprs_expr]
  simp [children, parts, Expr.parts]

@[simp]
theorem allExprs_ident {name : Ident} {binding : Binding} :
    AllExprs holds (.expr (.ident note name binding)) ↔ holds (.ident note name binding) := by
  rw [allExprs_expr]
  simp [children, parts, Expr.parts]

@[simp]
theorem allExprs_selfRef :
    AllExprs holds (.expr (.selfRef note)) ↔ holds (.selfRef note) := by
  rw [allExprs_expr]
  simp [children, parts, Expr.parts]

@[simp]
theorem allExprs_typeRef {named : Ty} :
    AllExprs holds (.expr (.typeRef note named)) ↔ holds (.typeRef note named) := by
  rw [allExprs_expr]
  simp [children, parts, Expr.parts]

@[simp]
theorem allExprs_typeOf {named : Ty} :
    AllExprs holds (.expr (.typeOf note named)) ↔ holds (.typeOf note named) := by
  rw [allExprs_expr]
  simp [children, parts, Expr.parts]

@[simp]
theorem allExprs_defaultOf {named : Ty} :
    AllExprs holds (.expr (.defaultOf note named)) ↔ holds (.defaultOf note named) := by
  rw [allExprs_expr]
  simp [children, parts, Expr.parts]

@[simp]
theorem allExprs_member {name : Ident} {binding : MemberBinding} :
    AllExprs holds (.expr (.member note target name binding)) ↔
      holds (.member note target name binding) ∧ AllExprs holds (.expr target) := by
  rw [allExprs_expr]
  simp [children, parts, Expr.parts, Part.value]

@[simp]
theorem allExprs_invoke {typeArgs : List Ty} {signature : Option Signature} :
    AllExprs holds (.expr (.invoke note target typeArgs args signature)) ↔
      holds (.invoke note target typeArgs args signature) ∧ AllExprs holds (.expr target) ∧
        ∀ arg ∈ args, AllExprs holds (.expr arg) := by
  rw [allExprs_expr]
  simp [children, parts, Expr.parts, Part.value]

@[simp]
theorem allExprs_construct {constructed : Ty} {signature : Option Signature} :
    AllExprs holds (.expr (.construct note constructed args signature)) ↔
      holds (.construct note constructed args signature) ∧
        ∀ arg ∈ args, AllExprs holds (.expr arg) := by
  rw [allExprs_expr]
  simp [children, parts, Expr.parts, Part.value]

@[simp]
theorem allExprs_binary {op : BinaryOp} :
    AllExprs holds (.expr (.binary note op target value)) ↔
      holds (.binary note op target value) ∧ AllExprs holds (.expr target) ∧
        AllExprs holds (.expr value) := by
  rw [allExprs_expr]
  simp [children, parts, Expr.parts, Part.value]

@[simp]
theorem allExprs_unary {op : UnaryOp} :
    AllExprs holds (.expr (.unary note op target)) ↔
      holds (.unary note op target) ∧ AllExprs holds (.expr target) := by
  rw [allExprs_expr]
  simp [children, parts, Expr.parts, Part.value]

@[simp]
theorem allExprs_ternary {condition : Expr} :
    AllExprs holds (.expr (.ternary note condition target value)) ↔
      holds (.ternary note condition target value) ∧ AllExprs holds (.expr condition) ∧
        AllExprs holds (.expr target) ∧ AllExprs holds (.expr value) := by
  rw [allExprs_expr]
  simp [children, parts, Expr.parts, Part.value]

/-- A cast adds one expression around its operand. -/
@[simp]
theorem allExprs_castTo {required : Ty} :
    AllExprs holds (.expr (value.castTo required)) ↔
      holds (value.castTo required) ∧ AllExprs holds (.expr value) := by
  rw [allExprs_expr]
  simp [children, parts, Expr.parts, Part.value, Expr.castTo]

/-- The expressions of a lambda with a block stand in its statements. -/
@[simp]
theorem allExprs_lambda {params : List LambdaParam} {ret : Option Ty} {body : List Stmt} :
    AllExprs holds (.expr (.lambda note params ret (.block body))) ↔
      holds (.lambda note params ret (.block body)) ∧
        ∀ stmt ∈ body, AllExprs holds (.stmt stmt) := by
  rw [allExprs_expr]
  simp [children, parts, Expr.parts, LambdaBody.parts, Part.stmt]

@[simp]
theorem allExprs_array {element : Ty} :
    AllExprs holds (.expr (.array note element args)) ↔
      holds (.array note element args) ∧ ∀ item ∈ args, AllExprs holds (.expr item) := by
  rw [allExprs_expr]
  simp [children, parts, Expr.parts, Part.value]

@[simp]
theorem allExprs_map {entries : List (Expr × Expr)} :
    AllExprs holds (.expr (.map note entries)) ↔ holds (.map note entries) ∧
      ∀ entry ∈ entries, AllExprs holds (.expr entry.1) ∧ AllExprs holds (.expr entry.2) := by
  rw [allExprs_expr]
  simp [children, parts, Expr.parts, Part.value, Part.entry, or_imp, forall_and]
  grind

@[simp]
theorem allExprs_assign {op : Option BinaryOp} :
    AllExprs holds (.expr (.assign note op target value)) ↔
      holds (.assign note op target value) ∧ AllExprs holds (.expr target) ∧
        AllExprs holds (.expr value) := by
  rw [allExprs_expr]
  simp [children, parts, Expr.parts, Part.value, Part.target]

@[simp]
theorem allExprs_paren :
    AllExprs holds (.expr (.paren note value)) ↔
      holds (.paren note value) ∧ AllExprs holds (.expr value) := by
  rw [allExprs_expr]
  simp [children, parts, Expr.parts, Part.value]

@[simp]
theorem allExprs_exprStmt :
    AllExprs holds (.stmt (.expr value)) ↔ AllExprs holds (.expr value) := by
  rw [allExprs_iff]
  simp [children, parts, Stmt.parts, Part.value, OfExpr]

@[simp]
theorem allExprs_declare {name : Ident} {declared : Option Ty} {ty : Ty} {init : Option Expr}
    {span : Span} : AllExprs holds (.stmt (.declare name declared ty init span)) ↔
      ∀ value ∈ init, AllExprs holds (.expr value) := by
  rw [allExprs_iff]
  simp [children, parts, Stmt.parts, Part.value, OfExpr]

@[simp]
theorem allExprs_ret {value : Option Expr} {span : Span} :
    AllExprs holds (.stmt (.ret value span)) ↔ ∀ given ∈ value, AllExprs holds (.expr given) := by
  rw [allExprs_iff]
  simp [children, parts, Stmt.parts, Part.value, OfExpr]

@[simp]
theorem allExprs_branch {body : List Stmt} :
    AllExprs holds (.stmt (.branch value body none)) ↔
      AllExprs holds (.expr value) ∧ ∀ stmt ∈ body, AllExprs holds (.stmt stmt) := by
  rw [allExprs_iff]
  simp [children, parts, Stmt.parts, Part.value, Part.stmt, OfExpr]

@[simp]
theorem allExprs_block {body : List Stmt} :
    AllExprs holds (.stmt (.block body)) ↔ ∀ stmt ∈ body, AllExprs holds (.stmt stmt) := by
  rw [allExprs_iff]
  simp [children, parts, Stmt.parts, Part.stmt, OfExpr]

/-- The expressions of an attribute stand in its arguments. -/
@[simp]
theorem allExprs_attr {attr : Attribute} :
    AllExprs holds (.attr attr) ↔ ∀ arg ∈ attr.args, AllExprs holds (.expr arg.value) := by
  rw [allExprs_iff]
  simp [children, parts, Part.value, OfExpr]

/-- The expressions of a field stand in its attributes and in its initializer. -/
@[simp]
theorem allExprs_field {field : FieldDecl} :
    AllExprs holds (.member (.field field)) ↔
      (∀ attr ∈ field.attrs, AllExprs holds (.attr attr)) ∧
        ∀ init ∈ field.init, AllExprs holds (.expr init) := by
  rw [allExprs_iff]
  simp [children, parts, Member.parts, Part.value, Part.attr, OfExpr, or_imp, forall_and]

/-- The expressions of a method stand in its attributes and in its body. -/
@[simp]
theorem allExprs_method {method : MethodDecl} :
    AllExprs holds (.member (.method method)) ↔
      (∀ attr ∈ method.attrs, AllExprs holds (.attr attr)) ∧
        ∀ stmt ∈ method.body.getD [], AllExprs holds (.stmt stmt) := by
  rw [allExprs_iff]
  simp [children, parts, Member.parts, Part.stmt, Part.attr, OfExpr, or_imp, forall_and]

/-- The expressions of a constructor stand in its chain and in its body. -/
@[simp]
theorem allExprs_ctor {ctor : CtorDecl} :
    AllExprs holds (.member (.ctor ctor)) ↔
      (∀ arg ∈ ctor.chainArgs, AllExprs holds (.expr arg)) ∧
        ∀ stmt ∈ ctor.body, AllExprs holds (.stmt stmt) := by
  rw [allExprs_iff]
  simp [children, parts, Member.parts, Part.stmt, Part.value, OfExpr, or_imp, forall_and]

/-- The expressions of a declaration stand in its attributes and in its members. -/
@[simp]
theorem allExprs_decl {decl : TypeDecl} :
    AllExprs holds (.decl decl) ↔ (∀ attr ∈ decl.attrs, AllExprs holds (.attr attr)) ∧
      ∀ member ∈ decl.members, AllExprs holds (.member member) := by
  rw [allExprs_iff]
  simp [children, parts, Part.attr, Part.member, OfExpr, or_imp, forall_and]

/-- The expressions of a unit stand in its declarations and at top level. -/
@[simp]
theorem allExprs_unit {unit : SourceUnit} :
    AllExprs holds (.unit unit) ↔ (∀ decl ∈ unit.decls, AllExprs holds (.decl decl)) ∧
      ∀ stmt ∈ unit.globals, AllExprs holds (.stmt stmt) := by
  rw [allExprs_iff]
  simp [children, parts, Part.decl, Part.stmt, OfExpr, or_imp, forall_and]

end Forms

/-- What is under parentheses has what the whole has. -/
theorem allExprs_stripParens {holds : Expr → Prop} {expr : Expr}
    (all : AllExprs holds (.expr expr)) : AllExprs holds (.expr expr.stripParens) := by
  induction expr using Expr.stripParens.induct with
  | case1 note inner inductionHypothesis => exact inductionHypothesis (allExprs_paren.1 all).2
  | case2 expr noParen => rwa [Expr.stripParens.eq_2 expr noParen]

/-! ## Steps -/

/-- What a step does at one node, where `left` says what it makes of a node with new parts. It
turns `before`, when it holds of a tree throughout, into `after`. -/
structure Passing (related left : Node → Node → Prop) (before after : Node → Prop) : Prop where
  /-- The step keeps the node, or it replaces the parts and then goes on with the node made of the
  new ones. -/
  opens {source result : Node} : related source result →
    result = source ∧ (Throughout before source → Throughout after source) ∨
      ∃ rebuilt, Matches (fun _ => related) source rebuilt ∧ left rebuilt result
  /-- What is required of a node depends on the heads of its parts only. -/
  agrees {source rebuilt : Node} : SameHeads source rebuilt → before source → before rebuilt
  /-- The head of a node is kept. -/
  head {rebuilt result : Node} : left rebuilt result → rebuilt.head = result.head
  leaves {rebuilt result : Node} : left rebuilt result → before rebuilt →
    (∀ child ∈ rebuilt.children, Throughout after child) → Throughout after result

/-- A step that does the right thing at each node does it in the whole tree. -/
theorem Passing.throughout {related left : Node → Node → Prop} {before after : Node → Prop}
    (passing : Passing related left before after) {source result : Node}
    (step : related source result) (holds : Throughout before source) :
    Throughout after result ∧ source.head = result.head := by
  induction source using Node.induct generalizing result with
  | step source inductionHypothesis =>
    rcases passing.opens step with ⟨rfl, kept⟩ | ⟨rebuilt, matched, finished⟩
    · exact ⟨kept holds, rfl⟩
    · -- The parts are known to be done and to have kept their heads.
      have done := matched.imp fun {slot child replacement} part replaced =>
        inductionHypothesis child (mem_children_of_part part) replaced
          (holds.inside (mem_children_of_part part))
      have sameHeads : SameHeads source rebuilt := done.imp fun _ both => both.2
      refine ⟨passing.leaves finished (passing.agrees sameHeads holds.here) fun child member => ?_,
        sameHeads.head_eq.trans (passing.head finished)⟩
      obtain ⟨_, _, _, both⟩ := done.exists_source member
      exact both.1

end Node

namespace DeclTraversal

variable {m : Type → Type} [Monad m] [Outcome m] {ρ : Type}

/-- The walk gives this result, whatever is carried. -/
def Walks (traversal : DeclTraversal m ρ) (source result : Node) : Prop :=
  ∃ env, Gives (traversal.node env source) result

/-- The walk goes below every node. -/
def Thorough (traversal : DeclTraversal m ρ) : Prop :=
  ∀ env node, ¬ Gives (traversal.enterNode env node) none

/-- A walk that enters every expression goes below every node. -/
theorem thorough_of_enter {traversal : DeclTraversal m ρ}
    (enters : ∀ env expr, ¬ Gives (traversal.enter env expr) none) : traversal.Thorough := by
  intro env node skipped
  cases node with
  | expr root =>
    obtain ⟨below, entered, same⟩ := gives_bind.1 skipped
    cases below with
    | none => exact enters env root entered
    | some below => cases gives_pure.1 same
  | stmt root | attr root | member root | decl root | unit root => cases gives_pure.1 skipped

/-- The walk makes this of a node with finished parts, whatever is carried. -/
def Finishes (traversal : DeclTraversal m ρ) (rebuilt result : Node) : Prop :=
  ∃ env, Gives (traversal.leaveNode env rebuilt) result

/-- Where there is nothing at top level, a walk puts nothing there. -/
theorem unit_globals {traversal : DeclTraversal m ρ} {env : ρ} {unit result : SourceUnit}
    (walked : Gives (traversal.unit env unit) result) (none : unit.globals = []) :
    result.globals = [] := by
  simp only [DeclTraversal.unit, none, Traversal.stmts, gives_bind, gives_pure] at walked
  obtain ⟨_, -, _, rfl, rfl⟩ := walked
  rfl

/-- The walk of a unit makes its result of it. -/
theorem walks_unit {traversal : DeclTraversal m ρ} {env : ρ} {unit result : SourceUnit}
    (walked : Gives (traversal.unit env unit) result) :
    traversal.Walks (.unit unit) (.unit result) :=
  ⟨env, gives_bind.2 ⟨result, walked, gives_pure.2 rfl⟩⟩

variable [LawfulMonad m]

/-- The walk gives a node back, or replaces its parts and finishes what it has become. -/
theorem Walks.opens {traversal : DeclTraversal m ρ} {source result : Node}
    (walks : traversal.Walks source result) :
    result = source ∨
      ∃ rebuilt, Node.Matches (fun _ => traversal.Walks) source rebuilt ∧
        traversal.Finishes rebuilt result := by
  obtain ⟨env, walked⟩ := walks
  rcases node_matches walked with ⟨-, rfl⟩ | ⟨carried, rebuilt, -, matched, left⟩
  · exact .inl rfl
  · exact .inr ⟨rebuilt, matched.imp fun _ replaced => ⟨_, replaced⟩, env, left⟩

/-- A thorough walk always replaces the parts of a node. -/
theorem Thorough.opens {traversal : DeclTraversal m ρ} (thorough : traversal.Thorough)
    {source result : Node} (walks : traversal.Walks source result) :
    ∃ rebuilt, Node.Matches (fun _ => traversal.Walks) source rebuilt ∧
      traversal.Finishes rebuilt result := by
  obtain ⟨env, walked⟩ := walks
  rcases node_matches walked with ⟨skipped, -⟩ | ⟨carried, rebuilt, -, matched, left⟩
  · exact absurd skipped (thorough env source)
  · exact ⟨rebuilt, matched.imp fun _ replaced => ⟨_, replaced⟩, env, left⟩

/-! ## Walks that change expressions only -/

/-- The walk that applies `step` to the expressions that it enters, parts first. -/
def stepping (enter : ρ → Expr → Option (Descent ρ)) (enterStmt : ρ → Stmt → ρ)
    (step : ρ → Expr → Expr) : DeclTraversal Id ρ :=
  .ofTraversal
    { enter := fun env expr => pure (enter env expr)
      leave := fun env expr => pure (step env expr)
      enterStmt
      leaveStmt := fun _ stmt => pure stmt }

/-- Such a walk does the right thing when it does so at each expression. -/
theorem passing_stepping {enter : ρ → Expr → Option (Descent ρ)} {enterStmt : ρ → Stmt → ρ}
    {step : ρ → Expr → Expr} {before after : Expr → Prop}
    (enters : ∀ env expr, enter env expr ≠ none)
    (agrees : ∀ {source rebuilt : Node}, Node.SameHeads source rebuilt →
      Node.OfExpr before source → Node.OfExpr before rebuilt)
    (head : ∀ env expr, expr.head = (step env expr).head)
    (leaves : ∀ env expr, before expr →
      (∀ child ∈ (Node.expr expr).children, Node.AllExprs after child) →
      Node.AllExprs after (.expr (step env expr))) :
    Node.Passing (stepping enter enterStmt step).Walks (stepping enter enterStmt step).Finishes
      (Node.OfExpr before) (Node.OfExpr after) where
  opens walks := .inr (Thorough.opens (thorough_of_enter enters) walks)
  agrees := agrees
  head {rebuilt _} := by
    rintro ⟨env, left⟩
    cases rebuilt with
    | expr root =>
      obtain rfl := gives_pure.1 left
      exact head env root
    | _ =>
      obtain rfl := gives_pure.1 left
      rfl
  leaves {rebuilt _} := by
    rintro ⟨env, left⟩ here inside
    cases rebuilt with
    | expr root =>
      obtain rfl := gives_pure.1 left
      exact leaves env root here inside
    | _ =>
      obtain rfl := gives_pure.1 left
      exact Node.allExprs_of_children nofun inside

end DeclTraversal

end ScriptSharp
