import Mathlib.Algebra.BigOperators.Group.Multiset.Basic
import Mathlib.Data.Multiset.Filter
import Mathlib.Logic.Relation
import ScriptSharp.Proofs.Tree.Rewriting
import ScriptSharp.Tree.Subexpressions

/-!
# What a tree does

Calls, constructions, assignments and steps up or down do something besides giving a value. A
rewriting keeps the behaviour of a tree only if these occur in it as often as before, so
`Node.effects` counts them. What a node does is what it does by itself, together with what its parts
do: `Node.effects_eq`.

The body of a function literal may be rewritten on its own, while everything around it is kept. So
an effect is told from others by its expression with such bodies left open; what stands in a body
is counted separately.
-/

namespace ScriptSharp

namespace Expr

/-- The expression does something by itself. -/
def isEffect : Expr → Bool
  | .invoke .. | .construct .. | .assign .. => true
  | .unary _ op _ => op.isStep
  | _ => false

/-- A function literal with its body left open. -/
def openBody : Expr → Expr
  | .lambda note params ret _ => .lambda note params ret (.block [])
  | other => other

/-- The expression with the bodies of all function literals left open. -/
def outer (expr : Expr) : Expr := expr.rewrite openBody

/-- Whether an expression does something does not depend on its parts. -/
theorem isEffect_of_shell {left right : Expr} (shell : left.shell = right.shell) :
    left.isEffect = right.isEffect := by
  cases left <;> cases right <;> simp only [Expr.shell, reduceCtorEq] at shell
  case unary.unary =>
    obtain ⟨-, rfl, -⟩ := Expr.unary.inj shell
    rfl
  all_goals rfl

end Expr

/-! ## The expressions of a node -/

/-- The expressions of an attribute. -/
def Attribute.subexpressions (attr : Attribute) : List Expr :=
  attr.args.flatMap (·.value.subexpressions)

/-- The expressions of a member. -/
def Member.subexpressions : Member → List Expr
  | .field decl =>
    decl.attrs.flatMap Attribute.subexpressions ++ Expr.optionalSubexpressions decl.init
  | .method decl =>
    decl.attrs.flatMap Attribute.subexpressions ++ Stmt.blockSubexpressions decl.body
  | .ctor decl => Expr.allSubexpressions decl.chainArgs ++ Stmt.allSubexpressions decl.body

/-- The expressions of a declaration. -/
def TypeDecl.subexpressions (decl : TypeDecl) : List Expr :=
  decl.attrs.flatMap Attribute.subexpressions ++ decl.members.flatMap Member.subexpressions

namespace Node

/-- All expressions at or below a node. -/
def subexpressions : Node → List Expr
  | .expr root => root.subexpressions
  | .stmt root => root.subexpressions
  | .attr root => root.subexpressions
  | .member root => root.subexpressions
  | .decl root => root.subexpressions
  | .unit root => root.decls.flatMap TypeDecl.subexpressions ++ Stmt.allSubexpressions root.globals

/-- The expressions of parts. -/
def partSubexpressions (parts : List Part) : List Expr :=
  parts.flatMap (·.2.subexpressions)

@[simp]
theorem partSubexpressions_nil : partSubexpressions [] = [] := rfl

/-- The expressions of parts are those of the first one and of the others. -/
@[simp]
theorem partSubexpressions_cons (part : Part) (parts : List Part) :
    partSubexpressions (part :: parts) = part.2.subexpressions ++ partSubexpressions parts := rfl

/-- Parts in a row have the expressions of both lists. -/
@[simp]
theorem partSubexpressions_append (first second : List Part) :
    partSubexpressions (first ++ second) =
      partSubexpressions first ++ partSubexpressions second :=
  List.flatMap_append

/-- The expressions of parts that are expressions are theirs. -/
@[simp]
theorem partSubexpressions_values (exprs : List Expr) :
    partSubexpressions (exprs.map .value) = Expr.allSubexpressions exprs := by
  induction exprs with
  | nil => rfl
  | cons first rest inductionHypothesis =>
    exact congrArg (first.subexpressions ++ ·) inductionHypothesis

/-- The expressions of entries are those of keys and values in turn. -/
@[simp]
theorem partSubexpressions_entries (entries : List (Expr × Expr)) :
    partSubexpressions (entries.flatMap Part.entry) = Expr.entrySubexpressions entries := by
  induction entries with
  | nil => rfl
  | cons first rest inductionHypothesis =>
    rw [List.flatMap_cons, partSubexpressions_append, inductionHypothesis,
      Expr.entrySubexpressions]
    simp [Part.entry, Part.value, subexpressions]

/-- The expressions of parts that are statements are theirs. -/
@[simp]
theorem partSubexpressions_stmts (stmts : List Stmt) :
    partSubexpressions (stmts.map .stmt) = Stmt.allSubexpressions stmts := by
  induction stmts with
  | nil => rfl
  | cons first rest inductionHypothesis =>
    exact congrArg (first.subexpressions ++ ·) inductionHypothesis

/-- The expressions of parts that are attributes are theirs. -/
@[simp]
theorem partSubexpressions_attrs (attrs : List Attribute) :
    partSubexpressions (attrs.map .attr) = attrs.flatMap Attribute.subexpressions := by
  rw [partSubexpressions, List.flatMap_map]
  rfl

/-- The expressions of a body of a lambda are those of its parts. -/
@[simp]
theorem partSubexpressions_body (body : LambdaBody) :
    partSubexpressions body.parts = body.subexpressions := by
  cases body with
  | expr value => exact List.append_nil _
  | block body => exact partSubexpressions_stmts body

/-- The expressions of a value that may be absent are those of a list of at most one. -/
@[simp]
theorem allSubexpressions_toList (present : Option Expr) :
    Expr.allSubexpressions present.toList = Expr.optionalSubexpressions present := by
  cases present with
  | none => rfl
  | some value => exact List.append_nil _

/-- The expressions of a block that may be absent are those of its statements. -/
@[simp]
theorem allSubexpressions_getD (body : Option (List Stmt)) :
    Stmt.allSubexpressions (body.getD []) = Stmt.blockSubexpressions body := by
  cases body <;> rfl

/-- The expressions of an expression are the expression itself and those of its parts. -/
theorem subexpressions_expr (expr : Expr) :
    expr.subexpressions = expr :: partSubexpressions expr.parts := by
  cases expr <;>
    simp [Expr.subexpressions, Expr.parts, Part.value, Part.target, subexpressions]

/-- The expressions of a statement are those of its parts. -/
theorem subexpressions_stmt (stmt : Stmt) :
    stmt.subexpressions = partSubexpressions stmt.parts := by
  cases stmt <;> simp [Stmt.subexpressions, Stmt.parts, Part.value, subexpressions]

/-- The expressions of a member are those of its parts. -/
theorem subexpressions_member (member : Member) :
    member.subexpressions = partSubexpressions member.parts := by
  cases member <;> simp [Member.subexpressions, Member.parts]

/-- The expressions of a declaration are those of its parts. -/
theorem subexpressions_decl (decl : TypeDecl) :
    decl.subexpressions = partSubexpressions (Node.decl decl).parts := by
  rw [parts, partSubexpressions_append, partSubexpressions_attrs, partSubexpressions,
    List.flatMap_map]
  rfl

/-- The expressions of a unit are those of its parts. -/
theorem subexpressions_unit (unit : SourceUnit) :
    (Node.unit unit).subexpressions = partSubexpressions (Node.unit unit).parts := by
  rw [parts, partSubexpressions_append, partSubexpressions_stmts, partSubexpressions,
    List.flatMap_map]
  rfl

/-- The expression that a node is. -/
def expr? : Node → Option Expr
  | .expr root => some root
  | _ => none

/-- The expressions of a node are the one that it is and those of its parts. -/
theorem subexpressions_eq (node : Node) :
    node.subexpressions = node.expr?.toList ++ node.children.flatMap subexpressions := by
  have inside : node.children.flatMap subexpressions = partSubexpressions node.parts := by
    rw [children, List.flatMap_map]
    rfl
  rw [inside]
  cases node with
  | expr root => exact subexpressions_expr root
  | stmt root => exact subexpressions_stmt root
  | attr root =>
    rw [partSubexpressions, parts, List.flatMap_map]
    rfl
  | member root => exact subexpressions_member root
  | decl root => exact subexpressions_decl root
  | unit root => exact subexpressions_unit root

/-! ## Effects -/

/-- What the node and everything below it does, as often as it stands there. -/
def effects (node : Node) : Multiset Expr :=
  (node.subexpressions.filter Expr.isEffect).map Expr.outer

/-- What the node does by itself. -/
def ownEffects (node : Node) : Multiset Expr :=
  (node.expr?.toList.filter Expr.isEffect).map Expr.outer

/-- What a node does is what it does by itself and what its parts do. -/
theorem effects_eq (node : Node) :
    node.effects = node.ownEffects + (node.children.map effects).sum := by
  have below (nodes : List Node) :
      (((nodes.flatMap subexpressions).filter Expr.isEffect).map Expr.outer : Multiset Expr) =
        (nodes.map effects).sum := by
    induction nodes with
    | nil => rfl
    | cons first rest inductionHypothesis =>
      rw [List.flatMap_cons, List.filter_append, List.map_append, ← Multiset.coe_add,
        inductionHypothesis]
      rfl
  rw [effects, subexpressions_eq, List.filter_append, List.map_append, ← Multiset.coe_add, below]
  rfl

/-- An expression that acts is an effect of its own. -/
theorem ownEffects_expr {expr : Expr} (acts : expr.isEffect = true) :
    (Node.expr expr).ownEffects = {expr.outer} := by
  simp [ownEffects, expr?, acts]

/-- What an expression does by itself is seen by its shell and its outer form. -/
theorem ownEffects_congr {left right : Expr} (shell : left.shell = right.shell)
    (sameOuter : left.outer = right.outer) :
    (Node.expr left).ownEffects = (Node.expr right).ownEffects := by
  have same := Expr.isEffect_of_shell shell
  cases acts : right.isEffect with
  | true => rw [ownEffects_expr (same.trans acts), ownEffects_expr acts, sameOuter]
  | false => simp [ownEffects, expr?, same, acts]

/-- Nodes that do the same by themselves differ in what they do as much as their parts do. -/
theorem Matches.effects_add {source result : Node} {less more : Node → Multiset Expr}
    (own : source.ownEffects = result.ownEffects)
    (matched : Matches (fun _ child replacement =>
      replacement.effects + less child = child.effects + more child) source result) :
    result.effects + (source.children.map less).sum =
      source.effects + (source.children.map more).sum := by
  have parts : (result.children.map effects).sum + (source.children.map less).sum =
      (source.children.map effects).sum + (source.children.map more).sum := by
    have related := matched.parts
    simp only [children, List.map_map]
    generalize source.parts = sources at related
    generalize result.parts = results at related
    induction related with
    | nil => rfl
    | cons first _ inductionHypothesis =>
      simp only [List.map_cons, List.sum_cons, Function.comp_apply]
      rw [add_add_add_comm, inductionHypothesis, first.2, add_add_add_comm]
  rw [effects_eq, effects_eq source, own, add_assoc, parts, add_assoc]

/-- The node stands somewhere in a tree. -/
def Inside (tree node : Node) : Prop :=
  Relation.ReflTransGen (fun node child => child ∈ node.children) tree node

/-! ## Outer forms -/

/-- Function literals have the same outer form when they have the same shell. -/
theorem outer_lambda {note : Note} {params : List LambdaParam} {ret : Option Ty}
    {body : LambdaBody} {result : Node}
    (shell : (Node.expr (.lambda note params ret body)).shell = result.shell) :
    result.rewrite Expr.openBody = .expr (.lambda note params ret (.block [])) := by
  obtain ⟨rebuilt, matched, rewritten⟩ := rewrite_matches Expr.openBody result
  rw [rewritten]
  replace shell := shell.trans matched.shell
  cases rebuilt <;> simp only [Node.shell, reduceCtorEq, Node.expr.injEq] at shell
  case expr root =>
    cases root <;> simp only [Expr.shell, reduceCtorEq] at shell
    obtain ⟨rfl, rfl, rfl, -⟩ := Expr.lambda.inj shell
    rfl

/-- The parts of an expression are expressions, unless it is a function literal. -/
theorem exists_expr_of_part {expr : Expr} {slot : Slot} {child : Node}
    (noLambda : ∀ note params ret body, expr ≠ .lambda note params ret body)
    (member : (slot, child) ∈ expr.parts) : ∃ inner, child = .expr inner := by
  cases expr
  case lambda => exact absurd rfl (noLambda _ _ _ _)
  all_goals
    simp only [Expr.parts, Part.value, Part.target, Part.entry, List.mem_cons, List.mem_map,
      List.mem_flatMap, List.not_mem_nil, Prod.mk.injEq, or_false] at member <;> grind

/-- A step that keeps shells, and goes on below everything but the bodies of function literals,
keeps outer forms. -/
theorem outer_of_matches {related : Node → Node → Prop}
    (opens : ∀ {expr result}, related (.expr expr) result →
      Matches (fun _ => related) (.expr expr) result)
    {expr : Expr} {result : Node} (walked : related (.expr expr) result) :
    (Node.expr expr).rewrite Expr.openBody = result.rewrite Expr.openBody := by
  generalize isExpr : Node.expr expr = node at walked
  induction node using Node.induct generalizing expr result with
  | step node inductionHypothesis =>
    subst isExpr
    have matched := opens walked
    by_cases literal : ∃ note params ret body, expr = .lambda note params ret body
    · obtain ⟨note, params, ret, body, rfl⟩ := literal
      rw [outer_lambda matched.shell, outer_lambda rfl]
    · push Not at literal
      have agrees : Matches (fun _ child replacement =>
          child.rewrite Expr.openBody = replacement.rewrite Expr.openBody) (.expr expr) result :=
        matched.imp fun part replaced => by
          obtain ⟨inner, rfl⟩ := exists_expr_of_part literal part
          exact inductionHypothesis _ (mem_children_of_part part) rfl replaced
      obtain ⟨rebuilt, -, source, target⟩ := agrees.rewrite
      rw [source, target]

end Node

end ScriptSharp
