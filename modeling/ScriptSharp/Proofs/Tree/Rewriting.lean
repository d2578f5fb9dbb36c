import ScriptSharp.Proofs.Tree.Walk

/-!
# Rewriting expressions

A rewriting applies one function to every expression of a tree, the parts of an expression before
the expression itself, and leaves everything else alone. `Node.rewrite_matches` is its recursion
over all kinds of nodes.

The face of an expression is what decides about it from outside. A rewriting that keeps the face
of every single expression keeps it of every tree.
-/

namespace ScriptSharp

open Outcome

/-- The walk that applies `step` to every expression, parts first. -/
def DeclTraversal.rewriting (step : Expr → Expr) : DeclTraversal Id Unit :=
  .ofTraversal { Traversal.plain with leave := fun _ expr => pure (step expr) }

/-- Applies `step` to every expression of a unit, parts first. -/
def SourceUnit.rewrite (step : Expr → Expr) (unit : SourceUnit) : SourceUnit :=
  ((DeclTraversal.rewriting step).unit () unit).run

/-- Applies `step` to an expression and all expressions below it, parts first. -/
def Expr.rewrite (step : Expr → Expr) (expr : Expr) : Expr :=
  ((DeclTraversal.rewriting step).expr () expr).run

/-- The shell of an expression has its note. -/
theorem Expr.note_shell (expr : Expr) : expr.shell.note = expr.note := by
  cases expr <;> rfl

namespace Node

variable {step : Expr → Expr}

/-- Applies `step` to a node that is an expression. -/
def mapExpr (step : Expr → Expr) : Node → Node
  | .expr root => .expr (step root)
  | other => other

/-- Applies `step` to every expression at or below a node, parts first. -/
def rewrite (step : Expr → Expr) (node : Node) : Node :=
  ((DeclTraversal.rewriting step).node () node).run

/-- A rewriting goes below every node. -/
theorem enterNode_rewriting (node : Node) : ∃ carried : Slot → Unit,
    Gives ((DeclTraversal.rewriting step).enterNode () node) (some carried) := by
  cases node <;> exact ⟨_, rfl⟩

/-- A rewriting walk leaves a node by its step, when the node is an expression. -/
theorem leaveNode_rewriting (node : Node) :
    Gives ((DeclTraversal.rewriting step).leaveNode () node) (node.mapExpr step) := by
  cases node <;> rfl

/-- A node is rewritten by rewriting its parts and then the node itself. -/
theorem rewrite_matches (step : Expr → Expr) (node : Node) :
    ∃ rebuilt, Matches (fun _ child replacement => child.rewrite step = replacement) node rebuilt ∧
      node.rewrite step = rebuilt.mapExpr step := by
  have walked : Gives ((DeclTraversal.rewriting step).node () node) (node.rewrite step) := rfl
  obtain ⟨carried, entered⟩ := enterNode_rewriting node
  rcases DeclTraversal.node_matches walked with ⟨skipped, -⟩ | ⟨below, rebuilt, -, matched, left⟩
  · cases skipped.symm.trans entered
  · exact ⟨rebuilt, matched, left.symm.trans (leaveNode_rewriting rebuilt)⟩

/-- Where two rewritings give the same for the parts of two nodes, they start from the same node
at the top. -/
theorem Matches.rewrite {first second : Expr → Expr} {source result : Node}
    (matched : Matches (fun _ child replacement =>
      child.rewrite first = replacement.rewrite second) source result) :
    ∃ rebuilt, Matches (fun _ child replacement => child.rewrite first = replacement)
        source rebuilt ∧
      source.rewrite first = rebuilt.mapExpr first ∧
      result.rewrite second = rebuilt.mapExpr second := by
  obtain ⟨rebuilt, sourceParts, sourceTop⟩ := rewrite_matches first source
  obtain ⟨other, resultParts, resultTop⟩ := rewrite_matches second result
  have same : rebuilt = other := by
    refine ((sourceParts.symm.trans (matched.trans resultParts)).imp fun _ chain => ?_).eq
    obtain ⟨child, rewritten, between, agree, replaced⟩ := chain
    rw [← rewritten, agree, replaced]
  subst same
  exact ⟨rebuilt, sourceParts, sourceTop, resultTop⟩

/-! ## Faces -/

/-- What an expression shows to what surrounds it: its type and position, and whether it is a
function literal. -/
def face : Node → Option (Note × Bool)
  | .expr root => some (root.note, root.isLambda)
  | _ => none

/-- Two expressions have the same face when they agree in their notes and in being literals. -/
theorem face_expr {left right : Expr} : (Node.expr left).face = (Node.expr right).face ↔
    left.note = right.note ∧ left.isLambda = right.isLambda := by
  simp [face]

/-- An expression shows what its shell shows, unless it shows what stands in its parentheses. -/
theorem face_of_shell {left right : Expr} (bare : ∀ note inner, left ≠ .paren note inner)
    (shell : left.shell = right.shell) : (Node.expr left).face = (Node.expr right).face := by
  have sameNote : left.note = right.note := by
    rw [← Expr.note_shell left, shell, Expr.note_shell]
  refine face_expr.2 ⟨sameNote, ?_⟩
  cases left <;> cases right <;> simp only [Expr.shell, reduceCtorEq] at shell
  case paren.paren note inner _ _ => exact absurd rfl (bare note inner)
  all_goals rfl

/-- A node shows what another one with the same shell shows, once its parts do. -/
theorem Matches.face_eq {source result : Node}
    (matched : Matches (fun _ child replacement => child.face = replacement.face) source result) :
    source.face = result.face := by
  obtain ⟨shell, parts⟩ := matched
  cases source <;> cases result <;> simp only [Node.shell, reduceCtorEq, Node.expr.injEq] at shell
  case expr.expr left right =>
    by_cases bare : ∀ note inner, left ≠ .paren note inner
    · exact face_of_shell bare shell
    · simp only [ne_eq, not_forall, not_not] at bare
      obtain ⟨note, inner, rfl⟩ := bare
      cases right <;> simp only [Expr.shell, reduceCtorEq, Expr.paren.injEq] at shell
      cases parts with
      | cons first _ => exact face_expr.2 ⟨shell.1, (face_expr.1 first.2).2⟩
  all_goals rfl

/-- A step that keeps the faces of expressions keeps the faces of nodes. -/
theorem face_mapExpr (keeps : ∀ expr, (Node.expr (step expr)).face = (Node.expr expr).face)
    (node : Node) : (node.mapExpr step).face = node.face := by
  cases node with
  | expr root => exact keeps root
  | _ => rfl

/-- A rewriting that keeps the face of each expression keeps all faces. -/
theorem face_rewrite (keeps : ∀ expr, (Node.expr (step expr)).face = (Node.expr expr).face)
    (node : Node) : (node.rewrite step).face = node.face := by
  induction node using Node.induct with
  | step node inductionHypothesis =>
    obtain ⟨rebuilt, matched, rewritten⟩ := rewrite_matches step node
    rw [rewritten, face_mapExpr keeps]
    refine (matched.imp fun member replaced => ?_).face_eq.symm
    rw [← replaced, inductionHypothesis _ (mem_children_of_part member)]

end Node

end ScriptSharp
