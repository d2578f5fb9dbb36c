import ScriptSharp.Proofs.Tree.Effects
import ScriptSharp.Tree.Traversal

/-!
# What a walk comes to

The walk that changes nothing comes to the expressions that `Node.subexpressions` lists, in the
order of the list, and gives back the tree that it was given: `Traversal.stmt_visiting` for
statements, and `DeclTraversal.unit_visiting` for units.
-/

namespace ScriptSharp

variable {m : Type → Type} [Monad m]

namespace Traversal

/-- The walk that changes nothing and runs `visit` on every expression that it comes to. -/
def visiting (visit : Expr → m Unit) : Traversal m Unit :=
  { plain with
    enter := fun env expr => do
      visit expr
      plain.enter env expr }

section Visiting

/-- Leaving a statement does nothing. -/
theorem leaveStmt_visiting (visit : Expr → m Unit) (stmt : Stmt) :
    (visiting visit).leaveStmt () stmt = pure stmt := rfl

/-- An expression is visited before its parts. -/
theorem around_visiting [LawfulMonad m] (visit : Expr → m Unit) (expr : Expr)
    (parts : Descent Unit → m Expr) :
    (visiting visit).around () expr parts = visit expr >>= fun _ => parts ⟨(), ()⟩ := by
  simp [around, visiting, plain]

-- The walk and the list are opened together, form by form. What is left of a form are its parts in
-- order, and each of them is settled by the theorem that is named for it.
attribute [local simp] Traversal.expr Traversal.exprs Traversal.entries Traversal.optional
  Traversal.lambdaBody Traversal.stmt Traversal.stmts Traversal.block? Expr.subexpressions
  Expr.allSubexpressions Expr.entrySubexpressions Expr.optionalSubexpressions
  LambdaBody.subexpressions Stmt.subexpressions Stmt.allSubexpressions Stmt.blockSubexpressions
  around_visiting leaveStmt_visiting

mutual
/-- The walk visits an expression and those below it in their order, and gives the expression. -/
theorem expr_visiting [LawfulMonad m] (visit : Expr → m Unit) : (expr : Expr) →
    (visiting visit).expr () expr = do forM expr.subexpressions visit; return expr
  | .literal .. => by simp
  | .ident .. => by simp
  | .selfRef .. => by simp
  | .superRef .. => by simp
  | .typeRef .. => by simp
  | .typeOf .. => by simp
  | .defaultOf .. => by simp
  | .member _ target _ _ => by simp [expr_visiting visit target]
  | .invoke _ callee _ args _ => by
    simp [expr_visiting visit callee, exprs_visiting visit args]
  | .index _ target indices => by
    simp [expr_visiting visit target, exprs_visiting visit indices]
  | .binary _ _ left right => by simp [expr_visiting visit left, expr_visiting visit right]
  | .unary _ _ operand => by simp [expr_visiting visit operand]
  | .ternary _ condition thenValue elseValue => by
    simp [expr_visiting visit condition, expr_visiting visit thenValue,
      expr_visiting visit elseValue]
  | .cast _ operand _ _ => by simp [expr_visiting visit operand]
  | .tryCast _ operand _ => by simp [expr_visiting visit operand]
  | .construct _ _ args _ => by simp [exprs_visiting visit args]
  | .newArray _ _ size => by simp [expr_visiting visit size]
  | .lambda _ _ _ body => by simp [lambdaBody_visiting visit body]
  | .array _ _ items => by simp [exprs_visiting visit items]
  | .map _ entries => by simp [entries_visiting visit entries]
  | .assign _ _ target value => by simp [expr_visiting visit target, expr_visiting visit value]
  | .paren _ inner => by simp [expr_visiting visit inner]

theorem exprs_visiting [LawfulMonad m] (visit : Expr → m Unit) : (exprs : List Expr) →
    (visiting visit).exprs () exprs = do forM (Expr.allSubexpressions exprs) visit; return exprs
  | [] => by simp
  | first :: rest => by simp [expr_visiting visit first, exprs_visiting visit rest]

theorem entries_visiting [LawfulMonad m] (visit : Expr → m Unit) :
    (entries : List (Expr × Expr)) → (visiting visit).entries () entries =
      do forM (Expr.entrySubexpressions entries) visit; return entries
  | [] => by simp
  | (key, value) :: rest => by
    simp [expr_visiting visit key, expr_visiting visit value, entries_visiting visit rest]

theorem optional_visiting [LawfulMonad m] (visit : Expr → m Unit) :
    (present : Option Expr) → (visiting visit).optional () present =
      do forM (Expr.optionalSubexpressions present) visit; return present
  | none => by simp
  | some present => by simp [expr_visiting visit present]

theorem lambdaBody_visiting [LawfulMonad m] (visit : Expr → m Unit) : (body : LambdaBody) →
    (visiting visit).lambdaBody () body = do forM body.subexpressions visit; return body
  | .expr value => by simp [expr_visiting visit value]
  | .block body => by simp [stmts_visiting visit body]

/-- The walk visits the expressions of a statement in their order, and gives the statement. -/
theorem stmt_visiting [LawfulMonad m] (visit : Expr → m Unit) : (stmt : Stmt) →
    (visiting visit).stmt () stmt = do forM stmt.subexpressions visit; return stmt
  | .expr value => by simp [expr_visiting visit value]
  | .declare _ _ _ init _ => by simp [optional_visiting visit init]
  | .branch condition thenBody elseBody => by
    simp [expr_visiting visit condition, stmts_visiting visit thenBody,
      block_visiting visit elseBody]
  | .whileLoop condition body => by
    simp [expr_visiting visit condition, stmts_visiting visit body]
  | .forLoop init condition step body => by
    simp [stmts_visiting visit init, optional_visiting visit condition,
      exprs_visiting visit step, stmts_visiting visit body]
  | .forEach _ _ source body => by simp [expr_visiting visit source, stmts_visiting visit body]
  | .ret value _ => by simp [optional_visiting visit value]
  | .throw value => by simp [expr_visiting visit value]
  | .breakLoop => by simp
  | .continueLoop => by simp
  | .block body => by simp [stmts_visiting visit body]

theorem stmts_visiting [LawfulMonad m] (visit : Expr → m Unit) : (body : List Stmt) →
    (visiting visit).stmts () body = do forM (Stmt.allSubexpressions body) visit; return body
  | [] => by simp
  | first :: rest => by simp [stmt_visiting visit first, stmts_visiting visit rest]

theorem block_visiting [LawfulMonad m] (visit : Expr → m Unit) :
    (body : Option (List Stmt)) → (visiting visit).block? () body =
      do forM (Stmt.blockSubexpressions body) visit; return body
  | none => by simp
  | some body => by simp [stmts_visiting visit body]
end

end Visiting

/-- Items that are visited one by one are visited in order. -/
theorem mapM_visiting [LawfulMonad m] (visit : Expr → m Unit) {α : Type} (found : α → List Expr)
    {step : α → m α} (steps : ∀ item, step item = do forM (found item) visit; return item)
    (items : List α) :
    items.mapM step = do forM (items.flatMap found) visit; return items := by
  induction items with
  | nil => simp
  | cons first rest inductionHypothesis => simp [steps, inductionHypothesis]

end Traversal

namespace DeclTraversal

open Traversal (mapM_visiting)

/-- The walk of a unit that changes nothing and runs `visit` on every expression. -/
def visiting (visit : Expr → m Unit) : DeclTraversal m Unit :=
  .ofTraversal (.visiting visit)

@[simp]
theorem toTraversal_visiting (visit : Expr → m Unit) :
    (visiting visit).toTraversal = .visiting visit := rfl

variable [LawfulMonad m] (visit : Expr → m Unit)

/-- The walk visits the values in an attribute, and gives the attribute. -/
theorem attr_visiting (attr : Attribute) :
    (visiting visit).attr () attr = do forM attr.subexpressions visit; return attr := by
  have steps (arg : AttributeArg) : (do
      let value ← (visiting visit).expr () arg.value
      return { arg with value }) = do forM arg.value.subexpressions visit; return arg := by
    simp [Traversal.expr_visiting]
  rw [DeclTraversal.attr, mapM_visiting visit _ steps]
  simp [visiting, ofTraversal, Attribute.subexpressions]

/-- The walk visits attributes one after the other. -/
theorem attrs_visiting (attrs : List Attribute) : (visiting visit).attrs () attrs =
    do forM (attrs.flatMap Attribute.subexpressions) visit; return attrs :=
  mapM_visiting visit _ (attr_visiting visit) attrs

/-- The walk visits the arguments of a constructor chain, and gives the chain. -/
theorem chain_visiting (chain : Option CtorChain) : (visiting visit).chain? () chain =
    do forM (Expr.allSubexpressions ((chain.map (·.args)).getD [])) visit; return chain := by
  cases chain with
  | none => simp [chain?, Expr.allSubexpressions]
  | some chain => simp [chain?, Traversal.exprs_visiting]

/-- The walk visits the expressions of a member in their order. -/
theorem memberParts_visiting (member : Member) : (visiting visit).memberParts () member =
    do forM member.subexpressions visit; return member := by
  cases member with
  | field decl =>
    simp [memberParts, Member.subexpressions, attrs_visiting, Traversal.optional_visiting]
  | method decl =>
    simp [memberParts, Member.subexpressions, attrs_visiting, Traversal.block_visiting]
  | ctor decl =>
    simp [memberParts, Member.subexpressions, CtorDecl.chainArgs, chain_visiting,
      Traversal.stmts_visiting]

/-- The walk visits the expressions of a member, and gives the member. -/
theorem member_visiting (member : Member) :
    (visiting visit).member () member = do forM member.subexpressions visit; return member := by
  have parts : (visiting visit).member () member =
      (visiting visit).memberParts () member >>= pure := rfl
  rw [parts, bind_pure, memberParts_visiting]

/-- The walk visits the expressions of a declaration, and gives the declaration. -/
theorem decl_visiting (decl : TypeDecl) :
    (visiting visit).decl () decl = do forM decl.subexpressions visit; return decl := by
  have parts : (visiting visit).decl () decl = do
      let attrs ← (visiting visit).attrs () decl.attrs
      let members ← decl.members.mapM ((visiting visit).member ())
      return { decl with attrs, members } := rfl
  rw [parts, attrs_visiting, mapM_visiting visit _ (member_visiting visit)]
  simp [TypeDecl.subexpressions]

/-- The walk visits the expressions of a unit in their order, and gives the unit. -/
theorem unit_visiting (unit : SourceUnit) :
    (visiting visit).unit () unit = do forM (Node.unit unit).subexpressions visit; return unit := by
  have decls := mapM_visiting visit _ (decl_visiting visit) unit.decls
  simp [DeclTraversal.unit, DeclTraversal.decls, Node.subexpressions, decls,
    Traversal.stmts_visiting]

end DeclTraversal

/-! ## The plain walk -/

namespace Traversal

variable [LawfulMonad m]

/-- Doing nothing for each expression does nothing. -/
theorem forM_nothing (exprs : List Expr) : forM exprs (fun _ => (pure () : m Unit)) = pure () := by
  induction exprs with
  | nil => rfl
  | cons first rest inductionHypothesis => rw [List.forM_cons, pure_bind, inductionHypothesis]

/-- The plain walk is the one that does nothing where it visits. -/
theorem plain_eq_visiting : (plain : Traversal m Unit) = visiting fun _ => pure () := by
  simp [visiting, plain]

/-- The plain walk gives back every unit. -/
theorem plain_unit (unit : SourceUnit) :
    (DeclTraversal.ofTraversal (plain : Traversal m Unit)).unit () unit = pure unit := by
  rw [plain_eq_visiting, ← DeclTraversal.visiting, DeclTraversal.unit_visiting, forM_nothing,
    pure_bind]

end Traversal

end ScriptSharp
