import ScriptSharp.Tree.Search
import ScriptSharp.Tree.Subexpressions

/-!
# What a search asks about

A search goes down a tree by itself, form by form. It asks about the expressions that
`Stmt.subexpressions` lists, in the order of the list, until one of them passes its test:
`Stmt.search_eq`.
-/

namespace ScriptSharp

variable {m : Type → Type} [Monad m]

/-- The second search is run only where the first one says no. -/
theorem orM_eq (first second : m Bool) :
    (first <||> second) = first >>= fun found => if found then pure true else second := by
  refine bind_congr fun found => ?_
  cases found <;> rfl

/-- A search in a list of one asks about that one. -/
theorem anyM_singleton [LawfulMonad m] (test : Expr → m Bool) (expr : Expr) :
    [expr].anyM test = test expr := by
  have same (found : Bool) : (if found then pure true else pure false : m Bool) = pure found := by
    cases found <;> rfl
  rw [List.anyM_cons, List.anyM_nil]
  simp only [same, bind_pure]

/-- Where nothing in the first list passes, the second one is asked about. -/
theorem anyM_append [LawfulMonad m] (test : Expr → m Bool) (first second : List Expr) :
    (first ++ second).anyM test = (first.anyM test <||> second.anyM test) := by
  rw [orM_eq]
  induction first with
  | nil => simp
  | cons expr rest inductionHypothesis =>
    rw [List.cons_append, List.anyM_cons, List.anyM_cons, inductionHypothesis, bind_assoc]
    refine bind_congr fun found => ?_
    cases found <;> simp

-- `orM_eq` takes the place of `<||>` on both sides, so that searches of several parts and of the
-- appended lists of these parts come to the same nesting.
attribute [local simp] Expr.search Expr.searchAll Expr.searchEntries Expr.searchOptional
  LambdaBody.search Stmt.search Stmt.searchAll Stmt.searchBlock Expr.subexpressions
  Expr.allSubexpressions Expr.entrySubexpressions Expr.optionalSubexpressions
  LambdaBody.subexpressions Stmt.subexpressions Stmt.allSubexpressions Stmt.blockSubexpressions
  orM_eq anyM_append

mutual
/-- A search asks about an expression and those below it in their order. -/
theorem Expr.search_eq [LawfulMonad m] (test : Expr → m Bool) :
    (expr : Expr) → expr.search test = expr.subexpressions.anyM test
  | .literal .. => (anyM_singleton test _).symm
  | .ident .. => (anyM_singleton test _).symm
  | .selfRef .. => (anyM_singleton test _).symm
  | .superRef .. => (anyM_singleton test _).symm
  | .typeRef .. => (anyM_singleton test _).symm
  | .typeOf .. => (anyM_singleton test _).symm
  | .defaultOf .. => (anyM_singleton test _).symm
  | .member _ target _ _ => by simp [target.search_eq]
  | .invoke _ callee _ args _ => by simp [callee.search_eq, Expr.searchAll_eq test args]
  | .index _ target indices => by simp [target.search_eq, Expr.searchAll_eq test indices]
  | .binary _ _ left right => by simp [left.search_eq, right.search_eq]
  | .unary _ _ operand => by simp [operand.search_eq]
  | .ternary _ condition thenValue elseValue => by
    simp [condition.search_eq, thenValue.search_eq, elseValue.search_eq]
  | .cast _ operand _ _ => by simp [operand.search_eq]
  | .tryCast _ operand _ => by simp [operand.search_eq]
  | .construct _ _ args _ => by simp [Expr.searchAll_eq test args]
  | .newArray _ _ size => by simp [size.search_eq]
  | .lambda _ _ _ body => by simp [body.search_eq]
  | .array _ _ items => by simp [Expr.searchAll_eq test items]
  | .map _ entries => by simp [Expr.searchEntries_eq test entries]
  | .assign _ _ target value => by simp [target.search_eq, value.search_eq]
  | .paren _ inner => by simp [inner.search_eq]

theorem Expr.searchAll_eq [LawfulMonad m] (test : Expr → m Bool) :
    (exprs : List Expr) → Expr.searchAll test exprs = (Expr.allSubexpressions exprs).anyM test
  | [] => rfl
  | first :: rest => by simp [first.search_eq, Expr.searchAll_eq test rest]

theorem Expr.searchEntries_eq [LawfulMonad m] (test : Expr → m Bool) :
    (entries : List (Expr × Expr)) →
      Expr.searchEntries test entries = (Expr.entrySubexpressions entries).anyM test
  | [] => rfl
  | (key, value) :: rest => by
    simp [key.search_eq, value.search_eq, Expr.searchEntries_eq test rest]

theorem Expr.searchOptional_eq [LawfulMonad m] (test : Expr → m Bool) :
    (present : Option Expr) →
      Expr.searchOptional test present = (Expr.optionalSubexpressions present).anyM test
  | none => rfl
  | some present => by simp [present.search_eq]

theorem LambdaBody.search_eq [LawfulMonad m] (test : Expr → m Bool) :
    (body : LambdaBody) → body.search test = body.subexpressions.anyM test
  | .expr value => by simp [value.search_eq]
  | .block body => by simp [Stmt.searchAll_eq test body]

/-- A search asks about the expressions of a statement in their order. -/
theorem Stmt.search_eq [LawfulMonad m] (test : Expr → m Bool) :
    (stmt : Stmt) → stmt.search test = stmt.subexpressions.anyM test
  | .expr value => by simp [value.search_eq]
  | .declare _ _ _ init _ => by simp [Expr.searchOptional_eq test init]
  | .branch condition thenBody elseBody => by
    simp [condition.search_eq, Stmt.searchAll_eq test thenBody, Stmt.searchBlock_eq test elseBody]
  | .whileLoop condition body => by simp [condition.search_eq, Stmt.searchAll_eq test body]
  | .forLoop init condition step body => by
    simp [Stmt.searchAll_eq test init, Expr.searchOptional_eq test condition,
      Expr.searchAll_eq test step, Stmt.searchAll_eq test body]
  | .forEach _ _ source body => by simp [source.search_eq, Stmt.searchAll_eq test body]
  | .ret value _ => by simp [Expr.searchOptional_eq test value]
  | .throw value => by simp [value.search_eq]
  | .breakLoop => rfl
  | .continueLoop => rfl
  | .block body => by simp [Stmt.searchAll_eq test body]

theorem Stmt.searchAll_eq [LawfulMonad m] (test : Expr → m Bool) :
    (body : List Stmt) → Stmt.searchAll test body = (Stmt.allSubexpressions body).anyM test
  | [] => rfl
  | first :: rest => by simp [first.search_eq, Stmt.searchAll_eq test rest]

theorem Stmt.searchBlock_eq [LawfulMonad m] (test : Expr → m Bool) :
    (body : Option (List Stmt)) →
      Stmt.searchBlock test body = (Stmt.blockSubexpressions body).anyM test
  | none => rfl
  | some body => by simp [Stmt.searchAll_eq test body]
end

/-! ## Questions

What lowering asks of the lists is what a search with the same test answers. -/

/-- The question whether an expression contains one that passes is a search without effects. -/
theorem Expr.contains_eq_search (test : Expr → Bool) (expr : Expr) :
    expr.contains test = (expr.search fun expr => (pure (test expr) : Id Bool)).run := by
  rw [Expr.search_eq, List.anyM_pure]
  rfl

/-- The same is true of a statement. -/
theorem Stmt.contains_eq_search (test : Expr → Bool) (stmt : Stmt) :
    stmt.contains test = (stmt.search fun expr => (pure (test expr) : Id Bool)).run := by
  rw [Stmt.search_eq, List.anyM_pure]
  rfl

/-- The same is true of a block. -/
theorem Stmt.blockContains_eq_search (test : Expr → Bool) (body : List Stmt) :
    Stmt.blockContains test body =
      (Stmt.searchAll (fun expr => (pure (test expr) : Id Bool)) body).run := by
  rw [Stmt.searchAll_eq, List.anyM_pure]
  rfl

end ScriptSharp
