import ScriptSharp.Proofs.Tree.Occurrences
import ScriptSharp.Proofs.Tree.Searching
import ScriptSharp.Proofs.Tree.Visiting
import ScriptSharp.Source.Fault

/-!
# Walks and searches cover the same tree

Walks and searches go through the forms of expressions and statements separately. What they come to
is recorded here, and compared: the records are the same, but that a search ends with the first
expression that passes its test.
-/

namespace ScriptSharp

variable {m : Type → Type} [Monad m]

/-! ## Records -/

/-- Puts an expression behind those that were met before it. -/
def Expr.record (expr : Expr) : StateT (List Expr) m Unit :=
  modify (· ++ [expr])

/-- The test that also records what it is asked about. -/
def Expr.recording (test : Expr → Bool) (expr : Expr) : StateM (List Expr) Bool := do
  expr.record
  return test expr

/-- The walk that also records the expressions that it comes to. -/
def Traversal.recording {ρ : Type} (traversal : Traversal m ρ) :
    Traversal (StateT (List Expr) m) ρ where
  enter env expr := do
    expr.record
    traversal.enter env expr
  leave env expr := traversal.leave env expr
  enterStmt := traversal.enterStmt
  leaveStmt env stmt := traversal.leaveStmt env stmt

/-- Recording expressions one after another gives their list. -/
theorem Expr.run_forM_record [LawfulMonad m] (exprs before : List Expr) :
    (forM exprs Expr.record : StateT (List Expr) m Unit).run before =
      pure ((), before ++ exprs) := by
  induction exprs generalizing before with
  | nil => simp
  | cons first rest inductionHypothesis => simp [Expr.record, inductionHypothesis]

/-- A recording test records what a plain search looks at. -/
theorem Expr.run_anyM_recording (test : Expr → Bool) (exprs before : List Expr) :
    (exprs.anyM (Expr.recording test)).run before =
      pure (exprs.any test, before ++ Expr.searched test exprs) := by
  induction exprs generalizing before with
  | nil => simp [searched]
  | cons first rest inductionHypothesis =>
    cases passes : test first with
    | true => simp [searched, recording, record, passes]
    | false => simp [searched, recording, record, passes, inductionHypothesis]

/-! ## Searches -/

/-- A search answers whether some expression of the statement passes, and asks about everything up
to the first one that does. -/
theorem Stmt.search_recording (test : Expr → Bool) (stmt : Stmt) :
    (stmt.search (Expr.recording test)).run [] =
      (stmt.contains test, Expr.searched test stmt.subexpressions) := by
  rw [Stmt.search_eq, Expr.run_anyM_recording]
  rfl

/-! ## Walks -/

namespace Traversal

section Plain

variable [LawfulMonad m]

/-- The plain traversal that records is the visit that records. -/
theorem recording_plain : (plain : Traversal m Unit).recording = visiting Expr.record := by
  simp [recording, visiting, plain]

/-- The plain walk comes to all expressions of a statement, and gives the statement. -/
theorem recording_stmt (stmt : Stmt) :
    ((plain : Traversal m Unit).recording.stmt () stmt).run [] =
      pure (stmt, stmt.subexpressions) := by
  rw [recording_plain, stmt_visiting, StateT.run_bind, Expr.run_forM_record, pure_bind]
  rfl

/-- The plain walk comes to all expressions of a unit, and gives the unit. -/
theorem recording_unit (unit : SourceUnit) :
    ((DeclTraversal.ofTraversal (plain : Traversal m Unit).recording).unit () unit).run [] =
      pure (unit, (Node.unit unit).subexpressions) := by
  rw [recording_plain, ← DeclTraversal.visiting, DeclTraversal.unit_visiting, StateT.run_bind,
    Expr.run_forM_record, pure_bind]
  rfl

end Plain

/-- The plain walk gives back every unit. Of a unit, and of a statement alone, it comes to every
expression once, each before its parts and the parts from left to right. A search in the statement
asks about the same expressions in the same order until the test says yes, also when the test has a
state of its own: it answers whether an expression passes, and the first one that does is the last
that it asks about. -/
theorem plain_visits_searched :
    (∀ unit : SourceUnit,
      (DeclTraversal.ofTraversal (plain : Traversal (Except Fault) Unit)).unit () unit =
        .ok unit ∧
      ∃ occurrences, (Node.unit unit).Lists occurrences ∧
        ((DeclTraversal.ofTraversal (plain : Traversal (Except Fault) Unit).recording).unit ()
          unit).run [] = .ok (unit, occurrences.map (·.2))) ∧
    ∀ stmt : Stmt, ∃ occurrences, (Node.stmt stmt).Lists occurrences ∧
      ((plain : Traversal (Except Fault) Unit).recording.stmt () stmt).run [] =
        .ok (stmt, occurrences.map (·.2)) ∧
      (∀ test : Expr → Bool, ∃ found,
        (stmt.search (Expr.recording test)).run [] =
          (found, Expr.searched test (occurrences.map (·.2))) ∧
        (found = true ↔ ∃ expr ∈ occurrences.map (·.2), test expr = true)) ∧
      ∀ {σ : Type} (test : Expr → StateM σ Bool),
        stmt.search test = (occurrences.map (·.2)).anyM test := by
  -- One list serves both: the walk and the search are told from the same `subexpressions`.
  refine ⟨fun unit => ⟨plain_unit unit, _, Node.lists_occurrences (.unit unit), ?_⟩,
    fun stmt => ⟨_, Node.lists_occurrences (.stmt stmt), ?_⟩⟩
  · rw [Node.map_occurrences]
    exact recording_unit unit
  · rw [Node.map_occurrences]
    refine ⟨recording_stmt stmt, fun test => ⟨_, Stmt.search_recording test stmt, ?_⟩, ?_⟩
    · exact List.any_eq_true
    · exact fun test => Stmt.search_eq test stmt

end Traversal

end ScriptSharp
