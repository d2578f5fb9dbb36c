import ScriptSharp.Proofs.KnownCalls.Again
import ScriptSharp.Proofs.Tree.Gathering

/-!
# Following places through narrowing

Some places of a tree ask for more than their node does: a statement drops the result of its
expression, a declaration requires a type. `Node.gather` lists such places in the order of the
source. Narrowing puts casts in and takes parentheses away, and neither adds or removes a place, so
the places of the result are those of the source with narrowed expressions. `Followed` says what
has to be true at one node for that, and `Followed.walk` says it of a whole tree.
-/

namespace ScriptSharp

namespace Lowering.KnownCalls

open Outcome

variable {context : Context} {usage : Usage} {carried : Slot → Usage} {node rebuilt : Node}

/-! ## What the walk makes of the parts of a node -/

/-- Two nodes made of the finished parts of one node are the same, for a walk that cannot fail. -/
theorem rebuilt_unique {other : Node}
    (matched : Node.Matches ((traversal context).Replaces carried) node rebuilt)
    (matchedToo : Node.Matches ((traversal context).Replaces carried) node other) :
    rebuilt = other := by
  refine ((matched.symm.trans matchedToo).imp fun _ chain => ?_).eq
  obtain ⟨origin, replaced, replacedToo⟩ := chain
  exact replaced.symm.trans replacedToo

/-- What an expression is rebuilt to is its own walk below. -/
theorem rebuilt_expr {expr : Expr}
    (matched : Node.Matches ((traversal context).Replaces carried) (.expr expr) rebuilt) :
    rebuilt = .expr ((traversal context).within carried expr).run :=
  rebuilt_unique matched (DeclTraversal.within_matches rfl)

/-- What a statement is rebuilt to is its own walk below. -/
theorem rebuilt_stmt {stmt : Stmt}
    (matched : Node.Matches ((traversal context).Replaces carried) (.stmt stmt) rebuilt) :
    rebuilt = .stmt ((traversal context).withinStmt carried stmt).run :=
  rebuilt_unique matched (DeclTraversal.withinStmt_matches rfl)

/-- What a member is rebuilt to is the walk of its parts. -/
theorem rebuilt_member {member : Member}
    (matched : Node.Matches ((traversal context).Replaces fun _ => usage) (.member member)
      rebuilt) :
    rebuilt = .member ((traversal context).memberParts usage member).run :=
  rebuilt_unique matched (DeclTraversal.memberParts_matches rfl)

/-- Outside of expressions, results are used. -/
def Reached (usage : Usage) (node : Node) : Prop :=
  usage = .value ∨ ∃ expr, node = .expr expr

/-- Nodes that are no expressions are reached where a value is used. -/
theorem Reached.value (reached : Reached usage node) (outside : ∀ expr, node ≠ .expr expr) :
    usage = .value := by
  rcases reached with used | ⟨expr, isExpr⟩
  · exact used
  · exact absurd isExpr (outside expr)

/-- Every part of an expression is used, unless the walk says something else of it. -/
theorem carried_of_enter {expr : Expr} (plain : enter context usage expr = some ⟨.value, .value⟩)
    (entered : Gives ((traversal context).enterNode usage (.expr expr)) (some carried)) :
    carried = fun _ => .value := by
  obtain ⟨below, enteredExpr, rfl⟩ := Option.map_eq_some_iff.1 entered
  obtain rfl := Option.some.inj (plain.symm.trans enteredExpr)
  funext slot
  cases slot <;> rfl

/-- The parts of a node are reached when the node is. -/
theorem Reached.part (reached : Reached usage node)
    (entered : Gives ((traversal context).enterNode usage node) (some carried))
    {slot : Slot} {child : Node} (part : (slot, child) ∈ node.parts) :
    Reached (carried slot) child := by
  cases node with
  | expr expr =>
    cases expr
    case cast | paren =>
      obtain rfl := (Prod.mk.inj (List.mem_singleton.1 part)).2
      exact .inr ⟨_, rfl⟩
    all_goals exact .inl (congrFun (carried_of_enter (by cases usage <;> rfl) entered) slot)
  | stmt stmt =>
    obtain rfl := reached.value (by rintro _ ⟨⟩)
    obtain rfl := Option.some.inj entered
    cases stmt
    case expr value =>
      obtain rfl := (Prod.mk.inj (List.mem_singleton.1 part)).2
      exact .inr ⟨value, rfl⟩
    all_goals cases slot <;> exact .inl rfl
  | attr | member | decl | unit =>
    obtain rfl := reached.value (by rintro _ ⟨⟩)
    obtain rfl := Option.some.inj entered
    exact .inl rfl

/-! ## Calls -/

/-- A call with everything in it narrowed, and not the call itself. -/
def partsNarrowed (context : Context) : Expr → Expr
  | .invoke note callee typeArgs args signature =>
    .invoke note (narrowed context .value callee) typeArgs (args.map (narrowed context .value))
      signature
  | expr => expr

/-- An expression that is a call under its parentheses is one of a callee to arguments. -/
theorem exists_invoke {value : Expr} (isCall : value.isInvoke = true) :
    ∃ note callee typeArgs args signature,
      value.stripParens = .invoke note callee typeArgs args signature := by
  rw [Expr.isInvoke] at isCall
  split at isCall
  case h_1 note callee typeArgs args signature same => exact ⟨_, _, _, _, _, same⟩
  case h_2 => cases isCall

/-- A call whose result is used gets the cast that it needs, inside its parentheses. -/
theorem stripParens_narrowed_call (context : Context) {value : Expr}
    (isCall : value.isInvoke = true) : (narrowed context .value value).stripParens =
      match castTarget? context value.stripParens with
      | none => partsNarrowed context value.stripParens
      | some required => (withDeclaredType (partsNarrowed context value.stripParens)).castTo
          required := by
  obtain ⟨note, callee, typeArgs, args, signature, same⟩ := exists_invoke isCall
  rw [stripParens_narrowed, same, partsNarrowed, ← castTarget?_parts]
  rcases narrowed_invoke_cases context note callee typeArgs args signature with
    ⟨accepted, kept⟩ | ⟨required, needed, cast⟩
  · rw [accepted, kept]
  · rw [needed, cast]

/-- Only calls need a cast. -/
theorem isInvoke_of_castTarget? {value : Expr} {required : Ty}
    (needed : castTarget? context value.stripParens = some required) : value.isInvoke = true := by
  obtain ⟨note, callee, typeArgs, args, signature, same, -⟩ := exists_invoke_of_castTarget? needed
  rw [Expr.isInvoke, same]

/-! ## Places -/

section Places

variable {ρ α : Type} {below : ρ → Node → ρ} {found : ρ → Node → List α} {change : α → α}

/-- Places that narrowing leaves where they are: it changes what is found at a node as `change`
says, and neither parentheses nor a cast is a place. -/
structure Followed (context : Context) (below : ρ → Node → ρ) (found : ρ → Node → List α)
    (change : α → α) : Prop where
  scope {env : ρ} {node rebuilt : Node} :
    node.shell = rebuilt.shell → below env node = below env rebuilt
  rebuilt {env : ρ} {usage : Usage} {carried : Slot → Usage} {node rebuilt : Node} :
    Reached usage node → Gives ((traversal context).enterNode usage node) (some carried) →
      Node.Matches ((traversal context).Replaces carried) node rebuilt →
      found env rebuilt = (found env node).map change
  paren (env : ρ) (note : Note) (inner : Expr) :
    found env (.expr (.paren note inner)) = [] ∧ below env (.expr (.paren note inner)) = env
  cast (env : ρ) (target : Ty) (operand : Expr) :
    found env (.expr (operand.castTo target)) = [] ∧ below env (.expr (operand.castTo target)) = env
  declared (env : ρ) (call : Expr) :
    found env (.expr (withDeclaredType call)) = found env (.expr call) ∧
      below env (.expr (withDeclaredType call)) = below env (.expr call)

/-- A call that is given its declared type keeps its parts. -/
theorem parts_withDeclaredType (call : Expr) : (withDeclaredType call).parts = call.parts := by
  fun_cases withDeclaredType call <;> rfl

namespace Followed

/-- Leaving an expression keeps the places in it. -/
theorem gather_leave (followed : Followed context below found change) (env : ρ) (usage : Usage)
    (expr : Expr) : Node.gather below found env (.expr (leave context usage expr)) =
      Node.gather below found env (.expr expr) := by
  rcases leave_cases usage expr with same | ⟨-, note, paren⟩ | ⟨-, required, -, cast⟩
  · rw [same]
  · obtain ⟨nothing, around⟩ := followed.paren env note (leave context usage expr)
    conv_rhs => rw [paren, Node.gather_eq, nothing, around]
    exact (List.append_nil _).symm
  · obtain ⟨nothing, around⟩ := followed.cast env required (withDeclaredType expr)
    obtain ⟨sameHere, sameScope⟩ := followed.declared env expr
    have inCast : (Node.expr ((withDeclaredType expr).castTo required)).children =
        [.expr (withDeclaredType expr)] := rfl
    have sameParts : (Node.expr (withDeclaredType expr)).children = (Node.expr expr).children :=
      congrArg (List.map Prod.snd) (parts_withDeclaredType expr)
    rw [cast, Node.gather_eq, nothing, around, inCast, List.nil_append, List.flatMap_singleton,
      Node.gather_eq, sameHere, sameScope, sameParts, ← Node.gather_eq]

/-- The places of the result are those of the source, one by one. -/
theorem walk (followed : Followed context below found change) (node : Node) {result : Node}
    (reached : Reached usage node) (walked : Gives ((traversal context).node usage node) result)
    (env : ρ) :
    Node.gather below found env result = (Node.gather below found env node).map change := by
  induction node using Node.induct generalizing usage result env with
  | step node inductionHypothesis =>
    rcases DeclTraversal.node_matches walked with
      ⟨skipped, -⟩ | ⟨carried, rebuilt, entered, matched, left⟩
    · exact absurd skipped (thorough context usage node)
    · have inside : Node.Matches (fun _ child replacement =>
          Node.gather below found (below env node) replacement =
            (Node.gather below found (below env node) child).map change) node rebuilt :=
        matched.imp fun part replaced => inductionHypothesis _ (Node.mem_children_of_part part)
          (reached.part entered part) replaced _
      have same : Node.gather below found env rebuilt =
          (Node.gather below found env node).map change := by
        rw [Node.gather_eq, Node.gather_eq env node, List.map_append, ← inside.flatMap,
          followed.rebuilt reached entered matched, followed.scope matched.shell]
      rw [← same]
      cases rebuilt with
      | expr root =>
        obtain rfl : Node.expr (leave context usage root) = result := left
        exact followed.gather_leave env usage root
      | stmt root | attr root | member root | decl root | unit root =>
        obtain rfl := left
        rfl

/-- The places of a narrowed unit are those of the unit, one by one. -/
theorem unit (followed : Followed context below found change) (env : ρ) (source : SourceUnit) :
    Node.gather below found env (.unit (KnownCalls.unit context source)) =
      (Node.gather below found env (.unit source)).map change :=
  followed.walk (.unit source) (.inl rfl) rfl env

end Followed

end Places

end Lowering.KnownCalls

end ScriptSharp
