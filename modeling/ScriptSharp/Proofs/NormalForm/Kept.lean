import ScriptSharp.Lowering.KnownCalls
import ScriptSharp.Proofs.Coercion.Casts
import ScriptSharp.Proofs.NormalForm.Forms
import ScriptSharp.Proofs.ValueChain.Survivors

/-!
# Steps that keep references resolved

Casts, the blocks for changes through copies, and the narrowing of known calls put new expressions
around old ones and repeat some of them. None of it takes a type away from a static member or makes
a callee of one.
-/

namespace ScriptSharp

/-! ## Casts -/

namespace Lowering.Coercion

open Outcome Node

variable {types : TypeTable} {holds : Expr → Prop}

/-- An expression with casts around its parts keeps a stable property. -/
theorem holds_leave (stable : Stable holds) {expr result : Expr}
    (left : leave types expr = .ok result) (here : holds expr) : holds result := by
  cases expr
  case invoke =>
    obtain rfl := Except.ok.inj left
    exact stable.invoke here
  case assign =>
    rcases coerceAssign_cases left with ⟨-, casts⟩ | ⟨_, -, -, rfl⟩
    · have shell := Node.expr.inj casts.shell
      cases result <;> simp only [Expr.shell, reduceCtorEq] at shell
      exact stable.plain rfl
    · exact stable.plain rfl
  case construct signature =>
    cases signature <;>
    · obtain rfl := Except.ok.inj left
      exact stable.plain rfl
  case binary | array =>
    obtain rfl := Except.ok.inj left
    exact stable.plain rfl
  all_goals
    obtain rfl := Except.ok.inj left
    exact here

/-- An expression with casts around its parts keeps its head. -/
theorem head_leave {expr result : Expr} (left : leave types expr = .ok result) :
    expr.head = result.head := by
  cases expr
  case assign =>
    rcases coerceAssign_cases left with ⟨-, casts⟩ | ⟨_, -, -, rfl⟩
    · have shell := Node.expr.inj casts.shell
      cases result <;> simp only [Expr.shell, reduceCtorEq] at shell
      rfl
    · rfl
  case construct signature => cases signature <;> exact Except.ok.inj left ▸ rfl
  all_goals exact Except.ok.inj left ▸ rfl

/-- A cast around a part keeps a stable property of it. -/
theorem allExprs_casted (stable : Stable holds) {child replacement : Node}
    (casted : Casted types child replacement) (all : AllExprs holds child) :
    AllExprs holds replacement := by
  cases casted with
  | unchanged => exact all
  | cast => exact allExprs_castTo.2 ⟨stable.plain rfl, all⟩

/-- Putting casts in keeps every stable property. -/
theorem passing (types : TypeTable) (stable : Stable holds) : Passing (traversal types).Walks
    (traversal types).Finishes (OfExpr holds) (OfExpr holds) where
  opens := by
    rintro source result ⟨returned, walked⟩
    obtain ⟨rebuilt, matched, left⟩ := walk_matches walked
    exact .inr ⟨rebuilt, matched.imp fun _ replaced => ⟨_, replaced⟩, returned, left⟩
  agrees := stable.agreesNode
  head := by
    rintro rebuilt result ⟨_, left⟩
    cases rebuilt with
    | expr root =>
      obtain ⟨final, leftRoot, same⟩ := gives_bind.1 left
      obtain rfl := gives_pure.1 same
      exact head_leave leftRoot
    | _ =>
      obtain rfl := gives_pure.1 left
      rfl
  leaves := by
    rintro rebuilt result ⟨_, left⟩ here inside
    have holdsResult : OfExpr holds result := by
      cases rebuilt with
      | expr root =>
        obtain ⟨final, leftRoot, same⟩ := gives_bind.1 left
        obtain rfl := gives_pure.1 same
        exact holds_leave stable leftRoot here
      | _ =>
        obtain rfl := gives_pure.1 left
        trivial
    refine allExprs_iff.2 ⟨holdsResult, fun child member => ?_⟩
    rcases leaveNode_cases left with ⟨-, casts⟩ | ⟨note, op, target, value, rfl, -, rfl⟩
    · obtain ⟨_, origin, originOf, casted⟩ := casts.exists_source member
      exact allExprs_casted stable casted (inside origin originOf)
    · obtain ⟨-, allTarget, allValue⟩ := allExprs_assign.1 (allExprs_expr.2 ⟨here, inside⟩)
      have all : AllExprs holds (.expr (writtenOut note op target value)) := by
        simp only [writtenOut, operation, allExprs_assign, allExprs_castTo, allExprs_binary]
        exact ⟨stable.plain rfl, allTarget, stable.plain rfl, stable.plain rfl, allTarget, allValue⟩
      exact all.inside member

/-- Putting in the casts of a unit keeps what is known of all its expressions. -/
theorem unit_allExprs (stable : Stable holds) {unit result : SourceUnit}
    (lowered : Coercion.unit types unit = .ok result) (all : AllExprs holds (.unit unit))
    (noGlobals : unit.globals = []) : AllExprs holds (.unit result) ∧ result.globals = [] := by
  have walked : Gives ((traversal types).unit none unit) result := lowered
  exact ⟨((passing types stable).throughout (DeclTraversal.walks_unit walked) all).1,
    DeclTraversal.unit_globals walked noGlobals⟩

/-- Putting casts into a single member keeps every stable property. -/
theorem member_allExprs (stable : Stable holds) {member result : Member}
    (lowered : Coercion.member types member = .ok result)
    (all : AllExprs holds (.member member)) : AllExprs holds (.member result) := by
  have walks : (traversal types).Walks (.member member) (.member result) :=
    ⟨none, gives_bind.2 ⟨result, lowered, gives_pure.2 rfl⟩⟩
  exact ((passing types stable).throughout walks all).1

/-- Dropping the attributes of fields does not disturb the casts in a member. -/
theorem member_withoutFieldAttributes {member result : Member}
    (lowered : Coercion.member types member = .ok result) :
    Coercion.member types member.withoutFieldAttributes = .ok result.withoutFieldAttributes := by
  have walked : Gives ((traversal types).member none member) result := lowered
  refine DeclTraversal.member_withoutFieldAttributes ?_ (fun finished _ left => ?_) walked
  · cases member <;> rfl
  · obtain rfl := gives_pure.1 left
    cases finished <;> rfl

end Lowering.Coercion

/-! ## Changes through copies -/

namespace Lowering.ValueChain

open Outcome Node

variable {types : TypeTable}

/-- A static member can only be the first access behind a type. -/
def Linked (root : Expr) : List Segment → Prop
  | [] => True
  | first :: rest => (first.binding.isStatic = true → root.head = .typeName) ∧
    ∀ segment ∈ rest, segment.binding.isStatic = false

/-- Accesses of objects are linked to any root. -/
theorem linked_of_instance (root : Expr) {segments : List Segment}
    (ofObjects : ∀ segment ∈ segments, segment.binding.isStatic = false) :
    Linked root segments := by
  cases segments with
  | nil => trivial
  | cons first rest =>
    obtain ⟨firstOf, restOf⟩ := List.forall_mem_cons.1 ofObjects
    exact ⟨by simp [firstOf], restOf⟩

/-- A type has no run in front of it. -/
theorem run_of_typeName (types : TypeTable) {expr : Expr} (names : expr.head = .typeName) :
    (run types expr).2 = [] ∧ (run types expr).1.head = .typeName := by
  fun_induction run types expr with
  | case1 note inner inductionHypothesis => exact inductionHypothesis names
  | case2 | case3 => cases names
  | case4 => exact ⟨rfl, names⟩

/-- The accesses of a run follow each other as they did before it was taken apart. -/
theorem resolved_run (types : TypeTable) {expr : Expr} (all : AllExprs Expr.Resolved (.expr expr)) :
    AllExprs Expr.Resolved (.expr (run types expr).1) ∧
      Linked (run types expr).1 (run types expr).2 := by
  fun_induction run types expr with
  | case1 note inner inductionHypothesis => exact inductionHypothesis (allExprs_paren.1 all).2
  | case2 note target name binding copied inductionHypothesis =>
    obtain ⟨here, allTarget⟩ := allExprs_member.1 all
    obtain ⟨allRoot, linked⟩ := inductionHypothesis allTarget
    refine ⟨allRoot, ?_⟩
    cases isStatic : binding.isStatic with
    | true =>
      obtain ⟨first, names⟩ := run_of_typeName types (here.received isStatic)
      rw [first]
      exact ⟨fun _ => names, by simp⟩
    | false =>
      cases segments : (run types target).2 with
      | nil => exact ⟨fun shared => absurd shared (by simp [isStatic]), by simp⟩
      | cons first rest =>
        rw [segments] at linked
        exact ⟨linked.1, List.forall_mem_append.2 ⟨linked.2, by simpa using isStatic⟩⟩
  | case3 | case4 => exact ⟨all, trivial⟩

/-- A variable is resolved. -/
theorem resolved_localRef (name : String) (ty : Ty) :
    AllExprs Expr.Resolved (.expr (.localRef name ty)) :=
  allExprs_ident.2 ⟨trivial, trivial⟩

/-- Everything that is made for a run is resolved when what the run starts from is. -/
theorem resolved_steps (segments : List Segment) (number : Nat) {receiver : Expr}
    (all : AllExprs Expr.Resolved (.expr receiver)) (linked : Linked receiver segments) :
    (∀ stmt ∈ (steps number receiver segments).reads, AllExprs Expr.Resolved (.stmt stmt)) ∧
      AllExprs Expr.Resolved (.expr (steps number receiver segments).receiver) ∧
      ∀ stmt ∈ (steps number receiver segments).writes, AllExprs Expr.Resolved (.stmt stmt) := by
  induction segments generalizing number receiver with
  | nil => simp [steps, all]
  | cons segment rest inductionHypothesis =>
    obtain ⟨received, ofObjects⟩ := linked
    have access : AllExprs Expr.Resolved
        (.expr (.member segment.note receiver segment.name segment.binding)) :=
      allExprs_member.2 ⟨⟨trivial, received⟩, all⟩
    rw [steps]
    split
    · have copy := resolved_localRef (temporaryName number) segment.note.ty
      obtain ⟨reads, inner, writes⟩ :=
        inductionHypothesis (number + 1) copy (linked_of_instance _ ofObjects)
      refine ⟨List.forall_mem_cons.2 ⟨?_, reads⟩, inner, List.forall_mem_append.2 ⟨writes, ?_⟩⟩
      · simpa [declareTemporary] using access
      · simp only [List.forall_mem_singleton, allExprs_exprStmt, Expr.assignTo, allExprs_assign]
        exact ⟨⟨trivial, trivial⟩, access, copy⟩
    · exact inductionHypothesis number access (linked_of_instance _ ofObjects)

/-- The block of a change is resolved when its value, its root and its accesses are. -/
theorem resolved_blockBody {change : Change} {root : Expr} {segments : List Segment} {ty : Ty}
    {span changeSpan : Span} {name : Ident} {binding : MemberBinding}
    (allValue : ∀ value, change.value? = some value → AllExprs Expr.Resolved (.expr value))
    (allRoot : AllExprs Expr.Resolved (.expr root)) (linked : Linked root segments)
    (ofObject : binding.isStatic = false) :
    ∀ stmt ∈ blockBody change root segments ty span changeSpan name binding,
      AllExprs Expr.Resolved (.stmt stmt) := by
  obtain ⟨reads, inner, writes⟩ := resolved_steps segments change.firstCopy allRoot linked
  have assigned : AllExprs Expr.Resolved (.expr (.member ⟨ty, span⟩
      (steps change.firstCopy root segments).receiver name binding)) :=
    allExprs_member.2 ⟨⟨trivial, fun shared => absurd shared (by simp [ofObject])⟩, inner⟩
  simp only [blockBody, List.forall_mem_append, List.forall_mem_singleton, allExprs_exprStmt]
  refine ⟨⟨⟨?_, reads⟩, ?_⟩, writes⟩
  · cases change with
    | assign op value => simpa [Change.opening, declareTemporary] using allValue value rfl
    | step => simp [Change.opening]
  · cases change with
    | assign => exact allExprs_assign.2 ⟨⟨trivial, trivial⟩, assigned, resolved_localRef _ _⟩
    | step => exact allExprs_unary.2 ⟨⟨trivial, trivial⟩, assigned⟩

/-- A change is resolved if its target and its value are. -/
theorem resolved_change {change : Change} {note : Note} {target : Expr}
    (all : AllExprs Expr.Resolved (.expr (change.expr note target))) :
    AllExprs Expr.Resolved (.expr target) ∧
      ∀ value, change.value? = some value → AllExprs Expr.Resolved (.expr value) := by
  cases change with
  | assign op value =>
    obtain ⟨-, allTarget, allValue⟩ := allExprs_assign.1 all
    exact ⟨allTarget, by rintro _ ⟨⟩; exact allValue⟩
  | step op steps => exact ⟨(allExprs_unary.1 all).2, nofun⟩

/-- The member behind the parentheses of a resolved target is resolved. -/
theorem resolved_memberTarget {target receiver : Expr} {note : Note} {name : Ident}
    {binding : MemberBinding} (all : AllExprs Expr.Resolved (.expr target))
    (assigned : memberTarget? target = some (note, receiver, name, binding)) :
    AllExprs Expr.Resolved (.expr (.member note receiver name binding)) := by
  have stripped := allExprs_stripParens all
  unfold memberTarget? at assigned
  split at assigned
  · rename_i same
    cases assigned
    rwa [same] at stripped
  · cases assigned

/-- Taking a resolved statement apart leaves it resolved. -/
theorem resolved_leaveStmt {stmt result : Stmt} (left : leaveStmt types stmt = .ok result)
    (all : AllExprs Expr.Resolved (.stmt stmt)) : AllExprs Expr.Resolved (.stmt result) := by
  rcases leaveStmt_cases left with ⟨rfl, -⟩ | ⟨change, note, target, rfl, chained⟩
  · exact all
  · obtain ⟨memberNote, receiver, name, binding, assigned, crosses⟩ := isChained_iff.1 chained
    obtain ⟨allTarget, allValue⟩ := resolved_change (allExprs_exprStmt.1 all)
    obtain ⟨here, allReceiver⟩ := allExprs_member.1 (resolved_memberTarget allTarget assigned)
    -- The assigned member lies behind a copy, and a static one lies behind nothing.
    have ofObject : binding.isStatic = false := by
      by_contra isStatic
      have noRun := (run_of_typeName types (here.received (by simpa using isStatic))).1
      rw [crossesCopy, noRun] at crosses
      cases crosses
    obtain ⟨allRoot, linked⟩ := resolved_run types allReceiver
    rw [leaveStmt_change assigned chained left, allExprs_block]
    exact resolved_blockBody allValue allRoot linked ofObject

/-- Taking assignments apart keeps expressions resolved. -/
theorem passing (types : TypeTable) : Passing (traversal types).Walks (traversal types).Finishes
    (OfExpr Expr.Resolved) (OfExpr Expr.Resolved) where
  opens walks := walks.opens.imp_left fun same => ⟨same, id⟩
  agrees := stable_resolved.agreesNode
  head := by
    rintro rebuilt result ⟨_, left⟩
    rcases leaveNode_cases left with ⟨_, _, rfl, rfl, -⟩ | ⟨-, rfl⟩ <;> rfl
  leaves := by
    rintro rebuilt result ⟨_, left⟩ here inside
    have all : AllExprs Expr.Resolved rebuilt := allExprs_iff.2 ⟨here, inside⟩
    rcases leaveNode_cases left with ⟨_, _, rfl, rfl, leftStmt⟩ | ⟨-, rfl⟩
    · exact resolved_leaveStmt leftStmt all
    · exact all

/-- Taking assignments apart keeps a unit resolved, and adds no statements at top level. -/
theorem unit_resolved {unit result : SourceUnit} (lowered : ValueChain.unit types unit = .ok result)
    (all : AllExprs Expr.Resolved (.unit unit)) (noGlobals : unit.globals = []) :
    AllExprs Expr.Resolved (.unit result) ∧ result.globals = [] := by
  have walked : Gives ((traversal types).unit .value unit) result := lowered
  exact ⟨((passing types).throughout (DeclTraversal.walks_unit walked) all).1,
    DeclTraversal.unit_globals walked noGlobals⟩

end Lowering.ValueChain

/-! ## Known calls -/

namespace Lowering.KnownCalls

open Outcome Node

variable {context : Context} {usage : Usage}

/-- A call with its declared type is still resolved. -/
theorem resolved_withDeclaredType {expr : Expr} (all : AllExprs Expr.Resolved (.expr expr)) :
    AllExprs Expr.Resolved (.expr (withDeclaredType expr)) := by
  unfold withDeclaredType
  split
  · obtain ⟨here, parts⟩ := allExprs_invoke.1 all
    exact allExprs_invoke.2 ⟨stable_resolved.invoke here, parts⟩
  · exact all

/-- A resolved expression stays resolved when its call gets a cast. -/
theorem resolved_leave {expr : Expr} (all : AllExprs Expr.Resolved (.expr expr)) :
    AllExprs Expr.Resolved (.expr (leave context usage expr)) := by
  unfold leave
  split
  · exact (allExprs_paren.1 all).2
  · exact all
  · split
    · exact allExprs_castTo.2 ⟨⟨trivial, trivial⟩, resolved_withDeclaredType all⟩
    · exact all

/-- Only calls get casts. -/
theorem head_leave (expr : Expr) : expr.head = (leave context usage expr).head := by
  unfold leave
  split
  · rfl
  · rfl
  · cases expr
    case invoke => split <;> rfl
    all_goals rfl

/-- Casting the results of known calls keeps expressions resolved. -/
theorem passing (context : Context) : Passing (traversal context).Walks
    (traversal context).Finishes (OfExpr Expr.Resolved) (OfExpr Expr.Resolved) := by
  refine DeclTraversal.passing_stepping (fun usage expr => ?_) stable_resolved.agreesNode
    (fun _ => head_leave) fun _ _ here inside => resolved_leave (allExprs_expr.2 ⟨here, inside⟩)
  unfold enter
  split
  · split <;> exact nofun
  · exact nofun
  · exact nofun

/-- Casting the results of known calls keeps a unit resolved, and adds no statements at top
level. -/
theorem unit_resolved (context : Context) {unit : SourceUnit}
    (all : AllExprs Expr.Resolved (.unit unit)) (noGlobals : unit.globals = []) :
    AllExprs Expr.Resolved (.unit (KnownCalls.unit context unit)) ∧
      (KnownCalls.unit context unit).globals = [] := by
  have walked : Gives ((traversal context).unit .value unit) (KnownCalls.unit context unit) := rfl
  exact ⟨((passing context).throughout (DeclTraversal.walks_unit walked) all).1,
    DeclTraversal.unit_globals walked noGlobals⟩

end Lowering.KnownCalls

end ScriptSharp
