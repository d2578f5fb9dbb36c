import ScriptSharp.Proofs.Tree.Walk
import ScriptSharp.Proofs.ValueChain.Blocks

/-!
# Changes through copies that are left

A change through a copy is lost, so none should be left. The walk takes apart those that are
statements of their own, and refuses assignments that are used for their value. Two kinds get past
it: steps up or down that are used for their value, and whatever stands in the target of a change
that is taken apart, since that target is kept as it is. `Convertible` says that a node has neither,
and `unit_unchained_iff` that this is exactly when nothing is left.
-/

namespace ScriptSharp.Lowering.ValueChain

open Outcome Node

variable {types : TypeTable}

/-- The node itself changes nothing through a copy. -/
def Unchained (types : TypeTable) (node : Node) : Prop :=
  ∀ expr, node = .expr expr → changesCopy types expr = false

/-- Everything that the node changes through copies can be taken apart. -/
structure Convertible (types : TypeTable) (node : Node) : Prop where
  /-- A change through a copy is a statement of its own. -/
  alone {expr : Expr} : .expr expr ∈ node.children → changesCopy types expr = true →
    node = .stmt (.expr expr)
  /-- There is no other one in its target. -/
  target {expr target : Expr} : node = .stmt (.expr expr) → changed? expr = some target →
    isChained types target = true → Throughout (Unchained types) (.expr target)

/-! ## Unchained nodes -/

/-- An expression changes nothing through a copy if it is no such change. -/
theorem unchained_expr {expr : Expr} :
    Unchained types (.expr expr) ↔ changesCopy types expr = false := by
  simp [Unchained]

theorem unchained_stmt (stmt : Stmt) : Unchained types (.stmt stmt) := nofun

/-- Parentheses change nothing through a copy. -/
theorem throughout_paren {note : Note} {inner : Expr} :
    Throughout (Unchained types) (.expr (.paren note inner)) ↔
      Throughout (Unchained types) (.expr inner) := by
  rw [throughout_iff, unchained_expr]
  simp [children, parts, Expr.parts, Part.value, changesCopy, changed?]

/-- A member access changes nothing through a copy. -/
theorem throughout_member {note : Note} {target : Expr} {name : Ident} {binding : MemberBinding} :
    Throughout (Unchained types) (.expr (.member note target name binding)) ↔
      Throughout (Unchained types) (.expr target) := by
  rw [throughout_iff, unchained_expr]
  simp [children, parts, Expr.parts, Part.value, changesCopy, changed?]

/-- A variable changes nothing through a copy. -/
theorem throughout_localRef (name : String) (ty : Ty) :
    Throughout (Unchained types) (.expr (.localRef name ty)) :=
  .node (unchained_expr.2 rfl) (by simp [children, parts, Expr.parts, Expr.localRef])

/-- Nothing is left in a run when nothing is left in its root. -/
theorem throughout_run (expr : Expr) : Throughout (Unchained types) (.expr expr) ↔
    Throughout (Unchained types) (.expr (run types expr).1) := by
  fun_induction run types expr with
  | case1 note inner inductionHypothesis => rw [throughout_paren, inductionHypothesis]
  | case2 note target name binding copied inductionHypothesis =>
    rw [throughout_member, inductionHypothesis]
  | case3 => rfl
  | case4 => rfl

/-- What is changed through copies in a target is changed in its receiver. -/
theorem throughout_memberTarget {target receiver : Expr} {note : Note} {name : Ident}
    {binding : MemberBinding}
    (assigned : memberTarget? target = some (note, receiver, name, binding)) :
    Throughout (Unchained types) (.expr target) ↔
      Throughout (Unchained types) (.expr receiver) := by
  induction target using Expr.stripParens.induct with
  | case1 parenNote inner inductionHypothesis =>
    rw [throughout_paren, inductionHypothesis assigned]
  | case2 target noParen =>
    cases target
    case paren => exact (noParen _ _ rfl).elim
    case member =>
      simp only [memberTarget?, Expr.stripParens, Option.some.injEq, Prod.mk.injEq] at assigned
      obtain ⟨-, rfl, -⟩ := assigned
      exact throughout_member
    all_goals cases assigned

/-! ## Blocks -/

/-- What is changed through copies in the declaration of a temporary is changed in its value. -/
theorem throughout_declareTemporary {number : Nat} {ty : Ty} {init : Expr} :
    Throughout (Unchained types) (.stmt (declareTemporary number ty init)) ↔
      Throughout (Unchained types) (.expr init) := by
  rw [throughout_iff]
  simp [children, parts, Stmt.parts, Part.value, declareTemporary, unchained_stmt]

/-- What is changed through copies in an expression statement is changed in its expression. -/
theorem throughout_exprStmt {expr : Expr} : Throughout (Unchained types) (.stmt (.expr expr)) ↔
    Throughout (Unchained types) (.expr expr) := by
  rw [throughout_iff]
  simp [children, parts, Stmt.parts, Part.value, unchained_stmt]

/-- What is changed through copies in a block is changed in its statements. -/
theorem throughout_block {body : List Stmt} : Throughout (Unchained types) (.stmt (.block body)) ↔
    ∀ stmt ∈ body, Throughout (Unchained types) (.stmt stmt) := by
  rw [throughout_iff]
  simp [children, parts, Stmt.parts, Part.stmt, unchained_stmt]

/-- Writing a copy back to a member is safe when the member is not reached through a copy itself. -/
theorem throughout_writeBack {note : Note} {receiver : Expr} {name : Ident}
    {binding : MemberBinding} {temporary : String} {ty : Ty}
    (direct : crossesCopy types receiver = false) :
    Throughout (Unchained types) (.stmt (.expr
        (Expr.assignTo (.member note receiver name binding) (.localRef temporary ty)))) ↔
      Throughout (Unchained types) (.expr receiver) := by
  rw [throughout_exprStmt, throughout_iff, unchained_expr]
  simp [children, parts, Expr.parts, Part.value, Part.target, changesCopy, changed?,
    Expr.assignTo, isChained_member, direct, throughout_member, throughout_localRef]

theorem crossesCopy_localRef (name : String) (ty : Ty) :
    crossesCopy types (.localRef name ty) = false := rfl

/-- A field of something that is not reached through a copy is not reached through one either. -/
theorem crossesCopy_access {segment : Segment} {receiver : Expr}
    (inPlace : segment.isProperty = false) (direct : crossesCopy types receiver = false) :
    crossesCopy types (.member segment.note receiver segment.name segment.binding) = false := by
  rw [crossesCopy] at direct ⊢
  cases copied : types.isValueType segment.note.ty with
  | true => rw [run_member_of_value _ _ _ copied, List.any_append, direct]; simpa using inPlace
  | false => rw [run_member_of_reference _ _ _ copied]; rfl

/-- The innermost copy is not reached through another one. -/
theorem crossesCopy_steps (segments : List Segment) {number : Nat} {receiver : Expr}
    (direct : crossesCopy types receiver = false) :
    crossesCopy types (steps number receiver segments).receiver = false := by
  induction segments generalizing number receiver with
  | nil => exact direct
  | cons segment rest inductionHypothesis =>
    rw [steps]
    split
    · exact inductionHypothesis (crossesCopy_localRef _ _)
    case isFalse inPlace =>
      exact inductionHypothesis (crossesCopy_access (by simpa using inPlace) direct)

/-- Everything that is made for a run stems from what the run starts from. -/
theorem throughout_steps (segments : List Segment) (number : Nat) {receiver : Expr}
    (direct : crossesCopy types receiver = false) :
    ((∀ stmt ∈ (steps number receiver segments).reads,
        Throughout (Unchained types) (.stmt stmt)) ∧
      Throughout (Unchained types) (.expr (steps number receiver segments).receiver) ∧
      ∀ stmt ∈ (steps number receiver segments).writes,
        Throughout (Unchained types) (.stmt stmt)) ↔
      Throughout (Unchained types) (.expr receiver) := by
  induction segments generalizing number receiver with
  | nil => simp [steps]
  | cons segment rest inductionHypothesis =>
    rw [steps]
    split
    · obtain ⟨reads, copy, writes⟩ :=
        (inductionHypothesis (number + 1) (crossesCopy_localRef _ segment.note.ty)).2
          (throughout_localRef (temporaryName number) _)
      simp only [List.forall_mem_cons, List.forall_mem_append, List.not_mem_nil, false_implies,
        forall_const, and_true, throughout_declareTemporary, throughout_member,
        throughout_writeBack direct]
      constructor
      · rintro ⟨⟨holds, -⟩, -⟩
        exact holds
      · intro holds
        exact ⟨⟨holds, reads⟩, copy, writes, holds⟩
    case isFalse inPlace =>
      rw [inductionHypothesis number (crossesCopy_access (by simpa using inPlace) direct),
        throughout_member]

/-- The change of a copy that stands in a temporary is no change through a copy. -/
theorem throughout_onCopy {change : Change} {span : Span} {note : Note} {receiver : Expr}
    {name : Ident} {binding : MemberBinding} (direct : crossesCopy types receiver = false) :
    Throughout (Unchained types) (.expr (change.onCopy span (.member note receiver name binding))) ↔
      Throughout (Unchained types) (.expr receiver) := by
  rw [throughout_iff, unchained_expr]
  cases change with
  | assign op value =>
    simp [children, parts, Expr.parts, Part.value, Part.target, changesCopy, changed?,
      Change.onCopy, isChained_member, direct, throughout_member, throughout_localRef]
  | step op steps =>
    simp [children, parts, Expr.parts, Part.value, changesCopy, changed?, Change.onCopy,
      isChained_member, direct, throughout_member, steps]

/-- The first statement of a block changes what the assigned value changes. -/
theorem throughout_opening {change : Change} {ty : Ty} :
    (∀ stmt ∈ change.opening ty, Throughout (Unchained types) (.stmt stmt)) ↔
      ∀ value, change.value? = some value → Throughout (Unchained types) (.expr value) := by
  cases change <;> simp [Change.opening, Change.value?, throughout_declareTemporary]

/-- What is left in the block of a change stands in its value or in its root. -/
theorem throughout_blockBody {change : Change} {root : Expr} {segments : List Segment} {ty : Ty}
    {span changeSpan : Span} {name : Ident} {binding : MemberBinding}
    (direct : crossesCopy types root = false) :
    Throughout (Unchained types)
        (.stmt (.block (blockBody change root segments ty span changeSpan name binding))) ↔
      (∀ value, change.value? = some value → Throughout (Unchained types) (.expr value)) ∧
        Throughout (Unchained types) (.expr root) := by
  rw [throughout_block, ← throughout_steps segments change.firstCopy direct]
  simp only [blockBody, List.forall_mem_append, List.forall_mem_singleton, throughout_exprStmt,
    throughout_onCopy (crossesCopy_steps segments direct), throughout_opening, and_assoc]

/-- What is left of a change that is taken apart stands in its value or in its target. -/
theorem throughout_leaveStmt {change : Change} {note : Note} {target : Expr} {result : Stmt}
    (chained : isChained types target = true)
    (left : leaveStmt types (.expr (change.expr note target)) = .ok result) :
    Throughout (Unchained types) (.stmt result) ↔
      (∀ value, change.value? = some value → Throughout (Unchained types) (.expr value)) ∧
        Throughout (Unchained types) (.expr target) := by
  obtain ⟨memberNote, receiver, name, binding, assigned, -⟩ := isChained_iff.1 chained
  have direct : crossesCopy types (run types receiver).1 = false := by
    rw [crossesCopy, run_root]
    rfl
  rw [leaveStmt_change assigned chained left, throughout_blockBody direct,
    throughout_memberTarget assigned, throughout_run receiver]

/-! ## Convertible nodes -/

/-- Where nothing is changed through copies, nothing has to be taken apart. -/
theorem convertible_of_unchained (node : Node) (unchained : Throughout (Unchained types) node) :
    Throughout (Convertible types) node := by
  induction node using Node.induct with
  | step node inductionHypothesis =>
    refine .node ⟨fun member changes => ?_, fun same changes chained => ?_⟩ fun child member =>
      inductionHypothesis child member (unchained.inside member)
    · have safe := unchained_expr.1 (unchained.inside member).here
      rw [safe] at changes
      cases changes
    · subst same
      have safe := unchained_expr.1 (throughout_exprStmt.1 unchained).here
      simp [changesCopy, changes, chained] at safe

/-- A node that is no statement made of an expression is convertible when its parts are used for
their values and change nothing through copies. -/
theorem convertible_iff {node : Node} (used : ∀ expr, node ≠ .stmt (.expr expr)) :
    Convertible types node ↔
      ∀ child ∈ node.children, ∀ expr, child = .expr expr → changesCopy types expr = false := by
  constructor
  · rintro convertible _ member expr rfl
    by_contra changes
    exact used expr (convertible.alone member (by simpa using changes))
  · intro safe
    refine ⟨fun member changes => ?_, fun same => absurd same (used _)⟩
    rw [safe _ member _ rfl] at changes
    cases changes

/-- A statement made of an expression is convertible when the target of its change is. -/
theorem convertible_exprStmt {expr : Expr} : Convertible types (.stmt (.expr expr)) ↔
    ∀ target, changed? expr = some target → isChained types target = true →
      Throughout (Unchained types) (.expr target) := by
  constructor
  · intro convertible target changes chained
    exact convertible.target rfl changes chained
  · intro targets
    refine ⟨fun {other} member _ => ?_, ?_⟩
    · simp only [children, parts, Stmt.parts, Part.value, List.map_cons, List.map_nil,
        List.mem_singleton, Node.expr.injEq] at member
      rw [member]
    · rintro _ target ⟨⟩ changes chained
      exact targets target changes chained

/-! ## The walk -/

/-- Only statements are changed when they are left. -/
theorem leaveNode_cases {usage : Usage} {node result : Node}
    (left : Gives ((traversal types).leaveNode usage node) result) :
    (∃ stmt final, node = .stmt stmt ∧ result = .stmt final ∧
        leaveStmt types stmt = .ok final) ∨ (∀ stmt, node ≠ .stmt stmt) ∧ result = node := by
  cases node with
  | stmt root =>
    obtain ⟨final, leftRoot, same⟩ := gives_bind.1 left
    exact .inl ⟨root, final, rfl, gives_pure.1 same, leftRoot⟩
  | expr root | attr root | member root | decl root =>
    obtain ⟨final, leftRoot, same⟩ := gives_bind.1 left
    obtain rfl := gives_pure.1 leftRoot
    exact .inr ⟨nofun, gives_pure.1 same⟩
  | unit root => exact .inr ⟨nofun, gives_pure.1 left⟩

/-- What is used for its value is entered, and so are its parts, for their values. -/
theorem enter_value {expr : Expr} {below : Option (Descent Usage)}
    (entered : enter types .value expr = .ok below) : below = some ⟨.value, .value⟩ := by
  cases expr
  case assign =>
    simp only [enter] at entered
    split_ifs at entered
    exact (Except.ok.inj entered).symm
  all_goals exact (Except.ok.inj entered).symm

/-- Below a node that is no expression statement every value is used. -/
theorem enterNode_value {node : Node} {carried : Option (Slot → Usage)}
    (used : ∀ expr, node ≠ .stmt (.expr expr))
    (entered : Gives ((traversal types).enterNode .value node) carried) :
    carried = some fun _ => .value := by
  cases node with
  | expr root =>
    obtain ⟨below, enteredRoot, same⟩ := gives_bind.1 entered
    rw [gives_pure.1 same, enter_value enteredRoot]
    refine congrArg some (funext fun slot => ?_)
    cases slot <;> rfl
  | stmt root =>
    rw [gives_pure.1 entered]
    refine congrArg some (funext fun slot => ?_)
    cases root
    case expr value => exact absurd rfl (used value)
    all_goals cases slot <;> rfl
  | attr root | member root | decl root | unit root => exact gives_pure.1 entered

/-- A node that is no statement made of an expression is walked by walking its parts for their
values. -/
theorem walk_value {node result : Node} (used : ∀ expr, node ≠ .stmt (.expr expr))
    (walked : Gives ((traversal types).node .value node) result) :
    Matches (fun _ child replacement => Gives ((traversal types).node .value child) replacement)
      node result := by
  rcases DeclTraversal.node_matches walked with
    ⟨skipped, -⟩ | ⟨carried, rebuilt, reached, matched, left⟩
  · cases enterNode_value used skipped
  · obtain rfl := Option.some.inj (enterNode_value used reached)
    rcases leaveNode_cases left with ⟨stmt, final, rfl, rfl, leftStmt⟩ | ⟨-, rfl⟩
    · rcases leaveStmt_cases leftStmt with ⟨rfl, -⟩ | ⟨change, note, target, rfl, -⟩
      · exact matched
      · exfalso
        have shell := matched.shell
        cases node <;> simp only [Node.shell, reduceCtorEq, Node.stmt.injEq] at shell
        case stmt root =>
          cases root <;> simp only [Stmt.shell, reduceCtorEq] at shell
          exact used _ rfl
    · exact matched

/-- A statement made of an expression is walked by walking the expression. -/
theorem walk_exprStmt {expr : Expr} {result : Node}
    (walked : Gives ((traversal types).node .value (.stmt (.expr expr))) result) :
    ∃ walkedExpr final, Gives ((traversal types).node .statement (.expr expr)) (.expr walkedExpr) ∧
      leaveStmt types (.expr walkedExpr) = .ok final ∧ result = .stmt final := by
  obtain ⟨final, walkedStmt, same⟩ := gives_bind.1 walked
  obtain ⟨walkedExpr, walkedRoot, left⟩ := gives_bind.1 walkedStmt
  exact ⟨walkedExpr, final, gives_bind.2 ⟨walkedExpr, walkedRoot, gives_pure.2 rfl⟩, left,
    gives_pure.1 same⟩

/-- It makes no difference whether an expression is a statement, unless it changes something
through a copy. -/
theorem enter_statement {expr : Expr} (safe : changesCopy types expr = false) :
    enter types .statement expr = enter types .value expr := by
  cases expr
  case assign => simp_all [enter, changesCopy, changed?]
  case unary note op operand =>
    cases steps : op.isStep <;> simp_all [enter, changesCopy, changed?]
  all_goals rfl

/-- An expression that changes no copy is walked alike as a statement and as a value. -/
theorem node_statement {expr : Expr} (safe : changesCopy types expr = false) :
    (traversal types).node .statement (.expr expr) =
      (traversal types).node .value (.expr expr) := by
  have entered : (traversal types).enter .statement expr = (traversal types).enter .value expr :=
    enter_statement safe
  simp only [DeclTraversal.node, Traversal.expr_eq_around, Traversal.around, entered]
  rfl

/-! ## Chains are kept -/

/-- What a node shows of the copies that it is reached through. -/
def chain (types : TypeTable) : Node → List Segment × Bool
  | .expr root => ((run types root).2, isChained types root)
  | _ => ([], false)

/-- The copies that an expression is reached through depend on its shell and on those of its
parts. -/
theorem chain_of_shell {left right : Expr} (shell : left.shell = right.shell)
    (parts : List.Forall₂ (Part.Related fun _ child replacement =>
      chain types child = chain types replacement) left.parts right.parts) :
    chain types (.expr left) = chain types (.expr right) := by
  cases left <;> cases right <;> simp only [Expr.shell, reduceCtorEq] at shell
  case paren.paren =>
    cases parts with
    | cons first _ => exact first.2
  case member.member note target name binding _ other _ _ =>
    simp only [Expr.member.injEq, true_and] at shell
    obtain ⟨rfl, rfl, rfl⟩ := shell
    cases parts with
    | cons first _ =>
      have sameRun : (run types target).2 = (run types other).2 := congrArg Prod.fst first.2
      have sameCross : crossesCopy types target = crossesCopy types other := by
        rw [crossesCopy, sameRun, crossesCopy]
      cases copied : types.isValueType note.ty with
      | true =>
        simp only [chain, run_member_of_value _ _ _ copied, isChained_member, sameRun, sameCross]
      | false =>
        simp only [chain, run_member_of_reference _ _ _ copied, isChained_member, sameCross]
  all_goals rfl

/-- Rebuilding a node from parts that are reached alike keeps the copies that it is reached
through. -/
theorem chain_matches {source result : Node} (matched : Matches (fun _ child replacement =>
    chain types child = chain types replacement) source result) :
    chain types source = chain types result := by
  obtain ⟨shell, parts⟩ := matched
  cases source <;> cases result <;> simp only [Node.shell, reduceCtorEq, Node.expr.injEq] at shell
  case expr.expr => exact chain_of_shell shell parts
  all_goals rfl

/-- The walk keeps the copies that a node is reached through. -/
theorem chain_walk (node : Node) {result : Node}
    (walked : Gives ((traversal types).node .value node) result) :
    chain types node = chain types result := by
  induction node using Node.induct generalizing result with
  | step node inductionHypothesis =>
    by_cases statement : ∃ expr, node = .stmt (.expr expr)
    · obtain ⟨expr, rfl⟩ := statement
      obtain ⟨_, final, -, -, rfl⟩ := walk_exprStmt walked
      rfl
    · push Not at statement
      have matched := walk_value statement walked
      refine chain_matches (matched.imp fun {slot child _} part replaced => ?_)
      exact inductionHypothesis child (mem_children_of_part part) replaced

/-- The walk keeps whether a target is reached through a copy. -/
theorem isChained_walk {expr walked : Expr}
    (walkedExpr : Gives ((traversal types).node .value (.expr expr)) (.expr walked)) :
    isChained types expr = isChained types walked :=
  congrArg Prod.snd (chain_walk (.expr expr) walkedExpr)

/-- What a node changes through a copy, it changes after the walk as well. -/
theorem unchained_walk {node result : Node} (used : ∀ expr, node ≠ .stmt (.expr expr))
    (walked : Gives ((traversal types).node .value node) result) :
    Unchained types result ↔ Unchained types node := by
  obtain ⟨shell, parts⟩ := walk_value used walked
  cases node <;> cases result <;> simp only [Node.shell, reduceCtorEq, Node.expr.injEq] at shell
  case expr.expr left right =>
    rw [unchained_expr, unchained_expr]
    cases left <;> cases right <;> simp only [Expr.shell, reduceCtorEq] at shell
    case assign.assign =>
      cases parts with
      | cons first _ => simp only [changesCopy, changed?, Option.any_some, isChained_walk first.2]
    case unary.unary =>
      simp only [Expr.unary.injEq, and_true] at shell
      obtain ⟨rfl, rfl⟩ := shell
      cases parts with
      | cons first _ =>
        simp only [changesCopy, changed?]
        split_ifs
        · simp only [Option.any_some, isChained_walk first.2]
        · rfl
    all_goals rfl
  all_goals simp [Unchained]

/-- A statement that changes nothing through a copy is walked by walking its expression for its
value. -/
theorem walk_unchanged {expr : Expr} {result : Node} (safe : changesCopy types expr = false)
    (walked : Gives ((traversal types).node .value (.stmt (.expr expr))) result) :
    ∃ walkedExpr, Gives ((traversal types).node .value (.expr expr)) (.expr walkedExpr) ∧
      result = .stmt (.expr walkedExpr) := by
  obtain ⟨walkedExpr, final, walkedRoot, left, rfl⟩ := walk_exprStmt walked
  rw [node_statement safe] at walkedRoot
  have stillSafe := (unchained_walk (by simp) walkedRoot).2 (unchained_expr.2 safe)
  refine ⟨walkedExpr, walkedRoot, congrArg Node.stmt ?_⟩
  rcases leaveStmt_cases left with ⟨same, -⟩ | ⟨change, note, target, same, chained⟩
  · exact same
  · obtain rfl := Stmt.expr.inj same
    have unsafeChange := unchained_expr.1 stillSafe
    rw [Change.changesCopy_expr, chained] at unsafeChange
    cases unsafeChange

/-! ## What is left -/

/-- A change that is taken apart is walked by walking its value. -/
theorem walk_change {change : Change} {note : Note} {target walked : Expr}
    (chained : isChained types target = true)
    (walkedExpr : Gives ((traversal types).node .statement (.expr (change.expr note target)))
      (.expr walked)) :
    ∃ walkedChange : Change, walked = walkedChange.expr note target ∧
      Option.Rel (fun value walkedValue =>
        Gives ((traversal types).node .value (.expr value)) (.expr walkedValue))
        change.value? walkedChange.value? := by
  obtain ⟨_, walkedRoot, same⟩ := gives_bind.1 walkedExpr
  obtain rfl := Node.expr.inj (gives_pure.1 same)
  rw [Traversal.expr_eq_around] at walkedRoot
  obtain ⟨below, entered, walkedRoot⟩ := gives_bind.1 walkedRoot
  cases change with
  | assign op value =>
    have descent : enter types .statement (.assign note op target value) =
        .ok (some ⟨.target, .value⟩) := by simp [enter, chained]
    obtain rfl := Except.ok.inj (descent.symm.trans entered)
    obtain ⟨rebuilt, walkedParts, left⟩ := gives_bind.1 walkedRoot
    obtain rfl := gives_pure.1 left
    obtain ⟨keptTarget, walkedTarget, walkedParts⟩ := gives_bind.1 walkedParts
    obtain ⟨walkedValue, walkedPart, rebuilds⟩ := gives_bind.1 walkedParts
    obtain rfl : keptTarget = target := by
      rw [Traversal.expr_eq_around] at walkedTarget
      exact gives_pure.1 walkedTarget
    refine ⟨.assign op walkedValue, gives_pure.1 rebuilds, .some ?_⟩
    exact gives_bind.2 ⟨walkedValue, walkedPart, gives_pure.2 rfl⟩
  | step op steps =>
    have descent : enter types .statement (.unary note op target) = .ok none := by
      simp [enter, chained, steps]
    obtain rfl := Except.ok.inj (descent.symm.trans entered)
    exact ⟨.step op steps, gives_pure.1 walkedRoot, .none⟩

/-- What is left after the walk of the node is what cannot be taken apart in it. -/
def Accounted (types : TypeTable) (node : Node) : Prop :=
  ∀ result, Gives ((traversal types).node .value node) result →
    (Throughout (Unchained types) result ↔
      Unchained types node ∧ Throughout (Convertible types) node)

/-- A node that is no expression statement is accounted for if its parts are. -/
theorem accounted_of_children {node : Node} (used : ∀ expr, node ≠ .stmt (.expr expr))
    (inside : ∀ child ∈ node.children, Accounted types child) : Accounted types node := by
  intro result walked
  have below := (walk_value used walked).imp fun {slot child replacement} part replaced =>
    (inside child (mem_children_of_part part) replacement replaced).symm
  calc Throughout (Unchained types) result
    _ ↔ Unchained types node ∧
        ∀ child ∈ node.children, Unchained types child ∧ Throughout (Convertible types) child := by
      rw [throughout_iff, unchained_walk used walked, below.forall_children_iff]
    _ ↔ Unchained types node ∧ Throughout (Convertible types) node := by
      rw [@throughout_iff (Convertible types), convertible_iff used, ← forall₂_and]
      rfl

/-- A statement that changes nothing through a copy stands for its expression. -/
theorem accounted_unchained {expr : Expr} (safe : changesCopy types expr = false)
    (whole : Accounted types (.expr expr)) : Accounted types (.stmt (.expr expr)) := by
  intro result walked
  obtain ⟨walkedExpr, walkedRoot, rfl⟩ := walk_unchanged safe walked
  have convertible : Convertible types (.stmt (.expr expr)) := by
    refine convertible_exprStmt.2 fun target changes chained => ?_
    simp [changesCopy, changes, chained] at safe
  rw [throughout_exprStmt, whole _ walkedRoot, @throughout_iff (Convertible types) (.stmt _)]
  simp [unchained_expr, safe, unchained_stmt, convertible, children, parts, Stmt.parts, Part.value]

/-- The parts of a change are its target and its value. -/
theorem children_change (change : Change) (note : Note) (target : Expr) :
    (Node.expr (change.expr note target)).children =
      .expr target :: change.value?.toList.map .expr := by
  cases change <;> rfl

/-- A change through copies can be taken apart when nothing else is changed through copies in its
target, and its value can be taken apart. -/
theorem convertible_change {change : Change} {note : Note} {target : Expr}
    (chained : isChained types target = true) :
    Throughout (Convertible types) (.stmt (.expr (change.expr note target))) ↔
      Throughout (Unchained types) (.expr target) ∧ ∀ value, change.value? = some value →
        Unchained types (.expr value) ∧ Throughout (Convertible types) (.expr value) := by
  have onTarget : Convertible types (.stmt (.expr (change.expr note target))) ↔
      Throughout (Unchained types) (.expr target) := by
    rw [convertible_exprStmt]
    simp [change.changed?_expr, chained]
  have onExpr : Throughout (Convertible types) (.expr (change.expr note target)) ↔
      (Unchained types (.expr target) ∧ Throughout (Convertible types) (.expr target)) ∧
        ∀ value, change.value? = some value →
          Unchained types (.expr value) ∧ Throughout (Convertible types) (.expr value) := by
    rw [throughout_iff, convertible_iff (by simp), ← forall₂_and, children_change]
    simp [Unchained]
  rw [throughout_iff, onTarget]
  simp only [children, parts, Stmt.parts, Part.value, List.map_cons, List.map_nil,
    List.forall_mem_singleton, onExpr, and_assoc]
  constructor
  · rintro ⟨whole, -, -, values⟩
    exact ⟨whole, values⟩
  · rintro ⟨whole, values⟩
    exact ⟨whole, whole.here, convertible_of_unchained _ whole, values⟩

/-- What is left of a statement that is taken apart stands in its value or its target. -/
theorem accounted_change {change : Change} {note : Note} {target : Expr}
    (chained : isChained types target = true)
    (inside : ∀ child ∈ (Node.expr (change.expr note target)).children, Accounted types child) :
    Accounted types (.stmt (.expr (change.expr note target))) := by
  intro result walked
  obtain ⟨walkedExpr, final, walkedRoot, left, rfl⟩ := walk_exprStmt walked
  obtain ⟨walkedChange, rfl, values⟩ := walk_change chained walkedRoot
  have leftValues : (∀ value, walkedChange.value? = some value →
        Throughout (Unchained types) (.expr value)) ↔
      ∀ value, change.value? = some value →
        Unchained types (.expr value) ∧ Throughout (Convertible types) (.expr value) := by
    rw [children_change] at inside
    generalize change.value? = before, walkedChange.value? = after at values inside
    cases values with
    | none => simp
    | some walkedValue =>
      have account := inside _ (by simp) _ walkedValue
      simpa using account
  rw [throughout_leaveStmt chained left, leftValues, convertible_change chained, and_comm]
  simp [unchained_stmt]

/-- Every node is accounted for, and so are its parts. The second half carries the induction over
changes. -/
theorem accounted (node : Node) :
    Accounted types node ∧ ∀ child ∈ node.children, Accounted types child := by
  induction node using Node.induct with
  | step node inductionHypothesis =>
    have inside : ∀ child ∈ node.children, Accounted types child := fun child member =>
      (inductionHypothesis child member).1
    refine ⟨?_, inside⟩
    by_cases statement : ∃ expr, node = .stmt (.expr expr)
    · obtain ⟨expr, rfl⟩ := statement
      obtain ⟨whole, parts⟩ := inductionHypothesis (.expr expr) List.mem_cons_self
      by_cases safe : changesCopy types expr = false
      · exact accounted_unchained safe whole
      · obtain ⟨target, changes, chained⟩ := (Option.any_eq_true _ _).1 (Bool.of_not_eq_false safe)
        obtain ⟨change, note, rfl⟩ := exists_change changes
        exact accounted_change chained parts
    · exact accounted_of_children (by simpa using statement) inside

/-! ## Units -/

instance : DecidablePred (Unchained types)
  | .expr _ => decidable_of_iff _ unchained_expr.symm
  | .stmt _ | .attr _ | .member _ | .decl _ | .unit _ => .isTrue nofun

/-- When the changes of a unit have been taken apart, none through a copy is left exactly when
each one was a statement of its own with no other one in its target. -/
theorem unit_unchained_iff {source result : SourceUnit}
    (finished : ValueChain.unit types source = .ok result) :
    Throughout (Unchained types) (.unit result) ↔
      Throughout (Convertible types) (.unit source) := by
  have walked : Gives ((traversal types).node .value (.unit source)) (.unit result) :=
    gives_bind.2 ⟨result, finished, gives_pure.2 rfl⟩
  rw [(accounted (.unit source)).1 _ walked]
  exact and_iff_right nofun

/-! Two scripts that move a body: the position is a property, so `body.position` is a copy. -/

namespace Walker

/-- A table with the type of positions, which is a struct, and the type of bodies. -/
def table : TypeTable :=
  .ofTypes [⟨"Point", none, .structType, none, [], []⟩, ⟨"Body", none, .classType, none, [], []⟩]

/-- The position of a body. -/
def position (body : Expr) : Expr :=
  .member (Expr.noteOf (.named 0)) body (.plain "position") ⟨1, .property, false, none⟩

/-- The horizontal part of a position. -/
def x (position : Expr) : Expr :=
  .member (Expr.noteOf .int) position (.plain "x") ⟨0, .field, false, none⟩

/-- The variable `body`. -/
def body : Expr := .localRef "body" (.named 1)

/-- The increment of a place. -/
def increment (place : Expr) : Expr := .unary (Expr.noteOf .int) .postInc place

/-- A class with a method that runs a statement. -/
def script (stmt : Stmt) : SourceUnit where
  fileName := "Walker.js"
  imports := []
  implicitImports := []
  decls := [{
    id := 2, name := .plain "Walker", kind := .classType, modifiers := .none, attrs := []
    base := none, interfaces := []
    members := [.method ⟨.plain "Move", [], .void, some [stmt], .none, [], .unknown⟩]
    enumMembers := [], isScript := true, span := .unknown }]
  globals := []
  sourceText := none

/-- The script with the statement `body.position.x++`. -/
def source : SourceUnit := script (.expr (increment (x (position body))))

/-- The same script with the position read, changed and written back. -/
def result : SourceUnit :=
  let copy := Expr.localRef "_1" (.named 0)
  script (.block [declareTemporary 1 (.named 0) (position body), .expr (increment (x copy)),
    .expr ((position body).assignTo copy)])

/-- The loop that does `body.position.x++` after each round. -/
def loop : Stmt := .forLoop [] none [increment (x (position body))] [.breakLoop]

end Walker

/-- A step through a copy in a statement of its own is taken apart. -/
theorem unit_unchained_iff_walker :
    ValueChain.unit Walker.table Walker.source = .ok Walker.result ∧
      Throughout (Convertible Walker.table) (.unit Walker.source) := by
  have finished : ValueChain.unit Walker.table Walker.source = .ok Walker.result := by
    decide +kernel
  have unchained : Throughout (Unchained Walker.table) (.unit Walker.result) :=
    .of_check 10 (by decide +kernel)
  exact ⟨finished, (unit_unchained_iff finished).1 unchained⟩

/-- A step that a loop does after each round changes a copy and is left as it is. -/
theorem unit_loop_step_survives :
    ValueChain.unit Walker.table (Walker.script Walker.loop) = .ok (Walker.script Walker.loop) ∧
      ¬ Throughout (Unchained Walker.table) (.unit (Walker.script Walker.loop)) := by
  refine ⟨by decide +kernel, fun everywhere => ?_⟩
  have inMethod := (everywhere.inside List.mem_cons_self).inside List.mem_cons_self
  have inLoop := (inMethod.inside List.mem_cons_self).inside List.mem_cons_self
  cases unchained_expr.1 inLoop.here

end ScriptSharp.Lowering.ValueChain
