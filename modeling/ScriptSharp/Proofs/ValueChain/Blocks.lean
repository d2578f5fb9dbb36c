import Mathlib.Tactic.ByContra
import Mathlib.Tactic.SplitIfs
import ScriptSharp.Lowering.ValueChain

/-!
# Changes through copies and their blocks

A change is an assignment of a member, plain or compound, or a step of it up or down. Both forms
are taken apart in the same way, so `Change` puts them together: `leaveStmt_change` gives the block
of a change in one form, and `leaveStmt_cases` says that every other statement stays as it is.
-/

namespace ScriptSharp.Lowering.ValueChain

variable {types : TypeTable}

/-! ## Runs -/

/-- A value-typed access makes the run of its receiver longer. -/
theorem run_member_of_value {note : Note} (target : Expr) (name : Ident) (binding : MemberBinding)
    (copied : types.isValueType note.ty = true) :
    run types (.member note target name binding) =
      ((run types target).1, (run types target).2 ++ [⟨name, binding, note⟩]) := by
  rw [run, if_pos copied]

/-- Any other access starts a run of its own. -/
theorem run_member_of_reference {note : Note} (target : Expr) (name : Ident)
    (binding : MemberBinding) (shared : types.isValueType note.ty = false) :
    run types (.member note target name binding) = (.member note target name binding, []) := by
  rw [run, if_neg (by simp [shared])]

/-- Every access of a run gives a value. -/
theorem isValueType_of_mem_run (expr : Expr) {segment : Segment}
    (member : segment ∈ (run types expr).2) : types.isValueType segment.note.ty = true := by
  fun_induction run types expr with
  | case1 note inner inductionHypothesis => exact inductionHypothesis member
  | case2 note target name binding copied inductionHypothesis =>
    rcases List.mem_append.1 member with earlier | last
    · exact inductionHypothesis earlier
    · rw [List.mem_singleton.1 last]
      exact copied
  | case3 => simp at member
  | case4 => simp at member

/-- The root of a run starts a run of its own. -/
theorem run_root (expr : Expr) :
    run types (run types expr).1 = ((run types expr).1, []) := by
  fun_induction run types expr with
  | case1 note inner inductionHypothesis => exact inductionHypothesis
  | case2 note target name binding copied inductionHypothesis => exact inductionHypothesis
  | case3 note target name binding shared =>
    exact run_member_of_reference target name binding (by simpa using shared)
  | case4 root noParen noMember =>
    cases root
    case paren => exact (noParen _ _ rfl).elim
    case member => exact (noMember _ _ _ _ rfl).elim
    all_goals rfl

/-- The accesses of the segments lead from the root to the expression, up to parentheses. -/
inductive Leads (root : Expr) : List Segment → Expr → Prop where
  | here : Leads root [] root
  | paren {segments : List Segment} {note : Note} {inner : Expr}
      (leads : Leads root segments inner) : Leads root segments (.paren note inner)
  | access {segments : List Segment} {target : Expr} (segment : Segment)
      (leads : Leads root segments target) :
      Leads root (segments ++ [segment])
        (.member segment.note target segment.name segment.binding)

/-- The segments are the longest run of value-typed accesses that leads to the receiver. It starts
from the root. -/
structure IsRun (types : TypeTable) (receiver root : Expr) (segments : List Segment) : Prop where
  leads : Leads root segments receiver
  copied : ∀ segment ∈ segments, types.isValueType segment.note.ty = true
  bare : ∀ note inner, root ≠ .paren note inner
  starts : ∀ note target name binding, root = .member note target name binding →
    types.isValueType note.ty = false

/-- The root and the segments of an expression lead back to it. -/
theorem leads_run (expr : Expr) : Leads (run types expr).1 (run types expr).2 expr := by
  fun_induction run types expr with
  | case1 note inner inductionHypothesis => exact .paren inductionHypothesis
  | case2 note target name binding copied inductionHypothesis =>
    exact .access ⟨name, binding, note⟩ inductionHypothesis
  | case3 | case4 => exact .here

/-- No root is in parentheses. -/
theorem root_ne_paren (expr : Expr) (note : Note) (inner : Expr) :
    (run types expr).1 ≠ .paren note inner := by
  fun_induction run types expr with
  | case1 _ _ inductionHypothesis | case2 _ _ _ _ _ inductionHypothesis =>
    exact inductionHypothesis
  | case3 => nofun
  | case4 root noParen => exact noParen note inner

/-- The run of a receiver is its longest one. -/
theorem isRun_run (receiver : Expr) :
    IsRun types receiver (run types receiver).1 (run types receiver).2 where
  leads := leads_run receiver
  copied _ := isValueType_of_mem_run receiver
  bare := root_ne_paren receiver
  starts note target name binding same := by
    have root : run types (run types receiver).1 = ((run types receiver).1, []) :=
      run_root receiver
    rw [same] at root
    by_contra copied
    rw [run_member_of_value target name binding (by simpa using copied)] at root
    simpa using congrArg Prod.snd root

/-- Value-typed accesses make the run of what they start from longer. -/
theorem Leads.run_eq {root receiver : Expr} {segments : List Segment}
    (leads : Leads root segments receiver)
    (copied : ∀ segment ∈ segments, types.isValueType segment.note.ty = true) :
    run types receiver = ((run types root).1, (run types root).2 ++ segments) := by
  induction leads with
  | here => simp
  | paren _ inductionHypothesis => rw [run, inductionHypothesis copied]
  | access segment _ inductionHypothesis =>
    obtain ⟨earlier, last⟩ := List.forall_mem_append.1 copied
    rw [run_member_of_value _ _ _ (last segment List.mem_cons_self), inductionHypothesis earlier,
      List.append_assoc]

/-- What starts no longer run is its own root. -/
theorem IsRun.run_root_eq {receiver root : Expr} {segments : List Segment}
    (isRun : IsRun types receiver root segments) : run types root = (root, []) := by
  cases root
  case paren => exact (isRun.bare _ _ rfl).elim
  case member => exact run_member_of_reference _ _ _ (isRun.starts _ _ _ _ rfl)
  all_goals rfl

/-- There is one longest run that leads to a receiver. -/
theorem isRun_iff {receiver root : Expr} {segments : List Segment} :
    IsRun types receiver root segments ↔ run types receiver = (root, segments) := by
  constructor
  · intro isRun
    rw [isRun.leads.run_eq isRun.copied, isRun.run_root_eq]
    rfl
  · intro same
    have isRun : IsRun types receiver (run types receiver).1 (run types receiver).2 :=
      isRun_run receiver
    rwa [same] at isRun

/-- The value of the expression is reached through a copy. -/
def crossesCopy (types : TypeTable) (expr : Expr) : Bool :=
  (run types expr).2.any Segment.isProperty

/-- A receiver splits when it is reached through a copy. -/
theorem splitChain?_isSome (receiver : Expr) :
    (splitChain? types receiver).isSome = crossesCopy types receiver := by
  rw [splitChain?, crossesCopy]
  split <;> simp_all

/-- An access is chained when its receiver is reached through a copy. -/
theorem isChained_member (note : Note) (receiver : Expr) (name : Ident) (binding : MemberBinding) :
    isChained types (.member note receiver name binding) = crossesCopy types receiver :=
  splitChain?_isSome receiver

/-- A target that is reached through a copy is a member of what lies behind the copy. -/
theorem isChained_iff {target : Expr} : isChained types target = true ↔
    ∃ note receiver name binding, memberTarget? target = some (note, receiver, name, binding) ∧
      crossesCopy types receiver = true := by
  cases assigned : memberTarget? target with
  | none => simp [isChained, assigned]
  | some member =>
    obtain ⟨note, receiver, name, binding⟩ := member
    simp only [isChained, assigned, splitChain?_isSome]
    constructor
    · intro crosses
      exact ⟨note, receiver, name, binding, rfl, crosses⟩
    · rintro ⟨_, _, _, _, ⟨⟩, crosses⟩
      exact crosses

/-! ## Changes -/

/-- The expression that an expression changes by itself. -/
def changed? : Expr → Option Expr
  | .assign _ _ target _ => some target
  | .unary _ op operand => if op.isStep then some operand else none
  | _ => none

/-- The expression changes a member that is reached through a copy. -/
def changesCopy (types : TypeTable) (expr : Expr) : Bool :=
  (changed? expr).any (isChained types)

/-- How a target is changed. -/
inductive Change where
  /-- By an assignment, with an operator when it is a compound one. -/
  | assign (op : Option BinaryOp) (value : Expr)
  /-- By a step up or down. -/
  | step (op : UnaryOp) (steps : op.isStep = true)

namespace Change

/-- The expression that changes a target. -/
def expr (note : Note) (target : Expr) : Change → Expr
  | .assign op value => .assign note op target value
  | .step op _ => .unary note op target

/-- The assigned value. -/
def value? : Change → Option Expr
  | .assign _ value => some value
  | .step _ _ => none

/-- The declaration of the temporary that holds the assigned value. -/
def opening (ty : Ty) : Change → List Stmt
  | .assign _ value => [declareTemporary 1 ty value]
  | .step _ _ => []

/-- The number of the first temporary that holds a copy. -/
def firstCopy : Change → Nat
  | .assign _ _ => 2
  | .step _ _ => 1

/-- The change of the innermost copy, with the assigned value taken from its temporary. -/
def onCopy (span : Span) (assigned : Expr) : Change → Expr
  | .assign op _ =>
    .assign ⟨assigned.ty, span⟩ op assigned (.localRef (temporaryName 1) assigned.ty)
  | .step op _ => .unary ⟨assigned.ty, span⟩ op assigned

/-- What an expression for a change changes is its target. -/
theorem changed?_expr (note : Note) (target : Expr) (change : Change) :
    changed? (change.expr note target) = some target := by
  cases change with
  | assign op value => rfl
  | step op steps => simp [expr, changed?, steps]

/-- A change of a target changes a copy when the target is chained. -/
theorem changesCopy_expr (note : Note) (target : Expr) (change : Change) :
    changesCopy types (change.expr note target) = isChained types target := by
  simp [changesCopy, changed?_expr]

end Change

/-- An expression that changes something has the form of a change. -/
theorem exists_change {expr target : Expr} (changes : changed? expr = some target) :
    ∃ (change : Change) (note : Note), expr = change.expr note target := by
  cases expr <;> simp only [changed?, reduceCtorEq, Option.some.injEq] at changes
  case assign note op target value =>
    subst changes
    exact ⟨.assign op value, note, rfl⟩
  case unary note op operand =>
    split_ifs at changes with steps
    obtain rfl := Option.some.inj changes
    exact ⟨.step op steps, note, rfl⟩

/-! ## Blocks -/

/-- The statements for a change of the member `name` that is reached from `root` by `segments`.
`ty` and `span` are the type and the position of the member, `changeSpan` is the position of the
change. -/
def blockBody (change : Change) (root : Expr) (segments : List Segment) (ty : Ty)
    (span changeSpan : Span) (name : Ident) (binding : MemberBinding) : List Stmt :=
  let inner := steps change.firstCopy root segments
  change.opening ty ++ inner.reads ++
    [.expr (change.onCopy changeSpan (.member ⟨ty, span⟩ inner.receiver name binding))] ++
    inner.writes

/-- A change through copies becomes its block, unless its root is a value without a place. -/
theorem leaveStmt_change {change : Change} {note memberNote : Note} {target receiver : Expr}
    {name : Ident} {binding : MemberBinding} {result : Stmt}
    (assigned : memberTarget? target = some (memberNote, receiver, name, binding))
    (chained : isChained types target = true)
    (left : leaveStmt types (.expr (change.expr note target)) = .ok result) :
    result = .block (blockBody change (run types receiver).1 (run types receiver).2 memberNote.ty
      target.span note.span name binding) := by
  cases change with
  | assign op value =>
    simp only [Change.expr, leaveStmt, chained, if_true, block, assigned] at left
    split_ifs at left
    exact (Except.ok.inj left).symm
  | step op steps =>
    simp only [Change.expr, leaveStmt, chained, steps, Bool.and_self, if_true, block,
      assigned] at left
    split_ifs at left
    exact (Except.ok.inj left).symm

/-- Leaving a statement: a change through copies is taken apart, everything else stays. -/
theorem leaveStmt_cases {stmt result : Stmt} (left : leaveStmt types stmt = .ok result) :
    (result = stmt ∧ ∀ expr, stmt = .expr expr → changesCopy types expr = false) ∨
      ∃ (change : Change) (note : Note) (target : Expr), stmt = .expr (change.expr note target) ∧
        isChained types target = true := by
  unfold leaveStmt at left
  split at left
  case h_1 note op target value =>
    split_ifs at left with chained
    · exact .inr ⟨.assign op value, note, target, rfl, chained⟩
    · obtain rfl := Except.ok.inj left
      refine .inl ⟨rfl, ?_⟩
      rintro _ ⟨⟩
      simpa [changesCopy, changed?] using chained
  case h_2 note op operand =>
    split_ifs at left with both
    · obtain ⟨steps, chained⟩ := Bool.and_eq_true_iff.1 both
      exact .inr ⟨.step op steps, note, operand, rfl, chained⟩
    · obtain rfl := Except.ok.inj left
      refine .inl ⟨rfl, ?_⟩
      rintro _ ⟨⟩
      cases steps : op.isStep <;> simp_all [changesCopy, changed?]
  case h_3 noAssign noUnary =>
    obtain rfl := Except.ok.inj left
    refine .inl ⟨rfl, ?_⟩
    rintro expr rfl
    cases expr
    case assign => exact absurd rfl (noAssign _ _ _ _)
    case unary => exact absurd rfl (noUnary _ _ _)
    all_goals rfl

end ScriptSharp.Lowering.ValueChain
