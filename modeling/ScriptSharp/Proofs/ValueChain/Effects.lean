import Mathlib.Algebra.Order.BigOperators.Group.List
import Mathlib.Data.Multiset.OrderedMonoid
import Mathlib.Tactic.Abel
import ScriptSharp.Proofs.Tree.Effects
import ScriptSharp.Proofs.ValueChain.Survivors

/-!
# What happens in the block of a change

The block of a change does what the change does, on a copy, and writes copies back. The root of the
change stands in it twice, though: where the first copy is read, and where it is written back. So
everything that the root does happens once more than before, and nothing else does: `unit_effects`
counts this for every statement of a unit.
-/

namespace ScriptSharp.Lowering.ValueChain

open Outcome Node

variable {types : TypeTable}

/-! ## Statements that are taken apart -/

/-- The change that an expression is, with its position and its target. -/
def change? : Expr → Option (Change × Note × Expr)
  | .assign note op target value => some (.assign op value, note, target)
  | .unary note op operand =>
    if steps : op.isStep = true then some (.step op steps, note, operand) else none
  | _ => none

/-- What a statement is taken apart into. -/
structure Split where
  /-- The change that the statement is. -/
  change : Expr
  /-- What the member is reached from. -/
  root : Expr
  /-- The change of the innermost copy. -/
  onCopy : Expr
  /-- The assignments that write copies back. -/
  writes : List Stmt

/-- What the change of a target is taken apart into, where the target is the member `name` that is
reached from `root` by `segments`. -/
def Change.split (change : Change) (note : Note) (target root : Expr) (segments : List Segment)
    (ty : Ty) (name : Ident) (binding : MemberBinding) : Split where
  change := change.expr note target
  root := root
  onCopy := change.onCopy note.span
    (.member ⟨ty, target.span⟩ (steps change.firstCopy root segments).receiver name binding)
  writes := (steps change.firstCopy root segments).writes

/-- What a node is taken apart into, if it is a change through copies. -/
def split? (types : TypeTable) : Node → Option Split
  | .stmt (.expr whole) =>
    (change? whole).bind fun (change, note, target) =>
      (memberTarget? target).bind fun (memberNote, receiver, name, binding) =>
        (splitChain? types receiver).map fun (root, segments) =>
          change.split note target root segments memberNote.ty name binding
  | _ => none

/-- The value that a statement assigns. -/
def assignedValue : Node → List Node
  | .stmt (.expr (.assign _ _ _ value)) => [.expr value]
  | _ => []

/-- The nodes with which the walk goes on below a node. The target of a change that is taken apart
is not among them. -/
def visited (types : TypeTable) (node : Node) : List Node :=
  if (split? types node).isSome then assignedValue node else node.children

/-- The walk of a tree comes to a node. -/
def Reached (types : TypeTable) (tree node : Node) : Prop :=
  Relation.ReflTransGen (fun node child => child ∈ visited types node) tree node

/-- The target of a change is the target that is found with it. -/
theorem changed?_eq (expr : Expr) : changed? expr = (change? expr).map fun found => found.2.2 := by
  cases expr
  case unary note op operand => simp only [changed?, change?]; split_ifs <;> rfl
  all_goals rfl

/-- The change that is found in an expression gives the expression back. -/
theorem change?_eq_some {expr target : Expr} {change : Change} {note : Note}
    (found : change? expr = some (change, note, target)) : expr = change.expr note target := by
  cases expr <;> simp only [change?, reduceCtorEq, Option.some.injEq, Prod.mk.injEq] at found
  case assign =>
    obtain ⟨rfl, rfl, rfl⟩ := found
    rfl
  case unary =>
    split_ifs at found
    obtain ⟨rfl, rfl, rfl⟩ := by simpa using found
    rfl

/-- A statement is taken apart if its expression changes a copy. -/
theorem split?_isSome (expr : Expr) :
    (split? types (.stmt (.expr expr))).isSome = changesCopy types expr := by
  simp only [split?, changesCopy, changed?_eq]
  cases change? expr with
  | none => rfl
  | some found =>
    obtain ⟨change, note, target⟩ := found
    simp only [Option.bind_some, Option.map_some, Option.any_some, isChained]
    cases memberTarget? target with
    | none => rfl
    | some member => exact Option.isSome_map

/-- A statement that is taken apart is a change through copies. -/
theorem split?_eq_some {node : Node} {split : Split} (found : split? types node = some split) :
    ∃ (change : Change) (note memberNote : Note) (target receiver : Expr) (name : Ident)
      (binding : MemberBinding), node = .stmt (.expr (change.expr note target)) ∧
        memberTarget? target = some (memberNote, receiver, name, binding) ∧
        isChained types target = true ∧
        split = change.split note target (run types receiver).1 (run types receiver).2
          memberNote.ty name binding := by
  unfold split? at found
  split at found
  case h_2 => cases found
  case h_1 whole =>
    obtain ⟨⟨change, note, target⟩, isChange, found⟩ := Option.bind_eq_some_iff.1 found
    obtain ⟨⟨memberNote, receiver, name, binding⟩, assigned, found⟩ :=
      Option.bind_eq_some_iff.1 found
    obtain ⟨⟨root, segments⟩, splits, rfl⟩ := Option.map_eq_some_iff.1 found
    obtain rfl := change?_eq_some isChange
    have chained : isChained types target = true := by simp [isChained, assigned, splits]
    have sameRun : run types receiver = (root, segments) := by
      simp only [splitChain?] at splits
      split_ifs at splits
      exact Option.some.inj splits
    refine ⟨change, note, memberNote, target, receiver, name, binding, rfl, assigned, chained, ?_⟩
    rw [sameRun]

/-- A change assigns its value, and a step assigns none. -/
theorem assignedValue_change (change : Change) (note : Note) (target : Expr) :
    assignedValue (.stmt (.expr (change.expr note target))) =
      change.value?.toList.map Node.expr := by
  cases change <;> rfl

/-- What the walk comes to below a node is smaller. -/
theorem sizeOf_visited_lt {node child : Node} (member : child ∈ visited types node) :
    sizeOf child < sizeOf node := by
  unfold visited at member
  split at member
  · unfold assignedValue at member
    split at member
    · obtain rfl := List.mem_singleton.1 member
      simp only [Node.stmt.sizeOf_spec, Node.expr.sizeOf_spec, Stmt.expr.sizeOf_spec,
        Expr.assign.sizeOf_spec]
      omega
    · simp at member
  · exact sizeOf_child_lt member

/-- All statements that are taken apart in a tree. -/
def splits (types : TypeTable) (node : Node) : List Split :=
  (split? types node).toList ++
    (visited types node).attach.flatMap fun child => splits types child.1
termination_by sizeOf node
decreasing_by exact sizeOf_visited_lt child.2

/-- The statements taken apart in a node are the node itself and those that the walk comes to below
it. -/
theorem splits_eq (node : Node) : splits types node =
    (split? types node).toList ++ (visited types node).flatMap (splits types) := by
  rw [splits]
  simp [List.flatMap]

/-- Something counted over all statements that are taken apart in a tree is counted at the node
itself and below it. -/
theorem sum_splits (count : Split → Multiset Expr) (node : Node) :
    ((splits types node).map count).sum = ((split? types node).toList.map count).sum +
      ((visited types node).map fun child => ((splits types child).map count).sum).sum := by
  rw [splits_eq, List.map_append, List.sum_append]
  refine congrArg (_ + ·) ?_
  induction visited types node with
  | nil => rfl
  | cons first rest inductionHypothesis =>
    rw [List.flatMap_cons, List.map_append, List.sum_append, inductionHypothesis]
    rfl

/-! ## What is counted -/

/-- The assignments among statements. -/
def written (stmts : List Stmt) : Multiset Expr :=
  ↑(stmts.filterMap fun
    | .expr assignment => some assignment.outer
    | _ => none)

namespace Split

/-- What the root does. -/
def rootEffects (split : Split) : Multiset Expr := (Node.expr split.root).effects

/-- The change itself is gone. -/
def removed (split : Split) : Multiset Expr := {split.change.outer}

/-- The copy is changed, and copies are written back. -/
def generated (split : Split) : Multiset Expr := {split.onCopy.outer} + written split.writes

end Split

/-- What the roots in a tree do. -/
def repeated (types : TypeTable) (node : Node) : Multiset Expr :=
  ((splits types node).map Split.rootEffects).sum

/-- The changes through copies that are taken apart in a tree. -/
def removed (types : TypeTable) (node : Node) : Multiset Expr :=
  ((splits types node).map Split.removed).sum

/-- The changes of copies, and the assignments that write copies back. -/
def generated (types : TypeTable) (node : Node) : Multiset Expr :=
  ((splits types node).map Split.generated).sum

/-- What roots do in a node is what the root of the node does and what they do below it. -/
theorem repeated_eq (node : Node) : repeated types node =
    ((split? types node).toList.map Split.rootEffects).sum +
      ((visited types node).map (repeated types)).sum :=
  sum_splits Split.rootEffects node

/-- The changes that are gone from a node are its own and those below it. -/
theorem removed_eq (node : Node) : removed types node =
    ((split? types node).toList.map Split.removed).sum +
      ((visited types node).map (removed types)).sum :=
  sum_splits Split.removed node

/-- The changes that are new in a node are its own and those below it. -/
theorem generated_eq (node : Node) : generated types node =
    ((split? types node).toList.map Split.generated).sum +
      ((visited types node).map (generated types)).sum :=
  sum_splits Split.generated node

/-! ## Blocks -/

/-- Parentheses do nothing. -/
theorem effects_paren (note : Note) (inner : Expr) :
    (Node.expr (.paren note inner)).effects = (Node.expr inner).effects := by
  rw [effects_eq]
  simp [ownEffects, expr?, Expr.isEffect, children, parts, Expr.parts, Part.value]

/-- A member access does what its receiver does. -/
theorem effects_member (note : Note) (target : Expr) (name : Ident) (binding : MemberBinding) :
    (Node.expr (.member note target name binding)).effects = (Node.expr target).effects := by
  rw [effects_eq]
  simp [ownEffects, expr?, Expr.isEffect, children, parts, Expr.parts, Part.value]

theorem effects_localRef (name : String) (ty : Ty) :
    (Node.expr (.localRef name ty)).effects = 0 := rfl

/-- A run does what its root does. -/
theorem effects_run (expr : Expr) :
    (Node.expr (run types expr).1).effects = (Node.expr expr).effects := by
  fun_induction run types expr with
  | case1 note inner inductionHypothesis => rw [effects_paren, inductionHypothesis]
  | case2 note target name binding _ inductionHypothesis =>
    rw [effects_member, inductionHypothesis]
  | case3 => rfl
  | case4 => rfl

/-- The target of a change does what its receiver does. -/
theorem effects_memberTarget {target receiver : Expr} {note : Note} {name : Ident}
    {binding : MemberBinding}
    (assigned : memberTarget? target = some (note, receiver, name, binding)) :
    (Node.expr target).effects = (Node.expr receiver).effects := by
  induction target using Expr.stripParens.induct with
  | case1 parenNote inner inductionHypothesis =>
    rw [effects_paren, inductionHypothesis assigned]
  | case2 target noParen =>
    cases target
    case paren => exact (noParen _ _ rfl).elim
    case member =>
      simp only [memberTarget?, Expr.stripParens, Option.some.injEq, Prod.mk.injEq] at assigned
      obtain ⟨-, rfl, -⟩ := assigned
      exact effects_member ..
    all_goals cases assigned

/-- What statements do. -/
def effectsOf (stmts : List Stmt) : Multiset Expr :=
  (stmts.map fun stmt => (Node.stmt stmt).effects).sum

@[simp]
theorem effectsOf_nil : effectsOf [] = 0 := rfl

@[simp]
theorem effectsOf_cons (first : Stmt) (rest : List Stmt) :
    effectsOf (first :: rest) = (Node.stmt first).effects + effectsOf rest := rfl

/-- Statements in a row do what both parts do. -/
@[simp]
theorem effectsOf_append (first second : List Stmt) :
    effectsOf (first ++ second) = effectsOf first + effectsOf second := by
  simp [effectsOf]

/-- A block does what its statements do. -/
theorem effects_block (body : List Stmt) :
    (Node.stmt (.block body)).effects = effectsOf body := by
  rw [effects_eq, effectsOf]
  simp [ownEffects, expr?, children, parts, Stmt.parts, Part.stmt, Function.comp_def]

/-- An expression statement does what its expression does. -/
theorem effects_exprStmt (expr : Expr) :
    (Node.stmt (.expr expr)).effects = (Node.expr expr).effects := rfl

/-- The declaration of a temporary does what its value does. -/
theorem effects_declareTemporary (number : Nat) (ty : Ty) (init : Expr) :
    (Node.stmt (declareTemporary number ty init)).effects = (Node.expr init).effects := rfl

/-- What the value of a change does. -/
def Change.valueEffects (change : Change) : Multiset Expr :=
  change.value?.elim 0 fun value => (Node.expr value).effects

/-- A change is an effect. -/
theorem Change.isEffect_expr (change : Change) (note : Note) (target : Expr) :
    (change.expr note target).isEffect = true := by
  cases change with
  | assign op value => rfl
  | step op steps => exact steps

/-- A change does what its target and its value do, and then changes. -/
theorem effects_change (change : Change) (note : Note) (target : Expr) :
    (Node.expr (change.expr note target)).effects =
      {(change.expr note target).outer} + (Node.expr target).effects + change.valueEffects := by
  rw [effects_eq, children_change, add_assoc, ownEffects_expr (change.isEffect_expr note target),
    Change.valueEffects]
  cases change.value? <;> simp

/-- The change of a copy is one effect, besides those of what is changed. -/
theorem effects_onCopy (change : Change) (span : Span) (assigned : Expr) :
    (Node.expr (change.onCopy span assigned)).effects =
      {(change.onCopy span assigned).outer} + (Node.expr assigned).effects := by
  cases change with
  | assign op value =>
    have changed := effects_change (.assign op (.localRef (temporaryName 1) assigned.ty))
      ⟨assigned.ty, span⟩ assigned
    exact changed.trans (add_zero _)
  | step op steps =>
    exact (effects_change (.step op steps) ⟨assigned.ty, span⟩ assigned).trans (add_zero _)

/-- The first statement of a block does what the assigned value does. -/
theorem effectsOf_opening (change : Change) (ty : Ty) :
    effectsOf (change.opening ty) = change.valueEffects := by
  cases change with
  | assign op value => exact add_zero _
  | step op steps => rfl

/-- Writing a copy back is one effect, besides those of the access. -/
theorem effects_writeBack (access : Expr) (name : String) (ty : Ty) :
    (Node.expr (access.assignTo (.localRef name ty))).effects =
      {(access.assignTo (.localRef name ty)).outer} + (Node.expr access).effects :=
  (effects_change (.assign none (.localRef name ty)) (Expr.noteOf access.ty) access).trans
    (add_zero _)

/-- The assignments among statements in a row are those of both parts. -/
theorem written_append (first second : List Stmt) :
    written (first ++ second) = written first + written second := by
  simp [written]

/-- The pieces of a block do what the run starts from does, once more if there is a copy, and write
the copies back. -/
theorem effects_steps (segments : List Segment) (number : Nat) (receiver : Expr) :
    effectsOf (steps number receiver segments).reads +
        (Node.expr (steps number receiver segments).receiver).effects +
        effectsOf (steps number receiver segments).writes =
      (Node.expr receiver).effects +
        (if segments.any Segment.isProperty then (Node.expr receiver).effects else 0) +
        written (steps number receiver segments).writes := by
  induction segments generalizing number receiver with
  | nil => simp [steps, written]
  | cons segment rest inductionHypothesis =>
    rw [steps]
    split
    case isTrue copied =>
      -- Behind the copy nothing of the receiver is left, so the rest only writes back.
      have below := inductionHypothesis (number + 1)
        (Expr.localRef (temporaryName number) segment.note.ty)
      simp only [effects_localRef, ite_self, zero_add] at below
      have last (stmt : Expr) : written [.expr stmt] = {stmt.outer} := rfl
      simp only [effectsOf_cons, effectsOf_append, effectsOf_nil, add_zero,
        effects_declareTemporary, effects_exprStmt, effects_member, effects_writeBack,
        List.any_cons, copied, Bool.true_or, if_true, written_append, last, ← below]
      abel
    case isFalse inPlace =>
      rw [inductionHypothesis, effects_member]
      simp [inPlace]

/-- The block of a change does what its root and its value do, what the root does once more, and
what was generated. -/
theorem effectsOf_blockBody {change : Change} {note : Note} {target root : Expr}
    {segments : List Segment} {ty : Ty} {name : Ident} {binding : MemberBinding}
    (copied : segments.any Segment.isProperty = true) :
    effectsOf (blockBody change root segments ty target.span note.span name binding) =
      (Node.expr root).effects + change.valueEffects + (Node.expr root).effects +
        (change.split note target root segments ty name binding).generated := by
  have pieces := effects_steps segments change.firstCopy root
  rw [if_pos copied] at pieces
  simp only [blockBody, effectsOf_append, effectsOf_cons, effectsOf_nil, add_zero,
    effects_exprStmt, effects_onCopy, effects_member, effectsOf_opening, Split.generated,
    Change.split]
  generalize (change.onCopy note.span (.member ⟨ty, target.span⟩
    (steps change.firstCopy root segments).receiver name binding)).outer = onCopy
  calc _ = {onCopy} + change.valueEffects +
        (effectsOf (steps change.firstCopy root segments).reads +
          (Node.expr (steps change.firstCopy root segments).receiver).effects +
          effectsOf (steps change.firstCopy root segments).writes) := by abel
    _ = _ := by rw [pieces]; abel

/-! ## The walk -/

/-- Where a node is not taken apart, its parts are walked for their values. -/
theorem walk_kept {node result : Node} (kept : split? types node = none)
    (walked : Gives ((traversal types).node .value node) result) :
    Matches (fun _ child replacement => Gives ((traversal types).node .value child) replacement)
      node result := by
  by_cases statement : ∃ expr, node = .stmt (.expr expr)
  · obtain ⟨expr, rfl⟩ := statement
    have safe : changesCopy types expr = false := by
      rw [← split?_isSome, kept]
      rfl
    obtain ⟨walkedExpr, walkedRoot, rfl⟩ := walk_unchanged safe walked
    exact ⟨rfl, .cons ⟨rfl, walkedRoot⟩ .nil⟩
  · exact walk_value (by simpa using statement) walked

/-- A node that is not taken apart does the same by itself as before. -/
theorem ownEffects_walk {node result : Node} (kept : split? types node = none)
    (walked : Gives ((traversal types).node .value node) result) :
    node.ownEffects = result.ownEffects := by
  have shell := (walk_kept kept walked).shell
  cases node <;> cases result <;> simp only [Node.shell, reduceCtorEq, Node.expr.injEq] at shell
  case expr.expr left right =>
    have sameOuter : left.outer = right.outer := Node.expr.inj
      (outer_of_matches (fun replaced => walk_value (by simp) replaced) walked)
    exact ownEffects_congr shell sameOuter
  all_goals rfl

/-- The walk of an expression keeps its shell. -/
theorem shell_walk {usage : Usage} {expr walked : Expr}
    (walkedExpr : Gives ((traversal types).node usage (.expr expr)) (.expr walked)) :
    expr.shell = walked.shell := by
  rcases DeclTraversal.node_matches walkedExpr with ⟨-, same⟩ | ⟨carried, rebuilt, -, matched, left⟩
  · rw [Node.expr.inj same]
  · obtain ⟨_, _, _, ⟨⟩, _⟩ | ⟨-, rfl⟩ := leaveNode_cases left
    exact Node.expr.inj matched.shell

/-- Changes that differ in their values only generate the same. -/
theorem generated_of_shell {change other : Change} {note : Note} {target root : Expr}
    {segments : List Segment} {ty : Ty} {name : Ident} {binding : MemberBinding}
    (shell : (change.expr note target).shell = (other.expr note target).shell) :
    (other.split note target root segments ty name binding).generated =
      (change.split note target root segments ty name binding).generated := by
  cases change <;> cases other <;> simp only [Change.expr, Expr.shell, reduceCtorEq] at shell
  case assign.assign =>
    obtain ⟨-, rfl, -⟩ := Expr.assign.inj shell
    rfl
  case step.step =>
    obtain ⟨-, rfl, -⟩ := Expr.unary.inj shell
    rfl

/-- A change that is taken apart becomes the block of the change with its value walked. -/
theorem walk_change_block {change : Change} {note memberNote : Note} {target receiver : Expr}
    {name : Ident} {binding : MemberBinding} {result : Node}
    (assigned : memberTarget? target = some (memberNote, receiver, name, binding))
    (chained : isChained types target = true)
    (walked : Gives ((traversal types).node .value (.stmt (.expr (change.expr note target))))
      result) :
    ∃ walkedChange : Change,
      result = .stmt (.block (blockBody walkedChange (run types receiver).1 (run types receiver).2
        memberNote.ty target.span note.span name binding)) ∧
      (change.expr note target).shell = (walkedChange.expr note target).shell ∧
      Option.Rel (fun value walkedValue =>
        Gives ((traversal types).node .value (.expr value)) (.expr walkedValue))
        change.value? walkedChange.value? := by
  obtain ⟨walkedExpr, final, walkedRoot, left, rfl⟩ := walk_exprStmt walked
  have shell := shell_walk walkedRoot
  obtain ⟨walkedChange, rfl, values⟩ := walk_change chained walkedRoot
  exact ⟨walkedChange, congrArg Node.stmt (leaveStmt_change assigned chained left), shell, values⟩

/-- After the walk of the node it does what it did before, and what the roots do once more, with
generated changes in the place of those that were taken apart. -/
def Counted (types : TypeTable) (node : Node) : Prop :=
  ∀ result, Gives ((traversal types).node .value node) result →
    result.effects + removed types node =
      node.effects + (repeated types node + generated types node)

/-- A node that stays is counted if the nodes below it are. -/
theorem counted_kept {node : Node} (kept : split? types node = none)
    (inside : ∀ child ∈ visited types node, Counted types child) : Counted types node := by
  intro result walked
  have children : visited types node = node.children := by simp [visited, kept]
  have matched : Matches (fun _ child replacement => replacement.effects + removed types child =
      child.effects + (repeated types child + generated types child)) node result :=
    (walk_kept kept walked).imp fun {_ child replacement} part replaced =>
      inside child (children ▸ mem_children_of_part part) replacement replaced
  have whole := matched.effects_add (ownEffects_walk kept walked)
  rw [List.sum_map_add] at whole
  rw [removed_eq, repeated_eq, generated_eq, kept, children]
  simpa using whole

/-- A statement that is taken apart is counted if the nodes below it are. -/
theorem counted_split {node : Node} {split : Split} (found : split? types node = some split)
    (inside : ∀ child ∈ visited types node, Counted types child) : Counted types node := by
  obtain ⟨change, note, memberNote, target, receiver, name, binding, rfl, assigned, chained, rfl⟩ :=
    split?_eq_some found
  intro result walked
  obtain ⟨walkedChange, rfl, shell, values⟩ := walk_change_block assigned chained walked
  have copied : (run types receiver).2.any Segment.isProperty = true := by
    simpa [isChained, assigned, splitChain?_isSome, crossesCopy] using chained
  have visitedValue : visited types (.stmt (.expr (change.expr note target))) =
      change.value?.toList.map .expr := by
    simp [visited, found, assignedValue_change]
  -- Only the value is walked, so all other statements that are taken apart stand in it.
  have walkedValue : walkedChange.valueEffects +
        ((change.value?.toList.map Node.expr).map (removed types)).sum =
      change.valueEffects + (((change.value?.toList.map Node.expr).map (repeated types)).sum +
        ((change.value?.toList.map Node.expr).map (generated types)).sum) := by
    rw [visitedValue] at inside
    rw [Change.valueEffects, Change.valueEffects]
    generalize change.value? = before, walkedChange.value? = after at values inside
    cases values with
    | none => rfl
    | some walkedPart => simpa using inside _ (by simp) _ walkedPart
  rw [effects_block, effectsOf_blockBody copied, generated_of_shell shell, removed_eq,
    repeated_eq, generated_eq, found, visitedValue, effects_exprStmt, effects_change,
    effects_memberTarget assigned, ← @effects_run types receiver]
  simp only [Option.toList_some, List.map_cons, List.map_nil, List.sum_singleton]
  generalize (change.split note target (run types receiver).1 (run types receiver).2 memberNote.ty
    name binding).generated = added
  generalize isRoot : (Node.expr (run types receiver).1).effects = root
  calc root + walkedChange.valueEffects + root + added +
        ({(change.expr note target).outer} +
          ((change.value?.toList.map Node.expr).map (removed types)).sum)
    _ = {(change.expr note target).outer} + root + root + added + (walkedChange.valueEffects +
          ((change.value?.toList.map Node.expr).map (removed types)).sum) := by abel
    _ = _ := by
      rw [walkedValue, Split.rootEffects, Change.split, isRoot]
      abel

/-- Every node is counted, by induction on its size. -/
theorem counted (node : Node) : Counted types node := by
  fun_induction splits types node with
  | case1 node inductionHypothesis =>
    have inside : ∀ child ∈ visited types node, Counted types child := fun child member =>
      inductionHypothesis ⟨child, member⟩
    cases found : split? types node with
    | none => exact counted_kept found inside
    | some split => exact counted_split found inside

/-! ## Statements of a unit -/

/-- The value of a change stands in its block. -/
theorem inside_blockBody {change : Change} {value : Expr} (isValue : change.value? = some value)
    {root : Expr} {segments : List Segment} {ty : Ty} {span changeSpan : Span} {name : Ident}
    {binding : MemberBinding} :
    Inside (.stmt (.block (blockBody change root segments ty span changeSpan name binding)))
      (.expr value) := by
  cases change with
  | step op steps => cases isValue
  | assign op assigned =>
    obtain rfl := Option.some.inj isValue
    refine .tail (.single (b := .stmt (declareTemporary 1 ty assigned)) ?_) ?_
    · simp [children, parts, Stmt.parts, Part.stmt, blockBody, Change.opening]
    · simp [children, parts, Stmt.parts, Part.value, declareTemporary]

/-- What the walk goes on with is walked, and what becomes of it stands in the result. -/
theorem exists_replacement {node result child : Node}
    (walked : Gives ((traversal types).node .value node) result)
    (member : child ∈ visited types node) :
    ∃ replacement, Gives ((traversal types).node .value child) replacement ∧
      Inside result replacement := by
  cases found : split? types node with
  | none =>
    rw [visited, found, Option.isSome_none, if_neg Bool.false_ne_true] at member
    obtain ⟨_, replacement, stands, replaced⟩ := (walk_kept found walked).symm.exists_source member
    exact ⟨replacement, replaced, .single stands⟩
  | some split =>
    obtain ⟨change, note, memberNote, target, receiver, name, binding, rfl, assigned, chained, -⟩ :=
      split?_eq_some found
    obtain ⟨walkedChange, rfl, -, values⟩ := walk_change_block assigned chained walked
    rw [visited, found, Option.isSome_some, if_pos rfl, assignedValue_change] at member
    obtain ⟨value, isValue, rfl⟩ := List.mem_map.1 member
    rw [Option.mem_toList.1 isValue] at values
    cases isWalked : walkedChange.value? with
    | none => rw [isWalked] at values; cases values
    | some walkedValue =>
      rw [isWalked] at values
      cases values with
      | some replaced => exact ⟨.expr walkedValue, replaced, inside_blockBody isWalked⟩

/-- Whatever the walk comes to is walked, and what becomes of it stands in the result. -/
theorem reached_replacement {tree result node : Node}
    (walked : Gives ((traversal types).node .value tree) result)
    (reached : Reached types tree node) :
    ∃ replacement, Gives ((traversal types).node .value node) replacement ∧
      Inside result replacement := by
  induction reached with
  | refl => exact ⟨result, walked, .refl⟩
  | tail _ member inductionHypothesis =>
    obtain ⟨between, walkedBetween, stands⟩ := inductionHypothesis
    obtain ⟨replacement, replaced, below⟩ := exists_replacement walkedBetween member
    exact ⟨replacement, replaced, stands.trans below⟩

/-- A statement that the walk of a unit comes to is walked alone. What becomes of it stands in the
result. -/
theorem exists_walked_stmt {source result : SourceUnit}
    (finished : ValueChain.unit types source = .ok result) {stmt : Stmt}
    (reached : Reached types (.unit source) (.stmt stmt)) :
    ∃ replacement, (traversal types).stmt .value stmt = .ok replacement ∧
      Gives ((traversal types).node .value (.stmt stmt)) (.stmt replacement) ∧
      Inside (.unit result) (.stmt replacement) := by
  have walked : Gives ((traversal types).node .value (.unit source)) (.unit result) :=
    gives_bind.2 ⟨result, finished, gives_pure.2 rfl⟩
  obtain ⟨_, replaced, stands⟩ := reached_replacement walked reached
  obtain ⟨replacement, walkedStmt, same⟩ := gives_bind.1 replaced
  obtain rfl := gives_pure.1 same
  exact ⟨replacement, walkedStmt, replaced, stands⟩

/-- A change that the walk of a unit comes to and takes apart becomes the block of the change with
its value walked. -/
theorem exists_change_block {source result : SourceUnit}
    (finished : ValueChain.unit types source = .ok result) {expr target : Expr}
    (reached : Reached types (.unit source) (.stmt (.expr expr)))
    (changes : changed? expr = some target) (chained : isChained types target = true) :
    ∃ (change walkedChange : Change) (note memberNote : Note) (receiver : Expr) (name : Ident)
      (binding : MemberBinding) (body : List Stmt),
      expr = change.expr note target ∧
      memberTarget? target = some (memberNote, receiver, name, binding) ∧
      body = blockBody walkedChange (run types receiver).1 (run types receiver).2 memberNote.ty
        target.span note.span name binding ∧
      (traversal types).stmt .value (.expr expr) = .ok (.block body) ∧
      Gives ((traversal types).node .value (.stmt (.expr expr))) (.stmt (.block body)) ∧
      Inside (.unit result) (.stmt (.block body)) ∧
      Option.Rel (fun value walkedValue =>
        Gives ((traversal types).node .value (.expr value)) (.expr walkedValue))
        change.value? walkedChange.value? := by
  obtain ⟨replacement, walkedStmt, replaced, stands⟩ := exists_walked_stmt finished reached
  obtain ⟨change, note, rfl⟩ := exists_change changes
  obtain ⟨memberNote, receiver, name, binding, assigned, -⟩ := isChained_iff.1 chained
  obtain ⟨walkedChange, became, -, values⟩ := walk_change_block assigned chained replaced
  obtain rfl := Node.stmt.inj became
  exact ⟨change, walkedChange, note, memberNote, receiver, name, binding, _, rfl, assigned, rfl,
    walkedStmt, replaced, stands, values⟩

/-- How often things happen in what a node becomes. -/
structure CountsEffects (types : TypeTable) (source result : Node) : Prop where
  /-- Apart from the changes that were taken apart and what was generated for them, everything
  happens as often as before, but what the roots do happens once more. -/
  effects : result.effects + removed types source =
    source.effects + repeated types source + generated types source
  /-- So everything happens as often as before exactly when the roots do nothing. -/
  exact_iff : result.effects + removed types source = source.effects + generated types source ↔
    ∀ split ∈ splits types source, split.rootEffects = 0

/-- What a node becomes does what it did, besides what taking statements apart adds and removes. -/
theorem countsEffects {source result : Node}
    (walked : Gives ((traversal types).node .value source) result) :
    CountsEffects types source result := by
  have effects : result.effects + removed types source =
      source.effects + repeated types source + generated types source := by
    rw [counted _ _ walked, add_assoc]
  refine ⟨effects, ?_⟩
  rw [effects, add_right_comm, add_eq_left, repeated, List.sum_eq_zero_iff, List.forall_mem_map]

/-- A statement that is taken apart becomes a block. -/
theorem exists_block {stmt replacement : Stmt} (isSplit : (split? types (.stmt stmt)).isSome = true)
    (walked : Gives ((traversal types).node .value (.stmt stmt)) (.stmt replacement)) :
    ∃ body, replacement = .block body := by
  obtain ⟨split, found⟩ := Option.isSome_iff_exists.1 isSplit
  obtain ⟨change, note, memberNote, target, receiver, name, binding, same, assigned, chained, -⟩ :=
    split?_eq_some found
  rw [same] at walked
  obtain ⟨_, became, -⟩ := walk_change_block assigned chained walked
  exact ⟨_, Node.stmt.inj became⟩

/-- When the changes of a unit have been taken apart, the unit does what it did, and what the roots
of the changes do once more. The same is true of each of its statements and what became of it. -/
theorem unit_effects {source result : SourceUnit}
    (finished : ValueChain.unit types source = .ok result) :
    CountsEffects types (.unit source) (.unit result) ∧
      ∀ stmt, Reached types (.unit source) (.stmt stmt) →
        ∃ replacement, (traversal types).stmt .value stmt = .ok replacement ∧
          Inside (.unit result) (.stmt replacement) ∧
          ((split? types (.stmt stmt)).isSome = true → ∃ body, replacement = .block body) ∧
          CountsEffects types (.stmt stmt) (.stmt replacement) := by
  have walked : Gives ((traversal types).node .value (.unit source)) (.unit result) :=
    gives_bind.2 ⟨result, finished, gives_pure.2 rfl⟩
  refine ⟨countsEffects walked, fun stmt reached => ?_⟩
  obtain ⟨replacement, walkedStmt, replaced, stands⟩ := exists_walked_stmt finished reached
  exact ⟨replacement, walkedStmt, stands, fun isSplit => exists_block isSplit replaced,
    countsEffects replaced⟩

/-! Two scripts that place a body by an assignment to `x`. In the first one the value is the result
of a call, in the second one the body itself is. -/

namespace Walker

/-- The call of a static method without arguments. -/
def call (name : String) (ty : Ty) : Expr :=
  .invoke (Expr.noteOf ty)
    (.ident (Expr.noteOf ty) (.plain name) (.member ⟨2, .method, true, none⟩)) [] [] none

/-- The assignment of a value to the horizontal part of the position of a body. -/
def place (body value : Expr) : Stmt := .expr ((x (position body)).assignTo value)

/-- The block for such an assignment. -/
def placed (body value : Expr) : Stmt :=
  let copy := Expr.localRef "_2" (.named 0)
  .block [declareTemporary 1 .int value, declareTemporary 2 (.named 0) (position body),
    .expr ((x copy).assignTo (.localRef "_1" .int)), .expr ((position body).assignTo copy)]

/-- The call `next()`. -/
def next : Expr := call "next" .int

/-- The call `getBody()`. -/
def getBody : Expr := call "getBody" (.named 1)

/-- A number. -/
def five : Expr := .literal (Expr.noteOf .int) (.int 5)

end Walker

/-- The assignment `body.position.x = next()` in a unit and alone. -/
theorem unit_effects_next :
    ValueChain.unit Walker.table (Walker.script (Walker.place Walker.body Walker.next)) =
        .ok (Walker.script (Walker.placed Walker.body Walker.next)) ∧
      CountsEffects Walker.table (.unit (Walker.script (Walker.place Walker.body Walker.next)))
        (.unit (Walker.script (Walker.placed Walker.body Walker.next))) ∧
      ∃ body, (traversal Walker.table).stmt .value (Walker.place Walker.body Walker.next) =
          .ok (.block body) ∧
        CountsEffects Walker.table (.stmt (Walker.place Walker.body Walker.next))
          (.stmt (.block body)) := by
  have finished : ValueChain.unit Walker.table
      (Walker.script (Walker.place Walker.body Walker.next)) =
        .ok (Walker.script (Walker.placed Walker.body Walker.next)) := by decide +kernel
  have reached : Reached Walker.table
      (.unit (Walker.script (Walker.place Walker.body Walker.next)))
      (.stmt (Walker.place Walker.body Walker.next)) :=
    .tail (.tail (.single (.head _)) (.head _)) (.head _)
  obtain ⟨whole, each⟩ := unit_effects finished
  obtain ⟨replacement, walked, -, becomesBlock, counts⟩ := each _ reached
  obtain ⟨body, rfl⟩ := becomesBlock (by decide +kernel)
  exact ⟨finished, whole, body, walked, counts⟩

/-- A call that gives the body is made twice in the block for `getBody().position.x = 5`, and once
in the statement. -/
theorem unit_root_call_repeated :
    ValueChain.unit Walker.table (Walker.script (Walker.place Walker.getBody Walker.five)) =
        .ok (Walker.script (Walker.placed Walker.getBody Walker.five)) ∧
      (Node.stmt (Walker.place Walker.getBody Walker.five)).effects.count
        Walker.getBody.outer = 1 ∧
      (Node.stmt (Walker.placed Walker.getBody Walker.five)).effects.count
        Walker.getBody.outer = 2 := by
  refine ⟨by decide +kernel, by decide +kernel, by decide +kernel⟩

end ScriptSharp.Lowering.ValueChain
