import ScriptSharp.Proofs.Coercion.Settled
import ScriptSharp.Proofs.Tree.Rewriting

/-!
# Casts are all that is put in

Taking the casts of lowering out of the result gives the source back, with the compound
assignments written out that would have narrowed their result. And no cast is superfluous.

The proof goes along the walk. Types are read from nodes whose parts are done, so it matters that
the walk, like the two rewritings that it is compared with, keeps the face of every expression.
-/

namespace ScriptSharp.Lowering.Coercion

open Outcome

variable {types : TypeTable} {returned : Option Ty}

/-- Takes away a cast of lowering. -/
def dropCast : Expr → Expr
  | .cast _ operand _ true => operand
  | expr => expr

/-- Writes out a compound assignment of numbers whose operator is not kept and whose value its
target does not accept. -/
def expand (types : TypeTable) : Expr → Expr
  | node@(.assign note (some op) target value) =>
    if expands types node then .assign note none target (operation op target value) else node
  | node => node

/-- The node is a cast of lowering. -/
def isMarked : Node → Bool
  | .expr (.cast _ _ _ synthesized) => synthesized
  | _ => false

/-- If the node is a cast of lowering, its operand is not accepted without it. -/
def NeededCast (types : TypeTable) (node : Node) : Prop :=
  ∀ note operand target, node = .expr (.cast note operand target true) →
    Unconvertible types operand.ty target

/-! ## Faces are kept -/

/-- An expression with its casts has the face that it had. -/
theorem face_leave {expr result : Expr} (finished : leave types expr = .ok result) :
    (Node.expr result).face = (Node.expr expr).face := by
  by_cases bare : ∀ note inner, expr ≠ .paren note inner
  · rcases leave_cases finished with ⟨-, casts⟩ | ⟨note, op, target, value, rfl, -, rfl⟩
    · exact (Node.face_of_shell bare (Node.expr.inj casts.shell)).symm
    · rfl
  · simp only [ne_eq, not_forall, not_not] at bare
    obtain ⟨note, inner, rfl⟩ := bare
    obtain rfl := Except.ok.inj finished
    rfl

/-- A node with its casts has the face that it had. -/
theorem face_leaveNode {node result : Node}
    (finished : Gives ((traversal types).leaveNode returned node) result) :
    result.face = node.face := by
  cases node with
  | expr root =>
    obtain ⟨final, finishedRoot, same⟩ := gives_bind.1 finished
    obtain rfl := gives_pure.1 same
    exact face_leave finishedRoot
  | stmt root | attr root | member root | decl root | unit root =>
    obtain rfl := gives_pure.1 finished
    rfl

/-- A tree with its casts has the face that it had. -/
theorem face_walk (node : Node) {result : Node}
    (walked : Gives ((traversal types).node returned node) result) : result.face = node.face := by
  induction node using Node.induct generalizing returned result with
  | step node inductionHypothesis =>
    obtain ⟨rebuilt, matched, left⟩ := walk_matches walked
    rw [face_leaveNode left]
    refine (matched.imp fun member walkedChild => ?_).face_eq.symm
    exact (inductionHypothesis _ (Node.mem_children_of_part member) walkedChild).symm

/-- A compound assignment that is written out has the face that it had. -/
theorem face_expand (expr : Expr) :
    (Node.expr (expand types expr)).face = (Node.expr expr).face := by
  unfold expand
  split
  · split_ifs <;> rfl
  · rfl

/-- Whether an assignment is written out depends on the faces of its parts. -/
theorem expands_congr {note : Note} {op : Option BinaryOp} {target value target' value' : Expr}
    (sameTarget : (Node.expr target).face = (Node.expr target').face)
    (sameValue : (Node.expr value).face = (Node.expr value').face) :
    expands types (.assign note op target value) =
      expands types (.assign note op target' value') := by
  have targetTy : target.ty = target'.ty := congrArg Note.ty (Node.face_expr.1 sameTarget).1
  have valueTy : value.ty = value'.ty := congrArg Note.ty (Node.face_expr.1 sameValue).1
  cases op with
  | none => rfl
  | some op =>
    simp only [expands, targetTy, valueTy, needsCast_congr valueTy (Node.face_expr.1 sameValue).2]

/-- Nodes whose parts have the same faces are written out together. -/
theorem expandsNode_congr {node other : Node}
    (matched : Node.Matches (fun _ child replacement => child.face = replacement.face) node other) :
    expandsNode types node = expandsNode types other := by
  obtain ⟨shell, parts⟩ := matched
  cases node <;> cases other <;> simp only [Node.shell, reduceCtorEq, Node.expr.injEq] at shell
  case expr.expr left right =>
    cases left <;> cases right <;> simp only [Expr.shell, reduceCtorEq, Expr.assign.injEq] at shell
    case assign.assign =>
      obtain ⟨rfl, rfl, -⟩ := shell
      cases parts with
      | cons first rest =>
        cases rest with
        | cons second _ => exact expands_congr first.2 second.2
    all_goals rfl
  all_goals rfl

/-! ## Casts can be taken out again -/

/-- Taking casts away undoes putting a cast around a part. -/
theorem rewrite_casted {node replacement : Node} (casted : Casted types node replacement) :
    replacement.rewrite dropCast = node.rewrite dropCast := by
  cases casted <;> rfl

/-- A cast of lowering is known by its shell. -/
theorem isMarked_shell (node : Node) : isMarked node.shell = isMarked node := by
  cases node with
  | expr root => cases root <;> rfl
  | _ => rfl

/-- Nodes with the same shell are casts of lowering together. -/
theorem isMarked_congr {node other : Node} (shell : node.shell = other.shell) :
    isMarked node = isMarked other := by
  rw [← isMarked_shell, shell, isMarked_shell]

/-- A node that is no cast of lowering is not taken away. -/
theorem mapExpr_dropCast {node : Node} (unmarked : isMarked node = false) :
    node.mapExpr dropCast = node := by
  cases node with
  | expr root =>
    rw [Node.mapExpr, dropCast.eq_def]
    split
    · cases unmarked
    · rfl
  | _ => rfl

/-- A node that is no such assignment is not written out. -/
theorem mapExpr_expand {node : Node} (kept : expandsNode types node = false) :
    node.mapExpr (expand types) = node := by
  cases node with
  | expr root =>
    rw [expandsNode] at kept
    rw [Node.mapExpr, expand.eq_def]
    split
    · rw [if_neg (by simp [kept])]
    · rfl
  | _ => rfl

/-- A cast that a part needs leaves every cast a needed one. -/
theorem needed_of_casted {node replacement : Node}
    (needed : Node.Throughout (NeededCast types) node) (casted : Casted types node replacement) :
    Node.Throughout (NeededCast types) replacement := by
  cases casted with
  | unchanged => exact needed
  | cast unconvertible =>
    refine .node ?_ fun child member => ?_
    · rintro _ _ _ ⟨⟩
      exact unconvertible
    · obtain rfl := List.mem_singleton.1 member
      exact needed

/-- A node that is no cast of lowering needs no reason. -/
theorem NeededCast.of_unmarked {node : Node} (unmarked : isMarked node = false) :
    NeededCast types node := by
  rintro note operand target rfl
  cases unmarked

/-- The replacement of a node shows what the node shows, needs its casts, and gives the node back
without them. -/
structure Recovered (types : TypeTable) (node replacement : Node) : Prop where
  erased : node.rewrite (expand types) = replacement.rewrite dropCast
  needed : Node.Throughout (NeededCast types) replacement
  face : node.face = replacement.face

namespace Recovered

/-- Taking casts away does not change the face of a recovered node. -/
theorem face_rewrite {node replacement : Node} (recovered : Recovered types node replacement) :
    (replacement.rewrite dropCast).face = replacement.face := by
  rw [← recovered.erased, Node.face_rewrite face_expand, recovered.face]

/-! ### Parts that get casts -/

/-- Where casts are put around parts, taking them away gives the source back. -/
theorem erased_casts {node rebuilt result : Node} (unmarked : isMarked node = false)
    (kept : expandsNode types rebuilt = false)
    (inside : Node.Matches (fun _ => Recovered types) node rebuilt)
    (casts : CastsParts types rebuilt result) :
    node.rewrite (expand types) = result.rewrite dropCast := by
  have agree : Node.Matches (fun _ child replacement =>
      child.rewrite (expand types) = replacement.rewrite dropCast) node result := by
    refine (inside.trans casts).imp fun _ chain => ?_
    obtain ⟨between, recovered, casted⟩ := chain
    rw [recovered.erased, rewrite_casted casted]
  -- Both rewritings come to `common`, and neither changes it at the top.
  obtain ⟨common, matched, nodeTop, resultTop⟩ := agree.rewrite
  have sameFaces : Node.Matches (fun _ child replacement => child.face = replacement.face)
      rebuilt common := by
    refine (inside.symm.trans matched).imp fun _ chain => ?_
    obtain ⟨child, recovered, rewritten⟩ := chain
    rw [← recovered.face, ← rewritten, Node.face_rewrite face_expand]
  have commonKept : expandsNode types common = false := by
    rw [← expandsNode_congr sameFaces, kept]
  have commonUnmarked : isMarked common = false := by
    rw [← isMarked_congr matched.shell, unmarked]
  rw [nodeTop, resultTop, mapExpr_dropCast commonUnmarked, mapExpr_expand commonKept]

/-- Where casts are put around parts, all of them are needed. -/
theorem needed_casts {node rebuilt result : Node} (unmarked : isMarked node = false)
    (inside : Node.Matches (fun _ => Recovered types) node rebuilt)
    (casts : CastsParts types rebuilt result) : Node.Throughout (NeededCast types) result := by
  have resultUnmarked : isMarked result = false := by
    rw [← isMarked_congr (inside.shell.trans casts.shell), unmarked]
  refine .node (.of_unmarked resultUnmarked) fun child member => ?_
  obtain ⟨slot, origin, originOf, casted⟩ := casts.exists_source member
  obtain ⟨_, source, -, recovered⟩ := inside.exists_source originOf
  exact needed_of_casted recovered.needed casted

/-! ### Compound assignments that are written out -/

/-- Where an assignment is written out, taking casts away gives the source written out. -/
theorem erased_writtenOut {note : Note} {op : BinaryOp} {source operand target value : Expr}
    (expanded : expands types (.assign note (some op) target value) = true)
    (targetRecovered : Recovered types (.expr source) (.expr target))
    (valueRecovered : Recovered types (.expr operand) (.expr value)) :
    (Node.expr (.assign note (some op) source operand)).rewrite (expand types) =
      (Node.expr (writtenOut note op target value)).rewrite dropCast := by
  have targetErased : source.rewrite (expand types) = target.rewrite dropCast :=
    Node.expr.inj targetRecovered.erased
  have valueErased : operand.rewrite (expand types) = value.rewrite dropCast :=
    Node.expr.inj valueRecovered.erased
  have targetFace : (Node.expr (target.rewrite dropCast)).face = (Node.expr target).face :=
    targetRecovered.face_rewrite
  have valueFace : (Node.expr (value.rewrite dropCast)).face = (Node.expr value).face :=
    valueRecovered.face_rewrite
  have again : expands types (.assign note (some op) (target.rewrite dropCast)
      (value.rewrite dropCast)) = true := by
    rw [expands_congr targetFace valueFace, expanded]
  have targetNote := (Node.face_expr.1 targetFace).1
  have valueNote := (Node.face_expr.1 valueFace).1
  have sourceTop : (Node.expr (.assign note (some op) source operand)).rewrite (expand types) =
      .expr (expand types (.assign note (some op) (source.rewrite (expand types))
        (operand.rewrite (expand types)))) := rfl
  rw [sourceTop, targetErased, valueErased, expand, if_pos again, operation, Expr.ty, Expr.ty,
    Expr.span, targetNote, valueNote]
  rfl

/-- Where an assignment is written out, the cast around its operation is needed. -/
theorem needed_writtenOut {note : Note} {op : BinaryOp} {target value : Expr}
    (expanded : expands types (.assign note (some op) target value) = true)
    (targetNeeded : Node.Throughout (NeededCast types) (.expr target))
    (valueNeeded : Node.Throughout (NeededCast types) (.expr value)) :
    Node.Throughout (NeededCast types) (.expr (writtenOut note op target value)) := by
  obtain ⟨-, unaccepted, targetNumeric, valueNumeric⟩ := expands_iff.1 expanded
  have needed : Unconvertible types (operation op target value).ty target.ty :=
    unconvertible_promoted targetNumeric valueNumeric (unconvertible_of_needsCast unaccepted)
  have operationNeeded :
      Node.Throughout (NeededCast types) (.expr (operation op target value)) := by
    refine .node nofun fun child member => ?_
    rcases List.mem_pair.1 member with rfl | rfl
    · exact targetNeeded
    · exact valueNeeded
  refine .node nofun fun child member => ?_
  rcases List.mem_pair.1 member with rfl | rfl
  · exact targetNeeded
  · exact needed_of_casted operationNeeded (.cast needed)

end Recovered

/-- What matches an assignment is one, with the same operator. -/
theorem exists_assign_of_matches {related : Slot → Node → Node → Prop} {node : Node} {note : Note}
    {op : Option BinaryOp} {target value : Expr}
    (matched : Node.Matches related node (.expr (.assign note op target value))) :
    ∃ source operand, node = .expr (.assign note op source operand) ∧
      related .target (.expr source) (.expr target) ∧
      related .value (.expr operand) (.expr value) := by
  obtain ⟨shell, parts⟩ := matched
  cases node <;> simp only [Node.shell, reduceCtorEq, Node.expr.injEq] at shell
  case expr root =>
    cases root <;> simp only [Expr.shell, reduceCtorEq, Expr.assign.injEq] at shell
    case assign sourceNote sourceOp source operand =>
      obtain ⟨rfl, rfl, -⟩ := shell
      cases parts with
      | cons first rest =>
        cases rest with
        | cons second _ => exact ⟨source, operand, rfl, first.2, second.2⟩

/-- The walk puts in needed casts and writes out compound assignments, and does nothing else. -/
theorem recovered_walk (node : Node) {result : Node}
    (unmarked : Node.Throughout (isMarked · = false) node)
    (walked : Gives ((traversal types).node returned node) result) :
    Recovered types node result := by
  induction node using Node.induct generalizing returned result with
  | step node inductionHypothesis =>
    obtain ⟨rebuilt, matched, left⟩ := walk_matches walked
    have inside : Node.Matches (fun _ => Recovered types) node rebuilt := by
      refine matched.imp fun member walkedChild => ?_
      have childOf := Node.mem_children_of_part member
      exact inductionHypothesis _ childOf (unmarked.inside childOf) walkedChild
    have sameFace : node.face = result.face := (face_walk node walked).symm
    rcases leaveNode_cases left with ⟨kept, casts⟩ | ⟨note, op, target, value, rfl, expanded, rfl⟩
    · exact ⟨Recovered.erased_casts unmarked.here kept inside casts,
        Recovered.needed_casts unmarked.here inside casts, sameFace⟩
    · obtain ⟨source, operand, rfl, ofTarget, ofValue⟩ := exists_assign_of_matches inside
      exact ⟨Recovered.erased_writtenOut expanded ofTarget ofValue,
        Recovered.needed_writtenOut expanded ofTarget.needed ofValue.needed, sameFace⟩

/-- Putting casts into a unit without casts of lowering puts in exactly the needed casts: without
them the result is the unit itself, with the compound assignments written out that would have
narrowed their result, and no operand of such a cast is accepted without it. -/
theorem unit_casts_exact {unit result : SourceUnit}
    (unmarked : Node.Throughout (isMarked · = false) (.unit unit))
    (finished : Coercion.unit types unit = .ok result) :
    result.rewrite dropCast = unit.rewrite (expand types) ∧
      Node.Throughout (NeededCast types) (.unit result) := by
  have recovered := recovered_walk (.unit unit) unmarked (walk_unit.2 finished)
  exact ⟨(Node.unit.inj recovered.erased).symm, recovered.needed⟩

/-- The casts of the script can be taken away again, and are all needed. -/
theorem unit_casts_exact_mover : Coercion.unit Mover.table Mover.source = .ok Mover.result ∧
    Mover.result.rewrite dropCast = Mover.source.rewrite (expand Mover.table) ∧
      Node.Throughout (NeededCast Mover.table) (.unit Mover.result) := by
  have unmarked : Node.Throughout (isMarked · = false) (.unit Mover.source) :=
    .of_check 8 rfl
  have finished : Coercion.unit Mover.table Mover.source = .ok Mover.result := rfl
  exact ⟨finished, unit_casts_exact unmarked finished⟩

end ScriptSharp.Lowering.Coercion
