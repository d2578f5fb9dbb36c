import ScriptSharp.Proofs.Coercion.Erasure
import ScriptSharp.Proofs.Tree.Effects
import ScriptSharp.Proofs.Tree.Faults

/-!
# Casts change nothing that is done

The deeds of a tree are the nodes that do something besides giving a value, in the order of the
source. A cast adds none, so only an assignment that is written out could change them, where the
target stands twice. The target does nothing, or the walk would have failed.
-/

namespace ScriptSharp

namespace Node

/-! ## Deeds -/

/-- The node is a call, a construction, an assignment, a step up or down, or a `throw`. -/
def acts : Node → Bool
  | .expr root => root.isEffect
  | .stmt (.throw _) => true
  | _ => false

/-- The nodes at or below a node that do something, each before those below it. -/
def deeds (node : Node) : List Node :=
  (if node.acts then [node] else []) ++ node.children.attach.flatMap fun child => child.1.deeds
termination_by sizeOf node
decreasing_by exact Node.sizeOf_child_lt child.2

/-- The deeds of a node are its own and those below its parts. -/
theorem deeds_eq (node : Node) :
    node.deeds = (if node.acts then [node] else []) ++ node.children.flatMap deeds := by
  rw [deeds, List.flatMap_subtype, List.unattach_attach]
  exact fun _ _ => rfl

/-- Whether a node does something is told by its shell. -/
theorem acts_of_shell {source result : Node} (shell : source.shell = result.shell) :
    source.acts = result.acts := by
  cases source <;> cases result <;> simp only [Node.shell, reduceCtorEq] at shell
  case expr.expr => exact Expr.isEffect_of_shell (Node.expr.inj shell)
  case stmt.stmt left right =>
    cases left <;> cases right <;> first | rfl | cases shell
  all_goals rfl

/-- The deeds below two nodes are related when those of their parts are. -/
theorem Matches.deeds {related : Node → Node → Prop} {source result : Node}
    (matched : Matches (fun _ child replacement =>
      List.Forall₂ related child.deeds replacement.deeds) source result) :
    List.Forall₂ related (source.children.flatMap Node.deeds)
      (result.children.flatMap Node.deeds) := by
  refine List.rel_flatMap (R := fun child replacement =>
    List.Forall₂ related child.deeds replacement.deeds) ?_ fun _ _ holds => holds
  rw [children, children, List.forall₂_map_left_iff, List.forall₂_map_right_iff]
  exact matched.parts.imp fun _ _ holds => holds.2

end Node

end ScriptSharp

namespace ScriptSharp.Lowering.Coercion

open Outcome

variable {types : TypeTable} {returned : Option Ty}

/-! ## The result without its casts -/

/-- The nodes are the same without the casts of lowering, once the compound assignments of the
first are written out that would narrow their result. -/
def SameDeed (types : TypeTable) (source result : Node) : Prop :=
  (source.rewrite (expand types)).rewrite dropCast = result.rewrite dropCast

namespace SameDeed

/-- What a part and its walked replacement have in common. -/
structure Walked (types : TypeTable) (source result : Node) : Prop where
  same : SameDeed types source result
  face : source.face = result.face

/-- Where casts are put around parts, a node does what it did. -/
theorem of_casts {node rebuilt result : Node} (kept : expandsNode types rebuilt = false)
    (inside : Node.Matches (fun _ => Walked types) node rebuilt)
    (casts : CastsParts types rebuilt result) : SameDeed types node result := by
  obtain ⟨expanded, matched, nodeTop⟩ := Node.rewrite_matches (expand types) node
  have sameFaces : Node.Matches (fun _ child replacement => child.face = replacement.face)
      rebuilt expanded := by
    refine (inside.symm.trans matched).imp fun _ chain => ?_
    obtain ⟨child, walked, rewritten⟩ := chain
    rw [← walked.face, ← rewritten, Node.face_rewrite face_expand]
  rw [mapExpr_expand (by rw [← expandsNode_congr sameFaces, kept])] at nodeTop
  have agree : Node.Matches (fun _ child replacement =>
      child.rewrite dropCast = replacement.rewrite dropCast) expanded result := by
    refine (matched.symm.trans (inside.trans casts)).imp fun _ chain => ?_
    obtain ⟨child, rewritten, between, walked, casted⟩ := chain
    rw [← rewritten, walked.same, rewrite_casted casted]
  obtain ⟨common, -, expandedTop, resultTop⟩ := agree.rewrite
  rw [SameDeed, nodeTop, expandedTop, resultTop]

/-- Without its cast, an assignment that is written out holds the bare operation. -/
theorem rewrite_writtenOut (note : Note) (op : BinaryOp) (target value : Expr) :
    (Node.expr (writtenOut note op target value)).rewrite dropCast =
      .expr (.assign note none (target.rewrite dropCast)
        (.binary ⟨promoted target.ty value.ty, value.span⟩ op (target.rewrite dropCast)
          (value.rewrite dropCast))) := rfl

/-- Where an assignment is written out, it does what it did, since its target does nothing. -/
theorem of_writtenOut {note : Note} {op : BinaryOp} {source operand target value : Expr}
    (expanded : expands types (.assign note (some op) target value) = true)
    (targetWalked : Walked types (.expr source) (.expr target))
    (valueWalked : Walked types (.expr operand) (.expr value)) :
    SameDeed types (.expr (.assign note (some op) source operand))
      (.expr (writtenOut note op target value)) := by
  have targetSame : (source.rewrite (expand types)).rewrite dropCast = target.rewrite dropCast :=
    Node.expr.inj targetWalked.same
  have valueSame : (operand.rewrite (expand types)).rewrite dropCast = value.rewrite dropCast :=
    Node.expr.inj valueWalked.same
  have targetFace : (Node.expr (source.rewrite (expand types))).face = (Node.expr target).face :=
    (Node.face_rewrite face_expand (.expr source)).trans targetWalked.face
  have valueFace : (Node.expr (operand.rewrite (expand types))).face = (Node.expr value).face :=
    (Node.face_rewrite face_expand (.expr operand)).trans valueWalked.face
  have again : expands types (.assign note (some op) (source.rewrite (expand types))
      (operand.rewrite (expand types))) = true := by
    rw [expands_congr targetFace valueFace, expanded]
  have sourceTop : (Node.expr (.assign note (some op) source operand)).rewrite (expand types) =
      .expr (expand types (.assign note (some op) (source.rewrite (expand types))
        (operand.rewrite (expand types)))) := rfl
  rw [SameDeed, sourceTop, expand, if_pos again, operation, Expr.ty, Expr.ty, Expr.span,
    (Node.face_expr.1 targetFace).1, (Node.face_expr.1 valueFace).1, rewrite_writtenOut,
    ← targetSame, ← valueSame]
  rfl

end SameDeed

/-- The walk changes a node in nothing but casts and compound assignments. -/
theorem sameDeed_walk (node : Node) {result : Node}
    (walked : Gives ((traversal types).node returned node) result) :
    SameDeed types node result := by
  induction node using Node.induct generalizing returned result with
  | step node inductionHypothesis =>
    obtain ⟨rebuilt, matched, left⟩ := walk_matches walked
    have inside : Node.Matches (fun _ => SameDeed.Walked types) node rebuilt := by
      refine matched.imp fun member walkedChild => ?_
      exact ⟨inductionHypothesis _ (Node.mem_children_of_part member) walkedChild,
        (face_walk _ walkedChild).symm⟩
    rcases leaveNode_cases left with ⟨kept, casts⟩ | ⟨note, op, target, value, rfl, expanded, rfl⟩
    · exact .of_casts kept inside casts
    · obtain ⟨source, operand, rfl, ofTarget, ofValue⟩ := exists_assign_of_matches inside
      exact .of_writtenOut expanded ofTarget ofValue

/-! ## The deeds of the result -/

/-- A cast does nothing. -/
theorem deeds_castTo (target : Ty) (expr : Expr) :
    (Node.expr (expr.castTo target)).deeds = (Node.expr expr).deeds := by
  rw [Node.deeds_eq]
  exact List.append_nil _

/-- A cast around a part does nothing. -/
theorem deeds_casted {node replacement : Node} (casted : Casted types node replacement) :
    replacement.deeds = node.deeds := by
  cases casted with
  | unchanged => rfl
  | cast => exact deeds_castTo _ _

/-- What may be evaluated twice does nothing. -/
theorem deeds_of_repeatable (node : Node) {expr : Expr} (isExpr : node = .expr expr)
    (repeatable : isRepeatable expr = true) : node.deeds = [] := by
  induction node using Node.induct generalizing expr with
  | step node inductionHypothesis =>
    subst isExpr
    have idle : (Node.expr expr).acts = false := by
      cases expr <;> first | rfl | cases repeatable
    rw [Node.deeds_eq, idle, if_neg Bool.false_ne_true, List.nil_append, List.flatMap_eq_nil_iff]
    intro child member
    obtain ⟨inner, isInner, repeatableInner⟩ := repeatable_child repeatable member
    exact inductionHypothesis child member isInner repeatableInner

/-- An assignment acts before what its parts do. -/
theorem deeds_assign (note : Note) (op : Option BinaryOp) (target value : Expr) :
    (Node.expr (.assign note op target value)).deeds =
      .expr (.assign note op target value) ::
        ((Node.expr target).deeds ++ (Node.expr value).deeds) := by
  rw [Node.deeds_eq]
  simp [Node.acts, Expr.isEffect, Node.children, Node.parts, Expr.parts, Part.target, Part.value]

/-- The deeds of an assignment that is written out, where the target stands twice. -/
theorem deeds_writtenOut (note : Note) (op : BinaryOp) (target value : Expr) :
    (Node.expr (writtenOut note op target value)).deeds =
      .expr (writtenOut note op target value) :: ((Node.expr target).deeds ++
        ((Node.expr target).deeds ++ (Node.expr value).deeds)) := by
  have inner : (Node.expr (operation op target value)).deeds =
      (Node.expr target).deeds ++ (Node.expr value).deeds := by
    rw [Node.deeds_eq]
    simp [operation, Node.acts, Expr.isEffect, Node.children, Node.parts, Expr.parts, Part.value]
  rw [writtenOut, deeds_assign, deeds_castTo, inner]

/-- Only an assignment whose target may be evaluated twice is written out. -/
theorem repeatable_of_leaveNode {note : Note} {op : BinaryOp} {target value : Expr} {result : Node}
    (left : Gives ((traversal types).leaveNode returned
      (.expr (.assign note (some op) target value))) result)
    (expanded : expands types (.assign note (some op) target value) = true) :
    isRepeatable target = true := by
  obtain ⟨final, finished, -⟩ := gives_bind.1 left
  exact repeatable_of_expands finished expanded

/-- The walk keeps all deeds and their order. -/
theorem deeds_walk (node : Node) {result : Node}
    (walked : Gives ((traversal types).node returned node) result) :
    List.Forall₂ (SameDeed types) node.deeds result.deeds := by
  induction node using Node.induct generalizing returned result with
  | step node inductionHypothesis =>
    obtain ⟨rebuilt, matched, left⟩ := walk_matches walked
    have inside : Node.Matches (fun _ child replacement =>
        List.Forall₂ (SameDeed types) child.deeds replacement.deeds) node rebuilt :=
      matched.imp fun member => inductionHypothesis _ (Node.mem_children_of_part member)
    have same := sameDeed_walk node walked
    rcases leaveNode_cases left with ⟨kept, casts⟩ | ⟨note, op, target, value, rfl, expanded, rfl⟩
    · have below : Node.Matches (fun _ child replacement =>
          List.Forall₂ (SameDeed types) child.deeds replacement.deeds) node result := by
        refine (inside.trans casts).imp fun _ chain => ?_
        obtain ⟨between, related, casted⟩ := chain
        rwa [deeds_casted casted]
      rw [Node.deeds_eq, Node.deeds_eq result, Node.acts_of_shell below.shell]
      refine List.rel_append ?_ below.deeds
      split
      · exact .cons same .nil
      · exact .nil
    · have targetIdle := deeds_of_repeatable _ rfl (repeatable_of_leaveNode left expanded)
      obtain ⟨source, operand, rfl, ofTarget, ofValue⟩ := exists_assign_of_matches inside
      rw [targetIdle, List.forall₂_nil_right_iff] at ofTarget
      rw [deeds_assign, deeds_writtenOut, ofTarget, targetIdle]
      exact .cons same ofValue

/-! ## Assignments that are written out -/

/-- What stands below a node with finished parts still stands below it when the node is left. -/
theorem inside_leaveNode {rebuilt child result : Node} (member : child ∈ rebuilt.children)
    (left : Gives ((traversal types).leaveNode returned rebuilt) result) : result.Inside child := by
  rcases leaveNode_cases left with ⟨-, casts⟩ | ⟨note, op, target, value, rfl, -, rfl⟩
  · obtain ⟨_, after, afterOf, casted⟩ := casts.symm.exists_source member
    cases casted with
    | unchanged => exact .single afterOf
    | cast => exact .tail (.single afterOf) (.head _)
  · have inAssign : Node.Inside (.expr (writtenOut note op target value)) (.expr target) :=
      .single (.head _)
    have inCast : Node.Inside (.expr (writtenOut note op target value))
        (.expr (operation op target value)) := .tail (.single (.tail _ (.head _))) (.head _)
    rcases List.mem_pair.1 member with rfl | rfl
    · exact inAssign
    · exact inCast.tail (.tail _ (.head _))

/-- A finished walk of a tree has finished at every node of it, and its result holds what the walk
made of the node. -/
theorem walk_inside {tree node result : Node} (inside : tree.Inside node)
    (walked : Gives ((traversal types).node returned tree) result) :
    ∃ scope final, result.Inside final ∧ Gives ((traversal types).node scope node) final := by
  induction inside with
  | refl => exact ⟨returned, result, .refl, walked⟩
  | tail _ member inductionHypothesis =>
    obtain ⟨scope, final, stands, walkedNode⟩ := inductionHypothesis
    obtain ⟨rebuilt, matched, left⟩ := walk_matches walkedNode
    obtain ⟨_, replacement, replacementOf, walkedChild⟩ := matched.symm.exists_source member
    exact ⟨_, replacement, stands.trans (inside_leaveNode replacementOf left), walkedChild⟩

/-- The target of an assignment that is written out does nothing. -/
theorem deeds_target {tree result : Node} {note : Note} {op : BinaryOp} {target value : Expr}
    (walked : Gives ((traversal types).node returned tree) result)
    (inside : tree.Inside (.expr (.assign note (some op) target value)))
    (expanded : expands types (.assign note (some op) target value) = true) :
    (Node.expr target).deeds = [] := by
  obtain ⟨scope, final, -, walkedNode⟩ := walk_inside inside walked
  obtain ⟨rebuilt, matched, left⟩ := walk_matches walkedNode
  obtain ⟨newTarget, newValue, rfl, walkedTarget, walkedValue⟩ :=
    exists_assign_of_matches matched.symm
  have stillExpanded : expands types (.assign note (some op) newTarget newValue) = true := by
    rw [expands_congr (face_walk _ walkedTarget) (face_walk _ walkedValue), expanded]
  have related := deeds_walk _ walkedTarget
  rwa [deeds_of_repeatable _ rfl (repeatable_of_leaveNode left stillExpanded),
    List.forall₂_nil_right_iff] at related

/-- Leaving an expression fails only where a target with side effects would stand twice. -/
theorem raises_leave (expr : Expr) :
    Raises (fun fault => ∃ span, fault = .effectfulTarget span) (leave types expr) := by
  cases expr
  case assign note op target value =>
    cases op with
    | none => exact raises_pure _
    | some op =>
      simp only [leave, coerceAssign]
      split_ifs with accepted numeric repeatable
      · exact raises_pure _
      · exact raises_pure _
      · rintro fault ⟨⟩
        exact ⟨target.span, rfl⟩
      · exact raises_pure _
  case construct note constructed args signature => cases signature <;> exact raises_pure _
  all_goals exact raises_pure _

/-- Putting in casts fails for one reason only. -/
theorem raises_traversal (types : TypeTable) (returned : Option Ty) (node : Node) :
    Raises (fun fault => ∃ span, fault = .effectfulTarget span)
      ((traversal types).node returned node) := by
  refine DeclTraversal.raises_node (fun scope expr => ?_) (fun scope node => ?_) returned node
  · cases expr <;> exact raises_pure _
  · cases node with
    | expr root => exact raises_bind.2 ⟨raises_leave root, fun _ _ => raises_pure _⟩
    | stmt root | attr root | member root | decl root | unit root => exact raises_pure _

/-! ## Units -/

/-- The deeds of two units are the same in the same order, in the whole and member by member. -/
structure SameDeeds (types : TypeTable) (source result : SourceUnit) : Prop where
  whole : List.Forall₂ (SameDeed types) (Node.unit source).deeds (Node.unit result).deeds
  members : List.Forall₂ (fun decl replacement =>
      List.Forall₂ (fun member replacement =>
          List.Forall₂ (SameDeed types) (Node.member member).deeds (Node.member replacement).deeds)
        decl.members replacement.members) source.decls result.decls

/-- A unit with its casts does what it did. -/
theorem sameDeeds_unit {unit result : SourceUnit}
    (finished : Coercion.unit types unit = .ok result) : SameDeeds types unit result := by
  refine ⟨deeds_walk _ (walk_unit.2 finished), ?_⟩
  obtain ⟨decls, walkedDecls, rest⟩ := gives_bind.1
    (show Gives ((traversal types).unit none unit) result from finished)
  obtain ⟨globals, -, same⟩ := gives_bind.1 rest
  obtain rfl := gives_pure.1 same
  refine (gives_mapM.1 walkedDecls).imp fun decl replacement walkedDecl => ?_
  obtain ⟨attrs, -, rest⟩ := gives_bind.1 walkedDecl
  obtain ⟨members, walkedMembers, same⟩ := gives_bind.1 rest
  obtain rfl := gives_pure.1 same
  refine (gives_mapM.1 walkedMembers).imp fun member replacement walkedMember => ?_
  exact deeds_walk _ (gives_bind.2 ⟨replacement, walkedMember, gives_pure.2 rfl⟩)

/-- Putting casts in fails on targets that do something, and on nothing else. -/
theorem fault_unit {unit : SourceUnit} {fault : Fault}
    (failed : Coercion.unit types unit = .error fault) :
    ∃ span, fault = .effectfulTarget span := by
  refine raises_traversal types none (.unit unit) fault ?_
  rw [DeclTraversal.node]
  exact congrArg (· >>= _) failed

/-- Putting casts into a unit keeps everything that the unit does, in its order. The target of a
compound assignment that is written out does nothing. Where such a target does something, no casts
are put in, and the construct is reported as unsupported. -/
theorem unit_deeds (types : TypeTable) (unit : SourceUnit) :
    (∀ result, Coercion.unit types unit = .ok result → SameDeeds types unit result) ∧
    ∀ note op target value, (Node.unit unit).Inside (.expr (.assign note (some op) target value)) →
      expands types (.assign note (some op) target value) = true →
      (∀ result, Coercion.unit types unit = .ok result → (Node.expr target).deeds = []) ∧
      ((Node.expr target).deeds ≠ [] → ∃ span,
        Coercion.unit types unit = .error (.effectfulTarget span) ∧
          (Fault.effectfulTarget span).code = "unsupported-construct") := by
  refine ⟨fun _ => sameDeeds_unit, fun note op target value inside expanded => ?_⟩
  have idle (result : SourceUnit) (finished : Coercion.unit types unit = .ok result) :
      (Node.expr target).deeds = [] :=
    deeds_target (walk_unit.2 finished) inside expanded
  refine ⟨idle, fun busy => ?_⟩
  cases ends : Coercion.unit types unit with
  | ok result => exact absurd (idle result ends) busy
  | error fault =>
    obtain ⟨span, rfl⟩ := fault_unit ends
    exact ⟨span, rfl, rfl⟩

namespace Mover

/-- The step of a script stands in it. -/
theorem inside_script (cast : Ty → Expr → Expr) (step : Expr) :
    (Node.unit (script cast step)).Inside (.expr step) := by
  have inDecl : (Node.unit (script cast step)).Inside (.decl _) := .single (.head _)
  have inMethod : (Node.unit (script cast step)).Inside (.member _) :=
    inDecl.tail (.tail _ (.head _))
  have inStmt : (Node.unit (script cast step)).Inside (.stmt _) := inMethod.tail (.head _)
  exact inStmt.tail (.head _)

/-- A number that the call of a function leads to. -/
def called : Expr :=
  .member (Expr.noteOf .int)
    (.invoke (Expr.noteOf (.named 1)) (.localRef "find" .object) [] [] none)
    (.plain "count") ⟨1, .field, false, none⟩

/-- The script with `find().count *= factor` as its step. -/
def busy : SourceUnit :=
  script (fun _ expr => expr) (.assign (Expr.noteOf .int) (some .mul) called factor)

end Mover

/-- The script does what it did. With a target that calls a function it is not supported. -/
theorem unit_deeds_mover : SameDeeds Mover.table Mover.source Mover.result ∧
    (Node.expr Mover.steps).deeds = [] ∧ ∃ span,
      Coercion.unit Mover.table Mover.busy = .error (.effectfulTarget span) ∧
        (Fault.effectfulTarget span).code = "unsupported-construct" := by
  have finished : Coercion.unit Mover.table Mover.source = .ok Mover.result := rfl
  have expanded := (unit_deeds Mover.table Mover.source).2 _ _ _ _ (Mover.inside_script _ _) rfl
  have refused := (unit_deeds Mover.table Mover.busy).2 _ _ _ _ (Mover.inside_script _ _) rfl
  refine ⟨(unit_deeds Mover.table Mover.source).1 _ finished, expanded.1 _ finished, refused.2 ?_⟩
  simp [Mover.called, Node.deeds_eq, Node.children, Node.parts, Expr.parts, Part.value,
    Node.acts, Expr.isEffect]

end ScriptSharp.Lowering.Coercion
