import ScriptSharp.Proofs.Coercion.Erasure
import ScriptSharp.Proofs.LambdaShape.Resting
import ScriptSharp.Proofs.Tree.Effects

/-!
# Inference leaves its own results alone

Members with function literals get their casts after inference, and casts move expressions to other
places: an argument that gets a cast is wanted by nobody any more, and a compound assignment that is
written out has its target twice. Both are harmless. What rests does so at every place where nothing
is wanted, and a target that may be repeated declares nothing. So a node that rests still rests with
its casts, by `rests_walk`.

A member gets its casts when it holds a function literal. Inference makes no such literals and drops
none, so the members that get their casts again are those that have them already.
-/

namespace ScriptSharp.Lowering.LambdaShape

open Outcome Node

variable {params : Scope} {place other : Place} {before between after : Scope} {node : Node}

/-! ## Casts -/

section Casts

variable {types : TypeTable} {returned : Option Ty}

/-- Parts that learn nothing leave the locals as they are. -/
theorem Threads.locals_eq {step : Nat → Scope → Node → Node → Scope → Prop} {index : Nat}
    {sources results : List Part} (threads : Threads step index before sources results after)
    (each : ∀ {index before slot child result after}, (slot, child) ∈ sources →
      step index before child result after → after = before) : after = before := by
  induction threads with
  | nil => rfl
  | cons first _ inductionHypothesis =>
    rw [inductionHypothesis fun member => each (List.mem_cons_of_mem _ member)]
    exact each List.mem_cons_self first

/-- An expression that may be repeated declares nothing. -/
theorem locals_of_repeatable (node : Node) {result : Node} {place : Option Place}
    (repeatable : ∃ root, node = .expr root ∧ Coercion.isRepeatable root = true)
    (infers : InfersAt params place before node result after) : after = before := by
  induction node using Node.induct generalizing params place before result after with
  | step node inductionHypothesis =>
    obtain ⟨root, rfl, repeatable⟩ := repeatable
    cases place with
    | none => exact infers.2
    | some place =>
      obtain ⟨rebuilt, between, shell, threads, finishes⟩ := infers.opens
      have sameBetween : between = before := threads.locals_eq fun part inferred =>
        have childOf := mem_children_of_part part
        inductionHypothesis _ childOf (Coercion.repeatable_child repeatable childOf) inferred
      rw [← sameBetween]
      cases finishes with
      | declare => cases shell
      | _ => rfl

/-- A cast of what rests rests at every place. -/
theorem rests_castTo {operand : Expr} (required : Ty)
    (rests : Rests params (some other) before (.expr operand) after) :
    Rests params (some place) before (.expr (operand.castTo required)) after :=
  rests_of_parts (.expr (.cast ..)) rfl
    (.cons (rests.at_place .free nofun) .nil) trivial

/-- A part with its cast rests where the part rested. -/
theorem Rests.casted {child replacement : Node}
    (rests : Rests params (some place) before child after)
    (casted : Coercion.Casted types child replacement) :
    Rests params (some place) before replacement after := by
  cases casted with
  | unchanged => exact rests
  | cast => exact rests_castTo _ rests

/-- Nodes with the same face are function literals together. -/
theorem isLiteral_eq_of_face {source result : Node} (same : source.face = result.face) :
    isLiteral source = isLiteral result := by
  cases source <;> cases result <;> simp only [face, reduceCtorEq, Option.some.injEq,
    Prod.mk.injEq] at same
  case expr.expr => exact same.2
  all_goals rfl

/-- Parts that rest are replaced by others that do. -/
theorem PartsRest.replaced {related : Slot → Node → Node → Prop} {result : Node}
    (rest : PartsRest params place before node between) (matched : Matches related node result)
    (sameFace : node.face = result.face)
    (each : ∀ {inner : Place} {params before slot child replacement after},
      (slot, child) ∈ node.parts → related slot child replacement →
        Rests params (some inner) before child after →
          Rests params (some inner) before replacement after) :
    PartsRest params place before result between := by
  obtain ⟨shell, parts⟩ := matched
  rw [PartsRest, ← innerParams_congr shell]
  refine Threads.replaced rest parts fun {index _ _ _ _ _} part replaces rests => ?_
  have samePlace : (placeAt place node node index).map Place.isConsumed =
      (placeAt place result result index).map Place.isConsumed := by
    rw [isConsumed_placeAt place rfl, isConsumed_placeAt place rfl]
    exact consumedAt_congr shell (isLiteral_eq_of_face sameFace) index
  refine Rests.change ?_ samePlace
  cases isPlace : placeAt place node node index with
  | none =>
    rw [isPlace] at rests
    exact ⟨rfl, rests.2⟩
  | some inner =>
    rw [isPlace] at rests
    exact each part replaces rests

/-- What is learned at a node does not depend on its parts. -/
theorem learned_congr {source result : Node} (shell : source.shell = result.shell)
    (locals : Scope) : learned locals source = learned locals result := by
  have ofShell (node : Node) : learned locals node.shell = learned locals node := by
    cases node with
    | stmt root => cases root <;> rfl
    | _ => rfl
  rw [← ofShell source, shell, ofShell]

/-- Types that are fixed stay so when the parts keep their faces. -/
theorem fixed_of_faces {source result : Node} {locals : Scope}
    (matched : Matches (fun _ child replacement => child.face = replacement.face) source result)
    (fixed : Fixed params place locals source) : Fixed params place locals result := by
  -- What is inferred for a node is told by its shell and by the types of its parts.
  obtain ⟨shell, parts⟩ := matched
  cases source <;> cases result <;> simp only [Node.shell, reduceCtorEq, Node.expr.injEq,
    Node.stmt.injEq] at shell
  case expr.expr left right =>
    cases left <;> cases right <;> simp only [Expr.shell, reduceCtorEq] at shell
    case ident.ident =>
      obtain ⟨rfl, rfl, rfl⟩ := Expr.ident.inj shell
      exact fixed
    case invoke.invoke =>
      obtain ⟨rfl, -, -, -, rfl⟩ := Expr.invoke.inj shell
      cases parts with
      | cons first _ =>
        have sameTy : Expr.ty _ = Expr.ty _ := congrArg Note.ty (face_expr.1 first.2).1
        simp only [Fixed, callType, sameTy] at fixed ⊢
        exact fixed
    case paren.paren =>
      cases parts with
      | cons first _ =>
        simp only [Fixed, (face_expr.1 first.2).2] at fixed ⊢
        exact fixed
    case lambda.lambda body _ _ _ newBody =>
      obtain ⟨rfl, rfl, rfl, sameBody⟩ := Expr.lambda.inj shell
      obtain ⟨span, settled, ret, stmts, same⟩ := fixed
      obtain ⟨rfl, rfl, rfl, rfl⟩ := Expr.lambda.inj same
      cases newBody with
      | expr => cases sameBody
      | block newStmts => exact ⟨span, settled, ret, newStmts, rfl⟩
    all_goals trivial
  case stmt.stmt left right =>
    cases left <;> cases right <;> simp only [Stmt.shell, reduceCtorEq] at shell
    case declare.declare =>
      obtain ⟨rfl, rfl, rfl, -, rfl⟩ := Stmt.declare.inj shell
      refine variableType_eq_iff.2 fun undeclared value valueOf literal => ?_
      obtain ⟨origin, originOf, -, sameFace⟩ := exists_related parts
        (List.mem_map_of_mem (f := Part.value) (Option.mem_toList.2 valueOf))
      obtain ⟨init, initOf, rfl⟩ := List.mem_map.1 originOf
      obtain ⟨sameNote, sameKind⟩ := face_expr.1 sameFace
      have fixedInit := variableType_eq_iff.1 fixed undeclared init (Option.mem_toList.1 initOf)
        (sameKind.trans literal)
      rw [Expr.ty, ← sameNote]
      exact fixedInit
    all_goals trivial
  all_goals trivial

/-- Function literals get no casts. -/
theorem coerce_literal {required : Ty} {expr : Expr}
    (literal : (Coercion.coerce types required expr).isLambda = true) :
    expr.isLambda = true ∧ Coercion.coerce types required expr = expr := by
  unfold Coercion.coerce at literal ⊢
  split at literal
  · cases literal
  case isFalse free => exact ⟨literal, if_neg free⟩

/-- Casts at a node that inference leaves alone do not change that. -/
theorem fixed_leaveNode {source result : Node} {locals : Scope}
    (left : Gives ((Coercion.traversal types).leaveNode returned source) result)
    (fixed : Fixed params place locals source) : Fixed params place locals result := by
  cases source with
  | expr root =>
    obtain ⟨final, finished, same⟩ := gives_bind.1 left
    obtain rfl := gives_pure.1 same
    cases root
    case assign =>
      rcases Coercion.coerceAssign_cases finished with ⟨-, casts⟩ | ⟨_, _, _, rfl⟩
      · cases final <;> first | trivial | cases casts.shell
      · trivial
    case construct signature =>
      cases signature <;> obtain rfl := Except.ok.inj finished <;> trivial
    all_goals
      obtain rfl := Except.ok.inj finished
      exact fixed
  | stmt root =>
    obtain rfl := gives_pure.1 left
    cases root
    case declare name declared ty init span =>
      refine variableType_eq_iff.2 fun undeclared value valueOf literal => ?_
      obtain ⟨init, initOf, rfl⟩ := Option.map_eq_some_iff.1 valueOf
      obtain ⟨initLiteral, unchanged⟩ := coerce_literal literal
      rw [unchanged]
      exact variableType_eq_iff.1 fixed undeclared init initOf initLiteral
    case ret =>
      cases returned <;> trivial
    all_goals exact fixed
  | member root =>
    obtain rfl := gives_pure.1 left
    cases root <;> trivial
  | attr root | decl root | unit root =>
    obtain rfl := gives_pure.1 left
    trivial

/-- A node that rests does so with casts around its parts. A compound assignment that is written out
rests, since its target is known to declare nothing. -/
theorem rests_leaveNode {source result : Node}
    (rests : Rests params (some place) before source after)
    (left : Gives ((Coercion.traversal types).leaveNode returned source) result) :
    Rests params (some place) before result after := by
  obtain ⟨between, rest, fixed, rfl⟩ := rests.opens
  have sameFace := (Coercion.face_leaveNode left).symm
  rcases Coercion.leaveNode_cases left with
    ⟨-, casts⟩ | ⟨note, op, target, value, rfl, expanded, rfl⟩
  · rw [learned_congr casts.shell]
    refine rests_of_parts _ ?_ (rest.replaced casts sameFace ?_) (fixed_leaveNode left fixed)
    · exact (isInferred_congr casts.shell).symm.trans (isInferred_result rests)
    · exact fun _ casted childRests => childRests.casted casted
  · obtain ⟨_, finished, -⟩ := gives_bind.1 left
    have repeatable := Coercion.repeatable_of_expands finished expanded
    cases rest with
    | cons targetRests last =>
    cases last with
    | cons valueRests last =>
    cases last
    have unchanged := locals_of_repeatable _ ⟨target, rfl, repeatable⟩ targetRests
    subst unchanged
    have valueFree := Rests.at_place .free valueRests nofun
    have operationRests : Rests params (some .free) _
        (.expr (Coercion.operation op target value)) between :=
      rests_of_parts (.expr (.binary ..)) rfl (.cons targetRests (.cons valueFree .nil)) trivial
    exact rests_of_parts (.expr (.assign ..)) rfl
      (.cons targetRests (.cons (rests_castTo target.ty operationRests) .nil)) trivial

/-- A node that rests still rests when the casts are put in. -/
theorem rests_walk (node : Node) {result : Node}
    (rests : Rests params (some place) before node after)
    (walked : Gives ((Coercion.traversal types).node returned node) result) :
    Rests params (some place) before result after := by
  induction node using Node.induct generalizing params place before after returned result with
  | step node inductionHypothesis =>
    obtain ⟨rebuilt, matched, left⟩ := Coercion.walk_matches walked
    obtain ⟨between, rest, fixed, rfl⟩ := rests.opens
    have faces : Matches (fun _ child replacement => child.face = replacement.face) node rebuilt :=
      matched.imp fun _ walkedChild => (Coercion.face_walk _ walkedChild).symm
    have rebuiltRests : Rests params (some place) before rebuilt (learned between node) := by
      rw [learned_congr matched.shell]
      refine rests_of_parts _ ?_ (rest.replaced matched faces.face_eq ?_)
        (fixed_of_faces faces fixed)
      · exact (isInferred_congr matched.shell).symm.trans (isInferred_result rests)
      · exact fun part walkedChild childRests =>
          inductionHypothesis _ (mem_children_of_part part) childRests walkedChild
    exact rests_leaveNode rebuiltRests left

end Casts

/-! ## Where function literals occur -/

/-- A function literal occurs at or below the node. -/
def holdsLiteral (node : Node) : Bool :=
  node.subexpressions.any isLambdaNode

/-- The node is a function literal, without parentheses around it. -/
def isLambda (node : Node) : Bool :=
  node.expr?.any isLambdaNode

/-- A function literal occurs at a node or below one of its parts. -/
theorem holdsLiteral_eq (node : Node) :
    holdsLiteral node = (isLambda node || node.children.any holdsLiteral) := by
  rw [holdsLiteral, subexpressions_eq, List.any_append, List.any_flatMap]
  cases node <;> simp [isLambda, expr?] <;> rfl

/-- Tests that agree on the items agree on whether some item passes. -/
theorem any_congr {α : Type} {test other : α → Bool} {sources results : List α}
    (same : List.Forall₂ (fun source result => test source = other result) sources results) :
    sources.any test = results.any other := by
  induction same with
  | nil => rfl
  | cons first _ inductionHypothesis =>
    rw [List.any_cons, List.any_cons, first, inductionHypothesis]

/-- Rebuilding a node from its parts keeps whether it is a function literal. -/
theorem isLambda_congr {source result : Node} (shell : source.shell = result.shell) :
    isLambda source = isLambda result := by
  have ofShell (node : Node) : isLambda node.shell = isLambda node := by
    cases node with
    | expr root => cases root <;> rfl
    | _ => rfl
  rw [← ofShell source, shell, ofShell]

/-- Rebuilding a node from its parts keeps whether a function literal occurs in it. -/
theorem holdsLiteral_of_matches {source result : Node}
    (matched : Matches (fun _ child replacement => holdsLiteral child = holdsLiteral replacement)
      source result) : holdsLiteral source = holdsLiteral result := by
  rw [holdsLiteral_eq, holdsLiteral_eq result, isLambda_congr matched.shell]
  refine congrArg _ (any_congr ?_)
  rw [children, children, List.forall₂_map_left_iff, List.forall₂_map_right_iff]
  exact matched.parts.imp fun _ _ related => related.2

/-- Inference makes no function literals, and drops none. -/
theorem holdsLiteral_inferred (source : Node) {place : Option Place} {result : Node}
    (infers : InfersAt params place before source result after) :
    holdsLiteral source = holdsLiteral result := by
  induction source using Node.induct generalizing params place before result after with
  | step source inductionHypothesis =>
    cases place with
    | none => rw [infers.1]
    | some place =>
      obtain ⟨rebuilt, between, shell, threads, finishes⟩ := infers.opens
      have matched : Matches (fun _ child replacement => ∃ index before after,
          InfersAt (innerParams params place source) (placeAt place source rebuilt index) before
            child replacement after) source rebuilt := ⟨shell, threads.related⟩
      have sameParts : holdsLiteral source = holdsLiteral rebuilt := by
        refine holdsLiteral_of_matches (matched.imp fun part inferred => ?_)
        obtain ⟨_, _, _, inferred⟩ := inferred
        exact inductionHypothesis _ (mem_children_of_part part) inferred
      rw [sameParts]
      cases finishes with
      | same | ident => rfl
      | invoke =>
        rw [holdsLiteral_eq, holdsLiteral_eq (.expr (.invoke ..))]
        rfl
      | declare =>
        rw [holdsLiteral_eq, holdsLiteral_eq (.stmt (.declare ..))]
        rfl
      | paren =>
        rw [holdsLiteral_eq]
        exact Bool.or_false _
      | lambda =>
        rw [holdsLiteral_eq, holdsLiteral_eq (.expr (shaped ..))]
        rfl

/-- A function literal is among the expressions of parts if it occurs in one of them. -/
theorem any_partSubexpressions (parts : List Part) :
    (partSubexpressions parts).any isLambdaNode = parts.any fun part => holdsLiteral part.2 :=
  List.any_flatMap

/-- A member holds a function literal when one occurs in it outside of attributes. -/
theorem holdsLambda_eq (root : Member) :
    holdsLambda root =
      (Node.member root).parts.any fun part => isCode part.2 && holdsLiteral part.2 := by
  have attrs (attrs : List Attribute) : (attrs.map Part.attr).any
      (fun part => isCode part.2 && holdsLiteral part.2) = false := by
    simp [Part.attr, isCode]
  have values (exprs : List Expr) : (Expr.allSubexpressions exprs).any isLambdaNode =
      (exprs.map Part.value).any fun part => isCode part.2 && holdsLiteral part.2 := by
    rw [← partSubexpressions_values, any_partSubexpressions]
    simp [Function.comp_def, Part.value, isCode]
  have stmts (body : List Stmt) : (Stmt.allSubexpressions body).any isLambdaNode =
      (body.map Part.stmt).any fun part => isCode part.2 && holdsLiteral part.2 := by
    rw [← partSubexpressions_stmts, any_partSubexpressions]
    simp [Function.comp_def, Part.stmt, isCode]
  cases root with
  | field decl =>
    rw [holdsLambda, ← allSubexpressions_toList, values, parts, Member.parts, List.any_append,
      attrs, Bool.false_or]
  | method decl =>
    rw [holdsLambda, ← allSubexpressions_getD, stmts, parts, Member.parts, List.any_append, attrs,
      Bool.false_or]
  | ctor decl =>
    rw [holdsLambda, Stmt.blockContains, stmts, parts, Member.parts, List.any_append, ← values,
      CtorDecl.chainArgs]
    cases decl.chain <;> rfl

/-- Whether the node is a statement, if it is an expression or a statement. -/
def isStatement? : Node → Option Bool
  | .expr _ => some false
  | .stmt _ => some true
  | _ => none

/-- Inference keeps the kinds of nodes. -/
theorem isStatement?_inferred {place : Option Place} {source result : Node}
    (infers : InfersAt params place before source result after) :
    isStatement? source = isStatement? result := by
  cases place with
  | none => rw [infers.1]
  | some place => cases source <;> cases result <;> first | rfl | exact infers.elim

/-- Inference makes statements of statements and expressions of expressions. -/
theorem isCode_inferred {place : Option Place} {source result : Node}
    (infers : InfersAt params place before source result after) :
    isCode source = isCode result := by
  have ofKind (node : Node) : isCode node = (isStatement? node).isSome := by cases node <;> rfl
  rw [ofKind, ofKind, isStatement?_inferred infers]

/-- Inference keeps whether a member holds a function literal. -/
theorem holdsLambda_inferred {source result : Member}
    (infers : InfersAt params (some place) before (.member source) (.member result) after) :
    holdsLambda source = holdsLambda result := by
  obtain ⟨rebuilt, between, shell, threads, finishes⟩ := infers.opens
  cases finishes with
  | same =>
    rw [holdsLambda_eq, holdsLambda_eq]
    refine any_congr (threads.related.imp fun _ _ related => ?_)
    obtain ⟨-, _, _, _, inferred⟩ := related
    rw [isCode_inferred inferred, holdsLiteral_inferred _ inferred]

/-! ## Members, declarations and units -/

section Units

variable {types : TypeTable}

/-- What was made of each item of a list is left as it is, if this is so for a single item. -/
theorem mapM_again {σ α : Type} {n : Type → Type} [Monad n] [LawfulMonad n] [Outcome n]
    {step : α → StateT σ n α} {before after : σ} {items results : List α}
    (again : ∀ {item before result after}, Ends (step item) before result after →
      Ends (step result) before result after)
    (ends : Ends (items.mapM step) before results after) :
    Ends (results.mapM step) before results after := by
  induction items generalizing before results with
  | nil =>
    obtain ⟨rfl, rfl⟩ := ends_pure.1 ends
    exact ends_pure.2 ⟨rfl, rfl⟩
  | cons first rest inductionHypothesis =>
    simp only [List.mapM_cons, ends_bind, ends_pure] at ends ⊢
    obtain ⟨result, state, firstEnds, results, stop, restEnds, rfl, rfl⟩ := ends
    simp only [List.mapM_cons, ends_bind, ends_pure]
    exact ⟨result, state, again firstEnds, results, after, inductionHypothesis restEnds, rfl, rfl⟩

/-- Inferred attributes stay as they are when they are inferred again. -/
theorem attrs_again {sources results : List Attribute}
    (ends : Ends (attrs sources) before results after) :
    Ends (attrs results) before results after := by
  refine mapM_again (fun attrEnds => ?_) ends
  simp only [ends_bind, ends_pure] at attrEnds ⊢
  obtain ⟨args, _, argsEnds, rfl, rfl⟩ := attrEnds
  refine ⟨args, _, mapM_again (fun argEnds => ?_) argsEnds, rfl, rfl⟩
  simp only [ends_bind, ends_pure] at argEnds ⊢
  obtain ⟨value, _, valueEnds, rfl, rfl⟩ := argEnds
  have again : Rests [] (some .free) _ (.expr value) _ := rests_inferred (.expr _) valueEnds
  exact ⟨value, _, again, rfl, rfl⟩

/-- Inferred statements stay as they are when they are inferred again. -/
theorem stmts_again {sources results : List Stmt}
    (ends : Ends (stmts params sources) before results after) :
    Ends (stmts params results) before results after := by
  have block : InfersAt params (some .free) before (.stmt (.block sources)) (.stmt (.block results))
      after := by
    simp only [InfersAt, stmt, ends_bind, ends_pure]
    exact ⟨results, after, ends, rfl, rfl⟩
  have rests := rests_inferred _ block
  simp only [InfersAt, stmt, ends_bind, ends_pure, Stmt.block.injEq] at rests
  obtain ⟨_, _, again, rfl, rfl⟩ := rests
  exact again

/-- A member starts without known locals. It gets its casts again when it holds function
literals. -/
theorem ends_member_iff {source result : Member} :
    Ends (member types source) before result after ↔
      ∃ inferred, InfersAt [] (some .free) [] (.member source) (.member inferred) after ∧
        if holdsLambda source = true then Gives (Coercion.member types inferred) result
        else result = inferred := by
  obtain ⟨inferred, locals, inferring⟩ : ∃ inferred locals,
      (memberParts source).run [] = (inferred, locals) := ⟨_, _, rfl⟩
  have found {other : Member} {stop : Scope} :
      InfersAt [] (some .free) [] (.member source) (.member other) stop ↔
        other = inferred ∧ stop = locals := by
    change (memberParts source).run [] = (other, stop) ↔ _
    rw [inferring, Prod.mk.injEq]
    exact and_congr eq_comm eq_comm
  change Gives (member types source before) (result, after) ↔ _
  simp only [member, inferring, found]
  split
  · simp only [gives_bind, gives_pure, Prod.mk.injEq]
    constructor
    · rintro ⟨settled, settles, rfl, rfl⟩
      exact ⟨inferred, ⟨rfl, rfl⟩, settles⟩
    · rintro ⟨_, ⟨rfl, rfl⟩, settles⟩
      exact ⟨result, settles, rfl, rfl⟩
  · simp only [gives_bind, gives_pure, Prod.mk.injEq]
    constructor
    · rintro ⟨_, rfl, rfl, rfl⟩
      exact ⟨result, ⟨rfl, rfl⟩, rfl⟩
    · rintro ⟨_, ⟨rfl, rfl⟩, rfl⟩
      exact ⟨result, rfl, rfl, rfl⟩

/-- What becomes of a member rests. -/
theorem member_rests {source result : Member}
    (ends : Ends (member types source) before result after) :
    Rests [] (some .free) [] (.member result) after := by
  obtain ⟨inferred, infers, settles⟩ := ends_member_iff.1 ends
  have rests := rests_inferred _ infers
  split at settles
  · exact rests_walk _ rests (walk_member settles)
  · rw [settles]
    exact rests

/-- An inferred member stays as it is when it is inferred again. -/
theorem member_again {source result : Member}
    (ends : Ends (member types source) before result after) :
    Ends (member types result) before result after := by
  refine ends_member_iff.2 ⟨result, member_rests ends, ?_⟩
  obtain ⟨inferred, infers, settles⟩ := ends_member_iff.1 ends
  split at settles
  case isTrue =>
    obtain ⟨_, again, same⟩ := gives_bind.1
      (Coercion.walk_of_settled _ (Coercion.settled_walk _ (walk_member settles)))
    obtain rfl := Node.member.inj (gives_pure.1 same)
    split
    · exact again
    · rfl
  case isFalse noLiteral =>
    obtain rfl := settles
    rw [holdsLambda_inferred infers] at noLiteral
    rw [if_neg noLiteral]

/-- An inferred declaration stays as it is when it is inferred again. -/
theorem decl_again {source result : TypeDecl}
    (ends : Ends (decl types source) before result after) :
    Ends (decl types result) before result after := by
  simp only [decl, ends_bind, ends_pure] at ends ⊢
  obtain ⟨newAttrs, between, attrsEnds, members, _, membersEnds, rfl, rfl⟩ := ends
  have inferring : Ends (attrs source.attrs) before newAttrs between := Except.ok.inj attrsEnds
  have again : Ends (attrs newAttrs) before newAttrs between := attrs_again inferring
  exact ⟨newAttrs, between, congrArg Except.ok again, members, _,
    mapM_again member_again membersEnds, rfl, rfl⟩

/-- An import that is required twice is added once. -/
theorem requireImport_requireImport (unit : SourceUnit) (space : String) :
    (unit.requireImport space).requireImport space = unit.requireImport space := by
  by_cases imported : space ∈ unit.imports ∨ space ∈ unit.implicitImports
  · have unchanged : unit.requireImport space = unit := if_pos imported
    rw [unchanged, unchanged]
  · have added : unit.requireImport space =
        { unit with implicitImports := unit.implicitImports ++ [space] } := if_neg imported
    rw [added]
    exact if_pos (.inr (by simp))

/-- An import mentions no function type. -/
theorem unitMentionsDelegate_requireImport (unit : SourceUnit) (space : String) :
    unitMentionsDelegate (unit.requireImport space) = unitMentionsDelegate unit := by
  rw [unitMentionsDelegate, SourceUnit.requireImport_decls]
  rfl

/-- The unit with an import of the function types, if it mentions one. -/
def withImport (unit : SourceUnit) : SourceUnit :=
  if unitMentionsDelegate unit then unit.requireImport "System" else unit

/-- The import of the function types changes no declaration. -/
theorem withImport_decls (unit : SourceUnit) : (withImport unit).decls = unit.decls := by
  unfold withImport
  split
  · exact unit.requireImport_decls "System"
  · rfl

/-- The import of the function types changes no statement at top level. -/
theorem withImport_globals (unit : SourceUnit) : (withImport unit).globals = unit.globals := by
  unfold withImport
  split
  · exact unit.requireImport_globals "System"
  · rfl

/-- The import of the function types is added once. -/
theorem withImport_withImport (unit : SourceUnit) :
    withImport (withImport unit) = withImport unit := by
  unfold withImport
  cases mentions : unitMentionsDelegate unit with
  | true =>
    rw [if_pos rfl, unitMentionsDelegate_requireImport, if_pos mentions,
      requireImport_requireImport]
  | false => simp [mentions]

/-- Declarations come first, then the statements at top level, then the import. -/
theorem unit_iff {source result : SourceUnit} : LambdaShape.unit types source = .ok result ↔
    ∃ decls locals globals after, Ends (source.decls.mapM (decl types)) [] decls locals ∧
      Ends (stmts [] source.globals) locals globals after ∧
      result = withImport { source with decls, globals } := by
  change Gives (LambdaShape.unit types source) result ↔ _
  rw [LambdaShape.unit, gives_bind]
  constructor
  · rintro ⟨⟨decls, locals⟩, declsEnds, finished⟩
    exact ⟨decls, locals, _, _, declsEnds, rfl, gives_pure.1 finished⟩
  · rintro ⟨decls, locals, globals, after, declsEnds, globalsEnds, rfl⟩
    refine ⟨(decls, locals), declsEnds, gives_pure.2 ?_⟩
    have inferring : (stmts [] source.globals).run locals = (globals, after) := globalsEnds
    rw [inferring]
    rfl

/-- Inference leaves its own results alone: a unit that it gave is given again. -/
theorem unit_reinferred {source result : SourceUnit}
    (lowered : LambdaShape.unit types source = .ok result) :
    LambdaShape.unit types result = .ok result := by
  obtain ⟨decls, locals, globals, after, declsEnds, globalsEnds, isResult⟩ := unit_iff.1 lowered
  have sameDecls : result.decls = decls := by rw [isResult, withImport_decls]
  have sameGlobals : result.globals = globals := by rw [isResult, withImport_globals]
  refine unit_iff.2 ⟨decls, locals, globals, after, ?_, ?_, ?_⟩
  · rw [sameDecls]
    exact mapM_again decl_again declsEnds
  · rw [sameGlobals]
    exact stmts_again globalsEnds
  · have unchanged : { result with decls, globals } = result := by rw [← sameDecls, ← sameGlobals]
    rw [unchanged, isResult, withImport_withImport]

/-- A class that keeps a function from numbers to whole numbers, and another one in a variable of
type `ty`. -/
def Listener.rounding (ty : Ty) (first second : Expr) : SourceUnit :=
  script [keep (.delegate [.double] .int) first, guess ty second]

/-- The class with two open function literals, the second one in parentheses. -/
def Listener.rounds : SourceUnit :=
  rounding .object (literal (.expr (x .object)))
    (.paren (Expr.noteOf .object) (literal (.expr (x .object))))

/-- The class after inference: the first literal got a cast, the second one lost its
parentheses. -/
def Listener.rounded : SourceUnit :=
  (rounding (.delegate [.object] .object)
    (shaped .unknown [(.plain "x", .double)] .int
      [.ret (some ((x .double).castTo .int)) .unknown])
    (shaped .unknown [(.plain "x", .object)] .object
      [.ret (some (x .object)) .unknown])).requireImport "System"

/-- Two open function literals get their types, and keep them. -/
theorem unit_reinferred_rounded :
    LambdaShape.unit (.ofTypes []) Listener.rounds = .ok Listener.rounded ∧
      LambdaShape.unit (.ofTypes []) Listener.rounded = .ok Listener.rounded := by
  have lowered : LambdaShape.unit (.ofTypes []) Listener.rounds = .ok Listener.rounded := by
    decide +kernel
  exact ⟨lowered, unit_reinferred lowered⟩

end Units

end ScriptSharp.Lowering.LambdaShape
