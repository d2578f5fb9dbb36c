import ScriptSharp.Proofs.LambdaShape.References

/-!
# What inference leaves alone

A node rests when inference gives the node itself back. This takes two things: the parts rest, each
with the locals that the parts before it left, and the node already has the types that inference
would give it, which is `Fixed`. By `rests_of_parts` they are enough, and by `Rests.opens` they are
needed.

Everything that inference gives rests, by `rests_inferred`. The places have to be watched here: what
is wanted of an argument is told by the callee, and inference may have changed its type. But a
function literal that rests states all its types, so it does not ask its place. Of a place it only
matters whether something is stored or passed on there, and this never changes.
-/

namespace ScriptSharp.Lowering.LambdaShape

open Outcome Node

variable {params : Scope} {place other : Place} {before between after : Scope} {node : Node}

/-! ## One result -/

/-- Inference has one result. -/
theorem InfersAt.unique {place : Option Place} {source result another : Node} {stop : Scope}
    (first : InfersAt params place before source result after)
    (second : InfersAt params place before source another stop) :
    result = another ∧ after = stop := by
  cases place with
  | none => exact ⟨first.1.trans second.1.symm, first.2.trans second.2.symm⟩
  | some place =>
    cases source <;> cases result <;> cases another <;>
      simp only [InfersAt, Ends] at first second
    all_goals
      obtain ⟨same, sameLocals⟩ := Prod.mk.inj (first.symm.trans second)
      simp_all

/-- Where a step has one result, parts that pass a state on have one. -/
theorem Threads.unique {step : Nat → Scope → Node → Node → Scope → Prop} {index : Nat}
    {sources results others : List Part} {stop : Scope}
    (first : Threads step index before sources results after)
    (second : Threads step index before sources others stop)
    (functional : ∀ {index before source result another after stop},
      step index before source result after → step index before source another stop →
        result = another ∧ after = stop) : results = others ∧ after = stop := by
  induction first generalizing others stop with
  | nil =>
    cases second
    exact ⟨rfl, rfl⟩
  | cons here _ inductionHypothesis =>
    cases second with
    | cons there rest =>
      obtain ⟨rfl, rfl⟩ := functional here there
      obtain ⟨rfl, rfl⟩ := inductionHypothesis rest
      exact ⟨rfl, rfl⟩

/-- Inference is defined on the node. -/
def isInferred : Node → Bool
  | .decl _ | .unit _ => false
  | _ => true

/-- Inference gives a result for every node that it is defined on. -/
theorem exists_inferred (params : Scope) (place : Place) (before : Scope)
    (inferred : isInferred node = true) :
    ∃ result after, InfersAt params (some place) before node result after := by
  cases node with
  | expr root => exact ⟨.expr _, _, rfl⟩
  | stmt root => exact ⟨.stmt _, _, rfl⟩
  | attr root =>
    obtain ⟨results, after, ends⟩ : ∃ results after, Ends (attrs [root]) before results after :=
      ⟨_, _, rfl⟩
    have single := ends
    simp only [attrs, List.mapM_cons, List.mapM_nil, ends_bind, ends_pure] at single
    obtain ⟨result, _, _, _, _, ⟨rfl, _⟩, rfl, _⟩ := single
    exact ⟨.attr result, after, ends⟩
  | member root => exact ⟨.member _, _, rfl⟩
  | decl root | unit root => cases inferred

/-! ## Nodes that rest -/

/-- Inference gives the node itself back. -/
abbrev Rests (params : Scope) (place : Option Place) (before : Scope) (node : Node)
    (after : Scope) : Prop :=
  InfersAt params place before node node after

/-- The parts of the node rest, one after the other. -/
abbrev PartsRest (params : Scope) (place : Place) (before : Scope) (node : Node)
    (after : Scope) : Prop :=
  Threads (fun index => InfersAt (innerParams params place node) (placeAt place node node index))
    0 before node.parts node.parts after

/-- The node has the types that inference would give it. Parentheses around a function literal are
not dropped. -/
def Fixed (params : Scope) (place : Place) (locals : Scope) : Node → Prop
  | .expr (.ident note name binding) =>
    (knownType params locals name binding).getD note.ty = note.ty
  | .expr (.invoke note callee _ _ signature) => callType note.ty callee signature = note.ty
  | .expr (.lambda note lambdaParams ret body) =>
    ∃ span settled result stmts,
      Expr.lambda note lambdaParams ret body = shaped span settled result stmts
  | .expr (.paren _ inner) => place = .free ∨ inner.isLambda = false
  | .stmt (.declare _ declared ty init _) => variableType declared ty init = ty
  | _ => True

/-- The locals that are known after a node, where `locals` are those that its parts left. -/
def learned (locals : Scope) : Node → Scope
  | .stmt (.declare name _ ty _ _) => withVariable name ty locals
  | _ => locals

/-- What becomes of parentheses. -/
theorem paren_ends {note : Note} {inner result : Expr}
    (ends : Ends (expr params place (.paren note inner)) before result after) :
    (¬(place = .free ∨ inner.isLambda = false) ∧
        Ends (expr params place inner) before result after) ∨
      (place = .free ∨ inner.isLambda = false) ∧ ∃ newInner, result = .paren note newInner ∧
        Ends (expr params .free inner) before newInner after := by
  simp only [expr] at ends
  split at ends
  · split_ifs at ends with literal
    · exact .inl ⟨by simp [literal], ends⟩
    · simp only [ends_bind, ends_pure] at ends
      obtain ⟨newInner, _, innerEnds, rfl, rfl⟩ := ends
      exact .inr ⟨.inr (by simpa using literal), newInner, rfl, innerEnds⟩
  · simp only [ends_bind, ends_pure] at ends
    obtain ⟨newInner, _, innerEnds, rfl, rfl⟩ := ends
    exact .inr ⟨.inl rfl, newInner, rfl, innerEnds⟩

/-- Parentheses pass no type on, so their inner expression is inferred as a free one. -/
theorem paren_of_ends {note : Note} {inner newInner : Expr}
    (kept : place = .free ∨ inner.isLambda = false)
    (ends : Ends (expr params .free inner) before newInner after) :
    Ends (expr params place (.paren note inner)) before (.paren note newInner) after := by
  simp only [expr]
  split
  · have noLiteral : inner.isLambda = false := kept.resolve_left (by simp)
    rw [noLiteral, if_neg Bool.false_ne_true]
    exact ends_bind.2 ⟨newInner, after, ends, ends_pure.2 ⟨rfl, rfl⟩⟩
  · exact ends_bind.2 ⟨newInner, after, ends, ends_pure.2 ⟨rfl, rfl⟩⟩

/-- What becomes of a call. -/
theorem invoke_ends {note : Note} {callee result : Expr} {typeArgs : List Ty} {args : List Expr}
    {signature : Option Signature}
    (ends : Ends (expr params place (.invoke note callee typeArgs args signature)) before result
      after) :
    ∃ newCallee newArgs, result = .invoke { note with ty := callType note.ty newCallee signature }
      newCallee typeArgs newArgs signature := by
  simp only [expr, ends_bind, ends_pure] at ends
  obtain ⟨newCallee, _, _, newArgs, _, _, rfl, rfl⟩ := ends
  exact ⟨newCallee, newArgs, rfl⟩

/-- Settling parameters that have their types changes nothing. -/
theorem settleParams_settled (shape : Option (List Ty × Ty)) (index : Nat)
    (settled : List (Ident × Ty)) :
    settleParams shape index (settled.map fun (name, ty) => ⟨name, some ty⟩) = settled := by
  induction settled generalizing index with
  | nil => rfl
  | cons first rest inductionHypothesis =>
    simp [settleParams, inductionHypothesis]

/-! ## Places

Of a place it matters only whether something is stored or passed on there. -/

/-- The value is stored or passed on. -/
def Place.isConsumed : Place → Bool
  | .free => false
  | .consumed _ => true

/-- The node is a function literal, possibly in parentheses. -/
def isLiteral : Node → Bool
  | .expr root => root.isLambda
  | _ => false

/-- Whether the part at `index` is stored or passed on. Where inference does not look, there is no
answer. -/
def consumedAt (place : Place) (node : Node) (index : Nat) : Option Bool :=
  match node with
  | .expr (.paren _ inner) => some (inner.isLambda && place.isConsumed)
  | .expr (.assign ..) | .expr (.invoke ..) => some (index ≠ 0)
  | .expr (.construct ..) | .stmt (.declare ..) => some true
  | .member (.field decl) => if index < decl.attrs.length then none else some true
  | _ => some false

/-- Whether a part is stored or passed on is told by the shell of the node. -/
theorem isConsumed_placeAt (place : Place) {source rebuilt : Node}
    (shell : source.shell = rebuilt.shell) (index : Nat) :
    (placeAt place source rebuilt index).map Place.isConsumed = consumedAt place source index := by
  cases source <;> cases rebuilt <;> simp only [Node.shell, reduceCtorEq, Node.expr.injEq] at shell
  case expr.expr left right =>
    cases left <;> cases right <;> simp only [Expr.shell, reduceCtorEq] at shell
    case paren.paren inner _ _ =>
      cases literal : inner.isLambda <;> simp [placeAt, consumedAt, literal, Place.isConsumed]
    case assign.assign | invoke.invoke =>
      simp only [placeAt, consumedAt]
      split <;> simp_all [Place.isConsumed]
    all_goals rfl
  case stmt.stmt left _ => cases left <;> rfl
  case member.member left _ =>
    cases left with
    | field decl =>
      simp only [placeAt, consumedAt]
      split <;> rfl
    | _ => rfl
  all_goals rfl

/-- Whether a part is stored or passed on is told by the shell of the node, and by what stands in
parentheses. -/
theorem consumedAt_congr {source result : Node} (shell : source.shell = result.shell)
    (literal : isLiteral source = isLiteral result) (index : Nat) :
    consumedAt place source index = consumedAt place result index := by
  cases source <;> cases result <;> simp only [Node.shell, reduceCtorEq, Node.expr.injEq,
    Node.stmt.injEq, Node.member.injEq] at shell
  case expr.expr left right =>
    cases left <;> cases right <;> simp only [Expr.shell, reduceCtorEq] at shell
    case paren.paren inner _ otherInner =>
      have same : inner.isLambda = otherInner.isLambda := literal
      simp only [consumedAt, same]
    all_goals rfl
  case stmt.stmt left right =>
    cases left <;> cases right <;> simp only [Stmt.shell, reduceCtorEq] at shell
    all_goals rfl
  case member.member left right =>
    cases left <;> cases right <;> simp only [Member.shell, reduceCtorEq] at shell
    case field.field decl other =>
      simp only [Member.field.injEq, FieldDecl.mk.injEq] at shell
      have sameLength : decl.attrs.length = other.attrs.length := by
        simpa using congrArg List.length shell.2.2.2.2.1
      simp only [consumedAt, sameLength]
    all_goals rfl
  all_goals rfl

/-- A function literal that inference could have made rests when its body does. -/
theorem shaped_rests_iff {span : Span} {settled : List (Ident × Ty)} {ret : Ty} {body : List Stmt} :
    Rests params (some place) before (.expr (shaped span settled ret body)) after ↔
      Ends (stmts (extend params settled) body) before body after := by
  simp only [InfersAt, shaped, expr, lambdaBody, settleParams_settled, ends_bind, ends_pure,
    Option.some_or, Option.getD_some]
  constructor
  · rintro ⟨newBody, _, ends, same, rfl⟩
    simp only [Expr.lambda.injEq, LambdaBody.block.injEq, true_and] at same
    rwa [← same] at ends
  · intro ends
    exact ⟨body, after, ends, rfl, rfl⟩

/-- Inference makes a shaped function literal of one. -/
theorem exists_shaped {note : Note} {lambdaParams : List LambdaParam} {ret : Option Ty}
    {body : LambdaBody} {result : Expr}
    (ends : Ends (expr params place (.lambda note lambdaParams ret body)) before result after) :
    ∃ settled newRet newBody, result = shaped note.span settled newRet newBody := by
  simp only [expr, ends_bind, ends_pure] at ends
  obtain ⟨newBody, _, _, rfl, rfl⟩ := ends
  exact ⟨_, _, _, rfl⟩

/-- A function literal that is stored or passed on loses its parentheses. -/
theorem exists_shaped_of_consumed {source result : Expr} (literal : source.isLambda = true)
    (consumed : place ≠ .free) (ends : Ends (expr params place source) before result after) :
    ∃ span settled ret body, result = shaped span settled ret body := by
  induction source using Expr.stripParens.induct with
  | case1 note inner inductionHypothesis =>
    have isLiteral : inner.isLambda = true := literal
    rcases paren_ends ends with ⟨-, innerEnds⟩ | ⟨kept, -⟩
    · exact inductionHypothesis literal innerEnds
    · rcases kept with free | noLiteral
      · exact absurd free consumed
      · cases isLiteral.symm.trans noLiteral
  | case2 root noParen =>
    cases root
    case lambda => exact ⟨_, exists_shaped ends⟩
    case paren => exact absurd rfl (noParen _ _)
    all_goals cases literal

/-- Parentheses rest when they are kept and what stands in them rests. -/
theorem paren_rests_iff {note : Note} {inner : Expr} :
    Rests params (some place) before (.expr (.paren note inner)) after ↔
      (place = .free ∨ inner.isLambda = false) ∧
        Rests params (some .free) before (.expr inner) after := by
  constructor
  · intro rests
    rcases paren_ends rests with ⟨dropped, innerEnds⟩ | ⟨kept, newInner, same, innerEnds⟩
    · rw [not_or, Bool.not_eq_false] at dropped
      obtain ⟨_, _, _, _, same⟩ := exists_shaped_of_consumed dropped.2 dropped.1 innerEnds
      cases same
    · obtain ⟨-, rfl⟩ := Expr.paren.inj same
      exact ⟨kept, innerEnds⟩
  · rintro ⟨kept, innerRests⟩
    exact paren_of_ends kept innerRests

/-- What rests at a place rests at every other one, except that parentheses around a function
literal may not be stored or passed on. -/
theorem Rests.at_place (other : Place) {root : Expr}
    (rests : Rests params (some place) before (.expr root) after)
    (suits : other.isConsumed = true → place.isConsumed = true) :
    Rests params (some other) before (.expr root) after := by
  cases root
  case lambda note lambdaParams ret body =>
    -- A function literal that rests states all its types, so it does not ask its place.
    obtain ⟨settled, newRet, newBody, same⟩ := exists_shaped rests
    rw [same] at rests ⊢
    exact shaped_rests_iff.2 (shaped_rests_iff.1 rests)
  case paren note inner =>
    obtain ⟨kept, innerRests⟩ := paren_rests_iff.1 rests
    refine paren_rests_iff.2 ⟨kept.imp_left ?_, innerRests⟩
    rintro rfl
    cases other with
    | free => rfl
    | consumed => cases suits rfl
  all_goals exact rests

/-- What rests at a place rests wherever values are stored or passed on alike. -/
theorem Rests.change {place other : Option Place} (rests : Rests params place before node after)
    (same : place.map Place.isConsumed = other.map Place.isConsumed) :
    Rests params other before node after := by
  cases place <;> cases other <;> simp only [Option.map_some, Option.map_none, reduceCtorEq,
    Option.some.injEq] at same
  case none.none => exact rests
  case some.some =>
    cases node with
    | expr root => exact rests.at_place _ fun consumed => same.trans consumed
    | _ => exact rests

/-! ## The parts of a node that rests -/

section Parts

variable {step another : Nat → Scope → Node → Node → Scope → Prop} {index : Nat}
  {sources results : List Part}

/-- Parts that are replaced one by one are threaded in the same way, when each replacement goes
from and to the same locals as the part did. -/
theorem Threads.replaced {related : Slot → Node → Node → Prop}
    (threads : Threads step index before sources sources after)
    (parts : List.Forall₂ (Part.Related related) sources results)
    (each : ∀ {index before slot child replacement after}, (slot, child) ∈ sources →
      related slot child replacement → step index before child child after →
        another index before replacement replacement after) :
    Threads another index before results results after := by
  induction parts generalizing index before with
  | nil =>
    cases threads
    exact .nil
  | @cons source result _ _ first _ inductionHypothesis =>
    obtain ⟨slot, child⟩ := source
    obtain ⟨otherSlot, replacement⟩ := result
    obtain ⟨rfl, replaces⟩ := first
    cases threads with
    | cons here rest =>
      refine .cons (each List.mem_cons_self replaces here) (inductionHypothesis rest ?_)
      exact fun member => each (List.mem_cons_of_mem _ member)

/-- The results of parts are threaded in the same way, when each of them is its own result. -/
theorem Threads.again (threads : Threads step index before sources results after)
    (each : ∀ {index before slot child result after}, (slot, child) ∈ sources →
      step index before child result after → another index before result result after) :
    Threads another index before results results after := by
  induction threads with
  | nil => exact .nil
  | cons first _ inductionHypothesis =>
    refine .cons (each List.mem_cons_self first) (inductionHypothesis ?_)
    exact fun member => each (List.mem_cons_of_mem _ member)

end Parts

/-- The parameters inside a node are those inside any other one with its shell. -/
theorem innerParams_congr {source rebuilt : Node} (shell : source.shell = rebuilt.shell) :
    innerParams params place source = innerParams params place rebuilt := by
  have ofShell (node : Node) :
      innerParams params place node.shell = innerParams params place node := by
    cases node with
    | expr root => cases root <;> rfl
    | _ => rfl
  rw [← ofShell source, shell, ofShell]

/-- Parts that rest do so at other places of the same kind. -/
theorem Threads.at_places {places others : Nat → Option Place} {index : Nat} {parts : List Part}
    (rest : Threads (fun index => InfersAt params (places index)) index before parts parts after)
    (same : ∀ index, (places index).map Place.isConsumed = (others index).map Place.isConsumed) :
    Threads (fun index => InfersAt params (others index)) index before parts parts after := by
  have unchanged : List.Forall₂ (Part.Related fun _ child replacement => child = replacement)
      parts parts := List.forall₂_same.2 fun _ _ => ⟨rfl, rfl⟩
  refine rest.replaced unchanged fun {index _ _ _ _ _} _ equal rests => ?_
  subst equal
  exact Rests.change rests (same index)

/-- Parts that rest are what inference makes of them. -/
theorem PartsRest.eq (rest : PartsRest params place before node between) {rebuilt : Node}
    {stop : Scope} (shell : node.shell = rebuilt.shell)
    (threads : Threads (fun index => InfersAt (innerParams params place node)
      (placeAt place node rebuilt index)) 0 before node.parts rebuilt.parts stop) :
    rebuilt = node ∧ stop = between := by
  have restThere := rest.at_places fun index =>
    (isConsumed_placeAt place rfl index).trans (isConsumed_placeAt place shell index).symm
  obtain ⟨sameParts, rfl⟩ := restThere.unique threads fun first second => first.unique second
  exact ⟨(Node.eq_of_shell_of_parts shell sameParts).symm, rfl⟩

/-- A node rests when its parts do and when its types are fixed. -/
theorem rests_of_parts (node : Node) (inferred : isInferred node = true)
    (rest : PartsRest params place before node between) (fixed : Fixed params place between node) :
    Rests params (some place) before node (learned between node) := by
  obtain ⟨result, after, infers⟩ := exists_inferred params place before inferred
  by_cases isParen : ∃ note inner, node = .expr (.paren note inner)
  · obtain ⟨note, inner, rfl⟩ := isParen
    cases rest with
    | cons innerRests last =>
      cases last
      exact paren_rests_iff.2 ⟨fixed, Rests.at_place .free innerRests nofun⟩
  -- Inference has a result. As the parts rest and the types are fixed, that is the node itself.
  · obtain ⟨rebuilt, stop, shell, threads, finishes⟩ := infers.opens
    obtain ⟨rfl, rfl⟩ := rest.eq shell threads
    have unchanged : result = rebuilt ∧ after = learned stop rebuilt := by
      cases finishes with
      | same plain =>
        refine ⟨rfl, ?_⟩
        unfold learned
        split
        · cases plain
        · rfl
      | ident =>
        simp only [Fixed] at fixed
        exact ⟨by rw [fixed], rfl⟩
      | invoke =>
        simp only [Fixed] at fixed
        exact ⟨by rw [fixed], rfl⟩
      | paren => exact absurd ⟨_, _, rfl⟩ isParen
      | lambda =>
        obtain ⟨span, settled, ret, stmts, same⟩ := fixed
        simp only [shaped, Expr.lambda.injEq] at same
        obtain ⟨rfl, rfl, rfl, rfl⟩ := same
        simp [settleParams_settled, shaped, asBlock, learned]
      | declare =>
        simp only [Fixed] at fixed
        rw [fixed]
        exact ⟨rfl, rfl⟩
    obtain ⟨rfl, rfl⟩ := unchanged
    exact infers

/-- The type of a call is found once. -/
theorem callType_callType (ty : Ty) (callee : Expr) (signature : Option Signature) :
    callType (callType ty callee signature) callee signature = callType ty callee signature := by
  cases signature with
  | some signature => rfl
  | none =>
    unfold callType
    cases callee.ty.delegate? <;> rfl

/-- The type of a variable is found once. -/
theorem variableType_variableType (declared : Option Ty) (ty : Ty) (init : Option Expr) :
    variableType declared (variableType declared ty init) init = variableType declared ty init := by
  cases declared with
  | some declared => rfl
  | none =>
    cases init with
    | none => rfl
    | some init => cases literal : init.isLambda <;> simp [variableType, literal]

/-- A variable that takes the type of its initializer has it already. -/
theorem variableType_eq_iff {declared : Option Ty} {ty : Ty} {init : Option Expr} :
    variableType declared ty init = ty ↔
      (declared = none → ∀ value ∈ init, value.isLambda = true → value.ty = ty) := by
  cases declared <;> cases init <;> simp [variableType]

/-- The node is an expression in parentheses. -/
def isParen : Node → Bool
  | .expr (.paren ..) => true
  | _ => false

/-- A node in parentheses is an expression with another one inside. -/
theorem exists_paren (inParens : isParen node = true) :
    ∃ note inner, node = .expr (.paren note inner) := by
  unfold isParen at inParens
  split at inParens
  · exact ⟨_, _, rfl⟩
  · cases inParens

/-- Rebuilding a node from its parts keeps its parentheses. -/
theorem isParen_congr {source rebuilt : Node} (shell : source.shell = rebuilt.shell) :
    isParen source = isParen rebuilt := by
  have ofShell (node : Node) : isParen node.shell = isParen node := by
    cases node with
    | expr root => cases root <;> rfl
    | _ => rfl
  rw [← ofShell source, shell, ofShell]

/-- A node that inference has finished has fixed types. -/
theorem Finishes.fixed {source rebuilt result : Node}
    (finishes : Finishes params place between rebuilt result after)
    (infers : InfersAt params (some place) before source result after)
    (shell : source.shell = rebuilt.shell) (bare : isParen rebuilt = false) :
    Fixed params place between result ∧ after = learned between result := by
  cases finishes with
  | @same node plain =>
    constructor
    · unfold Fixed
      split
      case h_1 | h_3 | h_5 => cases plain
      case h_2 =>
        cases source <;> simp only [Node.shell, reduceCtorEq, Node.expr.injEq] at shell
        case expr root =>
        cases root <;> simp only [Expr.shell, reduceCtorEq] at shell
        obtain ⟨_, _, same⟩ := invoke_ends infers
        obtain ⟨rfl, rfl, rfl, rfl, rfl⟩ := Expr.invoke.inj same
        exact callType_callType _ _ _
      case h_4 => cases bare
      case h_6 => trivial
    · unfold learned
      split
      · cases plain
      · rfl
  | ident =>
    refine ⟨?_, rfl⟩
    simp only [Fixed]
    cases knownType params between _ _ <;> rfl
  | invoke => exact ⟨callType_callType _ _ _, rfl⟩
  | paren => cases bare
  | lambda => exact ⟨⟨_, _, _, _, rfl⟩, rfl⟩
  | declare => exact ⟨variableType_variableType _ _ _, rfl⟩

/-- The parts of a node that is finished rest where they are then. -/
theorem Finishes.partsRest {rebuilt result : Node}
    (finishes : Finishes params place between rebuilt result after)
    (rest : PartsRest params place before rebuilt between) (bare : isParen rebuilt = false) :
    PartsRest params place before result between := by
  cases finishes with
  | same => exact rest
  | ident =>
    cases rest
    exact .nil
  | invoke => exact rest
  | paren => cases bare
  | @lambda note lambdaParams ret body span =>
    have sameParams (result : Ty) : innerParams params place (.expr (shaped note.span
        (settleParams place.shape? 0 lambdaParams) result (asBlock span body))) =
        innerParams params place (.expr (.lambda note lambdaParams ret body)) := by
      simp only [shaped, innerParams, settleParams_settled]
    cases body with
    | block body =>
      rw [PartsRest, sameParams]
      exact rest
    | expr value =>
      rw [PartsRest, sameParams]
      cases rest with
      | cons valueRests last =>
        cases last
        exact .cons (rests_of_parts (.stmt _) rfl (.cons valueRests .nil) trivial) .nil
  | declare => exact rest.at_places fun _ => rfl

/-- Inference gives nodes that it is defined on. -/
theorem isInferred_result {source result : Node}
    (infers : InfersAt params (some place) before source result after) :
    isInferred result = true := by
  cases source <;> cases result <;> first | exact infers.elim | rfl

/-- Rebuilding a node from its parts keeps whether inference is defined on it. -/
theorem isInferred_congr {source rebuilt : Node} (shell : source.shell = rebuilt.shell) :
    isInferred source = isInferred rebuilt := by
  cases source <;> cases rebuilt <;> first | rfl | cases shell

/-- Rebuilding a node without parentheses keeps whether it is a function literal. -/
theorem isLiteral_congr {source rebuilt : Node} (shell : source.shell = rebuilt.shell)
    (bare : isParen source = false) : isLiteral source = isLiteral rebuilt := by
  cases source <;> cases rebuilt <;> simp only [Node.shell, reduceCtorEq, Node.expr.injEq] at shell
  case expr.expr left right =>
    have noParen : ∀ note inner, left ≠ .paren note inner := by
      rintro note inner rfl
      cases bare
    exact (face_expr.1 (face_of_shell noParen shell)).2
  all_goals rfl

/-- The result of inference has parts that rest, if those of the source come to rest. -/
theorem exists_partsRest {source result : Node}
    (infers : InfersAt params (some place) before source result after)
    (bare : isParen source = false)
    (each : ∀ child ∈ source.children, ∀ {params place before result after},
      InfersAt params (some place) before child result after →
        Rests params (some place) before result after) :
    ∃ between, PartsRest params place before result between ∧ Fixed params place between result ∧
      after = learned between result := by
  obtain ⟨rebuilt, between, shell, threads, finishes⟩ := infers.opens
  have bareRebuilt : isParen rebuilt = false := (isParen_congr shell).symm.trans bare
  have rest : PartsRest params place before rebuilt between := by
    rw [PartsRest, ← innerParams_congr shell]
    refine threads.again fun {index _ _ _ _ _} part inferred => ?_
    have samePlace : (placeAt place source rebuilt index).map Place.isConsumed =
        (placeAt place rebuilt rebuilt index).map Place.isConsumed := by
      rw [isConsumed_placeAt place shell, isConsumed_placeAt place rfl]
      exact consumedAt_congr shell (isLiteral_congr shell bare) index
    refine Rests.change ?_ samePlace
    cases isPlace : placeAt place source rebuilt index with
    | none =>
      rw [isPlace] at inferred
      exact ⟨rfl, inferred.2⟩
    | some inner =>
      rw [isPlace] at inferred
      exact each _ (mem_children_of_part part) inferred
  exact ⟨between, finishes.partsRest rest bareRebuilt, finishes.fixed infers shell bareRebuilt⟩

/-- What inference gives is what inference gives for it. -/
theorem rests_inferred (source : Node) {result : Node}
    (infers : InfersAt params (some place) before source result after) :
    Rests params (some place) before result after := by
  induction source using Node.induct generalizing params place before result after with
  | step source inductionHypothesis =>
    cases inParens : isParen source with
    | true =>
      obtain ⟨note, inner, rfl⟩ := exists_paren inParens
      have innerOf : Node.expr inner ∈ (Node.expr (.paren note inner)).children :=
        List.mem_singleton.2 rfl
      cases result <;> first | exact infers.elim | skip
      case expr root =>
      rcases paren_ends infers with ⟨-, innerEnds⟩ | ⟨kept, newInner, rfl, innerEnds⟩
      · exact inductionHypothesis (.expr inner) innerOf innerEnds
      · have innerRests : Rests params (some .free) before (.expr newInner) after :=
          inductionHypothesis (.expr inner) innerOf innerEnds
        have sameKind : newInner.isLambda = inner.isLambda := isLambda_inferred innerEnds
        exact paren_rests_iff.2 ⟨sameKind ▸ kept, innerRests⟩
    | false =>
      obtain ⟨between, rest, fixed, rfl⟩ := exists_partsRest infers inParens
        fun child childOf => inductionHypothesis child childOf
      exact rests_of_parts _ (isInferred_result infers) rest fixed

/-- The parts of a node that rests do so too, and its types are fixed. -/
theorem Rests.opens (rests : Rests params (some place) before node after) :
    ∃ between, PartsRest params place before node between ∧ Fixed params place between node ∧
      after = learned between node := by
  cases inParens : isParen node with
  | true =>
    obtain ⟨note, inner, rfl⟩ := exists_paren inParens
    obtain ⟨kept, innerRests⟩ := paren_rests_iff.1 rests
    refine ⟨after, .cons (innerRests.at_place _ ?_) .nil, kept, rfl⟩
    rcases kept with rfl | noLiteral
    · simp [Place.isConsumed]
    · simp [noLiteral, Place.isConsumed]
  | false => exact exists_partsRest rests inParens fun child _ => rests_inferred child

end ScriptSharp.Lowering.LambdaShape
