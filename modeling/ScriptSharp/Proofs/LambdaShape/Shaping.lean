import ScriptSharp.Proofs.LambdaShape.Literals

/-!
# What a function literal takes from its place

Inference goes through the literals of a unit in order, and `Shapes` says what it makes of each of
them. A literal keeps the types that it states. The open ones come from the position that it stands
at: variables, fields, targets and parameters want a type there. Values that are returned, arguments
that a constructor hands on and items of arrays are asked for nothing, although the casts that are
put in later do require a type of them, and a literal there gets parameters of type `object`.

A body that is an expression always becomes a statement that returns it. So a literal returns as
many values as before, also where the result is `void`.
-/

namespace ScriptSharp.Lowering.LambdaShape

open Outcome Node

/-! ## Wanted types -/

/-- The function type that is wanted of a function literal, where `before` and `after` are its
positions before and after inference. A variable or a field wants the type that it had before,
because a variable may get its type from the literal. A target and a callee want what they are
inferred to be. -/
def wanted (before after : Position) : Option (List Ty × Ty) :=
  match before, after with
  | .initial ty, _ => ty.delegate?
  | _, .assigned ty => ty.delegate?
  | _, .argument required => required.bind Ty.delegate?
  | _, _ => none

/-- A parameter keeps the type that it states, and gets the one that is wanted otherwise. -/
def settledParam (shape : Option (List Ty × Ty)) (index : Nat) (param : LambdaParam) :
    LambdaParam :=
  ⟨param.name, some ((param.ty.or (shape.bind (·.1[index]?))).getD .object)⟩

/-- The function literal takes its shape from where it stands. -/
structure TakesShape (before after : Literal) : Prop where
  /-- Every parameter has a type. -/
  params : after.params =
    before.params.mapIdx (settledParam (wanted before.spot.position after.spot.position))
  /-- The result is what the literal states, or else what is wanted. -/
  ret : ∀ shape, wanted before.spot.position after.spot.position = some shape →
    after.ret = some (before.ret.getD shape.2)

/-- What inference makes of a function literal. Nothing is inferred inside the attributes of
fields. -/
structure Shapes (before after : Literal) : Prop where
  decorates : before.spot.decorates = after.spot.decorates
  shape : before.spot.decorates = false → TakesShape before after
  /-- Where no result is stated or wanted, it is `void` exactly when only `void` is returned. -/
  inferred : before.spot.decorates = false → before.ret = none →
    wanted before.spot.position after.spot.position = none →
      (after.ret = some .void ↔ ∀ ty ∈ after.collected, ty = .void)
  /-- It returns as many values as before. -/
  returned : before.returned.length = after.returned.length

/-- Types that are `void` together are all `void` together. -/
theorem forall_void_iff {before after : List Ty} (same : List.Forall₂ SameVoid before after) :
    (∀ ty ∈ before, ty = .void) ↔ ∀ ty ∈ after, ty = .void := by
  induction same with
  | nil => rfl
  | cons first _ inductionHypothesis =>
    rw [List.forall_mem_cons, List.forall_mem_cons, inductionHypothesis]
    exact and_congr_left' first

/-- Casts in the body of a function literal do not change its shape. -/
theorem Shapes.recast {before between after : Literal} (shapes : Shapes before between)
    (recast : Recast between after) : Shapes before after := by
  obtain ⟨spot, params, ret, returned, collected⟩ := recast
  refine ⟨?_, ?_, ?_, shapes.returned.trans returned.length_eq⟩
  · rw [← spot, shapes.decorates]
  · intro inferred
    obtain ⟨takesParams, takesRet⟩ := shapes.shape inferred
    constructor
    · rw [← spot, ← params, takesParams]
    · rw [← spot, ← ret]
      exact takesRet
  · rw [← spot, ← ret, ← forall_void_iff collected]
    exact shapes.inferred

/-- Parameters are settled one by one, by their places. -/
theorem settleParams_eq (shape : Option (List Ty × Ty)) (start : Nat)
    (params : List LambdaParam) :
    (settleParams shape start params).map (fun param => (⟨param.1, some param.2⟩ : LambdaParam)) =
      params.mapIdx fun index param => settledParam shape (start + index) param := by
  induction params generalizing start with
  | nil => rfl
  | cons first rest inductionHypothesis =>
    rw [settleParams, List.map_cons, List.mapIdx_cons, inductionHypothesis]
    simp only [settledParam, Nat.add_zero, Nat.add_assoc, Nat.add_comm 1]

/-! ## Returned values -/

variable {params : Scope} {place : Place} {before after : Scope}

/-- A declaration returns nothing. -/
theorem returned_declare (inferring : Bool) (name : Ident) (declared : Option Ty) (ty : Ty)
    (init : Option Expr) (span : Span) :
    returned inferring (.stmt (.declare name declared ty init span)) = [] := by
  rw [returned_eq (by simp)]
  cases init <;>
    simp [returnedHere, initializers, children, parts, Stmt.parts, Part.value, returned_expr]

/-- A body that is written as a block returns the same types. -/
theorem returnedByBody_asBlock (inferring : Bool) (span : Span) (body : LambdaBody) :
    returnedByBody inferring (.block (asBlock span body)) = returnedByBody inferring body := by
  cases body with
  | expr value =>
    simp only [returnedByBody, asBlock, List.flatMap_cons, List.flatMap_nil, List.append_nil]
    rw [returned_eq (by simp)]
    simp [returnedHere, initializers, children, parts, Stmt.parts, Part.value, returned_expr]
  | block body => rfl

/-- Rebuilding a statement from its parts keeps whether it returns a value. -/
theorem length_returnedHere {source result : Node} (shell : source.shell = result.shell) :
    (returnedHere source).length = (returnedHere result).length := by
  have ofShell (node : Node) : (returnedHere node.shell).length = (returnedHere node).length := by
    cases node with
    | stmt root =>
      cases root
      case ret value span => cases value <;> rfl
      all_goals rfl
    | _ => rfl
  rw [← ofShell source, shell, ofShell]

/-- Inference keeps the number of values that a statement returns. -/
theorem related_returned_inferred (node : Node) {place : Option Place} {result : Node}
    {inferring : Bool} (infers : InfersAt params place before node result after) :
    List.Forall₂ (fun _ _ => True) (returned inferring node) (returned inferring result) := by
  induction node using Node.induct generalizing params place before result after with
  | step node inductionHypothesis =>
    cases place with
    | none =>
      obtain ⟨rfl, -⟩ := infers
      exact List.forall₂_same.2 fun _ _ => trivial
    | some place =>
      obtain ⟨rebuilt, between, shell, threads, finishes⟩ := infers.opens
      have matched : Matches (fun _ child replacement => ∃ index before after,
          InfersAt (innerParams params place node) (placeAt place node rebuilt index) before
            child replacement after) node rebuilt := ⟨shell, threads.related⟩
      have sameParts : List.Forall₂ (fun _ _ => True) (returned inferring node)
          (returned inferring rebuilt) := by
        refine related_returned (matched.imp fun part inferred => ?_) ?_
        · obtain ⟨_, _, _, inferred⟩ := inferred
          exact inductionHypothesis _ (mem_children_of_part part) inferred
        · exact List.forall₂_iff_get.2 ⟨length_returnedHere shell, fun _ _ _ => trivial⟩
      cases finishes with
      | same => exact sameParts
      | ident | invoke | paren | lambda =>
        rw [returned_expr] at sameParts ⊢
        exact sameParts
      | declare =>
        rw [returned_declare] at sameParts ⊢
        exact sameParts

/-! The result of a body is inferred from the values that it returns. -/

mutual
/-- Inference collects the types that a statement returns. -/
theorem returned_inferring : (stmt : Stmt) → returned true (.stmt stmt) = returnTypes stmt
  | .ret none _ | .expr _ | .throw _ | .breakLoop | .continueLoop => by
    rw [returned_eq (by simp)]
    simp [returnedHere, initializers, returnTypes, children, parts, Stmt.parts, Part.value,
      returned_expr]
  | .ret (some _) _ => by
    rw [returned_eq (by simp)]
    simp [returnedHere, initializers, returnTypes, children, parts, Stmt.parts, Part.value,
      returned_expr]
  | .declare name declared ty init span => by simp [returned_declare, returnTypes]
  | .branch condition thenBody elseBody => by
    rw [returned_eq (by simp), returnTypes, ← allReturned_inferring thenBody,
      ← blockReturned_inferring elseBody]
    simp [returnedHere, initializers, children, parts, Stmt.parts, Part.value, Part.stmt,
      returned_expr, List.flatMap_map, Function.comp_def]
  | .whileLoop condition body => by
    rw [returned_eq (by simp), returnTypes, ← allReturned_inferring body]
    simp [returnedHere, initializers, children, parts, Stmt.parts, Part.value, Part.stmt,
      returned_expr, List.flatMap_map, Function.comp_def]
  | .forEach item itemTy source body => by
    rw [returned_eq (by simp), returnTypes, ← allReturned_inferring body]
    simp [returnedHere, initializers, children, parts, Stmt.parts, Part.value, Part.stmt,
      returned_expr, List.flatMap_map, Function.comp_def]
  | .forLoop init condition step body => by
    have nothing {α : Type} (items : List α) : items.flatMap (fun _ => ([] : List Ty)) = [] := by
      simp
    rw [returned_eq (by simp), returnTypes, ← allReturned_inferring body]
    simp [returnedHere, initializers, children, parts, Stmt.parts, Part.value, Part.stmt,
      returned_expr, List.flatMap_map, Function.comp_def, nothing]
  | .block body => by
    rw [returned_eq (by simp), returnTypes, ← allReturned_inferring body]
    simp [returnedHere, initializers, children, parts, Stmt.parts, Part.stmt, List.flatMap_map,
      Function.comp_def]

/-- The same is true of statements in a row. -/
theorem allReturned_inferring : (stmts : List Stmt) →
    (stmts.flatMap fun stmt => returned true (.stmt stmt)) = allReturnTypes stmts
  | [] => rfl
  | first :: rest => by
    rw [List.flatMap_cons, returned_inferring first, allReturned_inferring rest, allReturnTypes]

/-- The same is true of a block that may be absent. -/
theorem blockReturned_inferring : (body : Option (List Stmt)) →
    ((body.getD []).flatMap fun stmt => returned true (.stmt stmt)) = blockReturnTypes body
  | none => rfl
  | some body => by rw [Option.getD_some, allReturned_inferring body, blockReturnTypes]
end

/-- A body is found to return `void` if every value that it returns is `void`. -/
theorem inferReturn_eq_void_iff (body : List Stmt) :
    inferReturn body = .void ↔ ∀ ty ∈ allReturnTypes body, ty = .void := by
  unfold inferReturn
  split
  case h_1 none => simp [none]
  case h_2 first rest found =>
    rw [found, List.forall_mem_cons]
    constructor
    · intro isVoid
      split at isVoid
      · cases isVoid
      case isFalse agree =>
        subst isVoid
        simpa [Ty.isNull] using agree
    · rintro ⟨rfl, others⟩
      rw [if_neg]
      simpa [Ty.isNull] using others

/-! ## Parts -/

/-- The function literals below parts that are inferred one after the other. -/
theorem shapes_below {step : Nat → Scope → Node → Node → Scope → Prop} {spot other : Spot}
    {source result : Node} {start : Nat} {sources results : List Part}
    (threads : Threads step start before sources results after)
    (each : ∀ {index before after child replacement}, child ∈ sources.map (·.2) →
      step index before child replacement after →
        List.Forall₂ Shapes (literals (spot.below source index) child)
          (literals (other.below result index) replacement)) :
    List.Forall₂ Shapes (literalsBelow spot source start (sources.map (·.2)))
      (literalsBelow other result start (results.map (·.2))) := by
  induction threads with
  | nil => exact .nil
  | cons first _ inductionHypothesis =>
    rw [List.map_cons, List.map_cons, literalsBelow_cons, literalsBelow_cons]
    exact List.rel_append (each List.mem_cons_self first)
      (inductionHypothesis fun member => each (List.mem_cons_of_mem _ member))

/-- Everything inside of an attribute of a field stands there. -/
theorem decorates_of_mem (node : Node) {spot : Spot} (decorates : spot.decorates = true) :
    ∀ literal ∈ literals spot node, literal.spot.decorates = true := by
  induction node using Node.induct generalizing spot with
  | step node inductionHypothesis =>
    have inside (index : Nat) : (spot.below node index).decorates = true := by
      unfold Spot.below
      split <;> first | exact decorates | skip
      split
      · rfl
      · exact decorates
    intro literal member
    rw [literals_eq] at member
    rcases List.mem_append.1 member with here | below
    · unfold literal? at here
      split at here
      · obtain rfl := List.mem_singleton.1 here
        exact decorates
      · cases here
    · obtain ⟨entry, entryOf, below⟩ := List.mem_flatMap.1 below
      exact inductionHypothesis _ (List.fst_mem_of_mem_zipIdx entryOf) (inside entry.2) _ below

/-- Function literals that are not looked at stay as they are. -/
theorem shapes_skipped (node : Node) {spot : Spot} (decorates : spot.decorates = true) :
    List.Forall₂ Shapes (literals spot node) (literals spot node) := by
  refine List.forall₂_same.2 fun literal member => ?_
  have skipped := decorates_of_mem node decorates literal member
  exact ⟨rfl, by simp [skipped], by simp [skipped], rfl⟩

/-- The place of a part is what its spots say. -/
structure Agrees (place : Option Place) (spot other : Spot) (child : Node) : Prop where
  decorates : spot.decorates = other.decorates
  skipped : place = none → spot = other ∧ spot.decorates = true
  wanted : ∀ inner expr, place = some inner → child = .expr expr → expr.isLambda = true →
    wanted spot.position other.position = inner.shape?

/-- A part that inference looks at agrees with its place if the place says what is wanted of a
function literal. -/
theorem agrees_reached {spot other : Spot} {child : Node}
    (decorates : spot.decorates = other.decorates)
    (asked : ∀ expr, child = .expr expr → expr.isLambda = true →
      wanted spot.position other.position = place.shape?) :
    Agrees (some place) spot other child := by
  refine ⟨decorates, nofun, ?_⟩
  rintro _ expr ⟨⟩ isExpr literal
  exact asked expr isExpr literal

/-- A part that inference skips agrees with no place. -/
theorem agrees_skipped {spot : Spot} (decorates : spot.decorates = true) (child : Node) :
    Agrees none spot spot child :=
  ⟨rfl, fun _ => ⟨rfl, decorates⟩, nofun⟩

/-- A part of which nothing is wanted agrees with a free place. -/
theorem agrees_free {spot other : Spot} (decorates : spot.decorates = other.decorates)
    (child : Node) :
    Agrees (some .free) { spot with position := .free } { other with position := .free } child :=
  agrees_reached decorates fun _ _ _ => rfl

/-- The places of the parts of a node are what their spots say. -/
theorem agrees_below {source rebuilt result : Node} {between : Scope} {spot other : Spot}
    (shell : source.shell = rebuilt.shell)
    (finishes : Finishes params place between rebuilt result after)
    (kept : ∀ note inner, rebuilt = .expr (.paren note inner) → result = rebuilt)
    (agrees : Agrees (some place) spot other source) {child : Node}
    (member : child ∈ source.children) (index : Nat) :
    Agrees (placeAt place source rebuilt index) (spot.below source index)
      (other.below result index) child := by
  have decorates := agrees.decorates
  -- Places and spots go by the same cases. What is wanted of a part is read off the shell, so the
  -- cases are those of two nodes with one shell.
  cases source <;> cases rebuilt <;> simp only [Node.shell, reduceCtorEq, Node.expr.injEq,
    Node.stmt.injEq, Node.member.injEq] at shell
  case expr.expr left right =>
    cases left <;> cases right <;> simp only [Expr.shell, reduceCtorEq] at shell
    case paren.paren =>
      obtain rfl := kept _ _ rfl
      obtain rfl := List.mem_singleton.1 member
      refine agrees_reached decorates ?_
      rintro _ ⟨⟩ literal
      rw [if_pos literal]
      exact agrees.wanted place _ rfl rfl literal
    case assign.assign =>
      cases finishes
      cases index with
      | zero => exact agrees_free decorates child
      | succ index => exact agrees_reached decorates fun _ _ _ => rfl
    case invoke.invoke =>
      cases index with
      | zero => cases finishes <;> exact agrees_free decorates child
      | succ index => cases finishes <;> exact agrees_reached decorates fun _ _ _ => rfl
    case construct.construct =>
      obtain ⟨-, -, -, rfl⟩ := Expr.construct.inj shell
      cases finishes
      exact agrees_reached decorates fun _ _ _ => rfl
    all_goals cases finishes <;> exact agrees_free decorates child
  case stmt.stmt left right =>
    cases left <;> cases right <;> simp only [Stmt.shell, reduceCtorEq] at shell
    case declare.declare =>
      cases finishes with
      | same plain => cases plain
      | declare => exact agrees_reached decorates fun _ _ _ => rfl
    all_goals
      cases finishes
      exact agrees_free decorates child
  case member.member left right =>
    cases left <;> cases right <;> simp only [Member.shell, reduceCtorEq] at shell
    case field.field left right =>
      simp only [Member.field.injEq, FieldDecl.mk.injEq] at shell
      obtain ⟨-, sameTy, -, -, holes, -⟩ := shell
      have sameLength : left.attrs.length = right.attrs.length := by
        simpa using congrArg List.length holes
      cases finishes
      simp only [placeAt, Spot.below, ← sameTy, ← sameLength]
      split
      · exact agrees_skipped rfl child
      · exact agrees_reached decorates fun _ _ _ => rfl
    all_goals
      cases finishes
      exact agrees_free decorates child
  all_goals
    cases finishes
    exact agrees_free decorates child

/-! ## One node -/

/-- A body that became a block holds the function literals of the body. -/
theorem literalsBelow_asBlock (spot : Spot) (note : Note) (lambdaParams : List LambdaParam)
    (ret : Option Ty) (body bodyOf : LambdaBody) (span : Span) :
    literalsBelow spot (.expr (.lambda note lambdaParams ret bodyOf)) 0
        ((LambdaBody.block (asBlock span body)).parts.map (·.2)) =
      literalsBelow spot (.expr (.lambda note lambdaParams ret bodyOf)) 0
        (body.parts.map (·.2)) := by
  cases body with
  | expr value =>
    simp only [literalsBelow, asBlock, LambdaBody.parts, Part.stmt, Part.value, List.map_cons,
      List.map_nil, List.zipIdx_cons, List.zipIdx_nil, List.flatMap_cons, List.flatMap_nil,
      List.append_nil]
    rw [literals_eq]
    simp [literal?, literalsBelow, children, parts, Stmt.parts, Part.value, Spot.below]
  | block body => rfl

/-- A node that comes from no function literal is none. -/
theorem literal?_eq_none {source rebuilt : Node} (shell : source.shell = rebuilt.shell)
    {spot other : Spot} (noLiteral : literal? other rebuilt = none) :
    literal? spot source = none := by
  cases source <;> cases rebuilt <;> simp only [Node.shell, reduceCtorEq, Node.expr.injEq] at shell
  case expr.expr left right =>
    cases left <;> cases right <;> simp only [Expr.shell, reduceCtorEq] at shell
    case lambda.lambda => cases noLiteral
    all_goals rfl
  all_goals rfl

/-- A function literal gets its shape, and the ones inside it theirs. -/
theorem shapes_lambda {note : Note} {lambdaParams : List LambdaParam} {ret : Option Ty}
    {body rebuilt : LambdaBody} {spot other : Spot} {span : Span}
    (agrees : Agrees (some place) spot other (.expr (.lambda note lambdaParams ret body)))
    (sameReturned : (returnedByBody false body).length = (returnedByBody false rebuilt).length)
    (inside : List.Forall₂ Shapes
      (literalsBelow spot (.expr (.lambda note lambdaParams ret body)) 0 (body.parts.map (·.2)))
      (literalsBelow other (.expr (.lambda note lambdaParams ret rebuilt)) 0
        (rebuilt.parts.map (·.2)))) :
    List.Forall₂ Shapes (literals spot (.expr (.lambda note lambdaParams ret body)))
      (literals other (.expr (shaped note.span (settleParams place.shape? 0 lambdaParams)
        ((ret.or (place.shape?.map (·.2))).getD (inferReturn (asBlock span rebuilt)))
        (asBlock span rebuilt)))) := by
  have asked : wanted spot.position other.position = place.shape? :=
    agrees.wanted place _ rfl rfl rfl
  rw [literals_eq, literals_eq]
  refine List.rel_append (.cons ?here .nil) ?below
  case here =>
    refine ⟨agrees.decorates, fun _ => ⟨?_, fun shape isShape => ?_⟩, ?_, ?_⟩
    · rw [asked]
      simpa only [Nat.zero_add] using settleParams_eq place.shape? 0 lambdaParams
    · rw [← asked, isShape]
      cases ret <;> rfl
    · rintro - rfl isOpen
      rw [← asked, isOpen]
      simpa [returnedByBody, allReturned_inferring] using
        inferReturn_eq_void_iff (asBlock span rebuilt)
    · rw [returnedByBody_asBlock]
      exact sameReturned
  case below =>
    simp only [children, parts, Expr.parts, shaped]
    rw [literalsBelow_asBlock]
    exact inside

/-- What inference makes of the function literals of a node. -/
theorem shapes_inferred (node : Node) {place : Option Place} {result : Node} {spot other : Spot}
    (infers : InfersAt params place before node result after)
    (agrees : Agrees place spot other node) :
    List.Forall₂ Shapes (literals spot node) (literals other result) := by
  induction node using Node.induct generalizing params place before result after spot other with
  | step node inductionHypothesis =>
    cases place with
    | none =>
      obtain ⟨rfl, -⟩ := infers
      obtain ⟨rfl, decorates⟩ := agrees.skipped rfl
      exact shapes_skipped _ decorates
    | some place =>
      obtain ⟨rebuilt, between, shell, threads, finishes⟩ := infers.opens
      have inside (kept : ∀ note inner, rebuilt = .expr (.paren note inner) → result = rebuilt) :
          List.Forall₂ Shapes (literalsBelow spot node 0 node.children)
            (literalsBelow other result 0 rebuilt.children) :=
        shapes_below threads fun {index _ _ _ _} member inferred =>
          inductionHypothesis _ member inferred
            (agrees_below shell finishes kept agrees member index)
      have plain (kept : ∀ note inner, rebuilt = .expr (.paren note inner) → result = rebuilt)
          (sameChildren : result.children = rebuilt.children)
          (noLiteral : literal? other rebuilt = none) (none : literal? other result = none) :
          List.Forall₂ Shapes (literals spot node) (literals other result) := by
        rw [literals_eq, literals_eq, literal?_eq_none shell noLiteral, none, sameChildren]
        exact inside kept
      -- Parentheses hand their place on, and a literal has a shape of its own. All other nodes have
      -- the literals of their parts.
      cases finishes with
      | same stays =>
        refine plain (fun _ _ _ => rfl) rfl ?_ ?_ <;>
        · unfold literal?
          split
          · cases stays
          · rfl
      | ident => exact plain (by simp) rfl rfl rfl
      | invoke => exact plain (by simp) rfl rfl rfl
      | declare => exact plain (by simp) rfl rfl rfl
      | @paren note inner required consumed =>
        cases node <;> simp only [Node.shell, reduceCtorEq, Node.expr.injEq] at shell
        case expr root =>
        cases root <;> simp only [Expr.shell, reduceCtorEq] at shell
        case paren sourceNote sourceInner =>
        cases threads with
        | cons first _ =>
          rw [literals_paren]
          refine inductionHypothesis _ List.mem_cons_self first
            (agrees_reached agrees.decorates ?_)
          rintro _ ⟨⟩ literal
          rw [if_pos literal]
          exact agrees.wanted place _ rfl rfl literal
      | lambda =>
        cases node <;> simp only [Node.shell, reduceCtorEq, Node.expr.injEq] at shell
        case expr root =>
        cases root <;> simp only [Expr.shell, reduceCtorEq] at shell
        case lambda note lambdaParams ret body =>
        obtain ⟨rfl, rfl, rfl, sameBody⟩ := Expr.lambda.inj shell
        refine shapes_lambda agrees (List.Forall₂.length_eq (R := fun _ _ => True) ?_)
          (inside (by simp [shaped]))
        refine related_returnedByBody sameBody (threads.related.imp fun _ _ related => ?_)
          fun _ _ _ _ => trivial
        obtain ⟨sameSlot, _, _, _, inferred⟩ := related
        exact ⟨sameSlot, related_returned_inferred _ inferred⟩

/-! ## Units -/

variable {types : TypeTable}

/-- Where the parts of a unit stand. -/
def Spot.top : Spot := ⟨.free, false⟩

/-- Nothing is wanted at the top of a tree. -/
theorem agrees_top (node : Node) : Agrees (some .free) .top .top node :=
  agrees_free (rfl : Spot.top.decorates = Spot.top.decorates) node

/-- What becomes of the function literals of a member. -/
theorem shapes_member {source result : Member}
    (ends : Ends (member types source) before result after) :
    List.Forall₂ Shapes (literals .top (.member source)) (literals .top (.member result)) := by
  obtain ⟨inferred, infers, settled⟩ := member_settles ends
  have shapes := shapes_inferred _ infers (agrees_top _)
  rcases settled with rfl | settling
  · exact shapes
  · exact forall₂_trans shapes (literals_walk _ (walk_member settling) .top) Shapes.recast

/-- What becomes of the function literals of a part of a unit. -/
theorem shapes_settled (node : Node) {result : Node}
    (settles : Settles types before node result after) :
    List.Forall₂ Shapes (literals .top node) (literals .top result) := by
  induction node using Node.induct generalizing before result after with
  | step node inductionHypothesis =>
    cases node with
    | member source =>
      cases result <;> first | exact settles.elim | skip
      exact shapes_member settles
    | decl source =>
      cases result <;> first | exact settles.elim | skip
      rw [literals_eq, literals_eq]
      exact shapes_below (decl_threads settles) fun member settled =>
        inductionHypothesis _ member settled
    | expr | stmt | attr | unit =>
      cases result <;> first | exact settles.elim | skip
      all_goals
        simp only [Settles] at settles
        exact shapes_inferred _ settles (agrees_top _)

/-- Inference shapes the function literals of a unit one by one. -/
theorem shapes_unit {source result : SourceUnit}
    (lowered : LambdaShape.unit types source = .ok result) :
    List.Forall₂ Shapes (literals .top (.unit source)) (literals .top (.unit result)) := by
  obtain ⟨after, threads⟩ := unit_threads lowered
  rw [literals_eq, literals_eq]
  exact shapes_below threads fun _ settled => shapes_settled _ settled

/-! A class that handles numbers by function literals with an open parameter `x`. -/

namespace Listener

/-- The type of a function that takes a number and gives nothing. -/
def handler : Ty := .delegate [.int] .void

/-- A function literal with an open parameter. -/
def literal (body : LambdaBody) : Expr :=
  .lambda (Expr.noteOf .object) [⟨.plain "x", none⟩] none body

/-- The function literal for a parameter of type `ty`. -/
def literalOf (ty : Ty) (body : List Stmt) : Expr :=
  shaped .unknown [(.plain "x", ty)] .void body

/-- The parameter `x` where it has type `ty`. -/
def x (ty : Ty) : Expr := .ident (Expr.noteOf ty) (.plain "x") .parameter

/-- A call that reports `x` and has no result. -/
def report (ty : Ty) : Expr :=
  .invoke (Expr.noteOf .void)
    (.ident (Expr.noteOf .void) (.plain "Report") (.member ⟨1, .method, true, none⟩)) []
    [x ty] none

/-- A class with some members. -/
def script (members : List Member) : SourceUnit where
  fileName := "Listener.js"
  imports := []
  implicitImports := []
  decls := [{
    id := 1, name := .plain "Listener", kind := .classType, modifiers := .none, attrs := []
    base := none, interfaces := [], members
    enumMembers := [], isScript := true, span := .unknown }]
  globals := []
  sourceText := none

/-- A method that keeps a value in a variable of type `ty`. -/
def keep (ty : Ty) (value : Expr) : Member :=
  .method ⟨.plain "Keep", [], .void,
    some [.declare (.plain "kept") (some ty) ty (some value) .unknown], .none, [], .unknown⟩

/-- The class that keeps a handler in a variable. -/
def keeping (value : Expr) : SourceUnit := script [keep handler value]

/-- The class that keeps a handler in a variable of type `object`. -/
def storing (value : Expr) : SourceUnit := script [keep .object value]

/-- A method that keeps a value in a variable whose type is found to be `ty`. -/
def guess (ty : Ty) (value : Expr) : Member :=
  .method ⟨.plain "Guess", [], .void,
    some [.declare (.plain "kept") none ty (some value) .unknown], .none, [], .unknown⟩

/-- The class that keeps a handler in a variable, and another function in a variable of type
`ty`. -/
def reporting (ty : Ty) (first second : Expr) : SourceUnit :=
  script [keep handler first, guess ty second]

/-- The class that hands a handler on to another constructor, returns one, and keeps one in an
array. -/
def passing (value : Expr) : SourceUnit :=
  script [
    .ctor ⟨[], some ⟨.base, [value], some ⟨[⟨"first", handler, .none⟩], .void⟩⟩, [], .none,
      .unknown⟩,
    .method ⟨.plain "Find", [], handler, some [.ret (some value) .unknown], .none, [], .unknown⟩,
    keep (.array handler) (.array (Expr.noteOf (.array handler)) handler [value])]

end Listener

/-- After inference every function literal has the shape that is wanted of it: its parameters have
the types that it states, else the wanted ones, else `object`, and its result is what it states, or
else what is wanted. -/
theorem unit_literal_shapes {source result : SourceUnit}
    (lowered : LambdaShape.unit types source = .ok result) :
    List.Forall₂ (fun before after => before.spot.decorates = false → TakesShape before after)
      (literals .top (.unit source)) (literals .top (.unit result)) :=
  (shapes_unit lowered).imp fun _ _ => Shapes.shape

/-- The literal that a variable keeps takes its shape from the type of the variable. -/
theorem unit_literal_shapes_keeping :
    LambdaShape.unit (.ofTypes []) (Listener.keeping (Listener.literal (.block []))) =
      .ok ((Listener.keeping (Listener.literalOf .int [])).requireImport "System") ∧
    ∃ before after,
      literals .top (.unit (Listener.keeping (Listener.literal (.block [])))) = [before] ∧
      literals .top (.unit ((Listener.keeping (Listener.literalOf .int [])).requireImport
        "System")) = [after] ∧
      wanted before.spot.position after.spot.position = some ([.int], .void) ∧
      TakesShape before after := by
  have lowered : LambdaShape.unit (.ofTypes [])
      (Listener.keeping (Listener.literal (.block []))) =
        .ok ((Listener.keeping (Listener.literalOf .int [])).requireImport "System") := by
    decide +kernel
  have shapes := unit_literal_shapes lowered
  have sources : literals .top (.unit (Listener.keeping (Listener.literal (.block [])))) =
      [⟨⟨.initial Listener.handler, false⟩, [⟨.plain "x", none⟩], none, [], []⟩] := by
    decide +kernel
  have results : literals .top (.unit ((Listener.keeping
      (Listener.literalOf .int [])).requireImport "System")) =
        [⟨⟨.initial Listener.handler, false⟩, [⟨.plain "x", some .int⟩], some .void, [], []⟩] := by
    decide +kernel
  rw [sources, results] at shapes
  cases shapes with
  | cons first _ => exact ⟨lowered, _, _, sources, results, rfl, first rfl⟩

/-- A function literal that is handed on to another constructor, returned or kept in an array gets
a parameter of type `object`, although a function of a number is required there. -/
theorem unit_literals_unasked :
    LambdaShape.unit (.ofTypes []) (Listener.passing (Listener.literal (.block []))) =
      .ok ((Listener.passing (Listener.literalOf .object [])).requireImport "System") ∧
    (literals .top (.unit (Listener.passing (Listener.literal (.block []))))).length = 3 ∧
    ∀ after ∈ literals .top (.unit ((Listener.passing
        (Listener.literalOf .object [])).requireImport "System")),
      after.params = [⟨.plain "x", some .object⟩] ∧
        after.params ≠ [settledParam (some ([.int], .void)) 0 ⟨.plain "x", none⟩] := by
  refine ⟨by decide +kernel, by decide +kernel, by decide +kernel⟩

/-- After inference a function literal without a result returns no value exactly when it returned
none before. A result that is neither stated nor wanted is inferred to be `void` exactly when only
values of type `void` are returned outside of what initializes loops. -/
theorem unit_void_literals {source result : SourceUnit}
    (lowered : LambdaShape.unit types source = .ok result) :
    List.Forall₂ (fun before after =>
      (after.ret = some .void → (after.returned = [] ↔ before.returned = [])) ∧
      (before.spot.decorates = false → before.ret = none →
        wanted before.spot.position after.spot.position = none →
          (after.ret = some .void ↔ ∀ ty ∈ after.collected, ty = .void)))
      (literals .top (.unit source)) (literals .top (.unit result)) := by
  refine (shapes_unit lowered).imp fun before after shapes => ⟨fun _ => ?_, shapes.inferred⟩
  rw [← List.length_eq_zero_iff, ← shapes.returned, List.length_eq_zero_iff]

/-- The literal that an `object` variable keeps has no result, since its body returns nothing. -/
theorem unit_void_literals_storing :
    LambdaShape.unit (.ofTypes []) (Listener.storing (Listener.literal (.block []))) =
      .ok ((Listener.storing (Listener.literalOf .object [])).requireImport "System") ∧
    ∃ before after,
      literals .top (.unit (Listener.storing (Listener.literal (.block [])))) = [before] ∧
      literals .top (.unit ((Listener.storing (Listener.literalOf .object [])).requireImport
        "System")) = [after] ∧
      after.ret = some .void ∧ after.returned = [] := by
  have lowered : LambdaShape.unit (.ofTypes [])
      (Listener.storing (Listener.literal (.block []))) =
        .ok ((Listener.storing (Listener.literalOf .object [])).requireImport "System") := by
    decide +kernel
  have returns := unit_void_literals lowered
  have sources : literals .top (.unit (Listener.storing (Listener.literal (.block [])))) =
      [⟨⟨.initial .object, false⟩, [⟨.plain "x", none⟩], none, [], []⟩] := by
    decide +kernel
  have results : literals .top (.unit ((Listener.storing
      (Listener.literalOf .object [])).requireImport "System")) =
        [⟨⟨.initial .object, false⟩, [⟨.plain "x", some .object⟩], some .void, [], []⟩] := by
    decide +kernel
  rw [sources, results] at returns
  cases returns with
  | cons first _ =>
    have isVoid := (first.2 rfl rfl rfl).2 nofun
    exact ⟨lowered, _, _, sources, results, isVoid, (first.1 isVoid).2 rfl⟩

/-- A function literal that reports its parameter returns what the report gives, although nothing is
to be returned where a handler is wanted, and nothing is found to be returned otherwise. -/
theorem unit_void_value_returned :
    LambdaShape.unit (.ofTypes []) (Listener.reporting .object
        (Listener.literal (.expr (Listener.report .int)))
        (Listener.literal (.expr (Listener.report .int)))) =
      .ok ((Listener.reporting (.delegate [.object] .void)
        (Listener.literalOf .int [.ret (some (Listener.report .int)) .unknown])
        (Listener.literalOf .object [.ret (some (Listener.report .object)) .unknown])).requireImport
          "System") ∧
    ∀ after ∈ literals .top (.unit ((Listener.reporting (.delegate [.object] .void)
        (Listener.literalOf .int [.ret (some (Listener.report .int)) .unknown])
        (Listener.literalOf .object [.ret (some (Listener.report .object)) .unknown])).requireImport
          "System")),
      after.ret = some .void ∧ after.returned ≠ [] := by
  refine ⟨by decide +kernel, by decide +kernel⟩

end ScriptSharp.Lowering.LambdaShape
