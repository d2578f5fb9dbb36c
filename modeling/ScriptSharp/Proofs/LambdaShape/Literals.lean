import ScriptSharp.Proofs.Coercion.Erasure
import ScriptSharp.Proofs.LambdaShape.Inference

/-!
# The function literals of a tree

`literals` lists the function literals of a tree from left to right, an outer one before those
inside it. Each comes with its spot, with the types that it states, and with the types of the values
that it returns. Putting in casts keeps the list: `literals_walk` says that only the types of
returned values may become other ones.
-/

namespace ScriptSharp

/-- Relations of the items of lists compose. -/
theorem forall₂_trans {α β γ : Type} {first : α → β → Prop} {second : β → γ → Prop}
    {both : α → γ → Prop} {sources : List α} {middles : List β} {results : List γ}
    (toMiddle : List.Forall₂ first sources middles)
    (fromMiddle : List.Forall₂ second middles results)
    (compose : ∀ {a b c}, first a b → second b c → both a c) :
    List.Forall₂ both sources results := by
  induction toMiddle generalizing results with
  | nil =>
    cases fromMiddle
    exact .nil
  | cons here _ inductionHypothesis =>
    cases fromMiddle with
    | cons there rest => exact .cons (compose here there) (inductionHypothesis rest)

namespace Lowering.LambdaShape

open Outcome Node

/-! ## Spots -/

/-- What is done with an expression, as far as a type is wanted for it. -/
inductive Position where
  /-- Nothing that wants a type. Here are also the values that are returned, the arguments that a
  constructor hands on and the items of arrays. -/
  | free
  /-- It initializes a variable or a field of type `ty`. -/
  | initial (ty : Ty)
  /-- It is assigned to something of type `ty`. -/
  | assigned (ty : Ty)
  /-- It is an argument of a call, of the call of a function value, or of a construction. -/
  | argument (required : Option Ty)
  deriving DecidableEq

/-- Where an expression stands. -/
structure Spot where
  position : Position
  /-- It stands inside of an attribute of a field. -/
  decorates : Bool
  deriving DecidableEq

/-- The spot of the part at `index`. Parentheses stand at the spot of what they are around. -/
def Spot.below (spot : Spot) (node : Node) (index : Nat) : Spot :=
  match node with
  | .expr (.paren ..) => spot
  | .expr (.assign _ _ target _) =>
    { spot with position := if index = 0 then .free else .assigned target.ty }
  | .expr (.invoke _ callee _ _ signature) =>
    { spot with position := if index = 0 then .free
        else .argument (requiredArg signature callee.ty.delegate? (index - 1)) }
  | .expr (.construct _ _ _ signature) =>
    { spot with position := .argument (requiredArg signature none index) }
  | .stmt (.declare _ declared ty _ _) => { spot with position := .initial (declared.getD ty) }
  | .member (.field decl) =>
    if index < decl.attrs.length then ⟨.free, true⟩ else ⟨.initial decl.ty, spot.decorates⟩
  | _ => { spot with position := .free }

/-! ## Returned values -/

/-- The type of the value that the statement itself returns. -/
def returnedHere : Node → List Ty
  | .stmt (.ret (some value) _) => [value.ty]
  | _ => []

/-- How many of the parts of a node initialize a loop. -/
def initializers : Node → Nat
  | .stmt (.forLoop init _ _ _) => init.length
  | _ => 0

/-- The types of the values that a statement returns from the function around it. What function
literals inside it return is not among them. If `inferring` is set, what initializes loops is left
out. -/
def returned (inferring : Bool) (node : Node) : List Ty :=
  match node with
  | .expr _ => []
  | node => returnedHere node ++
    (node.children.drop (if inferring then initializers node else 0)).attach.flatMap fun child =>
      returned inferring child.1
termination_by sizeOf node
decreasing_by exact Node.sizeOf_child_lt (List.mem_of_mem_drop child.2)

/-- An expression returns nothing from the body that it stands in. -/
theorem returned_expr (inferring : Bool) (expr : Expr) : returned inferring (.expr expr) = [] := by
  rw [returned]

/-- What is returned from a node is what it returns itself and what is returned below it. -/
theorem returned_eq {inferring : Bool} {node : Node} (other : ∀ expr, node ≠ .expr expr) :
    returned inferring node = returnedHere node ++
      (node.children.drop (if inferring then initializers node else 0)).flatMap
        (returned inferring) := by
  rw [returned]
  · simp [List.flatMap]
  · exact other

/-- The types of the values that a function literal with this body returns. -/
def returnedByBody (inferring : Bool) : LambdaBody → List Ty
  | .expr value => [value.ty]
  | .block body => body.flatMap fun stmt => returned inferring (.stmt stmt)

/-! ## Literals -/

/-- A function literal. -/
structure Literal where
  spot : Spot
  params : List LambdaParam
  ret : Option Ty
  /-- The types of the values that it returns. -/
  returned : List Ty
  /-- The types that its result is inferred from. -/
  collected : List Ty
  deriving DecidableEq

/-- The function literal that a node is. -/
def literal? (spot : Spot) : Node → Option Literal
  | .expr (.lambda _ params ret body) =>
    some ⟨spot, params, ret, returnedByBody false body, returnedByBody true body⟩
  | _ => none

/-- The function literals at and below a node. -/
def literals (spot : Spot) (node : Node) : List Literal :=
  (literal? spot node).toList ++ node.children.zipIdx.attach.flatMap fun entry =>
    literals (spot.below node entry.1.2) entry.1.1
termination_by sizeOf node
decreasing_by exact Node.sizeOf_child_lt (List.fst_mem_of_mem_zipIdx entry.2)

/-- The function literals below the parts of a node, where the first part has the number `start`. -/
def literalsBelow (spot : Spot) (node : Node) (start : Nat) (children : List Node) :
    List Literal :=
  (children.zipIdx start).flatMap fun entry => literals (spot.below node entry.2) entry.1

/-- The function literals of a node are the node itself, if it is one, and those below it. -/
theorem literals_eq (spot : Spot) (node : Node) :
    literals spot node =
      (literal? spot node).toList ++ literalsBelow spot node 0 node.children := by
  have same := List.attach_map_val (l := node.children.zipIdx)
    (f := fun entry => literals (spot.below node entry.2) entry.1)
  rw [literals, List.flatMap, same]
  rfl

/-- The function literals of parts are those of the first part and of the others. -/
theorem literalsBelow_cons (spot : Spot) (node : Node) (start : Nat) (child : Node)
    (rest : List Node) : literalsBelow spot node start (child :: rest) =
      literals (spot.below node start) child ++ literalsBelow spot node (start + 1) rest := by
  simp [literalsBelow]

/-- Parts whose function literals are related have related function literals together. -/
theorem related_literalsBelow {related : Literal → Literal → Prop} {spot other : Spot}
    {source result : Node} {children replacements : List Node} (start : Nat)
    (each : List.Forall₂ (fun child replacement => ∀ index, List.Forall₂ related
      (literals (spot.below source index) child) (literals (other.below result index) replacement))
      children replacements) :
    List.Forall₂ related (literalsBelow spot source start children)
      (literalsBelow other result start replacements) := by
  induction each generalizing start with
  | nil => exact .nil
  | cons first _ inductionHypothesis =>
    rw [literalsBelow_cons, literalsBelow_cons]
    exact List.rel_append (first start) (inductionHypothesis (start + 1))

/-- Nodes whose parts have the same function literals have the same ones. -/
theorem literals_congr {spot other : Spot} {source result : Node}
    (here : literal? spot source = literal? other result)
    (each : List.Forall₂ (fun child replacement => ∀ index,
      literals (spot.below source index) child = literals (other.below result index) replacement)
      source.children result.children) : literals spot source = literals other result := by
  rw [literals_eq, literals_eq, here]
  refine congrArg (_ ++ ·) (List.forall₂_eq_eq_eq ▸ related_literalsBelow 0 (each.imp ?_))
  intro child replacement same index
  rw [same index, List.forall₂_eq_eq_eq]

/-- Where an expression stands matters only if it is a function literal. -/
theorem literals_of_other {spot other : Spot} {expr : Expr} (noLiteral : expr.isLambda = false)
    (same : spot.decorates = other.decorates) :
    literals spot (.expr expr) = literals other (.expr expr) := by
  induction expr using Expr.stripParens.induct with
  | case1 note inner inductionHypothesis =>
    exact literals_congr rfl (.cons (fun _ => inductionHypothesis noLiteral) .nil)
  | case2 expr noParen =>
    refine literals_congr ?_ (List.forall₂_same.2 fun child _ index => ?_)
    · cases expr <;> first | rfl | cases noLiteral
    · have below : spot.below (.expr expr) index = other.below (.expr expr) index := by
        cases expr <;> first | exact absurd rfl (noParen _ _) | simp [Spot.below, same]
      rw [below]

/-- Parentheses hide no function literal. -/
theorem literals_paren (spot : Spot) (note : Note) (inner : Expr) :
    literals spot (.expr (.paren note inner)) = literals spot (.expr inner) := by
  rw [literals_eq]
  simp [literal?, literalsBelow, children, parts, Expr.parts, Part.value, Spot.below]

/-- Under a cast no type is wanted for a function literal. -/
theorem literals_castTo (spot : Spot) (expr : Expr) (ty : Ty) :
    literals spot (.expr (expr.castTo ty)) =
      literals { spot with position := .free } (.expr expr) := by
  rw [literals_eq]
  simp [literal?, literalsBelow, children, parts, Expr.parts, Part.value, Spot.below, Expr.castTo]

/-! ## Casts -/

section Casts

variable {types : TypeTable} {returnType : Option Ty}

/-- Function literals need no casts. -/
theorem noLiteral_of_needsCast {required : Ty} {expr : Expr}
    (needed : Coercion.needsCast types required expr = true) : expr.isLambda = false := by
  simp only [Coercion.needsCast, Bool.not_eq_true', Bool.or_eq_false_iff] at needed
  exact needed.1.1.1.1.1.2

/-- A cast that is needed stands around no function literal. -/
theorem literals_coerce (spot : Spot) (required : Ty) (expr : Expr) :
    literals spot (.expr (Coercion.coerce types required expr)) = literals spot (.expr expr) := by
  rw [Coercion.coerce]
  split
  case isTrue needed =>
    rw [literals_castTo]
    exact literals_of_other (noLiteral_of_needsCast needed) rfl
  case isFalse => rfl

/-- The cast of an argument stands around no function literal. -/
theorem literals_coerceArg (spot : Spot) (signature : Signature) (index : Nat) (arg : Expr) :
    literals spot (.expr (Coercion.coerceArg types signature index arg)) =
      literals spot (.expr arg) := by
  rw [Coercion.coerceArg]
  split
  · split
    · rfl
    · exact literals_coerce spot _ arg
  · rfl

/-- There are no function literals in a repeatable expression. -/
theorem literals_of_repeatable (node : Node) {expr : Expr} (isExpr : node = .expr expr)
    (repeatable : Coercion.isRepeatable expr = true) (spot : Spot) : literals spot node = [] := by
  induction node using Node.induct generalizing expr spot with
  | step node inductionHypothesis =>
    subst isExpr
    rw [literals_eq, List.append_eq_nil_iff]
    refine ⟨?_, List.flatMap_eq_nil_iff.2 fun entry entryOf => ?_⟩
    · cases expr <;> first | rfl | cases repeatable
    · have member := List.fst_mem_of_mem_zipIdx entryOf
      obtain ⟨inner, isInner, inside⟩ := Coercion.repeatable_child repeatable member
      exact inductionHypothesis _ member isInner inside _

/-- The function literals of an assignment are those of its target and of its value. -/
theorem literals_assign (spot : Spot) (note : Note) (op : Option BinaryOp) (target value : Expr) :
    literals spot (.expr (.assign note op target value)) =
      literals { spot with position := .free } (.expr target) ++
        literals { spot with position := .assigned target.ty } (.expr value) := by
  rw [literals_eq]
  simp [literal?, literalsBelow, children, parts, Expr.parts, Part.value, Part.target, Spot.below]

/-- The function literals of an operation are those of its operands. -/
theorem literals_binary (spot : Spot) (note : Note) (op : BinaryOp) (left right : Expr) :
    literals spot (.expr (.binary note op left right)) =
      literals { spot with position := .free } (.expr left) ++
        literals { spot with position := .free } (.expr right) := by
  rw [literals_eq]
  simp [literal?, literalsBelow, children, parts, Expr.parts, Part.value, Spot.below]

/-- Putting casts into an assignment keeps its function literals. -/
theorem literals_coerceAssign {note : Note} {op : Option BinaryOp} {target value result : Expr}
    (left : Coercion.coerceAssign types note op target value = .ok result) (spot : Spot) :
    literals spot (.expr result) = literals spot (.expr (.assign note op target value)) := by
  cases op with
  | none =>
    obtain rfl := Except.ok.inj left
    rw [literals_assign, literals_assign, literals_coerce]
  | some op =>
    simp only [Coercion.coerceAssign] at left
    split_ifs at left with accepted numeric repeatable
    · obtain rfl := Except.ok.inj left
      rfl
    · obtain rfl := Except.ok.inj left
      have needed : Coercion.needsCast types target.ty value = true := by simp_all
      rw [literals_assign, literals_castTo, literals_binary, literals_assign,
        literals_of_repeatable _ rfl repeatable, List.nil_append, List.nil_append, List.nil_append]
      exact literals_of_other (noLiteral_of_needsCast needed) rfl
    · obtain rfl := Except.ok.inj left
      rw [literals_assign, literals_assign, literals_coerce]

/-- Expressions with casts hold the same function literals. -/
theorem literals_mapIdx {step : Nat → Expr → Expr}
    (keeps : ∀ spot index expr,
      literals spot (.expr (step index expr)) = literals spot (.expr expr))
    (exprs : List Expr) :
    List.Forall₂ (fun replacement child => ∀ spot, literals spot replacement = literals spot child)
      (((exprs.mapIdx step).map Part.value).map (·.2)) ((exprs.map Part.value).map (·.2)) := by
  induction exprs generalizing step with
  | nil => exact .nil
  | cons first rest inductionHypothesis =>
    rw [List.mapIdx_cons]
    exact .cons (keeps · 0 first) (inductionHypothesis fun spot index => keeps spot (index + 1))

/-- Putting casts around operands keeps their function literals. -/
theorem literals_coerceOperands (spot : Spot) (note : Note) (op : BinaryOp) (left right : Expr) :
    literals spot (.expr (.binary note op (Coercion.coerceOperands types op left right).1
      (Coercion.coerceOperands types op left right).2)) =
      literals spot (.expr (.binary note op left right)) := by
  rw [literals_binary, literals_binary, Coercion.coerceOperands]
  split_ifs <;> simp only [literals_castTo]

/-- A finished expression holds the function literals of the one that its parts made. -/
theorem literals_leave {expr result : Expr} (finished : Coercion.leave types expr = .ok result)
    (spot : Spot) : literals spot (.expr result) = literals spot (.expr expr) := by
  -- A cast is put around a part only, and a function literal gets none.
  cases expr
  case assign => exact literals_coerceAssign finished spot
  case binary note op left right =>
    obtain rfl := Except.ok.inj finished
    exact literals_coerceOperands spot note op left right
  case invoke note callee typeArgs args signature =>
    obtain rfl := Except.ok.inj finished
    refine literals_congr rfl (.cons (fun _ => rfl) ?_)
    split
    · exact (literals_mapIdx (fun spot => literals_coerceArg spot _) args).imp fun _ _ same _ =>
        same _
    · refine (literals_mapIdx (fun spot index arg => ?_) args).imp fun _ _ same _ => same _
      split
      · exact literals_coerce spot _ arg
      · rfl
    · exact List.forall₂_same.2 fun _ _ _ => rfl
  case construct note constructed args signature =>
    cases signature with
    | none =>
      obtain rfl := Except.ok.inj finished
      rfl
    | some signature =>
      obtain rfl := Except.ok.inj finished
      refine literals_congr rfl ?_
      exact (literals_mapIdx (fun spot => literals_coerceArg spot _) args).imp fun _ _ same _ =>
        same _
  case array note element items =>
    obtain rfl := Except.ok.inj finished
    refine literals_congr rfl ?_
    simp only [children, parts, Expr.parts, List.map_map, List.forall₂_map_left_iff,
      List.forall₂_map_right_iff, List.forall₂_same]
    exact fun item _ index => literals_coerce _ element item
  all_goals
    obtain rfl := Except.ok.inj finished
    rfl

/-- Putting a cast around a value that may be absent keeps its function literals. -/
theorem literals_optional (required : Ty) (value : Option Expr) :
    List.Forall₂ (fun replacement child => ∀ spot, literals spot replacement = literals spot child)
      (((value.map (Coercion.coerce types required)).toList.map Part.value).map (·.2))
      ((value.toList.map Part.value).map (·.2)) := by
  cases value with
  | none => exact .nil
  | some value => exact .cons (literals_coerce · required value) .nil

/-- Putting casts into a statement keeps its function literals. -/
theorem literals_leaveStmt (returnType : Option Ty) (stmt : Stmt) (spot : Spot) :
    literals spot (.stmt (Coercion.leaveStmt types returnType stmt)) =
      literals spot (.stmt stmt) := by
  cases stmt
  case declare name declared ty init span =>
    exact literals_congr rfl ((literals_optional _ init).imp fun _ _ same _ => same _)
  case ret value span =>
    cases returnType with
    | none => rfl
    | some required =>
      exact literals_congr rfl ((literals_optional _ value).imp fun _ _ same _ => same _)
  all_goals rfl

/-- Putting casts into a member keeps its function literals. -/
theorem literals_leaveMember (member : Member) (spot : Spot) :
    literals spot (.member (Coercion.leaveMember types member)) =
      literals spot (.member member) := by
  cases member with
  | field decl =>
    refine literals_congr rfl ?_
    simp only [children, parts, Member.parts, Coercion.leaveMember, List.map_append]
    exact List.rel_append (List.forall₂_same.2 fun _ _ _ => rfl)
      ((literals_optional _ decl.init).imp fun _ _ same _ => same _)
  | method decl => rfl
  | ctor decl =>
    refine literals_congr rfl ?_
    simp only [children, parts, Member.parts, Coercion.leaveMember, List.map_append]
    refine List.rel_append ?_ (List.forall₂_same.2 fun _ _ _ => rfl)
    simp only [CtorDecl.chainArgs]
    cases decl.chain with
    | none => exact .nil
    | some chain =>
      simp only [Option.map_some, Option.getD_some, Coercion.leaveChain]
      split
      · exact (literals_mapIdx (fun spot => literals_coerceArg spot _) chain.args).imp
          fun _ _ same _ => same _
      · exact List.forall₂_same.2 fun _ _ _ => rfl

/-- A finished node holds the function literals of the one that its parts made. -/
theorem literals_leaveNode {node result : Node}
    (finished : Gives ((Coercion.traversal types).leaveNode returnType node) result) (spot : Spot) :
    literals spot result = literals spot node := by
  cases node with
  | expr root =>
    obtain ⟨final, finishedRoot, same⟩ := gives_bind.1 finished
    obtain rfl := gives_pure.1 same
    exact literals_leave finishedRoot spot
  | stmt root =>
    obtain rfl := gives_pure.1 finished
    exact literals_leaveStmt returnType root spot
  | member root =>
    obtain rfl := gives_pure.1 finished
    exact literals_leaveMember root spot
  | attr root | decl root | unit root =>
    obtain rfl := gives_pure.1 finished
    rfl

end Casts

/-! ## Nodes with the same shell -/

section Matching

variable {source result : Node} {inferring : Bool} {related : Ty → Ty → Prop}

/-- The values that statements return follow from those of their parts. -/
theorem related_flatMap_returned {sources results : List Node}
    (each : List.Forall₂ (fun child replacement =>
      List.Forall₂ related (returned inferring child) (returned inferring replacement))
      sources results) :
    List.Forall₂ related (sources.flatMap (returned inferring))
      (results.flatMap (returned inferring)) := by
  induction each with
  | nil => exact .nil
  | cons first _ inductionHypothesis => exact List.rel_append first inductionHypothesis

/-- Rebuilding a loop from its parts keeps the number of its initializers. -/
theorem initializers_of_shell (shell : source.shell = result.shell) :
    initializers source = initializers result := by
  have ofShell (node : Node) : initializers node.shell = initializers node := by
    cases node with
    | stmt root => cases root <;> simp [Node.shell, Stmt.shell, initializers]
    | _ => rfl
  rw [← ofShell source, shell, ofShell]

/-- Where the parts of nodes return related types, the nodes do. -/
theorem related_returned
    (matched : Matches (fun _ child replacement =>
      List.Forall₂ related (returned inferring child) (returned inferring replacement))
      source result)
    (here : List.Forall₂ related (returnedHere source) (returnedHere result)) :
    List.Forall₂ related (returned inferring source) (returned inferring result) := by
  obtain ⟨shell, parts⟩ := matched
  by_cases isExpr : ∃ expr, source = .expr expr
  · obtain ⟨expr, rfl⟩ := isExpr
    cases result <;> simp only [Node.shell, reduceCtorEq] at shell
    rw [returned_expr, returned_expr]
    exact .nil
  · have other : ∀ expr, result ≠ .expr expr := by
      rintro expr rfl
      cases source <;> simp only [Node.shell, reduceCtorEq] at shell
      exact isExpr ⟨_, rfl⟩
    have each : List.Forall₂ (fun child replacement =>
        List.Forall₂ related (returned inferring child) (returned inferring replacement))
        source.children result.children := by
      simp only [children, List.forall₂_map_left_iff, List.forall₂_map_right_iff]
      exact parts.imp fun _ _ holds => holds.2
    rw [returned_eq (by simpa using isExpr), returned_eq other, initializers_of_shell shell]
    exact List.rel_append here (related_flatMap_returned (List.forall₂_drop _ each))

/-- Where the parts of bodies return related types, the bodies do. -/
theorem related_returnedByBody {sourceBody resultBody : LambdaBody}
    (shell : sourceBody.shell = resultBody.shell)
    (parts : List.Forall₂ (Part.Related fun _ child replacement =>
      List.Forall₂ related (returned inferring child) (returned inferring replacement))
      sourceBody.parts resultBody.parts)
    (here : ∀ source result, sourceBody = .expr source → resultBody = .expr result →
      related source.ty result.ty) :
    List.Forall₂ related (returnedByBody inferring sourceBody)
      (returnedByBody inferring resultBody) := by
  cases sourceBody <;> cases resultBody <;> simp only [LambdaBody.shell, reduceCtorEq] at shell
  case expr.expr source result => exact .cons (here source result rfl rfl) .nil
  case block.block =>
    simp only [LambdaBody.parts, List.forall₂_map_left_iff, List.forall₂_map_right_iff] at parts
    have each := related_flatMap_returned (List.forall₂_map_left_iff.2
      (List.forall₂_map_right_iff.2 (parts.imp fun _ _ holds => holds.2)))
    simpa only [returnedByBody, List.flatMap_map, Part.stmt] using each

/-- The spots below a node depend on its shell and on the types of its parts. -/
theorem below_of_matches
    (matched : Matches (fun _ child replacement => child.face = replacement.face) source result)
    (spot : Spot) (index : Nat) : spot.below source index = spot.below result index := by
  obtain ⟨shell, parts⟩ := matched
  cases source <;> cases result <;> simp only [Node.shell, reduceCtorEq, Node.expr.injEq,
    Node.stmt.injEq, Node.member.injEq] at shell
  case expr.expr left right =>
    cases left <;> cases right <;> simp only [Expr.shell, reduceCtorEq] at shell
    case assign.assign =>
      cases parts with
      | cons first _ => simp only [Spot.below, Expr.ty, (face_expr.1 first.2).1]
    case invoke.invoke =>
      obtain ⟨-, -, -, -, rfl⟩ := Expr.invoke.inj shell
      cases parts with
      | cons first _ => simp only [Spot.below, Expr.ty, (face_expr.1 first.2).1]
    case construct.construct =>
      obtain ⟨-, -, -, rfl⟩ := Expr.construct.inj shell
      rfl
    all_goals rfl
  case stmt.stmt left right =>
    cases left <;> cases right <;> simp only [Stmt.shell, reduceCtorEq] at shell
    case declare.declare =>
      obtain ⟨-, rfl, rfl, -⟩ := Stmt.declare.inj shell
      rfl
    all_goals rfl
  case member.member left right =>
    cases left <;> cases right <;> simp only [Member.shell, reduceCtorEq] at shell
    case field.field left right =>
      simp only [Member.field.injEq, FieldDecl.mk.injEq] at shell
      obtain ⟨-, sameTy, -, -, holes, -⟩ := shell
      have sameLength : left.attrs.length = right.attrs.length := by
        simpa using congrArg List.length holes
      simp only [Spot.below, sameTy, sameLength]
    all_goals rfl
  all_goals rfl

end Matching

/-! ## The walk that puts in casts -/

/-- Both types are `void`, or none of them is. -/
def SameVoid (before after : Ty) : Prop :=
  before = .void ↔ after = .void

/-- Types are `void` together along a chain. -/
theorem SameVoid.trans {first second third : Ty} (before : SameVoid first second)
    (after : SameVoid second third) : SameVoid first third :=
  Iff.trans before after

/-- The same function literal with other casts in its body. -/
structure Recast (before after : Literal) : Prop where
  spot : before.spot = after.spot
  params : before.params = after.params
  ret : before.ret = after.ret
  returned : List.Forall₂ SameVoid before.returned after.returned
  collected : List.Forall₂ SameVoid before.collected after.collected

section Walk

variable {types : TypeTable} {returnType : Option Ty} {inferring : Bool}

/-- There are no casts from and to `void`. -/
theorem sameVoid_coerce (required : Ty) (expr : Expr) :
    SameVoid expr.ty (Coercion.coerce types required expr).ty := by
  rw [Coercion.coerce]
  split
  case isTrue needed =>
    have isVoid (ty : Ty) (noVoid : ty.isVoid = false) : ty ≠ .void := by
      rintro rfl
      cases noVoid
    simp only [Coercion.needsCast, Bool.not_eq_true', Bool.or_eq_false_iff] at needed
    exact iff_of_false (isVoid _ needed.1.2) (isVoid _ needed.1.1.1.1.1.1.1)
  case isFalse => exact Iff.rfl

/-- A statement with casts returns `void` if it did so before. -/
theorem sameVoid_leaveStmt (stmt : Stmt) :
    List.Forall₂ SameVoid (returnedHere (.stmt stmt))
      (returnedHere (.stmt (Coercion.leaveStmt types returnType stmt))) := by
  cases stmt
  case ret value span =>
    cases value with
    | none => cases returnType <;> exact .nil
    | some value =>
      cases returnType with
      | none => exact .cons Iff.rfl .nil
      | some required => exact .cons (sameVoid_coerce required value) .nil
  all_goals exact .nil

/-- A node with casts returns `void` where it did so before. -/
theorem sameVoid_leaveNode {node result : Node}
    (finished : Gives ((Coercion.traversal types).leaveNode returnType node) result) :
    List.Forall₂ SameVoid (returned inferring node) (returned inferring result) := by
  rcases Coercion.leaveNode_cases finished with ⟨-, casts⟩ | ⟨_, _, _, _, rfl, -, rfl⟩
  · refine related_returned (casts.imp fun _ casted => ?_) ?_
    · cases casted with
      | unchanged => exact List.forall₂_same.2 fun _ _ => Iff.rfl
      | cast =>
        rw [returned_expr, returned_expr]
        exact .nil
    · cases node with
      | expr root =>
        obtain ⟨_, _, same⟩ := gives_bind.1 finished
        obtain rfl := gives_pure.1 same
        exact .nil
      | stmt root =>
        obtain rfl := gives_pure.1 finished
        exact sameVoid_leaveStmt root
      | member root | attr root | decl root | unit root =>
        obtain rfl := gives_pure.1 finished
        exact .nil
  · rw [returned_expr, returned_expr]
    exact .nil

/-- A part that keeps its type is returned with its type. -/
theorem sameVoid_here {source result : Node}
    (matched : Matches (fun _ child replacement => child.face = replacement.face) source result) :
    List.Forall₂ SameVoid (returnedHere source) (returnedHere result) := by
  obtain ⟨shell, parts⟩ := matched
  cases source <;> cases result <;> simp only [Node.shell, reduceCtorEq, Node.stmt.injEq] at shell
  case stmt.stmt left right =>
    cases left <;> cases right <;> simp only [Stmt.shell, reduceCtorEq] at shell
    case ret.ret value _ replacement _ =>
      cases value <;> cases replacement <;>
        simp only [Stmt.ret.injEq, Option.map_none, Option.map_some, reduceCtorEq,
          false_and] at shell
      · exact .nil
      · cases parts with
        | cons first _ =>
          refine .cons ?_ .nil
          rw [SameVoid, Expr.ty, (face_expr.1 first.2).1]
          rfl
    all_goals exact .nil
  all_goals exact .nil

/-- A whole tree with casts returns `void` where it did so before. -/
theorem sameVoid_walk (node : Node) {result : Node}
    (walked : Gives ((Coercion.traversal types).node returnType node) result) :
    List.Forall₂ SameVoid (returned inferring node) (returned inferring result) := by
  induction node using Node.induct generalizing returnType result with
  | step node inductionHypothesis =>
    obtain ⟨rebuilt, matched, left⟩ := Coercion.walk_matches walked
    have faces : Matches (fun _ child replacement => child.face = replacement.face) node rebuilt :=
      matched.imp fun _ replaced => (Coercion.face_walk _ replaced).symm
    have sameParts : List.Forall₂ SameVoid (returned inferring node) (returned inferring rebuilt) :=
      related_returned (matched.imp fun part replaced =>
        inductionHypothesis _ (mem_children_of_part part) replaced) (sameVoid_here faces)
    exact forall₂_trans sameParts (sameVoid_leaveNode left) SameVoid.trans

/-- Nodes with the same shell are the same function literal, if they are one. -/
theorem recast_of_matches {source result : Node}
    (matched : Matches (fun _ child replacement => child.face = replacement.face ∧
      ∀ inferring, List.Forall₂ SameVoid (returned inferring child)
        (returned inferring replacement)) source result) (spot : Spot) :
    List.Forall₂ Recast (literal? spot source).toList (literal? spot result).toList := by
  obtain ⟨shell, parts⟩ := matched
  cases source <;> cases result <;> simp only [Node.shell, reduceCtorEq, Node.expr.injEq] at shell
  case expr.expr left right =>
    cases left <;> cases right <;> simp only [Expr.shell, reduceCtorEq] at shell
    case lambda.lambda body _ _ _ replacement =>
      obtain ⟨-, rfl, rfl, sameBody⟩ := Expr.lambda.inj shell
      have sameReturned (inferring : Bool) : List.Forall₂ SameVoid (returnedByBody inferring body)
          (returnedByBody inferring replacement) := by
        refine related_returnedByBody sameBody
          (parts.imp fun _ _ holds => ⟨holds.1, holds.2.2 inferring⟩) ?_
        rintro value other rfl rfl
        cases parts with
        | cons first _ => rw [SameVoid, Expr.ty, (face_expr.1 first.2.1).1]; rfl
      exact .cons ⟨rfl, rfl, rfl, sameReturned false, sameReturned true⟩ .nil
    all_goals exact .nil
  all_goals exact .nil

/-- Putting in casts keeps the function literals. -/
theorem literals_walk (node : Node) {result : Node}
    (walked : Gives ((Coercion.traversal types).node returnType node) result) (spot : Spot) :
    List.Forall₂ Recast (literals spot node) (literals spot result) := by
  induction node using Node.induct generalizing returnType result spot with
  | step node inductionHypothesis =>
    obtain ⟨rebuilt, matched, left⟩ := Coercion.walk_matches walked
    have sameSpots := below_of_matches
      (matched.imp fun _ replaced => (Coercion.face_walk _ replaced).symm) spot
    rw [literals_leaveNode left, literals_eq, literals_eq]
    refine List.rel_append ?_ (related_literalsBelow 0 ?_)
    · refine recast_of_matches (matched.imp fun _ replaced => ?_) spot
      exact ⟨(Coercion.face_walk _ replaced).symm, fun _ => sameVoid_walk _ replaced⟩
    · simp only [children, List.forall₂_map_left_iff, List.forall₂_map_right_iff]
      have each : Matches (fun _ child replacement => ∀ spot, List.Forall₂ Recast
          (literals spot child) (literals spot replacement)) node rebuilt :=
        matched.imp fun part replaced => inductionHypothesis _ (mem_children_of_part part) replaced
      refine each.parts.imp fun before after related index => ?_
      rw [← sameSpots]
      exact related.2 _

end Walk

end Lowering.LambdaShape

end ScriptSharp
