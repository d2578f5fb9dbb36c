import ScriptSharp.Lowering.Coercion
import ScriptSharp.Proofs.Tree.Walk

/-!
# Casts at one node

What putting in casts does at a single node, once its parts are done. Every part stays or gets a
cast, and the cast is needed: the type that it starts from is neither the type that it gives nor
converts to it. The one exception is a compound assignment that is written out, and there the
value becomes the whole computation under a cast. `leaveNode_cases` says so for all nodes, and
`walk_matches` says what reaches a node from the walk of its parts.
-/

namespace ScriptSharp.Ty

/-- Integral types are primitive. -/
theorem exists_primitive_of_integral {ty : Ty} (integral : ty.isIntegral = true) :
    ∃ basic, ty = .primitive basic := by
  cases ty <;> simp_all [isIntegral, primitive?]

/-- Numeric types are primitive. -/
theorem exists_primitive_of_numeric {ty : Ty} (numeric : ty.isNumeric = true) :
    ∃ basic, ty = .primitive basic := by
  cases ty <;> simp_all [isNumeric, numericRank, primitive?]

end ScriptSharp.Ty

namespace ScriptSharp.Lowering.Coercion

open Outcome

variable {types : TypeTable}

/-! ## Needed casts -/

/-- No value of type `source` is accepted where `target` is required. -/
def Unconvertible (types : TypeTable) (source target : Ty) : Prop :=
  source ≠ target ∧ types.implicitlyConvertible source target = false

/-- A cast is needed only where the value is not accepted without one. -/
theorem unconvertible_of_needsCast {required : Ty} {expr : Expr}
    (needed : needsCast types required expr = true) : Unconvertible types expr.ty required := by
  simp_all [needsCast, Unconvertible]

/-- Only the type of an expression and whether it is a function literal decide about its cast. -/
theorem needsCast_congr {required : Ty} {expr other : Expr} (sameTy : expr.ty = other.ty)
    (sameKind : expr.isLambda = other.isLambda) :
    needsCast types required expr = needsCast types required other := by
  simp only [needsCast, sameTy, sameKind]

/-- A value of the required type needs no cast. -/
theorem needsCast_of_ty {required : Ty} {expr : Expr} (same : expr.ty = required) :
    needsCast types required expr = false := by
  simp [needsCast, same]

/-- A value that converts without a cast needs none. -/
theorem needsCast_of_implicitly {required : Ty} {expr : Expr}
    (converts : types.implicitlyConvertible expr.ty required = true) :
    needsCast types required expr = false := by
  simp [needsCast, converts]

/-- A cast has the type that it casts to. -/
@[simp]
theorem castTo_ty (target : Ty) (expr : Expr) : (expr.castTo target).ty = target := rfl

/-- Where a cast was put in as needed, none is needed any more. -/
theorem needsCast_coerce (required : Ty) (expr : Expr) :
    needsCast types required (coerce types required expr) = false := by
  rw [coerce]
  split
  · exact needsCast_of_ty (castTo_ty required expr)
  · simp_all

/-- A value that is accepted stays as it is. -/
theorem coerce_of_accepted {required : Ty} {expr : Expr}
    (accepted : needsCast types required expr = false) : coerce types required expr = expr := by
  simp [coerce, accepted]

/-- A whole number is no value of an enum. -/
theorem unconvertible_of_enum {number enum : Ty} (isEnum : types.isEnum enum = true)
    (integral : number.isIntegral = true) : Unconvertible types number enum := by
  obtain ⟨basic, rfl⟩ := Ty.exists_primitive_of_integral integral
  cases enum <;> simp_all [TypeTable.isEnum, TypeTable.kindOf?, Ty.typeId?, Unconvertible,
    TypeTable.implicitlyConvertible]

/-- A value that its target does not accept makes the whole operation one that the target does not
accept. -/
theorem unconvertible_promoted {target value : Ty} (targetNumeric : target.isNumeric = true)
    (valueNumeric : value.isNumeric = true) (unconvertible : Unconvertible types value target) :
    Unconvertible types (promoted target value) target := by
  obtain ⟨targetBasic, rfl⟩ := Ty.exists_primitive_of_numeric targetNumeric
  obtain ⟨valueBasic, rfl⟩ := Ty.exists_primitive_of_numeric valueNumeric
  cases targetBasic <;> cases valueBasic <;>
    simp_all [Unconvertible, promoted, rank, Ty.isNumeric, Ty.numericRank, Ty.primitive?, Ty.int,
      Primitive.numericRank, TypeTable.implicitlyConvertible, TypeTable.widens]

/-! ## The parts of a finished node -/

/-- A part as it was, or under a cast that it needs. -/
inductive Casted (types : TypeTable) : Node → Node → Prop where
  | unchanged {node : Node} : Casted types node node
  | cast {expr : Expr} {required : Ty} (needed : Unconvertible types expr.ty required) :
      Casted types (.expr expr) (.expr (expr.castTo required))

/-- A value becomes itself, or itself under a cast that it needs. -/
theorem casted_coerce (required : Ty) (expr : Expr) :
    Casted types (.expr expr) (.expr (coerce types required expr)) := by
  rw [coerce]
  split
  case isTrue needed => exact .cast (unconvertible_of_needsCast needed)
  case isFalse => exact .unchanged

/-- An argument becomes itself, or itself under a cast that it needs. -/
theorem casted_coerceArg (signature : Signature) (index : Nat) (arg : Expr) :
    Casted types (.expr arg) (.expr (coerceArg types signature index arg)) := by
  rw [coerceArg]
  split
  · split
    · exact .unchanged
    · exact casted_coerce _ arg
  · exact .unchanged

/-- The parts of the two nodes agree up to casts that are needed. -/
abbrev CastsParts (types : TypeTable) : Node → Node → Prop :=
  Node.Matches fun _ => Casted types

/-- The expressions of the second list are those of the first, up to casts that are needed. -/
abbrev CastsAll (types : TypeTable) : List Expr → List Expr → Prop :=
  List.Forall₂ fun expr replacement => Casted types (.expr expr) (.expr replacement)

/-- Casts of expressions are casts of the parts that they are. -/
theorem CastsAll.values {exprs replacements : List Expr}
    (casts : CastsAll types exprs replacements) :
    List.Forall₂ (Part.Related fun _ => Casted types) (exprs.map .value)
      (replacements.map .value) := by
  rw [List.forall₂_map_left_iff, List.forall₂_map_right_iff]
  exact casts.imp fun _ _ casted => ⟨rfl, casted⟩

/-- Expressions as they are agree with themselves. -/
theorem castsAll_refl (exprs : List Expr) : CastsAll types exprs exprs :=
  List.forall₂_same.2 fun _ _ => .unchanged

/-- Expressions that are all required to have one type get casts one by one. -/
theorem castsAll_map (required : Ty) (exprs : List Expr) :
    CastsAll types exprs (exprs.map (coerce types required)) := by
  rw [CastsAll, List.forall₂_map_right_iff, List.forall₂_same]
  exact fun expr _ => casted_coerce required expr

/-- Expressions may be required to have a type by their place. -/
theorem castsAll_mapIdx {step : Nat → Expr → Expr}
    (casted : ∀ index expr, Casted types (.expr expr) (.expr (step index expr)))
    (exprs : List Expr) : CastsAll types exprs (exprs.mapIdx step) := by
  induction exprs generalizing step with
  | nil => exact .nil
  | cons first rest inductionHypothesis =>
    rw [List.mapIdx_cons]
    exact .cons (casted 0 first) (inductionHypothesis fun index => casted (index + 1))

/-- Arguments get the casts that their parameters require. -/
theorem castsAll_coerceArgs (signature : Signature) (args : List Expr) :
    CastsAll types args (coerceArgs types signature args) :=
  castsAll_mapIdx (casted_coerceArg signature) args

/-- Arguments of a delegate get the casts that its parameters require. -/
theorem castsAll_coerceDelegateArgs (params : List Ty) (args : List Expr) :
    CastsAll types args (coerceDelegateArgs types params args) := by
  refine castsAll_mapIdx (fun index arg => ?_) args
  split
  · exact casted_coerce _ arg
  · exact .unchanged

/-- The assignment is written out when casts are put in: its operator is not kept, and its value
is a number that its target, another number, does not accept. -/
def expands (types : TypeTable) : Expr → Bool
  | .assign _ (some op) target value =>
    !isKept types op target.ty value.ty && needsCast types target.ty value &&
      (target.ty.isNumeric && value.ty.isNumeric)
  | _ => false

/-- A compound assignment is written out if it would lose the type of its numeric target. -/
theorem expands_iff {note : Note} {op : BinaryOp} {target value : Expr} :
    expands types (.assign note (some op) target value) = true ↔
      isKept types op target.ty value.ty = false ∧ needsCast types target.ty value = true ∧
        target.ty.isNumeric = true ∧ value.ty.isNumeric = true := by
  simp [expands, and_assoc]

/-- The operation of a compound assignment as an expression of its own. -/
def operation (op : BinaryOp) (target value : Expr) : Expr :=
  .binary ⟨promoted target.ty value.ty, value.span⟩ op target value

/-- A compound assignment written out, with a cast around the whole operation. -/
def writtenOut (note : Note) (op : BinaryOp) (target value : Expr) : Expr :=
  .assign note none target ((operation op target value).castTo target.ty)

/-- An assignment gets a cast around its value. -/
theorem castsParts_assign {note : Note} {op : Option BinaryOp} {target value replacement : Expr}
    (casted : Casted types (.expr value) (.expr replacement)) :
    CastsParts types (.expr (.assign note op target value))
      (.expr (.assign note op target replacement)) :=
  ⟨rfl, .cons ⟨rfl, .unchanged⟩ (.cons ⟨rfl, casted⟩ .nil)⟩

/-- An assignment gets a cast around its value, or is written out. -/
theorem coerceAssign_cases {note : Note} {op : Option BinaryOp} {target value result : Expr}
    (left : coerceAssign types note op target value = .ok result) :
    expands types (.assign note op target value) = false ∧
        CastsParts types (.expr (.assign note op target value)) (.expr result) ∨
      ∃ compound, op = some compound ∧ expands types (.assign note op target value) = true ∧
        result = writtenOut note compound target value := by
  cases op with
  | none =>
    obtain rfl := Except.ok.inj left
    exact .inl ⟨rfl, castsParts_assign (casted_coerce target.ty value)⟩
  | some op =>
    simp only [coerceAssign] at left
    split_ifs at left with accepted numeric repeatable
    · obtain rfl := Except.ok.inj left
      refine .inl ⟨?_, castsParts_assign .unchanged⟩
      rcases Bool.or_eq_true_iff.1 accepted with kept | free <;> simp_all [expands]
    · obtain rfl := Except.ok.inj left
      exact .inr ⟨op, rfl, by simp_all [expands], rfl⟩
    · obtain rfl := Except.ok.inj left
      refine .inl ⟨?_, castsParts_assign (casted_coerce target.ty value)⟩
      simp only [expands, Bool.eq_false_iff.2 numeric, Bool.and_false]

/-- Expressions can be repeated if each of them can. -/
theorem allRepeatable_iff {exprs : List Expr} :
    allRepeatable exprs = true ↔ ∀ expr ∈ exprs, isRepeatable expr = true := by
  induction exprs with
  | nil => simp [allRepeatable]
  | cons first rest inductionHypothesis => simp [allRepeatable, inductionHypothesis]

/-- What stands in a repeatable expression is repeatable. -/
theorem repeatable_child {expr : Expr} (repeatable : isRepeatable expr = true) {child : Node}
    (member : child ∈ (Node.expr expr).children) :
    ∃ inner, child = .expr inner ∧ isRepeatable inner = true := by
  cases expr <;> simp only [isRepeatable, Bool.and_eq_true, allRepeatable_iff,
    Bool.false_eq_true] at repeatable
  all_goals simp [Node.children, Node.parts, Expr.parts, Part.value] at member
  case member => exact ⟨_, member, repeatable⟩
  case paren => exact ⟨_, member, repeatable⟩
  case index =>
    rcases member with rfl | ⟨inner, innerOf, rfl⟩
    · exact ⟨_, rfl, repeatable.1⟩
    · exact ⟨_, rfl, repeatable.2 inner innerOf⟩

/-- Only an assignment to a repeatable target is written out. -/
theorem repeatable_of_expands {note : Note} {op : BinaryOp} {target value result : Expr}
    (finished : coerceAssign types note (some op) target value = .ok result)
    (expanded : expands types (.assign note (some op) target value) = true) :
    isRepeatable target = true := by
  obtain ⟨unkept, needed, targetNumeric, valueNumeric⟩ := expands_iff.1 expanded
  simp only [coerceAssign, unkept, needed, targetNumeric, valueNumeric, Bool.not_true,
    Bool.or_false, Bool.false_eq_true, if_false, Bool.and_self, if_true] at finished
  split_ifs at finished with repeatable
  exact repeatable

/-- The operands of an operator get the casts that they need. -/
theorem castsParts_coerceOperands {note : Note} {op : BinaryOp} {left right : Expr} :
    CastsParts types (.expr (.binary note op left right))
      (.expr (.binary note op (coerceOperands types op left right).1
        (coerceOperands types op left right).2)) := by
  have pair {newLeft newRight : Expr} (leftCasted : Casted types (.expr left) (.expr newLeft))
      (rightCasted : Casted types (.expr right) (.expr newRight)) :
      CastsParts types (.expr (.binary note op left right))
        (.expr (.binary note op newLeft newRight)) :=
    ⟨rfl, .cons ⟨rfl, leftCasted⟩ (.cons ⟨rfl, rightCasted⟩ .nil)⟩
  rw [coerceOperands]
  split_ifs with other leftEnum rightEnum
  · exact pair .unchanged .unchanged
  · obtain ⟨isEnum, integral⟩ := Bool.and_eq_true_iff.1 leftEnum
    exact pair .unchanged (.cast (unconvertible_of_enum isEnum integral))
  · obtain ⟨isEnum, integral⟩ := Bool.and_eq_true_iff.1 rightEnum
    exact pair (.cast (unconvertible_of_enum isEnum integral)) .unchanged
  · exact pair .unchanged .unchanged

/-- A call gets casts around its arguments. -/
theorem castsParts_invoke {note : Note} {callee : Expr} {typeArgs : List Ty}
    {args replacements : List Expr} {signature : Option Signature}
    (casts : CastsAll types args replacements) :
    CastsParts types (.expr (.invoke note callee typeArgs args signature))
      (.expr (.invoke note callee typeArgs replacements signature)) := by
  have parts := casts.values
  refine ⟨?_, .cons ⟨rfl, .unchanged⟩ parts⟩
  simp only [Node.shell, Expr.shell, Part.holes_eq parts]

/-- Leaving an expression puts casts around parts that need them, unless it writes out a compound
assignment. -/
theorem leave_cases {expr result : Expr} (finished : leave types expr = .ok result) :
    expands types expr = false ∧ CastsParts types (.expr expr) (.expr result) ∨
      ∃ note op target value, expr = .assign note (some op) target value ∧
        expands types expr = true ∧ result = writtenOut note op target value := by
  cases expr
  case assign note op target value =>
    rcases coerceAssign_cases finished with casts | ⟨compound, rfl, expanded, same⟩
    · exact .inl casts
    · exact .inr ⟨note, compound, target, value, rfl, expanded, same⟩
  case binary note op left right =>
    obtain rfl := Except.ok.inj finished
    exact .inl ⟨rfl, castsParts_coerceOperands⟩
  case invoke note callee typeArgs args signature =>
    obtain rfl := Except.ok.inj finished
    refine .inl ⟨rfl, castsParts_invoke ?_⟩
    split
    · exact castsAll_coerceArgs _ args
    · exact castsAll_coerceDelegateArgs _ args
    · exact castsAll_refl args
  case construct note constructed args signature =>
    refine .inl ⟨rfl, ?_⟩
    cases signature with
    | none =>
      obtain rfl := Except.ok.inj finished
      exact Node.Matches.refl fun _ _ _ => .unchanged
    | some signature =>
      obtain rfl := Except.ok.inj finished
      have parts := (castsAll_coerceArgs signature args : CastsAll types _ _).values
      exact ⟨by simp only [Node.shell, Expr.shell, Part.holes_eq parts], parts⟩
  case array note element items =>
    obtain rfl := Except.ok.inj finished
    have parts := (castsAll_map element items : CastsAll types _ _).values
    exact .inl ⟨rfl, by simp only [Node.shell, Expr.shell, Part.holes_eq parts], parts⟩
  all_goals
    refine .inl ⟨rfl, ?_⟩
    obtain rfl := Except.ok.inj finished
    exact Node.Matches.refl fun _ _ _ => .unchanged

/-- A value that may be absent gets a cast where it is present. -/
theorem castsParts_optional {required : Ty} {value : Option Expr} :
    List.Forall₂ (Part.Related fun _ => Casted types) (value.toList.map .value)
      ((value.map (coerce types required)).toList.map .value) := by
  cases value with
  | none => exact .nil
  | some value => exact .cons ⟨rfl, casted_coerce required value⟩ .nil

/-- A statement gets casts around its own values. -/
theorem castsParts_leaveStmt (returned : Option Ty) (stmt : Stmt) :
    CastsParts types (.stmt stmt) (.stmt (leaveStmt types returned stmt)) := by
  cases stmt
  case declare name declared ty init span =>
    refine ⟨?_, castsParts_optional⟩
    simp only [Node.shell, Stmt.shell, leaveStmt, Option.map_map, Function.comp_def]
  case ret value span =>
    cases returned with
    | none => exact Node.Matches.refl fun _ _ _ => .unchanged
    | some required =>
      refine ⟨?_, castsParts_optional⟩
      simp only [Node.shell, Stmt.shell, leaveStmt, Option.map_map, Function.comp_def]
  all_goals exact Node.Matches.refl fun _ _ _ => .unchanged

/-- A constructor chain gets casts around its arguments. -/
theorem castsAll_leaveChain (chain : CtorChain) :
    CastsAll types chain.args (leaveChain types chain).args := by
  rw [leaveChain]
  split
  · exact castsAll_coerceArgs _ chain.args
  · exact castsAll_refl chain.args

/-- A constructor chain keeps everything besides its arguments. -/
theorem leaveChain_shell (chain : CtorChain) :
    ({ leaveChain types chain with args := (leaveChain types chain).args.map fun _ => .hole } :
      CtorChain) = { chain with args := chain.args.map fun _ => .hole } := by
  rw [leaveChain]
  split
  · simp [coerceArgs]
  · rfl

/-- A member gets casts around its own values. -/
theorem castsParts_leaveMember (member : Member) :
    CastsParts types (.member member) (.member (leaveMember types member)) := by
  cases member with
  | field decl =>
    refine ⟨?_, List.rel_append (List.forall₂_same.2 fun _ _ => ⟨rfl, .unchanged⟩)
      castsParts_optional⟩
    simp only [Node.shell, Member.shell, leaveMember, Option.map_map, Function.comp_def]
  | method decl => exact Node.Matches.refl fun _ _ _ => .unchanged
  | ctor decl =>
    refine ⟨?_, List.rel_append ?_ (List.forall₂_same.2 fun _ _ => ⟨rfl, .unchanged⟩)⟩
    · simp only [Node.shell, Member.shell, leaveMember, Option.map_map, Function.comp_def,
        leaveChain_shell]
    · refine CastsAll.values ?_
      simp only [CtorDecl.chainArgs]
      cases decl.chain with
      | none => exact .nil
      | some chain => exact castsAll_leaveChain chain

/-- A compound assignment that is written out. -/
def expandsNode (types : TypeTable) : Node → Bool
  | .expr root => expands types root
  | _ => false

/-- Leaving a node puts casts around parts that need them, unless it writes out a compound
assignment. -/
theorem leaveNode_cases {returned : Option Ty} {node result : Node}
    (finished : Gives ((traversal types).leaveNode returned node) result) :
    expandsNode types node = false ∧ CastsParts types node result ∨
      ∃ note op target value, node = .expr (.assign note (some op) target value) ∧
        expands types (.assign note (some op) target value) = true ∧
        result = .expr (writtenOut note op target value) := by
  cases node with
  | expr root =>
    obtain ⟨final, finishedRoot, same⟩ := gives_bind.1 finished
    obtain rfl := gives_pure.1 same
    rcases leave_cases finishedRoot with casts | ⟨note, op, target, value, rfl, expanded, rfl⟩
    · exact .inl casts
    · exact .inr ⟨note, op, target, value, rfl, expanded, rfl⟩
  | stmt root =>
    obtain rfl := gives_pure.1 finished
    exact .inl ⟨rfl, castsParts_leaveStmt returned root⟩
  | member root =>
    obtain rfl := gives_pure.1 finished
    exact .inl ⟨rfl, castsParts_leaveMember root⟩
  | attr root | decl root | unit root =>
    obtain rfl := gives_pure.1 finished
    exact .inl ⟨rfl, Node.Matches.refl fun _ _ _ => .unchanged⟩

/-! ## The walk -/

/-- The type that a `return` below the node has to give, as far as it is known, where `returned`
is what it has to give around the node. -/
def returnScope (returned : Option Ty) : Node → Option Ty
  | .expr (.lambda note _ ret _) => lambdaReturn note ret
  | .member (.method decl) => some decl.ret
  | .member (.ctor _) => some .void
  | _ => returned

/-- A function literal has no assignment target among its parts. -/
theorem body_parts_carried {α : Type} {target value : α} {body : LambdaBody} :
    ∀ part ∈ body.parts, (⟨target, value⟩ : Descent α).carried part.1 = value := by
  cases body <;> simp [LambdaBody.parts, Part.value, Part.stmt, Descent.carried]

/-- The walk goes below every node, with the scope of the node. -/
theorem enterNode_gives (types : TypeTable) (returned : Option Ty) (node : Node) :
    ∃ carried, Gives ((traversal types).enterNode returned node) (some carried) ∧
      ∀ part ∈ node.parts, carried part.1 = returnScope returned node := by
  cases node with
  | expr root =>
    cases root
    case lambda => exact ⟨_, rfl, body_parts_carried⟩
    all_goals
      refine ⟨_, rfl, fun part _ => ?_⟩
      cases part.1 <;> rfl
  | stmt root =>
    refine ⟨_, rfl, fun part _ => ?_⟩
    cases part.1 <;> rfl
  | member root => cases root <;> exact ⟨_, rfl, fun _ _ => rfl⟩
  | attr root | decl root | unit root => exact ⟨_, rfl, fun _ _ => rfl⟩

/-- A finished walk of a node: the parts are finished in the scope of the node, and the node made
of them is left. -/
theorem walk_matches {returned : Option Ty} {node result : Node}
    (walked : Gives ((traversal types).node returned node) result) :
    ∃ rebuilt, Node.Matches (fun _ child replacement =>
        Gives ((traversal types).node (returnScope returned node) child) replacement)
          node rebuilt ∧
      Gives ((traversal types).leaveNode returned rebuilt) result := by
  obtain ⟨carried, entered, scope⟩ := enterNode_gives types returned node
  rcases DeclTraversal.node_matches walked with
    ⟨skipped, -⟩ | ⟨below, rebuilt, reached, matched, left⟩
  · cases Except.ok.inj (skipped.symm.trans entered)
  · obtain rfl : below = carried := Option.some.inj (Except.ok.inj (reached.symm.trans entered))
    refine ⟨rebuilt, matched.imp fun {slot child replacement} member replaced => ?_, left⟩
    rw [← scope (slot, child) member]
    exact replaced

/-- A node whose parts stay as they are, and that is left as it is, stays as it is. -/
theorem walk_keeps {returned : Option Ty} {node : Node}
    (keeps : ∀ child ∈ node.children,
      Gives ((traversal types).node (returnScope returned node) child) child)
    (left : Gives ((traversal types).leaveNode returned node) node) :
    Gives ((traversal types).node returned node) node := by
  obtain ⟨carried, entered, scope⟩ := enterNode_gives types returned node
  refine DeclTraversal.node_keeps entered (fun part member => ?_) left
  rw [DeclTraversal.Replaces, scope part member]
  exact keeps part.2 (List.mem_map_of_mem member)

/-- The type that a body has to return does not depend on the parts of the body. -/
theorem returnScope_shell (returned : Option Ty) (node : Node) :
    returnScope returned node.shell = returnScope returned node := by
  cases node with
  | expr root => cases root <;> rfl
  | member root => cases root <;> rfl
  | stmt root | attr root | decl root | unit root => rfl

/-- The scope below a node depends on its shell only. -/
theorem returnScope_congr {returned : Option Ty} {node other : Node}
    (shell : node.shell = other.shell) :
    returnScope returned node = returnScope returned other := by
  rw [← returnScope_shell returned node, shell, returnScope_shell]

end ScriptSharp.Lowering.Coercion
