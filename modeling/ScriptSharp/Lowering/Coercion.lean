import ScriptSharp.Source.Fault
import ScriptSharp.Tree.Traversal
import ScriptSharp.Types.Conversion

/-!
# Casts

The source language converts values where the emitted one wants a cast. Wherever the context
requires a type, an expression of another type gets a cast, unless it converts by itself. A
compound assignment that would narrow its result is written out, so that the cast stands around
the whole computation.
-/

namespace ScriptSharp.Lowering.Coercion

/-- The expression needs a cast where `required` is required. Function types are left to the
inference of function literals. -/
def needsCast (types : TypeTable) (required : Ty) (expr : Expr) : Bool :=
  !(required.isVoid || decide (expr.ty = required) || expr.isLambda || required.isDelegate ||
    expr.ty.isDelegate || expr.ty.isNull || expr.ty.isVoid ||
    types.implicitlyConvertible expr.ty required)

/-- Puts a cast around an expression that needs one. -/
def coerce (types : TypeTable) (required : Ty) (expr : Expr) : Expr :=
  if needsCast types required expr then expr.castTo required else expr

/-- The argument at `index` of a call. An argument by reference is a variable and stays. -/
def coerceArg (types : TypeTable) (signature : Signature) (index : Nat) (arg : Expr) : Expr :=
  match signature.paramTypeAt index with
  | some required =>
    if (signature.modifierAt index).isByReference then arg else coerce types required arg
  | none => arg

/-- The arguments of a call. -/
def coerceArgs (types : TypeTable) (signature : Signature) (args : List Expr) : List Expr :=
  args.mapIdx (coerceArg types signature)

/-- The arguments of the call of a function value. -/
def coerceDelegateArgs (types : TypeTable) (params : List Ty) (args : List Expr) : List Expr :=
  args.mapIdx fun index arg =>
    match params[index]? with
    | some required => coerce types required arg
    | none => arg

/-- The operands of a comparison. A whole number is compared with an enum as a value of the enum. -/
def coerceOperands (types : TypeTable) (op : BinaryOp) (left right : Expr) : Expr × Expr :=
  if !op.isComparison then (left, right)
  else if types.isEnum left.ty && right.ty.isIntegral then (left, right.castTo left.ty)
  else if types.isEnum right.ty && left.ty.isIntegral then (left.castTo right.ty, right)
  else (left, right)

/-! ## Compound assignments -/

/-- The rank of a type in arithmetic, zero for types that take no part in it. -/
def rank (ty : Ty) : Nat := ty.numericRank.getD 0

/-- The type of an operation on two numbers: the wider one, and `int` at least. -/
def promoted (left right : Ty) : Ty :=
  let wider := if rank left < rank right then right else left
  if rank wider < rank .int then .int else wider

mutual
/-- Evaluating the expression a second time gives the same place and does nothing else. -/
def isRepeatable : Expr → Bool
  | .ident .. => true
  | .selfRef .. => true
  | .superRef .. => true
  | .typeRef .. => true
  | .literal .. => true
  | .paren _ inner => isRepeatable inner
  | .member _ target _ _ => isRepeatable target
  | .index _ target indices => isRepeatable target && allRepeatable indices
  | _ => false
termination_by structural expr => expr

/-- Evaluating the expressions a second time does nothing else. -/
def allRepeatable : List Expr → Bool
  | [] => true
  | first :: rest => isRepeatable first && allRepeatable rest
termination_by structural exprs => exprs
end

/-- A compound assignment that is accepted whatever the type of its value: shifts, appending to a
string, and stepping an enum by a whole number. -/
def isKept (types : TypeTable) (op : BinaryOp) (target value : Ty) : Bool :=
  match op with
  | .shl | .shr => true
  | .add => decide (target = .string) || (types.isEnum target && value.isIntegral)
  | .sub => types.isEnum target && value.isIntegral
  | _ => false

/-- An assignment whose value is accepted by its target. -/
def coerceAssign (types : TypeTable) (note : Note) (op : Option BinaryOp) (target value : Expr) :
    Except Fault Expr :=
  match op with
  | none => .ok (.assign note none target (coerce types target.ty value))
  | some op =>
    if isKept types op target.ty value.ty || !needsCast types target.ty value then
      .ok (.assign note (some op) target value)
    else if target.ty.isNumeric && value.ty.isNumeric then
      if isRepeatable target then
        let combined : Expr := .binary ⟨promoted target.ty value.ty, value.span⟩ op target value
        .ok (.assign note none target (combined.castTo target.ty))
      else .error (.effectfulTarget target.span)
    else .ok (.assign note (some op) target (coerce types target.ty value))

/-! ## The walk -/

/-- The type that a function literal returns, as far as it is known. -/
def lambdaReturn (note : Note) (ret : Option Ty) : Option Ty :=
  ret.or (note.ty.delegate?.map (·.2))

/-- An expression whose parts have their casts. -/
def leave (types : TypeTable) : Expr → Except Fault Expr
  | .assign note op target value => coerceAssign types note op target value
  | .binary note op left right =>
    let (left, right) := coerceOperands types op left right
    return .binary note op left right
  | .invoke note callee typeArgs args signature =>
    let args := match signature, callee.ty with
      | some signature, _ => coerceArgs types signature args
      | none, .delegate params _ => coerceDelegateArgs types params args
      | none, _ => args
    return .invoke note callee typeArgs args signature
  | .construct note constructed args (some signature) =>
    return .construct note constructed (coerceArgs types signature args) (some signature)
  | .array note element items =>
    return .array note element (items.map (coerce types element))
  | expr => return expr

/-- A statement whose parts have their casts. `returned` is the type that the enclosing method or
function literal returns, as far as it is known. -/
def leaveStmt (types : TypeTable) (returned : Option Ty) : Stmt → Stmt
  | .declare name declared ty init span =>
    .declare name declared ty (init.map (coerce types (declared.getD ty))) span
  | .ret value span =>
    match returned with
    | some required => .ret (value.map (coerce types required)) span
    | none => .ret value span
  | stmt => stmt

/-- A constructor chain whose arguments have their casts. -/
def leaveChain (types : TypeTable) (chain : CtorChain) : CtorChain :=
  match chain.signature with
  | some signature => { chain with args := coerceArgs types signature chain.args }
  | none => chain

/-- A member whose parts have their casts. -/
def leaveMember (types : TypeTable) : Member → Member
  | .field field => .field { field with init := field.init.map (coerce types field.ty) }
  | .method method => .method method
  | .ctor ctor => .ctor { ctor with chain := ctor.chain.map (leaveChain types) }

/-- The walk that puts in casts. It carries the type that `return` statements have to give. -/
def traversal (types : TypeTable) : DeclTraversal (Except Fault) (Option Ty) where
  enter returned expr :=
    match expr with
    | .lambda note _ ret _ => pure (some ⟨returned, lambdaReturn note ret⟩)
    | _ => pure (some ⟨returned, returned⟩)
  leave _ expr := leave types expr
  enterStmt returned _ := returned
  leaveStmt returned stmt := pure (leaveStmt types returned stmt)
  enterDecl returned _ := returned
  enterMember returned member :=
    match member with
    | .field _ => returned
    | .method method => some method.ret
    | .ctor _ => some .void
  leaveAttribute _ attr := pure attr
  leaveMember _ member := pure (leaveMember types member)
  leaveDecl _ decl := pure decl

/-- Puts the casts into a member. -/
def member (types : TypeTable) (member : Member) : Except Fault Member :=
  (traversal types).member none member

/-- Puts the casts into a unit. -/
def unit (types : TypeTable) (unit : SourceUnit) : Except Fault SourceUnit :=
  (traversal types).unit none unit

end ScriptSharp.Lowering.Coercion
