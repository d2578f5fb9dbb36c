import ScriptSharp.Source.Fault
import ScriptSharp.Tree.Decl

/-!
# Field initializers

Field initializers move into constructors. A class without a constructor of its own gets one. In a
class that has some, the initializers run behind a guard field in every constructor that does not
call another one of the same class, so that they run once for each object. Static initializers
move into the static constructor.
-/

namespace ScriptSharp.Lowering.Constructors

/-- The name of the field that guards the initializers of a type. -/
def guardName (typeName : String) : String := "initialized__" ++ typeName

/-- The binding of a field of the type itself. -/
def fieldBinding (decl : TypeDecl) (isStatic : Bool) : MemberBinding :=
  ⟨decl.id, .field, isStatic, none⟩

/-- The statement that initializes a field: through the type when the field is static, through the
object otherwise. -/
def initializer (decl : TypeDecl) (field : FieldDecl) (init : Expr) : Stmt :=
  let isStatic := field.modifiers.isStatic
  let receiver : Expr :=
    if isStatic then .typeRef (Expr.noteOf decl.selfTy) decl.selfTy
    else .selfRef (Expr.noteOf decl.selfTy)
  let target := .member (Expr.noteOf field.ty) receiver field.name (fieldBinding decl isStatic)
  .expr (.assign ⟨field.ty, field.span⟩ none target init)

/-- The initializers of the fields that are static, or of those that are not. -/
def initializers (decl : TypeDecl) (isStatic : Bool) : List Stmt :=
  decl.fields.filterMap fun field =>
    if field.modifiers.isStatic = isStatic then field.init.map (initializer decl field) else none

/-- A member without its initializer. -/
def withoutInit : Member → Member
  | .field field => .field { field with init := none }
  | member => member

/-! ## Static initializers -/

/-- Puts statements in front of the first static constructor, which is added when there is none. -/
def prependStatic (inits : List Stmt) : List Member → List Member
  | [] => [.ctor ⟨[], none, inits, .shared, .unknown⟩]
  | .ctor ctor :: rest =>
    if ctor.modifiers.isStatic then .ctor { ctor with body := inits ++ ctor.body } :: rest
    else .ctor ctor :: prependStatic inits rest
  | member :: rest => member :: prependStatic inits rest

/-! ## Instance initializers -/

/-- The guard field of an object. -/
def guardRef (decl : TypeDecl) : Expr :=
  .member (Expr.noteOf .bool) (.selfRef (Expr.noteOf decl.selfTy))
    (.plain (guardName decl.name.name)) (fieldBinding decl false)

/-- Runs the initializers unless the guard is set, and sets it. -/
def guarded (decl : TypeDecl) (inits : List Stmt) : Stmt :=
  .branch (.unary (Expr.noteOf .bool) .not (guardRef decl))
    (inits ++ [.expr ((guardRef decl).assignTo (Expr.boolLiteral true))]) none

/-- Puts the guarded initializers in front of a constructor that calls no other one. -/
def guardMember (decl : TypeDecl) (inits : List Stmt) : Member → Member
  | .ctor ctor =>
    if ctor.modifiers.isStatic || ctor.delegatesToThis then .ctor ctor
    else .ctor { ctor with body := guarded decl inits :: ctor.body }
  | member => member

/-- The declaration of the guard field. -/
def guardField (decl : TypeDecl) : Member :=
  .field ⟨.plain (guardName decl.name.name), .bool, none, .hidden, [], decl.span⟩

/-- The member is a constructor of objects. -/
def isInstanceCtor : Member → Bool
  | .ctor ctor => !ctor.modifiers.isStatic
  | _ => false

/-- Puts the instance initializers into the constructors. -/
def placeInstance (decl : TypeDecl) (inits : List Stmt) (members : List Member) : List Member :=
  if members.any isInstanceCtor then members.map (guardMember decl inits) ++ [guardField decl]
  else members ++ [.ctor ⟨[], none, inits, .none, .unknown⟩]

/-- Moves the initializers of a declaration into its constructors. -/
def decl (decl : TypeDecl) : Except Fault TypeDecl :=
  if decl.kind ≠ .classType ∧ decl.kind ≠ .structType then .ok decl
  else
    let shared := initializers decl true
    let own := initializers decl false
    let members := decl.members.map withoutInit
    let members := if shared.isEmpty then members else prependStatic shared members
    if own.isEmpty then .ok { decl with members }
    else if decl.kind = .structType then .error (.structInitializers decl.name.name decl.span)
    else .ok { decl with members := placeInstance decl own members }

/-- Moves the initializers of a unit into constructors. -/
def unit (unit : SourceUnit) : Except Fault SourceUnit := do
  let decls ← unit.decls.mapM decl
  return { unit with decls }

end ScriptSharp.Lowering.Constructors
