import ScriptSharp.Lowering.Context
import ScriptSharp.Source.Fault
import ScriptSharp.Tree.Traversal
import ScriptSharp.Types.Conversion
import ScriptSharp.Types.Display

/-!
# Removing sugar

The conveniences of the source language become explicit: calls of a type become constructions, a
bare member name gets its receiver, a type used as a value becomes a type token, arguments for a
`params` parameter become an array, locals get their initial value, a leading constructor call
becomes a constructor chain, and the statements at top level move into the script class.
-/

namespace ScriptSharp.Lowering.Sugar

/-- The declaration around a node: its own handle and the handle of its base type. -/
structure Scope where
  current : Option TypeId
  base : Option TypeId

/-- The scope outside of all declarations. -/
def Scope.outside : Scope := ⟨none, none⟩

/-- The scope inside a declaration. -/
def Scope.of (decl : TypeDecl) : Scope := ⟨some decl.id, decl.baseId?⟩

/-! ## Values -/

/-- A type used as a value becomes a type token. -/
def valueize (types : TypeTable) (expr : Expr) : Expr :=
  match expr.stripParens with
  | .typeRef _ named => .typeOf ⟨.named types.wellKnown.systemType, expr.span⟩ named
  | _ => expr

/-- Packs the arguments from the place of the `params` parameter on into an array. One argument
that is an array already, or `null`, is passed on as it is. -/
def expandParams (types : TypeTable) (signature : Option Signature) (args : List Expr) :
    List Expr :=
  match signature with
  | none => args
  | some signature =>
    match signature.paramsIndex with
    | none => args
    | some index =>
      match signature.params[index]?, args[index]? with
      | some param, some packed =>
        if index + 1 ≠ signature.params.length then args
        else if args.length = index + 1 ∧
            (packed.ty.isNull ∨ types.implicitlyConvertible packed.ty param.ty) then args
        else
          match param.ty.element? with
          | none => args
          | some element =>
            args.take index ++ [.array (Expr.noteOf param.ty) element (args.drop index)]
      | _, _ => args

/-- The value of a local that is declared without one. -/
def defaultValue (types : TypeTable) (ty : Ty) : Expr :=
  match ty with
  | .primitive .bool => Expr.boolLiteral false
  | .primitive .char => .literal (Expr.noteOf ty) (.char (Char.ofNat 0))
  | .primitive .byte => .literal (Expr.noteOf ty) (.int 0)
  | .primitive .int => .literal (Expr.noteOf ty) (.int 0)
  | .primitive .long => .literal (Expr.noteOf ty) (.int 0)
  | .primitive .float => .literal (Expr.noteOf ty) (.float .zero)
  | .primitive .double => .literal (Expr.noteOf ty) (.double .zero)
  | _ => if types.isValueType ty then .defaultOf (Expr.noteOf ty) ty else Expr.nullLiteral

/-! ## References and calls -/

/-- The spelling that the emitted language uses for a member. -/
def rename (name : Ident) (binding : MemberBinding) : Ident :=
  match binding.targetName with
  | some target => if target = name.name then name else .plain target
  | none => name

/-- A bare name. An instance member gets its receiver. -/
def reference (scope : Scope) (note : Note) (name : Ident) : Binding → Except Fault Expr
  | .unresolved => .error (.unboundIdentifier name.name note.span)
  | .member binding =>
    if binding.isStatic || binding.kind == .enumMember then
      return .ident note (rename name binding) (.member binding)
    else
      let owner := scope.current.getD binding.declaring
      return .member note (.selfRef (Expr.noteOf (.named owner))) (rename name binding) binding
  | binding => return .ident note name binding

/-- A call of a type constructs it. A value type without a matching constructor has its default
value, and a class that declares no constructors has one without parameters. -/
def construct (types : TypeTable) (span : Span) (target : Ty) (args : List Expr) :
    Except Fault Expr :=
  match target.typeId? with
  | none => .error (.notConstructible (types.display target) span)
  | some id =>
    match types.findConstructor? id (args.map Expr.ty) with
    | some signature =>
      return .construct ⟨target, span⟩ target (expandParams types signature args) signature
    | none =>
      if types.isValueType target then
        if args.isEmpty then return .defaultOf ⟨target, span⟩ target
        else .error (.valueTypeArguments (types.display target) args.length span)
      else if args.isEmpty && ((types.get? id).all fun info => info.constructors.isEmpty) then
        return .construct ⟨target, span⟩ target args none
      else .error (.noMatchingConstructor (types.display target) span)

/-- The constructor for the given arguments, when none is bound yet. -/
def resolve (types : TypeTable) (owner : Option TypeId) (args : List Expr) :
    Option Signature → Option Signature
  | some signature => some signature
  | none => owner.bind fun id => types.findConstructor? id (args.map Expr.ty)

/-- An expression whose parts are free of sugar. -/
def leave (types : TypeTable) (scope : Scope) : Expr → Except Fault Expr
  | .ident note name binding => reference scope note name binding
  | .invoke note callee typeArgs args signature =>
    let args := args.map (valueize types)
    match callee.stripParens with
    | .typeRef _ target => construct types note.span target args
    | .superRef _ => .error (.misplacedBaseCall note.span)
    | _ => return .invoke note callee typeArgs (expandParams types signature args) signature
  | .construct note constructed args signature =>
    let args := args.map (valueize types)
    let signature := resolve types constructed.typeId? args signature
    return .construct note constructed (expandParams types signature args) signature
  | .member note target name binding => return .member note target (rename name binding) binding
  | .assign note op target value => return .assign note op target (valueize types value)
  | .binary note op left right =>
    return .binary note op (valueize types left) (valueize types right)
  | .ternary note condition thenValue elseValue =>
    return .ternary note condition (valueize types thenValue) (valueize types elseValue)
  | .array note element items => return .array note element (items.map (valueize types))
  | .map note entries =>
    return .map note (entries.map fun (key, value) => (valueize types key, valueize types value))
  | expr => return expr

/-- A statement whose parts are free of sugar. -/
def leaveStmt (types : TypeTable) : Stmt → Stmt
  | .declare name declared ty (some init) span =>
    .declare name declared ty (some (valueize types init)) span
  | .declare name declared ty none span =>
    .declare name declared ty (some (defaultValue types ty)) span
  | .ret value span => .ret (value.map (valueize types)) span
  | stmt => stmt

/-! ## Attributes -/

mutual
/-- The forms that can be an argument of an attribute. -/
def isConstantShaped : Expr → Bool
  | .literal .. => true
  | .typeOf .. => true
  | .defaultOf .. => true
  | .unary _ op operand => !op.isStep && isConstantShaped operand
  | .binary _ _ left right => isConstantShaped left && isConstantShaped right
  | .member _ _ _ binding => binding.kind == .enumMember
  | .ident _ _ (.member binding) => binding.kind == .enumMember
  | .array _ _ items => allConstantShaped items
  | .cast _ operand _ _ => isConstantShaped operand
  | .paren _ inner => isConstantShaped inner
  | _ => false
termination_by structural expr => expr

/-- All of the expressions can be arguments of an attribute. -/
def allConstantShaped : List Expr → Bool
  | [] => true
  | first :: rest => isConstantShaped first && allConstantShaped rest
termination_by structural exprs => exprs
end

/-- Checks the arguments of an attribute, where `named` are the names that stand before them, the
last one first. -/
def checkArgs (span : Span) (named : List String) : List AttributeArg → Except Fault Unit
  | [] => return ()
  | ⟨name, value⟩ :: rest => do
    let named ← match name, named with
      | some name, _ =>
        if name.name ∈ named then .error (.repeatedNamedArgument name.name span)
        else pure (name.name :: named)
      | none, last :: _ => .error (.positionalAfterNamed last span)
      | none, [] => pure []
    if isConstantShaped value then checkArgs span named rest
    else .error (.nonConstantArgument (value.span.or span))

/-- An attribute whose arguments are free of sugar. -/
def leaveAttribute (types : TypeTable) (attr : Attribute) : Except Fault Attribute := do
  let args := attr.args.map fun arg => { arg with value := valueize types arg.value }
  checkArgs attr.span [] args
  return { attr with args }

/-! ## Declarations -/

/-- The constructor that a leading statement calls: the base's by `super(...)`, another one of the
same type by the name of the type. -/
def chainKind? (current : TypeId) (callee : Expr) : Option ChainKind :=
  match callee.stripParens with
  | .superRef _ => some .base
  | .typeRef _ named => if named.typeId? = some current then some .this else none
  | _ => none

/-- Makes a leading constructor call a constructor chain. -/
def liftChain (current : TypeId) (ctor : CtorDecl) : CtorDecl :=
  if ctor.modifiers.isStatic || ctor.chain.isSome then ctor
  else
    match ctor.body with
    | .expr (.invoke _ callee _ args signature) :: rest =>
      match chainKind? current callee with
      | some kind => { ctor with chain := some ⟨kind, args, signature⟩, body := rest }
      | none => ctor
    | _ => ctor

/-- Makes leading constructor calls constructor chains. -/
def liftChains (decl : TypeDecl) : TypeDecl :=
  { decl with
    members := decl.members.map fun
      | .ctor ctor => .ctor (liftChain decl.id ctor)
      | member => member }

/-- Finds the constructor that a chain calls and packs its arguments. The choice is made by the
types of the arguments before types among them become tokens. -/
def resolveChain (types : TypeTable) (scope : Scope) (chain : CtorChain) : CtorChain :=
  let owner := match chain.kind with
    | .this => scope.current
    | .base => scope.base
  let signature := resolve types owner chain.args chain.signature
  { chain with signature, args := expandParams types signature (chain.args.map (valueize types)) }

/-- A member whose parts are free of sugar. -/
def leaveMember (types : TypeTable) (scope : Scope) : Member → Member
  | .ctor ctor => .ctor { ctor with chain := ctor.chain.map (resolveChain types scope) }
  | member => member

/-- Marks a class as serializable, once. The script class is not marked. -/
def leaveDecl (context : Context) (decl : TypeDecl) : TypeDecl :=
  let serializable := Ty.named context.types.wellKnown.serializable
  if context.serializableClasses && decl.kind == .classType && !decl.isScript &&
      !decl.attrs.any (·.ty = serializable) then
    { decl with attrs := decl.attrs ++ [⟨serializable, [], decl.span⟩] }
  else decl

/-- The walk that removes sugar. -/
def traversal (context : Context) : DeclTraversal (Except Fault) Scope where
  enter scope _ := pure (some ⟨scope, scope⟩)
  leave scope expr := leave context.types scope expr
  enterStmt scope _ := scope
  leaveStmt _ stmt := pure (leaveStmt context.types stmt)
  enterDecl _ decl := .of decl
  enterMember scope _ := scope
  leaveAttribute _ attr := leaveAttribute context.types attr
  leaveMember scope member := pure (leaveMember context.types scope member)
  leaveDecl _ decl := pure (leaveDecl context decl)

/-! ## Top level statements -/

/-- The method that runs when a script starts. -/
def isStart (method : MethodDecl) : Bool :=
  method.name.name == "Start" && method.params.isEmpty && !method.modifiers.isStatic

/-- Puts statements in front of the starting method, which is added when there is none. -/
def prependToStart (globals : List Stmt) : List Member → List Member
  | [] => [.method ⟨.plain "Start", [], .void, some globals, .none, [], .unknown⟩]
  | .method method :: rest =>
    if isStart method then
      .method { method with body := some (globals ++ method.body.getD []) } :: rest
    else .method method :: prependToStart globals rest
  | member :: rest => member :: prependToStart globals rest

/-- Moves statements into the first script class. -/
def moveGlobals (globals : List Stmt) : List TypeDecl → List TypeDecl
  | [] => []
  | decl :: rest =>
    if decl.isScript then { decl with members := prependToStart globals decl.members } :: rest
    else decl :: moveGlobals globals rest

/-- Removes the sugar of a unit. -/
def unit (context : Context) (unit : SourceUnit) : Except Fault SourceUnit := do
  let decls ← (traversal context).decls .outside (unit.decls.map liftChains)
  if unit.globals.isEmpty then
    return { unit with decls }
  match decls.find? (·.isScript) with
  | none => .error (.noScriptClass unit.fileName)
  | some script =>
    let globals ← (traversal context).stmts (.of script) unit.globals
    return { unit with decls := moveGlobals globals decls, globals := [] }

end ScriptSharp.Lowering.Sugar
