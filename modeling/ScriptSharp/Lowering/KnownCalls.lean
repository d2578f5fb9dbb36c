import ScriptSharp.Lowering.Context
import ScriptSharp.Tree.Traversal

/-!
# Narrowing the results of known calls

A call of a known method gets a cast to the type that its argument names, or else to the type that
the tree gives to the call. A call whose result is dropped, and one that stands under a cast to that
type already, stay as they are.
-/

namespace ScriptSharp.Lowering.KnownCalls

/-- The type that an argument names: by a type token, by the type itself, or by a string. -/
def namedType? (types : TypeTable) (arg : Expr) : Option Ty :=
  match arg.stripParens with
  | .typeOf _ named => some named
  | .typeRef _ named => some named
  | .literal _ (.string name) => (types.lookup? name).map Ty.named
  | _ => none

/-- The member that is called, and the name it is called by. -/
def calledMember? (callee : Expr) : Option (MemberBinding × String) :=
  match callee.stripParens with
  | .member _ _ name binding => some (binding, name.name)
  | .ident _ name (.member binding) => some (binding, name.name)
  | _ => none

/-- The type that the result of a call has to be cast to, if the call is known and needs a cast. -/
def castTarget? (context : Context) : Expr → Option Ty
  | .invoke note callee typeArgs args signature => do
    let (binding, name) ← calledMember? callee
    guard (binding.kind = .method ∧ typeArgs = [])
    let api ← KnownApi.lookup? context.knownApis context.types binding.declaring name
    let declared := signature.map (·.ret)
    let required ← (args[api.typeArgument]?.bind (namedType? context.types)).or
      (if declared = some note.ty then none else some note.ty)
    guard (declared ≠ some required ∧ !required.isObject ∧ !required.isVoid)
    return required
  | _ => none

/-- How the result of an expression is used. -/
inductive Usage where
  | value
  /-- It is dropped, or has its cast already. Parentheses around the call are dropped. -/
  | settled
  deriving DecidableEq, Repr

/-- A cast to the type that a call needs settles the call. -/
def enter (context : Context) (usage : Usage) (expr : Expr) : Option (Descent Usage) :=
  match usage, expr with
  | .value, .cast _ operand target _ =>
    if castTarget? context operand.stripParens = some target then some ⟨.value, .settled⟩
    else some ⟨.value, .value⟩
  | .settled, .paren _ _ => some ⟨.value, .settled⟩
  | _, _ => some ⟨.value, .value⟩

/-- The call with the type that its signature declares. -/
def withDeclaredType : Expr → Expr
  | .invoke note callee typeArgs args (some signature) =>
    .invoke { note with ty := signature.ret } callee typeArgs args (some signature)
  | expr => expr

/-- A call whose arguments are done gets its cast, unless it is settled. -/
def leave (context : Context) (usage : Usage) (expr : Expr) : Expr :=
  match usage, expr with
  | .settled, .paren _ inner => inner
  | .settled, _ => expr
  | .value, _ =>
    match castTarget? context expr with
    | some required => (withDeclaredType expr).castTo required
    | none => expr

/-- The result of a call that is a statement is dropped. -/
def enterStmt : Stmt → Usage
  | .expr value => if value.isInvoke then .settled else .value
  | _ => .value

/-- The walk that narrows the results of known calls. -/
def traversal (context : Context) : DeclTraversal Id Usage :=
  .ofTraversal
    { enter := fun usage expr => pure (enter context usage expr)
      leave := fun usage expr => pure (leave context usage expr)
      enterStmt := fun _ stmt => enterStmt stmt
      leaveStmt := fun _ stmt => pure stmt }

/-- Narrows the results of the known calls of a unit. -/
def unit (context : Context) (unit : SourceUnit) : SourceUnit :=
  Id.run ((traversal context).unit .value unit)

end ScriptSharp.Lowering.KnownCalls
