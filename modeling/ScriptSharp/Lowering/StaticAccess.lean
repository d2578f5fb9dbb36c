import ScriptSharp.Tree.Traversal

/-!
# Static members through instances

A static member is reached through the type that declares it. A receiver that is an instance is
dropped, together with what it would compute.
-/

namespace ScriptSharp.Lowering.StaticAccess

/-- The receiver of a static member has to become the declaring type. A type as a receiver stays,
unless it is an enum that inherits the member. -/
def needsTypeReceiver (types : TypeTable) (target : Expr) (binding : MemberBinding) : Bool :=
  binding.isStatic &&
    match target.stripParens with
    | .typeRef _ receiver =>
      types.isEnum receiver && decide (receiver.typeId? ≠ some binding.declaring) &&
        binding.kind != .enumMember
    | _ => true

/-- A member access whose receiver is settled. -/
def leave (types : TypeTable) : Expr → Expr
  | .member note target name binding =>
    if needsTypeReceiver types target binding then
      let declaring := Ty.named binding.declaring
      .member note (.typeRef ⟨declaring, target.span⟩ declaring) name binding
    else .member note target name binding
  | expr => expr

/-- The walk that settles receivers. -/
def traversal (types : TypeTable) : DeclTraversal Id Unit :=
  .ofTraversal { Traversal.plain with leave := fun _ expr => pure (leave types expr) }

/-- Settles the receivers of a unit. -/
def unit (types : TypeTable) (unit : SourceUnit) : SourceUnit :=
  Id.run ((traversal types).unit () unit)

end ScriptSharp.Lowering.StaticAccess
