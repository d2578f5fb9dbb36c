import ScriptSharp.Proofs.Tree.Names
import ScriptSharp.Proofs.Tree.Passing

/-!
# The forms that lowering leaves behind

What is true of each node once it has been lowered: names are bound, calls call values, static
members are reached through their type, function literals have a full shape, and names are marked
when they are reserved words.

Later steps build and move expressions. What they may rely on for all of these properties alike is
collected in `Stable`: only names, member accesses, calls and function literals are restricted, and
a call only by its callee.
-/

namespace ScriptSharp

open Outcome
open Node (SameHeads OfExpr)

/-- The name is bound, and no receiver is missing. -/
def Binding.Settled : Binding → Prop
  | .localVariable | .parameter => True
  | .member binding => binding.isStatic = true ∨ binding.kind = .enumMember
  | .unresolved => False

namespace Expr

/-- The form is one that the emitted language has: a name that is settled, or a call of a value. -/
def SugarFree : Expr → Prop
  | .ident _ _ binding => binding.Settled
  | .invoke _ callee _ _ _ => callee.head = .other
  | _ => True

/-- A static member is reached through a type. -/
def Received : Expr → Prop
  | .member _ target _ binding => binding.isStatic = true → target.head = .typeName
  | _ => True

/-- What names, calls and member accesses refer to is spelled out. -/
structure Resolved (expr : Expr) : Prop where
  sugarFree : expr.SugarFree
  received : expr.Received

/-- A function literal has a type for each parameter and for its result, a block as its body, and
the function type made of exactly those types. -/
def Shaped : Expr → Prop
  | .lambda note params ret body => ∃ paramTypes result stmts,
    params.map (·.ty) = paramTypes.map some ∧ ret = some result ∧ body = .block stmts ∧
      note.ty = .delegate paramTypes result
  | _ => True

/-- Everything that lowering says about an expression. -/
structure Normal (expr : Expr) : Prop where
  resolved : expr.Resolved
  shaped : expr.Shaped

/-- The form is one of which no step requires anything. -/
def isPlain : Expr → Bool
  | .ident .. | .member .. | .invoke .. | .lambda .. => false
  | _ => true

end Expr

/-- All names that the node itself holds are marked exactly when they are reserved words. -/
def Node.Marked (node : Node) : Prop :=
  ∀ ident ∈ node.idents, ident.escaped = isReservedWord ident.name

/-! ## Attributes of fields

Inference does not look at them, so what it establishes is said of trees without them. -/

/-- The member without attributes, if it is a field. -/
def Member.withoutFieldAttributes : Member → Member
  | .field decl => .field { decl with attrs := [] }
  | other => other

/-- The declaration without the attributes of its fields. -/
def TypeDecl.withoutFieldAttributes (decl : TypeDecl) : TypeDecl :=
  { decl with members := decl.members.map .withoutFieldAttributes }

/-- The unit without the attributes of fields. -/
def SourceUnit.withoutFieldAttributes (unit : SourceUnit) : SourceUnit :=
  { unit with decls := unit.decls.map .withoutFieldAttributes }

namespace DeclTraversal

variable {m : Type → Type} [Monad m] [Outcome m] [LawfulMonad m] {ρ : Type}
  {traversal : DeclTraversal m ρ} {env : ρ} {member result : Member}

/-- A walk of a member is one of the member without the attributes of its fields. -/
theorem memberParts_withoutFieldAttributes
    (walked : Gives (traversal.memberParts env member) result) :
    Gives (traversal.memberParts env member.withoutFieldAttributes)
      result.withoutFieldAttributes := by
  cases member with
  | field decl =>
    simp only [memberParts, gives_bind, gives_pure] at walked
    obtain ⟨_, -, init, walkedInit, rfl⟩ := walked
    refine gives_bind.2 ⟨[], gives_mapM.2 .nil, ?_⟩
    exact gives_bind.2 ⟨init, walkedInit, gives_pure.2 rfl⟩
  | method decl =>
    have same := walked
    simp only [memberParts, gives_bind, gives_pure] at same
    obtain ⟨_, -, _, -, rfl⟩ := same
    exact walked
  | ctor decl =>
    have same := walked
    simp only [memberParts, gives_bind, gives_pure] at same
    obtain ⟨_, -, _, -, rfl⟩ := same
    exact walked

/-- A walk that does not look at the attributes of a field itself does the same without them. -/
theorem member_withoutFieldAttributes
    (enters : traversal.enterMember env member.withoutFieldAttributes =
      traversal.enterMember env member)
    (leaves : ∀ finished left, Gives (traversal.leaveMember env finished) left →
      Gives (traversal.leaveMember env finished.withoutFieldAttributes)
        left.withoutFieldAttributes)
    (walked : Gives (traversal.member env member) result) :
    Gives (traversal.member env member.withoutFieldAttributes) result.withoutFieldAttributes := by
  obtain ⟨finished, walkedParts, left⟩ := gives_bind.1 walked
  have parts := memberParts_withoutFieldAttributes walkedParts
  rw [← enters] at parts
  exact gives_bind.2 ⟨finished.withoutFieldAttributes, parts, leaves finished result left⟩

end DeclTraversal

/-! ## Stable properties -/

/-- A property of expressions that steps keep as long as they keep heads. -/
structure Stable (holds : Expr → Prop) : Prop where
  /-- It depends on the shell of an expression and on the heads of its parts. -/
  agrees {source rebuilt : Expr} : SameHeads (.expr source) (.expr rebuilt) →
    holds source → holds rebuilt
  plain {expr : Expr} : expr.isPlain = true → holds expr
  member {note : Note} {target : Expr} {name : Ident} {binding : MemberBinding} :
    (binding.isStatic = true → target.head = .typeName) → holds (.member note target name binding)
  /-- A call is restricted by its callee only. -/
  invoke {note newNote : Note} {callee : Expr} {typeArgs : List Ty} {args newArgs : List Expr}
    {signature : Option Signature} : holds (.invoke note callee typeArgs args signature) →
      holds (.invoke newNote callee typeArgs newArgs signature)

/-- A stable property of a node holds of every node with the same heads. -/
theorem Stable.agreesNode {holds : Expr → Prop} (stable : Stable holds) {source rebuilt : Node}
    (same : SameHeads source rebuilt) (here : OfExpr holds source) : OfExpr holds rebuilt := by
  cases rebuilt with
  | expr root =>
    have shell := same.shell
    cases source <;> simp only [Node.shell, reduceCtorEq] at shell
    exact stable.agrees same here
  | _ => trivial

/-- Steps that keep heads bring no sugar back. -/
theorem stable_sugarFree : Stable Expr.SugarFree where
  agrees {source rebuilt} same here := by
    obtain ⟨shell, parts⟩ := same
    replace shell := Node.expr.inj shell
    cases source <;> cases rebuilt <;> simp only [Expr.shell, reduceCtorEq] at shell
    case ident.ident =>
      cases shell
      exact here
    case invoke.invoke =>
      cases parts with
      | cons first _ => exact first.2.symm.trans here
    all_goals trivial
  plain {expr} plain := by cases expr <;> trivial
  member _ := trivial
  invoke callee := callee

/-- Steps that keep heads take no receiver away. -/
theorem stable_received : Stable Expr.Received where
  agrees {source rebuilt} same here := by
    obtain ⟨shell, parts⟩ := same
    replace shell := Node.expr.inj shell
    cases source <;> cases rebuilt <;> simp only [Expr.shell, reduceCtorEq] at shell
    case member.member =>
      obtain ⟨-, -, -, rfl⟩ := Expr.member.inj shell
      cases parts with
      | cons first _ => exact fun isStatic => first.2.symm.trans (here isStatic)
    all_goals trivial
  plain {expr} plain := by cases expr <;> trivial
  member receiver := receiver
  invoke _ := trivial

/-- Steps that keep heads keep what is resolved. -/
theorem stable_resolved : Stable Expr.Resolved where
  agrees same here :=
    ⟨stable_sugarFree.agrees same here.sugarFree, stable_received.agrees same here.received⟩
  plain plain := ⟨stable_sugarFree.plain plain, stable_received.plain plain⟩
  member receiver := ⟨trivial, receiver⟩
  invoke here := ⟨stable_sugarFree.invoke here.sugarFree, trivial⟩

/-- Steps that keep heads keep the shapes of function literals. -/
theorem stable_shaped : Stable Expr.Shaped where
  agrees {source rebuilt} same here := by
    replace same := Node.expr.inj same.shell
    cases source <;> cases rebuilt <;> simp only [Expr.shell, reduceCtorEq] at same
    case lambda.lambda body _ _ _ other =>
      obtain ⟨rfl, rfl, rfl, sameBody⟩ := Expr.lambda.inj same
      obtain ⟨paramTypes, result, stmts, params, ret, rfl, ty⟩ := here
      cases other with
      | expr => cases sameBody
      | block rebuilt => exact ⟨paramTypes, result, rebuilt, params, ret, rfl, ty⟩
    all_goals trivial
  plain {expr} plain := by cases expr <;> trivial
  member _ := trivial
  invoke _ := trivial

/-- Steps that keep heads keep the normal form. -/
theorem stable_normal : Stable Expr.Normal where
  agrees same here :=
    ⟨stable_resolved.agrees same here.resolved, stable_shaped.agrees same here.shaped⟩
  plain plain := ⟨stable_resolved.plain plain, stable_shaped.plain plain⟩
  member receiver := ⟨stable_resolved.member receiver, trivial⟩
  invoke here := ⟨stable_resolved.invoke here.resolved, trivial⟩

end ScriptSharp
