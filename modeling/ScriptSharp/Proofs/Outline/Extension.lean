import ScriptSharp.Proofs.Tree.Walk

/-!
# Outlines of units

What other code can rely on in a unit: its imports, the declarations in order, and the headers of
their members. A unit extends another one when it has the same outline, up to members, attributes
and imports that were added at the end.

`KeepsHeaders.unit_extends` shows this for every walk that keeps the headers of the nodes that it
leaves, whatever it does to expressions and statements.
-/

namespace ScriptSharp

open Outcome

/-! ## Headers -/

/-- A parameter as callers see it. -/
def ParamDecl.header (param : ParamDecl) : Param :=
  ⟨param.name.name, param.ty, param.modifier⟩

/-- What is declared about a member, without what it holds. -/
inductive MemberHeader where
  | field (name : String) (ty : Ty) (modifiers : Modifiers)
  | method (name : String) (params : List Param) (ret : Ty) (modifiers : Modifiers)
  | ctor (params : List Param) (modifiers : Modifiers)
  deriving DecidableEq

/-- The header of a member. -/
def Member.header : Member → MemberHeader
  | .field decl => .field decl.name.name decl.ty decl.modifiers
  | .method decl =>
    .method decl.name.name (decl.params.map ParamDecl.header) decl.ret decl.modifiers
  | .ctor decl => .ctor (decl.params.map ParamDecl.header) decl.modifiers

/-- What is declared about a type, without its members and attributes. -/
structure TypeHeader where
  id : TypeId
  kind : TypeKind
  name : String
  modifiers : Modifiers
  base : Option Ty
  interfaces : List Ty
  isScript : Bool
  /-- The constants of an enum, by name and value. -/
  enumMembers : List (String × Option Int)
  deriving DecidableEq

/-- The header of a declaration. -/
def TypeDecl.header (decl : TypeDecl) : TypeHeader where
  id := decl.id
  kind := decl.kind
  name := decl.name.name
  modifiers := decl.modifiers
  base := decl.base
  interfaces := decl.interfaces
  isScript := decl.isScript
  enumMembers := decl.enumMembers.map fun member => (member.name.name, member.value)

/-! ## Extension -/

/-- The declaration has the same header, and members and attributes were only added at the end. -/
structure TypeDecl.Extends (source result : TypeDecl) : Prop where
  header : result.header = source.header
  members : source.members.map Member.header <+: result.members.map Member.header
  attrs : source.attrs.map (·.ty) <+: result.attrs.map (·.ty)

/-- The unit has the same declarations in the same order, which were only added to, and namespaces
were only imported behind the others. -/
structure SourceUnit.Extends (source result : SourceUnit) : Prop where
  fileName : result.fileName = source.fileName
  sourceText : result.sourceText = source.sourceText
  imports : result.imports = source.imports
  implicitImports : source.implicitImports <+: result.implicitImports
  decls : List.Forall₂ TypeDecl.Extends source.decls result.decls

namespace TypeDecl.Extends

variable {source between result : TypeDecl}

/-- A declaration extends itself. -/
theorem refl (decl : TypeDecl) : decl.Extends decl :=
  ⟨rfl, List.prefix_refl _, List.prefix_refl _⟩

/-- A declaration that extends an extension of another one extends that one. -/
theorem trans (first : source.Extends between) (second : between.Extends result) :
    source.Extends result :=
  ⟨second.header.trans first.header, first.members.trans second.members,
    first.attrs.trans second.attrs⟩

/-- Other members with the same headers, and more behind them, make an extension. -/
theorem of_members {members : List Member}
    (headers : source.members.map Member.header <+: members.map Member.header) :
    source.Extends { source with members } :=
  ⟨rfl, headers, List.prefix_refl _⟩

/-- Lists of declarations that extend each other, one by one. -/
theorem trans_all {sources betweens results : List TypeDecl}
    (first : List.Forall₂ TypeDecl.Extends sources betweens)
    (second : List.Forall₂ TypeDecl.Extends betweens results) :
    List.Forall₂ TypeDecl.Extends sources results := by
  induction first generalizing results with
  | nil => exact second
  | cons here _ inductionHypothesis =>
    cases second with
    | cons there rest => exact .cons (here.trans there) (inductionHypothesis rest)

end TypeDecl.Extends

namespace SourceUnit.Extends

variable {source between result : SourceUnit}

/-- A unit extends itself. -/
theorem refl (unit : SourceUnit) : unit.Extends unit :=
  ⟨rfl, rfl, rfl, List.prefix_refl _, List.forall₂_same.2 fun decl _ => .refl decl⟩

/-- A unit that extends an extension of another one extends that one. -/
theorem trans (first : source.Extends between) (second : between.Extends result) :
    source.Extends result where
  fileName := second.fileName.trans first.fileName
  sourceText := second.sourceText.trans first.sourceText
  imports := second.imports.trans first.imports
  implicitImports := first.implicitImports.trans second.implicitImports
  decls := TypeDecl.Extends.trans_all first.decls second.decls

end SourceUnit.Extends

/-- Items that agree in something one by one agree in it as lists. -/
theorem map_eq_of_forall₂ {α β : Type} {part : α → β} {sources results : List α}
    (same : List.Forall₂ (fun source result => part result = part source) sources results) :
    results.map part = sources.map part := by
  induction same with
  | nil => rfl
  | cons first _ inductionHypothesis =>
    rw [List.map_cons, List.map_cons, first, inductionHypothesis]

/-! ## Walks -/

namespace DeclTraversal

variable {m : Type → Type} [Monad m] [Outcome m] {ρ : Type} {traversal : DeclTraversal m ρ}
  {env : ρ}

/-- The walk keeps the headers of what it leaves, and only adds to declarations. -/
structure KeepsHeaders (traversal : DeclTraversal m ρ) : Prop where
  attr {env : ρ} {attr left : Attribute} :
    Gives (traversal.leaveAttribute env attr) left → left.ty = attr.ty
  member {env : ρ} {member left : Member} :
    Gives (traversal.leaveMember env member) left → left.header = member.header
  decl {env : ρ} {decl left : TypeDecl} :
    Gives (traversal.leaveDecl env decl) left → decl.Extends left

/-- A walk of method bodies keeps all headers. -/
theorem keepsHeaders_ofTraversal (traversal : Traversal m ρ) :
    (DeclTraversal.ofTraversal traversal).KeepsHeaders where
  attr left := by rw [gives_pure.1 left]
  member left := by rw [gives_pure.1 left]
  decl left := by
    obtain rfl := gives_pure.1 left
    exact .refl _

/-- Attributes keep their types. -/
theorem KeepsHeaders.attrs [LawfulMonad m] (keeps : traversal.KeepsHeaders)
    {attrs results : List Attribute} (walked : Gives (traversal.attrs env attrs) results) :
    results.map (·.ty) = attrs.map (·.ty) := by
  refine map_eq_of_forall₂ ((gives_mapM.1 walked).imp fun attr result walkedAttr => ?_)
  obtain ⟨args, -, left⟩ := gives_bind.1 walkedAttr
  have same := keeps.attr left
  exact same

/-- The parts of a member are no part of its header. -/
theorem memberParts_header {member result : Member}
    (walked : Gives (traversal.memberParts env member) result) :
    result.header = member.header := by
  cases member with
  | field decl | method decl | ctor decl =>
    simp only [memberParts, gives_bind, gives_pure] at walked
    obtain ⟨_, -, _, -, rfl⟩ := walked
    rfl

/-- A walk that keeps headers keeps the header of every member. -/
theorem KeepsHeaders.member_header (keeps : traversal.KeepsHeaders) {member result : Member}
    (walked : Gives (traversal.member env member) result) : result.header = member.header := by
  obtain ⟨parts, walkedParts, left⟩ := gives_bind.1 walked
  rw [keeps.member left, memberParts_header walkedParts]

/-- A walk that keeps headers extends every declaration. -/
theorem KeepsHeaders.decl_extends [LawfulMonad m] (keeps : traversal.KeepsHeaders)
    {decl result : TypeDecl} (walked : Gives (traversal.decl env decl) result) :
    decl.Extends result := by
  simp only [DeclTraversal.decl, gives_bind] at walked
  obtain ⟨attrs, walkedAttrs, members, walkedMembers, left⟩ := walked
  have sameAttrs := keeps.attrs walkedAttrs
  have sameMembers : members.map Member.header = decl.members.map Member.header :=
    map_eq_of_forall₂ ((gives_mapM.1 walkedMembers).imp fun _ _ => keeps.member_header)
  have parts : decl.Extends { decl with attrs, members } :=
    ⟨rfl, sameMembers ▸ List.prefix_refl _, sameAttrs ▸ List.prefix_refl _⟩
  exact parts.trans (keeps.decl left)

/-- A walk that keeps headers extends every declaration of a list. -/
theorem KeepsHeaders.decls_extend [LawfulMonad m] (keeps : traversal.KeepsHeaders)
    {decls results : List TypeDecl} (walked : Gives (traversal.decls env decls) results) :
    List.Forall₂ TypeDecl.Extends decls results :=
  (gives_mapM.1 walked).imp fun _ _ => keeps.decl_extends

/-- A walk that keeps headers extends units. -/
theorem KeepsHeaders.unit_extends [LawfulMonad m] (keeps : traversal.KeepsHeaders)
    {unit result : SourceUnit} (walked : Gives (traversal.unit env unit) result) :
    unit.Extends result := by
  obtain ⟨decls, walkedDecls, rest⟩ := gives_bind.1 walked
  obtain ⟨globals, -, left⟩ := gives_bind.1 rest
  obtain rfl := gives_pure.1 left
  exact ⟨rfl, rfl, rfl, List.prefix_refl _, keeps.decls_extend walkedDecls⟩

end DeclTraversal

end ScriptSharp
