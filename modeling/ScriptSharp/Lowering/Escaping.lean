import ScriptSharp.Tree.Traversal

/-!
# Marking reserved names

Every name that the unit declares or refers to is marked exactly when it is a reserved word.
-/

namespace ScriptSharp.Lowering.Escaping

/-- A parameter with its name marked. -/
def param (param : ParamDecl) : ParamDecl :=
  { param with name := param.name.escape }

/-- An expression with its own names marked. -/
def leave : Expr → Expr
  | .ident note name binding => .ident note name.escape binding
  | .member note target name binding => .member note target name.escape binding
  | .lambda note params ret body =>
    .lambda note (params.map fun param => { param with name := param.name.escape }) ret body
  | expr => expr

/-- A statement with its own names marked. -/
def leaveStmt : Stmt → Stmt
  | .declare name declared ty init span => .declare name.escape declared ty init span
  | .forEach item itemTy source body => .forEach item.escape itemTy source body
  | stmt => stmt

/-- An attribute with the names of its arguments marked. -/
def leaveAttribute (attr : Attribute) : Attribute :=
  { attr with args := attr.args.map fun arg => { arg with name := arg.name.map Ident.escape } }

/-- A member with its own names marked. -/
def leaveMember : Member → Member
  | .field field => .field { field with name := field.name.escape }
  | .method method =>
    .method { method with name := method.name.escape, params := method.params.map param }
  | .ctor ctor => .ctor { ctor with params := ctor.params.map param }

/-- A declaration with its own names marked. -/
def leaveDecl (decl : TypeDecl) : TypeDecl :=
  { decl with
    name := decl.name.escape
    enumMembers := decl.enumMembers.map fun member => { member with name := member.name.escape } }

/-- The walk that marks names. -/
def traversal : DeclTraversal Id Unit where
  enter _ _ := pure (some ⟨(), ()⟩)
  leave _ expr := pure (leave expr)
  enterStmt _ _ := ()
  leaveStmt _ stmt := pure (leaveStmt stmt)
  enterDecl _ _ := ()
  enterMember _ _ := ()
  leaveAttribute _ attr := pure (leaveAttribute attr)
  leaveMember _ member := pure (leaveMember member)
  leaveDecl _ decl := pure (leaveDecl decl)

/-- Marks the names of a unit. -/
def unit (unit : SourceUnit) : SourceUnit :=
  Id.run (traversal.unit () unit)

end ScriptSharp.Lowering.Escaping
