import ScriptSharp.Tree.Equality
import ScriptSharp.Types.Table

/-!
# Declarations and units

The declarations of a source file: types with their members, the statements at top level, and the
namespaces that the file imports.
-/

namespace ScriptSharp

/-- Who can see a declaration. -/
inductive Visibility where
  | publicAccess
  | protectedAccess
  | internalAccess
  | privateAccess
  deriving DecidableEq, Repr

namespace Visibility

/-- The keyword of a visibility. -/
def keyword : Visibility → String
  | .publicAccess => "public"
  | .protectedAccess => "protected"
  | .internalAccess => "internal"
  | .privateAccess => "private"

end Visibility

/-- The modifiers of a declaration. -/
structure Modifiers where
  visibility : Visibility
  isStatic : Bool
  isAbstract : Bool
  isOverride : Bool
  isFinal : Bool
  deriving DecidableEq, Repr

namespace Modifiers

/-- A public declaration without further modifiers. -/
def none : Modifiers := ⟨.publicAccess, false, false, false, false⟩

/-- A private declaration without further modifiers. -/
def hidden : Modifiers := { none with visibility := .privateAccess }

/-- A public static declaration. -/
def shared : Modifiers := { none with isStatic := true }

end Modifiers

/-- An argument of an attribute: positional, or the setting of a named property. -/
structure AttributeArg where
  name : Option Ident
  value : Expr
  deriving DecidableEq

/-- An attribute of a declaration. -/
structure Attribute where
  ty : Ty
  args : List AttributeArg
  span : Span
  deriving DecidableEq

/-- A parameter of a method or a constructor. -/
structure ParamDecl where
  name : Ident
  ty : Ty
  modifier : ParamModifier
  deriving DecidableEq

/-- A field. -/
structure FieldDecl where
  name : Ident
  ty : Ty
  init : Option Expr
  modifiers : Modifiers
  attrs : List Attribute
  span : Span
  deriving DecidableEq

/-- A method. Interface members and abstract ones have no body. -/
structure MethodDecl where
  name : Ident
  params : List ParamDecl
  ret : Ty
  body : Option (List Stmt)
  modifiers : Modifiers
  attrs : List Attribute
  span : Span
  deriving DecidableEq

namespace MethodDecl

/-- The signature that callers see. -/
def signature (method : MethodDecl) : Signature :=
  ⟨method.params.map fun param => ⟨param.name.name, param.ty, param.modifier⟩, method.ret⟩

end MethodDecl

/-- Which constructor runs first. -/
inductive ChainKind where
  | this
  | base
  deriving DecidableEq, Repr

/-- The call of another constructor in front of a constructor body. -/
structure CtorChain where
  kind : ChainKind
  args : List Expr
  signature : Option Signature
  deriving DecidableEq

/-- A constructor. -/
structure CtorDecl where
  params : List ParamDecl
  chain : Option CtorChain
  body : List Stmt
  modifiers : Modifiers
  span : Span
  deriving DecidableEq

namespace CtorDecl

/-- Another constructor of the same type runs first. -/
def delegatesToThis (ctor : CtorDecl) : Bool :=
  match ctor.chain with
  | some chain => chain.kind == .this
  | none => false

end CtorDecl

/-- A member of a type. -/
inductive Member where
  | field (field : FieldDecl)
  | method (method : MethodDecl)
  | ctor (ctor : CtorDecl)
  deriving DecidableEq

namespace Member

/-- The member is a field. -/
def isField : Member → Bool
  | .field _ => true
  | .method _ | .ctor _ => false

end Member

/-- A constant of an enum. -/
structure EnumMember where
  name : Ident
  value : Option Int
  deriving DecidableEq, Repr

/-- The declaration of a type. -/
structure TypeDecl where
  id : TypeId
  name : Ident
  kind : TypeKind
  modifiers : Modifiers
  attrs : List Attribute
  base : Option Ty
  interfaces : List Ty
  members : List Member
  enumMembers : List EnumMember
  /-- The class that takes the top level statements of a script. -/
  isScript : Bool
  span : Span
  deriving DecidableEq

namespace TypeDecl

/-- The declared type itself. -/
def selfTy (decl : TypeDecl) : Ty := .named decl.id

/-- The handle of the base type. -/
def baseId? (decl : TypeDecl) : Option TypeId := decl.base.bind Ty.typeId?

/-- The fields, in order. -/
def fields (decl : TypeDecl) : List FieldDecl :=
  decl.members.filterMap fun
    | .field field => some field
    | _ => none

/-- The methods, in order. -/
def methods (decl : TypeDecl) : List MethodDecl :=
  decl.members.filterMap fun
    | .method method => some method
    | _ => none

/-- The constructors, in order. -/
def ctors (decl : TypeDecl) : List CtorDecl :=
  decl.members.filterMap fun
    | .ctor ctor => some ctor
    | _ => none

end TypeDecl

/-- The annotated tree of one source file. -/
structure SourceUnit where
  fileName : String
  /-- The namespaces imported in the source. -/
  imports : List String
  /-- The namespaces that lowering needs, in the order of first need. -/
  implicitImports : List String
  decls : List TypeDecl
  /-- The statements at top level. -/
  globals : List Stmt
  /-- The text of the script, where the file itself does not hold it. -/
  sourceText : Option String
  deriving DecidableEq

namespace SourceUnit

/-- Imports a namespace, once. -/
def requireImport (unit : SourceUnit) (space : String) : SourceUnit :=
  if space ∈ unit.imports ∨ space ∈ unit.implicitImports then unit
  else { unit with implicitImports := unit.implicitImports ++ [space] }

/-- The class that takes the top level statements. -/
def scriptClass? (unit : SourceUnit) : Option TypeDecl :=
  unit.decls.find? (·.isScript)

end SourceUnit

end ScriptSharp
