import ScriptSharp.Emit.Body
import ScriptSharp.Source.File
import ScriptSharp.Tree.Decl

/-!
# Emitting a unit

A unit is emitted as its imports followed by its declarations. A blank line stands in front of
every declaration that is not the first thing in the file, and between two members unless both are
fields.
-/

namespace ScriptSharp.Emit

/-- The settings of the emission. -/
structure Style where
  indentWidth : Nat
  /-- The namespaces that every file imports besides its own imports. -/
  baselineImports : List String
  /-- The extension of the emitted files. -/
  extension : String
  deriving DecidableEq, Repr

namespace Style

/-- Four spaces a level and the namespaces that scripts see without an import. -/
def standard : Style := ⟨4, ["UnityEngine", "System.Collections"], "cs"⟩

/-- The imports of an emitted unit: those of the source, those that lowering needs, and those that
every file has, each once and at its first place. -/
def imports (style : Style) (unit : SourceUnit) : List String :=
  (unit.imports ++ unit.implicitImports ++ style.baselineImports).foldl
    (fun seen space => if space ∈ seen then seen else seen ++ [space]) []

/-- The name of the file emitted for `name`. -/
def outputName (style : Style) (name : String) : String :=
  SourceFile.outputName style.extension name

end Style

/-- Words with spaces between them. -/
def words (words : List String) : String :=
  " ".intercalate words

/-- The word, when the condition holds. -/
def wordIf (condition : Bool) (word : String) : List String :=
  if condition then [word] else []

/-- The modifiers in front of a type declaration. -/
def declModifiers (decl : TypeDecl) : List String :=
  decl.modifiers.visibility.keyword ::
    wordIf decl.modifiers.isStatic "static" ++
    wordIf (decl.modifiers.isAbstract && decl.kind == .classType) "abstract" ++
    wordIf (decl.modifiers.isFinal && decl.kind == .classType) "sealed" ++
    wordIf decl.isScript "partial"

/-- The modifiers in front of a method. Interface members have none, and a method that a class does
not close is open to its subclasses. -/
def methodModifiers (kind : TypeKind) (modifiers : Modifiers) : List String :=
  if kind = .interfaceType then []
  else
    modifiers.visibility.keyword ::
      if modifiers.isStatic then ["static"]
      else if modifiers.isAbstract then ["abstract"]
      else if modifiers.isOverride then ["override"]
      else if kind = .classType && !modifiers.isFinal && modifiers.visibility != .privateAccess then
        ["virtual"]
      else []

/-- The number behind a number of 64 bits. The smallest one follows the largest one. -/
def following (value : Int) : Int :=
  (Int64.ofInt value + 1).toInt

/-- The values of enum members: a member without a value follows the one before it. -/
def enumValues (next : Int) : List EnumMember → List (Ident × Int)
  | [] => []
  | member :: rest =>
    let value := member.value.getD next
    (member.name, value) :: enumValues (following value) rest

/-- The texts of enum members, with a comma behind each but the last. -/
def enumTexts : List (Ident × Int) → List String
  | [] => []
  | [(name, value)] => [name.render ++ " = " ++ toString value]
  | (name, value) :: rest => (name.render ++ " = " ++ toString value ++ ",") :: enumTexts rest

namespace Printer

/-- The text of an attribute argument. -/
def attributeArg (printer : Printer) (depth : Nat) (arg : AttributeArg) : Except Fault String := do
  let value ← printer.expr depth arg.value
  return match arg.name with
    | some name => name.render ++ " = " ++ value.text
    | none => value.text

/-- The line of an attribute. -/
def attributeLine (printer : Printer) (depth : Nat) (attr : Attribute) : Except Fault Line := do
  let name ← printer.names.attributeName attr.ty
  if attr.args.isEmpty then
    return ⟨depth, "[" ++ name ++ "]"⟩
  let args ← attr.args.mapM (printer.attributeArg depth)
  return ⟨depth, "[" ++ name ++ "(" ++ ", ".intercalate args ++ ")]"⟩

/-- The text of a parameter. -/
def param (printer : Printer) (param : ParamDecl) : Except Fault String := do
  let ty ← printer.names.render param.ty
  return words (param.modifier.keyword?.toList ++ [ty, param.name.render])

/-- The text of a parameter list. -/
def params (printer : Printer) (params : List ParamDecl) : Except Fault String := do
  let params ← params.mapM printer.param
  return ", ".intercalate params

/-- The lines of a field. -/
def field (printer : Printer) (depth : Nat) (kind : TypeKind) (field : FieldDecl) :
    Except Fault (List Line) := do
  let attrs ← field.attrs.mapM (printer.attributeLine depth)
  let ty ← printer.names.render field.ty
  let init ← printer.optional depth field.init
  let modifiers := wordIf (kind != .interfaceType) field.modifiers.visibility.keyword ++
    wordIf field.modifiers.isStatic "static"
  return attrs ++ [⟨depth, words (modifiers ++ [declarationText ty field.name init]) ++ ";"⟩]

/-- The lines of a method. Interface members have no body, whatever the tree holds. -/
def method (printer : Printer) (depth : Nat) (kind : TypeKind) (method : MethodDecl) :
    Except Fault (List Line) := do
  let attrs ← method.attrs.mapM (printer.attributeLine depth)
  let ret ← printer.names.render method.ret
  let params ← printer.params method.params
  let head := words (methodModifiers kind method.modifiers ++ [ret]) ++ " " ++
    method.name.render ++ "(" ++ params ++ ")"
  match method.body with
  | some body =>
    if kind = .interfaceType then return attrs ++ [⟨depth, head ++ ";"⟩]
    let body ← printer.stmts (depth + 1) body
    return attrs ++ ⟨depth, head⟩ :: braced depth body
  | none => return attrs ++ [⟨depth, head ++ ";"⟩]

/-- The head of a constructor before the call of another constructor. A static constructor has no
parameters. -/
def ctorHead (printer : Printer) (name : Ident) (ctor : CtorDecl) : Except Fault String :=
  if ctor.modifiers.isStatic then return "static " ++ name.render ++ "()"
  else do
    let params ← printer.params ctor.params
    return ctor.modifiers.visibility.keyword ++ " " ++ name.render ++ "(" ++ params ++ ")"

/-- The call of another constructor, behind the head. -/
def chain (printer : Printer) (depth : Nat) : Option CtorChain → Except Fault String
  | none => return ""
  | some chain => do
    let args ← printer.args depth chain.signature 0 chain.args
    let keyword := match chain.kind with
      | .this => "this"
      | .base => "base"
    return " : " ++ keyword ++ "(" ++ (Code.commaSeparated args).text ++ ")"

/-- The lines of a constructor. -/
def ctor (printer : Printer) (depth : Nat) (name : Ident) (ctor : CtorDecl) :
    Except Fault (List Line) := do
  let head ← printer.ctorHead name ctor
  let chain ← printer.chain depth ctor.chain
  let body ← printer.stmts (depth + 1) ctor.body
  return ⟨depth, head ++ chain⟩ :: braced depth body

/-- The lines of a member. -/
def member (printer : Printer) (depth : Nat) (decl : TypeDecl) : Member → Except Fault (List Line)
  | .field field => printer.field depth decl.kind field
  | .method method => printer.method depth decl.kind method
  | .ctor ctor => printer.ctor depth decl.name ctor

/-- The lines of the members behind `previous`. -/
def membersAfter (printer : Printer) (depth : Nat) (decl : TypeDecl) (previous : Member) :
    List Member → Except Fault (List Line)
  | [] => return []
  | member :: rest => do
    let lines ← printer.member depth decl member
    let rest ← printer.membersAfter depth decl member rest
    let gap := if previous.isField && member.isField then [] else [Line.blank]
    return gap ++ lines ++ rest

/-- The lines of the members of a declaration. -/
def members (printer : Printer) (depth : Nat) (decl : TypeDecl) : Except Fault (List Line) :=
  match decl.members with
  | [] => return []
  | first :: rest => do
    let lines ← printer.member depth decl first
    let rest ← printer.membersAfter depth decl first rest
    return lines ++ rest

/-- The types that a declaration derives from. A class without a base derives from `object`. -/
def supertypes (printer : Printer) (decl : TypeDecl) : Except Fault (List String) := do
  let base ← match decl.base, decl.kind with
    | some base, _ => do
      let base ← printer.names.render base
      pure [base]
    | none, .classType => pure ["object"]
    | none, _ => pure []
  let interfaces ← printer.names.renderAll decl.interfaces
  return base ++ interfaces

/-- The lines of a type declaration. -/
def decl (printer : Printer) (decl : TypeDecl) : Except Fault (List Line) := do
  let attrs ← decl.attrs.mapM (printer.attributeLine 0)
  let supertypes ← printer.supertypes decl
  let head := words (declModifiers decl ++ [decl.kind.keyword, decl.name.render])
  let head := if supertypes.isEmpty then head else head ++ " : " ++ ", ".intercalate supertypes
  let body ←
    if decl.kind = .enumType then
      pure ((enumTexts (enumValues 0 decl.enumMembers)).map (Line.mk 1))
    else printer.members 1 decl
  return attrs ++ ⟨0, head⟩ :: braced 0 body

/-- The lines of the declarations of a unit, where `fresh` says that nothing stands before them. -/
def decls (printer : Printer) (fresh : Bool) : List TypeDecl → Except Fault (List Line)
  | [] => return []
  | first :: rest => do
    let lines ← printer.decl first
    let rest ← printer.decls false rest
    return (if fresh then [] else [Line.blank]) ++ lines ++ rest

end Printer

/-- The text of lines. -/
def text (width : Nat) (lines : List Line) : String :=
  "\n".intercalate (lines.map (Line.render width))

/-- The lines of a unit. -/
def unitLines (style : Style) (table : TypeTable) (unit : SourceUnit) :
    Except Fault (List Line) := do
  let imports := style.imports unit
  let printer : Printer := ⟨⟨table, imports⟩, style.indentWidth⟩
  let decls ← printer.decls imports.isEmpty unit.decls
  return imports.map (fun space => ⟨0, "using " ++ space ++ ";"⟩) ++ decls

/-- The text of a unit. All statements must have been moved into declarations. -/
def unitText (style : Style) (table : TypeTable) (unit : SourceUnit) : Except Fault String :=
  if unit.globals.isEmpty then do
    let lines ← unitLines style table unit
    return text style.indentWidth lines
  else .error (.remainingStatements unit.fileName)

end ScriptSharp.Emit
