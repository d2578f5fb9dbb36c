import ScriptSharp.Source.Fault
import ScriptSharp.Tree.Ident
import ScriptSharp.Types.Table

/-!
# Spelling types

A unit sees a type by its short name when it imports the namespace of the type, and by its
qualified name otherwise. Attributes always have the qualified name, without the suffix that the
name of an attribute class ends in.
-/

namespace ScriptSharp.Emit

/-- What a unit knows about the names of types. -/
structure Names where
  table : TypeTable
  imports : List String

namespace Names

/-- The unit imports the namespace. -/
def sees (names : Names) (space : String) : Bool :=
  names.imports.contains space

/-- The spelling of a declared type. -/
def spell (names : Names) (info : TypeInfo) : String :=
  match info.space with
  | some space =>
    if names.sees space then escapeWord info.name else space ++ "." ++ escapeWord info.name
  | none => escapeWord info.name

/-- The spelling of the nominal type behind a handle. -/
def named (names : Names) (id : TypeId) : Except Fault String :=
  match names.table.get? id with
  | some info => .ok (names.spell info)
  | none => .error (.unknownHandle id)

/-- The spelling of a function type with the given arguments. -/
def delegate (names : Names) (returnsValue : Bool) (args : List String) : String :=
  let space := if names.sees "System" then "" else "System."
  let name := if returnsValue then "Func" else "Action"
  match args with
  | [] => space ++ name
  | _ => space ++ name ++ "<" ++ ", ".intercalate args ++ ">"

mutual
/-- The spelling of a type. The type of `null` is spelled as the type that holds everything. -/
def render (names : Names) : Ty → Except Fault String
  | .void => .ok "void"
  | .null => .ok "object"
  | .primitive basic => .ok basic.keyword
  | .named id => names.named id
  | .array element => do
    let element ← names.render element
    return element ++ "[]"
  | .generic id arguments => do
    let name ← names.named id
    let arguments ← names.renderAll arguments
    return name ++ "<" ++ ", ".intercalate arguments ++ ">"
  | .delegate params ret => do
    let params ← names.renderAll params
    if ret.isVoid then return names.delegate false params
    let ret ← names.render ret
    return names.delegate true (params ++ [ret])

/-- The spellings of several types. -/
def renderAll (names : Names) : List Ty → Except Fault (List String)
  | [] => .ok []
  | ty :: types => do
    let ty ← names.render ty
    let types ← names.renderAll types
    return ty :: types
end

/-- The spellings of several types with commas between them. -/
def renderList (names : Names) (types : List Ty) : Except Fault String := do
  let types ← names.renderAll types
  return ", ".intercalate types

/-- The suffix that the names of attribute classes end in. -/
def attributeSuffix : List Char := "Attribute".toList

/-- The name of an attribute class without its suffix. The suffix stays when nothing would be left
of the simple name. -/
def withoutSuffix (fullName : List Char) : List Char :=
  if attributeSuffix.isSuffixOf fullName then
    let stem := fullName.take (fullName.length - attributeSuffix.length)
    if stem.isEmpty || stem.getLast? == some '.' then fullName else stem
  else fullName

/-- The spelling of the type of an attribute. -/
def attributeName (names : Names) (ty : Ty) : Except Fault String :=
  match ty.typeId?.bind names.table.get? with
  | some info => .ok (String.ofList (withoutSuffix info.fullName.toList))
  | none => names.render ty

end Names

end ScriptSharp.Emit
