import ScriptSharp.Types.Table

/-!
# Types in messages

The spelling of types in the text of faults, always with full names.
-/

namespace ScriptSharp.TypeTable

/-- The full name behind a handle. -/
def displayName (table : TypeTable) (id : TypeId) : String :=
  match table.get? id with
  | some info => info.fullName
  | none => s!"<type {id}>"

mutual
/-- The spelling of a type in a message. -/
def display (table : TypeTable) : Ty → String
  | .void => "void"
  | .null => "null"
  | .primitive basic => basic.keyword
  | .named id => table.displayName id
  | .array element => table.display element ++ "[]"
  | .generic id arguments =>
    table.displayName id ++ "<" ++ ", ".intercalate (table.displayAll arguments) ++ ">"
  | .delegate params ret =>
    if ret.isVoid then "Action<" ++ ", ".intercalate (table.displayAll params) ++ ">"
    else "Func<" ++ ", ".intercalate (table.displayAll params ++ [table.display ret]) ++ ">"

/-- The spellings of several types. -/
def displayAll (table : TypeTable) : List Ty → List String
  | [] => []
  | ty :: types => table.display ty :: table.displayAll types
end

end ScriptSharp.TypeTable
