import ScriptSharp.Types.Table

/-!
# Known calls

Methods that are declared with a general result, although each call gives a value of the type that
one of its arguments names. The list of them is a setting of the conversion.
-/

namespace ScriptSharp

/-- A method whose result is narrowed by an argument. -/
structure KnownApi where
  /-- The full or the simple name of the declaring type. -/
  declaringType : String
  method : String
  /-- The place of the argument that names the type. -/
  typeArgument : Nat
  deriving DecidableEq, Repr

namespace KnownApi

/-- The entry stands for the method of a declared type. -/
def covers (declaring : TypeInfo) (method : String) (api : KnownApi) : Bool :=
  api.method == method &&
    (api.declaringType == declaring.fullName || api.declaringType == declaring.name)

/-- Adds an entry, once. -/
def register (apis : List KnownApi) (api : KnownApi) : List KnownApi :=
  if api ∈ apis then apis else apis ++ [api]

/-- The first entry for the method of a type. -/
def lookup? (apis : List KnownApi) (table : TypeTable) (declaring : TypeId) (method : String) :
    Option KnownApi :=
  (table.get? declaring).bind fun info => apis.find? (covers info method)

/-- The component look-ups of the runtime library. -/
def defaults : List KnownApi :=
  let onObjects := ["UnityEngine.Component", "UnityEngine.GameObject"].flatMap fun declaring =>
    ["GetComponent", "GetComponentInChildren", "GetComponentInParent", "AddComponent"].map
      (KnownApi.mk declaring · 0)
  onObjects ++ [⟨"UnityEngine.Object", "FindObjectOfType", 0⟩]

end KnownApi

end ScriptSharp
