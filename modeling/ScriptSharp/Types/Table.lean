import ScriptSharp.Types.Signature

/-!
# The type table

The nominal types of a program, in the order of their declaration. A handle is the place of an
entry and never changes. A full name finds the last entry that carries it; a simple name finds
the entry that was first declared under it.
-/

namespace ScriptSharp

/-- What a nominal type is. -/
inductive TypeKind where
  | classType
  | structType
  | interfaceType
  | enumType
  deriving DecidableEq, Repr

namespace TypeKind

/-- The keyword of a declaration. -/
def keyword : TypeKind → String
  | .classType => "class"
  | .structType => "struct"
  | .interfaceType => "interface"
  | .enumType => "enum"

end TypeKind

/-- The declaration of a nominal type, as the table holds it. -/
structure TypeInfo where
  name : String
  space : Option String
  kind : TypeKind
  base : Option Ty
  interfaces : List Ty
  constructors : List Signature
  deriving DecidableEq

namespace TypeInfo

/-- The name with the namespace in front. -/
def fullName (info : TypeInfo) : String :=
  match info.space with
  | some space => space ++ "." ++ info.name
  | none => info.name

/-- The handles of the base type and of the interfaces. -/
def supertypes (info : TypeInfo) : List TypeId :=
  info.base.toList.filterMap Ty.typeId? ++ info.interfaces.filterMap Ty.typeId?

/-- A class of the runtime library. -/
def library (space name : String) (base : Option TypeId) : TypeInfo :=
  ⟨name, some space, .classType, base.map Ty.named, [], []⟩

end TypeInfo

/-- An entry of the table. -/
structure TypeEntry where
  info : TypeInfo
  /-- The simple name under which the entry was first declared. A later declaration with the same
  full name replaces `info` and leaves this name. -/
  simpleName : String
  deriving DecidableEq

/-- The handles of the types that the lowering refers to. -/
structure WellKnownTypes where
  systemType : TypeId
  systemEnum : TypeId
  hashtable : TypeId
  unityObject : TypeId
  component : TypeId
  gameObject : TypeId
  monoBehaviour : TypeId
  serializable : TypeId
  deriving DecidableEq, Repr

namespace TypeEntries

/-- The handle of the last entry with a full name. -/
def findFull? (entries : List TypeEntry) (name : String) : Option TypeId :=
  (entries.zipIdx.reverse.find? (·.1.info.fullName == name)).map (·.2)

/-- The handle of the first entry with a simple name. -/
def findSimple? (entries : List TypeEntry) (name : String) : Option TypeId :=
  entries.findIdx? (·.simpleName == name)

/-- Adds an entry at the end. -/
def push (entries : List TypeEntry) (info : TypeInfo) : List TypeEntry :=
  entries ++ [⟨info, info.name⟩]

/-- The handle of the entry with the full name of `info`, which is added if there is none. -/
def ensure (info : TypeInfo) (entries : List TypeEntry) : TypeId × List TypeEntry :=
  match findFull? entries info.fullName with
  | some id => (id, entries)
  | none => (entries.length, push entries info)

/-- Replaces the entry with the full name of `info`, or adds one. -/
def declare (info : TypeInfo) (entries : List TypeEntry) : TypeId × List TypeEntry :=
  match findFull? entries info.fullName with
  | some id => (id, entries.modify id fun entry => { entry with info })
  | none => (entries.length, push entries info)

/-- Adds the runtime types that are missing. -/
def ensureWellKnown : StateM (List TypeEntry) WellKnownTypes := do
  let unityObject ← ensure (.library "UnityEngine" "Object" none)
  let component ← ensure (.library "UnityEngine" "Component" unityObject)
  let behaviour ← ensure (.library "UnityEngine" "Behaviour" component)
  let systemType ← ensure (.library "System" "Type" none)
  let systemEnum ← ensure (.library "System" "Enum" none)
  let hashtable ← ensure
    { TypeInfo.library "System.Collections" "Hashtable" none with constructors := [⟨[], .void⟩] }
  let gameObject ← ensure (.library "UnityEngine" "GameObject" unityObject)
  let monoBehaviour ← ensure (.library "UnityEngine" "MonoBehaviour" behaviour)
  let serializable ← ensure (.library "System" "SerializableAttribute" none)
  return { systemType, systemEnum, hashtable, unityObject, component, gameObject, monoBehaviour,
           serializable }

end TypeEntries

/-- The nominal types of a program. -/
structure TypeTable where
  entries : List TypeEntry
  wellKnown : WellKnownTypes

namespace TypeTable

/-- The table of the types given, at their places, with the missing runtime types behind them. -/
def ofTypes (types : List TypeInfo) : TypeTable :=
  let (wellKnown, entries) :=
    TypeEntries.ensureWellKnown.run (types.foldl TypeEntries.push [])
  ⟨entries, wellKnown⟩

/-- The types of a table, in order. -/
def toTypes (table : TypeTable) : List TypeInfo :=
  table.entries.map (·.info)

/-- The number of entries. -/
def size (table : TypeTable) : Nat :=
  table.entries.length

/-- The declaration behind a handle. -/
def get? (table : TypeTable) (id : TypeId) : Option TypeInfo :=
  table.entries[id]?.map (·.info)

/-- Declares a type, replacing the one with the same full name. -/
def declare (table : TypeTable) (info : TypeInfo) : TypeId × TypeTable :=
  let (id, entries) := TypeEntries.declare info table.entries
  (id, { table with entries })

/-- Finds a type by its full name, and if there is none, by its simple name. -/
def lookup? (table : TypeTable) (name : String) : Option TypeId :=
  (TypeEntries.findFull? table.entries name).or (TypeEntries.findSimple? table.entries name)

/-- What kind of type a nominal type is. -/
def kindOf? (table : TypeTable) (ty : Ty) : Option TypeKind :=
  (ty.typeId?.bind table.get?).map (·.kind)

/-- The type is declared as an enum. -/
def isEnum (table : TypeTable) (ty : Ty) : Bool :=
  table.kindOf? ty == some .enumType

/-- Values of the type are copied: primitives other than strings and objects, structs, enums. -/
def isValueType (table : TypeTable) (ty : Ty) : Bool :=
  match ty with
  | .primitive basic => !basic.isReference
  | .named _ | .generic .. =>
    table.kindOf? ty == some .structType || table.kindOf? ty == some .enumType
  | .void | .null | .array _ | .delegate .. => false

/-- Values of the type are held by reference, so that `null` is one of them. -/
def isReferenceType (table : TypeTable) (ty : Ty) : Bool :=
  match ty with
  | .void => false
  | .null | .array _ | .delegate .. => true
  | .primitive basic => basic.isReference
  | .named _ | .generic .. =>
    table.kindOf? ty == some .classType || table.kindOf? ty == some .interfaceType

end TypeTable

end ScriptSharp
