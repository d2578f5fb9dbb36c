import ScriptSharp.Types.Subtype

/-!
# Conversions and overloads

Which values are accepted where another type is required: without a cast, with a cast, and as the
arguments of a constructor.
-/

namespace ScriptSharp.TypeTable

/-- Numbers widen along their rank. Nothing widens to a character. -/
def widens (source target : Primitive) : Bool :=
  match source.numericRank, target.numericRank with
  | some sourceRank, some targetRank => decide (sourceRank < targetRank) && target != .char
  | _, _ => false

/-- A value of type `source` is accepted where `target` is required, without a cast. -/
def implicitlyConvertible (table : TypeTable) (source target : Ty) : Bool :=
  decide (source = target) ||
    match source, target with
    | .void, _ => false
    | _, .void => false
    | _, .primitive .object => true
    | .null, _ => table.isReferenceType target
    | .primitive source, .primitive target => widens source target
    | .named source, .named target =>
      (target == table.wellKnown.systemEnum && table.isEnum (.named source)) ||
        (!table.isEnum (.named source) && table.isSubtype source target)
    | .generic source _, .named target => table.isSubtype source target
    | .array source, .array target =>
      table.isReferenceType source && table.implicitlyConvertible source target
    | _, _ => false

/-- Numbers and enums convert into each other by a cast. -/
def isNumericOrEnum (table : TypeTable) (ty : Ty) : Bool :=
  ty.isNumeric || table.isEnum ty

/-- A cast from `source` to `target` is accepted. -/
def explicitlyConvertible (table : TypeTable) (source target : Ty) : Bool :=
  table.implicitlyConvertible source target ||
    (table.isNumericOrEnum source && table.isNumericOrEnum target) ||
    source.isObject ||
    match source.typeId?, target.typeId? with
    | some sourceId, some targetId =>
      table.isSubtype targetId sourceId || table.kindOf? target == some .interfaceType
    | _, _ => false

/-- The signature has one parameter for each argument, and each argument is accepted by its
parameter. -/
def accepts (accepted : Ty → Ty → Bool) (arguments : List Ty) (signature : Signature) : Bool :=
  signature.params.length == arguments.length &&
    (signature.params.zip arguments).all fun (param, argument) => accepted argument param.ty

/-- The constructor of a type for the given arguments: the first one that takes all of them as they
are, and if there is none, the first one that takes them with casts. -/
def findConstructor? (table : TypeTable) (id : TypeId) (arguments : List Ty) : Option Signature :=
  (table.get? id).bind fun info =>
    (info.constructors.find? (accepts table.implicitlyConvertible arguments)).or
      (info.constructors.find? (accepts table.explicitlyConvertible arguments))

end ScriptSharp.TypeTable
