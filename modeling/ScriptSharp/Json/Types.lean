import ScriptSharp.Json.Decoder
import ScriptSharp.Types.Table

/-!
# Decoding types

The serialized forms of types, signatures and type tables.
-/

namespace ScriptSharp.Json

open Record Decoder

/-- A primitive type, by its keyword. -/
def primitive : Decoder Primitive :=
  Variant.names
    [("bool", .bool), ("char", .char), ("byte", .byte), ("int", .int), ("long", .long),
     ("float", .float), ("double", .double), ("string", .string), ("object", .object)]

/-- A type of at most the given depth. -/
def ty : Nat → Decoder Ty
  | 0 => fail
  | depth + 1 => Variant.decoder fun
    | "Void" => some (.bare .void)
    | "Null" => some (.bare .null)
    | "Primitive" => Variant.ofDecoder Ty.primitive primitive
    | "Named" => Variant.ofDecoder Ty.named nat32
    | "Array" => Variant.ofDecoder Ty.array (ty depth)
    | "Generic" => some (.content (tupleDecoder
        ((const Ty.generic).and (required "0" nat32) |>.and (required "1" (list (ty depth))))))
    | "Delegate" => Variant.ofRecord ((const Ty.delegate)
        |>.and (required "params" (list (ty depth)))
        |>.and (required "ret" (ty depth)))
    | _ => none

/-- A parameter modifier. -/
def paramModifier : Decoder ParamModifier :=
  Variant.names [("none", .none), ("out", .out), ("ref", .ref), ("params", .params)]

/-- A parameter of a signature. -/
def param (depth : Nat) : Decoder Param :=
  decoder ((const Param.mk).and (required "name" string) |>.and (required "ty" (ty depth))
    |>.and (defaulted "modifier" .none paramModifier))

/-- A signature. -/
def signature (depth : Nat) : Decoder Signature :=
  decoder ((const Signature.mk).and (required "params" (list (param depth)))
    |>.and (required "ret" (ty depth)))

/-- The kind of a type. -/
def typeKind : Decoder TypeKind :=
  Variant.names
    [("class", .classType), ("struct", .structType), ("interface", .interfaceType),
     ("enum", .enumType)]

/-- The declaration of a type in the table. -/
def typeInfo (depth : Nat) : Decoder TypeInfo :=
  decoder ((const TypeInfo.mk).and (required "name" string)
    |>.and (option "namespace" string)
    |>.and (required "kind" typeKind)
    |>.and (option "base" (ty depth))
    |>.and (defaulted "interfaces" [] (list (ty depth)))
    |>.and (defaulted "constructors" [] (list (signature depth))))

/-- A type table, by its list of types. -/
def typeTable (depth : Nat) : Decoder TypeTable :=
  decoder ((const TypeTable.ofTypes).and (required "types" (list (typeInfo depth))))

end ScriptSharp.Json
