import ScriptSharp.Types.Basic

/-!
# Signatures

The parameters and the result of a method or a constructor. A last parameter marked `params`
stands for any number of arguments of its element type.
-/

namespace ScriptSharp

/-- How a parameter takes its argument. -/
inductive ParamModifier where
  | none
  | out
  | ref
  | params
  deriving DecidableEq, Repr

namespace ParamModifier

/-- The keyword in front of a parameter. -/
def keyword? : ParamModifier → Option String
  | .none => Option.none
  | .out => some "out"
  | .ref => some "ref"
  | .params => some "params"

/-- The argument names a variable that the callee can write. -/
def isByReference : ParamModifier → Bool
  | .out | .ref => true
  | .none | .params => false

/-- The keyword in front of an argument: only a variable passed by reference has one. -/
def argumentKeyword? : ParamModifier → Option String
  | .out => some "out"
  | .ref => some "ref"
  | .none | .params => Option.none

end ParamModifier

/-- A parameter of a signature. -/
structure Param where
  name : String
  ty : Ty
  modifier : ParamModifier
  deriving DecidableEq

/-- A bound overload of a method or a constructor. -/
structure Signature where
  params : List Param
  ret : Ty
  deriving DecidableEq

namespace Signature

/-- The type required of the argument at `index`. Past the end this is the element type of a last
parameter marked `params`. -/
def paramTypeAt (signature : Signature) (index : Nat) : Option Ty :=
  match signature.params[index]? with
  | some param => some param.ty
  | none =>
    match signature.params.getLast? with
    | some param => if param.modifier = .params then param.ty.element? else none
    | none => none

/-- How the parameter at `index` takes its argument; by value when there is no such parameter. -/
def modifierAt (signature : Signature) (index : Nat) : ParamModifier :=
  match signature.params[index]? with
  | some param => param.modifier
  | none => .none

/-- The place of the first parameter marked `params`. -/
def paramsIndex (signature : Signature) : Option Nat :=
  signature.params.findIdx? (·.modifier = .params)

end Signature

end ScriptSharp
