/-!
# Static types

The resolved types of the source language. A nominal type is a handle into the type table of the
program; everything that a handle alone does not tell is asked of the table.
-/

namespace ScriptSharp

/-- A handle into the type table: the place of the entry. -/
abbrev TypeId := Nat

/-- The types that have a keyword. -/
inductive Primitive where
  | bool
  | char
  | byte
  | int
  | long
  | float
  | double
  | string
  | object
  deriving DecidableEq, Repr

namespace Primitive

/-- The keyword of a primitive type. -/
def keyword : Primitive → String
  | .bool => "bool"
  | .char => "char"
  | .byte => "byte"
  | .int => "int"
  | .long => "long"
  | .float => "float"
  | .double => "double"
  | .string => "string"
  | .object => "object"

/-- The place of a numeric type in the order of widening. -/
def numericRank : Primitive → Option Nat
  | .byte | .char => some 1
  | .int => some 2
  | .long => some 3
  | .float => some 4
  | .double => some 5
  | .bool | .string | .object => none

/-- The types of whole numbers, characters included. -/
def isIntegral : Primitive → Bool
  | .byte | .char | .int | .long => true
  | _ => false

/-- Strings and objects are held by reference. -/
def isReference : Primitive → Bool
  | .string | .object => true
  | _ => false

end Primitive

/-- A resolved static type. -/
inductive Ty where
  | void
  /-- The type of the `null` literal. -/
  | null
  | primitive (basic : Primitive)
  | named (id : TypeId)
  | array (element : Ty)
  | generic (id : TypeId) (arguments : List Ty)
  | delegate (params : List Ty) (ret : Ty)
  deriving Inhabited

namespace Ty

/-! ## Equality -/

mutual
/-- Decides whether two types are the same. -/
def same : Ty → Ty → Bool
  | .void, .void => true
  | .null, .null => true
  | .primitive left, .primitive right => left == right
  | .named left, .named right => left == right
  | .array left, .array right => left.same right
  | .generic leftId left, .generic rightId right => leftId == rightId && sameList left right
  | .delegate leftParams left, .delegate rightParams right =>
    sameList leftParams rightParams && left.same right
  | _, _ => false

/-- Decides whether two lists of types are the same. -/
def sameList : List Ty → List Ty → Bool
  | [], [] => true
  | left :: lefts, right :: rights => left.same right && sameList lefts rights
  | _, _ => false
end

mutual
/-- A type is the same as itself. -/
theorem same_refl (ty : Ty) : ty.same ty = true := by
  cases ty with
  | void | null => rfl
  | primitive | named => simp [same]
  | array element => simp [same, same_refl element]
  | generic id arguments => simp [same, sameList_refl arguments]
  | delegate params ret => simp [same, sameList_refl params, same_refl ret]

/-- A list of types is the same as itself. -/
theorem sameList_refl (types : List Ty) : sameList types types = true := by
  cases types with
  | nil => rfl
  | cons ty types => simp [sameList, same_refl ty, sameList_refl types]
end

mutual
/-- Types that are the same are equal. -/
theorem eq_of_same {left right : Ty} (equal : left.same right = true) : left = right := by
  cases left <;> cases right <;> simp only [same, Bool.and_eq_true, beq_iff_eq,
    Bool.false_eq_true] at equal <;> try rfl
  case primitive.primitive => rw [equal]
  case named.named => rw [equal]
  case array.array => rw [eq_of_same equal]
  case generic.generic => rw [equal.1, eq_of_sameList equal.2]
  case delegate.delegate => rw [eq_of_sameList equal.1, eq_of_same equal.2]

/-- Lists of types that are the same are equal. -/
theorem eq_of_sameList {left right : List Ty} (equal : sameList left right = true) :
    left = right := by
  cases left <;> cases right <;>
    simp only [sameList, Bool.and_eq_true, Bool.false_eq_true] at equal
  case nil.nil => rfl
  case cons.cons => rw [eq_of_same equal.1, eq_of_sameList equal.2]
end

instance : DecidableEq Ty := fun left right =>
  decidable_of_iff (left.same right = true)
    ⟨eq_of_same, fun equal => equal ▸ same_refl left⟩

/-! ## The primitive types -/

/-- The type `bool`. -/
def bool : Ty := .primitive .bool

/-- The type `int`. -/
def int : Ty := .primitive .int

/-- The type `float`. -/
def float : Ty := .primitive .float

/-- The type `double`. -/
def double : Ty := .primitive .double

/-- The type `string`. -/
def string : Ty := .primitive .string

/-- The type `object`, which everything converts to. -/
def object : Ty := .primitive .object

/-! ## Views -/

/-- The type of a call that gives nothing. -/
def isVoid : Ty → Bool
  | .void => true
  | _ => false

/-- The type of the `null` literal. -/
def isNull : Ty → Bool
  | .null => true
  | _ => false

/-- The type `object`. -/
def isObject : Ty → Bool
  | .primitive .object => true
  | _ => false

/-- A function type. -/
def isDelegate : Ty → Bool
  | .delegate .. => true
  | _ => false

/-- The primitive type, if it is one. -/
def primitive? : Ty → Option Primitive
  | .primitive basic => some basic
  | _ => none

/-- The place of a numeric type in the order of widening. -/
def numericRank (ty : Ty) : Option Nat :=
  ty.primitive?.bind Primitive.numericRank

/-- The types that take part in arithmetic widening. -/
def isNumeric (ty : Ty) : Bool :=
  ty.numericRank.isSome

/-- The types of whole numbers. -/
def isIntegral (ty : Ty) : Bool :=
  ty.primitive?.any Primitive.isIntegral

/-- The handle of a nominal type, without its type arguments. -/
def typeId? : Ty → Option TypeId
  | .named id => some id
  | .generic id _ => some id
  | _ => none

/-- The element type of an array. -/
def element? : Ty → Option Ty
  | .array element => some element
  | _ => none

/-- Parameter types and result type of a function type. -/
def delegate? : Ty → Option (List Ty × Ty)
  | .delegate params ret => some (params, ret)
  | _ => none

mutual
/-- A function type occurs in the type: as itself, as an element or as a type argument. -/
def mentionsDelegate : Ty → Bool
  | .delegate .. => true
  | .array element => element.mentionsDelegate
  | .generic _ arguments => anyMentionsDelegate arguments
  | _ => false

/-- A function type occurs in one of the types. -/
def anyMentionsDelegate : List Ty → Bool
  | [] => false
  | ty :: types => ty.mentionsDelegate || anyMentionsDelegate types
end

end Ty

end ScriptSharp
