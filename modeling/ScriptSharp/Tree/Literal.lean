import ScriptSharp.Decimal.Binary64

/-!
# Literals and operators

The leaves of expressions that carry a value, and the operators that join expressions.
-/

namespace ScriptSharp

/-- A constant written in the source. -/
inductive Literal where
  | null
  | bool (value : Bool)
  | int (value : Int)
  | long (value : Int)
  | float (value : Binary64)
  | double (value : Binary64)
  | char (value : Char)
  | string (value : String)
  deriving DecidableEq, Repr

namespace Literal

/-- A number below zero, or one with a sign bit. -/
def isNegative : Literal → Bool
  | .int value | .long value => decide (value < 0)
  | .float value | .double value => value.isNegative
  | .null | .bool _ | .char _ | .string _ => false

/-- The literal begins with a sign when it is written. -/
def isSigned : Literal → Bool
  | .float value | .double value => value.isSigned
  | literal => literal.isNegative

/-- A literal that is written with a sign is negative. -/
theorem isNegative_of_isSigned {literal : Literal} (signed : literal.isSigned = true) :
    literal.isNegative = true := by
  cases literal with
  | float value | double value => exact (Bool.and_eq_true_iff.1 signed).1
  | null | bool _ | int _ | long _ | char _ | string _ => exact signed

end Literal

/-- An operator between two operands. -/
inductive BinaryOp where
  | add
  | sub
  | mul
  | div
  | mod
  | shl
  | shr
  | bitAnd
  | bitOr
  | bitXor
  | and
  | or
  | eq
  | ne
  | lt
  | le
  | gt
  | ge
  deriving DecidableEq, Repr

namespace BinaryOp

/-- The spelling of an operator. -/
def symbol : BinaryOp → String
  | .add => "+"
  | .sub => "-"
  | .mul => "*"
  | .div => "/"
  | .mod => "%"
  | .shl => "<<"
  | .shr => ">>"
  | .bitAnd => "&"
  | .bitOr => "|"
  | .bitXor => "^"
  | .and => "&&"
  | .or => "||"
  | .eq => "=="
  | .ne => "!="
  | .lt => "<"
  | .le => "<="
  | .gt => ">"
  | .ge => ">="

/-- Equality and order. -/
def isComparison : BinaryOp → Bool
  | .eq | .ne | .lt | .le | .gt | .ge => true
  | _ => false

end BinaryOp

/-- An operator on one operand. -/
inductive UnaryOp where
  | neg
  | not
  | bitNot
  | preInc
  | preDec
  | postInc
  | postDec
  deriving DecidableEq, Repr

namespace UnaryOp

/-- The spelling of an operator. -/
def symbol : UnaryOp → String
  | .neg => "-"
  | .not => "!"
  | .bitNot => "~"
  | .preInc | .postInc => "++"
  | .preDec | .postDec => "--"

/-- The operator stands behind its operand. -/
def isTrailing : UnaryOp → Bool
  | .postInc | .postDec => true
  | _ => false

/-- The operator changes its operand. -/
def isStep : UnaryOp → Bool
  | .preInc | .preDec | .postInc | .postDec => true
  | .neg | .not | .bitNot => false

end UnaryOp

end ScriptSharp
