import ScriptSharp.Tree.Expr

/-!
# Operator precedence

The levels of the emitted language's expression grammar, from the loosest to the tightest, and the
level on which an expression stands once it is written.
-/

namespace ScriptSharp

/-- A level of the expression grammar. -/
inductive Precedence where
  | assignment
  | conditional
  | or
  | and
  | bitOr
  | bitXor
  | bitAnd
  | equality
  | relational
  | shift
  | additive
  | multiplicative
  | unary
  | primary
  deriving DecidableEq, Repr

namespace Precedence

/-- The place of a level; tighter levels have larger numbers. -/
def rank : Precedence → Nat
  | .assignment => 0
  | .conditional => 1
  | .or => 2
  | .and => 3
  | .bitOr => 4
  | .bitXor => 5
  | .bitAnd => 6
  | .equality => 7
  | .relational => 8
  | .shift => 9
  | .additive => 10
  | .multiplicative => 11
  | .unary => 12
  | .primary => 13

/-- The level binds less tightly than the other. -/
def isLooserThan (level other : Precedence) : Bool :=
  decide (level.rank < other.rank)

/-- The next tighter level. The right operand of an operator that groups to the left stands on
it. -/
def tighter : Precedence → Precedence
  | .assignment => .conditional
  | .conditional => .or
  | .or => .and
  | .and => .bitOr
  | .bitOr => .bitXor
  | .bitXor => .bitAnd
  | .bitAnd => .equality
  | .equality => .relational
  | .relational => .shift
  | .shift => .additive
  | .additive => .multiplicative
  | .multiplicative => .unary
  | .unary => .primary
  | .primary => .primary

/-- The level of a binary operator. -/
def ofBinary : BinaryOp → Precedence
  | .mul | .div | .mod => .multiplicative
  | .add | .sub => .additive
  | .shl | .shr => .shift
  | .lt | .le | .gt | .ge => .relational
  | .eq | .ne => .equality
  | .bitAnd => .bitAnd
  | .bitXor => .bitXor
  | .bitOr => .bitOr
  | .and => .and
  | .or => .or

/-- The level of an expression once it is written. Parentheses of the source are not written, and a
negative literal stands on the level of its sign. -/
def ofExpr : Expr → Precedence
  | .paren _ inner => ofExpr inner
  | .literal _ value => if value.isNegative then .unary else .primary
  | .unary _ op _ => if op.isTrailing then .primary else .unary
  | .cast .. => .unary
  | .binary _ op _ _ => ofBinary op
  | .tryCast .. => .relational
  | .ternary .. => .conditional
  | .assign .. => .assignment
  | .lambda .. => .assignment
  | .ident .. | .selfRef .. | .superRef .. | .typeRef .. | .member .. | .invoke .. | .index ..
  | .typeOf .. | .defaultOf .. | .construct .. | .newArray .. | .array .. | .map .. => .primary

end Precedence

end ScriptSharp
