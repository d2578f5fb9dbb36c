/-!
# Double precision numbers by their bits

A double is known by its 64 bits, so equality is decidable and the two zeros differ. The module
splits the bits of a finite double into a sign and a magnitude `significand * 2 ^ exponent`, rounds
quotients of natural numbers to doubles, and multiplies and divides magnitudes. All of it is
arithmetic on natural numbers.
-/

namespace ScriptSharp

/-- A double precision number, as its bits. -/
structure Binary64 where
  bits : UInt64
  deriving DecidableEq, Repr

namespace Binary64

/-- The number zero with a positive sign. -/
def zero : Binary64 := ⟨0⟩

/-- The positive infinity. -/
def infinity : Binary64 := ⟨0x7FF0000000000000⟩

/-- The sign bit. It is set for negative numbers and for the negative zero. -/
def isNegative (number : Binary64) : Bool :=
  number.bits >>> 63 == 1

/-- A magnitude with a sign. -/
def withSign (negative : Bool) (magnitude : Binary64) : Binary64 :=
  if negative then ⟨magnitude.bits ||| 0x8000000000000000⟩ else magnitude

/-- The eleven bits of the exponent. -/
def exponentField (number : Binary64) : Nat :=
  (number.bits >>> 52).toNat % 2048

/-- The fifty-two bits of the fraction. -/
def fractionField (number : Binary64) : Nat :=
  (number.bits &&& 0xFFFFFFFFFFFFF).toNat

/-- The bit in front of the fraction, which is not stored. -/
def hiddenBit : Nat := 0x10000000000000

/-- The integer factor of the magnitude. -/
def significand (number : Binary64) : Nat :=
  if number.exponentField = 0 then number.fractionField
  else number.fractionField + hiddenBit

/-- The power of two that the significand is multiplied by. -/
def exponent (number : Binary64) : Int :=
  if number.exponentField = 0 then -1074 else (number.exponentField : Int) - 1075

/-- The gap below a power of two is half as wide as the gap above it. -/
def isAtBoundary (number : Binary64) : Bool :=
  number.fractionField == 0 && decide (1 < number.exponentField)

/-- Neither infinite nor undefined. -/
def isFinite (number : Binary64) : Bool :=
  number.exponentField != 2047

/-- Not a number. -/
def isUndefined (number : Binary64) : Bool :=
  !number.isFinite && number.fractionField != 0

/-- A sign is written in front of the number. What is undefined has none, whatever its sign bit
is. -/
def isSigned (number : Binary64) : Bool :=
  number.isNegative && !number.isUndefined

/-! ## Rounding -/

/-- The quotient `top / bottom` in units of a power of two, again as a quotient. -/
def inUnits (top bottom : Nat) : Int → Nat × Nat
  | .ofNat power => (top, bottom <<< power)
  | .negSucc power => (top <<< (power + 1), bottom)

/-- The natural number nearest to a quotient. A half goes to the even neighbour. -/
def roundHalfEven (top bottom : Nat) : Nat :=
  let below := top / bottom
  let twice := 2 * (top % bottom)
  if twice < bottom ∨ (twice = bottom ∧ below % 2 = 0) then below else below + 1

/-- The power of two of the last place that a double near a quotient has. In these units the
quotient takes up fifty-three bits, unless that would be finer than the finest double. -/
def lastPlace (top bottom : Nat) : Int :=
  let guess := (top.log2 : Int) - bottom.log2 - 52
  let (units, unit) := inUnits top bottom guess
  let place := if units < unit * hiddenBit then guess - 1 else guess
  if place < -1074 then -1074 else place

/-- The double nearest to a quotient, of two equally near ones the one with the even significand.
A quotient beyond the largest double is infinite. A significand that rounding carries over to the
next power of two carries over into the exponent field. -/
def ofRatio (top bottom : Nat) : Binary64 :=
  if top = 0 then zero
  else
    let place := lastPlace top bottom
    let (units, unit) := inUnits top bottom place
    let bits := (place + 1074).toNat * hiddenBit + roundHalfEven units unit
    if bits < infinity.bits.toNat then ⟨bits.toUInt64⟩ else infinity

/-- The double nearest to a natural number. -/
def ofNat (value : Nat) : Binary64 :=
  ofRatio value 1

/-- The magnitude as a quotient. -/
def ratio (number : Binary64) : Nat × Nat :=
  match number.exponent with
  | .ofNat power => (number.significand <<< power, 1)
  | .negSucc power => (number.significand, 1 <<< (power + 1))

/-- The rounded product of two magnitudes. -/
def mul (first second : Binary64) : Binary64 :=
  ofRatio (first.ratio.1 * second.ratio.1) (first.ratio.2 * second.ratio.2)

/-- The rounded quotient of two magnitudes. -/
def div (first second : Binary64) : Binary64 :=
  ofRatio (first.ratio.1 * second.ratio.2) (first.ratio.2 * second.ratio.1)

end Binary64

end ScriptSharp
