import ScriptSharp.Decimal.Binary64

/-!
# The shortest decimal of a double

Every double has an interval of reals that round to it. Its shortest decimal is the point of
that interval that lies on the coarsest decimal grid; of two such points the nearer one, and the
larger one when both are equally near. All comparisons are between natural numbers.
-/

namespace ScriptSharp.Decimal

/-- The decimal number `digits * 10 ^ exponent`. -/
structure Scaled where
  digits : Nat
  exponent : Int
  deriving DecidableEq, Repr

/-- A power with an integer exponent, as a numerator and a denominator. -/
def fraction (base : Nat) (exponent : Int) : Nat × Nat :=
  match exponent with
  | .ofNat power => (Nat.pow base power, 1)
  | .negSucc power => (1, Nat.pow base (power + 1))

/-- The rounding interval of a double in quarters of its last binary place. -/
structure Interval where
  low : Nat
  middle : Nat
  high : Nat
  /-- The power of two of one quarter. -/
  quarter : Int
  /-- An even significand also takes the two ends. -/
  closed : Bool

/-- The interval of reals that round to the magnitude of a double. -/
def Interval.of (number : Binary64) : Interval :=
  let middle := 4 * number.significand
  { low := if number.isAtBoundary then middle - 1 else middle - 2
    middle
    high := middle + 2
    quarter := number.exponent - 2
    closed := number.significand % 2 == 0 }

/-- The point of the decimal grid with the given exponent that the interval holds. -/
def Interval.pointAt? (interval : Interval) (exponent : Int) : Option Nat :=
  let (twoTop, twoBottom) := fraction 2 interval.quarter
  let (tenTop, tenBottom) := fraction 10 exponent
  let binary := twoTop * tenBottom
  let decimal := tenTop * twoBottom
  let holds (point : Nat) : Bool :=
    if interval.closed then
      decide (interval.low * binary ≤ point * decimal) &&
        decide (point * decimal ≤ interval.high * binary)
    else
      decide (interval.low * binary < point * decimal) &&
        decide (point * decimal < interval.high * binary)
  let below := interval.middle * binary / decimal
  let above := below + 1
  if holds below && holds above then
    let down := interval.middle * binary - below * decimal
    let up := above * decimal - interval.middle * binary
    if down < up then some below else some above
  else if holds below then some below
  else if holds above then some above
  else none

/-- An exponent of ten that no decimal of the interval exceeds. -/
def Interval.topExponent (interval : Interval) : Int :=
  (interval.quarter + interval.high.log2 + 1) * 30103 / 100000 + 1

/-- Seventeen digits tell all doubles apart, and the top exponent is at most three too large. -/
def gridCount : Nat := 22

/-- The shortest decimal in the interval. -/
def Interval.shortest (interval : Interval) : Scaled :=
  let found := (List.range gridCount).findSome? fun (step : Nat) =>
    let exponent := interval.topExponent - step
    (interval.pointAt? exponent).map (Scaled.mk · exponent)
  found.getD ⟨0, 0⟩

/-- Moves trailing zeros of the digits into the exponent, at most `fuel` of them. -/
def Scaled.normalize (number : Scaled) : Nat → Scaled
  | 0 => number
  | fuel + 1 =>
    if number.digits % 10 = 0 then
      normalize ⟨number.digits / 10, number.exponent + 1⟩ fuel
    else number

/-- The fewest digits that read back as the magnitude of a double. -/
def shortest (number : Binary64) : Scaled :=
  if number.significand = 0 then ⟨0, 0⟩
  else (Interval.of number).shortest.normalize gridCount

end ScriptSharp.Decimal
