import ScriptSharp.Decimal.Binary64

/-!
# Scaling doubles by powers of ten

A decimal is read into a double in two rounded steps: its significand becomes a double, and that
double is multiplied or divided by a power of ten, which is itself rounded. The result can differ
from the nearest double in the last place.
-/

namespace ScriptSharp.Decimal

/-- The greatest power of ten that is a double. -/
def greatestPower : Nat := 308

/-- The double nearest to a power of ten. -/
def powerOfTen (power : Nat) : Binary64 :=
  .ofNat (Nat.pow 10 power)

/-- Divides by a power of ten, the greatest power at a time. Zero is not divided further. The fuel
bounds the number of divisions. -/
def scaleDown : Nat → Binary64 → Nat → Binary64
  | 0, number, _ => number
  | fuel + 1, number, power =>
    if power ≤ greatestPower then number.div (powerOfTen power)
    else if number = .zero then number
    else scaleDown fuel (number.div (powerOfTen greatestPower)) (power - greatestPower)

/-- Multiplies by a power of ten, unless the product is too large for a double. -/
def scaleUp? (number : Binary64) (power : Nat) : Option Binary64 :=
  if power ≤ greatestPower then
    let product := number.mul (powerOfTen power)
    if product.isFinite then some product else none
  else if number = .zero then some number
  else none

/-- The double that `significand * 10 ^ exponent` is read as, unless it is too large. -/
def read? (significand : Nat) (exponent : Int) : Option Binary64 :=
  let number := Binary64.ofNat significand
  match exponent with
  | .ofNat power => scaleUp? number power
  | .negSucc power => some (scaleDown (power / greatestPower + 1) number (power + 1))

end ScriptSharp.Decimal
