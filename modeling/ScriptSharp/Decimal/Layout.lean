import ScriptSharp.Decimal.Shortest

/-!
# Writing a double as text

The digits come from `Decimal.shortest`; a layout says when they are written out with a point and
when with an exponent.
-/

namespace ScriptSharp.Decimal

/-- The place of the decimal point, counted from the front of the digits, up to which a number is
written without an exponent. -/
structure Layout where
  leastPoint : Int
  greatestPoint : Int
  deriving DecidableEq, Repr

/-- Numbers from `1e-4` up to, but not including, `1e16` are written out. -/
def Layout.standard : Layout := ⟨-3, 16⟩

/-- Digits with a point behind the first `point` of them, padded with zeros on either side. -/
def plainText (digits : List Char) (point : Int) : List Char :=
  if point ≤ 0 then
    '0' :: '.' :: (List.replicate point.natAbs '0' ++ digits)
  else if digits.length ≤ point.natAbs then
    digits ++ List.replicate (point.natAbs - digits.length) '0' ++ ['.', '0']
  else
    digits.take point.natAbs ++ '.' :: digits.drop point.natAbs

/-- Digits with a point behind the first one and the exponent that this takes. -/
def exponentText (digits : List Char) (point : Int) : List Char :=
  let mantissa := match digits with
    | [] => ['0']
    | [digit] => [digit]
    | digit :: rest => digit :: '.' :: rest
  mantissa ++ 'e' :: (toString (point - 1)).toList

/-- The magnitude of a finite double as text. -/
def Layout.magnitude (layout : Layout) (number : Scaled) : List Char :=
  let digits := Nat.toDigits 10 number.digits
  if number.digits = 0 then ['0', '.', '0']
  else
    let point := number.exponent + digits.length
    if layout.leastPoint ≤ point ∧ point ≤ layout.greatestPoint then plainText digits point
    else exponentText digits point

/-- A double without its sign as text. -/
def Layout.unsigned (layout : Layout) (number : Binary64) : String :=
  if number.isFinite then String.ofList (layout.magnitude (shortest number))
  else if number.isUndefined then "NaN"
  else "inf"

/-- A double as text. The negative zero keeps its sign. -/
def Layout.text (layout : Layout) (number : Binary64) : String :=
  if number.isSigned then "-" ++ layout.unsigned number else layout.unsigned number

end ScriptSharp.Decimal
