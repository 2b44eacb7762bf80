import TreeJit.Decimal.Digits
import TreeJit.Double.Basic

/-! # Six significant digits

The text of a number as a program of the language sees it.  Whole numbers below
`10^18` are written as integers.  All others are rounded to six significant
digits, ties to even: in scientific notation if the exponent is below -4 or at
least 6, and in positional notation otherwise, where the places after the point
follow from that exponent.  Zeros at the end of a fraction are dropped.
-/

namespace TreeJit

namespace Decimal

/-- `coefficient * 10^(exponent - precision + 1)` with `precision` digits in the coefficient, so
that `exponent` belongs to the first digit. -/
structure Scientific where
  coefficient : Nat
  exponent : Int
  deriving DecidableEq

/-- The exponent of the first significant digit of a positive count of units.  The factor `10^324`
lifts even the smallest unit above one, where cutting the fraction off keeps the exponent. -/
def leadingExponent (units : Nat) : Int :=
  (log10 (units * powerOfTen 324 / Double.unitsPerOne) : Int) - 324

/-- A count of units divided by `10^power` and rounded to a whole number, ties to even. -/
def scaledUnits (units : Nat) (power : Int) : Nat :=
  if 0 ≤ power then roundDiv units (Double.unitsPerOne * powerOfTen power.toNat)
  else roundDiv (units * powerOfTen (-power).toNat) Double.unitsPerOne

/-- A positive count of units rounded to `precision` significant digits.  A carry out of the first
digit gives a one, zeros and the next exponent. -/
def significant (precision units : Nat) : Scientific :=
  let exponent := leadingExponent units
  let coefficient := scaledUnits units (exponent - (precision - 1 : Nat))
  if coefficient = powerOfTen precision then ⟨powerOfTen (precision - 1), exponent + 1⟩
  else ⟨coefficient, exponent⟩

/-- An exponent part: a sign and at least two digits. -/
def exponentPart (exponent : Int) : List Char :=
  'e' :: (if exponent < 0 then '-' else '+') :: padded 2 exponent.natAbs

/-- A positive count of units with `precision` significant digits, in the shorter of the two
notations for its exponent. -/
def generalUnits (precision units : Nat) : List Char :=
  let s := significant precision units
  if s.exponent < -4 ∨ (precision : Int) ≤ s.exponent then
    trimFraction (positional s.coefficient (precision - 1)) ++ exponentPart s.exponent
  else
    let places := ((precision : Int) - 1 - s.exponent).toNat
    trimFraction (positional (scaledUnits units (-(places : Int))) places)

end Decimal

/-- The text of a number: integers in full, everything else with six significant digits. -/
def Double.toText (x : Double) : List Char :=
  let sign := fun (cs : List Char) => if x.negative then '-' :: cs else cs
  if x.isNaN then sign ['n', 'a', 'n']
  else if x.isInfinite then sign ['i', 'n', 'f']
  else if x.isIntegral ∧ x.units < Decimal.powerOfTen 18 * unitsPerOne then
    if x.isZero then ['0'] else sign (Decimal.digits (x.units / unitsPerOne))
  else sign (Decimal.generalUnits 6 x.units)

end TreeJit
