import TreeJit.Decimal.General
import TreeJit.Decimal.Numeral

/-! # The shortest text that reads back

The text of a number for a human reader: the fewest significant digits that
denote the same double, always in positional notation.  Of two candidates with
that many digits the nearer one is taken, the upper one if both are equally near.
-/

namespace TreeJit

namespace Decimal

/-- `coefficient * 10^power`. -/
structure Candidate where
  coefficient : Nat
  power : Int
  deriving DecidableEq

/-- The multiples of `10^power` next to a count of units, below it and above it. -/
def neighbours (units : Nat) (power : Int) : Candidate × Candidate :=
  let below :=
    if 0 ≤ power then units / (Double.unitsPerOne * powerOfTen power.toNat)
    else units * powerOfTen (-power).toNat / Double.unitsPerOne
  (⟨below, power⟩, ⟨below + 1, power⟩)

/-- Whether the lower of two neighbouring multiples of `10^power` is nearer to the count of units
than the upper one. -/
def lowerIsNearer (units : Nat) (lower : Candidate) : Bool :=
  let twice := 2 * lower.coefficient + 1
  if 0 ≤ lower.power then
    decide (2 * units < twice * (Double.unitsPerOne * powerOfTen lower.power.toNat))
  else decide (2 * units * powerOfTen (-lower.power).toNat < twice * Double.unitsPerOne)

/-- The candidate with `count` significant digits that denotes the given finite pattern, if any. -/
def candidate? (pattern count : Nat) : Option Candidate :=
  let units := Double.unitsOf pattern
  let (lower, upper) := neighbours units (leadingExponent units - (count - 1 : Nat))
  let denotes := fun (c : Candidate) =>
    decide ((Double.ofDecimal false c.coefficient c.power).pattern = pattern)
  if denotes lower && (lowerIsNearer units lower || !denotes upper) then some lower
  else if denotes upper then some upper
  else none

/-- The candidate with the fewest digits; seventeen digits always suffice. -/
def shortest (pattern : Nat) : Candidate :=
  ((List.range' 1 17).findSome? (candidate? pattern)).getD ⟨0, 0⟩

/-- A candidate in positional notation, without zeros at the end of a fraction. -/
def Candidate.toText (c : Candidate) : List Char :=
  if 0 ≤ c.power then digits (c.coefficient * powerOfTen c.power.toNat)
  else trimFraction (positional c.coefficient (-c.power).toNat)

end Decimal

/-- The text of a number in a report: the shortest that reads back. -/
def Double.toShortest (x : Double) : List Char :=
  let sign := fun (cs : List Char) => if x.negative then '-' :: cs else cs
  if x.isNaN then ['N', 'a', 'N']
  else if x.isInfinite then sign ['i', 'n', 'f']
  else if x.isZero then sign ['0']
  else sign (Decimal.shortest x.pattern).toText

end TreeJit
