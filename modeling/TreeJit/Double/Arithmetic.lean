import TreeJit.Double.Basic

/-! # Arithmetic on doubles

Each operation takes the exact result and rounds it once.  NaNs follow one rule
for all of them (`propagate`): a NaN on the left wins, made quiet; otherwise a
NaN on the right, made quiet; otherwise an invalid operation gives `invalid`,
the negative quiet NaN without payload.  Signs and payloads are kept.
-/

namespace TreeJit

namespace Double

/-! ## NaNs -/

/-- A NaN with its quiet bit set; sign and payload are kept. -/
def quiet (x : Double) : Double :=
  if x.pattern % fractions < quietBit then ofPattern x.negative (x.pattern + quietBit) else x

/-- The result of an operation that has none. -/
def invalid : Double := quietNaN true

/-- Lets a NaN operand through, the left one first; `result` is for operands that are numbers. -/
def propagate (a b result : Double) : Double :=
  if a.isNaN then a.quiet else if b.isNaN then b.quiet else result

/-! ## Sums -/

/-- The number with the opposite sign bit. -/
def flip (x : Double) : Double := ofPattern (!x.negative) x.pattern

/-- The double nearest to a signed count of units; `zeroSign` is the sign of an exact zero. -/
def roundSigned (zeroSign : Bool) (value : Int) : Double :=
  if value = 0 then ofPattern zeroSign 0 else round (decide (value < 0)) value.natAbs 1

/-- The sum of two operands that are not NaNs.  An exact zero is negative only if both are. -/
def sum (a b : Double) : Double :=
  if a.isInfinite then
    if b.isInfinite && a.negative != b.negative then invalid else a
  else if b.isInfinite then b
  else roundSigned (a.negative && b.negative) (a.signedUnits + b.signedUnits)

def add (a b : Double) : Double := propagate a b (sum a b)

def sub (a b : Double) : Double := propagate a b (sum a b.flip)

/-! ## Products and quotients -/

/-- The product of two operands that are not NaNs. -/
def product (a b : Double) : Double :=
  let negative := a.negative != b.negative
  if a.isInfinite || b.isInfinite then
    if a.isZero || b.isZero then invalid else infinity negative
  else round negative (a.units * b.units) unitsPerOne

def mul (a b : Double) : Double := propagate a b (product a b)

/-- The quotient of two operands that are not NaNs. -/
def quotient (a b : Double) : Double :=
  let negative := a.negative != b.negative
  if a.isInfinite then
    if b.isInfinite then invalid else infinity negative
  else if b.isInfinite then ofPattern negative 0
  else if b.isZero then
    if a.isZero then invalid else infinity negative
  else round negative (a.units * unitsPerOne) b.units

def div (a b : Double) : Double := propagate a b (quotient a b)

/-! ## Remainder -/

/-- The remainder of two operands that are not NaNs: what truncating division
leaves over, with the sign of the dividend. -/
def remainder (a b : Double) : Double :=
  if a.isInfinite || b.isZero then invalid
  else if b.isInfinite then a
  else round a.negative (a.units % b.units) 1

def rem (a b : Double) : Double := propagate a b (remainder a b)

/-! ## Comparison -/

/-- Numeric equality: both zeros are equal, and a NaN equals nothing. -/
def numericEq (a b : Double) : Bool :=
  !a.isNaN && !b.isNaN && (decide (a = b) || a.isZero && b.isZero)

/-- Whether `a` and `b` compare equal or do not compare at all because one is a NaN. -/
def equalOrUnordered (a b : Double) : Bool := a.isNaN || b.isNaN || numericEq a b

end Double

end TreeJit
