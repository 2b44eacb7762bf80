import TreeJit.Rounding

/-! # Double-precision numbers as bit patterns

A `Double` is its 64 bits.  All arithmetic is exact arithmetic on natural
numbers followed by one rounding, so nothing here depends on a machine's
floating-point unit:

* `Double.pattern` — the 63 bits below the sign.  Patterns of finite numbers,
  infinity and NaNs follow each other in this order.
* `Double.unitsOf` — the magnitude of a finite pattern as a whole number of
  `2^-1074`, the smallest positive double.
* `Double.roundPattern` — the pattern nearest to a quotient of such units, ties
  to even, with overflow to infinity.
-/

namespace TreeJit

/-- A binary64 number, given by its bits: sign, eleven exponent bits, 52 fraction bits. -/
structure Double where
  bits : UInt64
  deriving DecidableEq

namespace Double

/-! ## Patterns -/

/-- The highest of the 64 bits, which is the sign. -/
def signBit : Nat := 0x8000000000000000

/-- How many patterns share an exponent: as many as there are fractions of 52 bits. -/
def fractions : Nat := 0x10000000000000

/-- The bit of the fraction that tells a quiet NaN from a signalling one. -/
def quietBit : Nat := 0x8000000000000

/-- The pattern of positive infinity; larger patterns are NaNs. -/
def infinityPattern : Nat := 0x7FF * fractions

/-- How many of the units that magnitudes are counted in make the number one: `2^1074`. -/
def unitsPerOne : Nat := 1 <<< 1074

/-- The number with the given sign and the given 63 bits below it. -/
def ofPattern (negative : Bool) (pattern : Nat) : Double :=
  ⟨UInt64.ofNat ((if negative then signBit else 0) + pattern)⟩

/-- The sign bit. -/
def negative (x : Double) : Bool := decide (signBit ≤ x.bits.toNat)

/-- The 63 bits below the sign. -/
def pattern (x : Double) : Nat := x.bits.toNat % signBit

/-- The two parts of a number rebuild it. -/
@[simp] theorem ofPattern_negative_pattern (x : Double) : ofPattern x.negative x.pattern = x := by
  have hlt := x.bits.toNat_lt
  have hsum : (if x.negative then signBit else 0) + x.pattern = x.bits.toNat := by
    unfold negative pattern
    by_cases h : signBit ≤ x.bits.toNat
    · rw [decide_eq_true h, if_pos rfl]
      unfold signBit at *
      omega
    · rw [decide_eq_false h, if_neg Bool.false_ne_true]
      unfold signBit at *
      omega
  unfold ofPattern
  rw [hsum, UInt64.ofNat_toNat]

/-! ## Classes -/

/-- Whether the bits stand for no number at all. -/
def isNaN (x : Double) : Bool := decide (infinityPattern < x.pattern)

/-- Whether the number is an infinity of either sign. -/
def isInfinite (x : Double) : Bool := decide (x.pattern = infinityPattern)

/-- Whether the number is neither infinite nor a NaN. -/
def isFinite (x : Double) : Bool := decide (x.pattern < infinityPattern)

/-- Whether the number is a zero of either sign. -/
def isZero (x : Double) : Bool := decide (x.pattern = 0)

/-! ## Constants -/

def zero : Double := ofPattern false 0

def negativeZero : Double := ofPattern true 0

def infinity (negative : Bool) : Double := ofPattern negative infinityPattern

/-- The NaN with an empty payload and the given sign. -/
def quietNaN (negative : Bool) : Double := ofPattern negative (infinityPattern + quietBit)

/-! ## Magnitudes -/

/-- The magnitude of a finite pattern, counted in units of `2^-1074`.  Subnormal
patterns count themselves; a normal one has a leading bit above its fraction. -/
def unitsOf (pattern : Nat) : Nat :=
  let exponent := pattern / fractions
  let fraction := pattern % fractions
  if exponent = 0 then fraction else (fractions + fraction) <<< (exponent - 1)

/-- The magnitude of a finite number, counted in units of `2^-1074`. -/
def units (x : Double) : Nat := unitsOf x.pattern

/-- The value of a finite number, counted in units of `2^-1074`. -/
def signedUnits (x : Double) : Int := if x.negative then -(x.units : Int) else x.units

/-- The pattern whose magnitude is nearest to `num / den` units.  A half goes to
the even pattern, and what lies beyond the largest finite number is infinite.

Below `2^53` units the grid has step one.  Above, the step is the power of two
that leaves 53 significant bits, and each doubling of the step moves the pattern
on by `fractions`; a carry out of the 53 bits lands on the first pattern of the next
doubling by itself. -/
def roundPattern (num den : Nat) : Nat :=
  let shift := (num / den).log2 - 52
  min (shift * fractions + roundDiv num (den <<< shift)) infinityPattern

/-- The double nearest to `num / den` units with the given sign. -/
def round (negative : Bool) (num den : Nat) : Double := ofPattern negative (roundPattern num den)

/-- A whole number as a double, rounded to nearest. -/
def ofNat (n : Nat) : Double := round false (n * unitsPerOne) 1

/-- Whether a finite number has no fractional part. -/
def isIntegral (x : Double) : Bool := x.isFinite && decide (x.units % unitsPerOne = 0)

end Double

end TreeJit
