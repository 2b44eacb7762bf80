import TreeJit.Decimal.Digits
import TreeJit.Double.Basic
import TreeJit.Text.Blank

/-! # Reading decimal numerals

A numeral is `[+-]?(D+(.D*)?|.D+)([eE][+-]?D+)?` with `D` an ASCII digit.
`Numeral.scan` reads the longest one that a text starts with and hands back the
rest, so that one scanner serves two readers:

* `readLeading` — the value of a text that may have blanks before its number and
  go on after it, or have no number at all;
* `readDouble?` — a text that has to be a number as a whole, where the names of
  infinity and NaN count too.

The value is the double nearest to the numeral, ties to even.  Only exponents of
five digits and more are read in part (`readExponent`).
-/

namespace TreeJit

/-! ## The nearest double -/

/-- The double nearest to `coefficient * 10^exponent`.

The two extreme branches keep powers of ten small.  A positive coefficient with
an exponent above 309 lies beyond every finite double.  Since `10^k > 2^(3k)`, a
coefficient below `2^(l+1)` with `l + 1076 ≤ 3k` leaves less than half a unit. -/
def Double.ofDecimal (negative : Bool) (coefficient : Nat) (exponent : Int) : Double :=
  if coefficient = 0 then ofPattern negative 0
  else if 309 < exponent then infinity negative
  else if 0 ≤ exponent then
    round negative (coefficient * Decimal.powerOfTen exponent.toNat * unitsPerOne) 1
  else
    let places := (-exponent).toNat
    if coefficient.log2 + 1076 ≤ 3 * places then ofPattern negative 0
    else round negative (coefficient * unitsPerOne) (Decimal.powerOfTen places)

namespace Decimal

/-! ## Scanning -/

/-- A scanned numeral: `coefficient * 10^exponent`, negated if `negative`. -/
structure Numeral where
  negative : Bool
  coefficient : Nat
  exponent : Int
  deriving DecidableEq

/-- Takes an optional sign off the front; says whether it was a minus. -/
def splitSign : List Char → Bool × List Char
  | '-' :: cs => (true, cs)
  | '+' :: cs => (false, cs)
  | cs => (false, cs)

/-- The digits that a text starts with, and the rest. -/
def splitDigits (cs : List Char) : List Char × List Char :=
  (cs.takeWhile Char.isDigit, cs.dropWhile Char.isDigit)

/-- A point and the digits after it, if the text starts with a point. -/
def splitFraction : List Char → List Char × List Char
  | '.' :: cs => splitDigits cs
  | cs => ([], cs)

/-- Exponents from here on are not told apart any more. -/
def exponentLimit : Nat := 0x10000

/-- The exponent that a string of digits denotes.  Once the digits so far reach `exponentLimit`,
the ones after them are passed over: such an exponent decides the value alone unless the
coefficient has tens of thousands of digits itself. -/
def readExponent (cs : List Char) : Nat :=
  cs.foldl (fun sofar c => if sofar < exponentLimit then 10 * sofar + (c.toNat - 48) else sofar) 0

/-- The value of a complete exponent part that the text starts with.  An `e` without digits after
it is no exponent: nothing is taken then. -/
def splitExponent (cs : List Char) : Int × List Char :=
  match cs with
  | c :: rest =>
    if c = 'e' ∨ c = 'E' then
      let (negative, unsigned) := splitSign rest
      let (ds, after) := splitDigits unsigned
      if ds = [] then (0, cs)
      else (if negative then -(readExponent ds : Int) else readExponent ds, after)
    else (0, cs)
  | [] => (0, cs)

/-- The longest numeral at the start of a text, and the rest of the text. -/
def Numeral.scan (cs : List Char) : Option (Numeral × List Char) :=
  let (negative, unsigned) := splitSign cs
  let (whole, afterWhole) := splitDigits unsigned
  let (fraction, afterFraction) := splitFraction afterWhole
  if whole = [] ∧ fraction = [] then none
  else
    let (exponent, rest) := splitExponent afterFraction
    some (⟨negative, readLong (whole ++ fraction), exponent - fraction.length⟩, rest)

/-- The double nearest to a numeral. -/
def Numeral.toDouble (n : Numeral) : Double :=
  Double.ofDecimal n.negative n.coefficient n.exponent

/-! ## Readers -/

/-- The double that a text starts with, blanks before it apart; positive zero if there is none. -/
def readLeading (cs : List Char) : Double :=
  match Numeral.scan (cs.dropWhile Text.isBlank) with
  | some (n, _) => n.toDouble
  | none => Double.zero

/-- The double that a whole text denotes: a numeral, or `inf`, `infinity` or `nan` in any case
with an optional sign. -/
def readDouble? (cs : List Char) : Option Double :=
  match Numeral.scan cs with
  | some (n, []) => some n.toDouble
  | some (_, _ :: _) => none
  | none =>
    let (negative, name) := splitSign cs
    match String.ofList (name.map Char.toLower) with
    | "inf" => some (Double.infinity negative)
    | "infinity" => some (Double.infinity negative)
    | "nan" => some (Double.quietNaN negative)
    | _ => none

/-- The whole number below `limit` that a whole text denotes: digits after an optional plus. -/
def readNat? (limit : Nat) (cs : List Char) : Option Nat :=
  let ds := match cs with
    | '+' :: rest => rest
    | _ => cs
  if ds ≠ [] ∧ ds.all Char.isDigit ∧ readLong ds < limit then some (readLong ds) else none

end Decimal

end TreeJit
