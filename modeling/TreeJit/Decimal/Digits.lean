/-! # Decimal digits

Digit strings as lists of characters: reading them, and writing a whole number
of tenths, hundredths and so on in positional notation.
-/

namespace TreeJit.Decimal

/-- The digits of a whole number, most significant first; zero is one digit. -/
def digits (n : Nat) : List Char := Nat.toDigits 10 n

/-- The whole number that a string of digits denotes. -/
def readDigits (cs : List Char) : Nat := Nat.ofDigitChars 10 cs 0

@[simp] theorem readDigits_digits (n : Nat) : readDigits (digits n) = n :=
  Nat.ofDigitChars_toDigits (by decide) (by decide)

/-- `10^k`. -/
def powerOfTen (k : Nat) : Nat := Nat.pow 10 k

/-- The whole number that a string of digits denotes, read from its two halves.  On long strings
this takes far fewer steps than reading digit by digit. -/
def readLong (cs : List Char) : Nat :=
  if cs.length ≤ 64 then readDigits cs
  else
    let front := cs.length / 2
    readLong (cs.take front) * powerOfTen (cs.length - front) + readLong (cs.drop front)
termination_by cs.length
decreasing_by all_goals simp; omega

/-- Digits after others add their value behind that of the others. -/
theorem readDigits_append (front back : List Char) :
    readDigits (front ++ back) = readDigits front * powerOfTen back.length + readDigits back := by
  unfold readDigits powerOfTen
  rw [Nat.ofDigitChars_append, Nat.ofDigitChars_eq_ofDigitChars_zero, Nat.mul_comm]
  rfl

/-- Reading by halves gives the same number. -/
theorem readLong_eq_readDigits (cs : List Char) : readLong cs = readDigits cs := by
  induction cs using readLong.induct with
  | case1 cs h => rw [readLong, if_pos h]
  | case2 cs h front ihFront ihBack =>
    rw [readLong, if_neg h]
    change readLong (cs.take front) * powerOfTen (cs.length - front) + readLong (cs.drop front) = _
    rw [ihFront, ihBack]
    have hback : cs.length - front = (cs.drop front).length := by simp
    rw [hback, ← readDigits_append, List.take_append_drop]

/-- The largest `k` with `10^k ≤ n`, for positive `n`. -/
def log10 (n : Nat) : Nat := (digits n).length - 1

/-- The digits of `n`, filled up with zeros on the left to at least `width`. -/
def padded (width n : Nat) : List Char := (digits n).leftpad width '0'

/-- `n / 10^places` in positional notation, with exactly `places` digits after the point and no
point if there are none. -/
def positional (n places : Nat) : List Char :=
  let whole := digits (n / powerOfTen places)
  if places = 0 then whole else whole ++ '.' :: padded places (n % powerOfTen places)

/-- Drops the zeros that end a fraction, and then a point that nothing follows.  A text without a
point is left alone, so the digits of a whole number are never touched. -/
def trimFraction (cs : List Char) : List Char :=
  if '.' ∈ cs then ((cs.reverse.dropWhile (· == '0')).dropWhile (· == '.')).reverse else cs

end TreeJit.Decimal
