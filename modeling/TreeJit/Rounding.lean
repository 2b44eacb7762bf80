/-! # Rounding of quotients

Every conversion in this library that loses digits, binary or decimal, goes
through one function: `roundDiv num den` is the whole number nearest to the
quotient, and a half goes to the even neighbour.

* `roundDiv_mul_right` — a quotient without remainder is kept.
-/

namespace TreeJit

/-- The whole number nearest to `num / den`; a half goes to the even neighbour. -/
def roundDiv (num den : Nat) : Nat :=
  let quotient := num / den
  let rest := num % den
  if 2 * rest < den ∨ (2 * rest = den ∧ quotient % 2 = 0) then quotient else quotient + 1

/-- A quotient without remainder is its own rounding. -/
theorem roundDiv_mul_right (q : Nat) {den : Nat} (h : 0 < den) : roundDiv (q * den) den = q := by
  simp [roundDiv, Nat.mul_div_cancel q h, h]

/-- Dividing by one rounds nothing. -/
@[simp] theorem roundDiv_one (num : Nat) : roundDiv num 1 = num := by
  simpa using roundDiv_mul_right num Nat.one_pos

end TreeJit
