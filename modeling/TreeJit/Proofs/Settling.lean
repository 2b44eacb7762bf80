import TreeJit.Proofs.SixDigits
import TreeJit.Proofs.WholeNumbers

/-! # The text of what a text says

A number that has been a text once is not changed by being a text again, although
the second text may differ from the first one.  Whole numbers come back from their
texts in any case.  Every other number is moved to the nearest decimal of six
digits, from there to the nearest double, and once more to a decimal.

Where a step between doubles is a small part of them, there is only one decimal so
close to the double, and it is found again (`Double.six_digits_unique`).  Among the
smallest numbers a step is one unit.  There the second decimal can be another one,
but it is no further away than half a unit.  It is not half a unit away either,
since it has too few places (`Double.half_way_places`), so it is read as the same
double.

* `Double.reread_isNearest` — what is read from the text of a number.
* `Double.reread_bounds` — it is neither infinite nor zero.
* `Double.reread_settles` — nothing changes from the second text on.
-/

namespace TreeJit

namespace Decimal.Scientific

variable {precision : Nat} {s t : Scientific} {m : ℚ}

theorem magnitude_nonneg (s : Scientific) (precision : Nat) : 0 ≤ s.magnitude precision :=
  mul_nonneg (Nat.cast_nonneg _) (ten_zpow_pos _).le

/-- From one decimal to the next it is one unit of the last digit at least. -/
theorem HasDigits.step_le (positive : 0 < precision) (digits : s.HasDigits precision)
    (digits' : t.HasDigits precision) (less : s.magnitude precision < t.magnitude precision) :
    s.magnitude precision + 10 ^ (s.exponent - (precision - 1 : Nat)) ≤ t.magnitude precision := by
  obtain ⟨k, multiple, -⟩ := t.exists_multiple precision
    (digits.exponent_le positive digits' less.le)
  have step := ten_zpow_pos (s.exponent - (precision - 1 : Nat))
  rw [multiple, magnitude] at less ⊢
  have further : s.coefficient < k := by exact_mod_cast lt_of_mul_lt_mul_right less step.le
  have further : (s.coefficient : ℚ) + 1 ≤ k := by exact_mod_cast further
  linarith [mul_le_mul_of_nonneg_right further step.le]

/-- The next decimal is larger by a part that depends on the number of digits alone. -/
theorem HasDigits.ratio_le (positive : 0 < precision) (digits : s.HasDigits precision)
    (digits' : t.HasDigits precision) (less : s.magnitude precision < t.magnitude precision) :
    (10 ^ precision + 1) * s.magnitude precision ≤ 10 ^ precision * t.magnitude precision := by
  have power : (10 : ℚ) ^ (s.exponent + 1) =
      10 ^ precision * 10 ^ (s.exponent - (precision - 1 : Nat)) := by
    rw [← zpow_natCast, ← ten_zpow_add]
    congr 1
    omega
  have bound := digits.magnitude_lt positive
  have step := digits.step_le positive digits' less
  have scale : (0 : ℚ) < 10 ^ precision := by positivity
  rw [power] at bound
  linarith [mul_le_mul_of_nonneg_left step scale.le]

/-- Rounding to significant digits does not pass a decimal that is below. -/
theorem IsNearest.ge (nearest : s.IsNearest precision m) (digits : t.HasDigits precision)
    (le : t.magnitude precision ≤ m) : t.magnitude precision ≤ s.magnitude precision := by
  by_contra less
  have closest := nearest.nearest t digits
  rw [abs_of_nonneg (sub_nonneg.2 le), abs_of_pos (by linarith)] at closest
  linarith

/-- A decimal is not passed by what is less than half a step above it. -/
theorem IsNearest.le (positive : 0 < precision) (nearest : s.IsNearest precision m)
    (digits : t.HasDigits precision)
    (less : 2 * m < 2 * t.magnitude precision + 10 ^ (t.exponent - (precision - 1 : Nat))) :
    s.magnitude precision ≤ t.magnitude precision := by
  by_contra greater
  have step := digits.step_le positive nearest.digits (not_le.1 greater)
  have closest := nearest.nearest t digits
  rw [abs_of_neg (by linarith), le_abs] at closest
  rcases closest with above | below <;> linarith

end Decimal.Scientific

namespace Double

open Decimal (Scientific significant)

variable {x : Double} {s : Scientific}

theorem IsGeneral.unit_le (general : x.IsGeneral) : 1 / unitsPerOne ≤ x.magnitude := by
  have some : (1 : ℚ) ≤ x.units := by exact_mod_cast general.units_pos
  exact div_le_div_of_nonneg_right some unit_pos.le

/-! ## The range of the decimals

Six digits of the smallest double are `4.94065e-324` when cut off, and six digits of
the largest one are `1.79769e+308`, rounded or cut off.  Rounding stays between them.
-/

theorem IsGeneral.smallest_le (general : x.IsGeneral) (nearest : s.IsNearest 6 x.magnitude) :
    Scientific.magnitude 6 ⟨494065, -324⟩ ≤ s.magnitude 6 := by
  have small : 494065 * unitsPerOne ≤ 10 ^ 329 := by decide +kernel
  have small : (494065 * unitsPerOne : ℚ) ≤ 10 ^ 329 := by exact_mod_cast small
  refine nearest.ge ⟨by decide, by decide⟩ (le_trans ?_ general.unit_le)
  calc Scientific.magnitude 6 ⟨494065, -324⟩
      = 494065 / 10 ^ 329 := by
        rw [div_eq_mul_inv]
        rfl
    _ ≤ 1 / unitsPerOne := by
        rwa [div_le_div_iff₀ (by positivity) unit_pos, one_mul]

theorem half_unit_lt_smallest :
    1 / (2 * unitsPerOne) < Scientific.magnitude 6 ⟨494065, -324⟩ := by
  have large : 10 ^ 329 < 494065 * (2 * unitsPerOne) := by decide +kernel
  have large : (10 ^ 329 : ℚ) < 494065 * (2 * unitsPerOne) := by exact_mod_cast large
  have unit := unit_pos
  calc (1 / (2 * unitsPerOne) : ℚ)
      < 494065 / 10 ^ 329 := by
        rwa [div_lt_div_iff₀ (by positivity) (by positivity), one_mul]
    _ = Scientific.magnitude 6 ⟨494065, -324⟩ := by
        rw [div_eq_mul_inv]
        rfl

theorem IsGeneral.le_largest (general : x.IsGeneral) (nearest : s.IsNearest 6 x.magnitude) :
    s.magnitude 6 ≤ Scientific.magnitude 6 ⟨179769, 308⟩ := by
  have large : 2 * ((2 ^ 54 - 1) * 2 ^ 970) ≤ 2 * (179769 * 10 ^ 303) + 10 ^ 303 := by
    decide +kernel
  have large : 2 * overflowBound ≤ 2 * (179769 * 10 ^ 303) + 10 ^ 303 := by
    rw [overflowBound_eq]
    exact_mod_cast large
  have bound := magnitude_lt_overflowBound general.finite
  refine nearest.le (by decide) ⟨by decide, by decide⟩ ?_
  exact (mul_lt_mul_of_pos_left bound two_pos).trans_le large

theorem largest_lt_overflowBound : Scientific.magnitude 6 ⟨179769, 308⟩ < overflowBound := by
  have large : 179769 * 10 ^ 303 < (2 ^ 54 - 1) * 2 ^ 970 := by decide +kernel
  have large : (179769 * 10 ^ 303 : ℚ) < overflowBound := by
    rw [overflowBound_eq]
    exact_mod_cast large
  exact large

theorem IsGeneral.exponent_bounds (general : x.IsGeneral) (nearest : s.IsNearest 6 x.magnitude) :
    -324 ≤ s.exponent ∧ s.exponent ≤ 308 :=
  ⟨Scientific.HasDigits.exponent_le (by decide) ⟨by decide, by decide⟩ nearest.digits
      (general.smallest_le nearest),
    nearest.digits.exponent_le (by decide) ⟨by decide, by decide⟩ (general.le_largest nearest)⟩

/-! ## What is read from the text -/

theorem reread_isNearest (general : x.IsGeneral) :
    IsNearest x.negative ((significant 6 x.units).magnitude 6) x.reread := by
  have nearest := Decimal.significant_isNearest (by decide : 1 < 6) general.units_pos
  have bounds := general.exponent_bounds nearest
  have written := Decimal.generalUnits_written (by decide : 0 < 6) general.units_pos
  generalize significant 6 x.units = s at nearest bounds written ⊢
  have reads (ds : List Char) (value : Decimal.readDigits ds = s.exponent.natAbs) :
      Decimal.readExponent ds = s.exponent.natAbs := by
    have limit : Decimal.exponentLimit = 0x10000 := rfl
    rcases Decimal.readExponent_eq_or ds with same | ⟨-, large⟩ <;> omega
  obtain ⟨n, spelled, negative, value⟩ := written.spells reads (Decimal.isSign_minus x.negative)
  rw [reread, toText_of_isGeneral general, Decimal.readLeading_of_spells spelled, ← negative,
    ← value]
  exact ofDecimal_isNearest n.negative n.coefficient n.exponent

/-! ## Half-way points -/

/-- A decimal is not half-way between two multiples of a power of two that has more places. -/
theorem half_way_places (places more k n : Nat) :
    |(k / 10 ^ places - n / 2 ^ (places + more) : ℚ)| ≠ 1 / (2 * 2 ^ (places + more)) := by
  have odd : 5 ^ places % 2 = 1 := by simp [Nat.pow_mod]
  have ten : (10 : ℚ) ^ places = 2 ^ places * 5 ^ places := by
    rw [← mul_pow]
    norm_num
  intro tie
  rw [ten, pow_add, abs_eq (by positivity)] at tie
  -- Without the denominators, one side is even and the other one odd.
  rcases tie with above | below
  · have whole : (2 * (k * 2 ^ more) : ℚ) = 2 * (n * 5 ^ places) + 5 ^ places := by
      field_simp at above
      linarith
    have whole : 2 * (k * 2 ^ more) = 2 * (n * 5 ^ places) + 5 ^ places := by exact_mod_cast whole
    omega
  · have whole : (2 * (k * 2 ^ more) + 5 ^ places : ℚ) = 2 * (n * 5 ^ places) := by
      field_simp at below
      linarith
    have whole : 2 * (k * 2 ^ more) + 5 ^ places = 2 * (n * 5 ^ places) := by exact_mod_cast whole
    omega

/-- A decimal of six digits has 329 places at most, while units have 1074. -/
theorem not_half_way (fine : -324 ≤ s.exponent) :
    |s.magnitude 6 - x.magnitude| ≠ 1 / (2 * unitsPerOne) := by
  obtain ⟨k, multiple, -⟩ := s.exists_multiple 6 fine
  rw [multiple, magnitude, unitsPerOne_eq]
  exact half_way_places 329 745 k x.units

/-! ## The second text -/

theorem whole_or_general (finite : x.isFinite) : (∃ z, x.IsWhole z) ∨ x.IsGeneral := by
  by_cases whole : ∃ n : Nat, x.magnitude = n ∧ n < 10 ^ 18
  · obtain ⟨n, value, small⟩ := whole
    refine .inl ⟨if x.negative then -n else n, finite, ?_, ?_⟩
    · rw [value_eq, value]
      split <;> simp
    · split <;> simpa using small
  · refine .inr ⟨finite, ?_⟩
    by_cases large : 10 ^ 18 ≤ x.magnitude
    · exact .inr large
    · refine .inl fun n value => whole ⟨n, value, ?_⟩
      rw [value, not_le] at large
      exact_mod_cast large

/-- The names of what is not finite are no numerals. -/
theorem reread_of_not_finite (infinite : ¬x.isFinite) : x.reread = .zero := by
  have range : infinityPattern ≤ x.pattern := not_lt.1 (mt decide_eq_true infinite)
  rw [reread, toText]
  by_cases number : x.isNaN
  · rw [if_pos number]
    cases x.negative <;> decide
  · have bound : x.isInfinite := by
      simp only [isNaN, isInfinite, decide_eq_true_eq] at number ⊢
      omega
    rw [if_neg number, if_pos bound]
    cases x.negative <;> decide

theorem reread_bounds (general : x.IsGeneral) : x.reread.isFinite ∧ ¬x.reread.isZero := by
  have nearest := Decimal.significant_isNearest (by decide : 1 < 6) general.units_pos
  have rounded := reread_isNearest general
  have low := general.smallest_le nearest
  have high := general.le_largest nearest
  have finite := rounded.finite (high.trans_lt largest_lt_overflowBound)
  refine ⟨finite, fun zero => ?_⟩
  have half := half_unit_lt_smallest
  have positive : (0 : ℚ) < 1 / (2 * unitsPerOne) := by
    have := unit_pos
    positivity
  have distance := rounded.distance_le finite (Scientific.magnitude_nonneg _ 6)
  rw [magnitude_eq_zero_iff.2 zero, sub_zero, zero_div, max_eq_left positive.le,
    abs_of_pos (by linarith)] at distance
  linarith

/-- Near to a double there is one decimal of six digits at most, unless the double is very small. -/
theorem six_digits_unique {t : Scientific} {m : ℚ} (digits : s.HasDigits 6)
    (digits' : t.HasDigits 6) (close : |s.magnitude 6 - m| ≤ m / 2 ^ 53)
    (close' : |t.magnitude 6 - m| ≤ m / 2 ^ 53) : s.magnitude 6 = t.magnitude 6 := by
  rw [abs_le] at close close'
  by_contra ne
  rcases lt_or_gt_of_ne ne with less | greater
  · have ratio := digits.ratio_le (by decide) digits' less
    norm_num at ratio
    linarith
  · have ratio := digits'.ratio_le (by decide) digits greater
    norm_num at ratio
    linarith

/-- Rounded to six digits once more, the number that is read gives a decimal that is read as this
number. -/
theorem reread_of_isGeneral (general : x.IsGeneral) (again : x.reread.IsGeneral) :
    x.reread.reread = x.reread := by
  have nearest := Decimal.significant_isNearest (by decide : 1 < 6) general.units_pos
  have nearest' := Decimal.significant_isNearest (by decide : 1 < 6) again.units_pos
  have rounded := reread_isNearest general
  have rounded' := reread_isNearest again
  have fine := (again.exponent_bounds nearest').1
  have largest := again.le_largest nearest'
  generalize x.reread = w at *
  generalize significant 6 x.units = s at *
  generalize significant 6 w.units = t at *
  refine rounded'.unique ?_
  have distance := rounded.distance_le again.finite (s.magnitude_nonneg 6)
  have closest : |t.magnitude 6 - w.magnitude| ≤ |s.magnitude 6 - w.magnitude| := by
    rw [abs_sub_comm, abs_sub_comm (s.magnitude 6)]
    exact nearest'.nearest s nearest.digits
  -- The number is half a unit away from the decimal at most, or a small part of itself.
  rcases le_max_iff.1 distance with unit | part
  · have close := lt_of_le_of_ne (closest.trans unit) (not_half_way fine)
    exact isNearest_of_close again.finite (largest.trans_lt largest_lt_overflowBound) close
  · rw [six_digits_unique nearest'.digits nearest.digits (closest.trans part) part, rounded.sign]
    exact rounded

/-- Making a number a text and a number again settles at once: doing so a second time changes no bit,
whichever number it was. -/
theorem reread_settles (x : Double) : x.reread.reread = x.reread := by
  have zero : Double.zero.reread = .zero := by
    rw [reread_of_isWhole (isWhole_zero rfl), ite_self]
  have whole {x : Double} {z : Int} (whole : x.IsWhole z) (nonzero : ¬x.isZero) : x.reread = x := by
    rw [reread_of_isWhole whole, if_neg nonzero]
  by_cases finite : x.isFinite
  · rcases whole_or_general finite with ⟨z, isWhole⟩ | general
    · by_cases isZero : x.isZero
      · rw [reread_of_isWhole isWhole, if_pos isZero, zero]
      · rw [whole isWhole isZero, whole isWhole isZero]
    · obtain ⟨finite, nonzero⟩ := reread_bounds general
      rcases whole_or_general finite with ⟨z, isWhole⟩ | again
      · exact whole isWhole nonzero
      · exact reread_of_isGeneral general again
  · rw [reread_of_not_finite finite, zero]

end Double

end TreeJit
