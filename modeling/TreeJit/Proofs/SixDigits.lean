import TreeJit.Proofs.DecimalText
import TreeJit.Proofs.NumberText
import TreeJit.Proofs.Spacing

/-! # Rounding to six significant digits

A number that is no whole number below `10^18` is rounded to six significant
digits for its text.  The notation follows from the exponent after rounding.  With
an exponent, the digits of that rounding are written; without one, the number is
rounded again, to as many places behind the point as the exponent asks for.

The two roundings are on different grids if the first one has carried into the
next power of ten.  They agree nevertheless (`Decimal.scaledUnits_significant`):
what is half a step below a power of ten on one grid is a twentieth of a step
below it on the other.

* `Decimal.Scientific.IsNearest` — rounding to significant digits, which leaves no
  choice (`Decimal.Scientific.IsNearest.unique`).
* `Decimal.significant_isNearest` — the digits are rounded correctly.
* `Decimal.Scientific.Written` — the two notations.
* `Double.general_text_denotes_six_digits` — what the text of such a number says.
-/

namespace TreeJit

namespace Decimal

/-! ## Whole neighbours -/

/-- `NearestWhole q n`: no whole number is closer to `q` than `n`, and half-way between two it is the
even one. -/
structure NearestWhole (q : ℚ) (n : Nat) : Prop where
  near : |q - n| ≤ 1 / 2
  even : |q - n| = 1 / 2 → n % 2 = 0

namespace NearestWhole

variable {q : ℚ} {n : Nat}

theorem of_roundDiv (num : Nat) {den : Nat} (positive : 0 < den) :
    NearestWhole (num / den) (roundDiv num den) := by
  have size : (0 : ℚ) < den := by exact_mod_cast positive
  obtain ⟨above, below⟩ := roundDiv_near num positive
  generalize roundDiv num den = n at above below
  have scaled : ((num : ℚ) / den - n) = (num - n * den) / den := by
    rw [sub_div, mul_div_cancel_right₀ _ size.ne']
  have upper : (num : ℚ) - n * den ≤ den / 2 := by
    have : 2 * num ≤ (2 * n + 1) * den := by omega
    have : (2 : ℚ) * num ≤ (2 * n + 1) * den := by exact_mod_cast this
    linarith
  have lower : -((den : ℚ) / 2) ≤ num - n * den := by
    have : 2 * n * den ≤ 2 * num + den := by omega
    have : (2 : ℚ) * n * den ≤ 2 * num + den := by exact_mod_cast this
    linarith
  constructor
  · rw [scaled, abs_div, abs_of_pos size, div_le_iff₀ size, abs_le]
    constructor <;> linarith
  · intro tie
    rw [scaled, abs_div, abs_of_pos size, div_eq_iff size.ne', abs_eq (by linarith)] at tie
    rcases tie with up | down
    · have : (2 : ℚ) * num = (2 * n + 1) * den := by linarith
      have : 2 * num = (2 * n + 1) * den := by exact_mod_cast this
      omega
    · have : (2 : ℚ) * n * den = 2 * num + den := by linarith
      have : 2 * n * den = 2 * num + den := by exact_mod_cast this
      omega

/-- Other whole numbers are on the other side of the half. -/
theorem half_le (nearest : NearestWhole q n) {k : Nat} (ne : k ≠ n) : 1 / 2 ≤ |q - k| := by
  have near := abs_le.1 nearest.near
  rw [le_abs]
  rcases Nat.lt_or_gt_of_ne ne with less | greater
  · left
    have : (k : ℚ) + 1 ≤ n := by exact_mod_cast less
    linarith
  · right
    have : (n : ℚ) + 1 ≤ k := by exact_mod_cast greater
    linarith

theorem eq_of_close (nearest : NearestWhole q n) {k : Nat} (close : |q - k| < 1 / 2) : n = k := by
  by_contra ne
  exact absurd (nearest.half_le (Ne.symm ne)) (not_le.2 close)

theorem le_distance (nearest : NearestWhole q n) (k : Nat) : |q - n| ≤ |q - k| := by
  by_cases same : k = n
  · rw [same]
  · exact nearest.near.trans (nearest.half_le same)

theorem le_of_le (nearest : NearestWhole q n) {k : Nat} (le : (k : ℚ) ≤ q) : k ≤ n := by
  by_contra less
  have : (n : ℚ) + 1 ≤ k := by exact_mod_cast Nat.lt_of_not_le less
  linarith [(abs_le.1 nearest.near).2]

theorem ge_of_ge (nearest : NearestWhole q n) {k : Nat} (ge : q ≤ k) : n ≤ k := by
  by_contra greater
  have : (k : ℚ) + 1 ≤ n := by exact_mod_cast Nat.lt_of_not_le greater
  linarith [(abs_le.1 nearest.near).1]

end NearestWhole

/-! ## Powers of ten -/

theorem ten_zpow_pos (k : Int) : (0 : ℚ) < 10 ^ k := zpow_pos (by norm_num) k

theorem ten_zpow_le {j k : Int} (le : j ≤ k) : (10 : ℚ) ^ j ≤ 10 ^ k :=
  zpow_le_zpow_right₀ (by norm_num) le

theorem ten_zpow_add (j k : Int) : (10 : ℚ) ^ (j + k) = 10 ^ j * 10 ^ k :=
  zpow_add₀ (by norm_num) j k

theorem ten_zpow_next (j : Int) (k : Nat) : (10 : ℚ) ^ (j + 1 - k) = 10 ^ (j - k) * 10 := by
  rw [← zpow_add_one₀ (by norm_num), sub_add_eq_add_sub]

theorem scaledUnits_nearest (units : Nat) (power : Int) :
    NearestWhole (units / Double.unitsPerOne / 10 ^ power) (scaledUnits units power) := by
  have unit := Double.unitsPerOne_pos
  rw [scaledUnits]
  split
  case isTrue up =>
    obtain ⟨k, rfl⟩ := Int.eq_ofNat_of_zero_le up
    have nearest := NearestWhole.of_roundDiv units
      (Nat.mul_pos unit (powerOfTen_pos k))
    simpa [powerOfTen_eq, div_div] using nearest
  case isFalse down =>
    obtain ⟨k, rfl⟩ : ∃ k : Nat, power = -k := ⟨(-power).toNat, by omega⟩
    have nearest := NearestWhole.of_roundDiv (units * powerOfTen k) unit
    simpa [powerOfTen_eq, mul_div_right_comm] using nearest

/-- The leading exponent is the one of the first digit. -/
theorem leadingExponent_bounds {units : Nat} (positive : 0 < units) :
    (10 : ℚ) ^ leadingExponent units ≤ units / Double.unitsPerOne ∧
      (units / Double.unitsPerOne : ℚ) < 10 ^ (leadingExponent units + 1) := by
  have unit := Double.unitsPerOne_pos
  have unit' := Double.unit_pos
  have scale : (0 : ℚ) < powerOfTen 324 := Nat.cast_pos.2 (powerOfTen_pos 324)
  have lifted : 0 < units * powerOfTen 324 / Double.unitsPerOne := by
    rw [Nat.div_pos_iff]
    refine ⟨unit, ?_⟩
    have small : Double.unitsPerOne ≤ powerOfTen 324 := by decide +kernel
    exact small.trans (Nat.le_mul_of_pos_left _ positive)
  have low := pow_log10_le lifted
  have high := lt_pow_log10_succ (units * powerOfTen 324 / Double.unitsPerOne)
  rw [leadingExponent]
  generalize log10 (units * powerOfTen 324 / Double.unitsPerOne) = k at low high ⊢
  rw [Nat.le_div_iff_mul_le unit] at low
  rw [Nat.div_lt_iff_lt_mul unit] at high
  have power (j : Nat) : (10 : ℚ) ^ ((j : Int) - 324) = (10 ^ j : Nat) / powerOfTen 324 := by
    rw [zpow_sub₀ (by norm_num), zpow_natCast, powerOfTen_eq, Nat.cast_pow, Nat.cast_pow,
      Nat.cast_ofNat]
    rfl
  have next : (k : Int) - 324 + 1 = ((k + 1 : Nat) : Int) - 324 := by
    push_cast
    ring
  rw [next, power, power]
  constructor
  · rw [div_le_div_iff₀ scale unit']
    exact_mod_cast low
  · rw [div_lt_div_iff₀ unit' scale]
    exact_mod_cast high

/-! ## Decimals with a given number of digits -/

namespace Scientific

variable {precision : Nat} {s t : Scientific} {m : ℚ}

/-- The number that a coefficient with `precision` digits and an exponent stand for. -/
def magnitude (precision : Nat) (s : Scientific) : ℚ :=
  s.coefficient * 10 ^ (s.exponent - (precision - 1 : Nat))

/-- Whether the coefficient has `precision` digits. -/
def HasDigits (precision : Nat) (s : Scientific) : Prop :=
  10 ^ (precision - 1) ≤ s.coefficient ∧ s.coefficient < 10 ^ precision

/-- `s.IsNearest precision m`: `s` is `m`, rounded to `precision` significant digits.  No decimal
with so many digits is closer, and if another one is as close, the last digit of `s` is even. -/
structure IsNearest (precision : Nat) (m : ℚ) (s : Scientific) : Prop where
  digits : s.HasDigits precision
  nearest : ∀ t : Scientific, t.HasDigits precision →
    |m - s.magnitude precision| ≤ |m - t.magnitude precision|
  even : ∀ t : Scientific, t.HasDigits precision → t.magnitude precision ≠ s.magnitude precision →
    |m - s.magnitude precision| = |m - t.magnitude precision| → s.coefficient % 2 = 0

theorem HasDigits.le_magnitude (digits : s.HasDigits precision) :
    10 ^ s.exponent ≤ s.magnitude precision := by
  have low : (10 : ℚ) ^ (precision - 1) ≤ s.coefficient := by exact_mod_cast digits.1
  calc (10 : ℚ) ^ s.exponent
      = 10 ^ (precision - 1) * 10 ^ (s.exponent - (precision - 1 : Nat)) := by
        rw [← zpow_natCast, ← ten_zpow_add, add_sub_cancel]
    _ ≤ s.magnitude precision := mul_le_mul_of_nonneg_right low (ten_zpow_pos _).le

/-- One unit of the last digit is missing to the next power of ten at least. -/
theorem HasDigits.magnitude_le (positive : 0 < precision) (digits : s.HasDigits precision) :
    s.magnitude precision ≤
      10 ^ (s.exponent + 1) - 10 ^ (s.exponent - (precision - 1 : Nat)) := by
  have high : (s.coefficient : ℚ) + 1 ≤ 10 ^ precision := by exact_mod_cast digits.2
  have whole : (10 : ℚ) ^ (s.exponent + 1) =
      10 ^ precision * 10 ^ (s.exponent - (precision - 1 : Nat)) := by
    rw [← zpow_natCast, ← ten_zpow_add]
    congr 1
    omega
  have := mul_le_mul_of_nonneg_right high (ten_zpow_pos (s.exponent - (precision - 1 : Nat))).le
  rw [whole, magnitude]
  linarith

/-- A decimal is a multiple of each smaller unit, and an even one if its last digit is even. -/
theorem exists_multiple (precision : Nat) {exponent : Int} (le : exponent ≤ s.exponent) :
    ∃ k : Nat, s.magnitude precision = k * 10 ^ (exponent - (precision - 1 : Nat)) ∧
      (s.coefficient % 2 = 0 → k % 2 = 0) := by
  obtain ⟨j, gap⟩ := Int.eq_ofNat_of_zero_le (sub_nonneg.2 le)
  refine ⟨s.coefficient * 10 ^ j, ?_, fun even => ?_⟩
  · have split : s.exponent - (precision - 1 : Nat) = j + (exponent - (precision - 1 : Nat)) := by
      omega
    rw [magnitude, split, ten_zpow_add, zpow_natCast]
    push_cast
    ring
  · rw [Nat.mul_mod, even, Nat.zero_mul, Nat.zero_mod]

theorem HasDigits.magnitude_lt (positive : 0 < precision) (digits : s.HasDigits precision) :
    s.magnitude precision < 10 ^ (s.exponent + 1) := by
  have := digits.magnitude_le positive
  linarith [ten_zpow_pos (s.exponent - (precision - 1 : Nat))]

theorem HasDigits.exponent_le (positive : 0 < precision) (digits : s.HasDigits precision)
    (digits' : t.HasDigits precision) (le : s.magnitude precision ≤ t.magnitude precision) :
    s.exponent ≤ t.exponent := by
  by_contra greater
  have power : (10 : ℚ) ^ (t.exponent + 1) ≤ 10 ^ s.exponent := ten_zpow_le (by omega)
  linarith [digits.le_magnitude, digits'.magnitude_lt positive]

theorem HasDigits.eq_of_magnitude_eq (positive : 0 < precision) (digits : s.HasDigits precision)
    (digits' : t.HasDigits precision) (same : s.magnitude precision = t.magnitude precision) :
    s = t := by
  have exponent : s.exponent = t.exponent := le_antisymm
    (digits.exponent_le positive digits' same.le) (digits'.exponent_le positive digits same.ge)
  have coefficient : (s.coefficient : ℚ) = t.coefficient := by
    rw [magnitude, magnitude, exponent] at same
    exact mul_right_cancel₀ (ten_zpow_pos _).ne' same
  cases s
  cases t
  simp_all

/-! ### Rounding to significant digits -/

/-- A decimal is nearest if it is so among the multiples of its last digit's unit. -/
theorem IsNearest.of_nearestWhole (positive : 0 < precision) {exponent : Int} {n : Nat}
    (low : 10 ^ exponent ≤ m)
    (nearest : NearestWhole (m / 10 ^ (exponent - (precision - 1 : Nat))) n)
    (digits : s.HasDigits precision)
    (value : s.magnitude precision = n * 10 ^ (exponent - (precision - 1 : Nat)))
    (even : n % 2 = 0 → s.coefficient % 2 = 0) : s.IsNearest precision m := by
  have leading : (10 : ℚ) ^ exponent =
      (10 ^ (precision - 1) : Nat) * 10 ^ (exponent - (precision - 1 : Nat)) := by
    rw [Nat.cast_pow, Nat.cast_ofNat, ← zpow_natCast, ← ten_zpow_add, add_sub_cancel]
  have multiple (t : Scientific) (le : exponent ≤ t.exponent) :=
    t.exists_multiple precision le
  have step := ten_zpow_pos (exponent - (precision - 1 : Nat))
  generalize (10 : ℚ) ^ (exponent - (precision - 1 : Nat)) = size at *
  have scaled (k : Nat) : |m - k * size| = |m / size - k| * size := by
    rw [← abs_of_pos step, ← abs_mul, abs_of_pos step, sub_mul, div_mul_cancel₀ _ step.ne']
  -- Decimals with a smaller exponent lie behind the power of ten below.
  have smaller (t : Scientific) (digits' : t.HasDigits precision) (less : t.exponent < exponent) :
      |m - s.magnitude precision| < |m - t.magnitude precision| := by
    have power : (10 : ℚ) ^ (t.exponent + 1) ≤ 10 ^ exponent := ten_zpow_le (by omega)
    have below := digits'.magnitude_lt positive
    have closest := mul_le_mul_of_nonneg_right (nearest.le_distance (10 ^ (precision - 1))) step.le
    rw [← scaled, ← scaled, ← leading, ← value, abs_of_nonneg (sub_nonneg.2 low)] at closest
    rw [abs_of_pos (by linarith : 0 < m - t.magnitude precision)]
    linarith
  refine ⟨digits, fun t digits' => ?_, fun t digits' ne same => ?_⟩
  · rcases Int.lt_or_le t.exponent exponent with less | le
    · exact (smaller t digits' less).le
    · obtain ⟨k, same, -⟩ := multiple t le
      rw [value, same, scaled, scaled]
      exact mul_le_mul_of_nonneg_right (nearest.le_distance k) step.le
  · rcases Int.lt_or_le t.exponent exponent with less | le
    · exact absurd same (smaller t digits' less).ne
    · obtain ⟨k, multiple, -⟩ := multiple t le
      have other : k ≠ n := by
        rintro rfl
        exact ne (multiple.trans value.symm)
      rw [value, multiple, scaled, scaled] at same
      have same := mul_right_cancel₀ step.ne' same
      exact even (nearest.even (le_antisymm nearest.near (same ▸ nearest.half_le other)))

/-- Rounding to significant digits leaves no choice. -/
theorem IsNearest.unique (positive : 0 < precision) (hs : s.IsNearest precision m)
    (ht : t.IsNearest precision m) : s = t := by
  suffices apart : ∀ {s t : Scientific}, s.IsNearest precision m → t.IsNearest precision m →
      ¬s.magnitude precision < t.magnitude precision from
    hs.digits.eq_of_magnitude_eq positive ht.digits
      (le_antisymm (not_lt.1 (apart ht hs)) (not_lt.1 (apart hs ht)))
  intro s t hs ht less
  -- Both are even and equally close, so there is one between them that is closer.
  have same := le_antisymm (hs.nearest t ht.digits) (ht.nearest s hs.digits)
  have even := hs.even t ht.digits less.ne' same
  have even' := ht.even s hs.digits less.ne same.symm
  have middle : 2 * m = s.magnitude precision + t.magnitude precision := by
    rcases abs_eq_abs.1 same with equal | opposite <;> linarith
  obtain ⟨k, multiple, evenMultiple⟩ := t.exists_multiple precision
    (hs.digits.exponent_le positive ht.digits less.le)
  have step := ten_zpow_pos (s.exponent - (precision - 1 : Nat))
  have further : s.coefficient + 2 ≤ k := by
    have evenMultiple := evenMultiple even'
    have : s.coefficient < k := by
      rw [multiple, magnitude] at less
      exact_mod_cast lt_of_mul_lt_mul_right less step.le
    omega
  have between : HasDigits precision ⟨s.coefficient + 1, s.exponent⟩ := by
    refine ⟨hs.digits.1.trans (Nat.le_succ _), ?_⟩
    have bound := hs.digits.2
    obtain ⟨p, rfl⟩ : ∃ p, precision = p + 1 := ⟨precision - 1, by omega⟩
    rw [Nat.pow_succ] at bound ⊢
    dsimp only
    omega
  have closer := hs.nearest _ between
  have value : magnitude precision ⟨s.coefficient + 1, s.exponent⟩ =
      s.magnitude precision + 10 ^ (s.exponent - (precision - 1 : Nat)) := by
    simp only [magnitude]
    push_cast
    ring
  have reach : s.magnitude precision + 2 * 10 ^ (s.exponent - (precision - 1 : Nat)) ≤
      t.magnitude precision := by
    have : (s.coefficient : ℚ) + 2 ≤ k := by exact_mod_cast further
    rw [multiple, magnitude]
    linarith [mul_le_mul_of_nonneg_right this step.le]
  rw [value, abs_of_pos (by linarith : 0 < m - s.magnitude precision), le_abs] at closer
  rcases closer with above | below <;> linarith

end Scientific

section significant

variable {precision units : Nat}

/-- Rounding keeps the first digit's exponent, or gives the next power of ten. -/
theorem scaledUnits_bounds (wide : 0 < precision) (positive : 0 < units) :
    10 ^ (precision - 1) ≤ scaledUnits units (leadingExponent units - (precision - 1 : Nat)) ∧
      scaledUnits units (leadingExponent units - (precision - 1 : Nat)) ≤ 10 ^ precision := by
  obtain ⟨low, high⟩ := leadingExponent_bounds positive
  have nearest := scaledUnits_nearest units (leadingExponent units - (precision - 1 : Nat))
  have step := ten_zpow_pos (leadingExponent units - (precision - 1 : Nat))
  have power (k : Nat) : ((10 ^ k : Nat) : ℚ) *
      10 ^ (leadingExponent units - (precision - 1 : Nat)) =
        10 ^ (k + (leadingExponent units - (precision - 1 : Nat))) := by
    rw [ten_zpow_add, zpow_natCast, Nat.cast_pow, Nat.cast_ofNat]
  constructor
  · apply nearest.le_of_le
    rwa [le_div_iff₀ step, power, add_sub_cancel]
  · apply nearest.ge_of_ge
    rw [div_le_iff₀ step, power,
      show (precision : Int) + (leadingExponent units - (precision - 1 : Nat)) =
        leadingExponent units + 1 by omega]
    exact high.le

/-- Either nothing is carried out of the first digit, or nothing but zeros is left behind it. -/
theorem significant_cases (wide : 0 < precision) (positive : 0 < units) :
    (scaledUnits units (leadingExponent units - (precision - 1 : Nat)) < 10 ^ precision ∧
      significant precision units =
        ⟨scaledUnits units (leadingExponent units - (precision - 1 : Nat)),
          leadingExponent units⟩) ∨
    (scaledUnits units (leadingExponent units - (precision - 1 : Nat)) = 10 ^ precision ∧
      significant precision units = ⟨10 ^ (precision - 1), leadingExponent units + 1⟩) := by
  have bound := (scaledUnits_bounds wide positive).2
  rw [significant]
  by_cases carried : scaledUnits units (leadingExponent units - (precision - 1 : Nat)) =
      powerOfTen precision
  · exact .inr ⟨carried, if_pos carried⟩
  · exact .inl ⟨Nat.lt_of_le_of_ne bound carried, if_neg carried⟩

theorem significant_isNearest (wide : 1 < precision) (positive : 0 < units) :
    (significant precision units).IsNearest precision (units / Double.unitsPerOne) := by
  have nearest := scaledUnits_nearest units (leadingExponent units - (precision - 1 : Nat))
  have low := (leadingExponent_bounds positive).1
  have first := (scaledUnits_bounds (by omega) positive : 10 ^ (precision - 1) ≤ _ ∧ _).1
  rcases significant_cases (by omega : 0 < precision) positive with
    ⟨small, same⟩ | ⟨carried, same⟩
  · rw [same]
    exact .of_nearestWhole (by omega) low nearest ⟨first, small⟩ rfl id
  · rw [same]
    obtain ⟨p, rfl⟩ : ∃ p, precision = p + 2 := ⟨precision - 2, by omega⟩
    refine .of_nearestWhole (by omega) low nearest ⟨le_rfl, ?_⟩ ?_ fun _ => ?_
    · exact Nat.pow_lt_pow_right (by decide) (by omega)
    · rw [carried, Scientific.magnitude, ten_zpow_next]
      push_cast
      ring
    · change 10 ^ (p + 1) % 2 = 0
      rw [Nat.pow_succ]
      omega

/-- Rounded to the places that the exponent asks for, the number gives the same digits once more. -/
theorem scaledUnits_significant (wide : 0 < precision) (positive : 0 < units) :
    scaledUnits units ((significant precision units).exponent - (precision - 1 : Nat)) =
      (significant precision units).coefficient := by
  rcases significant_cases wide positive with ⟨-, same⟩ | ⟨carried, same⟩
  · rw [same]
  · rw [same]
    have nearest := scaledUnits_nearest units (leadingExponent units - (precision - 1 : Nat))
    have coarse := scaledUnits_nearest units (leadingExponent units + 1 - (precision - 1 : Nat))
    obtain ⟨p, rfl⟩ : ∃ p, precision = p + 1 := ⟨precision - 1, by omega⟩
    rw [carried] at nearest
    rw [ten_zpow_next, ← div_div] at coarse
    -- The number is at most a half below the power of ten, and ten times less on the coarse grid.
    obtain ⟨below, above⟩ := abs_le.1 nearest.near
    apply coarse.eq_of_close
    push_cast at below above ⊢
    rw [abs_lt]
    rw [pow_succ] at below above
    constructor <;> linarith

end significant

/-! ## Notations -/

/-- The texts of a decimal with `precision` digits.  The mantissa has no digits at its end that can
be left out, and the exponent has two digits at least. -/
inductive Scientific.Written (precision : Nat) (s : Scientific) : List Char → Prop where
  | exponential {coefficient places : Nat} {mantissa ds : List Char}
      (far : s.exponent < -4 ∨ precision ≤ s.exponent)
      (isMantissa : IsMantissa coefficient places mantissa) (trimmed : Trimmed mantissa)
      (value : (coefficient * 10 ^ (-places : Int) : ℚ) =
        s.coefficient * 10 ^ (-(precision - 1 : Nat) : Int))
      (digits : AllDigits ds) (two : 2 ≤ ds.length) (exponent : readDigits ds = s.exponent.natAbs) :
      Written precision s (mantissa ++ 'e' :: (if s.exponent < 0 then '-' else '+') :: ds)
  | plain {coefficient places : Nat} {mantissa : List Char}
      (near : -4 ≤ s.exponent ∧ s.exponent < precision)
      (isMantissa : IsMantissa coefficient places mantissa) (trimmed : Trimmed mantissa)
      (value : (coefficient * 10 ^ (-places : Int) : ℚ) = s.magnitude precision) :
      Written precision s mantissa

section written

variable {precision units : Nat} {s : Scientific} {text : List Char}

/-- A text is a numeral for the decimal that it is a text of. -/
theorem Scientific.Written.spells (written : s.Written precision text) {read : List Char → Nat}
    (reads : ∀ ds, readDigits ds = s.exponent.natAbs → read ds = s.exponent.natAbs)
    {negative : Bool} {sign : List Char} (signed : IsSign negative sign) :
    ∃ n : Numeral, n.Spells read (sign ++ text) ∧ n.negative = negative ∧
      n.magnitude = s.magnitude precision := by
  cases written with
  | @exponential coefficient places mantissa ds far isMantissa trimmed value digits two exponent =>
    have some : ds ≠ [] := List.length_pos_iff.1 (by omega)
    refine ⟨_, .intro signed isMantissa (isExponent_of_digits digits some (reads ds exponent)), rfl,
      ?_⟩
    calc (coefficient * 10 ^ (s.exponent - places) : ℚ)
        = coefficient * 10 ^ (-places : Int) * 10 ^ s.exponent := by
          rw [mul_assoc, ← ten_zpow_add, neg_add_eq_sub]
      _ = s.coefficient * 10 ^ (-(precision - 1 : Nat) : Int) * 10 ^ s.exponent := by rw [value]
      _ = s.magnitude precision := by
          rw [mul_assoc, ← ten_zpow_add, neg_add_eq_sub, magnitude]
  | @plain coefficient places mantissa near isMantissa trimmed value =>
    have spelled : Numeral.Spells read _ (sign ++ (text ++ [])) := .intro signed isMantissa .none
    rw [List.append_nil] at spelled
    refine ⟨_, spelled, rfl, ?_⟩
    rw [Numeral.magnitude, ← value, zero_sub]

/-- Trimming keeps the value that positional notation has. -/
theorem exists_trimmed (n places : Nat) : ∃ coefficient kept,
    IsMantissa coefficient kept (trimFraction (positional n places)) ∧
    Trimmed (trimFraction (positional n places)) ∧
    (coefficient * 10 ^ (-kept : Int) : ℚ) = n * 10 ^ (-places : Int) := by
  obtain ⟨coefficient, kept, isMantissa, trimmed, le, rfl⟩ := trimmed_positional n places
  refine ⟨coefficient, kept, isMantissa, trimmed, ?_⟩
  rw [Nat.cast_mul, Nat.cast_pow, Nat.cast_ofNat, mul_assoc, ← zpow_natCast, ← ten_zpow_add]
  congr 2
  omega

theorem generalUnits_written (wide : 0 < precision) (positive : 0 < units) :
    (significant precision units).Written precision (generalUnits precision units) := by
  have again := scaledUnits_significant wide positive
  rw [generalUnits]
  dsimp only
  split
  case isTrue far =>
    obtain ⟨coefficient, places, isMantissa, trimmed, value⟩ :=
      exists_trimmed (significant precision units).coefficient (precision - 1)
    rw [exponentPart]
    refine .exponential far isMantissa trimmed value (allDigits_padded _ _) ?_ ?_
    · rw [length_padded_eq_max]
      omega
    · exact readDigits_padded _ _
  case isFalse near =>
    rw [not_or, not_lt, not_le] at near
    have places : (-(((precision : Int) - 1 - (significant precision units).exponent).toNat : Int)) =
        (significant precision units).exponent - (precision - 1 : Nat) := by omega
    obtain ⟨coefficient, kept, isMantissa, trimmed, value⟩ :=
      exists_trimmed (significant precision units).coefficient
        ((precision : Int) - 1 - (significant precision units).exponent).toNat
    rw [places, again]
    refine .plain near isMantissa trimmed ?_
    rw [value, places, Scientific.magnitude]

end written

end Decimal

/-! ## The text of a number -/

namespace Double

open Decimal (Numeral Scientific generalUnits readDigits scaledUnits significant)

/-- A number that is written with six significant digits: a fraction, or a number too large to be
written in full. -/
structure IsGeneral (x : Double) : Prop where
  finite : x.isFinite
  general : (∀ n : Nat, x.magnitude ≠ n) ∨ 10 ^ 18 ≤ x.magnitude

variable {x : Double}

theorem IsGeneral.units_pos (general : x.IsGeneral) : 0 < x.units := by
  rcases Nat.eq_zero_or_pos x.units with zero | positive
  · have none : x.magnitude = (0 : Nat) := by rw [magnitude, zero, Nat.cast_zero, zero_div]
    rcases general.general with fraction | large
    · exact absurd none (fraction 0)
    · rw [none] at large
      norm_num at large
  · exact positive

theorem signed_eq (negative : Bool) (text : List Char) :
    (if negative then '-' :: text else text) = (if negative then ['-'] else []) ++ text := by
  cases negative <;> rfl

theorem toText_of_isGeneral (general : x.IsGeneral) :
    x.toText = (if x.negative then ['-'] else []) ++ generalUnits 6 x.units := by
  have number := not_isNaN_of_isFinite general.finite
  have bounded := not_isInfinite_of_isFinite general.finite
  have wide : ¬(x.isIntegral ∧ x.units < Decimal.powerOfTen 18 * unitsPerOne) := by
    rintro ⟨integral, small⟩
    rcases general.general with fraction | large
    · obtain ⟨-, n, whole⟩ := isIntegral_iff.1 integral
      exact fraction n whole
    · rw [Decimal.powerOfTen_eq] at small
      have small : (x.units : ℚ) < 10 ^ 18 * unitsPerOne := by exact_mod_cast small
      rw [← div_lt_iff₀ unit_pos] at small
      exact absurd small (not_lt.2 large)
  rw [toText, number, bounded, if_neg Bool.false_ne_true, if_neg Bool.false_ne_true, if_neg wide]
  exact signed_eq _ _

/-- A number that is no whole number below `10^18` is written with six significant digits.  Let `s`
be the number rounded to so many digits; there is no other way to round it.  Its text is one of `s`,
with an exponent or without, behind a minus if the number is negative, and denotes exactly `s`.  The
places that the plain notation is rounded to follow from the exponent of the other one, and both
roundings give the same digits.  The text consists of characters that a cell can hold. -/
theorem general_text_denotes_six_digits (general : x.IsGeneral) :
    ∃ s : Scientific, s.IsNearest 6 x.magnitude ∧
      (∀ t : Scientific, t.IsNearest 6 x.magnitude → t = s) ∧
      (∃ text, x.toText = (if x.negative then ['-'] else []) ++ text ∧ s.Written 6 text) ∧
      (∃ n : Numeral, n.Spells readDigits x.toText ∧ n.negative = x.negative ∧
        n.magnitude = s.magnitude 6) ∧
      (significant 6 x.units = s ∧ scaledUnits x.units (s.exponent - 5) = s.coefficient) ∧
      x.toText ≠ [] ∧ Text.Plain x.toText ∧
      ∃ t, Text.ofString (String.ofList x.toText) = .ok t ∧ t.chars = x.toText ∧
        Cell.renderNumber x = t := by
  have positive := general.units_pos
  have nearest := Decimal.significant_isNearest (by decide : 1 < 6) positive
  have written := Decimal.generalUnits_written (by decide : 0 < 6) positive
  have text := toText_of_isGeneral general
  obtain ⟨n, spelled, negative, value⟩ := written.spells (fun _ reads => reads)
    (Decimal.isSign_minus x.negative)
  obtain ⟨t, made, chars⟩ := Text.exists_ofString x.plain_toText
  refine ⟨significant 6 x.units, nearest, fun t other => other.unique (by decide) nearest,
    ⟨_, text, written⟩, ⟨n, text ▸ spelled, negative, value⟩,
    ⟨rfl, Decimal.scaledUnits_significant (by decide : 0 < 6) positive⟩,
    text ▸ spelled.ne_nil, x.plain_toText, t, made, chars, ?_⟩
  rw [Cell.renderNumber, made]
  rfl

/-- Half-way between the last number of six digits and the first one of seven: the even one is a
power of ten, and its exponent asks for the other notation. -/
theorem carry_changes_notation :
    IsGeneral ⟨0x412E847F00000000⟩ ∧
    toText ⟨0x412E847F00000000⟩ = "1e+06".toList ∧
    Scientific.IsNearest 6 (magnitude ⟨0x412E847F00000000⟩) ⟨100000, 6⟩ := by
  have general : IsGeneral ⟨0x412E847F00000000⟩ := by
    have finite : isFinite ⟨0x412E847F00000000⟩ := by decide
    have fraction : ¬isIntegral ⟨0x412E847F00000000⟩ := by decide +kernel
    refine ⟨finite, .inl fun n whole => fraction ?_⟩
    exact isIntegral_iff.2 ⟨finite, n, whole⟩
  obtain ⟨s, nearest, -, -, -, ⟨same, -⟩, -⟩ := general_text_denotes_six_digits general
  refine ⟨general, by decide +kernel, ?_⟩
  have rounded : significant 6 (units ⟨0x412E847F00000000⟩) = ⟨100000, 6⟩ := by decide +kernel
  rwa [← same, rounded] at nearest

end Double

end TreeJit
