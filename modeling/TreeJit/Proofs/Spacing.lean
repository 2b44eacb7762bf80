import TreeJit.Proofs.NearestDouble

/-! # How far doubles lie apart

A double is its own rounding, and what is rounded to a double lies within half a
step of it.  A step is one unit of `2^-1074`, or at most `2^-52` of the double.

* `isNearest_self` and `isNearest_of_close` — what is close enough to a double is
  rounded to it.
* `IsNearest.distance_le` — what is rounded to a double is close to it.
* `RoundsTo.mono` — rounding keeps the order.
* `exists_units_eq` — numbers of up to 53 bits are doubles.
-/

namespace TreeJit.Double

variable {x y : Double} {m : ℚ} {negative : Bool}

theorem unit_pos : (0 : ℚ) < unitsPerOne := by exact_mod_cast unitsPerOne_pos

theorem not_isNaN_of_isFinite (finite : x.isFinite) : x.isNaN = false :=
  decide_eq_false (Nat.lt_asymm (of_decide_eq_true finite))

theorem isFinite_of_isZero (zero : x.isZero) : x.isFinite := by
  have pattern : x.pattern = 0 := of_decide_eq_true zero
  rw [isFinite, pattern]
  decide

theorem not_isInfinite_of_isFinite (finite : x.isFinite) : x.isInfinite = false :=
  decide_eq_false (Nat.ne_of_lt (of_decide_eq_true finite))

/-! ## Doubles as their own rounding -/

theorem RoundsTo.self (pattern : Nat) : RoundsTo (unitsOf pattern) 1 pattern := by
  constructor
  · have next : unitsOf pattern < unitsOf (pattern + 1) := unitsOf_strictMono (Nat.lt_succ_self _)
    omega
  · rintro before rfl
    have next : unitsOf before < unitsOf (before + 1) := unitsOf_strictMono (Nat.lt_succ_self _)
    omega

theorem isNearest_self (finite : x.isFinite) : IsNearest x.negative x.magnitude x := by
  have small : x.pattern < infinityPattern := of_decide_eq_true finite
  have nearest := (RoundsTo.self x.pattern).isNearest Nat.one_pos x.negative
  rwa [Nat.min_eq_left small.le, ofPattern_negative_pattern, Nat.cast_one, div_one] at nearest

theorem magnitude_lt_overflowBound (finite : x.isFinite) : x.magnitude < overflowBound := by
  by_contra large
  have infinite := (isNearest_self finite).infinite (not_lt.1 large)
  rw [not_isInfinite_of_isFinite finite] at infinite
  cases infinite

theorem magnitude_nonneg (x : Double) : 0 ≤ x.magnitude :=
  div_nonneg (Nat.cast_nonneg _) unit_pos.le

theorem magnitude_mul_unit (x : Double) : x.magnitude * unitsPerOne = x.units :=
  div_mul_cancel₀ _ unit_pos.ne'

theorem eq_of_magnitude_eq (sign : x.negative = y.negative) (same : x.magnitude = y.magnitude) :
    x = y := by
  have pattern : x.pattern = y.pattern := by
    by_contra ne
    rcases Nat.lt_or_gt_of_ne ne with less | greater
    · exact (magnitude_lt less).ne same
    · exact (magnitude_lt greater).ne same.symm
  rw [← ofPattern_negative_pattern x, ← ofPattern_negative_pattern y, pattern, sign]

theorem magnitude_eq_zero_iff : x.magnitude = 0 ↔ x.isZero := by
  have zero : (ofPattern x.negative 0).magnitude = 0 := by
    simp [magnitude, units, pattern_ofPattern, unitsOf]
  constructor
  · intro none
    have same := eq_of_magnitude_eq (pattern_ofPattern x.negative (Nat.zero_le _)).2.symm
      (none.trans zero.symm)
    rw [same, isZero, (pattern_ofPattern x.negative (Nat.zero_le _)).1]
    rfl
  · intro isZero
    have pattern : x.pattern = 0 := of_decide_eq_true isZero
    rw [← zero, ← pattern, ofPattern_negative_pattern]

/-- Different magnitudes are at least one unit apart. -/
theorem unit_le_distance (ne : x.pattern ≠ y.pattern) :
    1 / unitsPerOne ≤ |x.magnitude - y.magnitude| := by
  have apart {a b : Nat} (less : a < b) : (1 : ℚ) ≤ |(a : ℚ) - b| := by
    rw [abs_sub_comm, le_abs]
    left
    have : (a : ℚ) + 1 ≤ b := by exact_mod_cast less
    linarith
  rw [magnitude, magnitude, ← sub_div, abs_div, abs_of_pos unit_pos,
    div_le_div_iff_of_pos_right unit_pos]
  rcases Nat.lt_or_gt_of_ne ne with less | greater
  · exact apart (unitsOf_strictMono less)
  · rw [abs_sub_comm]
    exact apart (unitsOf_strictMono greater)

/-- What is less than half a unit away from a double is rounded to it. -/
theorem isNearest_of_close (finite : x.isFinite) (small : m < overflowBound)
    (close : |m - x.magnitude| < 1 / (2 * unitsPerOne)) : IsNearest x.negative m x := by
  have closer (y : Double) (ne : y.pattern ≠ x.pattern) :
      |m - x.magnitude| < |m - y.magnitude| := by
    have apart := unit_le_distance ne
    have sides := abs_sub_le y.magnitude m x.magnitude
    rw [abs_sub_comm y.magnitude m] at sides
    have half : (1 : ℚ) / unitsPerOne = 1 / (2 * unitsPerOne) + 1 / (2 * unitsPerOne) := by
      have := unit_pos
      field_simp
      norm_num
    linarith
  refine ⟨rfl, fun large => absurd small (not_lt.2 large), fun _ => finite, fun _ y _ => ?_,
    fun _ y _ ne same => ?_⟩
  · by_cases pattern : y.pattern = x.pattern
    · rw [magnitude, magnitude, units, units, pattern]
    · exact (closer y pattern).le
  · have pattern : y.pattern ≠ x.pattern := by
      intro pattern
      exact ne (by rw [magnitude, magnitude, units, units, pattern])
    exact absurd same (closer y pattern).ne

/-! ## What is rounded to a double -/

/-- The next step is one unit, or a small part of the double. -/
theorem unitsOf_succ_le (pattern : Nat) : unitsOf (pattern + 1) = unitsOf pattern + 1 ∨
    fractions * unitsOf (pattern + 1) ≤ (fractions + 1) * unitsOf pattern := by
  obtain ⟨shift, n, rfl, low, high⟩ := exists_step pattern
  rw [Nat.add_assoc, unitsOf_eq low (by omega), unitsOf_eq (by omega) (by omega)]
  rcases low with rfl | large
  · left
    simp
  · right
    rw [← Nat.mul_assoc, ← Nat.mul_assoc]
    exact Nat.mul_le_mul_right _ (by linarith)

theorem IsNearest.roundsTo {num den : Nat} (positive : 0 < den)
    (nearest : IsNearest negative (num / den / unitsPerOne) x) (finite : x.isFinite) :
    RoundsTo num den x.pattern := by
  have rounds := unboundedPattern_roundsTo num positive
  have same := nearest.unique (round_isNearest negative num positive)
  have pattern : x.pattern = min (unboundedPattern num den) infinityPattern := by
    rw [same, round, roundPattern_eq, (pattern_ofPattern negative (Nat.min_le_right _ _)).1]
  have small : x.pattern < infinityPattern := of_decide_eq_true finite
  have kept : x.pattern = unboundedPattern num den := by omega
  rw [kept]
  exact rounds

/-- A quotient is rounded to something within half a step. -/
theorem RoundsTo.distance_le {num den pattern : Nat} (positive : 0 < den)
    (rounds : RoundsTo num den pattern) :
    |(num / den : ℚ) - unitsOf pattern| ≤ max (1 / 2 : ℚ) (unitsOf pattern / 2 ^ 53) := by
  have quotient : (0 : ℚ) ≤ num / den := div_nonneg (Nat.cast_nonneg _) (Nat.cast_nonneg _)
  have power : (2 : ℚ) ^ 53 = 2 * fractions := by
    rw [show fractions = 2 ^ 52 from rfl]
    norm_num
  have fractions : (0 : ℚ) < fractions := by exact_mod_cast fractions_pos
  -- Half the step from a pattern to the next one, as seen from a pattern that is no smaller.
  have half (p q : Nat) (le : p ≤ q) :
      ((unitsOf (p + 1) : ℚ) - unitsOf p) / 2 ≤ max (1 / 2 : ℚ) (unitsOf q / 2 ^ 53) := by
    rw [le_max_iff]
    rcases unitsOf_succ_le p with next | next
    · left
      rw [next]
      push_cast
      linarith
    · right
      have order : (unitsOf p : ℚ) ≤ unitsOf q := by
        exact_mod_cast unitsOf_strictMono.monotone le
      have next : (Double.fractions : ℚ) * unitsOf (p + 1) ≤
          (Double.fractions + 1) * unitsOf p := by exact_mod_cast next
      rw [power, le_div_iff₀ (by positivity)]
      linarith
  rw [abs_sub_le_iff]
  constructor
  · have above : 2 * (num / den : ℚ) ≤ unitsOf pattern + unitsOf (pattern + 1) := by
      rcases rounds.above with past | ⟨middle, -⟩
      · exact_mod_cast (two_mul_quotient_lt positive past).le
      · exact_mod_cast (two_mul_quotient_eq positive middle).le
    linarith [half pattern pattern le_rfl]
  · cases pattern with
    | zero =>
      have none : unitsOf 0 = 0 := rfl
      rw [none, Nat.cast_zero, zero_sub, le_max_iff]
      left
      linarith
    | succ before =>
      have below : (unitsOf before + unitsOf (before + 1) : ℚ) ≤ 2 * (num / den : ℚ) := by
        rcases rounds.below before rfl with past | ⟨middle, -⟩
        · exact_mod_cast (lt_two_mul_quotient positive past).le
        · exact_mod_cast (two_mul_quotient_eq positive middle.symm).ge
      linarith [half before (before + 1) (Nat.le_succ before)]

/-- What is rounded to a double is half a unit away from it at most, or a small part of it. -/
theorem IsNearest.distance_le (nearest : IsNearest negative m x) (finite : x.isFinite)
    (nonneg : 0 ≤ m) :
    |m - x.magnitude| ≤ max (1 / (2 * unitsPerOne) : ℚ) (x.magnitude / 2 ^ 53) := by
  have unit := unit_pos
  obtain ⟨num, whole⟩ := Int.eq_ofNat_of_zero_le
    (Rat.num_nonneg.2 (mul_nonneg nonneg unit.le) : 0 ≤ (m * unitsPerOne).num)
  have quotient : (num / (m * unitsPerOne).den : ℚ) = m * unitsPerOne := by
    have split := (m * unitsPerOne).num_div_den
    rwa [whole] at split
  have value : m = num / (m * unitsPerOne).den / unitsPerOne := by
    rw [quotient, mul_div_cancel_right₀ _ unit.ne']
  rw [value] at nearest
  have distance := (nearest.roundsTo (Rat.den_pos _) finite).distance_le (Rat.den_pos _)
  rw [quotient, ← units] at distance
  have scaled : m - x.magnitude = (m * unitsPerOne - x.units) / unitsPerOne := by
    rw [sub_div, mul_div_cancel_right₀ _ unit.ne', magnitude]
  have half : 1 / (2 * unitsPerOne) * unitsPerOne = (1 / 2 : ℚ) := by field_simp
  have part : x.magnitude / 2 ^ 53 * unitsPerOne = x.units / 2 ^ 53 := by
    rw [div_mul_eq_mul_div, magnitude_mul_unit]
  rw [scaled, abs_div, abs_of_pos unit, div_le_iff₀ unit, max_mul_of_nonneg _ _ unit.le, half, part]
  exact distance

/-- Rounding keeps the order. -/
theorem RoundsTo.mono {num num' den pattern pattern' : Nat} (positive : 0 < den)
    (le : num ≤ num') (rounds : RoundsTo num den pattern) (rounds' : RoundsTo num' den pattern') :
    pattern ≤ pattern' := by
  by_contra greater
  obtain ⟨before, rfl⟩ : ∃ before, pattern = before + 1 := ⟨pattern - 1, by omega⟩
  have below := rounds.below before rfl
  have above := rounds'.above
  rcases Nat.lt_or_eq_of_le (show pattern' ≤ before by omega) with less | rfl
  · have order : unitsOf pattern' + unitsOf (pattern' + 1) < unitsOf before + unitsOf (before + 1) :=
      Nat.add_lt_add (unitsOf_strictMono less) (unitsOf_strictMono (by omega))
    have := Nat.mul_lt_mul_of_pos_right order positive
    omega
  -- Both quotients would be the middle between two patterns that are both even.
  · omega

/-! ## Numbers that are doubles -/

theorem exists_unitsOf_eq (shift : Nat) {n : Nat} (few : n ≤ 2 * fractions) :
    ∃ pattern ≤ (shift + 2) * fractions, unitsOf pattern = n * 2 ^ shift := by
  induction shift generalizing n with
  | zero =>
    have value : unitsOf (0 * fractions + n) = n * 2 ^ 0 := unitsOf_eq (.inl rfl) few
    exact ⟨n, by omega, by simpa using value⟩
  | succ shift ih =>
    rcases Nat.lt_or_ge n fractions with short | long
    · obtain ⟨pattern, bound, value⟩ := ih (n := 2 * n) (by omega)
      refine ⟨pattern, bound.trans (Nat.mul_le_mul_right _ (by omega)), ?_⟩
      rw [value]
      ring
    · refine ⟨(shift + 1) * fractions + n, ?_, unitsOf_eq (.inr long) few⟩
      rw [show (shift + 1 + 2) * fractions = (shift + 1) * fractions + 2 * fractions by ring]
      omega

/-- Numbers of up to 53 bits are doubles, as long as they are not too large. -/
theorem exists_units_eq (negative : Bool) {shift n : Nat} (near : shift < 2045)
    (few : n ≤ 2 * fractions) :
    ∃ x : Double, x.isFinite ∧ x.negative = negative ∧ x.units = n * 2 ^ shift := by
  obtain ⟨pattern, bound, value⟩ := exists_unitsOf_eq shift few
  have small : pattern < infinityPattern := by
    calc pattern ≤ (shift + 2) * fractions := bound
      _ < 0x7FF * fractions := Nat.mul_lt_mul_of_pos_right (by omega) fractions_pos
  obtain ⟨held, sign⟩ := pattern_ofPattern negative small.le
  refine ⟨ofPattern negative pattern, ?_, sign, ?_⟩
  · rw [isFinite, held]
    exact decide_eq_true small
  · rw [units, held, value]

/-! ## Whole numbers -/

theorem isIntegral_iff : x.isIntegral ↔ x.isFinite ∧ ∃ n : Nat, x.magnitude = n := by
  have whole : x.units % unitsPerOne = 0 ↔ ∃ n : Nat, x.magnitude = n := by
    simp only [magnitude, div_eq_iff unit_pos.ne']
    constructor
    · intro none
      have count := (Nat.div_mul_cancel (Nat.dvd_of_mod_eq_zero none)).symm
      exact ⟨x.units / unitsPerOne, by exact_mod_cast count⟩
    · rintro ⟨n, value⟩
      have value : x.units = n * unitsPerOne := by exact_mod_cast value
      rw [value, Nat.mul_mod_left]
  rw [isIntegral, Bool.and_eq_true, decide_eq_true_eq, whole]

end TreeJit.Double
