import Mathlib.Algebra.Order.Field.Rat
import Mathlib.Order.Monotone.Basic
import Mathlib.Tactic.FieldSimp
import Mathlib.Tactic.Linarith
import Mathlib.Tactic.Positivity
import Mathlib.Tactic.Ring
import TreeJit.Decimal.Numeral

/-! # Correct rounding

Doubles are rounded by exact arithmetic on patterns, and this is correct rounding
of rational numbers: to the nearest double, a tie to the one whose fraction ends
in a zero bit, and to infinity from half a step behind the largest one on.

* `Double.unitsOf_eq` — patterns count the steps of a grid whose step doubles again
  and again.  It has no end, so infinity is a step like any other.
* `Double.RoundsTo` — the two half-way points around a pattern.  All that is said
  of rounding is said of them.
* `Double.IsNearest` — correct rounding, which leaves no choice
  (`Double.IsNearest.unique`).
* `Double.ofDecimal_isNearest` — decimals are rounded correctly.
-/

namespace TreeJit

/-! ## The grid of patterns -/

/-- A quotient lies within a half of its rounding, and only an even number is as far as that. -/
theorem roundDiv_near (num : Nat) {den : Nat} (positive : 0 < den) :
    (2 * num < (2 * roundDiv num den + 1) * den ∨
      2 * num = (2 * roundDiv num den + 1) * den ∧ roundDiv num den % 2 = 0) ∧
    (2 * roundDiv num den * den < 2 * num + den ∨
      2 * roundDiv num den * den = 2 * num + den ∧ roundDiv num den % 2 = 0) := by
  have split := Nat.div_add_mod' num den
  have rest := Nat.mod_lt num positive
  have expand (n : Nat) :
      (2 * n + 1) * den = 2 * (n * den) + den ∧ 2 * n * den = 2 * (n * den) := by
    constructor <;> ring
  have next : (num / den + 1) * den = num / den * den + den := by ring
  rw [(expand _).1, (expand _).2]
  unfold roundDiv
  dsimp only
  split
  · omega
  · rw [next]
    omega

namespace Double

theorem fractions_pos : 0 < fractions := by decide

/-- Patterns count the steps of a grid that doubles its step after every `fractions` of them. -/
theorem unitsOf_eq {shift n : Nat} (low : shift = 0 ∨ fractions ≤ n) (high : n ≤ 2 * fractions) :
    unitsOf (shift * fractions + n) = n * 2 ^ shift := by
  have positive := fractions_pos
  have normal (e f : Nat) (small : f < fractions) :
      unitsOf ((e + 1) * fractions + f) = (fractions + f) * 2 ^ e := by
    have quotient : ((e + 1) * fractions + f) / fractions = e + 1 := by
      rw [Nat.mul_comm, Nat.mul_add_div positive, Nat.div_eq_of_lt small, Nat.add_zero]
    have remainder : ((e + 1) * fractions + f) % fractions = f := by
      rw [Nat.mul_comm, Nat.mul_add_mod, Nat.mod_eq_of_lt small]
    simp [unitsOf, quotient, remainder, Nat.shiftLeft_eq]
  rcases Nat.lt_or_ge n fractions with subnormal | large
  · have zero : shift = 0 := by omega
    subst zero
    simp [unitsOf, Nat.div_eq_of_lt subnormal, Nat.mod_eq_of_lt subnormal]
  · rcases Nat.lt_or_ge n (2 * fractions) with below | top
    · have place : shift * fractions + n = (shift + 1) * fractions + (n - fractions) := by
        rw [Nat.succ_mul]
        omega
      have whole : fractions + (n - fractions) = n := by omega
      rw [place, normal _ _ (by omega), whole]
    · have place : shift * fractions + n = (shift + 1 + 1) * fractions + 0 := by
        rw [Nat.succ_mul, Nat.succ_mul]
        omega
      have full : n = 2 * fractions := by omega
      rw [place, normal _ _ positive, full]
      ring

/-- Every pattern is a step of the grid, and the next one is the next step. -/
theorem exists_step (pattern : Nat) : ∃ shift n, pattern = shift * fractions + n ∧
    (shift = 0 ∨ fractions ≤ n) ∧ n < 2 * fractions := by
  have split := Nat.div_add_mod' pattern fractions
  have rest := Nat.mod_lt pattern fractions_pos
  cases exponent : pattern / fractions with
  | zero =>
    rw [exponent] at split
    exact ⟨0, pattern, by omega, .inl rfl, by omega⟩
  | succ e =>
    rw [exponent, Nat.succ_mul] at split
    exact ⟨e, fractions + pattern % fractions, by omega, .inr (by omega), by omega⟩

theorem unitsOf_strictMono : StrictMono unitsOf := by
  apply strictMono_nat_of_lt_succ
  intro pattern
  obtain ⟨shift, n, rfl, low, high⟩ := exists_step pattern
  rw [Nat.add_assoc, unitsOf_eq low (by omega), unitsOf_eq (by omega) (by omega)]
  exact Nat.mul_lt_mul_of_pos_right (Nat.lt_succ_self n) (Nat.two_pow_pos shift)

/-- One more step of the same size, or behind the last one a step of twice the size. -/
theorem unitsOf_succ {shift n : Nat} (low : shift = 0 ∨ fractions ≤ n) (high : n ≤ 2 * fractions) :
    unitsOf (shift * fractions + n + 1) = (n + 1) * 2 ^ shift ∨
      unitsOf (shift * fractions + n + 1) = (n + 2) * 2 ^ shift := by
  have positive := fractions_pos
  rcases Nat.lt_or_ge n (2 * fractions) with below | top
  · left
    rw [Nat.add_assoc]
    exact unitsOf_eq (by omega) below
  · right
    have full : n = 2 * fractions := by omega
    have place : shift * fractions + n + 1 = (shift + 1) * fractions + (fractions + 1) := by
      rw [full]
      ring
    rw [place, unitsOf_eq (by omega) (by omega), full]
    ring

/-- One step of the same size less, or before the first one a step of half the size. -/
theorem unitsOf_pred {shift n before : Nat} (low : shift = 0 ∨ fractions ≤ n)
    (high : n ≤ 2 * fractions) (place : shift * fractions + n = before + 1) :
    unitsOf before + 2 ^ shift = n * 2 ^ shift ∨
      2 * unitsOf before + 2 ^ shift = 2 * (n * 2 ^ shift) ∧ shift ≠ 0 ∧ n = fractions := by
  by_cases same : shift = 0 ∨ fractions < n
  · left
    obtain ⟨k, rfl⟩ : ∃ k, n = k + 1 := by
      refine ⟨n - 1, ?_⟩
      rcases same with rfl | large <;> omega
    rw [show before = shift * fractions + k by omega, unitsOf_eq (by omega) (by omega),
      Nat.succ_mul]
  · right
    obtain ⟨k, rfl⟩ : ∃ k, shift = k + 1 := ⟨shift - 1, by omega⟩
    obtain ⟨f, width⟩ : ∃ f, fractions = f + 1 := ⟨0xFFFFFFFFFFFFF, rfl⟩
    have first : n = fractions := by omega
    have place' : before = k * fractions + (fractions + f) := by
      rw [first, Nat.succ_mul] at place
      omega
    refine ⟨?_, Nat.succ_ne_zero k, first⟩
    rw [place', unitsOf_eq (by omega) (by omega), first, width]
    ring

/-! ## Rounding on the grid -/

/-- `RoundsTo num den pattern`: `num / den` units lie between the points half-way from the pattern
to its two neighbours.  Only an even pattern takes in these points. -/
structure RoundsTo (num den pattern : Nat) : Prop where
  above : 2 * num < (unitsOf pattern + unitsOf (pattern + 1)) * den ∨
    2 * num = (unitsOf pattern + unitsOf (pattern + 1)) * den ∧ pattern % 2 = 0
  below : ∀ before, pattern = before + 1 →
    (unitsOf before + unitsOf pattern) * den < 2 * num ∨
      (unitsOf before + unitsOf pattern) * den = 2 * num ∧ pattern % 2 = 0

/-- The pattern that a quotient would be rounded to if there were no largest exponent. -/
def unboundedPattern (num den : Nat) : Nat :=
  let shift := (num / den).log2 - 52
  shift * fractions + roundDiv num (den <<< shift)

theorem roundPattern_eq (num den : Nat) :
    roundPattern num den = min (unboundedPattern num den) infinityPattern := rfl

theorem mod_two_step (shift n : Nat) : (shift * fractions + n) % 2 = n % 2 := by
  have even : shift * fractions = 2 * (shift * 0x8000000000000) := by
    rw [show fractions = 2 * 0x8000000000000 from rfl]
    ring
  omega

/-- A whole number of steps, at most `2 * fractions` of them, and at least `fractions` unless the
step is one unit. -/
theorem RoundsTo.of_step {num den shift n : Nat} (positive : 0 < den)
    (near : (2 * num < (2 * n + 1) * (den * 2 ^ shift) ∨
        2 * num = (2 * n + 1) * (den * 2 ^ shift) ∧ n % 2 = 0) ∧
      (2 * n * (den * 2 ^ shift) < 2 * num + den * 2 ^ shift ∨
        2 * n * (den * 2 ^ shift) = 2 * num + den * 2 ^ shift ∧ n % 2 = 0))
    (low : shift = 0 ∨ fractions ≤ n ∧ fractions * (den * 2 ^ shift) ≤ num)
    (high : n ≤ 2 * fractions) : RoundsTo num den (shift * fractions + n) := by
  have low' : shift = 0 ∨ fractions ≤ n := low.imp_right And.left
  have step : 0 < den * 2 ^ shift := Nat.mul_pos positive (Nat.two_pow_pos shift)
  constructor
  · rw [unitsOf_eq low' high, mod_two_step]
    rcases unitsOf_succ low' high with next | next
    · have sum : (n * 2 ^ shift + (n + 1) * 2 ^ shift) * den =
          (2 * n + 1) * (den * 2 ^ shift) := by ring
      rw [next, sum]
      exact near.1
    · have sum : (n * 2 ^ shift + (n + 2) * 2 ^ shift) * den =
          (2 * n + 1) * (den * 2 ^ shift) + den * 2 ^ shift := by ring
      rw [next, sum]
      left
      omega
  · intro before place
    rw [unitsOf_eq low' high, mod_two_step]
    rcases unitsOf_pred low' high place with previous | ⟨previous, nonzero, first⟩
    · have sum : (unitsOf before + n * 2 ^ shift) * den + den * 2 ^ shift =
          2 * n * (den * 2 ^ shift) := by
        calc (unitsOf before + n * 2 ^ shift) * den + den * 2 ^ shift
            = (unitsOf before + 2 ^ shift + n * 2 ^ shift) * den := by ring
          _ = 2 * n * (den * 2 ^ shift) := by rw [previous]; ring
      omega
    -- The quotient reaches the pattern itself, so it lies beyond the point before it.
    · have large := (low.resolve_left nonzero).2
      rw [← first] at large
      have sum : 2 * ((unitsOf before + n * 2 ^ shift) * den) + den * 2 ^ shift =
          4 * (n * (den * 2 ^ shift)) := by
        calc 2 * ((unitsOf before + n * 2 ^ shift) * den) + den * 2 ^ shift
            = (2 * unitsOf before + 2 ^ shift + 2 * (n * 2 ^ shift)) * den := by ring
          _ = 4 * (n * (den * 2 ^ shift)) := by rw [previous]; ring
      left
      omega

theorem unboundedPattern_roundsTo (num : Nat) {den : Nat} (positive : 0 < den) :
    RoundsTo num den (unboundedPattern num den) := by
  simp only [unboundedPattern, Nat.shiftLeft_eq]
  generalize scaled : (num / den).log2 - 52 = shift
  have step : 0 < den * 2 ^ shift := Nat.mul_pos positive (Nat.two_pow_pos shift)
  have near := roundDiv_near num step
  have power : 2 ^ 52 = fractions := rfl
  -- The quotient has at most 53 bits before the step is taken into account, and just 53 if the
  -- step is more than one unit.
  have high : num < 2 * fractions * (den * 2 ^ shift) := by
    have bits : num / den < 2 ^ (shift + 53) :=
      Nat.lt_of_lt_of_le Nat.lt_log2_self (Nat.pow_le_pow_right (by decide) (by omega))
    rw [Nat.div_lt_iff_lt_mul positive] at bits
    rw [← power]
    convert bits using 1
    ring
  have low : shift = 0 ∨ fractions * (den * 2 ^ shift) ≤ num := by
    rcases Nat.eq_zero_or_pos shift with zero | nonzero
    · exact .inl zero
    · right
      have bits : (num / den).log2 = 52 + shift := by omega
      have some : num / den ≠ 0 := by
        intro none
        rw [none, Nat.log2_zero] at bits
        omega
      have least := Nat.log2_self_le some
      rw [bits, Nat.le_div_iff_mul_le positive, Nat.pow_add, power] at least
      convert least using 1
      ring
  generalize roundDiv num (den * 2 ^ shift) = n at near ⊢
  apply RoundsTo.of_step positive near
  all_goals generalize den * 2 ^ shift = size at near step high low ⊢
  · refine low.imp_right fun low => ⟨?_, low⟩
    have : 2 * fractions * size ≤ (2 * n + 1) * size := by
      rw [Nat.mul_assoc]
      omega
    have := Nat.le_of_mul_le_mul_right this step
    omega
  · have : 2 * n * size < (4 * fractions + 1) * size := by
      have : (4 * fractions + 1) * size = 2 * (2 * fractions * size) + size := by ring
      omega
    have := Nat.lt_of_mul_lt_mul_right this
    omega

/-! ## The nearest double -/

theorem pattern_ofPattern (negative : Bool) {pattern : Nat} (small : pattern ≤ infinityPattern) :
    (ofPattern negative pattern).pattern = pattern ∧
      (ofPattern negative pattern).negative = negative := by
  have bound : infinityPattern < signBit := by decide
  have double : signBit + signBit = 2 ^ 64 := by decide
  have bits : (ofPattern negative pattern).bits.toNat =
      (if negative then signBit else 0) + pattern := by
    rw [ofPattern, UInt64.toNat_ofNat']
    apply Nat.mod_eq_of_lt
    split <;> omega
  have below : pattern < signBit := Nat.lt_of_le_of_lt small bound
  rw [Double.pattern, Double.negative, bits]
  cases negative with
  | false => simp [Nat.mod_eq_of_lt below, below]
  | true => simp [Nat.mod_eq_of_lt below]

/-- The magnitude of a finite number. -/
def magnitude (x : Double) : ℚ := x.units / unitsPerOne

/-- The point half-way between the largest finite double, `(2^53 - 1) * 2^971`, and the power of two
behind it. -/
def overflowBound : ℚ := (2 ^ 54 - 1) * 2 ^ 970

/-- `IsNearest negative m x`: `x` is the number with magnitude `m` and the given sign, correctly
rounded.  It is infinite from `overflowBound` on; below, no finite double is closer, and if another
one is as close, the fraction of `x` ends in a zero bit. -/
structure IsNearest (negative : Bool) (m : ℚ) (x : Double) : Prop where
  sign : x.negative = negative
  infinite : overflowBound ≤ m → x.isInfinite
  finite : m < overflowBound → x.isFinite
  nearest : m < overflowBound → ∀ y : Double, y.isFinite →
    |m - x.magnitude| ≤ |m - y.magnitude|
  even : m < overflowBound → ∀ y : Double, y.isFinite → y.magnitude ≠ x.magnitude →
    |m - x.magnitude| = |m - y.magnitude| → x.pattern % 2 = 0

/-- Which of two numbers is closer depends on the side of their middle. -/
theorem closer_of_lt {w a b : ℚ} (lt : a < b) :
    (a + b < 2 * w → |w - b| < |w - a|) ∧ (2 * w < a + b → |w - a| < |w - b|) ∧
      (2 * w = a + b → |w - a| = |w - b|) := by
  refine ⟨fun h => ?_, fun h => ?_, fun h => ?_⟩
  · rw [abs_lt, abs_of_pos (by linarith : (0 : ℚ) < w - a)]
    constructor <;> linarith
  · rw [abs_lt, abs_of_neg (by linarith : w - b < 0)]
    constructor <;> linarith
  · rw [show w - a = -(w - b) by linarith, abs_neg]

section quotient

variable {num den : Nat} (positive : 0 < den)

include positive

theorem two_mul_quotient_lt {sum : Nat} (h : 2 * num < sum * den) :
    2 * (num / den : ℚ) < sum := by
  rw [← mul_div_assoc, div_lt_iff₀ (by exact_mod_cast positive)]
  exact_mod_cast h

theorem lt_two_mul_quotient {sum : Nat} (h : sum * den < 2 * num) :
    (sum : ℚ) < 2 * (num / den : ℚ) := by
  rw [← mul_div_assoc, lt_div_iff₀ (by exact_mod_cast positive)]
  exact_mod_cast h

theorem two_mul_quotient_eq {sum : Nat} (h : 2 * num = sum * den) :
    2 * (num / den : ℚ) = sum := by
  rw [← mul_div_assoc, div_eq_iff (by exact_mod_cast positive.ne')]
  exact_mod_cast h

/-- What is rounded to a pattern is closer to it than to any other one, or as close to both and the
pattern is even. -/
theorem RoundsTo.closer {pattern other : Nat} (rounds : RoundsTo num den pattern)
    (ne : other ≠ pattern) :
    |(num / den : ℚ) - unitsOf pattern| < |(num / den : ℚ) - unitsOf other| ∨
      |(num / den : ℚ) - unitsOf pattern| = |(num / den : ℚ) - unitsOf other| ∧
        pattern % 2 = 0 := by
  have grid {p q : Nat} (lt : p < q) : (unitsOf p : ℚ) < unitsOf q := by
    exact_mod_cast unitsOf_strictMono lt
  rcases Nat.lt_or_gt_of_ne ne with less | greater
  · obtain ⟨before, rfl⟩ : ∃ before, pattern = before + 1 := ⟨pattern - 1, by omega⟩
    have order := grid less
    rcases rounds.below before rfl with past | ⟨middle, even⟩
    · have past := lt_two_mul_quotient positive past
      push_cast at past
      have : (unitsOf other : ℚ) ≤ unitsOf before := by
        exact_mod_cast unitsOf_strictMono.monotone (Nat.le_of_lt_succ less)
      exact .inl ((closer_of_lt order).1 (by linarith))
    · have middle := two_mul_quotient_eq positive middle.symm
      push_cast at middle
      rcases Nat.lt_or_eq_of_le (Nat.le_of_lt_succ less) with further | rfl
      · have := grid further
        exact .inl ((closer_of_lt order).1 (by linarith))
      · exact .inr ⟨((closer_of_lt order).2.2 middle).symm, even⟩
  · have order := grid greater
    rcases rounds.above with past | ⟨middle, even⟩
    · have past := two_mul_quotient_lt positive past
      push_cast at past
      have : (unitsOf (pattern + 1) : ℚ) ≤ unitsOf other := by
        exact_mod_cast unitsOf_strictMono.monotone greater
      exact .inl ((closer_of_lt order).2.1 (by linarith))
    · have middle := two_mul_quotient_eq positive middle
      push_cast at middle
      rcases Nat.lt_or_eq_of_le (Nat.succ_le_of_lt greater) with further | rfl
      · have := grid further
        exact .inl ((closer_of_lt order).2.1 (by linarith))
      · exact .inr ⟨(closer_of_lt order).2.2 middle, even⟩

end quotient

/-! ### Overflow -/

theorem units_around_overflow : ∃ last, infinityPattern = last + 1 ∧ last % 2 = 1 ∧
    unitsOf last + unitsOf infinityPattern = (2 ^ 54 - 1) * 2 ^ 2045 := by
  refine ⟨2045 * fractions + (2 * fractions - 1), by decide, by decide, ?_⟩
  have top : infinityPattern = 2045 * fractions + 2 * fractions := by decide
  have count : 2 * fractions - 1 + 2 * fractions = 2 ^ 54 - 1 := by decide
  rw [top, unitsOf_eq (.inr (by decide)) (by decide), unitsOf_eq (.inr (by decide)) (by decide),
    ← Nat.add_mul, count]

theorem unitsPerOne_pos : 0 < unitsPerOne := by
  simp only [unitsPerOne, Nat.one_shiftLeft, Nat.two_pow_pos]

theorem unitsPerOne_eq : (unitsPerOne : ℚ) = 2 ^ 1074 := by
  simp only [unitsPerOne, Nat.one_shiftLeft, Nat.cast_pow, Nat.cast_ofNat]

theorem two_mul_overflowBound :
    2 * (overflowBound * unitsPerOne) = ((2 ^ 54 - 1) * 2 ^ 2045 : Nat) := by
  have powers : (2 : ℚ) ^ 2045 = 2 * 2 ^ 970 * 2 ^ 1074 := by
    rw [← pow_succ', ← pow_add]
  rw [overflowBound, unitsPerOne_eq, Nat.cast_mul, Nat.cast_pow, Nat.cast_ofNat, powers]
  generalize (2 : ℚ) ^ 970 = a
  generalize (2 : ℚ) ^ 1074 = b
  norm_num
  ring

theorem RoundsTo.lt_overflowBound_iff {num den pattern : Nat} (positive : 0 < den)
    (rounds : RoundsTo num den pattern) :
    (num / den / unitsPerOne : ℚ) < overflowBound ↔ pattern < infinityPattern := by
  obtain ⟨last, top, odd, sum⟩ := units_around_overflow
  have unit : (0 : ℚ) < unitsPerOne := by exact_mod_cast unitsPerOne_pos
  have scaled := two_mul_overflowBound
  rw [← sum] at scaled
  have monotone := unitsOf_strictMono.monotone
  rw [div_lt_iff₀ unit]
  constructor
  · intro small
    by_contra large
    obtain ⟨before, rfl⟩ : ∃ before, pattern = before + 1 := ⟨pattern - 1, by omega⟩
    have least : (unitsOf last + unitsOf infinityPattern) * den ≤
        (unitsOf before + unitsOf (before + 1)) * den :=
      Nat.mul_le_mul_right den (Nat.add_le_add (monotone (by omega)) (monotone (by omega)))
    have most : 2 * num < (unitsOf last + unitsOf infinityPattern) * den := by
      have : 2 * (num / den : ℚ) < (unitsOf last + unitsOf infinityPattern : Nat) := by linarith
      rw [← mul_div_assoc, div_lt_iff₀ (by exact_mod_cast positive)] at this
      exact_mod_cast this
    rcases rounds.below before rfl with past | ⟨middle, -⟩ <;> omega
  · intro small
    have most : 2 * num < (unitsOf last + unitsOf infinityPattern) * den := by
      rcases Nat.lt_or_eq_of_le (Nat.le_of_lt_succ (top ▸ small)) with less | rfl
      · have less' : unitsOf pattern + unitsOf (pattern + 1) <
            unitsOf last + unitsOf infinityPattern :=
          Nat.add_lt_add_of_lt_of_le (unitsOf_strictMono less) (monotone (by omega))
        have := Nat.mul_lt_mul_of_pos_right less' positive
        rcases rounds.above with past | ⟨middle, -⟩ <;> omega
      · rw [top]
        rcases rounds.above with past | ⟨-, even⟩
        · exact past
        · omega
    have := two_mul_quotient_lt positive most
    linarith

theorem distance_scaled (m : ℚ) (u : Nat) :
    |m / unitsPerOne - u / unitsPerOne| = |m - u| / (unitsPerOne : ℚ) := by
  have unit : (0 : ℚ) < unitsPerOne := by exact_mod_cast unitsPerOne_pos
  rw [← sub_div, abs_div, abs_of_pos unit]

/-- Rounding on the grid of patterns, cut off at infinity, is correct rounding. -/
theorem RoundsTo.isNearest {num den pattern : Nat} (positive : 0 < den)
    (rounds : RoundsTo num den pattern) (negative : Bool) :
    IsNearest negative (num / den / unitsPerOne)
      (ofPattern negative (min pattern infinityPattern)) := by
  have unit : (0 : ℚ) < unitsPerOne := by exact_mod_cast unitsPerOne_pos
  have bound := rounds.lt_overflowBound_iff positive
  obtain ⟨held, sign⟩ := pattern_ofPattern negative (Nat.min_le_right pattern infinityPattern)
  have kept (small : (num / den / unitsPerOne : ℚ) < overflowBound) :
      (ofPattern negative (min pattern infinityPattern)).pattern = pattern := by
    rw [held]
    exact Nat.min_eq_left (Nat.le_of_lt (bound.1 small))
  refine ⟨sign, fun large => ?_, fun small => ?_, fun small y finite => ?_,
    fun small y finite ne same => ?_⟩
  · have beyond := mt bound.2 (not_lt.2 large)
    rw [isInfinite, held, Nat.min_eq_right (Nat.le_of_not_lt beyond)]
    simp
  · rw [isFinite, kept small]
    simpa using bound.1 small
  · simp only [magnitude, units, kept small, distance_scaled]
    by_cases same : y.pattern = pattern
    · rw [same]
    · rw [div_le_div_iff_of_pos_right unit]
      rcases rounds.closer positive same with lt | ⟨eq, -⟩
      · exact lt.le
      · exact eq.le
  · simp only [magnitude, units, kept small, distance_scaled] at ne same ⊢
    have other : y.pattern ≠ pattern := by
      rintro eq
      exact ne (by rw [eq])
    rcases rounds.closer positive other with lt | ⟨-, even⟩
    · rw [div_left_inj' unit.ne'] at same
      exact absurd same lt.ne
    · exact even

theorem round_isNearest (negative : Bool) (num : Nat) {den : Nat} (positive : 0 < den) :
    IsNearest negative (num / den / unitsPerOne) (round negative num den) := by
  rw [round, roundPattern_eq]
  exact (unboundedPattern_roundsTo num positive).isNearest positive negative

theorem isNearest_infinity {m : ℚ} (large : overflowBound ≤ m) (negative : Bool) :
    IsNearest negative m (infinity negative) := by
  obtain ⟨held, sign⟩ := pattern_ofPattern negative (Nat.le_refl infinityPattern)
  have beyond : ¬m < overflowBound := not_lt.2 large
  exact ⟨sign, fun _ => decide_eq_true held, fun h => absurd h beyond, fun h => absurd h beyond,
    fun h => absurd h beyond⟩

/-- Less than half a unit is rounded to zero. -/
theorem isNearest_zero {num den : Nat} (small : 2 * num < den) (negative : Bool) :
    IsNearest negative (num / den / unitsPerOne) (ofPattern negative 0) := by
  have rounds : RoundsTo num den 0 := by
    have first : unitsOf 0 + unitsOf (0 + 1) = 1 := by decide
    refine ⟨.inl ?_, nofun⟩
    rw [first]
    omega
  exact rounds.isNearest (by omega) negative

theorem magnitude_lt {x y : Double} (less : x.pattern < y.pattern) : x.magnitude < y.magnitude := by
  have unit : (0 : ℚ) < unitsPerOne := by exact_mod_cast unitsPerOne_pos
  rw [magnitude, magnitude, div_lt_div_iff_of_pos_right unit]
  exact_mod_cast unitsOf_strictMono less

/-- Correct rounding leaves no choice. -/
theorem IsNearest.unique {negative : Bool} {m : ℚ} {x y : Double} (hx : IsNearest negative m x)
    (hy : IsNearest negative m y) : x = y := by
  suffices same : x.pattern = y.pattern by
    rw [← ofPattern_negative_pattern x, ← ofPattern_negative_pattern y, same, hx.sign, hy.sign]
  rcases lt_or_ge m overflowBound with small | large
  · -- Two even patterns that are equally close have an odd one between them, which is closer.
    have apart {x y : Double} (hx : IsNearest negative m x) (hy : IsNearest negative m y) :
        ¬x.pattern < y.pattern := by
      intro less
      have ne := (magnitude_lt less).ne
      have same := le_antisymm (hx.nearest small y (hy.finite small))
        (hy.nearest small x (hx.finite small))
      have even := hx.even small y (hy.finite small) ne.symm same
      have even' := hy.even small x (hx.finite small) ne same.symm
      have last := of_decide_eq_true (hy.finite small)
      obtain ⟨between, -⟩ := pattern_ofPattern false
        (show x.pattern + 1 ≤ infinityPattern by omega)
      have left : x.magnitude < (ofPattern false (x.pattern + 1)).magnitude :=
        magnitude_lt (by omega)
      have right : (ofPattern false (x.pattern + 1)).magnitude < y.magnitude :=
        magnitude_lt (by omega)
      have nearest := hx.nearest small (ofPattern false (x.pattern + 1))
        (decide_eq_true (by omega))
      have middle : 2 * m = x.magnitude + y.magnitude := by
        rcases abs_eq_abs.1 same with equal | opposite <;> linarith
      rw [abs_of_pos (by linarith : 0 < m - x.magnitude), le_abs] at nearest
      rcases nearest with above | below <;> linarith
    have := apart hx hy
    have := apart hy hx
    omega
  · have hx := of_decide_eq_true (hx.infinite large)
    have hy := of_decide_eq_true (hy.infinite large)
    rw [hx, hy]

theorem overflowBound_eq : overflowBound = ((2 ^ 54 - 1) * 2 ^ 970 : Nat) := by
  rw [overflowBound, Nat.cast_mul, Nat.cast_pow, Nat.cast_ofNat]
  norm_num

/-- Decimals that are too large for the first extreme branch. -/
theorem overflowBound_le_decimal {coefficient : Nat} {exponent : Int} (positive : coefficient ≠ 0)
    (large : 309 < exponent) : overflowBound ≤ coefficient * 10 ^ exponent := by
  have power : overflowBound ≤ 10 ^ 310 := by
    have digits : (2 ^ 54 - 1) * 2 ^ 970 ≤ 10 ^ 310 := by decide +kernel
    rw [overflowBound_eq]
    exact_mod_cast digits
  have whole : (1 : ℚ) ≤ coefficient := by exact_mod_cast Nat.one_le_iff_ne_zero.2 positive
  calc overflowBound ≤ 10 ^ 310 := power
    _ = 10 ^ (310 : Int) := rfl
    _ ≤ 10 ^ exponent := zpow_le_zpow_right₀ (by norm_num) large
    _ ≤ coefficient * 10 ^ exponent := le_mul_of_one_le_left (zpow_nonneg (by norm_num) _) whole

/-- Decimals that are too small for the other extreme branch. -/
theorem decimal_lt_half {coefficient places : Nat}
    (small : coefficient.log2 + 1076 ≤ 3 * places) :
    2 * (coefficient * unitsPerOne) < Decimal.powerOfTen places := by
  have bits : coefficient < 2 ^ (coefficient.log2 + 1) := Nat.lt_log2_self
  calc 2 * (coefficient * unitsPerOne)
      < 2 * (2 ^ (coefficient.log2 + 1) * unitsPerOne) := by
        apply Nat.mul_lt_mul_of_pos_left _ (by decide)
        exact Nat.mul_lt_mul_of_pos_right bits unitsPerOne_pos
    _ = 2 ^ (coefficient.log2 + 1076) := by
        simp only [unitsPerOne, Nat.one_shiftLeft, ← Nat.pow_add, ← Nat.pow_succ', Nat.add_assoc]
    _ ≤ 2 ^ (3 * places) := Nat.pow_le_pow_right (by decide) small
    _ = 8 ^ places := by rw [Nat.pow_mul]
    _ ≤ Decimal.powerOfTen places := Nat.pow_le_pow_left (by decide) places

theorem decimal_places (coefficient places : Nat) :
    ((coefficient * unitsPerOne : Nat) / (10 ^ places : Nat) / unitsPerOne : ℚ) =
      coefficient * 10 ^ (-places : Int) := by
  have unit : (unitsPerOne : ℚ) ≠ 0 := by exact_mod_cast unitsPerOne_pos.ne'
  simp only [Nat.cast_mul, Nat.cast_pow, Nat.cast_ofNat, zpow_neg, zpow_natCast]
  field_simp

/-- The double that is read from a decimal is the nearest one. -/
theorem ofDecimal_isNearest (negative : Bool) (coefficient : Nat) (exponent : Int) :
    IsNearest negative (coefficient * 10 ^ exponent) (ofDecimal negative coefficient exponent) := by
  have unit : (unitsPerOne : ℚ) ≠ 0 := by exact_mod_cast unitsPerOne_pos.ne'
  unfold ofDecimal
  split
  case isTrue zero =>
    have nothing := isNearest_zero (show 2 * 0 < 1 by decide) negative
    simpa [zero] using nothing
  case isFalse positive =>
    split
    case isTrue large => exact isNearest_infinity (overflowBound_le_decimal positive large) negative
    case isFalse =>
      split
      case isTrue whole =>
        obtain ⟨k, rfl⟩ := Int.eq_ofNat_of_zero_le whole
        have rounded := round_isNearest negative
          (coefficient * Decimal.powerOfTen k * unitsPerOne) Nat.one_pos
        have value : ((coefficient * Decimal.powerOfTen k * unitsPerOne : Nat) / (1 : Nat) /
            unitsPerOne : ℚ) = coefficient * 10 ^ (k : Int) := by
          simp [Decimal.powerOfTen, unit]
        rwa [value] at rounded
      case isFalse fraction =>
        obtain ⟨k, rfl⟩ : ∃ k : Nat, exponent = -k := ⟨(-exponent).toNat, by omega⟩
        have value : ((coefficient * unitsPerOne : Nat) / (Decimal.powerOfTen k : Nat) /
            unitsPerOne : ℚ) = coefficient * 10 ^ (-k : Int) := decimal_places coefficient k
        simp only [Int.neg_neg, Int.toNat_natCast]
        rw [← value]
        split
        case isTrue small => exact isNearest_zero (decimal_lt_half small) negative
        case isFalse => exact round_isNearest negative _ (Nat.pow_pos (by decide))

/-! ## Extreme exponents -/

theorem ofDecimal_of_large {coefficient : Nat} {exponent : Int} (positive : coefficient ≠ 0)
    (large : 309 < exponent) (negative : Bool) :
    ofDecimal negative coefficient exponent = infinity negative := by
  rw [ofDecimal, if_neg positive, if_pos large]

/-- Since `2^1075 < 10^324`, a coefficient of `digits` digits and `digits + 324` places leave less
than half a unit. -/
theorem ofDecimal_of_small {coefficient digits places : Nat} (short : coefficient < 10 ^ digits)
    (small : digits + 324 ≤ places) (negative : Bool) :
    ofDecimal negative coefficient (-places) = ofPattern negative 0 := by
  have half : 2 * (coefficient * unitsPerOne) < 10 ^ places := by
    have unit : 2 * unitsPerOne < 10 ^ 324 := by decide +kernel
    have scale : 0 < 10 ^ 324 := by decide +kernel
    calc 2 * (coefficient * unitsPerOne)
        = coefficient * (2 * unitsPerOne) := by ring
      _ ≤ coefficient * 10 ^ 324 := Nat.mul_le_mul_left _ unit.le
      _ < 10 ^ digits * 10 ^ 324 := Nat.mul_lt_mul_of_pos_right short scale
      _ = 10 ^ (digits + 324) := by rw [Nat.pow_add]
      _ ≤ 10 ^ places := Nat.pow_le_pow_right (by decide) small
  have value : (((coefficient * unitsPerOne : Nat) : ℚ) / (10 ^ places : Nat) / unitsPerOne) =
      coefficient * 10 ^ (-places : Int) := decimal_places coefficient places
  have zero := isNearest_zero half negative
  rw [value] at zero
  exact (ofDecimal_isNearest negative coefficient _).unique zero

end Double

end TreeJit
