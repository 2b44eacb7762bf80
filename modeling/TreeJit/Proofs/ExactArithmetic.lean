import Mathlib.Data.Rat.Floor
import TreeJit.Proofs.WholeNumbers

/-! # Operations without rounding error

Every operation on doubles rounds its exact result, but two of them never have
anything to round.  A remainder is a multiple of the finer of the steps of its
operands, and it is no larger than the operand with that step, so it is a double
even if the operands are two thousand binary places apart.  A negation is a
subtraction from minus zero, whose exact result is the operand itself with the
other sign; minus zero and not zero, so that the sum of two zeros gets the other
sign as well.

* `Node.Computes` — what it means that a tree is compiled to code that gives a
  number.
* `Double.exists_unitsOf_mod` — remainders are on the grid of patterns.
* `Double.negativeZero_sub` — negation, down to a single operation on the bits.
* `modulo_leaves_exact_remainder` and `negation_flips_sign` — what compiled code
  makes of the two operations.
-/

namespace TreeJit

/-! ## Code that computes numbers -/

/-- `n.Computes bound cell x`: the tree `n` over the variable `bound` is compiled wherever there is
room for it, and what it is compiled to answers with `x` on `cell` and leaves the cell alone. -/
structure Node.Computes (bound : String) (cell : Cell) (n : Node) (x : Double) : Prop where
  compiles : ∀ (config : Config) (ctx : Context), ctx.variableName = bound → config.enabled →
    Codegen.functionExtent bound n ≤ config.capacity → config.capacity ≤ maxReach →
    ctx.memory.Maps config.capacity → ∃ made, (compile config ctx n).result = .ok made
  answers : ∀ f : Routine, f.context.variableName = bound → f.root = n →
    f.code.Answers cell (.number x) cell

/-- Only number expressions over the variable have a value in number position. -/
theorem Numeric.of_eval {bound : String} {cell : Cell} {n : Node} {x : Double}
    (value : Eval.number bound cell n = some x) : Numeric bound n := by
  fun_induction Eval.number bound cell n generalizing x with
  | case1 y => exact .number y
  | case2 => exact .var
  | case3 => cases value
  | case4 op lhs rhs left right =>
    obtain ⟨a, first, value⟩ := Option.bind_eq_some_iff.1 value
    obtain ⟨b, second, -⟩ := Option.bind_eq_some_iff.1 value
    exact .binary op (left first) (right second)
  | case5 operand ih =>
    obtain ⟨y, inner, -⟩ := Option.bind_eq_some_iff.1 value
    exact .neg (ih inner)
  | case6 => cases value

theorem Node.Computes.of_eval {bound : String} {cell : Cell} {n : Node} {x : Double}
    (value : Eval.number bound cell n = some x) : n.Computes bound cell x where
  compiles := by
    rintro config ctx rfl enabled fits small mapped
    have verdict : n.verdict ctx.variableName = .ok .number :=
      Codegen.node_ok_iff.2 (.number (.of_eval value))
    have positive : 0 < config.capacity := by
      unfold Codegen.functionExtent at fits
      omega
    obtain ⟨made, compiled, -⟩ := compile_of_fits enabled positive small mapped verdict fits
    exact ⟨made, compiled⟩
  answers := by
    rintro f rfl rfl
    exact .of_evaluates f.compiled f.separates (.number value)

/-! ## Fractions and bits -/

/-- A rational number without its fractional part. -/
def truncate (q : ℚ) : ℤ := if 0 ≤ q then ⌊q⌋ else ⌈q⌉

theorem truncate_quotient (n d : Nat) : truncate (n / d) = (n / d : Nat) := by
  rw [truncate, if_pos (by positivity), Rat.floor_natCast_div_natCast, Int.natCast_div]

theorem truncate_neg (q : ℚ) : truncate (-q) = -truncate q := by
  rcases lt_trichotomy q 0 with negative | rfl | positive
  · rw [truncate, truncate, if_pos (by linarith), if_neg (by linarith), Int.floor_neg]
  · simp [truncate]
  · rw [truncate, truncate, if_neg (by linarith), if_pos (by linarith), Int.ceil_neg]

/-- Setting a bit adds its weight unless it is set already. -/
theorem or_two_pow (n k : Nat) :
    n ||| 2 ^ k = if n % 2 ^ (k + 1) < 2 ^ k then n + 2 ^ k else n := by
  have split := Nat.div_add_mod n (2 ^ (k + 1))
  have rest := Nat.mod_lt n (Nat.two_pow_pos (k + 1))
  generalize n / 2 ^ (k + 1) = high at split
  generalize n % 2 ^ (k + 1) = low at split rest ⊢
  have join {r : Nat} (small : r < 2 ^ k) :
      2 ^ (k + 1) * high + (2 ^ k + r) = 2 ^ (k + 1) * high ||| (r ||| 2 ^ k) := by
    have middle : 2 ^ k + r < 2 ^ (k + 1) := by
      rw [Nat.pow_succ]
      omega
    have bit := Nat.two_pow_add_eq_or_of_lt small 1
    rw [Nat.mul_one] at bit
    rw [Nat.two_pow_add_eq_or_of_lt middle, bit, Nat.or_comm r]
  rw [← split]
  split_ifs with clear
  · rw [Nat.add_assoc, Nat.add_comm low, join clear, Nat.two_pow_add_eq_or_of_lt rest, Nat.or_assoc]
  · obtain ⟨r, rfl⟩ := Nat.exists_eq_add_of_le (Nat.not_lt.1 clear)
    rw [Nat.pow_succ] at rest
    rw [join (by omega), Nat.or_assoc, Nat.or_assoc, Nat.or_self]

namespace Double

variable {a b x y : Double}

theorem isFinite_or_isInfinite (number : ¬x.isNaN) : x.isFinite ∨ x.isInfinite := by
  rw [isNaN, decide_eq_true_eq] at number
  rw [isFinite, isInfinite, decide_eq_true_eq, decide_eq_true_eq]
  omega

/-- A double is its own rounding. -/
theorem round_units (finite : x.isFinite) : round x.negative x.units 1 = x := by
  have nearest := round_isNearest x.negative x.units Nat.one_pos
  rw [Nat.cast_one, div_one] at nearest
  exact nearest.unique (isNearest_self finite)

/-! ## Remainders -/

/-- The remainder of two patterns is a pattern, no larger than the first one. -/
theorem exists_unitsOf_mod (p : Nat) {q : Nat} (nonzero : q ≠ 0) :
    ∃ r ≤ p, unitsOf r = unitsOf p % unitsOf q := by
  obtain ⟨shift, n, rfl, low, high⟩ := exists_step p
  obtain ⟨shift', n', rfl, low', high'⟩ := exists_step q
  have positive : 0 < n' := by
    rcases low' with rfl | large
    · omega
    · exact Nat.lt_of_lt_of_le fractions_pos large
  have onGrid : ∃ r, unitsOf r = n * 2 ^ shift % (n' * 2 ^ shift') := by
    -- The remainder is a multiple of the finer step.  It has no more of these steps than the
    -- dividend if that one has the finer step, and less than the divisor otherwise.
    rcases Nat.le_total shift shift' with finer | coarser
    · obtain ⟨k, rfl⟩ := Nat.exists_eq_add_of_le finer
      have few := Nat.mod_le n (n' * 2 ^ k)
      obtain ⟨r, -, units⟩ := exists_unitsOf_eq shift (n := n % (n' * 2 ^ k)) (by omega)
      refine ⟨r, ?_⟩
      rw [units, ← Nat.mul_mod_mul_right, Nat.mul_assoc, ← Nat.pow_add, Nat.add_comm k]
    · obtain ⟨k, rfl⟩ := Nat.exists_eq_add_of_le coarser
      have few := Nat.mod_lt (n * 2 ^ k) positive
      obtain ⟨r, -, units⟩ := exists_unitsOf_eq shift' (n := n * 2 ^ k % n') (by omega)
      refine ⟨r, ?_⟩
      rw [units, ← Nat.mul_mod_mul_right, Nat.mul_assoc, ← Nat.pow_add, Nat.add_comm k]
  obtain ⟨r, units⟩ := onGrid
  rw [unitsOf_eq low high.le, unitsOf_eq low' high'.le]
  refine ⟨r, ?_, units⟩
  rw [← unitsOf_strictMono.le_iff_le, units, unitsOf_eq low high.le]
  exact Nat.mod_le _ _

/-- The remainder of finite numbers is not rounded. -/
theorem units_remainder (finite : a.isFinite) (divisor : b.isFinite) (nonzero : ¬b.isZero) :
    (remainder a b).isFinite ∧ (remainder a b).negative = a.negative ∧
      (remainder a b).units = a.units % b.units := by
  have pattern : b.pattern ≠ 0 := by simpa [isZero] using nonzero
  obtain ⟨r, le, units⟩ := exists_unitsOf_mod a.pattern pattern
  have small : r < infinityPattern := le.trans_lt (of_decide_eq_true finite)
  obtain ⟨held, sign⟩ := pattern_ofPattern a.negative small.le
  have bounded : (ofPattern a.negative r).isFinite := by
    rw [isFinite, held]
    exact decide_eq_true small
  have unrounded : (ofPattern a.negative r).units = a.units % b.units := by
    rw [Double.units, held]
    exact units
  have result : remainder a b = ofPattern a.negative r := by
    have self := round_units bounded
    rw [sign, unrounded] at self
    rw [remainder, not_isInfinite_of_isFinite finite, not_isInfinite_of_isFinite divisor]
    simpa [nonzero] using self
  rw [result]
  exact ⟨bounded, sign, unrounded⟩

theorem abs_value (x : Double) : |x.value| = x.magnitude := by
  rw [value_eq]
  split
  · rw [abs_neg, abs_of_nonneg x.magnitude_nonneg]
  · exact abs_of_nonneg x.magnitude_nonneg

theorem value_remainder (finite : a.isFinite) (divisor : b.isFinite) (nonzero : ¬b.isZero) :
    (remainder a b).value = a.value - truncate (a.value / b.value) * b.value ∧
      |(remainder a b).value| < |b.value| := by
  obtain ⟨-, sign, units⟩ := units_remainder finite divisor nonzero
  have positive : 0 < b.units :=
    unitsOf_strictMono (Nat.pos_of_ne_zero (by simpa [isZero] using nonzero))
  have rest : (remainder a b).magnitude =
      a.magnitude - truncate (a.magnitude / b.magnitude) * b.magnitude := by
    have split : (b.units * (a.units / b.units : Nat) + (a.units % b.units : Nat) : ℚ) =
        a.units := by
      exact_mod_cast Nat.div_add_mod a.units b.units
    have quotient : truncate (a.magnitude / b.magnitude) = (a.units / b.units : Nat) := by
      rw [magnitude, magnitude, div_div_div_cancel_right₀ unit_pos.ne', truncate_quotient]
    rw [quotient, Int.cast_natCast, magnitude, magnitude, magnitude, units, ← split]
    ring
  constructor
  · rw [value_eq, sign, rest, value_eq a, value_eq b]
    -- The quotient is negative if just one of the operands is, and truncation goes with the sign.
    cases a.negative <;> cases b.negative <;>
      simp only [Bool.false_eq_true, if_true, if_false, neg_div, div_neg, neg_neg, truncate_neg,
        Int.cast_neg] <;> ring
  · rw [abs_value, abs_value, magnitude, magnitude, units, div_lt_div_iff_of_pos_right unit_pos]
    exact_mod_cast Nat.mod_lt _ positive

/-! ## Negation -/

theorem negative_eq_testBit (x : Double) : x.negative = x.bits.toNat.testBit 63 := by
  have bound := x.bits.toNat_lt
  rw [negative, Nat.testBit_eq_decide_div_mod_eq, decide_eq_decide, signBit]
  omega

theorem eq_of_pattern_eq (sign : x.negative = y.negative) (pattern : x.pattern = y.pattern) :
    x = y := by
  rw [← ofPattern_negative_pattern x, ← ofPattern_negative_pattern y, pattern, sign]

theorem pattern_flip (number : ¬x.isNaN) :
    x.flip.pattern = x.pattern ∧ x.flip.negative = !x.negative :=
  pattern_ofPattern _ (by simpa [isNaN] using number)

theorem not_isNaN_flip (number : ¬x.isNaN) : ¬x.flip.isNaN := by
  rw [isNaN, (pattern_flip number).1]
  exact number

theorem flip_flip (number : ¬x.isNaN) : x.flip.flip = x := by
  obtain ⟨pattern, sign⟩ := pattern_flip number
  rw [flip, pattern, sign, Bool.not_not, ofPattern_negative_pattern]

/-- The other sign is the highest bit inverted. -/
theorem bits_flip (number : ¬x.isNaN) : x.flip.bits = x.bits ^^^ 0x8000000000000000 := by
  obtain ⟨pattern, sign⟩ := pattern_flip number
  suffices same : x.flip = ⟨x.bits ^^^ 0x8000000000000000⟩ by rw [same]
  apply eq_of_pattern_eq
  · rw [sign, negative_eq_testBit, negative_eq_testBit, UInt64.toNat_xor, Nat.testBit_xor]
    exact (Bool.xor_true _).symm
  · have low : (x.bits ^^^ 0x8000000000000000).toNat % 2 ^ 63 = x.bits.toNat % 2 ^ 63 := by
      rw [UInt64.toNat_xor, Nat.xor_mod_two_pow]
      exact Nat.xor_zero _
    exact pattern.trans low.symm

/-- A NaN is made quiet by setting a bit of its fraction. -/
theorem bits_quiet (x : Double) : x.quiet.bits = x.bits ||| 0x8000000000000 := by
  have sign : Double.negative ⟨x.bits ||| 0x8000000000000⟩ = x.negative := by
    rw [negative_eq_testBit, negative_eq_testBit, UInt64.toNat_or, Nat.testBit_or]
    exact Bool.or_false _
  have pattern : Double.pattern ⟨x.bits ||| 0x8000000000000⟩ = x.pattern ||| quietBit := by
    rw [Double.pattern, UInt64.toNat_or]
    exact Nat.or_mod_two_pow (n := 63)
  have weight : x.pattern ||| quietBit =
      if x.pattern % fractions < quietBit then x.pattern + quietBit else x.pattern :=
    or_two_pow x.pattern 51
  suffices same : x.quiet = ⟨x.bits ||| 0x8000000000000⟩ by rw [same]
  rw [← ofPattern_negative_pattern ⟨x.bits ||| 0x8000000000000⟩, sign, pattern, weight, quiet]
  split
  · rfl
  · exact (ofPattern_negative_pattern x).symm

/-- A double is its own rounding from its signed value, too, given the sign for a zero. -/
theorem roundSigned_signedUnits (finite : x.isFinite) :
    roundSigned x.negative x.signedUnits = x := by
  have size : x.signedUnits.natAbs = x.units := by
    rw [signedUnits]
    split <;> omega
  by_cases zero : x.signedUnits = 0
  · have none : unitsOf x.pattern = unitsOf 0 := by
      rw [zero] at size
      exact size.symm
    rw [roundSigned, if_pos zero, ← unitsOf_strictMono.injective none, ofPattern_negative_pattern]
  · have sign : decide (x.signedUnits < 0) = x.negative := by
      rw [signedUnits] at zero ⊢
      cases negative : x.negative <;> simp only [negative] at zero ⊢ <;> grind
    rw [roundSigned, if_neg zero, sign, size, round_units finite]

/-- Negation changes the sign of a number, and makes a NaN quiet. -/
theorem negativeZero_sub (x : Double) :
    negativeZero.sub x = if x.isNaN then x.quiet else x.flip := by
  have zero : negativeZero.isNaN = false ∧ negativeZero.isInfinite = false ∧
      negativeZero.negative = true ∧ negativeZero.signedUnits = 0 := by decide
  obtain ⟨notNaN, notInfinite, negative, none⟩ := zero
  rw [sub, propagate, notNaN]
  simp only [Bool.false_eq_true, if_false]
  split
  case isTrue => rfl
  case isFalse number =>
    rw [sum, notInfinite, negative, none, Int.zero_add, Bool.true_and]
    simp only [Bool.false_eq_true, if_false]
    split
    case isTrue => rfl
    case isFalse bounded =>
      have finite := (isFinite_or_isInfinite (not_isNaN_flip number)).resolve_right bounded
      exact roundSigned_signedUnits finite

theorem negativeZero_sub_twice (number : ¬x.isNaN) :
    negativeZero.sub (negativeZero.sub x) = x := by
  rw [negativeZero_sub, negativeZero_sub, if_neg number, if_neg (not_isNaN_flip number),
    flip_flip number]

end Double

/-! ## Compiled operations -/

/-- Modulo is exact, and its left operand is the dividend.  Let `a` be finite and `b` a number other
than zero.  Code for `a` modulo `b`, given as literals or by any expressions, leaves a double with
the sign of `a`, even if it is a zero.  For a finite `b` it is `a` less the truncated quotient times
`b` as a rational number, and smaller than `b`; for an infinite `b` it is `a`. -/
theorem modulo_leaves_exact_remainder {a b : Double} (finite : a.isFinite) (nonzero : ¬b.isZero)
    (number : ¬b.isNaN) :
    ∃ r : Double,
      (∀ (bound : String) (cell : Cell),
        (Node.binary .mod (.number a) (.number b)).Computes bound cell r) ∧
      (∀ (bound : String) (cell : Cell) (lhs rhs : Node), Eval.number bound cell lhs = some a →
        Eval.number bound cell rhs = some b →
        (Node.binary .mod lhs rhs).Computes bound cell r) ∧
      r.negative = a.negative ∧
      (b.isFinite → r.isFinite ∧ r.value = a.value - truncate (a.value / b.value) * b.value ∧
        |r.value| < |b.value|) ∧
      (b.isInfinite → r = a) := by
  have result : a.rem b = a.remainder b := by
    rw [Double.rem, Double.propagate, Double.not_isNaN_of_isFinite finite]
    simp [number]
  have computes (bound : String) (cell : Cell) (lhs rhs : Node)
      (dividend : Eval.number bound cell lhs = some a)
      (divisor : Eval.number bound cell rhs = some b) :
      (Node.binary .mod lhs rhs).Computes bound cell (a.remainder b) := by
    apply Node.Computes.of_eval
    rw [← result, Eval.number, dividend, divisor]
    rfl
  have infinite (h : b.isInfinite) : a.remainder b = a := by
    rw [Double.remainder, Double.not_isInfinite_of_isFinite finite, h]
    simp [nonzero]
  refine ⟨a.remainder b, fun bound cell => ?_, computes, ?_, fun divisor => ?_, infinite⟩
  · exact computes bound cell (.number a) (.number b) rfl rfl
  · rcases Double.isFinite_or_isInfinite number with divisor | beyond
    · exact (Double.units_remainder finite divisor nonzero).2.1
    · rw [infinite beyond]
  · exact ⟨(Double.units_remainder finite divisor nonzero).1,
      Double.value_remainder finite divisor nonzero⟩

/-- The largest double, taken negative, modulo three times the smallest one: operands as far apart
as can be. -/
theorem modulo_of_extremes :
    ∃ r : Double,
      (Node.binary .mod (.number ⟨0xFFEFFFFFFFFFFFFF⟩) (.number ⟨3⟩)).Computes "x"
        (.ofNumber .zero) r ∧
      r.negative ∧
      r.value = Double.value ⟨0xFFEFFFFFFFFFFFFF⟩ -
        truncate (Double.value ⟨0xFFEFFFFFFFFFFFFF⟩ / Double.value ⟨3⟩) * Double.value ⟨3⟩ ∧
      |r.value| < |Double.value ⟨3⟩| := by
  obtain ⟨r, computes, -, sign, finite, -⟩ := modulo_leaves_exact_remainder
    (a := ⟨0xFFEFFFFFFFFFFFFF⟩) (b := ⟨3⟩) (by decide) (by decide) (by decide)
  obtain ⟨-, value, small⟩ := finite (by decide)
  exact ⟨r, computes _ _, sign, value, small⟩

/-- Negation, which is a subtraction from minus zero, inverts the sign bit and no other bit of a
number.  A NaN keeps its sign and its payload, and its quiet bit is set.  So negating an expression
twice gives its number back, unless it is a NaN. -/
theorem negation_flips_sign :
    (∀ x : Double, ∃ r : Double,
      (∀ (bound : String) (cell : Cell), (Node.neg (.number x)).Computes bound cell r) ∧
      (¬x.isNaN → r.bits = x.bits ^^^ 0x8000000000000000) ∧
      (x.isNaN → r.bits = x.bits ||| 0x0008000000000000)) ∧
    ∀ (bound : String) (cell : Cell) (e : Node), Numeric bound e →
      ∃ y, Eval.number bound cell e = some y ∧ e.Computes bound cell y ∧
        (¬y.isNaN → (Node.neg (.neg e)).Computes bound cell y) := by
  constructor
  · intro x
    refine ⟨Double.negativeZero.sub x, fun bound cell => ?_, fun number => ?_, fun nan => ?_⟩
    · exact .of_eval rfl
    · rw [Double.negativeZero_sub, if_neg number, Double.bits_flip number]
    · rw [Double.negativeZero_sub, if_pos nan, Double.bits_quiet]
  · intro bound cell e numeric
    obtain ⟨y, value⟩ := numeric.eval cell
    refine ⟨y, value, .of_eval value, fun number => ?_⟩
    apply Node.Computes.of_eval
    rw [Eval.number, Eval.number, value]
    exact congrArg some (Double.negativeZero_sub_twice number)

/-- Minus zero becomes zero, a signalling NaN becomes quiet and stays negative, and minus infinity
comes back after two negations. -/
theorem negation_of_extremes :
    (∃ r, (Node.neg (.number .negativeZero)).Computes "x" (.ofNumber .zero) r ∧ r = .zero) ∧
    (∃ r, (Node.neg (.number ⟨0xFFF0000000000001⟩)).Computes "x" (.ofNumber .zero) r ∧
      r = ⟨0xFFF8000000000001⟩) ∧
    (Node.neg (.neg (.var "x"))).Computes "x" (.ofNumber (.infinity true)) (.infinity true) := by
  obtain ⟨literals, twice⟩ := negation_flips_sign
  obtain ⟨r, computes, flipped, -⟩ := literals .negativeZero
  obtain ⟨r', computes', -, quieted⟩ := literals ⟨0xFFF0000000000001⟩
  obtain ⟨y, value, -, cancels⟩ := twice "x" (.ofNumber (.infinity true)) (.var "x") .var
  refine ⟨⟨r, computes _ _, ?_⟩, ⟨r', computes' _ _, ?_⟩, ?_⟩
  · cases r
    exact congrArg Double.mk (flipped (by decide))
  · cases r'
    exact congrArg Double.mk (quieted (by decide))
  · cases value
    exact cancels (by decide)

end TreeJit
