import TreeJit.Proofs.DecimalText
import TreeJit.Proofs.Leaves
import TreeJit.Proofs.Spacing

/-! # Whole numbers as texts

A whole number below `10^18` is written in full.  Its text has up to 18 digits,
while a double has only 53 bits, but the text is read as the nearest double, and
a double is nearest to itself.  So the number comes back, and a variable can be
made a text and a number again and again.

* `Double.toText_of_isWhole` and `Double.reread_of_isWhole` — the text of a whole
  number, and what is read from it.
* `Converts` — what makes a text of a number or a number of a text.
* `Converts.stands` — no such step changes the number that a cell stands for.
-/

namespace TreeJit

open Decimal (AllDigits IsSign Numeral digits readDigits readLeading)

namespace Double

/-! ## Values -/

/-- The value of a finite number. -/
def value (x : Double) : ℚ := x.signedUnits / unitsPerOne

theorem value_eq (x : Double) : x.value = if x.negative then -x.magnitude else x.magnitude := by
  rw [value, signedUnits, magnitude]
  split <;> simp [neg_div]

/-- A whole number that is written in full. -/
structure IsWhole (x : Double) (z : Int) : Prop where
  finite : x.isFinite
  value : x.value = z
  small : z.natAbs < 10 ^ 18

variable {x y : Double} {z : Int}

theorem IsWhole.magnitude_eq (whole : x.IsWhole z) : x.magnitude = z.natAbs := by
  have nonneg := x.magnitude_nonneg
  have value := whole.value
  rw [value_eq] at value
  rw [Nat.cast_natAbs, Int.cast_abs, ← value]
  split
  · rw [abs_neg, abs_of_nonneg nonneg]
  · rw [abs_of_nonneg nonneg]

theorem IsWhole.isZero_iff (whole : x.IsWhole z) : x.isZero ↔ z = 0 := by
  rw [← magnitude_eq_zero_iff, whole.magnitude_eq, Nat.cast_eq_zero, Int.natAbs_eq_zero]

theorem IsWhole.negative_iff (whole : x.IsWhole z) (nonzero : z ≠ 0) : x.negative ↔ z < 0 := by
  have nonneg := x.magnitude_nonneg
  have value := whole.value
  rw [value_eq] at value
  split at value
  case isTrue negative =>
    have sign : (z : ℚ) ≤ 0 := by linarith
    have sign : z ≤ 0 := by exact_mod_cast sign
    exact iff_of_true negative (by omega)
  case isFalse positive =>
    have sign : (0 : ℚ) ≤ z := by linarith
    have sign : 0 ≤ z := by exact_mod_cast sign
    exact iff_of_false positive (by omega)

theorem IsWhole.units_eq (whole : x.IsWhole z) : x.units = z.natAbs * unitsPerOne := by
  have scaled := x.magnitude_mul_unit
  rw [whole.magnitude_eq] at scaled
  exact_mod_cast scaled.symm

/-! ## Texts -/

/-- The text of a whole number is its digits, behind a minus if it is negative. -/
theorem toText_of_isWhole (whole : x.IsWhole z) :
    x.toText = (if z < 0 then ['-'] else []) ++ digits z.natAbs := by
  have number := not_isNaN_of_isFinite whole.finite
  have bounded := not_isInfinite_of_isFinite whole.finite
  have integral : x.isIntegral := isIntegral_iff.2 ⟨whole.finite, _, whole.magnitude_eq⟩
  have small : x.units < Decimal.powerOfTen 18 * unitsPerOne := by
    rw [whole.units_eq]
    exact Nat.mul_lt_mul_of_pos_right whole.small unitsPerOne_pos
  have count : x.units / unitsPerOne = z.natAbs := by
    rw [whole.units_eq, Nat.mul_div_cancel _ unitsPerOne_pos]
  simp only [toText, number, bounded, integral, small, and_self, if_true, Bool.false_eq_true,
    if_false, count]
  by_cases zero : z = 0
  · rw [if_pos (whole.isZero_iff.2 zero), zero]
    rfl
  · rw [if_neg (mt whole.isZero_iff.1 zero)]
    by_cases negative : z < 0
    · rw [if_pos ((whole.negative_iff zero).2 negative), if_pos negative]
      rfl
    · rw [if_neg (mt (whole.negative_iff zero).1 negative), if_neg negative]
      rfl

/-- The double that is read from the text of a number. -/
def reread (x : Double) : Double := readLeading x.toText

/-- A whole number comes back from its text, but for the sign of zero. -/
theorem reread_of_isWhole (whole : x.IsWhole z) :
    x.reread = if x.isZero then Double.zero else x := by
  have sign : IsSign (decide (z < 0)) (if z < 0 then ['-'] else []) := by
    simpa using Decimal.isSign_minus (decide (z < 0))
  have mantissa := Decimal.IsMantissa.whole (Decimal.allDigits_digits z.natAbs)
    (Decimal.digits_ne_nil z.natAbs)
  have spelled : Numeral.Spells Decimal.readExponent
      ⟨decide (z < 0), readDigits (digits z.natAbs), 0 - (0 : Nat)⟩ x.toText := by
    have intro : Numeral.Spells Decimal.readExponent _ _ := .intro sign mantissa .none
    rwa [List.append_nil, ← toText_of_isWhole whole] at intro
  rw [reread, Decimal.readLeading_of_spells spelled, Decimal.readDigits_digits]
  by_cases zero : z = 0
  · rw [if_pos (whole.isZero_iff.2 zero), zero]
    rfl
  · have nearest := ofDecimal_isNearest (decide (z < 0)) z.natAbs 0
    have self := isNearest_self whole.finite
    rw [zpow_zero, mul_one] at nearest
    rw [whole.magnitude_eq, Bool.eq_iff_iff.2 ((whole.negative_iff zero).trans
      decide_eq_true_iff.symm)] at self
    rw [if_neg (mt whole.isZero_iff.1 zero)]
    exact nearest.unique self

/-! ## Equal numbers -/

theorem numericEq_iff (finite : x.isFinite) : y.numericEq x ↔ y = x ∨ y.isZero ∧ x.isZero := by
  simp only [numericEq, Bool.and_eq_true, Bool.or_eq_true, Bool.not_eq_true', decide_eq_true_eq]
  constructor
  · exact And.right
  · intro same
    refine ⟨⟨?_, not_isNaN_of_isFinite finite⟩, same⟩
    rcases same with rfl | ⟨zero, -⟩
    · exact not_isNaN_of_isFinite finite
    · exact not_isNaN_of_isFinite (isFinite_of_isZero zero)

theorem isWhole_zero (zero : x.isZero) : x.IsWhole 0 := by
  refine ⟨isFinite_of_isZero zero, ?_, by decide⟩
  rw [value_eq, magnitude_eq_zero_iff.2 zero]
  simp

/-- What equals a whole number is still equal to it when it has been a text. -/
theorem numericEq_reread (whole : x.IsWhole z) (same : y.numericEq x) : y.reread.numericEq x := by
  rw [numericEq_iff whole.finite] at same ⊢
  rcases same with rfl | ⟨zero, zero'⟩
  · rw [reread_of_isWhole whole]
    by_cases zero : y.isZero
    · exact .inr ⟨by rw [if_pos zero]; rfl, zero⟩
    · exact .inl (if_neg zero)
  · rw [reread_of_isWhole (isWhole_zero zero), if_pos zero]
    exact .inr ⟨rfl, zero'⟩

end Double

/-! ## Cells that can be reached hold one value -/

/-- The number of the cell is that of its text, or its text is that of its number. -/
def Cell.Coherent (c : Cell) : Prop :=
  c.number = readLeading c.text.chars ∨ c.text.chars = c.number.toText

theorem Cell.Coherent.after {c : Cell} (filled : c.Filled) (coherent : c.Coherent) (a : Access) :
    (c.after a).Coherent := by
  by_cases write : a.isWrite
  · cases a with
    | setNumber value => exact .inr (Cell.chars_renderNumber value)
    | setText text => exact .inl rfl
    | _ => cases write
  · have alike := filled.alike_after (Bool.not_eq_true _ ▸ write)
    rwa [Coherent, ← alike.number, ← alike.text]

theorem Cell.Coherent.afterAll {c : Cell} (filled : c.Filled) (coherent : c.Coherent)
    (accesses : List Access) : (c.afterAll accesses).Coherent := by
  induction accesses generalizing c with
  | nil => exact coherent
  | cons a accesses ih => exact ih (filled.after a) (coherent.after filled a)

theorem Cell.Reachable.coherent {c : Cell} (reachable : c.Reachable) : c.Coherent := by
  obtain ⟨start, init, us, made, built, inUse⟩ := reachable
  have fresh : Cell.fresh.Coherent := .inl (by decide)
  rw [inUse.eq_afterAll, built.eq_afterAll]
  exact (fresh.afterAll Cell.filled_fresh init).afterAll (Cell.filled_fresh.afterAll init) made

/-! ## Conversions -/

/-- The assignments that make a text or a number of the variable, whatever it is. -/
inductive Routine.IsConversion (f : Routine) : Prop where
  | toText (root : f.root = .assign f.context.variableName
      (.concat (.var f.context.variableName) (.string .empty)))
  | toNumber (root : f.root = .assign f.context.variableName (.var f.context.variableName))

/-- What leaves a cell with the same value: to look at it in any way, or to make a text or a number
of it, by compiled code or as its owner. -/
inductive Converts : Cell → Cell → Prop where
  | look {c left : Cell} {made : List Access} (u : Use) (reads : u.writes = false)
      (does : u.Does c made left) : Converts c left
  | call {c left : Cell} {made : List Access} (f : Routine) (converts : f.IsConversion)
      (returns : f.Returns c made left) : Converts c left
  | setText (c : Cell) : Converts c (c.setText c.text)
  | setNumber (c : Cell) : Converts c (c.setNumber c.number)

theorem Text.append_empty (t : Text) : t ++ empty = t :=
  Text.eq_of_bytes (List.append_nil t.bytes)

theorem Routine.IsConversion.evaluates {f : Routine} (converts : f.IsConversion) (c : Cell) :
    ∃ left, Evaluates f.context.variableName c f.root .nothing left := by
  cases converts with
  | toText root =>
    have value : Eval.string f.context.variableName c (.concat (.var f.context.variableName)
        (.string .empty)) = some (c.text ++ .empty, c.withText) := by
      simp [Eval.string]
    rw [root]
    exact ⟨_, .assignString (.string (by rintro _ ⟨⟩) value)⟩
  | toNumber root =>
    have value : Eval.number f.context.variableName c (.var f.context.variableName) =
        some c.number := by
      simp [Eval.number]
    rw [root]
    exact ⟨_, .assignNumber (.number value)⟩

/-- A conversion writes the text or the number that it finds. -/
theorem Routine.IsConversion.left_eq {f : Routine} (converts : f.IsConversion) {c left : Cell}
    {made : List Access} (returns : f.Returns c made left) :
    left = c.withText.setText c.text ∨ left = c.setNumber c.number := by
  obtain ⟨value, evaluated, -⟩ := returns.evaluates
  cases converts with
  | toText root =>
    left
    rw [root] at evaluated
    cases evaluated with
    | number value | string _ value => cases value
    | assignNumber evaluated =>
      cases evaluated with
      | number value => cases value
    | assignString evaluated =>
      cases evaluated with
      | string _ value =>
        obtain ⟨a, b, between, first, second, rfl⟩ := exists_of_eval_concat value
        rw [Eval.string, if_pos rfl] at first
        cases first
        cases second
        rw [Text.append_empty]
  | toNumber root =>
    right
    rw [root] at evaluated
    cases evaluated with
    | number value | string _ value => cases value
    | assignNumber evaluated =>
      cases evaluated with
      | number value =>
        rw [Eval.number, if_pos rfl] at value
        cases value
        rfl
    | assignString evaluated =>
      cases evaluated with
      | string notVar _ => exact absurd rfl (notVar _)

/-! ## The number that a cell stands for -/

/-- The cell gives a number equal to `x`, also after its text has taken the place of its number. -/
structure Cell.Stands (x : Double) (c : Cell) : Prop where
  filled : c.Filled
  number : c.number.numericEq x
  text : (readLeading c.text.chars).numericEq x

section whole

variable {x : Double} {z : Int}

theorem Cell.Stands.setText {c : Cell} (stands : c.Stands x) (d : Cell) :
    (d.setText c.text).Stands x :=
  ⟨.inr rfl, stands.text, stands.text⟩

theorem Cell.Stands.setNumber {c : Cell} (whole : x.IsWhole z) (stands : c.Stands x) (d : Cell) :
    (d.setNumber c.number).Stands x := by
  refine ⟨.inl rfl, stands.number, ?_⟩
  rw [Cell.text_setNumber, Cell.chars_renderNumber]
  exact Double.numericEq_reread whole stands.number

theorem Cell.Reachable.stands {c : Cell} (whole : x.IsWhole z) (reachable : c.Reachable)
    (number : c.number = x) : c.Stands x := by
  have same : x.numericEq x := (Double.numericEq_iff whole.finite).2 (.inl rfl)
  refine ⟨reachable.filled, number ▸ same, ?_⟩
  rcases reachable.coherent with read | written
  · rw [← read, number]
    exact same
  · rw [written, number]
    exact Double.numericEq_reread whole same

/-- A conversion leaves the number as it is. -/
theorem Converts.stands {c left : Cell} (whole : x.IsWhole z) (stands : c.Stands x)
    (converts : Converts c left) : left.Stands x := by
  cases converts with
  | look u reads does =>
    have alike := does.alike_of_reads reads stands.filled
    exact ⟨alike.right, alike.number ▸ stands.number, alike.text ▸ stands.text⟩
  | call f conversion returns =>
    rcases conversion.left_eq returns with rfl | rfl
    · exact stands.setText _
    · exact stands.setNumber whole _
  | setText => exact stands.setText _
  | setNumber => exact stands.setNumber whole _

/-- Whole numbers survive as texts.  The text of a whole number below `10^18` is its digits, without
zeros before them and with a minus before them exactly if it is negative.  The number that is read
from it is the same one, bit by bit, except that minus zero comes back as zero.  So a cell that holds
such a number can be converted by any steps: it is joined to the empty text and assigned to itself
without failing, and what it holds stays equal to the number. -/
theorem whole_numbers_survive_as_texts (whole : x.IsWhole z) :
    (∃ ds, x.toText = (if z < 0 then ['-'] else []) ++ ds ∧ AllDigits ds ∧ ds ≠ [] ∧
      readDigits ds = z.natAbs ∧ (ds.head? = some '0' → ds = ['0'])) ∧
    x.reread = (if x.isZero then .zero else x) ∧
    ∀ cell : Cell, cell.Reachable → cell.number = x →
      ∀ later, Relation.ReflTransGen Converts cell later →
        later.number.numericEq x ∧
        ∀ f : Routine, f.IsConversion →
          ∃ left, f.code.Answers later .nothing left ∧ left.number.numericEq x := by
  refine ⟨⟨digits z.natAbs, Double.toText_of_isWhole whole, Decimal.allDigits_digits _,
    Decimal.digits_ne_nil _, Decimal.readDigits_digits _, ?_⟩, Double.reread_of_isWhole whole, ?_⟩
  · intro leading
    rcases Nat.eq_zero_or_pos z.natAbs with zero | positive
    · rw [zero]
      rfl
    · exact absurd leading (Decimal.head_digits_ne_zero positive)
  · intro cell reachable number later steps
    have stands : later.Stands x := by
      induction steps with
      | refl => exact reachable.stands whole number
      | tail _ step ih => exact step.stands whole ih
    refine ⟨stands.number, fun f conversion => ?_⟩
    obtain ⟨left, evaluated⟩ := conversion.evaluates later
    obtain ⟨made, returns⟩ := Routine.returns_of_evaluates evaluated
    have answers := CompiledCode.Answers.of_evaluates f.compiled f.separates evaluated
    exact ⟨left, answers, ((Converts.call f conversion returns).stands whole stands).number⟩

/-- The largest whole number in question, negated: it has 18 digits and more than 53 bits. -/
theorem eighteen_digits_survive :
    Double.IsWhole ⟨0xC3ABC16D674EC7FF⟩ (-999999999999999872) ∧
    Double.reread ⟨0xC3ABC16D674EC7FF⟩ = ⟨0xC3ABC16D674EC7FF⟩ ∧
    ∃ f : Routine, f.root = .assign "x" (.concat (.var "x") (.string .empty)) ∧
      ∃ left, f.code.Answers (.ofNumber ⟨0xC3ABC16D674EC7FF⟩) .nothing left ∧
        left.number.numericEq ⟨0xC3ABC16D674EC7FF⟩ := by
  have whole : Double.IsWhole ⟨0xC3ABC16D674EC7FF⟩ (-999999999999999872) := by
    refine ⟨by decide, ?_, by decide⟩
    have units : Double.signedUnits ⟨0xC3ABC16D674EC7FF⟩ =
        -999999999999999872 * Double.unitsPerOne := by decide +kernel
    rw [Double.value, units, Int.cast_mul, Int.cast_natCast,
      mul_div_cancel_right₀ _ Double.unit_pos.ne']
  obtain ⟨code, compiled, -, separates⟩ := exists_compiled {} { variableName := "x" }
    (.assign "x" (.concat (.var "x") (.string .empty))) rfl (by decide) (by decide) rfl rfl
    (by decide) rfl (by decide)
  obtain ⟨-, same, kept⟩ := whole_numbers_survive_as_texts whole
  have reachable : (Cell.ofNumber ⟨0xC3ABC16D674EC7FF⟩).Reachable :=
    ⟨_, _, [], [], .ofNumber _, .idle .nil⟩
  obtain ⟨-, converted⟩ := kept _ reachable rfl _ .refl
  exact ⟨whole, same, ⟨{}, { variableName := "x" }, _, code, compiled, separates⟩, rfl,
    converted _ (.toText rfl)⟩

end whole

end TreeJit
