import TreeJit.Cli.Samples
import TreeJit.Proofs.WholeNumbers

/-! # The countdown among the samples

The countdown takes one off its variable until nothing is left.  It is offered for
every whole number that is not negative, but doubles above `2^53` are more than one
apart.  Up to there one less is exact, and `2^53 + 2` is rounded down to `2^53`.
From `2^53 + 4` on, a number that is offered keeps its countdown from ending: what
is rounded stays at `2^53 + 4` or above, since rounding keeps the order and the
half-way point `2^53 + 3` goes up.

* `Evaluates.not_of_invariant` — loops with an invariant that does not let them end.
* `Double.Stuck.sub_one` — the invariant of the countdown.
* `Cli.Sample.offered_countdown` — which countdowns end, and what they leave.
-/

namespace TreeJit

open Machine (Host Registers State Vectors)

/-! ## Loops with an invariant -/

section loop

variable {bound : String} {c left : Cell} {cond body : Node} {value : Value}

/-- A loop does not end if an invariant of its rounds keeps its condition from ending it. -/
theorem Evaluates.not_of_invariant (Invariant : Cell → Prop)
    (test : ∀ c, Invariant c → ∃ x, Eval.number bound c cond = some x ∧ ¬Eval.endsLoop x)
    (keeps : ∀ c between value, Invariant c → Evaluates bound c body value between →
      Invariant between)
    (start : Invariant c) : ¬Evaluates bound c (.loop cond body) value left := by
  intro evaluated
  generalize looped : Node.loop cond body = n at evaluated
  induction evaluated with
  | number value | string _ value =>
    subst looped
    cases value
  | assignNumber _ | assignString _ => cases looped
  | loopDone found done =>
    cases looped
    obtain ⟨x, expected, again⟩ := test _ start
    rw [found] at expected
    cases expected
    exact again done
  | loopAgain _ _ once _ _ ihRest =>
    cases looped
    exact ihRest (keeps _ _ _ start once) rfl

/-- Code that has no result to reach runs on, whatever is in the registers. -/
theorem Routine.runs_on {f : Routine} (endless : ∀ value left,
    ¬Evaluates f.context.variableName c f.root value left) (host : Host) (registers : Registers)
    (vectors : Vectors) (flag : Bool) (fuel : Nat) : ∃ s, Machine.run host f.code.program fuel
      (State.enter registers vectors flag c) = .running s := by
  have runs := (compile_ok f.compiled).runs f.separates host registers
  rcases runs.run_cases vectors flag c fuel with ⟨s, running, -⟩ | ⟨s, -, value, left, evaluated, -⟩
  · exact ⟨s, running⟩
  · exact absurd evaluated (endless value left)

end loop

namespace Double

variable {x : Double} {n : Nat}

/-! ## One less -/

theorem endsLoop_iff_isZero (finite : x.isFinite) : Eval.endsLoop x ↔ x.isZero := by
  rw [Eval.endsLoop, not_isNaN_of_isFinite finite, Bool.or_false]

theorem sub_one_eq (finite : x.isFinite) (positive : x.negative = false)
    (large : unitsPerOne ≤ x.units) :
    x.sub (ofNat 1) = round false (x.units - unitsPerOne) 1 := by
  have number := not_isNaN_of_isFinite finite
  have bounded := not_isInfinite_of_isFinite finite
  have one : (ofNat 1).isNaN = false ∧ (ofNat 1).flip.isInfinite = false ∧
      (ofNat 1).flip.signedUnits = -unitsPerOne := by decide +kernel
  obtain ⟨oneNumber, oneBounded, oneUnits⟩ := one
  have units : x.signedUnits + (ofNat 1).flip.signedUnits = (x.units - unitsPerOne : Nat) := by
    rw [oneUnits, signedUnits, positive]
    simp only [Bool.false_eq_true, if_false]
    omega
  have rounded (n : Nat) : roundSigned false n = round false n 1 := by
    rw [roundSigned]
    split
    case isTrue zero =>
      rw [Int.natCast_eq_zero.1 zero]
      decide
    case isFalse =>
      rw [decide_eq_false (by omega), Int.natAbs_natCast]
  rw [← rounded, ← units, sub, propagate, number, oneNumber, sum, bounded, oneBounded, positive]
  simp only [Bool.false_eq_true, if_false, Bool.false_and]

/-- Whole numbers of up to 53 bits are doubles. -/
theorem isWhole_ofNat (few : n ≤ 2 ^ 53) : (ofNat n).IsWhole n := by
  obtain ⟨y, finite, sign, units⟩ := exists_units_eq false (by decide : 1074 < 2045)
    (show n ≤ 2 * fractions from few)
  have value : y.magnitude = n := by
    rw [magnitude, units, Nat.cast_mul, Nat.cast_pow, Nat.cast_ofNat, ← unitsPerOne_eq,
      mul_div_cancel_right₀ _ unit_pos.ne']
  have nearest := round_isNearest false (n * unitsPerOne) Nat.one_pos
  have self := isNearest_self finite
  rw [sign, value] at self
  rw [Nat.cast_one, div_one, Nat.cast_mul, mul_div_cancel_right₀ _ unit_pos.ne'] at nearest
  rw [ofNat, nearest.unique self]
  refine ⟨finite, ?_, ?_⟩
  · rw [value_eq, sign, value]
    rfl
  · rw [Int.natAbs_natCast]
    exact few.trans_lt (by decide)

theorem IsWhole.sub_one (whole : x.IsWhole (n + 1 : Nat)) : x.sub (ofNat 1) = ofNat n := by
  have positive : x.negative = false := by
    rw [← Bool.not_eq_true, whole.negative_iff (by omega)]
    omega
  have units : x.units = (n + 1) * unitsPerOne := whole.units_eq
  have large : unitsPerOne ≤ x.units := by
    rw [units]
    exact Nat.le_mul_of_pos_left _ n.succ_pos
  rw [sub_one_eq whole.finite positive large, units, Nat.succ_mul, Nat.add_sub_cancel, ofNat]

/-! ## Numbers that one is lost on -/

/-- The pattern of `2^53 + 4`.  One less than that is half-way to the number before, and a half is
rounded to the even pattern, which is this one. -/
def stuckPattern : Nat := 0x4340000000000002

theorem unitsOf_stuckPattern : unitsOf stuckPattern = (2 ^ 53 + 4) * unitsPerOne := by
  decide +kernel

theorem stuckPattern_le_iff : stuckPattern ≤ x.pattern ↔ 2 ^ 53 + 4 ≤ x.magnitude := by
  rw [← unitsOf_strictMono.le_iff_le, unitsOf_stuckPattern, magnitude, le_div_iff₀ unit_pos, units]
  exact_mod_cast Iff.rfl

theorem magnitude_le_of_pattern_le (few : x.pattern ≤ 0x4340000000000000) :
    x.magnitude ≤ (2 ^ 53 : Nat) := by
  have bits : unitsOf 0x4340000000000000 = 2 ^ 53 * unitsPerOne := by decide +kernel
  have units : x.units ≤ 2 ^ 53 * unitsPerOne := by
    rw [← bits]
    exact unitsOf_strictMono.monotone few
  rw [magnitude, div_le_iff₀ unit_pos]
  exact_mod_cast units

/-- A number that cannot be counted down to zero. -/
structure Stuck (x : Double) : Prop where
  finite : x.isFinite
  positive : x.negative = false
  large : stuckPattern ≤ x.pattern

theorem Stuck.sub_one (stuck : x.Stuck) : (x.sub (ofNat 1)).Stuck := by
  have units : (2 ^ 53 + 4) * unitsPerOne ≤ x.units := by
    rw [← unitsOf_stuckPattern]
    exact unitsOf_strictMono.monotone stuck.large
  have one : unitsPerOne ≤ x.units := (Nat.le_mul_of_pos_left _ (by decide)).trans units
  have nearest := round_isNearest false (x.units - unitsPerOne) Nat.one_pos
  have bound : ((x.units - unitsPerOne : Nat) / (1 : Nat) / unitsPerOne : ℚ) < overflowBound := by
    have less : ((x.units - unitsPerOne : Nat) : ℚ) ≤ x.units := by
      exact_mod_cast Nat.sub_le _ _
    rw [Nat.cast_one, div_one]
    exact (div_le_div_of_nonneg_right less unit_pos.le).trans_lt
      (magnitude_lt_overflowBound stuck.finite)
  rw [← sub_one_eq stuck.finite stuck.positive one] at nearest
  have finite := nearest.finite bound
  -- `2^53 + 3` is half-way between two doubles, and the even one is the larger one.
  have rounds : RoundsTo ((2 ^ 53 + 3) * unitsPerOne) 1 stuckPattern := by
    have even : unboundedPattern ((2 ^ 53 + 3) * unitsPerOne) 1 = stuckPattern := by decide +kernel
    rw [← even]
    exact unboundedPattern_roundsTo _ Nat.one_pos
  have less : (2 ^ 53 + 3) * unitsPerOne ≤ x.units - unitsPerOne := by
    rw [Nat.le_sub_iff_add_le one, ← Nat.succ_mul]
    exact units
  exact ⟨finite, nearest.sign, rounds.mono Nat.one_pos less (nearest.roundsTo Nat.one_pos finite)⟩

theorem Stuck.not_endsLoop (stuck : x.Stuck) : ¬Eval.endsLoop x := by
  have large : 0 < x.pattern := Nat.lt_of_lt_of_le (by decide) stuck.large
  rw [endsLoop_iff_isZero stuck.finite, isZero, decide_eq_true_eq]
  omega

end Double

namespace Cli.Sample

open Double (Stuck stuckPattern)

variable {value : Double} {c left : Cell} {n : Nat}

/-! ## The countdown -/

theorem mem_all_iff {sample : Sample} (named : sample.name = "countdown") :
    sample ∈ all value ↔ sample = countdown ∧ countsDown value := by
  have others : sample ≠ arith ∧ sample ≠ negate ∧ sample ≠ concat ∧ sample ≠ label ∧
      sample ≠ print := by
    refine ⟨?_, ?_, ?_, ?_, ?_⟩ <;>
    · rintro rfl
      exact absurd named (by decide)
  obtain ⟨h₁, h₂, h₃, h₄, h₅⟩ := others
  by_cases offered : countsDown value
  · simp [all, offered, h₁, h₂, h₃, h₄, h₅]
  · simp [all, offered, h₁, h₂, h₃, h₄, h₅]

theorem test_eq (c : Cell) : Eval.number sampleVariable c x = some c.number := if_pos rfl

/-- The body of the countdown takes one off. -/
theorem body_evaluates_iff {result : Value} :
    Evaluates sampleVariable c (.assign sampleVariable (.binary .sub x (whole 1))) result left ↔
      result = .nothing ∧ left = c.setNumber (c.number.sub (.ofNat 1)) := by
  have difference : Eval.number sampleVariable c (.binary .sub x (whole 1)) =
      some (c.number.sub (.ofNat 1)) := rfl
  constructor
  · intro evaluated
    cases evaluated with
    | number value | string _ value => cases value
    | assignNumber evaluated =>
      cases evaluated with
      | number value =>
        rw [difference] at value
        cases value
        exact ⟨rfl, rfl⟩
    | assignString evaluated =>
      cases evaluated with
      | string _ value => cases value
  · rintro ⟨rfl, rfl⟩
    exact .assignNumber (.number difference)

theorem countdown_next (again : ¬Eval.endsLoop c.number)
    (rest : Evaluates sampleVariable (c.setNumber (c.number.sub (.ofNat 1))) countdown.tree .nothing
      left) : Evaluates sampleVariable c countdown.tree .nothing left :=
  .loopAgain (test_eq c) again (body_evaluates_iff.2 ⟨rfl, rfl⟩) rest

/-- The countdown ends for whole numbers of up to 53 bits, since one less is exact. -/
theorem countdown_ends (whole : c.number.IsWhole n) (few : n ≤ 2 ^ 53) :
    ∃ left, Evaluates sampleVariable c countdown.tree .nothing left ∧ left.number.isZero := by
  induction n generalizing c with
  | zero =>
    have zero : c.number.isZero := whole.isZero_iff.2 rfl
    exact ⟨c, .loopDone (test_eq c) (by rw [Eval.endsLoop, zero, Bool.true_or]), zero⟩
  | succ n ih =>
    have next : (c.setNumber (c.number.sub (.ofNat 1))).number.IsWhole n := by
      rw [whole.sub_one]
      exact Double.isWhole_ofNat (Nat.le_of_succ_le few)
    obtain ⟨left, rest, zero⟩ := ih next (Nat.le_of_succ_le few)
    have again : ¬Eval.endsLoop c.number := by
      rw [Double.endsLoop_iff_isZero whole.finite, whole.isZero_iff]
      omega
    exact ⟨left, countdown_next again rest, zero⟩

/-- The countdown does not end from `2^53 + 4` on, since no round leaves less than that. -/
theorem countdown_spins (stuck : c.number.Stuck) {result : Value} :
    ¬Evaluates sampleVariable c countdown.tree result left := by
  apply Evaluates.not_of_invariant (fun c => c.number.Stuck) _ _ stuck
  · intro c stuck
    exact ⟨c.number, test_eq c, stuck.not_endsLoop⟩
  · intro c between value stuck once
    obtain ⟨-, rfl⟩ := body_evaluates_iff.1 once
    exact stuck.sub_one

/-! ## Offered countdowns -/

/-- The least number that is counted down and not exactly: `2^53 + 2`, one less than which is
half-way between two doubles, and the even one is the smaller one. -/
theorem countdown_ends_after_rounding (number : c.number = ⟨0x4340000000000001⟩) :
    ∃ left, Evaluates sampleVariable c countdown.tree .nothing left ∧ left.number.isZero := by
  have again : ¬Eval.endsLoop c.number := by
    rw [number]
    decide
  have next : c.number.sub (.ofNat 1) = .ofNat (2 ^ 53) := by
    rw [number]
    decide +kernel
  have whole : (c.setNumber (c.number.sub (.ofNat 1))).number.IsWhole (2 ^ 53 : Nat) := by
    rw [next]
    exact Double.isWhole_ofNat le_rfl
  obtain ⟨left, rest, zero⟩ := countdown_ends whole le_rfl
  exact ⟨left, countdown_next again rest, zero⟩

theorem countsDown_spec (offered : countsDown value) :
    value.isFinite ∧ (∃ n : Nat, value.magnitude = n) ∧
      (value.pattern ≠ 0 → value.negative = false) := by
  rw [countsDown, Bool.and_eq_true] at offered
  obtain ⟨integral, sign⟩ := offered
  obtain ⟨finite, whole⟩ := Double.isIntegral_iff.1 integral
  refine ⟨finite, whole, fun nonzero => ?_⟩
  simpa [Double.isZero, nonzero] using sign

theorem isWhole_of_countsDown (offered : countsDown value)
    (few : value.pattern ≤ 0x4340000000000000) : ∃ n ≤ 2 ^ 53, value.IsWhole (n : Nat) := by
  obtain ⟨finite, ⟨n, whole⟩, positive⟩ := countsDown_spec offered
  by_cases zero : value.pattern = 0
  · exact ⟨0, by decide, Double.isWhole_zero (decide_eq_true zero)⟩
  · have few := Double.magnitude_le_of_pattern_le few
    rw [whole, Nat.cast_le] at few
    refine ⟨n, few, finite, ?_, ?_⟩
    · rw [Double.value_eq, positive zero, whole]
      rfl
    · rw [Int.natAbs_natCast]
      exact few.trans_lt (by decide)

theorem countdown_ends_below (offered : countsDown value) (small : value.pattern < stuckPattern) :
    ∃ left, Evaluates sampleVariable (.ofNumber value) countdown.tree .nothing left ∧
      left.number.isZero := by
  rcases Nat.lt_or_eq_of_le (Nat.le_of_lt_succ small) with few | last
  · obtain ⟨n, few, whole⟩ := isWhole_of_countsDown offered (Nat.le_of_lt_succ few)
    exact countdown_ends whole few
  · obtain ⟨-, -, positive⟩ := countsDown_spec offered
    apply countdown_ends_after_rounding
    change value = _
    rw [← value.ofPattern_negative_pattern, positive (by rw [last]; decide), last]
    rfl

theorem stuck_of_countsDown (offered : countsDown value) (large : stuckPattern ≤ value.pattern) :
    value.Stuck := by
  obtain ⟨finite, -, positive⟩ := countsDown_spec offered
  exact ⟨finite, positive (Nat.ne_of_gt (Nat.lt_of_lt_of_le (by decide) large)), large⟩

variable {sample : Sample}

/-- A countdown that is offered ends for numbers below `2^53 + 4`, and it leaves zero.  For larger
numbers it is offered as well, but its code runs on forever, since no round gets below that. -/
theorem offered_countdown (offered : sample ∈ all value) (named : sample.name = "countdown")
    (f : Routine) (bound : f.context.variableName = sampleVariable) (tree : f.root = sample.tree) :
    (value.magnitude < 2 ^ 53 + 4 →
      ∃ left, f.code.Answers (.ofNumber value) .nothing left ∧ left.number.numericEq .zero) ∧
    (2 ^ 53 + 4 ≤ value.magnitude →
      ∀ (host : Host) (registers : Registers) (vectors : Vectors) (flag : Bool) (fuel : Nat),
        ∃ s, Machine.run host f.code.program fuel
          (State.enter registers vectors flag (.ofNumber value)) = .running s) := by
  obtain ⟨rfl, counts⟩ := (mem_all_iff named).1 offered
  rw [← not_le, ← Double.stuckPattern_le_iff, not_le]
  constructor
  · intro small
    obtain ⟨left, evaluated, zero⟩ := countdown_ends_below counts small
    rw [← bound, ← tree] at evaluated
    exact ⟨left, .of_evaluates f.compiled f.separates evaluated,
      (Double.numericEq_iff rfl).2 (.inr ⟨zero, rfl⟩)⟩
  · intro large
    apply Routine.runs_on
    rw [bound, tree]
    intro result left
    exact countdown_spins (c := .ofNumber value) (stuck_of_countsDown counts large)

theorem exists_countdown : ∃ f : Routine, f.context.variableName = sampleVariable ∧
    f.root = countdown.tree := by
  obtain ⟨code, compiled, -, separates⟩ := exists_compiled {} { variableName := sampleVariable }
    countdown.tree rfl (by decide) (by decide) rfl rfl (by decide) rfl (by decide)
  exact ⟨⟨{}, { variableName := sampleVariable }, _, code, compiled, separates⟩, rfl, rfl⟩

/-- The largest number whose countdown ends, and the smallest one whose countdown does not. -/
theorem countdown_at_the_limit :
    (countdown ∈ all ⟨0x4340000000000001⟩ ∧ ∃ f : Routine, f.root = countdown.tree ∧
      ∃ left, f.code.Answers (.ofNumber ⟨0x4340000000000001⟩) .nothing left ∧
        left.number.numericEq .zero) ∧
    (countdown ∈ all ⟨0x4340000000000002⟩ ∧ ∃ f : Routine, f.root = countdown.tree ∧
      ∀ fuel, ∃ s, Machine.run Host.zero f.code.program fuel
        (State.enter .zero .zero false (.ofNumber ⟨0x4340000000000002⟩)) = .running s) := by
  obtain ⟨f, bound, tree⟩ := exists_countdown
  have offered : countdown ∈ all ⟨0x4340000000000001⟩ :=
    (mem_all_iff rfl).2 ⟨rfl, by decide +kernel⟩
  have offered' : countdown ∈ all ⟨0x4340000000000002⟩ :=
    (mem_all_iff rfl).2 ⟨rfl, by decide +kernel⟩
  obtain ⟨ends, -⟩ := offered_countdown offered rfl f bound tree
  obtain ⟨-, spins⟩ := offered_countdown offered' rfl f bound tree
  refine ⟨⟨offered, f, tree, ends ?_⟩, offered', f, tree, spins ?_ _ _ _ _⟩
  · rw [← not_le, ← Double.stuckPattern_le_iff]
    decide
  · rw [← Double.stuckPattern_le_iff]
    decide

/-- Not every countdown that is offered ends: one from `2^53 + 4` does not. -/
theorem not_every_offered_countdown_ends :
    ¬∀ (value : Double) (sample : Sample), sample ∈ all value → sample.name = "countdown" →
      ∀ f : Routine, f.context.variableName = sampleVariable → f.root = sample.tree →
        ∃ left, f.code.Answers (.ofNumber value) .nothing left ∧ left.number.numericEq .zero := by
  intro ends
  have counts : countsDown ⟨0x4340000000000002⟩ := by decide +kernel
  obtain ⟨f, bound, tree⟩ := exists_countdown
  obtain ⟨left, answers, -⟩ := ends _ _ ((mem_all_iff rfl).2 ⟨rfl, counts⟩) rfl f bound tree
  obtain ⟨fuel, s, returned, -⟩ := answers.returns Host.zero .zero .zero false
  have endless (value : Value) (left : Cell) : ¬Evaluates f.context.variableName
      (.ofNumber ⟨0x4340000000000002⟩) f.root value left := by
    rw [bound, tree]
    exact countdown_spins (c := .ofNumber _) (stuck_of_countsDown counts (by decide))
  obtain ⟨s', running⟩ := Routine.runs_on endless Host.zero .zero .zero false fuel
  cases returned.symm.trans running

end Cli.Sample

end TreeJit
