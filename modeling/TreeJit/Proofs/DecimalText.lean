import Mathlib.Data.List.DropRight
import TreeJit.Decimal.General
import TreeJit.Proofs.NumeralGrammar

/-! # What written numbers denote

The digits that are written for a number are a numeral of it, and so is
positional notation, before and after the zeros at its end are dropped.

The non-trivial ingredients are `trimFraction_zeros` and `trimFraction_pointed`:
zeros are dropped behind a point only, and the point itself just when no digit is
left behind it.  That is why the digits of the whole part are safe.

* `trimmed_positional` — the trimmed text is a mantissa with the value of the
  untrimmed one, and nothing is left to be dropped.
* `readLeading_of_spells` — a text that is a numeral as a whole is read as such.
-/

namespace TreeJit.Decimal

theorem powerOfTen_eq (k : Nat) : powerOfTen k = 10 ^ k := rfl

theorem powerOfTen_pos (k : Nat) : 0 < powerOfTen k := Nat.pow_pos (by decide)

/-! ## Digits -/

theorem allDigits_digits (n : Nat) : AllDigits (digits n) := fun _ known =>
  Nat.isDigit_of_mem_toDigits (by decide) (by decide) known

theorem digits_ne_nil (n : Nat) : digits n ≠ [] := Nat.toDigits_ne_nil

/-- No zero is written before the digits of a number. -/
theorem head_digits_ne_zero {n : Nat} (positive : 0 < n) : (digits n).head? ≠ some '0' := by
  induction n using Nat.strongRecOn with
  | ind n ih =>
    rw [digits, Nat.toDigits_eq_if (by decide)]
    split
    case isTrue small => simpa using positive.ne'
    case isFalse large =>
      rw [List.head?_append_of_ne_nil _ Nat.toDigits_ne_nil]
      exact ih (n / 10) (by omega) (by omega)

theorem pow_log10_le {n : Nat} (positive : 0 < n) : 10 ^ log10 n ≤ n := by
  rcases Nat.eq_zero_or_pos (log10 n) with zero | more
  · rw [zero]
    exact positive
  · by_contra less
    have short := (Nat.length_toDigits_le_iff (by decide) more).2 (Nat.lt_of_not_le less)
    have long : 0 < (Nat.toDigits 10 n).length := Nat.length_toDigits_pos
    rw [log10, digits] at short
    omega

theorem lt_pow_log10_succ (n : Nat) : n < 10 ^ (log10 n + 1) := by
  have long : 0 < (Nat.toDigits 10 n).length := Nat.length_toDigits_pos
  have count : log10 n + 1 = (Nat.toDigits 10 n).length := by
    rw [log10, digits]
    omega
  rw [count]
  exact (Nat.length_toDigits_le_iff (by decide) long).1 le_rfl

/-! ## Padding -/

theorem readDigits_replicate_zero (k : Nat) : readDigits (List.replicate k '0') = 0 := by
  simp [readDigits, Nat.ofDigitChars_replicate_zero]

theorem readDigits_append_zeros (ds : List Char) (k : Nat) :
    readDigits (ds ++ List.replicate k '0') = readDigits ds * 10 ^ k := by
  rw [readDigits_append, readDigits_replicate_zero, List.length_replicate, Nat.add_zero,
    powerOfTen_eq]

@[simp] theorem readDigits_padded (width n : Nat) : readDigits (padded width n) = n := by
  rw [padded, List.leftpad, readDigits_append, readDigits_replicate_zero, Nat.zero_mul, Nat.zero_add,
    readDigits_digits]

theorem allDigits_padded (width n : Nat) : AllDigits (padded width n) := by
  intro c known
  rw [padded, List.leftpad, List.mem_append, List.mem_replicate] at known
  rcases known with ⟨-, rfl⟩ | digit
  · decide
  · exact allDigits_digits n c digit

theorem length_padded_eq_max (width n : Nat) :
    (padded width n).length = max width (digits n).length := by
  rw [padded, List.length_leftpad]

theorem length_padded {width n : Nat} (positive : 0 < width) (small : n < powerOfTen width) :
    (padded width n).length = width := by
  rw [length_padded_eq_max]
  exact Nat.max_eq_left ((Nat.length_toDigits_le_iff (by decide) positive).2 small)

/-! ## Trimming -/

/-- A text that ends neither in a point nor in a zero behind a point. -/
def Trimmed (cs : List Char) : Prop :=
  cs.getLast? ≠ some '.' ∧ ('.' ∈ cs → cs.getLast? ≠ some '0')

theorem AllDigits.point_not_mem {ds : List Char} (digits : AllDigits ds) : '.' ∉ ds := fun point =>
  absurd (digits '.' point) (by decide)

theorem AllDigits.trimmed {ds : List Char} (digits : AllDigits ds) : Trimmed ds := by
  refine ⟨fun last => ?_, fun point => absurd point digits.point_not_mem⟩
  exact digits.point_not_mem (List.mem_of_getLast? last)

theorem trimFraction_eq {cs : List Char} (point : '.' ∈ cs) :
    trimFraction cs = (cs.rdropWhile (· == '0')).rdropWhile (· == '.') := by
  simp [trimFraction, List.rdropWhile, point]

theorem rdropWhile_zeros (cs : List Char) (k : Nat) :
    (cs ++ List.replicate k '0').rdropWhile (· == '0') = cs.rdropWhile (· == '0') := by
  induction k with
  | zero => simp
  | succ k ih =>
    rw [List.replicate_succ', ← List.append_assoc, List.rdropWhile_concat_pos _ _ _ (by simp), ih]

/-- A fraction of zeros goes, and the point goes with it. -/
theorem trimFraction_zeros {ds : List Char} (digits : AllDigits ds) (k : Nat) :
    trimFraction (ds ++ '.' :: List.replicate k '0') = ds := by
  rw [trimFraction_eq (by simp), List.append_cons, rdropWhile_zeros,
    List.rdropWhile_concat_neg _ _ _ (by simp), List.rdropWhile_concat_pos _ _ _ (by simp),
    List.rdropWhile_eq_self_iff]
  intro some point
  rw [beq_iff_eq] at point
  exact digits.point_not_mem (point ▸ List.getLast_mem some)

/-- The zeros at the end of a fraction go, and the rest stays. -/
theorem trimFraction_pointed (ds front : List Char) {c : Char} (digit : c.isDigit)
    (nonzero : c ≠ '0') (k : Nat) :
    trimFraction (ds ++ '.' :: (front ++ [c] ++ List.replicate k '0')) =
      ds ++ '.' :: (front ++ [c]) := by
  have zero : ¬((c == '0') = true) := by simpa using nonzero
  have point : ¬((c == '.') = true) := by
    rw [beq_iff_eq]
    rintro rfl
    cases digit
  have regroup (tail : List Char) :
      ds ++ '.' :: (front ++ [c] ++ tail) = ds ++ '.' :: front ++ [c] ++ tail := by simp
  rw [trimFraction_eq (by simp), regroup, rdropWhile_zeros,
    List.rdropWhile_concat_neg (fun d => d == '0') _ _ zero,
    List.rdropWhile_concat_neg (fun d => d == '.') _ _ point]
  simp

/-- A text consists of zeros, or of zeros behind some other character and what is before it. -/
theorem zeros_cases (fs : List Char) : (∃ k, fs = List.replicate k '0') ∨
    ∃ front c k, fs = front ++ [c] ++ List.replicate k '0' ∧ c ≠ '0' := by
  induction fs using List.reverseRecOn with
  | nil => exact .inl ⟨0, rfl⟩
  | append_singleton fs c ih =>
    by_cases zero : c = '0'
    · subst zero
      rcases ih with ⟨k, rfl⟩ | ⟨front, c, k, rfl, nonzero⟩
      · exact .inl ⟨k + 1, List.replicate_succ'.symm⟩
      · exact .inr ⟨front, c, k + 1, by rw [List.replicate_succ', List.append_assoc _ _ ['0']],
          nonzero⟩
    · exact .inr ⟨fs, c, 0, by simp, zero⟩

theorem positional_zero (n : Nat) : positional n 0 = digits n := by
  simp [positional, powerOfTen]

theorem positional_of_pos (n : Nat) {places : Nat} (positive : 0 < places) :
    positional n places =
      digits (n / powerOfTen places) ++ '.' :: padded places (n % powerOfTen places) := by
  simp [positional, positive.ne']

theorem readDigits_positional (n : Nat) {places : Nat} (positive : 0 < places) :
    readDigits (digits (n / powerOfTen places) ++ padded places (n % powerOfTen places)) = n := by
  have small := Nat.mod_lt n (powerOfTen_pos places)
  rw [readDigits_append, length_padded positive small, readDigits_digits, readDigits_padded,
    Nat.div_add_mod']

/-- Positional notation without the zeros at its end is a mantissa with the same value. -/
theorem trimmed_positional (n places : Nat) : ∃ coefficient kept,
    IsMantissa coefficient kept (trimFraction (positional n places)) ∧
    Trimmed (trimFraction (positional n places)) ∧ kept ≤ places ∧
    coefficient * 10 ^ (places - kept) = n := by
  rcases Nat.eq_zero_or_pos places with rfl | positive
  · have digits := allDigits_digits n
    have kept : trimFraction (positional n 0) = Decimal.digits n := by
      rw [positional_zero, trimFraction, if_neg digits.point_not_mem]
    rw [kept]
    refine ⟨_, 0, .whole digits (digits_ne_nil n), digits.trimmed, le_rfl, ?_⟩
    simp
  · have value := readDigits_positional n positive
    have length := length_padded positive (Nat.mod_lt n (powerOfTen_pos places))
    have digits := allDigits_digits (n / powerOfTen places)
    have digits' := allDigits_padded places (n % powerOfTen places)
    have some := digits_ne_nil (n / powerOfTen places)
    rw [positional_of_pos n positive]
    generalize Decimal.digits (n / powerOfTen places) = ds at digits some value ⊢
    generalize padded places (n % powerOfTen places) = fs at digits' length value ⊢
    rcases zeros_cases fs with ⟨k, rfl⟩ | ⟨front, c, k, rfl, nonzero⟩
    · rw [List.length_replicate] at length
      rw [readDigits_append_zeros] at value
      rw [trimFraction_zeros digits]
      refine ⟨_, 0, .whole digits some, digits.trimmed, Nat.zero_le _, ?_⟩
      rwa [Nat.sub_zero, ← length]
    · rw [List.length_append, List.length_replicate] at length
      rw [← List.append_assoc, readDigits_append_zeros] at value
      have digits' : AllDigits (front ++ [c]) := (List.forall_mem_append.1 digits').1
      have digit : c.isDigit := digits' c (by simp)
      rw [trimFraction_pointed ds front digit nonzero]
      refine ⟨_, (front ++ [c]).length, .pointed digits some digits', ?_, by omega, ?_⟩
      · have last : (ds ++ '.' :: (front ++ [c])).getLast? = .some c := by
          rw [← List.cons_append, ← List.append_assoc, List.getLast?_concat]
        rw [Trimmed, last]
        refine ⟨?_, fun _ => by simpa using nonzero⟩
        rintro ⟨⟩
        cases digit
      · rwa [show places - (front ++ [c]).length = k by omega]

/-! ## Signs and exponents -/

theorem isSign_minus (negative : Bool) : IsSign negative (if negative then ['-'] else []) := by
  cases negative with
  | true => exact .minus
  | false => exact .none

theorem isExponent_of_digits {read : List Char → Nat} {exponent : Int} {ds : List Char}
    (digits : AllDigits ds) (some : ds ≠ []) (reads : read ds = exponent.natAbs) :
    IsExponent read exponent ('e' :: (if exponent < 0 then '-' else '+') :: ds) := by
  by_cases down : exponent < 0
  · have value : IsExponent read _ ('e' :: (['-'] ++ ds)) :=
      .signed (.inl rfl) .minus digits some
    rw [if_pos rfl, reads, show -(exponent.natAbs : Int) = exponent by omega] at value
    simpa [down] using value
  · have value : IsExponent read _ ('e' :: (['+'] ++ ds)) :=
      .signed (.inl rfl) .plus digits some
    rw [if_neg Bool.false_ne_true, reads, show (exponent.natAbs : Int) = exponent by omega] at value
    simpa [down] using value

/-! ## Reading back -/

theorem not_isBlank {c : Char} (ink : 0x20 < c.toNat) (ascii : c.toNat < 0x80) :
    Text.isBlank c = false := by
  simp only [Text.isBlank, Text.inRanges, Text.blankRanges, List.any_cons, List.any_nil,
    Bool.or_false, Bool.or_eq_false_iff, Bool.and_eq_false_iff, decide_eq_false_iff_not]
  omega

theorem not_isBlank_of_isDigit {c : Char} (digit : c.isDigit) : Text.isBlank c = false := by
  simp only [Char.isDigit, Bool.and_eq_true, decide_eq_true_eq] at digit
  have low : '0'.toNat ≤ c.toNat := UInt32.le_iff_toNat_le.1 digit.1
  have high : c.toNat ≤ '9'.toNat := UInt32.le_iff_toNat_le.1 digit.2
  exact not_isBlank (Nat.lt_of_lt_of_le (by decide) low) (Nat.lt_of_le_of_lt high (by decide))

/-- A numeral begins with no blank. -/
theorem Numeral.Spells.head_not_blank {read : List Char → Nat} {n : Numeral} {text : List Char}
    (spelled : n.Spells read text) : ∀ c ∈ text.head?, Text.isBlank c = false := by
  obtain ⟨isSign, isMantissa, -⟩ := spelled
  rename_i suffix
  cases isSign with
  | plus | minus =>
    rintro c ⟨⟩
    decide
  | none =>
    rw [List.nil_append]
    cases isMantissa with
    | whole digits some =>
      exact fun c head => not_isBlank_of_isDigit (digits.head_append some suffix c head)
    | pointed digits some _ =>
      rw [List.append_assoc]
      exact fun c head => not_isBlank_of_isDigit (digits.head_append some _ c head)
    | bare _ _ =>
      rintro c ⟨⟩
      decide

theorem Numeral.Spells.ne_nil {read : List Char → Nat} {n : Numeral} {text : List Char}
    (spelled : n.Spells read text) : text ≠ [] := by
  obtain ⟨-, isMantissa, -⟩ := spelled
  cases isMantissa with
  | whole _ some => simp [some]
  | pointed _ _ _ | bare _ _ => simp

/-- A text that is a numeral as a whole is read as such. -/
theorem readLeading_of_spells {n : Numeral} {text : List Char}
    (spelled : n.Spells readExponent text) : readLeading text = n.toDouble := by
  have start : text.dropWhile Text.isBlank = text := by
    cases text with
    | nil => rfl
    | cons c text => rw [List.dropWhile_cons, spelled.head_not_blank c rfl, if_neg (by simp)]
  rw [readLeading, start, Numeral.scan_eq, Numeral.scanBy_of_spells _ spelled]

end TreeJit.Decimal
