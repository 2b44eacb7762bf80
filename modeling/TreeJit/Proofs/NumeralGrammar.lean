import TreeJit.Proofs.NearestDouble

/-! # The grammar of numerals

A numeral is `[+-]?(D+(.D*)?|.D+)([eE][+-]?D+)?` with `D` an ASCII digit.  The
scanner of numerals goes from left to right and never goes back, except that an
`e` without digits behind it is left where it is.

* `Decimal.Numeral.Spells` — the grammar, with the numeral that each text denotes.
* `Decimal.Numeral.scanBy_sound` and `Decimal.Numeral.scanBy_longest` — the scanner
  takes a text of the grammar, and none that the text starts with is longer.
* `Decimal.readDoubleBy_isSome_iff` — what is read as a double.
* `Decimal.Numeral.toDouble_eq_of_short` — exponents that are not read to their end
  make no difference to texts of less than `2^15` characters.

All of this holds of any way to read the digits of an exponent: of
`Decimal.readExponent`, which gives up at some point, and of `Decimal.readDigits`.
-/

namespace TreeJit.Decimal

/-! ## The grammar -/

/-- An optional sign, and whether it is a minus. -/
inductive IsSign : Bool → List Char → Prop where
  | none : IsSign false []
  | plus : IsSign false ['+']
  | minus : IsSign true ['-']

def AllDigits (ds : List Char) : Prop := ∀ c ∈ ds, c.isDigit

/-- Digits with an optional point among them, the number that they denote without the point, and
how many of them follow it. -/
inductive IsMantissa : Nat → Nat → List Char → Prop where
  | whole {ds : List Char} : AllDigits ds → ds ≠ [] → IsMantissa (readDigits ds) 0 ds
  | pointed {ds fs : List Char} : AllDigits ds → ds ≠ [] → AllDigits fs →
      IsMantissa (readDigits (ds ++ fs)) fs.length (ds ++ '.' :: fs)
  | bare {fs : List Char} : AllDigits fs → fs ≠ [] →
      IsMantissa (readDigits fs) fs.length ('.' :: fs)

/-- An optional exponent and its value, where `read` gives the value of its digits. -/
inductive IsExponent (read : List Char → Nat) : Int → List Char → Prop where
  | none : IsExponent read 0 []
  | signed {e : Char} {negative : Bool} {sign ds : List Char} : e = 'e' ∨ e = 'E' →
      IsSign negative sign → AllDigits ds → ds ≠ [] →
      IsExponent read (if negative then -(read ds : Int) else read ds) (e :: (sign ++ ds))

namespace Numeral

/-- The texts of a numeral, where `read` gives the value of the digits of an exponent. -/
inductive Spells (read : List Char → Nat) : Numeral → List Char → Prop where
  | intro {negative : Bool} {coefficient places : Nat} {exponent : Int}
      {sign mantissa suffix : List Char} : IsSign negative sign →
      IsMantissa coefficient places mantissa → IsExponent read exponent suffix →
      Spells read ⟨negative, coefficient, exponent - places⟩ (sign ++ (mantissa ++ suffix))

def magnitude (n : Numeral) : ℚ := n.coefficient * 10 ^ n.exponent

theorem toDouble_isNearest (n : Numeral) :
    Double.IsNearest n.negative n.magnitude n.toDouble :=
  Double.ofDecimal_isNearest n.negative n.coefficient n.exponent

end Numeral

/-! ## Splitting texts -/

theorem splitSign_sound (cs : List Char) :
    ∃ sign, cs = sign ++ (splitSign cs).2 ∧ IsSign (splitSign cs).1 sign := by
  unfold splitSign
  split
  · exact ⟨['-'], rfl, .minus⟩
  · exact ⟨['+'], rfl, .plus⟩
  · exact ⟨[], rfl, .none⟩

/-- A sign is taken off as a whole if no other sign follows. -/
theorem splitSign_append {negative : Bool} {sign cs : List Char} (signed : IsSign negative sign)
    (other : ∀ c ∈ cs.head?, c ≠ '+' ∧ c ≠ '-') : splitSign (sign ++ cs) = (negative, cs) := by
  cases signed with
  | plus | minus => rfl
  | none =>
    cases cs with
    | nil => rfl
    | cons c cs =>
      obtain ⟨plus, minus⟩ := other c rfl
      simp [splitSign, plus, minus]

theorem splitDigits_sound (cs : List Char) :
    cs = (splitDigits cs).1 ++ (splitDigits cs).2 ∧ AllDigits (splitDigits cs).1 :=
  ⟨List.takeWhile_append_dropWhile.symm, List.all_eq_true.1 List.all_takeWhile⟩

theorem splitDigits_append {ds : List Char} (digits : AllDigits ds) (cs : List Char) :
    splitDigits (ds ++ cs) = (ds ++ (splitDigits cs).1, (splitDigits cs).2) := by
  simp only [splitDigits, List.takeWhile_append_of_pos digits, List.dropWhile_append_of_pos digits]

theorem AllDigits.head_append {ds : List Char} (digits : AllDigits ds) (some : ds ≠ [])
    (cs : List Char) : ∀ c ∈ (ds ++ cs).head?, c.isDigit := by
  cases ds with
  | nil => exact absurd rfl some
  | cons d ds =>
    rintro c ⟨⟩
    exact digits d List.mem_cons_self

theorem toNat_le_of_isDigit {c : Char} (digit : c.isDigit) : c.toNat ≤ '9'.toNat := by
  simp only [Char.isDigit, Bool.and_eq_true, decide_eq_true_eq] at digit
  exact UInt32.le_iff_toNat_le.1 digit.2

theorem not_sign_of_isDigit {c : Char} (digit : c.isDigit) : c ≠ '+' ∧ c ≠ '-' := by
  constructor <;> rintro rfl <;> cases digit

theorem splitDigits_of_head {cs : List Char} (other : ∀ c ∈ cs.head?, ¬c.isDigit) :
    splitDigits cs = ([], cs) := by
  cases cs with
  | nil => rfl
  | cons c cs => simp [splitDigits, other c rfl]

theorem splitDigits_suffix (cs : List Char) : (splitDigits cs).2 <:+ cs :=
  List.dropWhile_suffix _

theorem splitFraction_suffix (cs : List Char) : (splitFraction cs).2 <:+ cs := by
  unfold splitFraction
  split
  · exact (splitDigits_suffix _).trans (List.suffix_cons _ _)
  · exact List.suffix_refl _

theorem splitFraction_sound (cs : List Char) : splitFraction cs = ([], cs) ∨
    cs = '.' :: ((splitFraction cs).1 ++ (splitFraction cs).2) ∧
      AllDigits (splitFraction cs).1 := by
  unfold splitFraction
  split
  · rename_i cs
    obtain ⟨split, digits⟩ := splitDigits_sound cs
    exact .inr ⟨congrArg _ split, digits⟩
  · exact .inl rfl

theorem splitFraction_of_head {cs : List Char} (other : ∀ c ∈ cs.head?, c ≠ '.') :
    splitFraction cs = ([], cs) := by
  cases cs with
  | nil => rfl
  | cons c cs => simp [splitFraction, other c rfl]

/-- The value of a complete exponent part that the text starts with, where `read` gives the value of
its digits. -/
def splitExponentBy (read : List Char → Nat) (cs : List Char) : Int × List Char :=
  match cs with
  | c :: rest =>
    if c = 'e' ∨ c = 'E' then
      let (negative, unsigned) := splitSign rest
      let (ds, after) := splitDigits unsigned
      if ds = [] then (0, cs)
      else (if negative then -(read ds : Int) else read ds, after)
    else (0, cs)
  | [] => (0, cs)

section

variable (read : List Char → Nat)

theorem splitExponentBy_sound (cs : List Char) :
    ∃ suffix, cs = suffix ++ (splitExponentBy read cs).2 ∧
      IsExponent read (splitExponentBy read cs).1 suffix := by
  have nothing (same : splitExponentBy read cs = (0, cs)) : ∃ suffix,
      cs = suffix ++ (splitExponentBy read cs).2 ∧
        IsExponent read (splitExponentBy read cs).1 suffix := by
    rw [same]
    exact ⟨[], rfl, .none⟩
  cases cs with
  | nil => exact nothing rfl
  | cons c rest =>
    by_cases letter : c = 'e' ∨ c = 'E'
    · by_cases empty : (splitDigits (splitSign rest).2).1 = []
      · exact nothing (by simp [splitExponentBy, letter, empty])
      · obtain ⟨sign, split, signed⟩ := splitSign_sound rest
        obtain ⟨split', digits⟩ := splitDigits_sound (splitSign rest).2
        refine ⟨c :: (sign ++ (splitDigits (splitSign rest).2).1), ?_, ?_⟩
        · simp only [splitExponentBy, letter, empty, if_true, if_false, List.cons_append,
            List.append_assoc, ← split', ← split]
        · simp only [splitExponentBy, letter, empty, if_true, if_false]
          exact .signed letter signed digits empty
    · exact nothing (by simp [splitExponentBy, letter])

theorem splitExponentBy_suffix (cs : List Char) : (splitExponentBy read cs).2 <:+ cs := by
  obtain ⟨suffix, split, -⟩ := splitExponentBy_sound read cs
  exact ⟨suffix, split.symm⟩

/-- An exponent is taken with all digits that follow it. -/
theorem splitExponentBy_append {negative : Bool} {e : Char} {sign ds : List Char}
    (letter : e = 'e' ∨ e = 'E') (signed : IsSign negative sign) (digits : AllDigits ds)
    (some : ds ≠ []) (cs : List Char) :
    splitExponentBy read (e :: (sign ++ (ds ++ cs))) =
      (if negative then -(read (ds ++ (splitDigits cs).1) : Int)
        else read (ds ++ (splitDigits cs).1), (splitDigits cs).2) := by
  have unsigned : ∀ c ∈ (ds ++ cs).head?, c ≠ '+' ∧ c ≠ '-' := fun c head =>
    not_sign_of_isDigit (digits.head_append some cs c head)
  simp [splitExponentBy, letter, splitSign_append signed unsigned, splitDigits_append digits, some]

end

namespace Numeral

variable (read : List Char → Nat)

/-- The longest numeral at the start of a text, and the rest of the text, where `read` gives the
value of the digits of an exponent. -/
def scanBy (cs : List Char) : Option (Numeral × List Char) :=
  let (negative, unsigned) := splitSign cs
  let (whole, afterWhole) := splitDigits unsigned
  let (fraction, afterFraction) := splitFraction afterWhole
  if whole = [] ∧ fraction = [] then none
  else
    let (exponent, rest) := splitExponentBy read afterFraction
    some (⟨negative, readLong (whole ++ fraction), exponent - fraction.length⟩, rest)

theorem scan_eq (cs : List Char) : scan cs = scanBy readExponent cs := rfl

section scan

variable {cs unsigned whole afterWhole fraction afterFraction : List Char} {negative : Bool}
  (signed : splitSign cs = (negative, unsigned))
  (split : splitDigits unsigned = (whole, afterWhole))
  (pointed : splitFraction afterWhole = (fraction, afterFraction))

include signed split pointed

theorem scanBy_of_none (none : whole = [] ∧ fraction = []) : scanBy read cs = .none := by
  simp only [scanBy, signed, split, pointed, none, and_self, if_true]

theorem scanBy_of_some (some : ¬(whole = [] ∧ fraction = [])) :
    scanBy read cs = .some (⟨negative, readDigits (whole ++ fraction),
      (splitExponentBy read afterFraction).1 - fraction.length⟩,
      (splitExponentBy read afterFraction).2) := by
  simp only [scanBy, signed, split, pointed, some, if_false, readLong_eq_readDigits]

end scan

/-- What the scanner takes for a mantissa is one, unless there is no digit at all. -/
theorem mantissa_sound {cs whole afterWhole fraction afterFraction : List Char}
    (split : splitDigits cs = (whole, afterWhole))
    (pointed : splitFraction afterWhole = (fraction, afterFraction))
    (some : ¬(whole = [] ∧ fraction = [])) :
    ∃ mantissa, cs = mantissa ++ afterFraction ∧
      IsMantissa (readDigits (whole ++ fraction)) fraction.length mantissa := by
  obtain ⟨front, digits⟩ := splitDigits_sound cs
  have back := splitFraction_sound afterWhole
  simp only [split] at front digits
  rw [pointed] at back
  simp only [Prod.mk.injEq] at back
  rcases back with ⟨rfl, rfl⟩ | ⟨point, digits'⟩
  · have some : whole ≠ [] := by simpa using some
    rw [List.append_nil]
    exact ⟨whole, front, .whole digits some⟩
  · by_cases empty : whole = []
    · subst empty
      refine ⟨'.' :: fraction, ?_, .bare digits' (by simpa using some)⟩
      rw [front, point]
      rfl
    · refine ⟨whole ++ '.' :: fraction, ?_, .pointed digits empty digits'⟩
      rw [front, point]
      simp

theorem scanBy_sound {cs rest : List Char} {n : Numeral}
    (scanned : scanBy read cs = some (n, rest)) :
    ∃ text, cs = text ++ rest ∧ n.Spells read text := by
  cases signed : splitSign cs with
  | mk negative unsigned =>
  cases split : splitDigits unsigned with
  | mk whole afterWhole =>
  cases pointed : splitFraction afterWhole with
  | mk fraction afterFraction =>
  by_cases empty : whole = [] ∧ fraction = []
  · rw [scanBy_of_none read signed split pointed empty] at scanned
    cases scanned
  · rw [scanBy_of_some read signed split pointed empty] at scanned
    cases scanned
    obtain ⟨sign, front, isSign⟩ := splitSign_sound cs
    obtain ⟨mantissa, middle, isMantissa⟩ := mantissa_sound split pointed empty
    obtain ⟨suffix, back, isExponent⟩ := splitExponentBy_sound read afterFraction
    rw [signed] at front isSign
    refine ⟨sign ++ (mantissa ++ suffix), ?_, .intro isSign isMantissa isExponent⟩
    rw [List.append_assoc, List.append_assoc, ← back, ← middle]
    exact front

/-- A character that cannot belong to a mantissa. -/
def EndsMantissa (cs : List Char) : Prop := ∀ c ∈ cs.head?, ¬c.isDigit ∧ c ≠ '.'

/-- A mantissa is taken with all that can belong to it, and just as it is if nothing more can. -/
theorem mantissa_split {coefficient places : Nat} {mantissa : List Char}
    (isMantissa : IsMantissa coefficient places mantissa) (cs : List Char) :
    ∃ whole afterWhole fraction afterFraction,
      splitDigits (mantissa ++ cs) = (whole, afterWhole) ∧
      splitFraction afterWhole = (fraction, afterFraction) ∧
      ¬(whole = [] ∧ fraction = []) ∧ afterFraction <:+ cs ∧
      (EndsMantissa cs → coefficient = readDigits (whole ++ fraction) ∧
        places = fraction.length ∧ afterFraction = cs) := by
  have stop (ends : EndsMantissa cs) : splitDigits cs = ([], cs) :=
    splitDigits_of_head fun c head => (ends c head).1
  -- Behind a point only digits count.
  have point (ds fs : List Char) (digits : AllDigits ds) (digits' : AllDigits fs) :
      splitDigits (ds ++ '.' :: (fs ++ cs)) = (ds, '.' :: (fs ++ cs)) ∧
      splitFraction ('.' :: (fs ++ cs)) = (fs ++ (splitDigits cs).1, (splitDigits cs).2) := by
    constructor
    · rw [splitDigits_append digits, splitDigits_of_head (by rintro c ⟨⟩; decide), List.append_nil]
    · exact splitDigits_append digits' cs
  cases isMantissa with
  | whole digits some =>
    refine ⟨mantissa ++ (splitDigits cs).1, (splitDigits cs).2,
      (splitFraction (splitDigits cs).2).1, (splitFraction (splitDigits cs).2).2,
      splitDigits_append digits cs, rfl, by simp [some],
      (splitFraction_suffix _).trans (splitDigits_suffix cs), fun ends => ?_⟩
    rw [stop ends, splitFraction_of_head fun c head => (ends c head).2]
    simp
  | @pointed ds fs digits some digits' =>
    obtain ⟨front, back⟩ := point ds fs digits digits'
    refine ⟨_, _, _, _, by simpa using front, back, by simp [some], splitDigits_suffix cs,
      fun ends => ?_⟩
    rw [stop ends]
    simp
  | @bare fs digits some =>
    obtain ⟨front, back⟩ := point [] fs (List.forall_mem_nil _) digits
    refine ⟨_, _, _, _, front, back, by simp [some], splitDigits_suffix cs, fun ends => ?_⟩
    rw [stop ends]
    simp

/-- A mantissa begins with a digit or a point. -/
theorem mantissa_head {coefficient places : Nat} {mantissa : List Char}
    (isMantissa : IsMantissa coefficient places mantissa) (cs : List Char) :
    ∀ c ∈ (mantissa ++ cs).head?, c ≠ '+' ∧ c ≠ '-' := by
  cases isMantissa with
  | whole digits some =>
    exact fun c head => not_sign_of_isDigit (digits.head_append some cs c head)
  | pointed digits some _ =>
    rw [List.append_assoc]
    exact fun c head => not_sign_of_isDigit (digits.head_append some _ c head)
  | bare _ _ =>
    rintro c ⟨⟩
    decide

theorem endsMantissa_letter {e : Char} (letter : e = 'e' ∨ e = 'E') (cs : List Char) :
    EndsMantissa (e :: cs) := by
  rintro c ⟨⟩
  rcases letter with rfl | rfl <;> decide

/-- A numeral that a text starts with is taken or a longer one is. -/
theorem scanBy_longest {n : Numeral} {text : List Char} (spelled : n.Spells read text)
    (cs : List Char) :
    ∃ m rest, scanBy read (text ++ cs) = some (m, rest) ∧ rest <:+ cs := by
  obtain ⟨isSign, isMantissa, isExponent⟩ := spelled
  rename_i negative coefficient places exponent sign mantissa suffix
  obtain ⟨whole, afterWhole, fraction, afterFraction, split, pointed, some, shorter, exactly⟩ :=
    mantissa_split isMantissa (suffix ++ cs)
  have signed := splitSign_append isSign (mantissa_head isMantissa (suffix ++ cs))
  rw [List.append_assoc, List.append_assoc, scanBy_of_some read signed split pointed some]
  refine ⟨_, _, rfl, ?_⟩
  cases isExponent with
  | none => exact (splitExponentBy_suffix read _).trans shorter
  | signed letter isSign digits some =>
    obtain ⟨-, -, rfl⟩ := exactly (endsMantissa_letter letter _)
    simp only [List.cons_append, List.append_assoc,
      splitExponentBy_append read letter isSign digits some]
    exact splitDigits_suffix cs

/-- A text of the grammar is taken as a whole, for the numeral that it denotes. -/
theorem scanBy_of_spells {n : Numeral} {text : List Char} (spelled : n.Spells read text) :
    scanBy read text = some (n, []) := by
  obtain ⟨isSign, isMantissa, isExponent⟩ := spelled
  rename_i negative coefficient places exponent sign mantissa suffix
  obtain ⟨whole, afterWhole, fraction, afterFraction, split, pointed, some, -, exactly⟩ :=
    mantissa_split isMantissa suffix
  have signed := splitSign_append isSign (mantissa_head isMantissa suffix)
  rw [scanBy_of_some read signed split pointed some]
  cases isExponent with
  | none =>
    obtain ⟨rfl, rfl, rfl⟩ := exactly nofun
    rfl
  | @signed e negative' sign' ds letter isSign' digits some =>
    obtain ⟨rfl, rfl, rfl⟩ := exactly (endsMantissa_letter letter _)
    have taken := splitExponentBy_append read letter isSign' digits some []
    rw [List.append_nil, splitDigits_of_head (by simp), List.append_nil] at taken
    rw [taken]

/-- Whether a text is a numeral does not depend on how its exponent is read. -/
theorem Spells.exists_spells {n : Numeral} {text : List Char} (spelled : n.Spells read text)
    (read' : List Char → Nat) : ∃ m : Numeral, m.Spells read' text := by
  obtain ⟨isSign, isMantissa, isExponent⟩ := spelled
  cases isExponent with
  | none => exact ⟨_, .intro isSign isMantissa .none⟩
  | signed letter isSign' digits some =>
    exact ⟨_, .intro isSign isMantissa (.signed letter isSign' digits some)⟩

end Numeral

/-! ## Whole texts -/

/-- The names of infinity and of what is not a number, in any case and with an optional sign. -/
def IsName (cs : List Char) : Prop :=
  ∃ negative sign name, IsSign negative sign ∧ cs = sign ++ name ∧
    String.ofList (name.map Char.toLower) ∈ ["inf", "infinity", "nan"]

/-- The texts that denote a double. -/
def IsDoubleText (cs : List Char) : Prop :=
  (∃ n : Numeral, n.Spells readDigits cs) ∨ IsName cs

/-- The double that a whole text denotes, where `read` gives the value of the digits of an
exponent. -/
def readDoubleBy (read : List Char → Nat) (cs : List Char) : Option Double :=
  match Numeral.scanBy read cs with
  | some (n, []) => some n.toDouble
  | some (_, _ :: _) => none
  | none =>
    let (negative, name) := splitSign cs
    match String.ofList (name.map Char.toLower) with
    | "inf" => some (Double.infinity negative)
    | "infinity" => some (Double.infinity negative)
    | "nan" => some (Double.quietNaN negative)
    | _ => none

theorem readDouble?_eq (cs : List Char) : readDouble? cs = readDoubleBy readExponent cs := rfl

section reader

variable {read : List Char → Nat} {cs : List Char}

theorem readDoubleBy_of_spells {n : Numeral} (spelled : n.Spells read cs) :
    readDoubleBy read cs = some n.toDouble := by
  rw [readDoubleBy, Numeral.scanBy_of_spells read spelled]

/-- Digits, points and signs have no case. -/
theorem not_numeral_of_toLower {c l : Char} (lower : c.toLower = l) (letter : l = 'i' ∨ l = 'n') :
    (¬c.isDigit ∧ c ≠ '.') ∧ c ≠ '+' ∧ c ≠ '-' := by
  refine ⟨⟨fun digit => ?_, ?_⟩, ?_, ?_⟩
  · have same : c.toLower = c := by
      have low : c.toNat < 'A'.toNat := Nat.lt_of_le_of_lt (toNat_le_of_isDigit digit) (by decide)
      exact dif_neg fun upper => absurd (UInt32.le_iff_toNat_le.1 upper.1) low.not_ge
    rw [← same, lower] at digit
    rcases letter with rfl | rfl <;> cases digit
  all_goals
    rintro rfl
    rcases letter with rfl | rfl <;> exact absurd lower (by decide)

/-- A name does not begin as a numeral does. -/
theorem name_head {name : List Char}
    (named : String.ofList (name.map Char.toLower) ∈ ["inf", "infinity", "nan"]) :
    ∀ c ∈ name.head?, (¬c.isDigit ∧ c ≠ '.') ∧ c ≠ '+' ∧ c ≠ '-' := by
  have letters : name.map Char.toLower ∈ [['i', 'n', 'f'], "infinity".toList, ['n', 'a', 'n']] := by
    have listed := List.mem_map_of_mem (f := String.toList) named
    rw [String.toList_ofList] at listed
    exact listed
  cases name with
  | nil => simp
  | cons c name =>
    rintro c ⟨⟩
    simp only [List.map_cons, List.mem_cons, List.not_mem_nil, or_false] at letters
    rcases letters with same | same | same
    · exact not_numeral_of_toLower (List.cons.inj same).1 (.inl rfl)
    · exact not_numeral_of_toLower (List.cons.inj same).1 (.inl rfl)
    · exact not_numeral_of_toLower (List.cons.inj same).1 (.inr rfl)

theorem scanBy_of_name (read : List Char → Nat) {negative : Bool} {sign name : List Char}
    (signed : IsSign negative sign)
    (named : String.ofList (name.map Char.toLower) ∈ ["inf", "infinity", "nan"]) :
    Numeral.scanBy read (sign ++ name) = none ∧ splitSign (sign ++ name) = (negative, name) := by
  have head := name_head named
  have split := splitSign_append signed fun c member => (head c member).2
  have digits := splitDigits_of_head fun c member => (head c member).1.1
  have fraction := splitFraction_of_head fun c member => (head c member).1.2
  exact ⟨Numeral.scanBy_of_none read split digits fraction ⟨rfl, rfl⟩, split⟩

theorem readDoubleBy_isSome_iff : (readDoubleBy read cs).isSome ↔ IsDoubleText cs := by
  constructor
  · intro accepted
    rw [readDoubleBy] at accepted
    split at accepted
    · rename_i n scanned
      obtain ⟨text, split, spelled⟩ := Numeral.scanBy_sound read scanned
      rw [List.append_nil] at split
      subst split
      exact .inl (spelled.exists_spells read readDigits)
    · cases accepted
    · obtain ⟨sign, front, signed⟩ := splitSign_sound cs
      refine .inr ⟨_, sign, _, signed, front, ?_⟩
      simp only at accepted
      split at accepted
      case h_1 name => exact name ▸ .head _
      case h_2 name => exact name ▸ .tail _ (.head _)
      case h_3 name => exact name ▸ .tail _ (.tail _ (.head _))
      case h_4 => cases accepted
  · rintro (⟨n, spelled⟩ | ⟨negative, sign, name, signed, rfl, named⟩)
    · obtain ⟨m, spelled⟩ := spelled.exists_spells readDigits read
      rw [readDoubleBy_of_spells spelled]
      rfl
    · obtain ⟨scanned, split⟩ := scanBy_of_name read signed named
      simp only [List.mem_cons, List.not_mem_nil, or_false] at named
      rw [readDoubleBy, scanned]
      simp only [split]
      rcases named with name | name | name <;> rw [name] <;> rfl

end reader

/-- `ReadsDoubles reader`: the reader accepts the texts that denote a double, and gives the double
nearest to a numeral. -/
structure ReadsDoubles (reader : List Char → Option Double) : Prop where
  accepts : ∀ cs, (reader cs).isSome ↔ IsDoubleText cs
  rounds : ∀ (cs : List Char) (n : Numeral) (x : Double), n.Spells readDigits cs →
    reader cs = some x → Double.IsNearest n.negative n.magnitude x

/-- Where exponents are read to their end, reading is correct rounding. -/
theorem readDoubleBy_readsDoubles : ReadsDoubles (readDoubleBy readDigits) where
  accepts _ := readDoubleBy_isSome_iff
  rounds cs n x spelled result := by
    rw [readDoubleBy_of_spells spelled, Option.some.injEq] at result
    rw [← result]
    exact n.toDouble_isNearest

/-! ## Exponents that are read in part -/

/-- Reading in part goes wrong only from the limit on. -/
theorem readExponent_eq_or (ds : List Char) : readExponent ds = readDigits ds ∨
    exponentLimit ≤ readExponent ds ∧ exponentLimit ≤ readDigits ds := by
  suffices general : ∀ a b : Nat, a = b ∨ exponentLimit ≤ a ∧ exponentLimit ≤ b →
      let next := fun sofar (c : Char) =>
        if sofar < exponentLimit then 10 * sofar + (c.toNat - 48) else sofar
      ds.foldl next a = Nat.ofDigitChars 10 ds b ∨
        exponentLimit ≤ ds.foldl next a ∧ exponentLimit ≤ Nat.ofDigitChars 10 ds b from
    general 0 0 (.inl rfl)
  induction ds with
  | nil => exact fun a b related => related
  | cons c ds ih =>
    intro a b related
    apply ih
    have zero : '0'.toNat = 48 := rfl
    simp only [zero]
    split <;> omega

theorem readDigits_lt {ds : List Char} (digits : AllDigits ds) :
    readDigits ds < 10 ^ ds.length := by
  suffices general : ∀ sofar, Nat.ofDigitChars 10 ds sofar < (sofar + 1) * 10 ^ ds.length by
    simpa [readDigits] using general 0
  induction ds with
  | nil => simp
  | cons d ds ih =>
    intro sofar
    have digit : d.toNat - '0'.toNat ≤ 9 :=
      Nat.sub_le_of_le_add (toNat_le_of_isDigit (digits d List.mem_cons_self))
    have rest := ih (List.forall_mem_of_forall_mem_cons digits) (10 * sofar + (d.toNat - '0'.toNat))
    calc Nat.ofDigitChars 10 (d :: ds) sofar
        < (10 * sofar + (d.toNat - '0'.toNat) + 1) * 10 ^ ds.length := rest
      _ ≤ ((sofar + 1) * 10) * 10 ^ ds.length := Nat.mul_le_mul_right _ (by omega)
      _ = (sofar + 1) * 10 ^ (d :: ds).length := by
        rw [List.length_cons, Nat.pow_succ', Nat.mul_assoc]

theorem IsMantissa.bounds {coefficient places : Nat} {mantissa : List Char}
    (isMantissa : IsMantissa coefficient places mantissa) :
    coefficient < 10 ^ mantissa.length ∧ places ≤ mantissa.length := by
  cases isMantissa with
  | whole digits _ => exact ⟨readDigits_lt digits, Nat.zero_le _⟩
  | @pointed ds fs digits _ digits' =>
    have both : AllDigits (ds ++ fs) := List.forall_mem_append.2 ⟨digits, digits'⟩
    refine ⟨Nat.lt_of_lt_of_le (readDigits_lt both) ?_, by simp; omega⟩
    exact Nat.pow_le_pow_right (by decide) (by simp)
  | @bare fs digits _ =>
    refine ⟨Nat.lt_of_lt_of_le (readDigits_lt digits) ?_, by simp⟩
    exact Nat.pow_le_pow_right (by decide) (by simp)

/-- An exponent from the limit on decides the value alone if the mantissa is short. -/
theorem ofDecimal_of_far {coefficient places length far : Nat} (short : coefficient < 10 ^ length)
    (few : places ≤ length) (bound : length < 0x8000) (distant : exponentLimit ≤ far)
    (negative down : Bool) :
    Double.ofDecimal negative coefficient ((if down then -(far : Int) else far) - places) =
      if coefficient = 0 ∨ down then Double.ofPattern negative 0 else Double.infinity negative := by
  have limit : exponentLimit = 0x10000 := rfl
  by_cases zero : coefficient = 0
  · simp [zero, Double.ofDecimal]
  cases down with
  | true =>
    have exponent : -(far : Int) - places = -((far + places : Nat) : Int) := by omega
    simp only [if_true, or_true, exponent]
    exact Double.ofDecimal_of_small short (by omega) negative
  | false =>
    have large : 309 < (far : Int) - places := by omega
    simpa [zero] using Double.ofDecimal_of_large zero large negative

namespace Numeral

theorem Spells.unique {read : List Char → Nat} {n m : Numeral} {text : List Char}
    (hn : n.Spells read text) (hm : m.Spells read text) : n = m := by
  have same := (scanBy_of_spells read hn).symm.trans (scanBy_of_spells read hm)
  cases same
  rfl

/-- Reading exponents in part gives the same doubles for texts of less than `2^15` characters. -/
theorem toDouble_eq_of_short {n m : Numeral} {text : List Char} (hn : n.Spells readExponent text)
    (hm : m.Spells readDigits text) (short : text.length < 0x8000) : n.toDouble = m.toDouble := by
  obtain ⟨isSign, isMantissa, isExponent⟩ := hn
  rename_i negative coefficient places exponent sign mantissa suffix
  cases isExponent with
  | none => rw [hm.unique (.intro isSign isMantissa .none)]
  | @signed e down sign' ds letter isSign' digits some =>
    rw [hm.unique (.intro isSign isMantissa (.signed letter isSign' digits some))]
    rcases readExponent_eq_or ds with same | ⟨far, far'⟩
    · rw [same]
    · -- Neither its digits nor its places make up for an exponent this large.
      obtain ⟨bound, few⟩ := isMantissa.bounds
      have length : mantissa.length < 0x8000 := by
        simp only [List.length_append] at short
        omega
      simp only [toDouble, ofDecimal_of_far bound few length, far, far']

end Numeral

end TreeJit.Decimal
