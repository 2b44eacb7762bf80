import TreeJit.Proofs.NumeralGrammar

/-! # The number that a text starts with

A number is looked for in the bytes of a text: an index moves over the bytes, and
the bytes before it are cut off and read as a double.  This is the same as scanning
characters (`Decimal.readLeading`), since all that the index moves over is ASCII, and
no byte of another character is.

* `Decimal.Behind` — the invariant: the index stands between two characters.
* `Decimal.numeralEnd_utf8` — the index stops where the scanner of characters does.
* `Decimal.readLeadingBy_of_longest` — what is cut off and read is the longest numeral.
-/

namespace TreeJit.Decimal

/-! ## Bytes of a text -/

def utf8 (cs : List Char) : List UInt8 := cs.flatMap String.utf8EncodeChar

@[simp] theorem utf8_nil : utf8 [] = [] := rfl

@[simp] theorem utf8_cons (c : Char) (cs : List Char) :
    utf8 (c :: cs) = String.utf8EncodeChar c ++ utf8 cs := rfl

@[simp] theorem utf8_append (cs ds : List Char) : utf8 (cs ++ ds) = utf8 cs ++ utf8 ds := by
  simp [utf8]

/-- An ASCII character is one byte, and every other one begins with a byte that is not ASCII. -/
theorem utf8EncodeChar_cases (c : Char) :
    (c.toNat < 0x80 ∧ ∃ b, String.utf8EncodeChar c = [b] ∧ Char.ofUInt8 b = c) ∨
    (0x80 ≤ c.toNat ∧
      ∃ b bs, String.utf8EncodeChar c = b :: bs ∧ 0x80 ≤ (Char.ofUInt8 b).toNat) := by
  have same (b : UInt8) : (Char.ofUInt8 b).toNat = b.toNat := rfl
  have value : c.val.toNat = c.toNat := rfl
  simp only [same, String.utf8EncodeChar, value]
  by_cases ascii : c.toNat ≤ 127
  · refine .inl ⟨by omega, UInt8.ofNat c.toNat, by simp [ascii], ?_⟩
    apply Char.toNat_inj.1
    rw [same, UInt8.toNat_ofNat', Nat.mod_eq_of_lt (by omega)]
  · refine .inr ⟨by omega, ?_⟩
    rw [if_neg ascii]
    split
    · exact ⟨_, _, rfl, by rw [UInt8.toNat_ofNat']; omega⟩
    split
    · exact ⟨_, _, rfl, by rw [UInt8.toNat_ofNat']; omega⟩
    · exact ⟨_, _, rfl, by rw [UInt8.toNat_ofNat']; omega⟩

/-- Whether the byte at an index is there and belongs to a class of characters. -/
def holdsAt (p : Char → Bool) (bytes : List UInt8) (i : Nat) : Bool :=
  bytes[i]?.any fun b => p (Char.ofUInt8 b)

theorem lt_of_holdsAt {p : Char → Bool} {bytes : List UInt8} {i : Nat} (holds : holdsAt p bytes i) :
    i < bytes.length := by
  rw [holdsAt, Option.any_eq_true] at holds
  obtain ⟨b, at_i, -⟩ := holds
  exact (List.getElem?_eq_some_iff.1 at_i).1

/-! ## Scanning bytes -/

def isSign (c : Char) : Bool := c == '+' || c == '-'

def isExponentLetter (c : Char) : Bool := c == 'e' || c == 'E'

theorem ascii_digit (c : Char) (digit : c.isDigit) : c.toNat < 0x80 :=
  Nat.lt_of_le_of_lt (toNat_le_of_isDigit digit) (by decide)

theorem ascii_sign (c : Char) (sign : isSign c) : c.toNat < 0x80 := by
  simp only [isSign, Bool.or_eq_true, beq_iff_eq] at sign
  rcases sign with rfl | rfl <;> decide

theorem ascii_letter (c : Char) (letter : isExponentLetter c) : c.toNat < 0x80 := by
  simp only [isExponentLetter, Bool.or_eq_true, beq_iff_eq] at letter
  rcases letter with rfl | rfl <;> decide

theorem ascii_point (c : Char) (point : c == '.') : c.toNat < 0x80 := by
  rw [beq_iff_eq.1 point]
  decide

/-- The index behind an optional sign. -/
def skipSign (bytes : List UInt8) (i : Nat) : Nat := if holdsAt isSign bytes i then i + 1 else i

/-- The index behind all digits from an index on. -/
def skipDigits (bytes : List UInt8) (i : Nat) : Nat :=
  if h : holdsAt Char.isDigit bytes i then skipDigits bytes (i + 1) else i
termination_by bytes.length - i
decreasing_by
  have := lt_of_holdsAt h
  omega

/-- The index behind a point and all digits that follow it, if there is a point. -/
def skipFraction (bytes : List UInt8) (i : Nat) : Nat :=
  if holdsAt (· == '.') bytes i then skipDigits bytes (i + 1) else i

/-- The index behind a complete exponent, if there is one. -/
def skipExponent (bytes : List UInt8) (i : Nat) : Nat :=
  if holdsAt isExponentLetter bytes i then
    let start := skipSign bytes (i + 1)
    let stop := skipDigits bytes start
    if start < stop then stop else i
  else i

/-- The index behind the numeral that the bytes start with.  There is none without a digit, before
the point or behind it. -/
def numeralEnd (bytes : List UInt8) : Option Nat :=
  let start := skipSign bytes 0
  let whole := skipDigits bytes start
  let stop := skipFraction bytes whole
  -- Without a point, `stop` is `whole` and there are no digits behind it.
  if (whole - start) + (stop - (whole + 1)) = 0 then none else some (skipExponent bytes stop)

/-- The characters that take the first `n` bytes of a text, unless the last byte is amid a character
or behind the text. -/
def takeBytes? : Nat → List Char → Option (List Char)
  | 0, _ => some []
  | _ + 1, [] => none
  | n + 1, c :: cs =>
    if c.utf8Size ≤ n + 1 then (takeBytes? (n + 1 - c.utf8Size) cs).map (c :: ·) else none

/-- The double that a text starts with, blanks before it apart, as `reader` reads it.  There is no
result at all if the bytes of the number are not those of whole characters. -/
def readLeadingBy (reader : List Char → Option Double) (cs : List Char) : Option Double :=
  let t := cs.dropWhile Text.isBlank
  match numeralEnd (utf8 t) with
  | none => some Double.zero
  | some stop => (takeBytes? stop t).map fun text => (reader text).getD Double.zero

/-! ## The index stands between two characters -/

/-- `Behind t i rest`: the text `t` ends with `rest`, whose bytes begin at the index `i`. -/
def Behind (t : List Char) (i : Nat) (rest : List Char) : Prop :=
  ∃ front, t = front ++ rest ∧ i = (utf8 front).length

namespace Behind

variable {t rest : List Char} {i : Nat}

theorem start (t : List Char) : Behind t 0 t := ⟨[], rfl, rfl⟩

/-- A byte is told by the character that it begins if the class has ASCII characters only. -/
theorem holdsAt_eq (behind : Behind t i rest) {p : Char → Bool}
    (ascii : ∀ c, p c → c.toNat < 0x80) :
    holdsAt p (utf8 t) i = rest.head?.any p := by
  obtain ⟨front, rfl, rfl⟩ := behind
  rw [holdsAt, utf8_append, List.getElem?_append_right (Nat.le_refl _), Nat.sub_self]
  cases rest with
  | nil => rfl
  | cons c rest =>
    rcases utf8EncodeChar_cases c with ⟨-, b, encoded, same⟩ | ⟨high, b, bs, encoded, high'⟩
    · simp [encoded, same]
    · have out (d : Char) (high : 0x80 ≤ d.toNat) : p d = false := by
        by_contra holds
        exact absurd (ascii d (by simpa using holds)) (by omega)
      simp [encoded, out _ high, out _ high']

theorem next {c : Char} (behind : Behind t i (c :: rest)) (ascii : c.toNat < 0x80) :
    Behind t (i + 1) rest := by
  obtain ⟨front, rfl, rfl⟩ := behind
  refine ⟨front ++ [c], by simp, ?_⟩
  rcases utf8EncodeChar_cases c with ⟨-, b, encoded, -⟩ | ⟨high, -⟩
  · simp [encoded]
  · omega

theorem skipSign (behind : Behind t i rest) :
    Behind t (skipSign (utf8 t) i) (splitSign rest).2 := by
  rw [Decimal.skipSign, behind.holdsAt_eq ascii_sign]
  cases rest with
  | nil => exact behind
  | cons c rest =>
    by_cases sign : Decimal.isSign c
    · have split : (splitSign (c :: rest)).2 = rest := by
        simp only [isSign, Bool.or_eq_true, beq_iff_eq] at sign
        rcases sign with rfl | rfl <;> rfl
      simpa [sign, split] using behind.next (ascii_sign c sign)
    · have split : (splitSign (c :: rest)).2 = c :: rest := by
        simp only [isSign, Bool.or_eq_true, beq_iff_eq, not_or] at sign
        simp [splitSign, sign]
      simpa [sign, split] using behind

theorem skipDigits_eq (behind : Behind t i rest) : skipDigits (utf8 t) i =
    if rest.head?.any Char.isDigit then skipDigits (utf8 t) (i + 1) else i := by
  rw [skipDigits, behind.holdsAt_eq ascii_digit, dite_eq_ite]

/-- One digit after the other, the index moves over the digits and counts them. -/
theorem skipDigits (behind : Behind t i rest) :
    Behind t (skipDigits (utf8 t) i) (splitDigits rest).2 ∧
      Decimal.skipDigits (utf8 t) i = i + (splitDigits rest).1.length := by
  induction rest generalizing i with
  | nil => simpa [splitDigits, behind.skipDigits_eq] using behind
  | cons c rest ih =>
    by_cases digit : c.isDigit
    · obtain ⟨after, count⟩ := ih (behind.next (ascii_digit c digit))
      have step : Decimal.skipDigits (utf8 t) i = Decimal.skipDigits (utf8 t) (i + 1) := by
        simp [behind.skipDigits_eq, digit]
      have split : splitDigits (c :: rest) = (c :: (splitDigits rest).1, (splitDigits rest).2) := by
        simp [splitDigits, digit]
      rw [step, split]
      exact ⟨after, by rw [count, List.length_cons]; omega⟩
    · simpa [splitDigits, digit, behind.skipDigits_eq] using behind

theorem skipFraction (behind : Behind t i rest) :
    Behind t (skipFraction (utf8 t) i) (splitFraction rest).2 ∧
      Decimal.skipFraction (utf8 t) i - (i + 1) = (splitFraction rest).1.length := by
  rw [Decimal.skipFraction, behind.holdsAt_eq ascii_point]
  cases rest with
  | nil => simpa [splitFraction] using behind
  | cons c rest =>
    by_cases point : c = '.'
    · subst point
      obtain ⟨after, count⟩ := (behind.next (ascii_point _ rfl)).skipDigits
      refine ⟨by simpa [splitFraction] using after, ?_⟩
      simp [splitFraction, count]
    · simpa [splitFraction, point] using behind

theorem skipExponent (read : List Char → Nat) (behind : Behind t i rest) :
    Behind t (skipExponent (utf8 t) i) (splitExponentBy read rest).2 := by
  rw [Decimal.skipExponent, behind.holdsAt_eq ascii_letter]
  cases rest with
  | nil => exact behind
  | cons c rest =>
    by_cases letter : isExponentLetter c
    · have letter' : c = 'e' ∨ c = 'E' := by simpa [isExponentLetter] using letter
      have unsigned := (behind.next (ascii_letter c letter)).skipSign
      obtain ⟨after, count⟩ := unsigned.skipDigits
      by_cases empty : (splitDigits (splitSign rest).2).1 = []
      · simpa [letter, letter', splitExponentBy, empty, count] using behind
      · have some : 0 < (splitDigits (splitSign rest).2).1.length := List.length_pos_iff.2 empty
        simpa [letter, letter', splitExponentBy, empty, count, some] using after
    · have letter' : ¬(c = 'e' ∨ c = 'E') := by simpa [isExponentLetter] using letter
      simpa [letter, letter', splitExponentBy] using behind

end Behind

/-- The index stops where the scanner of characters does. -/
theorem numeralEnd_utf8 (read : List Char → Nat) (t : List Char) :
    match Numeral.scanBy read t with
    | none => numeralEnd (utf8 t) = none
    | some (_, rest) => ∃ stop, numeralEnd (utf8 t) = some stop ∧ Behind t stop rest := by
  have unsigned := (Behind.start t).skipSign
  obtain ⟨afterWhole, wholes⟩ := unsigned.skipDigits
  obtain ⟨afterFraction, fractions⟩ := afterWhole.skipFraction
  have none_iff : numeralEnd (utf8 t) =
      if (splitDigits (splitSign t).2).1 = [] ∧
        (splitFraction (splitDigits (splitSign t).2).2).1 = [] then none
      else some (skipExponent (utf8 t) (skipFraction (utf8 t) (skipDigits (utf8 t)
        (skipSign (utf8 t) 0)))) := by
    have wholes : skipDigits (utf8 t) (skipSign (utf8 t) 0) - skipSign (utf8 t) 0 =
        (splitDigits (splitSign t).2).1.length := by omega
    simp only [numeralEnd, fractions, wholes, Nat.add_eq_zero_iff, List.length_eq_zero_iff]
  by_cases empty : (splitDigits (splitSign t).2).1 = [] ∧
      (splitFraction (splitDigits (splitSign t).2).2).1 = []
  · rw [Numeral.scanBy_of_none read rfl rfl rfl empty, none_iff, if_pos empty]
  · rw [Numeral.scanBy_of_some read rfl rfl rfl empty, none_iff, if_neg empty]
    exact ⟨_, rfl, afterFraction.skipExponent read⟩

/-! ## Longest match -/

def IsNumeral (text : List Char) : Prop := ∃ n : Numeral, n.Spells readDigits text

/-- The longest numeral that a text starts with. -/
structure IsLongestNumeral (text t : List Char) : Prop where
  isPrefix : text <+: t
  isNumeral : IsNumeral text
  longest : ∀ other, other <+: t → IsNumeral other → other.length ≤ text.length

theorem IsLongestNumeral.unique {text other t : List Char} (h : IsLongestNumeral text t)
    (h' : IsLongestNumeral other t) : text = other := by
  have length : text.length = other.length :=
    Nat.le_antisymm (h'.longest text h.isPrefix h.isNumeral)
      (h.longest other h'.isPrefix h'.isNumeral)
  exact (List.prefix_of_prefix_length_le h.isPrefix h'.isPrefix length.le).eq_of_length length

/-- The scanner finds a numeral, the longest one, or there is none. -/
theorem scanBy_cases (read : List Char → Nat) (t : List Char) :
    (Numeral.scanBy read t = none ∧ ¬∃ text, text <+: t ∧ IsNumeral text) ∨
    ∃ n text rest, Numeral.scanBy read t = some (n, rest) ∧ t = text ++ rest ∧
      n.Spells read text ∧ IsLongestNumeral text t := by
  -- A numeral at the start is found, or one that leaves less of the text over.
  have complete (text : List Char) (starts : text <+: t) (numeral : IsNumeral text) :
      ∃ m rest, Numeral.scanBy read t = some (m, rest) ∧ text.length + rest.length ≤ t.length := by
    obtain ⟨cs, rfl⟩ := starts
    obtain ⟨n, spelled⟩ := numeral
    obtain ⟨n, spelled⟩ := spelled.exists_spells readDigits read
    obtain ⟨m, rest, scanned, shorter⟩ := Numeral.scanBy_longest read spelled cs
    have := shorter.length_le
    exact ⟨m, rest, scanned, by rw [List.length_append]; omega⟩
  cases scanned : Numeral.scanBy read t with
  | none =>
    refine .inl ⟨rfl, fun ⟨text, starts, numeral⟩ => ?_⟩
    obtain ⟨m, rest, found, -⟩ := complete text starts numeral
    rw [scanned] at found
    cases found
  | some result =>
    obtain ⟨n, rest⟩ := result
    obtain ⟨text, split, spelled⟩ := Numeral.scanBy_sound read scanned
    refine .inr ⟨n, text, rest, rfl, split, spelled, ⟨rest, split.symm⟩,
      spelled.exists_spells read readDigits, fun other starts numeral => ?_⟩
    obtain ⟨m, rest', found, short⟩ := complete other starts numeral
    rw [scanned] at found
    cases found
    rw [split, List.length_append] at short
    omega

theorem takeBytes?_append (front rest : List Char) :
    takeBytes? (utf8 front).length (front ++ rest) = some front := by
  induction front with
  | nil => simp [takeBytes?]
  | cons c front ih =>
    have positive := c.utf8Size_pos
    have size : (utf8 (c :: front)).length = c.utf8Size + (utf8 front).length := by
      rw [utf8_cons, List.length_append, String.length_utf8EncodeChar]
    obtain ⟨n, succ⟩ := Nat.exists_eq_succ_of_ne_zero (n := (utf8 (c :: front)).length) (by omega)
    rw [succ, List.cons_append, takeBytes?, if_pos (by omega)]
    have left : n + 1 - c.utf8Size = (utf8 front).length := by omega
    rw [left, ih]
    rfl

/-- The index stops behind the longest numeral, between two characters. -/
theorem numeralEnd_of_longest {text t : List Char} (longest : IsLongestNumeral text t) :
    ∃ stop, numeralEnd (utf8 t) = some stop ∧ takeBytes? stop t = some text := by
  have found := numeralEnd_utf8 readDigits t
  rcases scanBy_cases readDigits t with ⟨-, none⟩ | ⟨n, text', rest, scanned, split, -, longest'⟩
  · exact absurd ⟨text, longest.isPrefix, longest.isNumeral⟩ none
  · rw [scanned] at found
    obtain ⟨stop, ends, front, split', rfl⟩ := found
    obtain rfl : front = text := by
      rw [longest.unique longest']
      exact List.append_cancel_right (split'.symm.trans split)
    exact ⟨_, ends, by rw [split', takeBytes?_append]⟩

theorem numeralEnd_of_none {t : List Char} (none : ¬∃ text, text <+: t ∧ IsNumeral text) :
    numeralEnd (utf8 t) = .none := by
  have found := numeralEnd_utf8 readDigits t
  rcases scanBy_cases readDigits t with ⟨scanned, -⟩ | ⟨n, text, rest, -, -, -, longest⟩
  · rw [scanned] at found
    exact found
  · exact absurd ⟨text, longest.isPrefix, longest.isNumeral⟩ none

section reader

variable (reader : List Char → Option Double) {cs : List Char}

theorem readLeadingBy_of_longest {text : List Char}
    (longest : IsLongestNumeral text (cs.dropWhile Text.isBlank)) :
    readLeadingBy reader cs = some ((reader text).getD Double.zero) := by
  obtain ⟨stop, ends, taken⟩ := numeralEnd_of_longest longest
  simp [readLeadingBy, ends, taken]

theorem readLeadingBy_of_none
    (none : ¬∃ text, text <+: cs.dropWhile Text.isBlank ∧ IsNumeral text) :
    readLeadingBy reader cs = some Double.zero := by
  simp [readLeadingBy, numeralEnd_of_none none]

end reader

theorem exists_longest {t : List Char} (some : ∃ text, text <+: t ∧ IsNumeral text) :
    ∃ text, IsLongestNumeral text t := by
  rcases scanBy_cases readDigits t with ⟨-, none⟩ | ⟨n, text, rest, -, -, -, longest⟩
  · exact absurd some none
  · exact ⟨text, longest⟩

/-- Scanning characters is scanning bytes and reading what is cut off. -/
theorem readLeadingBy_readDouble? (cs : List Char) :
    readLeadingBy readDouble? cs = some (readLeading cs) := by
  rcases scanBy_cases readExponent (cs.dropWhile Text.isBlank) with
    ⟨scanned, none⟩ | ⟨n, text, rest, scanned, -, spelled, longest⟩
  · rw [readLeadingBy_of_none _ none, readLeading, Numeral.scan_eq, scanned]
  · rw [readLeadingBy_of_longest _ longest, readLeading, Numeral.scan_eq, scanned, readDouble?_eq,
      readDoubleBy_of_spells spelled]
    rfl

/-- A reader that rounds correctly gives the double nearest to a numeral. -/
theorem ReadsDoubles.exists_nearest {reader : List Char → Option Double}
    (reads : ReadsDoubles reader) {n : Numeral} {text : List Char}
    (spelled : n.Spells readDigits text) :
    ∃ x, reader text = some x ∧ Double.IsNearest n.negative n.magnitude x := by
  obtain ⟨x, read⟩ := Option.isSome_iff_exists.1 ((reads.accepts text).2 (.inl ⟨n, spelled⟩))
  exact ⟨x, read, reads.rounds text n x spelled read⟩

/-- Reading exponents in part makes no difference to numerals of less than `2^15` characters. -/
theorem readLeadingBy_eq_of_short {reader : List Char → Option Double}
    (reads : ReadsDoubles reader) {cs : List Char}
    (short : ∀ text, IsLongestNumeral text (cs.dropWhile Text.isBlank) → text.length < 0x8000) :
    readLeadingBy reader cs = some (readLeading cs) := by
  rw [← readLeadingBy_readDouble?]
  by_cases some : ∃ text, text <+: cs.dropWhile Text.isBlank ∧ IsNumeral text
  · obtain ⟨text, longest⟩ := exists_longest some
    obtain ⟨n, spelled⟩ := longest.isNumeral
    obtain ⟨m, spelled'⟩ := spelled.exists_spells readDigits readExponent
    obtain ⟨x, read, nearest⟩ := reads.exists_nearest spelled
    have same : x = m.toDouble := by
      rw [Numeral.toDouble_eq_of_short spelled' spelled (short text longest)]
      exact nearest.unique n.toDouble_isNearest
    rw [readLeadingBy_of_longest _ longest, readLeadingBy_of_longest _ longest, read,
      readDouble?_eq, readDoubleBy_of_spells spelled', same]
  · rw [readLeadingBy_of_none _ some, readLeadingBy_of_none _ some]

/-- Reading the number that a text starts with is longest match: the double is the one nearest to
the longest numeral behind the blanks, and positive zero if there is no numeral.  What is cut off
are whole characters, and they denote a double.  This is `readLeading` with the reader `readDouble?`,
and with any other one as long as exponents are short enough for `readDouble?`. -/
theorem leading_number_longest_match {reader : List Char → Option Double}
    (reads : ReadsDoubles reader) (cs : List Char) :
    let t := cs.dropWhile Text.isBlank
    ((∃ text, text <+: t ∧ IsNumeral text) →
      ∃ (text : List Char) (n : Numeral) (x : Double), IsLongestNumeral text t ∧
        n.Spells readDigits text ∧ readLeadingBy reader cs = some x ∧
        Double.IsNearest n.negative n.magnitude x) ∧
    ((¬∃ text, text <+: t ∧ IsNumeral text) → readLeadingBy reader cs = some Double.zero) ∧
    (∀ stop, numeralEnd (utf8 t) = some stop →
      ∃ text, takeBytes? stop t = some text ∧ IsLongestNumeral text t ∧ (reader text).isSome) ∧
    readLeadingBy readDouble? cs = some (readLeading cs) ∧
    ((∀ text, IsLongestNumeral text t → text.length < 0x8000) →
      readLeadingBy reader cs = some (readLeading cs)) := by
  intro t
  refine ⟨fun some => ?_, readLeadingBy_of_none reader, fun stop ends => ?_,
    readLeadingBy_readDouble? cs, readLeadingBy_eq_of_short reads⟩
  · obtain ⟨text, longest⟩ := exists_longest some
    obtain ⟨n, spelled⟩ := longest.isNumeral
    obtain ⟨x, read, nearest⟩ := reads.exists_nearest spelled
    refine ⟨text, n, x, longest, spelled, ?_, nearest⟩
    rw [readLeadingBy_of_longest reader longest, read]
    rfl
  · have some : ∃ text, text <+: t ∧ IsNumeral text := by
      by_contra none
      rw [numeralEnd_of_none none] at ends
      cases ends
    obtain ⟨text, longest⟩ := exists_longest some
    obtain ⟨stop', ends', taken⟩ := numeralEnd_of_longest longest
    obtain rfl : stop' = stop := Option.some.inj (ends'.symm.trans ends)
    exact ⟨text, taken, longest, (reads.accepts text).2 (.inl longest.isNumeral)⟩

/-- `-(2^53 + 1)` lies half-way between two doubles, and the exponent behind it has no digits. -/
theorem half_way_before_dangling_exponent :
    ReadsDoubles (readDoubleBy readDigits) ∧
    readLeadingBy (readDoubleBy readDigits) "\u2003\t-9007199254740993.e+é".toList =
      some ⟨0xC340000000000000⟩ := by
  obtain ⟨-, -, -, -, same⟩ := leading_number_longest_match readDoubleBy_readsDoubles
    "\u2003\t-9007199254740993.e+é".toList
  refine ⟨readDoubleBy_readsDoubles, ?_⟩
  rw [same fun text longest => Nat.lt_of_le_of_lt longest.isPrefix.length_le (by decide +kernel)]
  decide +kernel

end TreeJit.Decimal
