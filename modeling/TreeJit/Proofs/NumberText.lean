import TreeJit.Cell

/-! # Texts of numbers

The text form of a number consists of ASCII characters other than the zero
character.  Such characters are one byte each, and those bytes are read back as
the same characters, so nothing is lost when a cell keeps a number's text as
bytes.

* `Text.exists_ofString` — a string of plain characters is a text with these
  characters.
* `Double.plain_toText` — the text form of a number is plain.
* `Cell.chars_renderNumber` — the text that a cell derives from a number has the
  characters of its text form.
-/

namespace TreeJit

namespace Text

/-! ## Plain characters -/

/-- An ASCII character other than the zero character. -/
def IsPlain (c : Char) : Prop := 0 < c.toNat ∧ c.toNat < 0x80

instance (c : Char) : Decidable (IsPlain c) := inferInstanceAs (Decidable (_ ∧ _))

/-- Whether all characters are plain. -/
def Plain (cs : List Char) : Prop := ∀ c ∈ cs, IsPlain c

@[simp] theorem plain_nil : Plain [] := nofun

@[simp] theorem plain_cons {c : Char} {cs : List Char} : Plain (c :: cs) ↔ IsPlain c ∧ Plain cs :=
  List.forall_mem_cons

@[simp] theorem plain_append {cs ds : List Char} : Plain (cs ++ ds) ↔ Plain cs ∧ Plain ds :=
  List.forall_mem_append

theorem toNat_toUInt8_of_plain {c : Char} (plain : IsPlain c) : c.toUInt8.toNat = c.toNat := by
  have low := plain.2
  simp only [Char.toUInt8, UInt32.toNat_toUInt8]
  exact Nat.mod_eq_of_lt (by change c.toNat < 2 ^ 8; omega)

theorem utf8EncodeChar_of_plain {c : Char} (plain : IsPlain c) :
    String.utf8EncodeChar c = [c.toUInt8] := by
  have below := plain.2
  apply String.utf8EncodeChar_eq_singleton
  rw [Char.utf8Size_eq_one_iff, UInt32.le_iff_toNat_le]
  change c.toNat ≤ 127
  omega

/-! ## Bytes of plain characters -/

theorem toList_loop_eq (bytes : ByteArray) (i : Nat) (done : List UInt8) :
    ByteArray.toList.loop bytes i done = done.reverse ++ bytes.data.toList.drop i := by
  induction i, done using ByteArray.toList.loop.induct bytes with
  | case1 i done inside ih =>
    have known : i < bytes.data.toList.length := by simpa using inside
    have byte : bytes.get! i = bytes.data.toList[i] := getElem!_pos bytes.data i known
    rw [ByteArray.toList.loop, if_pos inside, ih, List.drop_eq_getElem_cons known, byte]
    simp
  | case2 i done outside =>
    have past : bytes.data.toList.length ≤ i := by simpa using outside
    rw [ByteArray.toList.loop, if_neg outside, List.drop_eq_nil_of_le past, List.append_nil]

theorem toList_toUTF8 {cs : List Char} (plain : Plain cs) :
    (String.ofList cs).toUTF8.toList = cs.map Char.toUInt8 := by
  have encoded : cs.flatMap String.utf8EncodeChar = cs.map Char.toUInt8 := by
    induction cs with
    | nil => rfl
    | cons c cs ih =>
      rw [plain_cons] at plain
      rw [List.flatMap_cons, utf8EncodeChar_of_plain plain.1, ih plain.2]
      rfl
  rw [ByteArray.toList, toList_loop_eq, String.toUTF8, String.toByteArray_ofList, List.utf8Encode,
    List.toList_data_toByteArray, encoded]
  rfl

theorem decode_map_toUInt8 {cs : List Char} (plain : Plain cs) :
    Utf8.decode (cs.map Char.toUInt8) = cs := by
  unfold Utf8.decode
  induction cs with
  | nil => rfl
  | cons c cs ih =>
    rw [plain_cons] at plain
    have byte := toNat_toUInt8_of_plain plain.1
    rw [List.map_cons, Utf8.decodeFrom, Utf8.step, Utf8.start, byte, if_pos plain.1.2,
      Char.ofNat_toNat]
    exact congrArg (c :: ·) (ih plain.2)

/-- A string of plain characters is a text with these characters. -/
theorem exists_ofString {cs : List Char} (plain : Plain cs) :
    ∃ t, ofString (String.ofList cs) = .ok t ∧ t.chars = cs := by
  have noZero : 0 ∉ (String.ofList cs).toUTF8.toList := by
    rw [toList_toUTF8 plain, List.mem_map]
    rintro ⟨c, known, zero⟩
    have byte := toNat_toUInt8_of_plain (plain c known)
    rw [zero] at byte
    exact absurd byte.symm (Nat.ne_of_gt (plain c known).1)
  refine ⟨⟨_, noZero⟩, dif_neg noZero, ?_⟩
  exact (congrArg Utf8.decode (toList_toUTF8 plain)).trans (decode_map_toUInt8 plain)

end Text

/-! ## The text form is plain -/

open Text (Plain IsPlain plain_cons plain_append)

namespace Decimal

theorem plain_digits (n : Nat) : Plain (digits n) := by
  intro c known
  have digit := Nat.isDigit_of_mem_toDigits (by decide) (by decide) known
  rw [Char.isDigit, Bool.and_eq_true, decide_eq_true_eq, decide_eq_true_eq] at digit
  obtain ⟨low, high⟩ := digit
  rw [ge_iff_le, UInt32.le_iff_toNat_le] at low
  rw [UInt32.le_iff_toNat_le] at high
  change 48 ≤ c.toNat at low
  change c.toNat ≤ 57 at high
  exact ⟨by omega, by omega⟩

theorem plain_padded (width n : Nat) : Plain (padded width n) := by
  unfold padded List.leftpad
  rw [plain_append]
  refine ⟨fun c known => ?_, plain_digits n⟩
  rw [List.eq_of_mem_replicate known]
  decide

theorem plain_positional (n places : Nat) : Plain (positional n places) := by
  unfold positional
  split
  · exact plain_digits _
  · exact plain_append.2 ⟨plain_digits _, plain_cons.2 ⟨by decide, plain_padded _ _⟩⟩

theorem plain_trimFraction {cs : List Char} (plain : Plain cs) : Plain (trimFraction cs) := by
  unfold trimFraction
  split
  · intro c known
    rw [List.mem_reverse] at known
    have kept := (List.dropWhile_sublist _).subset ((List.dropWhile_sublist _).subset known)
    exact plain c (List.mem_reverse.1 kept)
  · exact plain

theorem plain_exponentPart (exponent : Int) : Plain (exponentPart exponent) := by
  unfold exponentPart
  refine plain_cons.2 ⟨by decide, plain_cons.2 ⟨?_, plain_padded _ _⟩⟩
  split <;> decide

theorem plain_generalUnits (precision units : Nat) : Plain (generalUnits precision units) := by
  simp only [generalUnits]
  split
  · exact plain_append.2 ⟨plain_trimFraction (plain_positional _ _), plain_exponentPart _⟩
  · exact plain_trimFraction (plain_positional _ _)

end Decimal

/-- The text form of a number is plain. -/
theorem Double.plain_toText (x : Double) : Plain x.toText := by
  have signed : ∀ cs, Plain cs → Plain (if x.negative then '-' :: cs else cs) := by
    intro cs plain
    split
    · exact plain_cons.2 ⟨by decide, plain⟩
    · exact plain
  simp only [toText]
  split
  · exact signed ['n', 'a', 'n'] (by simp [IsPlain])
  split
  · exact signed ['i', 'n', 'f'] (by simp [IsPlain])
  split
  · split
    · simp [IsPlain]
    · exact signed _ (Decimal.plain_digits _)
  · exact signed _ (Decimal.plain_generalUnits _ _)

/-- The text that a cell derives from a number has the characters of its text form. -/
theorem Cell.chars_renderNumber (value : Double) : (renderNumber value).chars = value.toText := by
  obtain ⟨t, made, chars⟩ := Text.exists_ofString value.plain_toText
  rw [renderNumber, made]
  exact chars

end TreeJit
