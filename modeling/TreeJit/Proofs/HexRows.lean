import Mathlib.Algebra.Order.Floor.Div
import Mathlib.Data.List.Forall2
import Mathlib.GroupTheory.GroupAction.Ring
import TreeJit.Cli.HexDump

/-! # Reading a hex dump back

A dump is made for the eye: numbers in hexadecimal, words with spaces between
them, rows of sixteen bytes.  Nothing is lost that way, since a dump can be read
back word by word.  Rows are lines, and the words of a line are its offset and
its bytes, with empty words where two spaces meet.

What a row looks like is said without the functions that write it, and reading
depends on nothing else.  The non-trivial ingredients are that digits are neither
spaces nor line ends, so that words and lines come apart where they were joined
(`IsRow.words` and `lines_terminated`), and that the rows, one after the other,
have each byte once (`flatten_rowBytes`).

* `IsHex` — a number in upper-case hexadecimal, padded to a width.
* `IsRow` — what a row consists of.
* `readRows?` — the bytes that rows show.
* `dump_loses_nothing` — a dump has the rows that it should have, and they are
  read back as the bytes that were dumped.
-/

namespace TreeJit.Cli.HexDump

/-! ## Hexadecimal numbers -/

/-- The upper-case hexadecimal digits in the order of their values. -/
def upperDigits : List Char :=
  ['0', '1', '2', '3', '4', '5', '6', '7', '8', '9', 'A', 'B', 'C', 'D', 'E', 'F']

/-- The number that upper-case digits denote, most significant first. -/
def readHex (cs : List Char) : Nat := cs.foldl (fun n c => 16 * n + upperDigits.idxOf c) 0

/-- `IsHex width n cs`: the number `n` in upper-case hexadecimal, with zeros before it only as far
as it takes to make `width` digits. -/
structure IsHex (width n : Nat) (cs : List Char) : Prop where
  digits : ∀ c ∈ cs, c ∈ upperDigits
  value : readHex cs = n
  wide : width ≤ cs.length
  tight : width < cs.length → cs.head? ≠ some '0'

/-- The digit with the given value. -/
def upperDigit (d : Nat) : Char := d.digitChar.toUpper

/-- The digits of a number, without zeros before it. -/
def upperNumeral (n : Nat) : List Char := (Nat.toDigits 16 n).map Char.toUpper

theorem upperDigit_has_value : ∀ d < 16, upperDigit d ∈ upperDigits ∧
    upperDigits.idxOf (upperDigit d) = d ∧ (upperDigit d = '0' → d = 0) := by
  decide

theorem upperNumeral_of_lt {n : Nat} (small : n < 16) : upperNumeral n = [upperDigit n] := by
  rw [upperNumeral, Nat.toDigits_of_lt_base small]
  rfl

theorem upperNumeral_of_le {n : Nat} (large : 16 ≤ n) :
    upperNumeral n = upperNumeral (n / 16) ++ [upperDigit (n % 16)] := by
  rw [upperNumeral, Nat.toDigits_eq_if (by decide), if_neg (Nat.not_lt.2 large), List.map_append]
  rfl

theorem readHex_append_singleton (cs : List Char) (c : Char) :
    readHex (cs ++ [c]) = 16 * readHex cs + upperDigits.idxOf c := by
  rw [readHex, List.foldl_append]
  rfl

theorem readHex_zeros_append (count : Nat) (cs : List Char) :
    readHex (List.replicate count '0' ++ cs) = readHex cs := by
  induction count with
  | zero => rfl
  | succ count ih => exact ih

theorem upperNumeral_ne_nil (n : Nat) : upperNumeral n ≠ [] :=
  mt List.map_eq_nil_iff.1 Nat.toDigits_ne_nil

/-- A number without zeros before it. -/
theorem upperNumeral_denotes (n : Nat) :
    (∀ c ∈ upperNumeral n, c ∈ upperDigits) ∧ readHex (upperNumeral n) = n ∧
      (0 < n → (upperNumeral n).head? ≠ some '0') := by
  induction n using Nat.strongRecOn with
  | ind n ih =>
    by_cases small : n < 16
    · obtain ⟨digit, value, zero⟩ := upperDigit_has_value n small
      rw [upperNumeral_of_lt small]
      refine ⟨by simpa using digit, by simpa [readHex] using value, fun positive head => ?_⟩
      exact positive.ne' (zero (Option.some.inj head))
    · have large := Nat.le_of_not_lt small
      obtain ⟨digits, value, tight⟩ := ih (n / 16) (by omega)
      obtain ⟨digit, last, -⟩ := upperDigit_has_value (n % 16) (Nat.mod_lt n (by decide))
      rw [upperNumeral_of_le large]
      refine ⟨?_, ?_, fun _ => ?_⟩
      · rw [List.forall_mem_append]
        exact ⟨digits, by simpa using digit⟩
      · rw [readHex_append_singleton, value, last]
        omega
      · rw [List.head?_append_of_ne_nil _ (upperNumeral_ne_nil _)]
        exact tight (by omega)

theorem isHex_upperHex {width : Nat} (positive : 0 < width) (n : Nat) :
    IsHex width n (upperHex width n) := by
  obtain ⟨digits, value, tight⟩ := upperNumeral_denotes n
  have padded : upperHex width n =
      List.replicate (width - (upperNumeral n).length) '0' ++ upperNumeral n := rfl
  have length : (upperHex width n).length = max width (upperNumeral n).length :=
    List.length_leftpad
  refine ⟨?_, ?_, by omega, fun long => ?_⟩
  · rw [padded, List.forall_mem_append]
    refine ⟨fun c zero => ?_, digits⟩
    rw [List.eq_of_mem_replicate zero]
    decide
  · rw [padded, readHex_zeros_append, value]
  · -- There is no room for zeros, and one digit would not have been too many.
    have full : width - (upperNumeral n).length = 0 := by omega
    rw [padded, full]
    apply tight
    by_contra zero
    have one : (upperNumeral n).length = 1 := by
      rw [Nat.eq_zero_of_not_pos zero]
      rfl
    omega

/-! ## What rows look like -/

/-- `IsCell b word`: the byte `b` as two digits. -/
structure IsCell (b : UInt8) (word : List Char) : Prop where
  hex : IsHex 2 b.toNat word
  length : word.length = 2

/-- `IsRow bytes index row`: the row with the given number in a dump of bytes, without its line end.
It shows the bytes from its offset on, up to the next row or to the last byte. -/
inductive IsRow (bytes : List UInt8) (index : Nat) : List Char → Prop where
  | intro {offset : List Char} {cells : List (List Char)} (isOffset : IsHex 4 (16 * index) offset)
      (areCells : List.Forall₂ IsCell
        (bytes.extract (16 * index) (min (16 * index + 16) bytes.length)) cells) :
      IsRow bytes index ([' ', ' '] ++ offset ++ [' ', ' '] ++ [' '].intercalate cells)

/-- The bytes of a row. -/
def rowBytes (bytes : List UInt8) (index : Nat) : List UInt8 :=
  (bytes.drop (rowSize * index)).take rowSize

theorem extract_eq_rowBytes (bytes : List UInt8) (index : Nat) :
    bytes.extract (16 * index) (min (16 * index + 16) bytes.length) = rowBytes bytes index := by
  rw [List.extract_eq_take_drop, rowBytes, rowSize, List.take_eq_take_iff, List.length_drop]
  omega

/-- The rows, one after the other, have each byte once. -/
theorem flatten_rowBytes (bytes : List UInt8) :
    ((List.range (rowCount bytes.length)).map (rowBytes bytes)).flatten = bytes := by
  have front (count : Nat) :
      ((List.range count).map (rowBytes bytes)).flatten = bytes.take (rowSize * count) := by
    induction count with
    | zero => rfl
    | succ count ih =>
      rw [List.range_succ, List.map_append, List.flatten_append, ih, Nat.mul_succ, List.take_add]
      simp [rowBytes]
  rw [front]
  apply List.take_of_length_le
  unfold rowCount rowSize
  omega

theorem rowBytes_ne_nil {bytes : List UInt8} {index : Nat}
    (inside : index < rowCount bytes.length) : rowBytes bytes index ≠ [] := by
  unfold rowCount rowSize at inside
  apply List.ne_nil_of_length_pos
  rw [rowBytes, List.length_take, List.length_drop, rowSize]
  omega

/-! ## Reading -/

/-- The byte that a word of two digits denotes. -/
def readByte? (word : List Char) : Option UInt8 :=
  if word.length = 2 ∧ word.all upperDigits.contains then
    some (UInt8.ofNat (readHex word))
  else
    none

/-- The bytes of a line: two empty words, an offset and another empty word come before them. -/
def readRow? (line : List Char) : Option (List UInt8) :=
  match line.splitOn ' ' with
  | [] :: [] :: _ :: [] :: words => words.mapM readByte?
  | _ => none

/-- The bytes that rows show, where each row ends in a line end. -/
def readRows? (text : List Char) : Option (List UInt8) :=
  ((text.splitOn '\n').dropLast.mapM readRow?).map List.flatten

theorem mapM_eq_some_of_forall₂ {α : Type} {read : List Char → Option α} {values : List α}
    {texts : List (List Char)}
    (reads : List.Forall₂ (fun value text => read text = some value) values texts) :
    texts.mapM read = some values := by
  induction reads with
  | nil => rfl
  | cons first _ ih =>
    rw [List.mapM_cons, first, ih]
    rfl

theorem IsCell.reads {b : UInt8} {word : List Char} (cell : IsCell b word) :
    readByte? word = some b := by
  have digits : word.all upperDigits.contains := by simpa using cell.hex.digits
  rw [readByte?, if_pos ⟨cell.length, digits⟩, cell.hex.value, UInt8.ofNat_toNat]

theorem not_mem_intercalate {c : Char} {separator : List Char} {words : List (List Char)}
    (between : c ∉ separator) (inside : ∀ word ∈ words, c ∉ word) :
    c ∉ separator.intercalate words := by
  induction words with
  | nil => exact List.not_mem_nil
  | cons word words ih =>
    rw [List.forall_mem_cons] at inside
    cases words with
    | nil => simpa using inside.1
    | cons next words =>
      rw [List.intercalate_cons_cons, List.mem_append, List.mem_append, not_or, not_or]
      exact ⟨⟨inside.1, between⟩, ih inside.2⟩

theorem digits_of_mem_cells {bs : List UInt8} {cells : List (List Char)}
    (areCells : List.Forall₂ IsCell bs cells) : ∀ word ∈ cells, ∀ c ∈ word, c ∈ upperDigits := by
  induction areCells with
  | nil => nofun
  | cons cell _ ih => exact List.forall_mem_cons.2 ⟨cell.hex.digits, ih⟩

variable {bytes : List UInt8} {index : Nat} {line : List Char}

/-- A row with bytes in it is words of digits, with a space between them. -/
theorem IsRow.words (isRow : IsRow bytes index line) (nonempty : rowBytes bytes index ≠ []) :
    ∃ offset cells, List.Forall₂ IsCell (rowBytes bytes index) cells ∧
      line = [' '].intercalate ([] :: [] :: offset :: [] :: cells) ∧
      ∀ word ∈ [] :: [] :: offset :: [] :: cells, ∀ c ∈ word, c ∈ upperDigits := by
  cases isRow with
  | @intro offset cells isOffset areCells =>
    rw [extract_eq_rowBytes] at areCells
    refine ⟨offset, cells, areCells, ?_, ?_⟩
    · have some : cells ≠ [] := by
        rintro rfl
        exact nonempty (List.forall₂_nil_right_iff.1 areCells)
      rw [List.intercalate_cons_cons, List.intercalate_cons_cons, List.intercalate_cons_cons,
        List.intercalate_cons_of_ne_nil some]
      simp
    · simp only [List.forall_mem_cons]
      exact ⟨nofun, nofun, isOffset.digits, nofun, digits_of_mem_cells areCells⟩

theorem IsRow.reads (isRow : IsRow bytes index line) (nonempty : rowBytes bytes index ≠ []) :
    readRow? line = some (rowBytes bytes index) := by
  obtain ⟨offset, cells, areCells, rfl, digits⟩ := isRow.words nonempty
  have apart : ([' '].intercalate ([] :: [] :: offset :: [] :: cells)).splitOn ' ' =
      [] :: [] :: offset :: [] :: cells := by
    apply List.splitOn_intercalate
    · intro word member space
      exact absurd (digits word member ' ' space) (by decide)
    · exact List.cons_ne_nil _ _
  rw [readRow?, apart]
  exact mapM_eq_some_of_forall₂ (areCells.imp fun _ _ => IsCell.reads)

theorem IsRow.lineEnd_not_mem (isRow : IsRow bytes index line)
    (nonempty : rowBytes bytes index ≠ []) : '\n' ∉ line := by
  obtain ⟨offset, cells, -, rfl, digits⟩ := isRow.words nonempty
  apply not_mem_intercalate (by decide)
  intro word member lineEnd
  exact absurd (digits word member '\n' lineEnd) (by decide)

/-- Lines that end in a line end come apart again, and an empty line is left over. -/
theorem lines_terminated {lines : List (List Char)} (whole : ∀ line ∈ lines, '\n' ∉ line) :
    (lines.flatMap (· ++ ['\n'])).splitOn '\n' = lines ++ [[]] := by
  have joined : lines.flatMap (· ++ ['\n']) = ['\n'].intercalate (lines ++ [[]]) := by
    clear whole
    induction lines with
    | nil => rfl
    | cons line lines ih =>
      rw [List.flatMap_cons, ih, List.cons_append, List.intercalate_cons_of_ne_nil (by simp)]
  rw [joined]
  apply List.splitOn_intercalate
  · intro line member
    rcases List.mem_append.1 member with inside | last
    · exact whole line inside
    · rw [List.mem_singleton.1 last]
      exact List.not_mem_nil
  · simp

/-- Rows that look as they should are read as the bytes that they show. -/
theorem readRows?_of_isRow {lines : List (List Char)}
    (count : lines.length = rowCount bytes.length)
    (areRows : ∀ i line, lines[i]? = some line → IsRow bytes i line ∧ '\n' ∉ line) :
    readRows? (lines.flatMap (· ++ ['\n'])) = some bytes := by
  have whole : ∀ line ∈ lines, '\n' ∉ line := by
    intro line member
    obtain ⟨i, found⟩ := List.mem_iff_getElem?.1 member
    exact (areRows i line found).2
  have read : lines.mapM readRow? =
      some ((List.range (rowCount bytes.length)).map (rowBytes bytes)) := by
    apply mapM_eq_some_of_forall₂
    rw [List.forall₂_map_left_iff, List.forall₂_iff_get]
    refine ⟨by rw [List.length_range, count], fun i inside inside' => ?_⟩
    have isRow := (areRows i _ (List.getElem?_eq_getElem inside')).1
    rw [List.length_range] at inside
    simpa using isRow.reads (rowBytes_ne_nil inside)
  rw [readRows?, lines_terminated whole, List.dropLast_concat, read, Option.map_some,
    flatten_rowBytes]

/-! ## Writing -/

/-- A row without its line end. -/
def rowText (bytes : List UInt8) (index : Nat) : List Char :=
  [' ', ' '] ++ upperHex 4 (rowSize * index) ++ [' ', ' ']
    ++ [' '].intercalate ((rowCells (bytes.map some) index).map cell)

/-- The rows of a dump, without their line ends. -/
def lines (bytes : List UInt8) : List (List Char) :=
  (List.range (rowCount bytes.length)).map (rowText bytes)

theorem ofBytes_eq (name : String) (bytes : List UInt8) :
    ofBytes name bytes = name.toList ++ [':', '\n'] ++ (lines bytes).flatMap (· ++ ['\n']) := by
  rw [ofBytes, render, rows, List.length_map, lines, List.flatMap_map]
  rfl

theorem isCell_cell (b : UInt8) : IsCell b (cell (some b)) := by
  refine ⟨isHex_upperHex (by decide) _, ?_⟩
  have short : (Nat.toDigits 16 b.toNat).length ≤ 2 :=
    (Nat.length_toDigits_le_iff (by decide) (by decide)).2 b.toNat_lt
  rw [cell, upperHex, List.length_leftpad, List.length_map]
  exact Nat.max_eq_left short

theorem isRow_rowText (bytes : List UInt8) (index : Nat) :
    IsRow bytes index (rowText bytes index) := by
  refine .intro (isHex_upperHex (by decide) _) ?_
  have same : rowCells (bytes.map some) index = (rowBytes bytes index).map some := by
    rw [rowCells, rowBytes, List.map_take, List.map_drop]
  rw [extract_eq_rowBytes, same, List.map_map, List.forall₂_map_right_iff, List.forall₂_same]
  exact fun b _ => isCell_cell b

theorem isRow_of_lines (bytes : List UInt8) (i : Nat) (line : List Char)
    (known : (lines bytes)[i]? = some line) : IsRow bytes i line ∧ '\n' ∉ line := by
  rw [lines, List.getElem?_map, Option.map_eq_some_iff] at known
  obtain ⟨index, found, rfl⟩ := known
  obtain ⟨inside, rfl⟩ := List.getElem?_eq_some_iff.1 found
  rw [List.length_range] at inside
  rw [List.getElem_range]
  exact ⟨isRow_rowText bytes i, (isRow_rowText bytes i).lineEnd_not_mem (rowBytes_ne_nil inside)⟩

theorem length_lines (bytes : List UInt8) : (lines bytes).length = rowCount bytes.length := by
  rw [lines, List.length_map, List.length_range]

/-- A dump consists of its name, a colon and a line end, and of rows of sixteen bytes, the last one
with those that are left.  Each row is its offset in at least four hexadecimal digits and its bytes
in two digits each, and reading the rows gives back the bytes that were dumped.  So dumps of
different bytes under one name differ. -/
theorem dump_loses_nothing (name : String) (bytes : List UInt8) :
    ∃ rows : List (List Char),
      ofBytes name bytes = name.toList ++ [':', '\n'] ++ rows.flatMap (· ++ ['\n']) ∧
      rows.length = bytes.length ⌈/⌉ 16 ∧
      (∀ i row, rows[i]? = some row → IsRow bytes i row ∧ '\n' ∉ row) ∧
      readRows? (rows.flatMap (· ++ ['\n'])) = some bytes ∧
      ∀ other, ofBytes name other = ofBytes name bytes → other = bytes := by
  have reads (bytes : List UInt8) :
      readRows? ((lines bytes).flatMap (· ++ ['\n'])) = some bytes :=
    readRows?_of_isRow (length_lines bytes) (isRow_of_lines bytes)
  refine ⟨lines bytes, ofBytes_eq name bytes, length_lines bytes, isRow_of_lines bytes,
    reads bytes, fun other same => ?_⟩
  rw [ofBytes_eq, ofBytes_eq, List.append_cancel_left_eq] at same
  have read := reads other
  rw [same, reads bytes] at read
  exact (Option.some.inj read).symm

/-- A full row and one byte more, under a name with a line end in it. -/
theorem dump_of_seventeen_bytes :
    let bytes : List UInt8 := List.replicate 17 0xAB
    ∃ first second : List Char,
      ofBytes "a\nb" bytes = "a\nb:\n".toList ++ (first ++ ['\n'] ++ (second ++ ['\n'])) ∧
      IsRow bytes 0 first ∧ IsRow bytes 1 second ∧
      readRows? (first ++ ['\n'] ++ (second ++ ['\n'])) = some bytes ∧
      ofBytes "a\nb" (List.replicate 16 0xAB) ≠ ofBytes "a\nb" bytes := by
  intro bytes
  obtain ⟨rows, dump, count, areRows, read, injective⟩ := dump_loses_nothing "a\nb" bytes
  have two : rows.length = 2 := by
    simp [count, bytes, Nat.ceilDiv_eq_add_pred_div]
  obtain ⟨first, second, rfl⟩ := List.length_eq_two.1 two
  refine ⟨first, second, ?_, (areRows 0 first rfl).1, (areRows 1 second rfl).1, ?_, ?_⟩
  · simpa using dump
  · simpa using read
  · intro same
    exact absurd (injective _ same) (by decide)

example : String.ofList (ofBytes "code" [0x0A, 0xFF]) = "code:\n  0000  0A FF\n" := by decide

end TreeJit.Cli.HexDump
