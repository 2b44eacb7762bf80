import TreeJit.Decimal.General
import TreeJit.Decimal.Numeral
import TreeJit.Text.Utf8

/-! # Value cells

A cell is the one variable that compiled code can touch.  It has a slot for a
number and a slot for a text, and a flag for each that says whether the slot
holds the current value.  A write fills one slot and leaves the other one
behind; reading the missing form derives it from the other.  Only the text form
is kept after it has been derived.
-/

namespace TreeJit

/-- A variable: a number, a text, or both forms of one value. -/
structure Cell where
  hasNumber : Bool
  hasText : Bool
  numberSlot : Double
  textSlot : Text
  deriving DecidableEq

namespace Cell

/-! ## Writes -/

/-- A cell that nothing was written to: the number zero and, on its own, the empty text. -/
def fresh : Cell := ⟨true, true, Double.zero, Text.empty⟩

/-- Writes a number; the text slot keeps what it held but no longer counts. -/
def setNumber (c : Cell) (value : Double) : Cell :=
  { c with numberSlot := value, hasNumber := true, hasText := false }

/-- Writes a text; the number slot keeps what it held but no longer counts. -/
def setText (c : Cell) (text : Text) : Cell :=
  { c with textSlot := text, hasNumber := false, hasText := true }

def ofNumber (value : Double) : Cell := fresh.setNumber value

def ofText (text : Text) : Cell := fresh.setText text

/-! ## Reads -/

/-- The text form of a number. -/
def renderNumber (value : Double) : Text :=
  (Text.ofString (String.ofList value.toText)).toOption.getD Text.empty

/-- The number in the cell; a cell that only has a text gives the number its text starts with. -/
def number (c : Cell) : Double :=
  if c.hasNumber then c.numberSlot else Decimal.readLeading c.textSlot.chars

/-- The cell with its text slot filled: a cell that only has a number gets its text form and keeps
the number. -/
def withText (c : Cell) : Cell :=
  if c.hasText then c else { c with textSlot := renderNumber c.numberSlot, hasText := true }

/-- The text in the cell; reading it leaves `c.withText` behind. -/
def text (c : Cell) : Text := c.withText.textSlot

/-! ## Reads after writes -/

@[simp] theorem number_setNumber (c : Cell) (value : Double) :
    (c.setNumber value).number = value := rfl

@[simp] theorem text_setNumber (c : Cell) (value : Double) :
    (c.setNumber value).text = renderNumber value := rfl

@[simp] theorem text_setText (c : Cell) (text : Text) : (c.setText text).text = text := rfl

@[simp] theorem number_setText (c : Cell) (text : Text) :
    (c.setText text).number = Decimal.readLeading text.chars := rfl

/-- Filling the text slot twice fills it once. -/
@[simp] theorem withText_withText (c : Cell) : c.withText.withText = c.withText := by
  unfold withText
  cases h : c.hasText
  · simp
  · simp [h]

end Cell

end TreeJit
