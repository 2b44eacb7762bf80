import TreeJit.Cell
import TreeJit.Double.Arithmetic
import TreeJit.Node.Basic

/-! # What trees mean

The meaning of a tree without any code: what it evaluates to on a cell, and the
cell that it leaves behind.  Numbers only read the cell.  Strings are values of
their own here, copied when they are read; reading the variable as a string
leaves its text form in the cell.  Statements are given by rules, since a loop
need not end.
-/

namespace TreeJit

/-- What a tree evaluates to. -/
inductive Value where
  | number (x : Double)
  | string (t : Text)
  /-- A statement has no value. -/
  | nothing
  deriving DecidableEq

namespace Eval

/-- The value of an operator on its operands, left before right. -/
def applyOp : BinaryOp → Double → Double → Double
  | .add => Double.add
  | .sub => Double.sub
  | .mul => Double.mul
  | .div => Double.div
  | .mod => Double.rem

/-- The value of a tree in number position; none if it is no number expression over the variable. -/
def number (variableName : String) (cell : Cell) : Node → Option Double
  | .number value => some value
  | .var name => if name = variableName then some cell.number else none
  | .binary op lhs rhs => do
    let a ← number variableName cell lhs
    let b ← number variableName cell rhs
    some (applyOp op a b)
  | .neg operand => do
    let x ← number variableName cell operand
    some (Double.negativeZero.sub x)
  | _ => none

/-- The value of a tree in string position and the cell afterwards; none if it is no string
expression over the variable. -/
def string (variableName : String) (cell : Cell) : Node → Option (Text × Cell)
  | .string text => some (text, cell)
  | .var name => if name = variableName then some (cell.text, cell.withText) else none
  | .concat lhs rhs => do
    let (a, cell) ← string variableName cell lhs
    let (b, cell) ← string variableName cell rhs
    some (a ++ b, cell)
  | _ => none

/-- Whether a loop ends at a condition with this value: zero of either sign, or a NaN. -/
def endsLoop (x : Double) : Bool := x.isZero || x.isNaN

end Eval

/-- `Evaluates v c n r c'`: on the cell `c` of the variable `v`, the tree `n` evaluates to `r` and
leaves the cell `c'`. -/
inductive Evaluates (variableName : String) : Cell → Node → Value → Cell → Prop where
  | number {cell : Cell} {node : Node} {x : Double}
      (value : Eval.number variableName cell node = some x) :
      Evaluates variableName cell node (.number x) cell
  | string {cell left : Cell} {node : Node} {t : Text} (notVar : ∀ name, node ≠ .var name)
      (value : Eval.string variableName cell node = some (t, left)) :
      Evaluates variableName cell node (.string t) left
  | assignNumber {cell : Cell} {value : Node} {x : Double}
      (evaluated : Evaluates variableName cell value (.number x) cell) :
      Evaluates variableName cell (.assign variableName value) .nothing (cell.setNumber x)
  | assignString {cell left : Cell} {value : Node} {t : Text}
      (evaluated : Evaluates variableName cell value (.string t) left) :
      Evaluates variableName cell (.assign variableName value) .nothing (left.setText t)
  | loopDone {cell : Cell} {cond body : Node} {x : Double}
      (test : Eval.number variableName cell cond = some x) (done : Eval.endsLoop x) :
      Evaluates variableName cell (.loop cond body) .nothing cell
  | loopAgain {cell between left : Cell} {cond body : Node} {x : Double} {result : Value}
      (test : Eval.number variableName cell cond = some x) (again : ¬Eval.endsLoop x)
      (once : Evaluates variableName cell body result between)
      (rest : Evaluates variableName between (.loop cond body) .nothing left) :
      Evaluates variableName cell (.loop cond body) .nothing left

end TreeJit
