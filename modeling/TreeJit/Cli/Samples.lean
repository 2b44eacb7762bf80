import TreeJit.Node.Basic

/-! # Sample programs

The trees that the command line compiles and runs, all over the one variable
`x`.  The countdown is among them only if the variable starts at a whole number
that is not negative, since it would not end otherwise.
-/

namespace TreeJit.Cli

/-- The variable of the samples. -/
def sampleVariable : String := "x"

/-- A tree with a name. -/
structure Sample where
  name : String
  tree : Node

namespace Sample

def x : Node := .var sampleVariable

def whole (n : Nat) : Node := .number (.ofNat n)

/-- `(x * 3 + 1) mod 7` -/
def arith : Sample :=
  ⟨"arith",
    .binary .mod (.binary .add (.binary .mul x (whole 3)) (whole 1)) (whole 7)⟩

/-- `-(x / 4)` -/
def negate : Sample := ⟨"negate", .neg (.binary .div x (whole 4))⟩

/-- The text `x=` before the variable. -/
def concat : Sample := ⟨"concat", .concat (.string ⟨[0x78, 0x3D], by decide⟩) x⟩

/-- `while x do x := x - 1` -/
def countdown : Sample :=
  ⟨"countdown", .loop x (.assign sampleVariable (.binary .sub x (whole 1)))⟩

/-- The variable set to itself between a hash sign and an exclamation mark. -/
def label : Sample :=
  ⟨"label",
    .assign sampleVariable
      (.concat (.string ⟨[0x23], by decide⟩) (.concat x (.string ⟨[0x21], by decide⟩)))⟩

/-- A tree that is not compiled. -/
def print : Sample := ⟨"print", .print [x]⟩

/-- Whether a countdown from a number is offered. -/
def countsDown (value : Double) : Bool := value.isIntegral && (!value.negative || value.isZero)

/-- The samples for a starting value, in the order in which they run. -/
def all (value : Double) : List Sample :=
  [arith, negate, concat] ++ (if countsDown value then [countdown] else []) ++ [label, print]

end Sample

end TreeJit.Cli
