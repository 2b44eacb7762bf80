import TreeJit.Code.Script

/-! # Code for trees

A tree becomes an assembly script.  Code for a number leaves it in `xmm0`, code
for a string leaves its address in `rax`, and a statement leaves nothing.  Every
script is balanced: it leaves the stack as it found it.

Which of the three a node is follows from its kind alone (`Node.valueKind`).
Positions can be narrower: arithmetic, negation and loop conditions need a
number, concatenation needs strings, and a variable serves in both.  The first
node in preorder that does not fit ends the script with an error.
-/

namespace TreeJit

open X86 (Instr)

/-! ## Refusals -/

/-- Turns down a node that is never compiled, and reports it. -/
def Node.reject {α : Type} (node : Node) : Script α := do
  Script.note (.rejected node.kind)
  Script.fail (.unsupported node.kind)

/-- Turns down a node that stands where a value of another kind is needed. -/
def Node.mismatch {α : Type} (node : Node) (expected : ValueKind) : Script α :=
  Script.fail (.valueKind node.kind expected)

/-- The kind of value that a node's code leaves. -/
def Node.valueKind (node : Node) : Script ValueKind :=
  match node with
  | .number _ | .var _ | .binary _ _ _ | .neg _ => pure .number
  | .string _ | .concat _ _ => pure .string
  | .assign _ _ | .loop _ _ => pure .statement
  | .compare _ _ _ | .block _ | .print _ | .call _ _ => node.reject

namespace Codegen

/-- The one variable that compiled code may touch, by name, and the number that the next string
literal gets. -/
structure Scope where
  bound : String
  firstLiteral : Nat

/-- The scope after the literals of a tree. -/
def Scope.after (scope : Scope) (node : Node) : Scope :=
  { scope with firstLiteral := scope.firstLiteral + node.literals.length }

/-! ## Building blocks -/

/-- Refuses any name but that of the bound variable. -/
def checkBound (scope : Scope) (name : String) : Script Unit :=
  if name = scope.bound then pure () else Script.fail (.unbound name)

/-- Calls a helper by way of `rax`. -/
def callHelper (h : Helper) : Script Unit := do
  Script.address .rax (.helper h)
  Script.emit (.call .rax)

/-- Calls a helper on the variable's cell. -/
def callOnCell (h : Helper) : Script Unit := do
  Script.address X86.firstArgument .cell
  callHelper h

/-- The instruction for an operator, if there is one. -/
def scalarOp? : BinaryOp → Option X86.ScalarOp
  | .add => some .add
  | .sub => some .sub
  | .mul => some .mul
  | .div => some .div
  | .mod => none

/-- Applies an operator to the left operand in `xmm1` and the right one in `xmm0`. -/
def applyOp (op : BinaryOp) : Script Unit :=
  match scalarOp? op with
  | some scalar => do
    Script.emit (.scalar scalar .xmm1 .xmm0)
    Script.emit (.movapd .xmm0 .xmm1)
  | none => do
    Script.emit (.movapd .xmm2 .xmm0)
    Script.emit (.movapd .xmm0 .xmm1)
    Script.emit (.movapd .xmm1 .xmm2)
    callHelper .remainder

/-- A binary operation: the left operand waits on the stack while the right one is computed. -/
def binary (op : BinaryOp) (lhs rhs : Script Unit) : Script Unit := do
  lhs
  Script.emit (.subSp X86.spillSlot)
  Script.emit (.store .xmm0)
  rhs
  Script.emit (.load .xmm1)
  Script.emit (.addSp X86.spillSlot)
  applyOp op

/-- Subtracts from negative zero, which turns zero into negative zero and keeps NaNs. -/
def negate (operand : Script Unit) : Script Unit := do
  operand
  Script.emit (.movImm .rax Double.negativeZero.bits)
  Script.emit (.movq .xmm1 .rax)
  Script.emit (.scalar .sub .xmm1 .xmm0)
  Script.emit (.movapd .xmm0 .xmm1)

/-- A concatenation: the left operand's address waits on the stack. -/
def concat (lhs rhs : Script Unit) : Script Unit := do
  lhs
  Script.emit (.push .rax)
  Script.emit (.subSp X86.pushPad)
  rhs
  Script.emit (.addSp X86.pushPad)
  Script.emit (.pop .rcx)
  Script.emit (.mov X86.secondArgument .rax)
  Script.emit (.mov X86.firstArgument .rcx)
  callHelper .concat

/-- The condition of a loop and the jump out of it. -/
def loopTest (cond : Script Unit) : Script Unit := do
  cond
  Script.emit (.xorpd .xmm1 .xmm1)
  Script.emit (.ucomisd .xmm0 .xmm1)
  Script.emit (.je 0)

/-- A loop.  Both jumps are written without a target and are resolved once the end is reached: the
displacement of the exit ends where the body begins, that of the jump back ends at the cursor. -/
def loop (cond : Script Unit) (body : Script ValueKind) : Script Unit := do
  loopTest cond
  let _ ← body
  Script.emit (.jmp 0)
  let repeated := body.size + (Instr.jmp 0).size
  Script.resolve (repeated + 4) 0
  Script.resolve 4 ((loopTest cond).size + repeated)

/-! ## Trees -/

/-- Code that leaves a number in `xmm0`. -/
def number (scope : Scope) : Node → Script Unit
  | .number value => do
    Script.emit (.movImm .rax value.bits)
    Script.emit (.movq .xmm0 .rax)
  | .var name => do
    checkBound scope name
    callOnCell .readNumber
  | .binary op lhs rhs => binary op (number scope lhs) (number scope rhs)
  | .neg operand => negate (number scope operand)
  | .string text => (Node.string text).mismatch .number
  | .concat lhs rhs => (Node.concat lhs rhs).mismatch .number
  | .assign name value => (Node.assign name value).mismatch .number
  | .loop cond body => (Node.loop cond body).mismatch .number
  | .compare op lhs rhs => (Node.compare op lhs rhs).reject
  | .block items => (Node.block items).reject
  | .print items => (Node.print items).reject
  | .call name args => (Node.call name args).reject

/-- Code that leaves the address of a string in `rax`. -/
def string (scope : Scope) : Node → Script Unit
  | .string _ => Script.address .rax (.literal scope.firstLiteral)
  | .var name => do
    checkBound scope name
    callOnCell .readString
  | .concat lhs rhs => concat (string scope lhs) (string (scope.after lhs) rhs)
  | .number value => (Node.number value).mismatch .string
  | .binary op lhs rhs => (Node.binary op lhs rhs).mismatch .string
  | .neg operand => (Node.neg operand).mismatch .string
  | .assign name value => (Node.assign name value).mismatch .string
  | .loop cond body => (Node.loop cond body).mismatch .string
  | .compare op lhs rhs => (Node.compare op lhs rhs).reject
  | .block items => (Node.block items).reject
  | .print items => (Node.print items).reject
  | .call name args => (Node.call name args).reject

/-- Code that writes a value to the variable. -/
def assign (scope : Scope) (name : String) (value : Node) : Script Unit := do
  checkBound scope name
  match ← value.valueKind with
  | .number =>
    number scope value
    callOnCell .writeNumber
  | .string =>
    string scope value
    Script.emit (.mov X86.secondArgument .rax)
    callOnCell .writeString
  | .statement => value.mismatch .number

/-- Code for a tree in a position that takes any kind of value; gives the kind. -/
def node (scope : Scope) : Node → Script ValueKind
  | .assign name value => do
    assign scope name value
    pure .statement
  | .loop cond body => do
    loop (number scope cond) (node (scope.after cond) body)
    pure .statement
  | other => do
    let kind ← other.valueKind
    match kind with
    | .number => number scope other
    | .string => string scope other
    | .statement => other.mismatch .statement
    pure kind

/-- A whole function: the tree's code inside a frame. -/
def function (scope : Scope) (root : Node) : Script ValueKind := do
  Script.emitAll X86.prologue
  let kind ← node scope root
  Script.emitAll X86.epilogue
  pure kind

end Codegen

end TreeJit
