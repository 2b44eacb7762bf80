import TreeJit.Compiler
import TreeJit.Machine.Run

/-! # Calling compiled code

Compiled code is run on the machine from its first byte to its return.  A call
asks for the kind of value it wants; code that leaves another kind is not run.
A string is copied out before the block that holds it is freed.
-/

namespace TreeJit

open Machine (Host Outcome Program State Trap)

/-- Why a call has no result. -/
inductive CallFailure where
  | error (e : Error)
  | trapped (t : Trap)
  /-- The function had not returned after the allowed number of steps. -/
  | unfinished

/-- How many steps a call may take: more than any call that returns in practice. -/
def stepLimit : Nat := 0x4000000000000000

namespace CompiledCode

/-- The code with what it is linked to. -/
def program (c : CompiledCode) : Program := ⟨c.code, c.linkage, c.literals⟩

/-- Runs the code on a cell until it returns. -/
def execute (fuel : Nat) (c : CompiledCode) (cell : Cell) : Except CallFailure State :=
  match Machine.run Host.zero c.program fuel (State.enter .zero .zero false cell) with
  | .returned s => .ok s
  | .trapped t => .error (.trapped t)
  | .running _ => .error .unfinished

/-- Refuses code that leaves another kind of value than the expected one. -/
def expectResult (c : CompiledCode) (expected : ValueKind) : Except CallFailure Unit :=
  if c.result = expected then .ok () else .error (.error (.resultKind expected c.result))

/-- Frees the string in `rax` if it belongs to the caller. -/
def release (c : CompiledCode) (s : State) : Except CallFailure State :=
  if c.result = .string ∧ c.ownsResult then (s.free s.registers.rax).mapError .trapped else .ok s

/-- Runs the code for its effect on the cell. -/
def run (fuel : Nat) (c : CompiledCode) (cell : Cell) : Except CallFailure Cell := do
  let s ← c.execute fuel cell
  let s ← c.release s
  .ok s.cell

/-- Runs code that leaves a number. -/
def runNumber (fuel : Nat) (c : CompiledCode) (cell : Cell) :
    Except CallFailure (Double × Cell) := do
  c.expectResult .number
  let s ← c.execute fuel cell
  .ok (s.vectors.xmm0, s.cell)

/-- Runs code that leaves a string. -/
def runString (fuel : Nat) (c : CompiledCode) (cell : Cell) :
    Except CallFailure (Text × Cell) := do
  c.expectResult .string
  let s ← c.execute fuel cell
  let text ← (State.textAt c.program s s.registers.rax).mapError .trapped
  let s ← c.release s
  .ok (text, s.cell)

end CompiledCode

end TreeJit
