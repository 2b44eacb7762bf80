import TreeJit.Double.Arithmetic
import TreeJit.Machine.State

/-! # Helper calls

A helper call is one step.  The helper does its work on the cell or the heap and
leaves its result in the register of the calling convention.  Every other
register that a callee need not preserve, the flags, and the stack below the
stack pointer may hold anything afterwards: a `Host` decides what.
-/

namespace TreeJit.Machine

/-- What a helper leaves in the places that it need not preserve. -/
structure Scratch where
  rax : Word
  rcx : Word
  rdx : Word
  rsi : Word
  rdi : Word
  vectors : Vectors
  zeroFlag : Bool
  below : Memory

/-- What each call of a run leaves behind, by its number. -/
abbrev Host := Nat → Scratch

/-- A host whose helpers leave zeros. -/
def Host.zero : Host :=
  fun _ => ⟨.bits 0, .bits 0, .bits 0, .bits 0, .bits 0, .zero, false, ⟨[]⟩⟩

namespace State

/-- Checks that a word is the address of the cell. -/
def checkCell (p : Program) (w : Word) : Except Trap Unit :=
  match w with
  | .bits address => if p.locate address = some .cell then .ok () else .error .notCell
  | _ => .error .notCell

/-- Gives up everything that a call need not preserve. -/
def scramble (s : State) (scratch : Scratch) (stackPointer : Int) : State :=
  let r := s.registers
  { s with
    registers :=
      ⟨scratch.rax, scratch.rcx, scratch.rdx, r.rbx, r.rsp, r.rbp, scratch.rsi, scratch.rdi⟩
    vectors := scratch.vectors
    zeroFlag := scratch.zeroFlag
    memory := s.memory.replaceBelow stackPointer scratch.below
    calls := s.calls + 1 }

/-- Fills the cell's text slot, if need be. -/
def fillText (s : State) : State :=
  { s with cell := s.cell.withText, version := if s.cell.hasText then s.version else s.version + 1 }

/-- Does the work of a helper on the arguments in `args` and puts the result into its register.
The registers of `s` have been given up already. -/
def perform (p : Program) (args : State) (s : State) : Helper → Except Trap State
  | .readNumber => do
    checkCell p args.registers.rdi
    .ok (s.setVector .xmm0 s.cell.number)
  | .readString => do
    checkCell p args.registers.rdi
    let s := s.fillText
    .ok (s.setRegister .rax (.slot s.version))
  | .writeNumber => do
    checkCell p args.registers.rdi
    .ok { s with cell := s.cell.setNumber args.vectors.xmm0 }
  | .writeString => do
    checkCell p args.registers.rdi
    let text ← textAt p args args.registers.rsi
    .ok { s with cell := s.cell.setText text, version := s.version + 1 }
  | .concat => do
    let lhs ← textAt p args args.registers.rdi
    let rhs ← textAt p args args.registers.rsi
    let s := { s with heap := s.heap.push (some (lhs ++ rhs)) }
    .ok (s.setRegister .rax (.block (s.heap.size - 1)))
  | .remainder => .ok (s.setVector .xmm0 (args.vectors.xmm0.rem args.vectors.xmm1))

/-- Calls the helper at the address in a word.  The stack has to be aligned to 16 bytes. -/
def call (host : Host) (p : Program) (s : State) (target : Word) : Except Trap State := do
  let stackPointer ← s.stackPointer
  if (stackPointer + 8) % 16 ≠ 0 then .error (.misalignedCall stackPointer)
  else match target with
    | .bits address =>
      match p.locate address with
      | some (.helper h) => perform p s (s.scramble (host s.calls) stackPointer) h
      | _ => .error .badCall
    | _ => .error .badCall

end State

end TreeJit.Machine
