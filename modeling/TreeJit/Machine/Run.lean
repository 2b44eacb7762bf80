import TreeJit.Machine.Helper
import TreeJit.X86.Decode

/-! # Running code

`step` fetches the bytes at the program counter, decodes one instruction and
carries it out.  `run` repeats that until the function returns, a trap stops it,
or the given number of steps has been taken.
-/

namespace TreeJit.Machine

open X86 (Instr)

/-- How a run stands. -/
inductive Outcome where
  | running (s : State)
  | returned (s : State)
  | trapped (t : Trap)

/-- How far `push` and `pop` move the stack pointer. -/
def wordSize : Int := 8

/-- A byte operand of a stack adjustment, which is signed. -/
def signedByte (b : UInt8) : Int := b.toInt8.toInt

/-- Where a jump goes that ends at `next`. -/
def jumpTarget (next : Nat) (displacement : Int32) : Int := (next : Int) + displacement.toInt

/-- The state with the program counter at a jump's target. -/
def State.jump (s : State) (target : Int) : Except Trap State :=
  if 0 ≤ target then .ok { s with pc := target.toNat } else .error (.badInstruction s.pc)

/-- What a scalar operation computes from its two operands. -/
def scalarResult : X86.ScalarOp → Double → Double → Double
  | .add => Double.add
  | .sub => Double.sub
  | .mul => Double.mul
  | .div => Double.div

/-- Carries out an instruction other than a return; the program counter is behind it already. -/
def execute (host : Host) (p : Program) (s : State) : Instr → Except Trap State
  | .push reg => do
    let address := (← s.stackPointer) - wordSize
    let s ← s.storeWord address (s.registers.get reg)
    .ok (s.setRegister .rsp (.stack address))
  | .pop reg => do
    let address ← s.stackPointer
    let w ← s.loadWord address
    .ok ((s.setRegister .rsp (.stack (address + wordSize))).setRegister reg w)
  | .movImm dst imm => .ok (s.setRegister dst (.bits imm))
  | .mov dst src => .ok (s.setRegister dst (s.registers.get src))
  | .movq dst src => do
    let bits ← State.bitsOf (s.registers.get src)
    .ok (s.setVector dst ⟨bits⟩)
  | .movapd dst src => .ok (s.setVector dst (s.vectors.get src))
  | .xorpd dst src =>
    .ok (s.setVector dst ⟨(s.vectors.get dst).bits ^^^ (s.vectors.get src).bits⟩)
  | .ucomisd lhs rhs =>
    .ok { s with zeroFlag := (s.vectors.get lhs).equalOrUnordered (s.vectors.get rhs) }
  | .scalar op dst src =>
    .ok (s.setVector dst (scalarResult op (s.vectors.get dst) (s.vectors.get src)))
  | .store src => do
    s.storeWord (← s.stackPointer) (.bits (s.vectors.get src).bits)
  | .load dst => do
    let bits ← State.bitsOf (← s.loadWord (← s.stackPointer))
    .ok (s.setVector dst ⟨bits⟩)
  | .subSp bytes => do
    let address ← s.stackPointer
    .ok { s.setRegister .rsp (.stack (address - signedByte bytes)) with zeroFlag := false }
  | .addSp bytes => do
    let address ← s.stackPointer
    .ok { s.setRegister .rsp (.stack (address + signedByte bytes)) with zeroFlag := false }
  | .call reg => s.call host p (s.registers.get reg)
  | .je displacement =>
    if s.zeroFlag then s.jump (jumpTarget s.pc displacement) else .ok s
  | .jmp displacement => s.jump (jumpTarget s.pc displacement)
  | .ret => .ok s
  | .nop => .ok s

/-- Returns to the caller, whose address is at the top of the stack. -/
def State.leave (s : State) : Except Trap State := do
  let address ← s.stackPointer
  let w ← s.loadWord address
  if w = .caller then .ok (s.setRegister .rsp (.stack (address + wordSize)))
  else .error .badReturn

/-- The instruction at the program counter, and where the next one begins. -/
def fetch (p : Program) (pc : Nat) : Option (Instr × Nat) :=
  let window := (p.code.extract pc (pc + X86.longestInstr)).toList
  (X86.decode window).map fun (i, rest) => (i, pc + (window.length - rest.length))

/-- Takes one step. -/
def step (host : Host) (p : Program) (s : State) : Outcome :=
  match fetch p s.pc with
  | none => .trapped (.badInstruction s.pc)
  | some (.ret, _) =>
    match s.leave with
    | .ok s => .returned s
    | .error t => .trapped t
  | some (i, next) =>
    match execute host p { s with pc := next } i with
    | .ok s => .running s
    | .error t => .trapped t

/-- Takes up to the given number of steps. -/
def run (host : Host) (p : Program) : Nat → State → Outcome
  | 0, s => .running s
  | fuel + 1, s =>
    match step host p s with
    | .running s => run host p fuel s
    | outcome => outcome

end TreeJit.Machine
