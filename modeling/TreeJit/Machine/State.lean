import TreeJit.Cell
import TreeJit.Code.Symbol
import TreeJit.Machine.Word

/-! # Machine states

A program is code together with what it is linked to.  A state of its run holds
the registers and the stack, and the part of the world that helpers work on: the
variable's cell and the heap of this run.

The cell's text slot has a version that counts how often the text in it was
replaced.  A reference to the slot remembers the version that it was made for,
and following it later is an error (`Trap.staleText`) if the text has been
replaced meanwhile.
-/

namespace TreeJit.Machine

/-- Code and what it is linked to. -/
structure Program where
  code : Array UInt8
  linkage : Linkage
  literals : Literals

namespace Program

/-- The symbols that the program's code can refer to. -/
def symbols (p : Program) : List Symbol :=
  .cell :: Helper.all.map .helper ++ p.literals.symbols

/-- The symbol at an address. -/
def locate (p : Program) (address : UInt64) : Option Symbol :=
  p.linkage.locate p.symbols address

end Program

/-- Why a run cannot go on. -/
inductive Trap where
  /-- The bytes at the program counter are no instruction. -/
  | badInstruction (pc : Nat)
  /-- A reference was used where bits are needed. -/
  | notBits
  /-- A word that is no stack address was used as one. -/
  | notStack
  /-- A stack access was not to a whole word, or to one that was never written. -/
  | badAccess (address : Int)
  /-- The stack was not aligned at a call. -/
  | misalignedCall (address : Int)
  /-- A call went to something that is no helper. -/
  | badCall
  /-- A helper was given something that is no cell. -/
  | notCell
  /-- A helper or the caller was given something that is no string. -/
  | notString
  /-- A reference to the cell's text was followed after the text had been replaced. -/
  | staleText
  /-- A block of the heap was used after it had been freed. -/
  | freedBlock (index : Nat)
  /-- The function returned to something that is not its caller. -/
  | badReturn
  deriving DecidableEq

/-- A state of a run. -/
structure State where
  pc : Nat
  registers : Registers
  vectors : Vectors
  zeroFlag : Bool
  memory : Memory
  cell : Cell
  /-- How often the text in the cell's slot was replaced. -/
  version : Nat
  /-- The blocks allocated in this run; a freed one is `none`. -/
  heap : Array (Option Text)
  /-- How many helpers were called. -/
  calls : Nat

namespace State

/-- The state at the entry of a function.  The registers and the flag hold whatever the caller left
there, apart from the stack pointer, which points at the return address. -/
def enter (registers : Registers) (vectors : Vectors) (zeroFlag : Bool) (cell : Cell) : State where
  pc := 0
  registers := registers.set .rsp (.stack 0)
  vectors := vectors
  zeroFlag := zeroFlag
  memory := ⟨[(0, .caller)]⟩
  cell := cell
  version := 0
  heap := #[]
  calls := 0

def setRegister (s : State) (reg : X86.Gpr) (w : Word) : State :=
  { s with registers := s.registers.set reg w }

def setVector (s : State) (reg : X86.Xmm) (x : Double) : State :=
  { s with vectors := s.vectors.set reg x }

/-! ## Stack -/

/-- The stack pointer. -/
def stackPointer (s : State) : Except Trap Int :=
  match s.registers.rsp with
  | .stack address => .ok address
  | _ => .error .notStack

/-- The word at a stack address. -/
def loadWord (s : State) (address : Int) : Except Trap Word :=
  if address % 8 = 0 then
    match s.memory.load address with
    | some w => .ok w
    | none => .error (.badAccess address)
  else .error (.badAccess address)

/-- Stores a word at a stack address. -/
def storeWord (s : State) (address : Int) (w : Word) : Except Trap State :=
  if address % 8 = 0 then .ok { s with memory := s.memory.store address w }
  else .error (.badAccess address)

/-! ## References -/

/-- The bits of a word. -/
def bitsOf : Word → Except Trap UInt64
  | .bits value => .ok value
  | _ => .error .notBits

/-- The text that a word refers to. -/
def textAt (p : Program) (s : State) : Word → Except Trap Text
  | .bits address =>
    match p.locate address with
    | some (.literal index) =>
      match p.literals.get? index with
      | some text => .ok text
      | none => .error .notString
    | _ => .error .notString
  | .slot version => if version = s.version then .ok s.cell.textSlot else .error .staleText
  | .block index =>
    match s.heap[index]? with
    | some (some text) => .ok text
    | some none => .error (.freedBlock index)
    | none => .error .notString
  | _ => .error .notString

/-- Frees a block of the heap. -/
def free (s : State) : Word → Except Trap State
  | .block index =>
    match s.heap[index]? with
    | some (some _) => .ok { s with heap := s.heap.setIfInBounds index none }
    | some none => .error (.freedBlock index)
    | none => .error .notString
  | _ => .error .notString

end State

end TreeJit.Machine
