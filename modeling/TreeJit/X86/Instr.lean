import TreeJit.LittleEndian
import TreeJit.X86.Register

/-! # Instructions and their bytes

The instructions that generated code consists of.  `Instr.chunks` gives the
bytes of one instruction in the portions in which they are written: a jump's
displacement is a portion of its own, since it is filled in later.
`Instr.encode` joins the portions.
-/

namespace TreeJit.X86

/-- A scalar operation on doubles: `dst := dst op src`. -/
inductive ScalarOp where
  | add
  | sub
  | mul
  | div
  deriving DecidableEq

/-- The opcode byte of a scalar operation. -/
def ScalarOp.opcode : ScalarOp → UInt8
  | .add => 0x58
  | .mul => 0x59
  | .sub => 0x5C
  | .div => 0x5E

def ScalarOp.all : List ScalarOp := [.add, .sub, .mul, .div]

def ScalarOp.ofOpcode? (opcode : UInt8) : Option ScalarOp := all.find? (·.opcode == opcode)

@[simp] theorem ScalarOp.ofOpcode?_opcode (op : ScalarOp) : ofOpcode? op.opcode = some op := by
  cases op <;> rfl

/-- An instruction of the subset. -/
inductive Instr where
  | push (reg : Gpr)
  | pop (reg : Gpr)
  /-- Loads a 64-bit immediate. -/
  | movImm (dst : Gpr) (imm : UInt64)
  | mov (dst src : Gpr)
  /-- Moves 64 bits into a vector register without conversion. -/
  | movq (dst : Xmm) (src : Gpr)
  | movapd (dst src : Xmm)
  | xorpd (dst src : Xmm)
  /-- Compares two doubles; sets the zero flag if they are equal or unordered. -/
  | ucomisd (lhs rhs : Xmm)
  | scalar (op : ScalarOp) (dst src : Xmm)
  /-- Stores a double at the top of the stack. -/
  | store (src : Xmm)
  /-- Loads the double at the top of the stack. -/
  | load (dst : Xmm)
  | subSp (bytes : UInt8)
  | addSp (bytes : UInt8)
  | call (reg : Gpr)
  /-- Jumps if the zero flag is set; the displacement counts from the end of the instruction. -/
  | je (displacement : Int32)
  | jmp (displacement : Int32)
  | ret
  | nop
  deriving DecidableEq

namespace Instr

/-- The operand byte for two registers. -/
def direct (reg rm : Nat) : UInt8 := UInt8.ofNat (0xC0 + 8 * reg + rm)

/-- The operand bytes for a register and the word at the top of the stack. -/
def atTop (reg : Nat) : List UInt8 := [UInt8.ofNat (8 * reg + 4), 0x24]

/-- The four bytes of a displacement. -/
def displacementBytes (d : Int32) : List UInt8 := littleEndian 4 d.toUInt32.toNat

/-- The bytes of an instruction, in the portions in which they are written. -/
def chunks : Instr → List (List UInt8)
  | .push reg => [[UInt8.ofNat (0x50 + reg.number)]]
  | .pop reg => [[UInt8.ofNat (0x58 + reg.number)]]
  | .movImm dst imm => [0x48 :: UInt8.ofNat (0xB8 + dst.number) :: littleEndian 8 imm.toNat]
  | .mov dst src => [[0x48, 0x89, direct src.number dst.number]]
  | .movq dst src => [[0x66, 0x48, 0x0F, 0x6E, direct dst.number src.number]]
  | .movapd dst src => [[0x66, 0x0F, 0x28, direct dst.number src.number]]
  | .xorpd dst src => [[0x66, 0x0F, 0x57, direct dst.number src.number]]
  | .ucomisd lhs rhs => [[0x66, 0x0F, 0x2E, direct lhs.number rhs.number]]
  | .scalar op dst src => [[0xF2, 0x0F, op.opcode, direct dst.number src.number]]
  | .store src => [[0xF2, 0x0F, 0x11] ++ atTop src.number]
  | .load dst => [[0xF2, 0x0F, 0x10] ++ atTop dst.number]
  | .subSp bytes => [[0x48, 0x83, 0xEC, bytes]]
  | .addSp bytes => [[0x48, 0x83, 0xC4, bytes]]
  | .call reg => [[0xFF, direct 2 reg.number]]
  | .je displacement => [[0x0F, 0x84], displacementBytes displacement]
  | .jmp displacement => [[0xE9], displacementBytes displacement]
  | .ret => [[0xC3]]
  | .nop => [[0x90]]

/-- The bytes of an instruction. -/
def encode (i : Instr) : List UInt8 := i.chunks.flatten

/-- How many bytes an instruction takes. -/
def size (i : Instr) : Nat := i.encode.length

end Instr

/-! ## Fixed sequences -/

/-- How many bytes of stack a spilled value takes: enough to keep the stack aligned for calls. -/
def spillSlot : UInt8 := 16

/-- How many bytes of stack go with an eight-byte push to keep the stack aligned. -/
def pushPad : UInt8 := spillSlot - 8

/-- Opens a frame. -/
def prologue : List Instr := [.push .rbp, .mov .rbp .rsp]

/-- Closes the frame and returns. -/
def epilogue : List Instr := [.mov .rsp .rbp, .pop .rbp, .ret]

/-- Calls a fixed address by way of `rax`. -/
def callAbsolute (address : UInt64) : List Instr := [.movImm .rax address, .call .rax]

end TreeJit.X86
