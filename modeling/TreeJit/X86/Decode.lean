import TreeJit.X86.Instr

/-! # Decoding

`decode` reads one instruction from the front of a byte string and hands back
the rest; `decodeAll` sweeps over a whole byte string.  Instructions share first
bytes, so the reader branches on the opcode map first (`0x48`, `0x66`, `0xF2`)
and looks at operand bytes last.
-/

namespace TreeJit.X86

/-- What reading gives: an instruction and the bytes after it. -/
abbrev Decoded := Option (Instr × List UInt8)

namespace Decode

/-- The two registers of an operand byte, by number, if it names two registers. -/
def direct? (operand : UInt8) : Option (Nat × Nat) :=
  if 0xC0 ≤ operand.toNat then some (operand.toNat / 8 % 8, operand.toNat % 8) else none

/-- An instruction whose one operand byte names two registers. -/
def twoOperands (bytes : List UInt8) (make : Nat → Nat → Option Instr) : Decoded :=
  match bytes with
  | operand :: rest => do
    let (reg, rm) ← direct? operand
    let i ← make reg rm
    some (i, rest)
  | [] => none

/-- The register that an operand at the top of the stack goes with. -/
def topOperand? (operand : UInt8) : Option Xmm :=
  if operand.toNat % 8 = 4 ∧ operand.toNat < 0x40 then Xmm.ofNumber? (operand.toNat / 8) else none

/-- A vector instruction whose operand is the top of the stack. -/
def topOperands (bytes : List UInt8) (make : Xmm → Instr) : Decoded :=
  match bytes with
  | operand :: sib :: rest =>
    if sib = 0x24 then (topOperand? operand).map fun reg => (make reg, rest) else none
  | _ => none

/-- An instruction on two vector registers. -/
def twoXmm (bytes : List UInt8) (make : Xmm → Xmm → Instr) : Decoded :=
  twoOperands bytes fun reg rm => do
    let a ← Xmm.ofNumber? reg
    let b ← Xmm.ofNumber? rm
    some (make a b)

/-- A jump, read from its displacement on. -/
def jump (bytes : List UInt8) (make : Int32 → Instr) : Decoded :=
  if bytes.length < 4 then none
  else some (make (UInt32.ofNat (readLittleEndian (bytes.take 4))).toInt32, bytes.drop 4)

/-- Instructions that start with `0x48`. -/
def wide : List UInt8 → Decoded
  | op :: rest =>
    if op = 0x89 then
      twoOperands rest fun reg rm => do
        let src ← Gpr.ofNumber? reg
        let dst ← Gpr.ofNumber? rm
        some (.mov dst src)
    else if op = 0x83 then
      match rest with
      | operand :: bytes :: rest =>
        if operand = 0xEC then some (.subSp bytes, rest)
        else if operand = 0xC4 then some (.addSp bytes, rest)
        else none
      | _ => none
    else if 0xB8 ≤ op.toNat ∧ op.toNat < 0xC0 then
      if rest.length < 8 then none
      else (Gpr.ofNumber? (op.toNat - 0xB8)).map fun dst =>
        (.movImm dst (UInt64.ofNat (readLittleEndian (rest.take 8))), rest.drop 8)
    else none
  | [] => none

/-- Instructions that start with `0x66`. -/
def packed : List UInt8 → Decoded
  | map :: op :: rest =>
    if map = 0x48 then
      match rest with
      | op₂ :: rest =>
        if op = 0x0F ∧ op₂ = 0x6E then
          twoOperands rest fun reg rm => do
            let dst ← Xmm.ofNumber? reg
            let src ← Gpr.ofNumber? rm
            some (.movq dst src)
        else none
      | [] => none
    else if map = 0x0F then
      if op = 0x28 then twoXmm rest .movapd
      else if op = 0x57 then twoXmm rest .xorpd
      else if op = 0x2E then twoXmm rest .ucomisd
      else none
    else none
  | _ => none

/-- Instructions that start with `0xF2`. -/
def scalar : List UInt8 → Decoded
  | map :: op :: rest =>
    if map = 0x0F then
      if op = 0x11 then topOperands rest .store
      else if op = 0x10 then topOperands rest .load
      else match ScalarOp.ofOpcode? op with
        | some op => twoXmm rest (.scalar op)
        | none => none
    else none
  | _ => none

/-- Calls through a register, which start with `0xFF`. -/
def indirect (bytes : List UInt8) : Decoded :=
  twoOperands bytes fun reg rm => if reg = 2 then (Gpr.ofNumber? rm).map .call else none

end Decode

/-- The instruction at the front of a byte string, and the bytes after it. -/
def decode : List UInt8 → Decoded
  | [] => none
  | first :: rest =>
    if first = 0x48 then Decode.wide rest
    else if first = 0x66 then Decode.packed rest
    else if first = 0xF2 then Decode.scalar rest
    else if first = 0xFF then Decode.indirect rest
    else if first = 0x0F then
      match rest with
      | op :: rest => if op = 0x84 then Decode.jump rest .je else none
      | [] => none
    else if first = 0xE9 then Decode.jump rest .jmp
    else if first = 0xC3 then some (.ret, rest)
    else if first = 0x90 then some (.nop, rest)
    else if 0x50 ≤ first.toNat ∧ first.toNat < 0x58 then
      (Gpr.ofNumber? (first.toNat - 0x50)).map fun reg => (.push reg, rest)
    else if 0x58 ≤ first.toNat ∧ first.toNat < 0x60 then
      (Gpr.ofNumber? (first.toNat - 0x58)).map fun reg => (.pop reg, rest)
    else none

/-- The longest instruction of the subset, in bytes. -/
def longestInstr : Nat := 10

/-- Decodes up to `count` instructions that fill a byte string. -/
def decodeUpTo : Nat → List UInt8 → Option (List Instr)
  | _, [] => some []
  | 0, _ :: _ => none
  | count + 1, bytes => do
    let (i, rest) ← decode bytes
    let is ← decodeUpTo count rest
    some (i :: is)

/-- Decodes a byte string that consists of instructions from its first byte to its last.  No
instruction is empty, so there are at most as many as bytes. -/
def decodeAll (bytes : List UInt8) : Option (List Instr) := decodeUpTo bytes.length bytes

end TreeJit.X86
