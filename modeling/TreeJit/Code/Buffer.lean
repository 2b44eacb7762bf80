import TreeJit.Code.Region
import TreeJit.X86.Instr

/-! # Code buffers

A code buffer is a region with a cursor.  Every write checks its whole length
first, so a write that does not fit changes nothing.  A patch overwrites bytes
anywhere in the region and leaves the cursor alone.
-/

namespace TreeJit

/-- A region that is filled from the front; `offset` is the cursor. -/
structure Buffer where
  region : Region
  offset : Nat

namespace Buffer

def create (capacity : Nat) (memory : MemorySource) : Except Error Buffer :=
  (memory.allocate capacity).map fun region => ⟨region, 0⟩

theorem create_of_mapped {memory : MemorySource} {capacity : Nat} (positive : 0 < capacity)
    (mapped : memory.Maps capacity) : create capacity memory = .ok ⟨⟨capacity, #[]⟩, 0⟩ := by
  rw [create, MemorySource.allocate_of_mapped positive mapped]
  rfl

/-- A buffer that was created is empty, and its capacity is one that is mapped. -/
theorem create_ok {memory : MemorySource} {capacity : Nat} {b : Buffer}
    (created : create capacity memory = .ok b) :
    b = ⟨⟨capacity, #[]⟩, 0⟩ ∧ memory.Maps capacity := by
  unfold create at created
  cases allocated : memory.allocate capacity with
  | error e =>
    rw [allocated] at created
    cases created
  | ok r =>
    obtain ⟨rfl, mapped⟩ := MemorySource.allocate_ok allocated
    rw [allocated] at created
    cases created
    exact ⟨rfl, mapped⟩

def capacity (b : Buffer) : Nat := b.region.size

def remaining (b : Buffer) : Nat := b.capacity - b.offset

/-- The bytes before the cursor. -/
def code (b : Buffer) : List UInt8 := b.region.bytes 0 b.offset

/-- Refuses a range that reaches beyond the capacity. -/
def checkRange (b : Buffer) (start length : Nat) : Except Error Unit :=
  if start + length ≤ b.capacity then .ok () else .error (.overflow start length b.capacity)

/-! ## Writes at the cursor -/

/-- Writes bytes at the cursor and moves it behind them. -/
def emit (b : Buffer) (bytes : List UInt8) : Except Error Buffer :=
  (b.checkRange b.offset bytes.length).map fun _ =>
    ⟨b.region.write b.offset bytes, b.offset + bytes.length⟩

theorem emit_of_fits {b : Buffer} {bytes : List UInt8}
    (h : b.offset + bytes.length ≤ b.capacity) :
    b.emit bytes = .ok ⟨b.region.write b.offset bytes, b.offset + bytes.length⟩ := by
  unfold emit checkRange
  rw [if_pos h]
  rfl

theorem emit_of_exceeds {b : Buffer} {bytes : List UInt8}
    (h : b.capacity < b.offset + bytes.length) :
    b.emit bytes = .error (.overflow b.offset bytes.length b.capacity) := by
  unfold emit checkRange
  rw [if_neg (Nat.not_le.2 h)]
  rfl

def emitByte (b : Buffer) (byte : UInt8) : Except Error Buffer := b.emit [byte]

/-- Writes a 32-bit number, least significant byte first. -/
def emitInt32 (b : Buffer) (value : Int32) : Except Error Buffer :=
  b.emit (littleEndian 4 value.toUInt32.toNat)

/-- Writes a 64-bit number, least significant byte first. -/
def emitInt64 (b : Buffer) (value : Int64) : Except Error Buffer :=
  b.emit (littleEndian 8 value.toUInt64.toNat)

def emitNop (b : Buffer) : Except Error Buffer := b.emitByte 0x90

/-- Writes portions one after the other and stops at the first that does not fit.  The portions
before it stay. -/
def emitChunks : List (List UInt8) → Buffer → Buffer × Except Error Unit
  | [], b => (b, .ok ())
  | chunk :: chunks, b =>
    match b.emit chunk with
    | .ok b => emitChunks chunks b
    | .error e => (b, .error e)

/-- Writes one instruction. -/
def emitInstr (b : Buffer) (i : X86.Instr) : Buffer × Except Error Unit := emitChunks i.chunks b

/-- Writes a sequence of instructions. -/
def emitInstrs (b : Buffer) (is : List X86.Instr) : Buffer × Except Error Unit :=
  emitChunks (is.flatMap X86.Instr.chunks) b

/-- Writes a jump whose target is not known yet, and gives the offset of its displacement. -/
def emitJump (b : Buffer) (make : Int32 → X86.Instr) : Buffer × Except Error Nat :=
  let (b, written) := b.emitInstr (make 0)
  (b, written.map fun _ => b.offset - 4)

/-! ## Patches -/

/-- Overwrites four bytes with a 32-bit number; the cursor stays where it is. -/
def patch (b : Buffer) (start : Nat) (value : Int32) : Except Error Buffer :=
  (b.checkRange start 4).map fun _ =>
    { b with region := b.region.write start (X86.Instr.displacementBytes value) }

/-- A whole number as the signed number that its lowest 64 bits denote. -/
def signed64 (n : Int) : Int := n.bmod 0x10000000000000000

/-- How far a target lies from the end of a displacement field, in 64-bit arithmetic. -/
def distance (field target : Nat) : Int :=
  signed64 (signed64 target - signed64 (field + 4 : Nat))

/-- Points the displacement at `field` to `target`.  Whether the distance fits into 32 bits is
judged before the range. -/
def patchJump (b : Buffer) (field target : Nat) : Except Error Buffer :=
  let d := distance field target
  if -0x80000000 ≤ d ∧ d < 0x80000000 then b.patch field (Int32.ofInt d)
  else .error (.displacement (.tooFar field target))

end Buffer

end TreeJit
