import TreeJit.Machine.Run

/-! # Code is read as it was written

The bytes of an instruction decode to that instruction, whatever follows them.
So the machine, which only sees bytes, walks over a sequence of instructions:

* `X86.decode_encode` — one instruction is read back.
* `X86.decodeAll_encodeAll` — so is a whole sequence, from its first byte to its
  last.
* `Machine.fetch_of_split` — at the first byte of an instruction, the machine
  fetches that instruction and goes on behind it.
-/

namespace TreeJit

theorem read_littleEndian_four (n : UInt32) :
    UInt32.ofNat (readLittleEndian (littleEndian 4 n.toNat)) = n := by
  have small : n.toNat < 1 <<< (8 * 4) := n.toNat_lt
  rw [readLittleEndian_littleEndian, Nat.mod_eq_of_lt small, UInt32.ofNat_toNat]

theorem read_littleEndian_eight (n : UInt64) :
    UInt64.ofNat (readLittleEndian (littleEndian 8 n.toNat)) = n := by
  have small : n.toNat < 1 <<< (8 * 8) := n.toNat_lt
  rw [readLittleEndian_littleEndian, Nat.mod_eq_of_lt small, UInt64.ofNat_toNat]

namespace X86

/-! ## One instruction -/

namespace Decode

theorem jump_displacementBytes (make : Int32 → Instr) (d : Int32) (rest : List UInt8) :
    jump (Instr.displacementBytes d ++ rest) make = some (make d, rest) := by
  have width : (Instr.displacementBytes d).length = 4 := length_littleEndian 4 _
  have long : ¬(Instr.displacementBytes d ++ rest).length < 4 := by
    rw [List.length_append]
    omega
  rw [jump, if_neg long, List.take_left' width, List.drop_left' width, Instr.displacementBytes,
    read_littleEndian_four]
  rfl

/-- The opcode of an immediate is that of no other instruction, and its low bits hold the register. -/
theorem immediate_opcode (dst : Gpr) :
    let op := UInt8.ofNat (0xB8 + dst.number)
    op ≠ 0x89 ∧ op ≠ 0x83 ∧ (0xB8 ≤ op.toNat ∧ op.toNat < 0xC0) ∧
      op.toNat - 0xB8 = dst.number := by
  cases dst <;> decide

theorem wide_immediate (dst : Gpr) {bytes : List UInt8} (long : ¬bytes.length < 8) :
    wide (UInt8.ofNat (0xB8 + dst.number) :: bytes) =
      some (.movImm dst (UInt64.ofNat (readLittleEndian (bytes.take 8))), bytes.drop 8) := by
  obtain ⟨notMov, notAdjust, immediate, register⟩ := immediate_opcode dst
  unfold wide
  dsimp only
  rw [if_neg notMov, if_neg notAdjust, if_pos immediate, if_neg long, register,
    Gpr.ofNumber?_number, Option.map_some]

theorem wide_littleEndian (dst : Gpr) (imm : UInt64) (rest : List UInt8) :
    wide (UInt8.ofNat (0xB8 + dst.number) :: (littleEndian 8 imm.toNat ++ rest)) =
      some (.movImm dst imm, rest) := by
  have width : (littleEndian 8 imm.toNat).length = 8 := length_littleEndian 8 _
  have long : ¬(littleEndian 8 imm.toNat ++ rest).length < 8 := by
    rw [List.length_append]
    omega
  rw [wide_immediate dst long, List.take_left' width, List.drop_left' width,
    read_littleEndian_eight]

end Decode

/-- The bytes of an instruction decode to it, whatever comes after them. -/
theorem decode_encode (i : Instr) (rest : List UInt8) :
    decode (i.encode ++ rest) = some (i, rest) := by
  cases i with
  -- Registers select opcodes and operand bytes, so each one is decoded by itself.  Immediates and
  -- displacements stand for too many bytes for that, and have lemmas of their own.
  | push reg => cases reg <;> rfl
  | pop reg => cases reg <;> rfl
  | movImm dst imm => exact Decode.wide_littleEndian dst imm rest
  | mov dst src => cases dst <;> cases src <;> rfl
  | movq dst src => cases dst <;> cases src <;> rfl
  | movapd dst src | xorpd dst src | ucomisd dst src => cases dst <;> cases src <;> rfl
  | scalar op dst src => cases op <;> cases dst <;> cases src <;> rfl
  | store reg | load reg => cases reg <;> rfl
  | subSp bytes | addSp bytes => rfl
  | call reg => cases reg <;> rfl
  | je d => exact Decode.jump_displacementBytes .je d rest
  | jmp d => exact Decode.jump_displacementBytes .jmp d rest
  | ret | nop => rfl

theorem Instr.size_le_longestInstr (i : Instr) : i.size ≤ longestInstr := by
  cases i <;> simp +arith [size, encode, chunks, atTop, displacementBytes, longestInstr]

theorem Instr.size_pos (i : Instr) : 0 < i.size := by
  cases i <;> simp [size, encode, chunks]

/-! ## Sequences -/

/-- The bytes of instructions, one after the other. -/
def encodeAll (is : List Instr) : List UInt8 := is.flatMap Instr.encode

/-- How many bytes instructions take together. -/
def codeSize (is : List Instr) : Nat := (encodeAll is).length

@[simp] theorem encodeAll_nil : encodeAll [] = [] := rfl

@[simp] theorem encodeAll_cons (i : Instr) (is : List Instr) :
    encodeAll (i :: is) = i.encode ++ encodeAll is := List.flatMap_cons

@[simp] theorem encodeAll_append (first second : List Instr) :
    encodeAll (first ++ second) = encodeAll first ++ encodeAll second := List.flatMap_append

@[simp] theorem codeSize_nil : codeSize [] = 0 := rfl

@[simp] theorem codeSize_cons (i : Instr) (is : List Instr) :
    codeSize (i :: is) = i.size + codeSize is := by
  simp [codeSize, Instr.size]

@[simp] theorem codeSize_append (first second : List Instr) :
    codeSize (first ++ second) = codeSize first + codeSize second := by
  simp [codeSize]

theorem decodeUpTo_encodeAll {count : Nat} (is : List Instr) (enough : is.length ≤ count) :
    decodeUpTo count (encodeAll is) = some is := by
  induction is generalizing count with
  | nil => cases count <;> rfl
  | cons i is ih =>
    obtain _ | count := count
    · simp at enough
    -- The decoder stops at the end of the bytes, which has not come while an instruction is left.
    · have nonempty : encodeAll (i :: is) ≠ [] := by
        intro empty
        have size := i.size_pos
        rw [encodeAll_cons, List.append_eq_nil_iff] at empty
        rw [Instr.size, empty.1] at size
        exact Nat.lt_irrefl _ size
      have rest : decodeUpTo count (encodeAll is) = some is := ih (Nat.le_of_succ_le_succ enough)
      rw [decodeUpTo]
      · simp only [encodeAll_cons, decode_encode, rest, Option.bind_eq_bind, Option.bind_some]
      · exact nonempty

theorem length_le_codeSize (is : List Instr) : is.length ≤ codeSize is := by
  induction is with
  | nil => exact Nat.le_refl 0
  | cons i is ih =>
    have size := i.size_pos
    rw [codeSize_cons, List.length_cons]
    omega

theorem decodeAll_encodeAll (is : List Instr) : decodeAll (encodeAll is) = some is :=
  decodeUpTo_encodeAll is (length_le_codeSize is)

end X86

namespace Machine

open X86

/-- At the first byte of an instruction, that instruction is fetched. -/
theorem fetch_of_split {p : Program} {before after : List Instr} {i : Instr}
    (code : p.code.toList = encodeAll (before ++ i :: after)) :
    fetch p (codeSize before) = some (i, codeSize (before ++ [i])) := by
  have short : i.encode.length ≤ longestInstr := i.size_le_longestInstr
  -- The window starts with the whole instruction, since no instruction is longer than the window.
  have window : (p.code.extract (codeSize before) (codeSize before + longestInstr)).toList =
      i.encode ++ (encodeAll after).take (longestInstr - i.encode.length) := by
    rw [Array.toList_extract, List.extract_eq_take_drop, code, Nat.add_sub_cancel_left,
      encodeAll_append, codeSize, List.drop_left, encodeAll_cons, List.take_append,
      List.take_of_length_le short]
  simp only [fetch, window, decode_encode, Option.map_some, List.length_append, codeSize_append,
    codeSize_cons, codeSize_nil, Nat.add_sub_cancel, Nat.add_zero, Instr.size]

end Machine

end TreeJit
