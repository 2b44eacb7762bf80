import TreeJit.Code.Buffer

/-! # What a buffer holds

All that counts of a buffer is its capacity and the bytes before its cursor.
In these terms a write appends, and a patch behind the cursor overwrites:

* `Buffer.emitChunks_of_fits` — portions that fit are appended as a whole.
* `Buffer.emitChunks_of_exceeds` — portions that do not fit stop at the first
  one that exceeds the capacity, and the error says where.
* `Buffer.patch_of_eq` — a patch exchanges four bytes and nothing else.
-/

namespace TreeJit

/-! ## Bytes of a region -/

namespace Region

@[simp] theorem length_bytes (r : Region) (start count : Nat) :
    (r.bytes start count).length = count := by
  simp [bytes]

theorem size_write (r : Region) (position : Nat) (bs : List UInt8) :
    (r.write position bs).size = r.size := rfl

theorem bytes_add (r : Region) (start m n : Nat) :
    r.bytes start (m + n) = r.bytes start m ++ r.bytes (start + m) n := by
  unfold bytes
  rw [← List.map_append, List.range'_append_1]

theorem bytes_write_of_disjoint (r : Region) (position : Nat) (bs : List UInt8) {start count : Nat}
    (apart : start + count ≤ position ∨ position + bs.length ≤ start) :
    (r.write position bs).bytes start count = r.bytes start count := by
  unfold bytes
  apply List.map_congr_left
  intro j member
  rw [List.mem_range'_1] at member
  rw [byte_write, if_neg (by omega)]

theorem bytes_write_self (r : Region) (position : Nat) (bs : List UInt8) :
    (r.write position bs).bytes position bs.length = bs := by
  apply List.ext_getElem
  · simp
  · intro j hj hj'
    have covered : position ≤ position + 1 * j ∧ position + 1 * j < position + bs.length := by omega
    have index : position + 1 * j - position = j := by omega
    -- Position `position + j` of the region is position `j` of what was written.
    simp only [bytes, List.getElem_map, List.getElem_range']
    rw [byte_write, if_pos covered, index, List.getD_eq_getElem?_getD, List.getElem?_eq_getElem hj',
      Option.getD_some]

end Region

namespace Buffer

@[simp] theorem length_code (b : Buffer) : b.code.length = b.offset := by
  simp [code]

/-! ## Writes at the cursor -/

/-- `Appends b b' bytes`: the buffer `b'` is `b` with bytes behind those that it held. -/
structure Appends (b b' : Buffer) (bytes : List UInt8) : Prop where
  code : b'.code = b.code ++ bytes
  capacity : b'.capacity = b.capacity

namespace Appends

theorem refl (b : Buffer) : b.Appends b [] := ⟨by simp, rfl⟩

theorem trans {b b₁ b₂ : Buffer} {first second : List UInt8} (h₁ : b.Appends b₁ first)
    (h₂ : b₁.Appends b₂ second) : b.Appends b₂ (first ++ second) := by
  constructor
  · rw [h₂.code, h₁.code, List.append_assoc]
  · rw [h₂.capacity, h₁.capacity]

theorem offset {b b' : Buffer} {bytes : List UInt8} (h : b.Appends b' bytes) :
    b'.offset = b.offset + bytes.length := by
  rw [← length_code b', h.code, List.length_append, length_code]

end Appends

theorem emit_appends {b b' : Buffer} {bytes : List UInt8} (h : b.emit bytes = .ok b') :
    b.Appends b' bytes := by
  by_cases fits : b.offset + bytes.length ≤ b.capacity
  · rw [emit_of_fits fits, Except.ok.injEq] at h
    subst h
    constructor
    · have kept : (b.region.write b.offset bytes).bytes 0 b.offset = b.region.bytes 0 b.offset :=
        b.region.bytes_write_of_disjoint b.offset bytes (by omega)
      simp only [code]
      rw [Region.bytes_add, kept, Nat.zero_add, Region.bytes_write_self]
    · rfl
  · rw [emit_of_exceeds (Nat.lt_of_not_le fits)] at h
    cases h

/-- `Overflows b b' count e`: of `count` bytes for the cursor of `b`, those before the cursor of
`b'` were written, and the error `e` names the portion after them, which exceeds the capacity. -/
inductive Overflows (b b' : Buffer) (count : Nat) : Error → Prop where
  | intro {length : Nat} (first : b.offset ≤ b'.offset) (room : b'.offset ≤ b.capacity)
      (exceeds : b.capacity < b'.offset + length) (last : b'.offset + length ≤ b.offset + count)
      (same : b'.capacity = b.capacity) :
      Overflows b b' count (.overflow b'.offset length b.capacity)

namespace Overflows

/-- Bytes that were written before the overflow count, too. -/
theorem after {b b₁ b₂ : Buffer} {written count total : Nat} {e : Error}
    (moved : b₁.offset = b.offset + written) (kept : b₁.capacity = b.capacity)
    (h : Overflows b₁ b₂ count e) (sum : written + count ≤ total) : Overflows b b₂ total e := by
  obtain ⟨first, room, exceeds, last, same⟩ := h
  rw [kept] at room exceeds same ⊢
  exact ⟨by omega, room, exceeds, by omega, same⟩

theorem mono {b b' : Buffer} {count total : Nat} {e : Error} (h : Overflows b b' count e)
    (le : count ≤ total) : Overflows b b' total e :=
  after (Nat.add_zero _).symm rfl h (by omega)

end Overflows

theorem emitChunks_of_fits (chunks : List (List UInt8)) {b : Buffer}
    (fits : b.offset + chunks.flatten.length ≤ b.capacity) :
    ∃ b', emitChunks chunks b = (b', .ok ()) ∧ b.Appends b' chunks.flatten := by
  induction chunks generalizing b with
  | nil => exact ⟨b, rfl, .refl b⟩
  | cons chunk chunks ih =>
    rw [List.flatten_cons, List.length_append] at fits
    obtain ⟨b₁, written⟩ : ∃ b₁, b.emit chunk = .ok b₁ := ⟨_, emit_of_fits (by omega)⟩
    have appended := emit_appends written
    obtain ⟨b', emitted, rest⟩ := ih (b := b₁) (by rw [appended.offset, appended.capacity]; omega)
    refine ⟨b', ?_, ?_⟩
    · rw [emitChunks, written]
      exact emitted
    · rw [List.flatten_cons]
      exact appended.trans rest

theorem emitChunks_of_exceeds (chunks : List (List UInt8)) {b : Buffer}
    (room : b.offset ≤ b.capacity) (exceeds : b.capacity < b.offset + chunks.flatten.length) :
    ∃ b' e, emitChunks chunks b = (b', .error e) ∧ Overflows b b' chunks.flatten.length e := by
  induction chunks generalizing b with
  | nil =>
    simp only [List.flatten_nil, List.length_nil] at exceeds
    omega
  | cons chunk chunks ih =>
    rw [List.flatten_cons, List.length_append] at exceeds ⊢
    by_cases fits : b.offset + chunk.length ≤ b.capacity
    · obtain ⟨b₁, written⟩ : ∃ b₁, b.emit chunk = .ok b₁ := ⟨_, emit_of_fits fits⟩
      have appended := emit_appends written
      have moved := appended.offset
      have same := appended.capacity
      obtain ⟨b', e, emitted, overflows⟩ := ih (b := b₁) (by omega) (by omega)
      refine ⟨b', e, ?_, .after moved same overflows (Nat.le_refl _)⟩
      rw [emitChunks, written]
      exact emitted
    · have refused : b.emit chunk = .error (.overflow b.offset chunk.length b.capacity) :=
        emit_of_exceeds (by omega)
      refine ⟨b, .overflow b.offset chunk.length b.capacity, ?_, ?_⟩
      · rw [emitChunks, refused]
      · exact ⟨Nat.le_refl _, room, by omega, by omega, rfl⟩

/-! ## Patches -/

/-- A patch behind the cursor exchanges four bytes. -/
theorem patch_of_eq {b : Buffer} {before field after : List UInt8} (value : Int32)
    (held : b.code = before ++ field ++ after) (width : field.length = 4)
    (room : b.offset ≤ b.capacity) :
    ∃ b', b.patch before.length value = .ok b' ∧ b'.capacity = b.capacity ∧
      b'.code = before ++ X86.Instr.displacementBytes value ++ after := by
  have total : before.length + 4 + after.length = b.offset := by
    rw [← length_code b, held]
    simp only [List.length_append, width]
  have wide : (X86.Instr.displacementBytes value).length = 4 := length_littleEndian 4 _
  let written := b.region.write before.length (X86.Instr.displacementBytes value)
  refine ⟨⟨written, b.offset⟩, ?_, b.region.size_write _ _, ?_⟩
  · unfold patch checkRange
    rw [if_pos (by omega)]
    rfl
  · -- The three parts of the code are the three parts of the region that the write tells apart.
    have split (r : Region) : r.bytes 0 b.offset =
        r.bytes 0 before.length ++ r.bytes before.length 4
          ++ r.bytes (before.length + 4) after.length := by
      rw [← total, Region.bytes_add, Region.bytes_add, Nat.zero_add, Nat.zero_add]
    have parts : b.region.bytes 0 before.length ++ b.region.bytes before.length 4
        ++ b.region.bytes (before.length + 4) after.length = before ++ field ++ after := by
      rw [← split, ← held]
      rfl
    obtain ⟨front, tail⟩ := List.append_inj' parts (by simp)
    obtain ⟨head, -⟩ := List.append_inj' front (by simp [width])
    have covered := b.region.bytes_write_self before.length (X86.Instr.displacementBytes value)
    rw [wide] at covered
    change written.bytes 0 b.offset = _
    rw [split, covered, b.region.bytes_write_of_disjoint before.length _ (by omega),
      b.region.bytes_write_of_disjoint before.length _ (by omega), head, tail]

end Buffer

end TreeJit
