import Mathlib.Algebra.Order.Ring.Int
import TreeJit.Proofs.Assembly
import TreeJit.Proofs.Decoding
import TreeJit.Workbench

/-! # How far a jump can be pointed

A displacement is a signed number of 32 bits, and it counts from the end of its
own four bytes.  To point a jump somewhere is to take the distance of two places
in 64 bits, to check that it fits into 32, and to store it least significant byte
first.  As long as the places are below `2^63 - 4`, nothing of this wraps around,
so that the exact distance decides first and the capacity second.

* `FitsInt32` — the distances that a displacement can hold.
* `Buffer.patchJump_eq` — the outcome of pointing a jump, by the exact distance.
* `Buffer.displacementAt` — the displacement that is stored at a place.
* `patchJump_exact_at_limits` — which jumps can be pointed, where they lead then,
  and what is left alone.
-/

namespace TreeJit

open X86 (Instr)

/-- Whether a number can be written as a signed number of 32 bits. -/
def FitsInt32 (d : Int) : Prop := -2 ^ 31 ≤ d ∧ d ≤ 2 ^ 31 - 1

instance (d : Int) : Decidable (FitsInt32 d) := inferInstanceAs (Decidable (_ ∧ _))

theorem FitsInt32.toInt_ofInt {d : Int} (fits : FitsInt32 d) : (Int32.ofInt d).toInt = d := by
  unfold FitsInt32 at fits
  exact Int32.toInt_ofInt_of_le (by omega) (by omega)

namespace Buffer

theorem distance_of_lt {field target : Nat} (fieldBelow : field < 2 ^ 63 - 4)
    (targetBelow : target < 2 ^ 63 - 4) : distance field target = target - (field + 4) := by
  unfold distance
  rw [signed64_of_lt (n := (target : Int)) (by omega) (by omega),
    signed64_of_lt (n := ((field + 4 : Nat) : Int)) (by omega) (by omega),
    signed64_of_lt (by omega) (by omega)]
  omega

/-! ## Displacements in a buffer -/

/-- The displacement that is stored at a place. -/
def displacementAt (b : Buffer) (field : Nat) : Int32 :=
  (UInt32.ofNat (readLittleEndian (b.region.bytes field 4))).toInt32

/-- The buffer with another displacement at a place. -/
def withDisplacement (b : Buffer) (field : Nat) (value : Int32) : Buffer :=
  { b with region := b.region.write field (Instr.displacementBytes value) }

variable (b : Buffer) {field target : Nat}

theorem displacementAt_withDisplacement (field : Nat) (value : Int32) :
    (b.withDisplacement field value).displacementAt field = value := by
  have stored := b.region.bytes_write_self field (Instr.displacementBytes value)
  rw [Step.length_displacementBytes] at stored
  rw [displacementAt, withDisplacement, stored, Instr.displacementBytes, read_littleEndian_four]
  rfl

@[simp] theorem offset_withDisplacement (field : Nat) (value : Int32) :
    (b.withDisplacement field value).offset = b.offset := by
  dsimp only [withDisplacement]

@[simp] theorem capacity_withDisplacement (field : Nat) (value : Int32) :
    (b.withDisplacement field value).capacity = b.capacity := by
  rw [capacity, withDisplacement, Region.size_write, capacity]

theorem byte_withDisplacement (value : Int32) {i : Nat} (outside : i < field ∨ field + 4 ≤ i) :
    (b.withDisplacement field value).region.byte i = b.region.byte i := by
  rw [withDisplacement, Region.byte_write, Step.length_displacementBytes, if_neg (by omega)]

/-! ## Outcomes -/

theorem patch_eq (field : Nat) (value : Int32) : b.patch field value =
    if field + 4 ≤ b.capacity then .ok (b.withDisplacement field value)
    else .error (.overflow field 4 b.capacity) := by
  unfold patch checkRange
  split <;> rfl

/-- The outcome of pointing a jump, by the exact distance. -/
theorem patchJump_eq (fieldBelow : field < 2 ^ 63 - 4) (targetBelow : target < 2 ^ 63 - 4) :
    let d : Int := target - (field + 4)
    b.patchJump field target =
      if FitsInt32 d then
        if field + 4 ≤ b.capacity then .ok (b.withDisplacement field (Int32.ofInt d))
        else .error (.overflow field 4 b.capacity)
      else .error (.displacement (.tooFar field target)) := by
  intro d
  have range : (-0x80000000 ≤ d ∧ d < 0x80000000) ↔ FitsInt32 d := by
    unfold FitsInt32
    omega
  simp only [patchJump, distance_of_lt fieldBelow targetBelow, patch_eq]
  exact if_congr range rfl rfl

end Buffer

/-- A jump can be pointed to a place exactly if the distance from the end of its displacement fits
into 32 bits and the displacement lies within the capacity, and the first is judged before the
second.  Then the displacement, read back as a signed number, leads from its end to the place.
Whatever the outcome, the cursor and all other bytes are left alone, and a failure changes nothing
at all. -/
theorem patchJump_exact_at_limits (w : Workbench) (field target : Nat)
    (fieldBelow : field < 2 ^ 63 - 4) (targetBelow : target < 2 ^ 63 - 4) :
    let d : Int := target - (field + 4)
    let b := w.buffer
    let done := w.perform (.patchJump field target)
    let left := done.bench.buffer
    (done.reply = .error (.error (.displacement (.tooFar field target))) ↔ ¬FitsInt32 d) ∧
    (FitsInt32 d →
      (done.reply = .error (.error (.overflow field 4 b.capacity)) ↔ b.capacity < field + 4)) ∧
    (FitsInt32 d → field + 4 ≤ b.capacity → done.reply = .ok .done ∧
      field + 4 + (left.displacementAt field).toInt = target) ∧
    left.offset = b.offset ∧
    left.capacity = b.capacity ∧
    (∀ i, i < field ∨ field + 4 ≤ i → left.region.byte i = b.region.byte i) ∧
    (∀ failure, done.reply = .error failure → left = b) := by
  intro d b
  have outcome := b.patchJump_eq fieldBelow targetBelow
  rw [Workbench.perform, outcome]
  by_cases fits : FitsInt32 d
  · rw [if_pos fits]
    by_cases room : field + 4 ≤ b.capacity
    · rw [if_pos room]
      refine ⟨⟨nofun, absurd fits⟩, fun _ => ⟨nofun, fun exceeds => ?_⟩, fun _ _ => ⟨rfl, ?_⟩,
        ?_, ?_, ?_, nofun⟩
      · exact absurd room (Nat.not_le.2 exceeds)
      · change (field : Int) + 4 +
          ((b.withDisplacement field (Int32.ofInt d)).displacementAt field).toInt = target
        rw [b.displacementAt_withDisplacement, fits.toInt_ofInt]
        omega
      · exact b.offset_withDisplacement field _
      · exact b.capacity_withDisplacement field _
      · intro i outside
        exact b.byte_withDisplacement _ outside
    · rw [if_neg room]
      refine ⟨⟨nofun, absurd fits⟩, fun _ => ⟨fun _ => ?_, fun _ => rfl⟩, ?_, rfl, rfl,
        fun _ _ => rfl, fun _ _ => rfl⟩
      · exact Nat.lt_of_not_le room
      · exact fun _ within => absurd within room
  · rw [if_neg fits]
    refine ⟨⟨fun _ => fits, fun _ => rfl⟩, ?_, ?_, rfl, rfl, fun _ _ => rfl, fun _ _ => rfl⟩
    · exact fun near => absurd near fits
    · exact fun near => absurd near fits

/-- The farthest places ahead and behind, and those right beyond them.  The displacement that would
lead farthest back lies behind the capacity, which is judged second. -/
theorem patchJump_to_farthest_places :
    let w : Workbench := ⟨"x", .standard, ⟨⟨8, #[1, 2, 3, 4, 5, 6, 7, 8]⟩, 7⟩, [], 0⟩
    let ahead := w.perform (.patchJump 2 (2 ^ 31 + 5))
    (ahead.reply = .ok .done ∧ (ahead.bench.buffer.displacementAt 2).toInt = 2 ^ 31 - 1 ∧
      ahead.bench.buffer.offset = 7) ∧
    (w.perform (.patchJump 2 (2 ^ 31 + 6))).reply =
      .error (.error (.displacement (.tooFar 2 (2 ^ 31 + 6)))) ∧
    (w.perform (.patchJump (2 ^ 31 - 4) 0)).reply =
      .error (.error (.overflow (2 ^ 31 - 4) 4 8)) ∧
    (w.perform (.patchJump (2 ^ 31 - 3) 0)).reply =
      .error (.error (.displacement (.tooFar (2 ^ 31 - 3) 0))) := by
  intro w ahead
  obtain ⟨-, -, pointed, offset, -⟩ :=
    patchJump_exact_at_limits w 2 (2 ^ 31 + 5) (by decide) (by decide)
  obtain ⟨reply, leads⟩ := pointed (by decide) (by decide)
  refine ⟨⟨reply, ?_, offset⟩, ?_, ?_, ?_⟩
  · change 2 + 4 + (ahead.bench.buffer.displacementAt 2).toInt = _ at leads
    omega
  · exact (patchJump_exact_at_limits w _ _ (by decide) (by decide)).1.2 (by decide)
  · exact ((patchJump_exact_at_limits w _ _ (by decide) (by decide)).2.1 (by decide)).2 (by decide)
  · exact (patchJump_exact_at_limits w _ _ (by decide) (by decide)).1.2 (by decide)

end TreeJit
