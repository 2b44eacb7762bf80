/-! # Little-endian numbers

Whole numbers as bytes, least significant byte first.

* `readLittleEndian_littleEndian` — reading gives back the number, as far as the
  bytes reach.
-/

namespace TreeJit

/-- The lowest `count` bytes of a number, least significant first. -/
def littleEndian : Nat → Nat → List UInt8
  | 0, _ => []
  | count + 1, value => UInt8.ofNat value :: littleEndian count (value / 256)

/-- The number that bytes denote, least significant first. -/
def readLittleEndian : List UInt8 → Nat
  | [] => 0
  | b :: bs => b.toNat + 256 * readLittleEndian bs

@[simp] theorem length_littleEndian (count value : Nat) :
    (littleEndian count value).length = count := by
  induction count generalizing value with
  | zero => rfl
  | succ count ih => simp [littleEndian, ih]

theorem readLittleEndian_littleEndian (count value : Nat) :
    readLittleEndian (littleEndian count value) = value % (1 <<< (8 * count)) := by
  induction count generalizing value with
  | zero => simp [littleEndian, readLittleEndian, Nat.mod_one]
  | succ count ih =>
    have hbyte : (UInt8.ofNat value).toNat = value % 256 := UInt8.toNat_ofNat'
    have hstep : 1 <<< (8 * (count + 1)) = 256 * 1 <<< (8 * count) := by
      rw [Nat.one_shiftLeft, Nat.one_shiftLeft, Nat.mul_add, Nat.pow_add, Nat.mul_comm]
    rw [littleEndian, readLittleEndian, ih, hbyte, hstep, Nat.mod_mul]

end TreeJit
