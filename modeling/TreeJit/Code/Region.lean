import TreeJit.Error

/-! # Executable regions

A region is a fixed number of bytes that start out as zeros.  Only the bytes up
to the last one that was written are stored, so a large region costs nothing
until it is used.

Regions are mapped by whoever hands out executable memory.  That is a parameter:
it may refuse any size, and has to refuse those that exceed the address space.

* `Region.byte_write` — what each byte is after a write.
-/

namespace TreeJit

/-- A mapping of `size` bytes.  `stored` holds the first ones; the others are zero. -/
structure Region where
  size : Nat
  stored : Array UInt8

/-- Sizes from here on exceed what a process can address. -/
def Region.addressSpace : Nat := 0x800000000000

/-! ## Executable memory -/

/-- Who hands out executable memory. -/
structure MemorySource where
  /-- What stands against a mapping of so many bytes, if anything. -/
  refusal? : Nat → Option String
  bounded : ∀ size, Region.addressSpace ≤ size → (refusal? size).isSome

namespace MemorySource

/-- Memory without a limit other than the address space. -/
def ample : MemorySource where
  refusal? size :=
    if Region.addressSpace ≤ size then some "Cannot allocate memory (os error 12)" else none
  bounded size exceeds := by simp [exceeds]

/-- Whether so many bytes are mapped. -/
def Maps (memory : MemorySource) (size : Nat) : Prop := memory.refusal? size = none

/-- Whether every region up to a size is mapped. -/
def MapsUpTo (memory : MemorySource) (size : Nat) : Prop := ∀ n ≤ size, memory.Maps n

theorem Maps.lt_addressSpace {memory : MemorySource} {size : Nat} (mapped : memory.Maps size) :
    size < Region.addressSpace := by
  rw [← Nat.not_le]
  intro exceeds
  have refused := memory.bounded size exceeds
  rw [mapped] at refused
  cases refused

@[simp] theorem maps_ample {size : Nat} : ample.Maps size ↔ size < Region.addressSpace := by
  simp [Maps, ample]

@[simp] theorem mapsUpTo_ample {size : Nat} :
    ample.MapsUpTo size ↔ size < Region.addressSpace := by
  simp only [MapsUpTo, maps_ample]
  constructor
  · exact fun mapped => mapped size (Nat.le_refl size)
  · exact fun below n le => Nat.lt_of_le_of_lt le below

/-- Maps a region of zeros. -/
def allocate (memory : MemorySource) (size : Nat) : Except Error Region :=
  if size = 0 then .error (.alloc .zeroBytes)
  else match memory.refusal? size with
    | some reason => .error (.alloc (.refused size reason))
    | none => .ok ⟨size, #[]⟩

theorem allocate_of_mapped {memory : MemorySource} {size : Nat} (positive : 0 < size)
    (mapped : memory.Maps size) : memory.allocate size = .ok ⟨size, #[]⟩ := by
  rw [allocate, if_neg (Nat.ne_of_gt positive), mapped]

theorem allocate_ok {memory : MemorySource} {size : Nat} {r : Region}
    (allocated : memory.allocate size = .ok r) : r = ⟨size, #[]⟩ ∧ memory.Maps size := by
  unfold allocate at allocated
  split at allocated
  · cases allocated
  split at allocated
  · cases allocated
  · cases allocated
    exact ⟨rfl, ‹_›⟩

end MemorySource

namespace Region

/-- Maps a region of zeros where there is memory enough. -/
def allocate (size : Nat) : Except Error Region := MemorySource.ample.allocate size

def isEmpty (r : Region) : Bool := decide (r.size = 0)

/-- The byte at a position. -/
def byte (r : Region) (i : Nat) : UInt8 := r.stored.getD i 0

/-- The bytes from `start` on, `count` of them. -/
def bytes (r : Region) (start count : Nat) : List UInt8 := (List.range' start count).map r.byte

/-- Stores one byte, and zeros before it where nothing is stored yet. -/
def put (stored : Array UInt8) (i : Nat) (b : UInt8) : Array UInt8 :=
  if h : i < stored.size then stored.set i b
  else (stored ++ Array.replicate (i - stored.size) 0).push b

/-- Stores bytes from position `start` on. -/
def putAll (stored : Array UInt8) (start : Nat) : List UInt8 → Array UInt8
  | [] => stored
  | b :: bs => putAll (put stored start b) (start + 1) bs

/-- Overwrites the bytes from `start` on. -/
def write (r : Region) (start : Nat) (bs : List UInt8) : Region :=
  { r with stored := putAll r.stored start bs }

/-! ## What is stored -/

theorem getD_put (stored : Array UInt8) (i j : Nat) (b : UInt8) :
    (put stored i b).getD j 0 = if j = i then b else stored.getD j 0 := by
  unfold put
  split
  · rename_i h
    simp only [Array.getD_eq_getD_getElem?, Array.getElem?_set]
    by_cases hij : i = j
    · subst hij; simp
    · simp [hij, Ne.symm hij]
  · rename_i h
    simp only [Array.getD_eq_getD_getElem?, Array.getElem?_push, Array.getElem?_append,
      Array.size_append, Array.size_replicate, Array.getElem?_replicate]
    have hsize : stored.size + (i - stored.size) = i := by omega
    rw [hsize]
    by_cases hji : j = i
    · simp [hji]
    · simp only [hji, if_false]
      by_cases hj : j < stored.size
      · simp [hj]
      · simp only [hj, if_false]
        split <;> simp [Array.getElem?_eq_none (Nat.le_of_not_lt hj)]

theorem getD_putAll (bs : List UInt8) (stored : Array UInt8) (start j : Nat) :
    (putAll stored start bs).getD j 0 =
      if start ≤ j ∧ j < start + bs.length then bs.getD (j - start) 0 else stored.getD j 0 := by
  induction bs generalizing stored start with
  | nil =>
    have h : ¬(start ≤ j ∧ j < start + ([] : List UInt8).length) := by simp
    rw [putAll, if_neg h]
  | cons b bs ih =>
    rw [putAll, ih, getD_put]
    simp only [List.length_cons]
    by_cases hj : j = start
    · subst hj
      have h₁ : ¬(j + 1 ≤ j ∧ j < j + 1 + bs.length) := by omega
      have h₂ : j ≤ j ∧ j < j + (bs.length + 1) := by omega
      rw [if_neg h₁, if_pos rfl, if_pos h₂, Nat.sub_self, List.getD_cons_zero]
    · by_cases hin : start + 1 ≤ j ∧ j < start + 1 + bs.length
      · have h₂ : start ≤ j ∧ j < start + (bs.length + 1) := by omega
        have h₃ : j - start = j - (start + 1) + 1 := by omega
        rw [if_pos hin, if_pos h₂, h₃, List.getD_cons_succ]
      · have h₂ : ¬(start ≤ j ∧ j < start + (bs.length + 1)) := by omega
        rw [if_neg hin, if_neg h₂, if_neg hj]

/-- A write changes the bytes that it covers and no others. -/
theorem byte_write (r : Region) (start : Nat) (bs : List UInt8) (j : Nat) :
    (r.write start bs).byte j =
      if start ≤ j ∧ j < start + bs.length then bs.getD (j - start) 0 else r.byte j :=
  getD_putAll bs r.stored start j

end Region

end TreeJit
