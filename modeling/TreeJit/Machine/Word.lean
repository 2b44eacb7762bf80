import TreeJit.Double.Basic
import TreeJit.X86.Register

/-! # Words, registers and memory

What the machine's general-purpose registers and stack hold.  A word is 64 bits
or a reference to something that the machine keeps track of.  References to
strings say what they refer to, so that the machine notices when one has gone
stale.

Stack addresses count from the stack pointer at the entry of a function.  That
one is 8 modulo 16, as after a call.
-/

namespace TreeJit.Machine

open X86 (Gpr Xmm)

/-- A 64-bit word. -/
inductive Word where
  | bits (value : UInt64)
  /-- An address on the stack, relative to the stack pointer at entry. -/
  | stack (address : Int)
  /-- The text in the cell's slot, as of the given version of the slot. -/
  | slot (version : Nat)
  /-- A block of the heap. -/
  | block (index : Nat)
  /-- The address that the function returns to. -/
  | caller
  deriving DecidableEq

/-! ## Registers -/

/-- The general-purpose registers. -/
structure Registers where
  rax : Word
  rcx : Word
  rdx : Word
  rbx : Word
  rsp : Word
  rbp : Word
  rsi : Word
  rdi : Word
  deriving DecidableEq

namespace Registers

def get (r : Registers) : Gpr → Word
  | .rax => r.rax
  | .rcx => r.rcx
  | .rdx => r.rdx
  | .rbx => r.rbx
  | .rsp => r.rsp
  | .rbp => r.rbp
  | .rsi => r.rsi
  | .rdi => r.rdi

def set (r : Registers) (reg : Gpr) (w : Word) : Registers :=
  match reg with
  | .rax => { r with rax := w }
  | .rcx => { r with rcx := w }
  | .rdx => { r with rdx := w }
  | .rbx => { r with rbx := w }
  | .rsp => { r with rsp := w }
  | .rbp => { r with rbp := w }
  | .rsi => { r with rsi := w }
  | .rdi => { r with rdi := w }

/-- Registers that are all zero. -/
def zero : Registers :=
  let w := Word.bits 0
  ⟨w, w, w, w, w, w, w, w⟩

end Registers

/-- The low doubles of the vector registers. -/
structure Vectors where
  xmm0 : Double
  xmm1 : Double
  xmm2 : Double
  deriving DecidableEq

namespace Vectors

def get (v : Vectors) : Xmm → Double
  | .xmm0 => v.xmm0
  | .xmm1 => v.xmm1
  | .xmm2 => v.xmm2

def set (v : Vectors) (reg : Xmm) (x : Double) : Vectors :=
  match reg with
  | .xmm0 => { v with xmm0 := x }
  | .xmm1 => { v with xmm1 := x }
  | .xmm2 => { v with xmm2 := x }

def zero : Vectors := ⟨Double.zero, Double.zero, Double.zero⟩

end Vectors

/-! ## Stack memory -/

/-- Words in memory by address, each address at most once.  Addresses are multiples of eight. -/
structure Memory where
  words : List (Int × Word)
  deriving DecidableEq

namespace Memory

def load (m : Memory) (address : Int) : Option Word := m.words.lookup address

def store (m : Memory) (address : Int) (w : Word) : Memory :=
  ⟨(address, w) :: m.words.filter fun entry => entry.1 != address⟩

/-- The memory with everything below an address replaced by what lies there in another memory. -/
def replaceBelow (m : Memory) (address : Int) (other : Memory) : Memory :=
  ⟨m.words.filter (fun entry => address ≤ entry.1)
    ++ other.words.filter (fun entry => entry.1 < address)⟩

theorem lookup_filter (words : List (Int × Word)) (keep : Int → Bool) (address : Int) :
    (words.filter fun entry => keep entry.1).lookup address =
      if keep address then words.lookup address else none := by
  induction words with
  | nil => simp
  | cons entry words ih =>
    obtain ⟨a, w⟩ := entry
    rw [List.filter_cons]
    by_cases ha : address = a
    · subst ha
      cases hkeep : keep address with
      | true => simp
      | false => simpa [hkeep] using ih
    · have hne : (address == a) = false := beq_eq_false_iff_ne.2 ha
      cases hkeep : keep a with
      | true => simpa [hkeep, List.lookup_cons, hne] using ih
      | false => simpa [hkeep, List.lookup_cons, hne] using ih

/-- A store changes the word at its address and no other. -/
theorem load_store (m : Memory) (a b : Int) (w : Word) :
    (m.store a w).load b = if b = a then some w else m.load b := by
  unfold load store
  rw [List.lookup_cons, lookup_filter m.words (· != a)]
  by_cases h : b = a
  · subst h
    simp
  · have hne : (b == a) = false := beq_eq_false_iff_ne.2 h
    simp [h, hne]

/-- Replacing what lies below an address keeps what lies above it. -/
theorem load_replaceBelow_of_le (m other : Memory) {address b : Int} (h : address ≤ b) :
    (m.replaceBelow address other).load b = m.load b := by
  unfold load replaceBelow
  rw [List.lookup_append, lookup_filter m.words (fun a => decide (address ≤ a)),
    lookup_filter other.words (fun a => decide (a < address))]
  have hb : ¬b < address := by omega
  simp [h, hb]

end Memory

end TreeJit.Machine
