import TreeJit.Text.Basic

/-! # Reading bytes as UTF-8

Bytes are read as characters from left to right.  A well-formed sequence gives
its character.  An ill-formed part gives one replacement character: the longest
part that could still have begun a well-formed sequence, or else a single byte.
-/

namespace TreeJit.Text.Utf8

/-- What stands for an ill-formed part. -/
def replacement : Char := Char.ofNat 0xFFFD

/-- A sequence that has begun: the bits so far, how many bytes are owed, and the range that the
next one has to lie in. -/
structure Pending where
  bits : Nat
  owed : Nat
  low : Nat
  high : Nat
  deriving DecidableEq

/-- The sequence that a first byte above the ASCII range begins.  The narrower ranges for the
second byte keep out overlong forms, surrogates and code points beyond the last one. -/
def begin? (b : Nat) : Option Pending :=
  if 0xC2 ≤ b ∧ b ≤ 0xDF then some ⟨b % 0x20, 1, 0x80, 0xBF⟩
  else if b = 0xE0 then some ⟨0, 2, 0xA0, 0xBF⟩
  else if b = 0xED then some ⟨b % 0x10, 2, 0x80, 0x9F⟩
  else if 0xE1 ≤ b ∧ b ≤ 0xEF then some ⟨b % 0x10, 2, 0x80, 0xBF⟩
  else if b = 0xF0 then some ⟨0, 3, 0x90, 0xBF⟩
  else if 0xF1 ≤ b ∧ b ≤ 0xF3 then some ⟨b % 0x08, 3, 0x80, 0xBF⟩
  else if b = 0xF4 then some ⟨b % 0x08, 3, 0x80, 0x8F⟩
  else none

/-- Reads a byte between two sequences: the characters that are settled by it, and the sequence
that it begins. -/
def start (b : Nat) : List Char × Option Pending :=
  if b < 0x80 then ([Char.ofNat b], none)
  else match begin? b with
    | some p => ([], some p)
    | none => ([replacement], none)

/-- Reads one byte.  A byte that does not fit closes the sequence before it with a replacement
character and is then read afresh. -/
def step (pending : Option Pending) (b : Nat) : List Char × Option Pending :=
  match pending with
  | none => start b
  | some p =>
    if p.low ≤ b ∧ b ≤ p.high then
      let bits := p.bits * 0x40 + b % 0x40
      if p.owed = 1 then ([Char.ofNat bits], none)
      else ([], some ⟨bits, p.owed - 1, 0x80, 0xBF⟩)
    else
      let (settled, next) := start b
      (replacement :: settled, next)

/-- Reads the rest of the bytes; a sequence left open at the end is ill-formed. -/
def decodeFrom : Option Pending → List UInt8 → List Char
  | none, [] => []
  | some _, [] => [replacement]
  | pending, b :: bs =>
    let (settled, next) := step pending b.toNat
    settled ++ decodeFrom next bs

/-- The characters of a byte string. -/
def decode (bytes : List UInt8) : List Char := decodeFrom none bytes

end TreeJit.Text.Utf8

namespace TreeJit

/-- The characters of a text, with replacement characters where it is not UTF-8. -/
def Text.chars (t : Text) : List Char := Text.Utf8.decode t.bytes

end TreeJit
