/-! # Texts of the language

A `Text` is a string of bytes without a zero byte, since a zero byte ends a text
where machine code handles it.  The bytes need not be valid UTF-8.
-/

namespace TreeJit

/-- The first zero byte of bytes that were meant to be a text, by its position. -/
structure ZeroByte where
  position : Nat
  deriving DecidableEq

def ZeroByte.message (z : ZeroByte) : String :=
  s!"nul byte found in provided data at position: {z.position}"

/-- Bytes without a zero among them. -/
structure Text where
  bytes : List UInt8
  zero_not_mem : 0 ∉ bytes
  deriving DecidableEq

namespace Text

def empty : Text := ⟨[], List.not_mem_nil⟩

/-- The bytes as a text, unless there is a zero byte among them. -/
def ofBytes (bytes : List UInt8) : Except ZeroByte Text :=
  if h : 0 ∈ bytes then .error ⟨bytes.idxOf 0⟩ else .ok ⟨bytes, h⟩

/-- The UTF-8 bytes of a string as a text. -/
def ofString (s : String) : Except ZeroByte Text := ofBytes s.toUTF8.toList

/-- Two texts joined, left before right. -/
def append (a b : Text) : Text :=
  ⟨a.bytes ++ b.bytes, fun h => (List.mem_append.1 h).elim a.zero_not_mem b.zero_not_mem⟩

instance : Append Text := ⟨append⟩

@[simp] theorem bytes_append (a b : Text) : (a ++ b).bytes = a.bytes ++ b.bytes := rfl

end Text

end TreeJit
