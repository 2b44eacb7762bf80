import TreeJit.Code.Symbol

/-! # Listings

Machine code as text.  Bytes are written as two hexadecimal digits, and an
address by the name of its symbol in braces.
-/

namespace TreeJit

namespace Listing

/-- A byte as two lower-case hexadecimal digits. -/
def byte (b : UInt8) : List Char := (Nat.toDigits 16 b.toNat).leftpad 2 '0'

/-- Bytes as hexadecimal digits. -/
def bytes (bs : List UInt8) : String := String.ofList (bs.flatMap byte)

/-- A symbol's name in braces. -/
def named (s : Symbol) : List Char := "\x7b".toList ++ s.name.toList ++ "\x7d".toList

/-- Lists the bytes from `position` on, after `skip` more bytes that a name already stands for.
The links are in the order of their offsets. -/
def listFrom : List Link → Nat → Nat → List UInt8 → List Char
  | _, _, _, [] => []
  | links, position, skip + 1, _ :: bs => listFrom links (position + 1) skip bs
  | [], position, 0, b :: bs => byte b ++ listFrom [] (position + 1) 0 bs
  | link :: links, position, 0, b :: bs =>
    if link.offset = position then
      named link.symbol ++ listFrom links (position + 1) (Link.width - 1) bs
    else byte b ++ listFrom (link :: links) (position + 1) 0 bs

/-- Code with its addresses named. -/
def code (links : List Link) (bs : List UInt8) : String := String.ofList (listFrom links 0 0 bs)

end Listing

end TreeJit
