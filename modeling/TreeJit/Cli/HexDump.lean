import TreeJit.Code.Symbol

/-! # Hex dumps

Code as rows of sixteen bytes, each row after its offset.  Bytes of an address
are not known before the code is linked, so a dump can leave bytes open.
-/

namespace TreeJit.Cli.HexDump

/-- How many bytes a row has. -/
def rowSize : Nat := 16

/-- A number in upper-case hexadecimal digits, at least `width` of them. -/
def upperHex (width n : Nat) : List Char :=
  ((Nat.toDigits 16 n).map Char.toUpper).leftpad width '0'

/-- A byte as two digits; an open one as two points. -/
def cell : Option UInt8 → List Char
  | some b => upperHex 2 b.toNat
  | none => ['.', '.']

/-- A row: its offset and its bytes. -/
def row (index : Nat) (cells : List (Option UInt8)) : List Char :=
  [' ', ' '] ++ upperHex 4 (rowSize * index) ++ [' ', ' ']
    ++ List.intercalate [' '] (cells.map cell) ++ ['\n']

/-- The bytes of a row. -/
def rowCells (cells : List (Option UInt8)) (index : Nat) : List (Option UInt8) :=
  (cells.drop (rowSize * index)).take rowSize

/-- How many rows a dump of so many bytes has. -/
def rowCount (length : Nat) : Nat := (length + rowSize - 1) / rowSize

/-- The rows of a dump. -/
def rows (cells : List (Option UInt8)) : List (List Char) :=
  (List.range (rowCount cells.length)).map fun index => row index (rowCells cells index)

/-- A dump of bytes, some of which may be open, under a name. -/
def render (name : String) (cells : List (Option UInt8)) : List Char :=
  name.toList ++ [':', '\n'] ++ (rows cells).flatten

/-- A dump of bytes under a name. -/
def ofBytes (name : String) (bytes : List UInt8) : List Char := render name (bytes.map some)

/-- The bytes of code with those of addresses left open. -/
def openAddresses (links : List Link) (bytes : List UInt8) : List (Option UInt8) :=
  bytes.mapIdx fun i b =>
    if links.any fun link => link.offset ≤ i && i < link.offset + Link.width then none else some b

end TreeJit.Cli.HexDump
