import TreeJit.Text.Basic

/-! # Symbols

Generated code names things outside itself by their address: the variable's
cell, the helpers it calls, and string literals.  A `Linkage` says where each of
them lies.  A `Link` is a place in the code that holds such an address.
-/

namespace TreeJit

/-- A routine that generated code can call. -/
inductive Helper where
  | readNumber
  | readString
  | writeNumber
  | writeString
  | concat
  | remainder
  deriving DecidableEq

/-- Something that generated code refers to by its address. -/
inductive Symbol where
  /-- The cell of the bound variable. -/
  | cell
  | helper (h : Helper)
  /-- A string literal by its number. -/
  | literal (index : Nat)
  deriving DecidableEq

def Helper.name : Helper → String
  | .readNumber => "read_number"
  | .readString => "read_string"
  | .writeNumber => "write_number"
  | .writeString => "write_string"
  | .concat => "concat"
  | .remainder => "fmod"

def Helper.all : List Helper :=
  [.readNumber, .readString, .writeNumber, .writeString, .concat, .remainder]

def Symbol.name : Symbol → String
  | .cell => "cell"
  | .helper h => h.name
  | .literal index => s!"str{index}"

/-- Where each symbol lies in memory. -/
structure Linkage where
  address : Symbol → UInt64

namespace Linkage

/-- The symbol among the known ones that lies at an address. -/
def locate (l : Linkage) (known : List Symbol) (address : UInt64) : Option Symbol :=
  known.find? fun s => l.address s == address

/-- The position of a helper among the helpers. -/
def helperIndex : Helper → Nat
  | .readNumber => 0
  | .readString => 1
  | .writeNumber => 2
  | .writeString => 3
  | .concat => 4
  | .remainder => 5

/-- A linkage that gives every symbol a place of its own: the cell, then the helpers, then the
literals by number. -/
def standard : Linkage where
  address
    | .cell => 0x10000
    | .helper h => UInt64.ofNat (0x20000 + 16 * helperIndex h)
    | .literal index => UInt64.ofNat (0x100000 + 16 * index)

end Linkage

/-- Eight bytes of code, from `offset` on, that hold the address of a symbol. -/
structure Link where
  offset : Nat
  symbol : Symbol
  deriving DecidableEq

/-- How many bytes an address takes. -/
def Link.width : Nat := 8

/-- String literals that are numbered from `first` on. -/
structure Literals where
  first : Nat
  texts : List Text

namespace Literals

/-- The literal with the given number. -/
def get? (l : Literals) (index : Nat) : Option Text :=
  if l.first ≤ index then l.texts[index - l.first]? else none

/-- The symbols of the literals. -/
def symbols (l : Literals) : List Symbol := (List.range' l.first l.texts.length).map .literal

end Literals

end TreeJit
