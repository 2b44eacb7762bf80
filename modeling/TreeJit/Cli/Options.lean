import TreeJit.Compiler
import TreeJit.Decimal.Numeral

/-! # Command-line options

Options are read from left to right.  A flag that takes a value takes the next
argument, whatever it looks like, and a later flag overrides an earlier one.
Capacities are checked only after every argument has been read.
-/

namespace TreeJit.Cli

/-- What the command line asks for. -/
structure Options where
  capacity : Nat := defaultCapacity
  maxCapacity : Nat := 16 * defaultCapacity
  value : Double := Double.ofNat 10
  dump : Bool := false
  help : Bool := false
  deriving DecidableEq

/-- What is wrong with a command line. -/
inductive ArgumentError where
  | unknown (argument : String)
  | missing (flag : String)
  | invalid (flag raw : String)
  | zeroCapacity
  deriving DecidableEq

def ArgumentError.message : ArgumentError → String
  | .unknown argument => s!"unknown argument '{argument}'"
  | .missing flag => s!"missing value for {flag}"
  | .invalid flag raw => s!"invalid {flag} value '{raw}'"
  | .zeroCapacity => "--capacity must be > 0"

namespace Options

/-- Whole numbers on the command line have 64 bits. -/
def readCapacity? (raw : String) : Option Nat := Decimal.readNat? 0x10000000000000000 raw.toList

def readValue? (raw : String) : Option Double := Decimal.readDouble? raw.toList

/-- The value of a flag: the argument after it, read as the flag wants it. -/
def flagValue {α : Type} (flag : String) (read? : String → Option α) :
    List String → Except ArgumentError α
  | [] => .error (.missing flag)
  | raw :: _ =>
    match read? raw with
    | some value => .ok value
    | none => .error (.invalid flag raw)

/-- Reads arguments from left to right into the options. -/
def readArguments (options : Options) : List String → Except ArgumentError Options
  | [] => .ok options
  | argument :: rest =>
    match argument with
    | "-h" => readArguments { options with help := true } rest
    | "--help" => readArguments { options with help := true } rest
    | "--dump" => readArguments { options with dump := true } rest
    | "--capacity" => do
      let capacity ← flagValue argument readCapacity? rest
      readArguments { options with capacity := capacity } rest.tail
    | "--max-capacity" => do
      let capacity ← flagValue argument readCapacity? rest
      readArguments { options with maxCapacity := capacity } rest.tail
    | "--value" => do
      let value ← flagValue argument readValue? rest
      readArguments { options with value := value } rest.tail
    | _ => .error (.unknown argument)
termination_by arguments => arguments.length

/-- Checks the capacities of options that have been read: there has to be room, and the limit is
never below the capacity. -/
def settle (options : Options) : Except ArgumentError Options :=
  if options.capacity = 0 then .error .zeroCapacity
  else .ok { options with maxCapacity := max options.maxCapacity options.capacity }

/-- Reads a command line. -/
def parse (arguments : List String) : Except ArgumentError Options := do
  (← readArguments {} arguments).settle

end Options

end TreeJit.Cli
