import TreeJit.Error

/-! # Events

What is reported while trees are compiled and run.  An event has a level, and a
message that starts with the tag of its category.
-/

namespace TreeJit

/-- How important an event is, from the least to the most. -/
inductive Level where
  | debug
  | info
  | warn
  | error
  deriving DecidableEq

def Level.rank : Level → Nat
  | .debug => 0
  | .info => 1
  | .warn => 2
  | .error => 3

def Level.name : Level → String
  | .debug => "DEBUG"
  | .info => "INFO"
  | .warn => "WARN"
  | .error => "ERROR"

/-- What an event is about: code that was made, or a tree that is left to others. -/
inductive Category where
  | jit
  | fallback
  deriving DecidableEq

def Category.tag : Category → String
  | .jit => "JIT"
  | .fallback => "FALLBACK"

/-- Something worth reporting. -/
inductive Event where
  /-- A node of this kind was turned down. -/
  | rejected (kind : NodeKind)
  /-- A tree was compiled. -/
  | compiled (root : NodeKind) (length : Nat) (result : ValueKind) (capacity : Nat)
  /-- A compilation overflowed and starts again with a larger buffer. -/
  | retrying (failure : Error) (capacity : Nat)
  /-- A named program was compiled and run. -/
  | ran (program rendered : String) (length : Nat)
  /-- A named program could not be compiled. -/
  | fellBack (program : String) (failure : Error)
  deriving DecidableEq

namespace Event

def level : Event → Level
  | .rejected _ => .debug
  | .compiled _ _ _ _ => .debug
  | .retrying _ _ => .warn
  | .ran _ _ _ => .info
  | .fellBack _ _ => .info

def category : Event → Category
  | .rejected _ => .fallback
  | .compiled _ _ _ _ => .jit
  | .retrying _ _ => .jit
  | .ran _ _ _ => .jit
  | .fellBack _ _ => .fallback

/-- The message without its tag. -/
def body : Event → String
  | .rejected kind => s!"rejected node kind '{kind.name}'"
  | .compiled root length result capacity =>
    s!"compiled '{root.name}' tree into {length} bytes ({result.name} result, capacity {capacity})"
  | .retrying failure capacity => s!"{failure.message}; retrying with {capacity} bytes"
  | .ran program rendered length => s!"{program}: {rendered} ({length} bytes)"
  | .fellBack program failure => s!"{program}: {failure.message}"

/-- The message with a plain tag. -/
def message (e : Event) : String := s!"{e.category.tag} {e.body}"

/-- The level and the message, as a line of a log. -/
def line (e : Event) : String := s!"{e.level.name} {e.message}"

end Event

end TreeJit
