import TreeJit.Code.Buffer
import TreeJit.Code.Symbol
import TreeJit.Event

/-! # Assembly scripts

Generating code does not touch a buffer.  It gives a `Script`: the steps to
take, in order, and the outcome once all of them have been taken.  A script that
ends in an error still has the steps that come before the error.

Scripts know neither where they will stand nor how much room there is.  A jump
is resolved by distances back from the cursor, and an address by its symbol.
`Script.assemble` carries a script out on a buffer.  It stops at the first write
that does not fit, and then that is the result instead of the outcome.
-/

namespace TreeJit

/-! ## Steps -/

/-- One step of assembly. -/
inductive Step where
  | emit (i : X86.Instr)
  /-- Loads the address of a symbol into a register. -/
  | address (dst : X86.Gpr) (symbol : Symbol)
  /-- Points the displacement that lies `field` bytes before the cursor to the place `target`
  bytes before the cursor. -/
  | resolve (field target : Nat)
  | note (event : Event)
  deriving DecidableEq

/-- How far a step moves the cursor. -/
def Step.size : Step → Nat
  | .emit i => i.size
  | .address dst _ => (X86.Instr.movImm dst 0).size
  | .resolve _ _ => 0
  | .note _ => 0

/-- How far steps move the cursor together. -/
def Step.totalSize : List Step → Nat
  | [] => 0
  | s :: rest => s.size + totalSize rest

/-- The steps of generating code and what comes out of it. -/
structure Script (α : Type) where
  steps : List Step
  outcome : Except Error α

namespace Script

/-- No steps, and a value. -/
def pure {α : Type} (a : α) : Script α := ⟨[], .ok a⟩

/-- No steps, and an error. -/
def fail {α : Type} (e : Error) : Script α := ⟨[], .error e⟩

/-- One script after the other; an error of the first leaves the second out. -/
def bind {α β : Type} (s : Script α) (next : α → Script β) : Script β :=
  match s.outcome with
  | .ok a =>
    let rest := next a
    ⟨s.steps ++ rest.steps, rest.outcome⟩
  | .error e => ⟨s.steps, .error e⟩

instance : Monad Script where
  pure := Script.pure
  bind := Script.bind

theorem bind_of_ok {α β : Type} {s : Script α} {a : α} (h : s.outcome = .ok a)
    (next : α → Script β) : s.bind next = ⟨s.steps ++ (next a).steps, (next a).outcome⟩ := by
  unfold Script.bind
  rw [h]

theorem bind_of_error {α β : Type} {s : Script α} {e : Error} (h : s.outcome = .error e)
    (next : α → Script β) : s.bind next = ⟨s.steps, .error e⟩ := by
  unfold Script.bind
  rw [h]

/-- A single step. -/
def step (s : Step) : Script Unit := ⟨[s], .ok ()⟩

def emit (i : X86.Instr) : Script Unit := step (.emit i)

def emitAll (is : List X86.Instr) : Script Unit := ⟨is.map .emit, .ok ()⟩

def address (dst : X86.Gpr) (symbol : Symbol) : Script Unit := step (.address dst symbol)

def resolve (field target : Nat) : Script Unit := step (.resolve field target)

def note (event : Event) : Script Unit := step (.note event)

/-- The events that a script reports. -/
def notes {α : Type} (s : Script α) : List Event :=
  s.steps.filterMap fun
    | .note event => some event
    | _ => none

/-- How far a script moves the cursor. -/
def size {α : Type} (s : Script α) : Nat := Step.totalSize s.steps

end Script

/-! ## Assembly -/

/-- What assembly leaves behind: the buffer, the addresses that were written into it, the events on
the way, and the result. -/
structure Emission (α : Type) where
  buffer : Buffer
  links : List Link
  events : List Event
  result : Except Error α

/-- The end of a write that changes the buffer as a whole or not at all. -/
def Emission.settle (b : Buffer) (written : Except Error Buffer) : Emission Unit :=
  match written with
  | .ok after => ⟨after, [], [], .ok ()⟩
  | .error e => ⟨b, [], [], .error e⟩

namespace Step

/-- Takes one step.  A step that fails half-way keeps what it has written. -/
def perform (linkage : Linkage) (b : Buffer) : Step → Emission Unit
  | .emit i =>
    let (after, written) := b.emitInstr i
    ⟨after, [], [], written⟩
  | .address dst symbol =>
    let (after, written) := b.emitInstr (.movImm dst (linkage.address symbol))
    match written with
    | .ok () => ⟨after, [⟨after.offset - Link.width, symbol⟩], [], .ok ()⟩
    | .error e => ⟨after, [], [], .error e⟩
  | .resolve field target => .settle b (b.patchJump (b.offset - field) (b.offset - target))
  | .note event => ⟨b, [], [event], .ok ()⟩

/-- Takes steps in order, up to the first that fails. -/
def performAll (linkage : Linkage) : List Step → Buffer → Emission Unit
  | [], b => ⟨b, [], [], .ok ()⟩
  | s :: rest, b =>
    let first := s.perform linkage b
    match first.result with
    | .error _ => first
    | .ok () =>
      let others := performAll linkage rest first.buffer
      ⟨others.buffer, first.links ++ others.links, first.events ++ others.events, others.result⟩

end Step

/-- Carries out a script at the cursor of a buffer. -/
def Script.assemble {α : Type} (linkage : Linkage) (s : Script α) (b : Buffer) : Emission α :=
  let e := Step.performAll linkage s.steps b
  match e.result with
  | .ok () => ⟨e.buffer, e.links, e.events, s.outcome⟩
  | .error failure => ⟨e.buffer, e.links, e.events, .error failure⟩

end TreeJit
