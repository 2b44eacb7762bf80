import TreeJit.Code.Listing
import TreeJit.Codegen

/-! # A buffer under hand

A workbench is a code buffer that takes orders one at a time: raw writes,
patches, single instructions and whole trees.  An order that fails leaves what
it had written before it failed, and the next order goes on from there.
-/

namespace TreeJit

/-- A code buffer, the addresses that were written into it, and how many string literals have been
offered. -/
structure Workbench where
  variableName : String
  linkage : Linkage
  buffer : Buffer
  links : List Link
  literalCount : Nat

namespace Workbench

/-- Something to do to the buffer. -/
inductive Order where
  | byte (value : UInt8)
  | int32 (value : Int32)
  | int64 (value : Int64)
  | nop
  | bytes (values : List UInt8)
  | patch (start : Nat) (value : Int32)
  | instrs (sequence : List X86.Instr)
  /-- A conditional jump without a target. -/
  | je
  /-- A jump without a target. -/
  | jmp
  | patchJump (field target : Nat)
  | compile (root : Except ZeroByte Node)

/-- What an order answers. -/
inductive Reply where
  | done
  | offset (value : Nat)
  | kind (value : ValueKind)

/-- Why an order fails. -/
inductive Failure where
  | error (e : Error)
  | zeroByte (z : ZeroByte)

/-- A workbench with an empty buffer of the given capacity. -/
def open? (variableName : String) (capacity : Nat) : Except Error Workbench :=
  (Buffer.create capacity .ample).map fun buffer => ⟨variableName, Linkage.standard, buffer, [], 0⟩

/-- The code before the cursor, with its addresses named. -/
def listing (w : Workbench) : String := Listing.code w.links w.buffer.code

/-- The workbench and the answer after an order, and the events on the way. -/
structure Result where
  bench : Workbench
  reply : Except Failure Reply
  events : List Event

/-- The result of a write that changes the buffer as a whole or not at all. -/
def settle (w : Workbench) (written : Except Error Buffer) : Result :=
  match written with
  | .ok buffer => ⟨{ w with buffer := buffer }, .ok .done, []⟩
  | .error e => ⟨w, .error (.error e), []⟩

/-- The result of a write that may stop half-way. -/
def settlePartly {α : Type} (w : Workbench) (written : Buffer × Except Error α)
    (reply : α → Reply) : Result :=
  ⟨{ w with buffer := written.1 }, (written.2.map reply).mapError .error, []⟩

/-- Writes the code of a tree at the cursor. -/
def generate (w : Workbench) (root : Node) : Result :=
  let scope : Codegen.Scope := ⟨w.variableName, w.literalCount⟩
  let emission := (Codegen.node scope root).assemble w.linkage w.buffer
  let bench := { w with
    buffer := emission.buffer
    links := w.links ++ emission.links
    literalCount := w.literalCount + root.literals.length }
  ⟨bench, (emission.result.map .kind).mapError .error, emission.events⟩

/-- Carries out an order. -/
def perform (w : Workbench) : Order → Result
  | .byte value => w.settle (w.buffer.emitByte value)
  | .int32 value => w.settle (w.buffer.emitInt32 value)
  | .int64 value => w.settle (w.buffer.emitInt64 value)
  | .nop => w.settle w.buffer.emitNop
  | .bytes values => w.settle (w.buffer.emit values)
  | .patch start value => w.settle (w.buffer.patch start value)
  | .instrs sequence => w.settlePartly (w.buffer.emitInstrs sequence) fun _ => .done
  | .je => w.settlePartly (w.buffer.emitJump .je) .offset
  | .jmp => w.settlePartly (w.buffer.emitJump .jmp) .offset
  | .patchJump field target => w.settle (w.buffer.patchJump field target)
  | .compile (.ok root) => w.generate root
  | .compile (.error z) => ⟨w, .error (.zeroByte z), []⟩

end Workbench

end TreeJit
