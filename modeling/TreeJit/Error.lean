import TreeJit.Node.Basic

/-! # Errors

Why a compilation or a call of compiled code fails.  An error is a cause;
`Error.message` holds all the wording.
-/

namespace TreeJit

/-- Why executable memory could not be had. -/
inductive AllocFailure where
  | zeroBytes
  | refused (size : Nat) (reason : String)
  | other (text : String)
  deriving DecidableEq

def AllocFailure.message : AllocFailure → String
  | .zeroBytes => "cannot create executable region of zero bytes"
  | .refused size reason => s!"could not map {size} executable bytes: {reason}"
  | .other text => text

/-- Why a jump could not be resolved. -/
inductive JumpFailure where
  | tooFar (field target : Nat)
  | other (text : String)
  deriving DecidableEq

def JumpFailure.message : JumpFailure → String
  | .tooFar field target => s!"jump from {field} to {target} exceeds rel32 range"
  | .other text => text

/-- Why a compilation or a call of compiled code fails. -/
inductive Error where
  | alloc (failure : AllocFailure)
  /-- A write of `length` bytes at `offset` does not fit into the capacity. -/
  | overflow (offset length capacity : Nat)
  /-- A node of this kind is never compiled. -/
  | unsupported (kind : NodeKind)
  /-- A node of this kind stands where a value of another kind is needed. -/
  | valueKind (kind : NodeKind) (expected : ValueKind)
  | unbound (name : String)
  | displacement (failure : JumpFailure)
  | unsupportedTarget
  | disabled
  /-- Compiled code was called for a value of another kind than it leaves. -/
  | resultKind (expected actual : ValueKind)
  deriving DecidableEq

namespace Error

/-- Whether a larger buffer would mend the failure. -/
def isOverflow : Error → Bool
  | .overflow _ _ _ => true
  | _ => false

def message : Error → String
  | .alloc failure => s!"executable memory allocation failed: {failure.message}"
  | .overflow offset length capacity =>
    s!"jit buffer overflow: {length} byte(s) at offset {offset} exceed capacity {capacity}"
  | .unsupported kind => s!"unsupported node kind '{kind.name}'"
  | .valueKind kind expected =>
    s!"node kind '{kind.name}' cannot produce a {expected.name} value"
  | .unbound name => s!"variable '{name}' is not bound in the runtime context"
  | .displacement failure => s!"jump displacement: {failure.message}"
  | .unsupportedTarget => "native code generation requires x86_64 on unix or windows"
  | .disabled => "jit is disabled by configuration"
  | .resultKind expected actual =>
    s!"compiled code produces a {actual.name} result, not a {expected.name} result"

end Error

/-- Whether a result is that of running out of room. -/
def overflowed {α : Type} : Except Error α → Bool
  | .error e => e.isOverflow
  | .ok _ => false

theorem exists_of_overflowed {α : Type} {r : Except Error α} (exceeded : overflowed r) :
    ∃ e, r = .error e ∧ e.isOverflow := by
  cases r with
  | ok _ => cases exceeded
  | error e => exact ⟨e, rfl, exceeded⟩

@[simp] theorem overflowed_map {α β : Type} (f : α → β) (r : Except Error α) :
    overflowed (r.map f) = overflowed r := by
  cases r <;> rfl

end TreeJit
