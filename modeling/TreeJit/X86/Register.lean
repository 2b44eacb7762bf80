/-! # Registers

The eight low general-purpose registers and the three vector registers that
generated code names, with the numbers that stand for them in an instruction.
-/

namespace TreeJit.X86

/-- A general-purpose register. -/
inductive Gpr where
  | rax
  | rcx
  | rdx
  | rbx
  | rsp
  | rbp
  | rsi
  | rdi
  deriving DecidableEq

namespace Gpr

/-- The register's number in an instruction. -/
def number : Gpr → Nat
  | .rax => 0
  | .rcx => 1
  | .rdx => 2
  | .rbx => 3
  | .rsp => 4
  | .rbp => 5
  | .rsi => 6
  | .rdi => 7

def name : Gpr → String
  | .rax => "rax"
  | .rcx => "rcx"
  | .rdx => "rdx"
  | .rbx => "rbx"
  | .rsp => "rsp"
  | .rbp => "rbp"
  | .rsi => "rsi"
  | .rdi => "rdi"

def all : List Gpr := [.rax, .rcx, .rdx, .rbx, .rsp, .rbp, .rsi, .rdi]

def ofNumber? (n : Nat) : Option Gpr := all[n]?

def ofName? (name : String) : Option Gpr := all.find? (·.name == name)

@[simp] theorem ofNumber?_number (r : Gpr) : ofNumber? r.number = some r := by cases r <;> rfl

end Gpr

/-- A vector register, of which only the low double counts. -/
inductive Xmm where
  | xmm0
  | xmm1
  | xmm2
  deriving DecidableEq

namespace Xmm

/-- The register's number in an instruction. -/
def number : Xmm → Nat
  | .xmm0 => 0
  | .xmm1 => 1
  | .xmm2 => 2

def name : Xmm → String
  | .xmm0 => "xmm0"
  | .xmm1 => "xmm1"
  | .xmm2 => "xmm2"

def all : List Xmm := [.xmm0, .xmm1, .xmm2]

def ofNumber? (n : Nat) : Option Xmm := all[n]?

def ofName? (name : String) : Option Xmm := all.find? (·.name == name)

@[simp] theorem ofNumber?_number (r : Xmm) : ofNumber? r.number = some r := by cases r <;> rfl

end Xmm

/-! ## The calling convention -/

/-- The register of a call's first address argument. -/
def firstArgument : Gpr := .rdi

/-- The register of a call's second address argument. -/
def secondArgument : Gpr := .rsi

/-- The register of a call's double argument. -/
def doubleArgument : Xmm := .xmm0

end TreeJit.X86
