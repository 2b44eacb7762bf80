import TreeJit.Node.Basic
import TreeJit.Double.Arithmetic

/-! # Equality of trees

Two trees are equal if they have the same shape, operators, names and string
bytes, and numbers that compare equal.  Numbers compare as numbers: both zeros
are equal, and a NaN differs from everything, so a tree with a NaN in it is not
even equal to itself.
-/

namespace TreeJit

mutual

/-- Whether two trees are equal. -/
def Node.equal : Node → Node → Bool
  | .number a, .number b => a.numericEq b
  | .string a, .string b => a = b
  | .var a, .var b => a == b
  | .assign n a, .assign m b => n == m && a.equal b
  | .binary p a₁ a₂, .binary q b₁ b₂ => p = q && a₁.equal b₁ && a₂.equal b₂
  | .neg a, .neg b => a.equal b
  | .concat a₁ a₂, .concat b₁ b₂ => a₁.equal b₁ && a₂.equal b₂
  | .loop a₁ a₂, .loop b₁ b₂ => a₁.equal b₁ && a₂.equal b₂
  | .compare p a₁ a₂, .compare q b₁ b₂ => p = q && a₁.equal b₁ && a₂.equal b₂
  | .block as, .block bs => equalLists as bs
  | .print as, .print bs => equalLists as bs
  | .call n as, .call m bs => n == m && equalLists as bs
  | _, _ => false

/-- Whether two lists hold equal trees, place by place. -/
def equalLists : List Node → List Node → Bool
  | [], [] => true
  | a :: as, b :: bs => a.equal b && equalLists as bs
  | _, _ => false

end

end TreeJit
