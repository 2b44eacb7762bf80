import TreeJit.Double.Basic
import TreeJit.Text.Basic

/-! # Trees

The tree that a front end offers for compilation.  Only part of it can be
compiled; the comparisons, blocks, prints and calls are here so that a whole
tree can be offered and be turned down by name.

* `Node.kind` — what a node is, with a kind of its own for each operator.
* `Node.literals` — the string literals in preorder, which is the order in
  which they are numbered.
-/

namespace TreeJit

inductive BinaryOp where
  | add
  | sub
  | mul
  | div
  | mod
  deriving DecidableEq

inductive CompareOp where
  | lt
  | le
  | gt
  | ge
  | eq
  | ne
  deriving DecidableEq

/-- A tree of the language. -/
inductive Node where
  | number (value : Double)
  | string (text : Text)
  | var (name : String)
  | assign (name : String) (value : Node)
  | binary (op : BinaryOp) (lhs rhs : Node)
  | neg (operand : Node)
  | concat (lhs rhs : Node)
  | loop (cond body : Node)
  | compare (op : CompareOp) (lhs rhs : Node)
  | block (items : List Node)
  | print (items : List Node)
  | call (name : String) (args : List Node)

/-! ## Kinds -/

/-- What a node is, without its operands. -/
inductive NodeKind where
  | number
  | string
  | var
  | assign
  | add
  | sub
  | mul
  | div
  | mod
  | neg
  | concat
  | loop
  | compare
  | block
  | print
  | call
  deriving DecidableEq

/-- The name of a kind in messages. -/
def NodeKind.name : NodeKind → String
  | .number => "number"
  | .string => "string"
  | .var => "var"
  | .assign => "assign"
  | .add => "add"
  | .sub => "sub"
  | .mul => "mul"
  | .div => "div"
  | .mod => "mod"
  | .neg => "neg"
  | .concat => "concat"
  | .loop => "while"
  | .compare => "compare"
  | .block => "block"
  | .print => "print"
  | .call => "call"

def NodeKind.all : List NodeKind :=
  [.number, .string, .var, .assign, .add, .sub, .mul, .div, .mod, .neg, .concat, .loop, .compare,
   .block, .print, .call]

/-- The kind with the given name. -/
def NodeKind.ofName? (name : String) : Option NodeKind := all.find? (·.name == name)

def BinaryOp.kind : BinaryOp → NodeKind
  | .add => .add
  | .sub => .sub
  | .mul => .mul
  | .div => .div
  | .mod => .mod

def Node.kind : Node → NodeKind
  | .number _ => .number
  | .string _ => .string
  | .var _ => .var
  | .assign _ _ => .assign
  | .binary op _ _ => op.kind
  | .neg _ => .neg
  | .concat _ _ => .concat
  | .loop _ _ => .loop
  | .compare _ _ _ => .compare
  | .block _ => .block
  | .print _ => .print
  | .call _ _ => .call

/-- What running a node's code leaves behind: a number, a string, or nothing. -/
inductive ValueKind where
  | number
  | string
  | statement
  deriving DecidableEq

/-- The name of a value kind in messages. -/
def ValueKind.name : ValueKind → String
  | .number => "number"
  | .string => "string"
  | .statement => "statement"

def ValueKind.all : List ValueKind := [.number, .string, .statement]

/-- The value kind with the given name. -/
def ValueKind.ofName? (name : String) : Option ValueKind := all.find? (·.name == name)

/-! ## String literals -/

mutual

/-- The string literals of a tree in preorder, each occurrence once. -/
def Node.literals : Node → List Text
  | .number _ => []
  | .string text => [text]
  | .var _ => []
  | .assign _ value => value.literals
  | .binary _ lhs rhs => lhs.literals ++ rhs.literals
  | .neg operand => operand.literals
  | .concat lhs rhs => lhs.literals ++ rhs.literals
  | .loop cond body => cond.literals ++ body.literals
  | .compare _ lhs rhs => lhs.literals ++ rhs.literals
  | .block items => literalsOfList items
  | .print items => literalsOfList items
  | .call _ args => literalsOfList args

/-- The string literals of trees that stand side by side. -/
def literalsOfList : List Node → List Text
  | [] => []
  | node :: nodes => node.literals ++ literalsOfList nodes

end

end TreeJit
