import Mathlib.Data.List.Forall2
import TreeJit.Node.Equality
import TreeJit.Proofs.Capacity
import TreeJit.Proofs.Spacing

/-! # What equality of trees comes to

Trees are compared node by node, and numbers as numbers.  That is not an equality
in the strict sense: a NaN differs from itself, and two zeros with different bits
are equal.  All of this can be read off a description that has no recursion: two
trees are equal if they are the same once their numbers are wiped out, and the
numbers match one by one.  Then equality inherits what holds of the matching of
numbers, which is symmetric and transitive, and reflexive on all but NaNs.

The non-trivial ingredient is that trees which are the same without their numbers
have equally many of them (`Node.length_numbers_of_same`), so that the numbers of
one operand are never compared with those of another.

* `Node.withoutNumbers` — the shape, operators, names and strings of a tree.
* `Node.numbers` — the numbers of a tree in preorder.
* `Double.Matches` — the same number in the same bits, or two zeros.
* `tree_equality_matches_numbers` — what equality is, and which laws it obeys.
-/

namespace TreeJit

/-! ## Numbers -/

namespace Double

/-- The same bits, if they stand for a number, or two zeros. -/
def Matches (x y : Double) : Prop := x.bits = y.bits ∧ ¬x.isNaN ∨ x.isZero ∧ y.isZero

variable {x y z : Double}

theorem not_isNaN_of_isZero (zero : x.isZero) : ¬x.isNaN := by
  simp [not_isNaN_of_isFinite (isFinite_of_isZero zero)]

theorem numericEq_iff_matches : x.numericEq y ↔ x.Matches y := by
  simp only [numericEq, Bool.and_eq_true, Bool.or_eq_true, Bool.not_eq_true', decide_eq_true_eq]
  constructor
  · rintro ⟨⟨number, -⟩, rfl | zeros⟩
    · exact .inl ⟨rfl, by simp [number]⟩
    · exact .inr zeros
  · rintro (⟨same, number⟩ | ⟨zero, zero'⟩)
    · obtain rfl : x = y := congrArg Double.mk same
      exact ⟨⟨by simpa using number, by simpa using number⟩, .inl rfl⟩
    · exact ⟨⟨by simpa using not_isNaN_of_isZero zero, by simpa using not_isNaN_of_isZero zero'⟩,
        .inr ⟨zero, zero'⟩⟩

theorem matches_self_iff : x.Matches x ↔ ¬x.isNaN := by
  constructor
  · rintro (⟨-, number⟩ | ⟨zero, -⟩)
    · exact number
    · exact not_isNaN_of_isZero zero
  · intro number
    exact .inl ⟨rfl, number⟩

theorem Matches.symm (same : x.Matches y) : y.Matches x := by
  rcases same with ⟨bits, number⟩ | ⟨zero, zero'⟩
  · obtain rfl : x = y := congrArg Double.mk bits
    exact .inl ⟨rfl, number⟩
  · exact .inr ⟨zero', zero⟩

theorem Matches.trans (first : x.Matches y) (second : y.Matches z) : x.Matches z := by
  rcases first with ⟨bits, -⟩ | ⟨zero, zero'⟩
  · obtain rfl : x = y := congrArg Double.mk bits
    exact second
  · rcases second with ⟨bits, -⟩ | ⟨-, zero''⟩
    · obtain rfl : y = z := congrArg Double.mk bits
      exact .inr ⟨zero, zero'⟩
    · exact .inr ⟨zero, zero''⟩

theorem forall₂_matches_trans {xs ys zs : List Double} (first : List.Forall₂ Matches xs ys)
    (second : List.Forall₂ Matches ys zs) : List.Forall₂ Matches xs zs := by
  induction first generalizing zs with
  | nil => exact second
  | cons head _ ih =>
    obtain ⟨z, zs, head', tail, rfl⟩ := List.forall₂_cons_left_iff.1 second
    exact .cons (head.trans head') (ih tail)

end Double

/-! ## Trees and their numbers -/

mutual

/-- The numbers of a tree in preorder, each occurrence once. -/
def Node.numbers : Node → List Double
  | .number value => [value]
  | .string _ => []
  | .var _ => []
  | .assign _ value => value.numbers
  | .binary _ lhs rhs => lhs.numbers ++ rhs.numbers
  | .neg operand => operand.numbers
  | .concat lhs rhs => lhs.numbers ++ rhs.numbers
  | .loop cond body => cond.numbers ++ body.numbers
  | .compare _ lhs rhs => lhs.numbers ++ rhs.numbers
  | .block items => numbersOfList items
  | .print items => numbersOfList items
  | .call _ args => numbersOfList args

/-- The numbers of trees that stand side by side. -/
def numbersOfList : List Node → List Double
  | [] => []
  | node :: nodes => node.numbers ++ numbersOfList nodes

end

/-- Zero in place of every number. -/
def Relabeling.wipeNumbers : Relabeling := ⟨fun _ => .zero, id, id⟩

/-- All of a tree but its numbers: its shape, operators, names and strings. -/
def Node.withoutNumbers (n : Node) : Node := n.relabel .wipeNumbers

mutual

theorem Node.numbers_relabel (f : Relabeling) (n : Node) :
    (n.relabel f).numbers = n.numbers.map f.number := by
  cases n with
  | number value => rfl
  | string text => rfl
  | var name => rfl
  | assign name value => exact value.numbers_relabel f
  | neg operand => exact operand.numbers_relabel f
  | binary _ lhs rhs | concat lhs rhs | loop lhs rhs | compare _ lhs rhs =>
    rw [Node.relabel, Node.numbers, Node.numbers, List.map_append, lhs.numbers_relabel f,
      rhs.numbers_relabel f]
  | block items | print items | call _ items => exact numbersOfList_relabelAll f items

theorem numbersOfList_relabelAll (f : Relabeling) (nodes : List Node) :
    numbersOfList (relabelAll f nodes) = (numbersOfList nodes).map f.number := by
  cases nodes with
  | nil => rfl
  | cons node nodes =>
    rw [relabelAll, numbersOfList, numbersOfList, List.map_append, node.numbers_relabel f,
      numbersOfList_relabelAll f nodes]

end

theorem Node.length_numbers_of_same {a b : Node} (same : a.withoutNumbers = b.withoutNumbers) :
    a.numbers.length = b.numbers.length := by
  have wiped (n : Node) : n.withoutNumbers.numbers.length = n.numbers.length := by
    rw [withoutNumbers, numbers_relabel, List.length_map]
  rw [← wiped a, same, wiped b]

/-! ## Comparing trees -/

/-- Numbers that stand behind those of two trees are matched with each other.  `rest` is what else
is asked of the trees that they are from. -/
theorem Node.matches_append {a b : Node} {rest : Prop} {xs ys : List Double} :
    (a.withoutNumbers = b.withoutNumbers ∧ List.Forall₂ Double.Matches a.numbers b.numbers) ∧
        rest ∧ List.Forall₂ Double.Matches xs ys ↔
      (a.withoutNumbers = b.withoutNumbers ∧ rest) ∧
        List.Forall₂ Double.Matches (a.numbers ++ xs) (b.numbers ++ ys) := by
  constructor
  · rintro ⟨⟨same, front⟩, other, back⟩
    exact ⟨⟨same, other⟩, List.rel_append front back⟩
  · rintro ⟨⟨same, other⟩, all⟩
    have count := length_numbers_of_same same
    have front := List.forall₂_take_append _ _ _ all
    have back := List.forall₂_drop_append _ _ _ all
    rw [List.take_left' count] at front
    rw [List.drop_left' count] at back
    exact ⟨⟨same, front⟩, other, back⟩

mutual

theorem Node.equal_iff (a b : Node) :
    a.equal b ↔ a.withoutNumbers = b.withoutNumbers ∧
      List.Forall₂ Double.Matches a.numbers b.numbers := by
  -- Nodes of different kinds differ on both sides; the other cases follow the operands.
  cases a with
  | number x =>
    cases b with
    | number y =>
      rw [Node.equal, Double.numericEq_iff_matches]
      simp [Node.withoutNumbers, Node.relabel, Node.numbers, Relabeling.wipeNumbers]
    | _ => exact ⟨nofun, nofun⟩
  | string x =>
    cases b with
    | string y =>
      simp [Node.equal, Node.withoutNumbers, Node.relabel, Node.numbers, Relabeling.wipeNumbers]
    | _ => exact ⟨nofun, nofun⟩
  | var x =>
    cases b with
    | var y =>
      simp [Node.equal, Node.withoutNumbers, Node.relabel, Node.numbers, Relabeling.wipeNumbers]
    | _ => exact ⟨nofun, nofun⟩
  | assign x a =>
    cases b with
    | assign y b =>
      rw [Node.equal, Bool.and_eq_true, beq_iff_eq, Node.equal_iff a b]
      simp [Node.withoutNumbers, Node.relabel, Node.numbers, Relabeling.wipeNumbers, and_assoc]
    | _ => exact ⟨nofun, nofun⟩
  | binary p a₁ a₂ =>
    cases b with
    | binary q b₁ b₂ =>
      rw [Node.equal, Bool.and_eq_true, Bool.and_eq_true, decide_eq_true_eq, and_assoc,
        Node.equal_iff a₁ b₁, Node.equal_iff a₂ b₂, Node.matches_append]
      simp [Node.withoutNumbers, Node.relabel, Node.numbers, and_assoc]
    | _ => exact ⟨nofun, nofun⟩
  | neg a =>
    cases b with
    | neg b =>
      rw [Node.equal, Node.equal_iff a b]
      simp [Node.withoutNumbers, Node.relabel, Node.numbers]
    | _ => exact ⟨nofun, nofun⟩
  | concat a₁ a₂ =>
    cases b with
    | concat b₁ b₂ =>
      rw [Node.equal, Bool.and_eq_true, Node.equal_iff a₁ b₁, Node.equal_iff a₂ b₂,
        Node.matches_append]
      simp [Node.withoutNumbers, Node.relabel, Node.numbers]
    | _ => exact ⟨nofun, nofun⟩
  | loop a₁ a₂ =>
    cases b with
    | loop b₁ b₂ =>
      rw [Node.equal, Bool.and_eq_true, Node.equal_iff a₁ b₁, Node.equal_iff a₂ b₂,
        Node.matches_append]
      simp [Node.withoutNumbers, Node.relabel, Node.numbers]
    | _ => exact ⟨nofun, nofun⟩
  | compare p a₁ a₂ =>
    cases b with
    | compare q b₁ b₂ =>
      rw [Node.equal, Bool.and_eq_true, Bool.and_eq_true, decide_eq_true_eq, and_assoc,
        Node.equal_iff a₁ b₁, Node.equal_iff a₂ b₂, Node.matches_append]
      simp [Node.withoutNumbers, Node.relabel, Node.numbers, and_assoc]
    | _ => exact ⟨nofun, nofun⟩
  | block as =>
    cases b with
    | block bs =>
      rw [Node.equal, equalLists_iff as bs]
      simp [Node.withoutNumbers, Node.relabel, Node.numbers]
    | _ => exact ⟨nofun, nofun⟩
  | print as =>
    cases b with
    | print bs =>
      rw [Node.equal, equalLists_iff as bs]
      simp [Node.withoutNumbers, Node.relabel, Node.numbers]
    | _ => exact ⟨nofun, nofun⟩
  | call x as =>
    cases b with
    | call y bs =>
      rw [Node.equal, Bool.and_eq_true, beq_iff_eq, equalLists_iff as bs]
      simp [Node.withoutNumbers, Node.relabel, Node.numbers, Relabeling.wipeNumbers, and_assoc]
    | _ => exact ⟨nofun, nofun⟩

theorem equalLists_iff (as bs : List Node) :
    equalLists as bs ↔ relabelAll .wipeNumbers as = relabelAll .wipeNumbers bs ∧
      List.Forall₂ Double.Matches (numbersOfList as) (numbersOfList bs) := by
  cases as with
  | nil =>
    cases bs with
    | nil => exact ⟨fun _ => ⟨rfl, .nil⟩, fun _ => rfl⟩
    | cons b bs => exact ⟨nofun, nofun⟩
  | cons a as =>
    cases bs with
    | nil => exact ⟨nofun, nofun⟩
    | cons b bs =>
      rw [equalLists, Bool.and_eq_true, Node.equal_iff a b, equalLists_iff as bs,
        Node.matches_append, relabelAll, relabelAll, List.cons.injEq]
      rfl

end

/-! ## The laws of equality -/

variable {a b c : Node}

theorem Node.equal_self_iff : a.equal a ↔ ∀ x ∈ a.numbers, ¬x.isNaN := by
  rw [equal_iff, List.forall₂_same, eq_self_iff_true, true_and]
  exact forall₂_congr fun x _ => Double.matches_self_iff

theorem Node.equal_symm (same : a.equal b) : b.equal a := by
  obtain ⟨rest, numbers⟩ := (equal_iff a b).1 same
  exact (equal_iff b a).2 ⟨rest.symm, .flip (numbers.imp fun _ _ => Double.Matches.symm)⟩

theorem Node.equal_trans (first : a.equal b) (second : b.equal c) : a.equal c := by
  obtain ⟨rest, numbers⟩ := (equal_iff a b).1 first
  obtain ⟨rest', numbers'⟩ := (equal_iff b c).1 second
  exact (equal_iff a c).2 ⟨rest.trans rest', Double.forall₂_matches_trans numbers numbers'⟩

/-- Two trees are equal exactly if they have the same shape, operators, names and strings, and their
numbers match in corresponding places: each pair is the same number in the same bits, or two zeros.
So equality is symmetric and transitive, and a tree equals itself, or a copy of itself, exactly if
none of its numbers is a NaN, however deep it stands. -/
theorem tree_equality_matches_numbers (a b c : Node) :
    (a.equal b → b.equal a) ∧
    (a.equal b → b.equal c → a.equal c) ∧
    (a.equal a ↔ ∀ x ∈ a.numbers, ¬x.isNaN) ∧
    (a.equal b ↔ a.withoutNumbers = b.withoutNumbers ∧
      List.Forall₂ Double.Matches a.numbers b.numbers) :=
  ⟨Node.equal_symm, Node.equal_trans, Node.equal_self_iff, a.equal_iff b⟩

/-- Calls with zeros of different signs are equal, and a NaN in a block in a print makes the print
differ from itself. -/
theorem zeros_match_and_nans_do_not :
    let call (zero : Double) : Node := .call "f" [.number zero, .block [.neg (.var "x")]]
    let strange : Node := .print [.string .empty, .block [.number (.quietNaN false)]]
    (call .zero).equal (call .negativeZero) ∧ (call .negativeZero).equal (call .zero) ∧
      (call .zero).equal (call .zero) ∧ ¬strange.equal strange := by
  intro call strange
  obtain ⟨symm, trans, -, same⟩ :=
    tree_equality_matches_numbers (call .zero) (call .negativeZero) (call .zero)
  obtain ⟨-, -, self, -⟩ := tree_equality_matches_numbers strange strange strange
  have there : (call .zero).equal (call .negativeZero) :=
    same.2 ⟨rfl, .cons (.inr ⟨by decide, by decide⟩) .nil⟩
  refine ⟨there, symm there, trans there (symm there), fun equal => ?_⟩
  exact self.1 equal (.quietNaN false) (.head _) (by decide)

end TreeJit
