import Mathlib.Logic.Relation
import TreeJit.Proofs.ReadOnly

/-! # What string trees spell

A tree of concatenations spells its leaves from left to right.  How the
concatenations are nested makes no difference, and neither does where a literal
is cut into two, since bytes are joined as they are and read as characters only
when the whole string is there.

Reading the variable as a string fills the cell's text slot, so later leaves find
another cell than the first one did.  They find the same text in it
(`Cell.text_withText`).

* `Node.leaves`, `Leaf.joined` — the leaves of a string tree, and their bytes.
* `Leaf.Regrouped` — leaves that differ in the cuts between literals only.
* `string_tree_spells_leaves` — what string trees return and what is left of them
  in the variable.
-/

namespace TreeJit

/-- A leaf of a string tree. -/
inductive Leaf where
  | literal (text : Text)
  | var

/-- The leaves of a string tree from left to right. -/
def Node.leaves : Node → List Leaf
  | .string text => [.literal text]
  | .var _ => [.var]
  | .concat lhs rhs => lhs.leaves ++ rhs.leaves
  | _ => []

namespace Leaf

/-- The bytes of a leaf, if the variable is the given cell. -/
def bytes (cell : Cell) : Leaf → List UInt8
  | .literal text => text.bytes
  | .var => cell.text.bytes

def joined (cell : Cell) (leaves : List Leaf) : List UInt8 := leaves.flatMap (bytes cell)

@[simp] theorem joined_nil (cell : Cell) : joined cell [] = [] := rfl

@[simp] theorem joined_cons (cell : Cell) (leaf : Leaf) (leaves : List Leaf) :
    joined cell (leaf :: leaves) = leaf.bytes cell ++ joined cell leaves := List.flatMap_cons

@[simp] theorem joined_append (cell : Cell) (first second : List Leaf) :
    joined cell (first ++ second) = joined cell first ++ joined cell second := List.flatMap_append

theorem joined_congr {c d : Cell} (same : c.text = d.text) (leaves : List Leaf) :
    joined c leaves = joined d leaves := by
  have bytes : bytes c = bytes d := by
    funext leaf
    cases leaf with
    | literal text => rfl
    | var => simp [Leaf.bytes, same]
  simp [joined, bytes]

/-! ## Cutting literals -/

/-- One literal is cut into two, anywhere among its bytes. -/
inductive Cut : List Leaf → List Leaf → Prop where
  | intro (before after : List Leaf) (a b : Text) :
      Cut (before ++ .literal (a ++ b) :: after) (before ++ .literal a :: .literal b :: after)

/-- The same leaves, up to literals that are cut or put together. -/
def Regrouped : List Leaf → List Leaf → Prop := Relation.EqvGen Cut

theorem Cut.joined_eq {first second : List Leaf} (cut : Cut first second) (cell : Cell) :
    joined cell first = joined cell second := by
  cases cut with
  | intro before after a b => simp [bytes]

theorem Regrouped.joined_eq {first second : List Leaf} (regrouped : Regrouped first second)
    (cell : Cell) : joined cell first = joined cell second := by
  induction regrouped with
  | rel _ _ cut => exact cut.joined_eq cell
  | refl _ => rfl
  | symm _ _ _ ih => exact ih.symm
  | trans _ _ _ _ _ first second => exact first.trans second

end Leaf

/-! ## Evaluation -/

@[simp] theorem Cell.text_withText (c : Cell) : c.withText.text = c.text := by
  rw [text, withText_withText, text]

theorem Text.eq_of_bytes {s t : Text} (same : s.bytes = t.bytes) : s = t := by
  cases s
  cases t
  simpa using same

section evaluation

variable {bound : String} {c left : Cell} {n : Node} {t : Text}

/-- Only a variable is both a string and a number. -/
theorem Textual.eq_var {bound' : String} (textual : Textual bound n) (numeric : Numeric bound' n) :
    ∃ name, n = .var name := by
  cases textual with
  | var => exact ⟨bound, rfl⟩
  | string _ | concat _ _ => cases numeric

theorem Textual.text_left (tree : Textual bound n)
    (value : Eval.string bound c n = some (t, left)) : left.text = c.text := by
  rw [tree.left_eq value]
  split <;> simp

theorem Textual.bytes_eq (tree : Textual bound n)
    (value : Eval.string bound c n = some (t, left)) : t.bytes = Leaf.joined c n.leaves := by
  induction tree generalizing c t left with
  | string text =>
    cases value
    simp [Node.leaves, Leaf.bytes]
  | var =>
    rw [Eval.string, if_pos rfl] at value
    cases value
    simp [Node.leaves, Leaf.bytes]
  | concat leftTree _ ihLeft ihRight =>
    obtain ⟨a, b, between, first, second, rfl⟩ := exists_of_eval_concat value
    -- The right operand is read from the cell that the left one leaves.
    have same := Leaf.joined_congr (leftTree.text_left first)
    rw [Text.bytes_append, ihLeft first, ihRight second, same, Node.leaves, Leaf.joined_append]

end evaluation

/-! ## Routines -/

namespace Routine

variable {f : Routine}

/-- The tree of a routine that returns a string. -/
theorem textual (string : f.code.result = .string) :
    Textual f.context.variableName f.root ∧ ∀ name, f.root ≠ .var name := by
  have tree := (compile_ok f.compiled).tree
  rw [string] at tree
  cases tree with
  | text textual notVar => exact ⟨textual, notVar⟩

theorem spells (string : f.code.result = .string) (cell : Cell) :
    ∃ t left, t.bytes = Leaf.joined cell f.root.leaves ∧ f.code.Answers cell (.string t) left := by
  obtain ⟨tree, notVar⟩ := textual string
  obtain ⟨t, left, value⟩ := tree.eval cell
  exact ⟨t, left, tree.bytes_eq value, .of_evaluates f.compiled f.separates (.string notVar value)⟩

end Routine

theorem CompiledCode.runString_unique {made : CompiledCode} {m n : Nat} {cell : Cell}
    {r r' : Text × Cell} (first : made.runString m cell = .ok r)
    (second : made.runString n cell = .ok r') : r = r' := by
  obtain ⟨_, -, first⟩ := Machine.exists_of_bind_ok first
  obtain ⟨_, -, second⟩ := Machine.exists_of_bind_ok second
  obtain ⟨s, executed, first⟩ := Machine.exists_of_bind_ok first
  obtain ⟨s', executed', second⟩ := Machine.exists_of_bind_ok second
  -- Both calls come from the same run.
  have same : s = s' := by
    unfold execute at executed executed'
    split at executed <;> cases executed
    split at executed' <;> cases executed'
    exact Machine.returned_unique ‹_› ‹_›
  subst same
  exact Except.ok.inj (first.symm.trans second)

/-- A string tree spells its leaves.  A function that returns a string gives its caller the leaves
of its tree joined from left to right, a leaf that is the variable being what the cell's text is at
the start, and the characters are those of the joined bytes.  Trees whose leaves differ in the cuts
between literals only give the same text.  Assigned to the variable, each of them leaves a cell that
has a text only, and that text has exactly these bytes. -/
theorem string_tree_spells_leaves (f : Routine) (string : f.code.result = .string) (cell : Cell) :
    (∃ t left, f.code.Answers cell (.string t) left ∧
      t.bytes = Leaf.joined cell f.root.leaves ∧
      t.chars = Text.Utf8.decode (Leaf.joined cell f.root.leaves)) ∧
    ∀ g : Routine, g.code.result = .string → Leaf.Regrouped f.root.leaves g.root.leaves →
      (∀ m n t t' left left', f.code.runString m cell = .ok (t, left) →
        g.code.runString n cell = .ok (t', left') → t = t') ∧
      ∀ h : Routine, h.root = .assign h.context.variableName g.root →
        ∃ left, h.code.Answers cell .nothing left ∧ left.hasText ∧ ¬left.hasNumber ∧
          left.textSlot.bytes = Leaf.joined cell f.root.leaves := by
  obtain ⟨t, left, bytes, answers⟩ := Routine.spells string cell
  refine ⟨⟨t, left, answers, bytes, by rw [Text.chars, bytes]⟩, ?_⟩
  intro g string' regrouped
  have joined := regrouped.joined_eq cell
  obtain ⟨t', left', bytes', answers'⟩ := Routine.spells string' cell
  constructor
  · intro m n u u' kept kept' called called'
    obtain ⟨fuel, -, -, spelled⟩ := answers.calls
    obtain ⟨fuel', -, -, spelled'⟩ := answers'.calls
    cases CompiledCode.runString_unique called (spelled t rfl)
    cases CompiledCode.runString_unique called' (spelled' t' rfl)
    apply Text.eq_of_bytes
    rw [bytes, bytes', joined]
  · intro h root
    obtain ⟨textual, notVar⟩ := Routine.textual string'
    have tree := (compile_ok h.compiled).tree
    rw [root] at tree
    have assigned : Textual h.context.variableName g.root := by
      rcases tree.of_assign with numeric | ⟨assigned, -⟩
      · obtain ⟨name, var⟩ := textual.eq_var numeric
        exact absurd var (notVar name)
      · exact assigned
    obtain ⟨u, between, value⟩ := assigned.eval cell
    have evaluated : Evaluates h.context.variableName cell h.root .nothing (between.setText u) := by
      rw [root]
      exact .assignString (.string notVar value)
    refine ⟨_, .of_evaluates h.compiled h.separates evaluated, rfl, Bool.false_ne_true, ?_⟩
    rw [joined]
    exact assigned.bytes_eq value

/-- A character of two bytes, joined to the variable as a whole and in two parts. -/
theorem split_character_spelled :
    ∃ f g : Routine,
      f.root = .concat (.string ⟨[0xC3, 0xA9], by decide⟩) (.var "x") ∧
      g.root = .concat (.string ⟨[0xC3], by decide⟩)
        (.concat (.string ⟨[0xA9], by decide⟩) (.var "x")) ∧
      (∃ t left, f.code.Answers (.ofText ⟨[0x78], by decide⟩) (.string t) left ∧
        t.chars = ['é', 'x']) ∧
      ∀ m n t t' left left', f.code.runString m (.ofText ⟨[0x78], by decide⟩) = .ok (t, left) →
        g.code.runString n (.ofText ⟨[0x78], by decide⟩) = .ok (t', left') → t = t' := by
  have compiled (root : Node) (verdict : root.verdict "x" = .ok .string)
      (fits : Codegen.functionExtent "x" root ≤ 4096) (few : root.literals.length ≤ 2) :
      ∃ f : Routine, f.root = root ∧ f.code.result = .string := by
    obtain ⟨made, compiled, result, separates⟩ := exists_compiled {} { variableName := "x" } root
      rfl (by decide) (by decide) rfl verdict fits rfl (by simp only [Nat.zero_add]; omega)
    exact ⟨⟨_, _, root, made, compiled, separates⟩, rfl, result⟩
  obtain ⟨f, whole, string⟩ := compiled (.concat (.string ⟨[0xC3, 0xA9], by decide⟩) (.var "x")) rfl
    (by decide) (by decide)
  obtain ⟨g, parts, string'⟩ := compiled (.concat (.string ⟨[0xC3], by decide⟩)
    (.concat (.string ⟨[0xA9], by decide⟩) (.var "x"))) rfl (by decide) (by decide)
  have regrouped : Leaf.Regrouped f.root.leaves g.root.leaves := by
    rw [whole, parts]
    exact .rel _ _ (.intro [] [.var] ⟨[0xC3], by decide⟩ ⟨[0xA9], by decide⟩)
  obtain ⟨⟨t, left, answers, -, chars⟩, others⟩ :=
    string_tree_spells_leaves f string (.ofText ⟨[0x78], by decide⟩)
  rw [whole] at chars
  exact ⟨f, g, whole, parts, ⟨t, left, answers, chars⟩, (others g string' regrouped).1⟩

end TreeJit
