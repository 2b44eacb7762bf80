import TreeJit.Codegen
import TreeJit.Eval

/-! # Trees that can be compiled

The trees over one variable that become code, and the kind of value of each.

* `Numeric`, `Textual` — what can stand in number position and in string
  position; the variable can stand in both.
* `Compilable` — what can stand at the root or in the body of a loop.  A bare
  variable is a number there.
* `Codegen.node_ok_iff` — these are the trees whose script does not fail.
* `Numeric.eval`, `Textual.eval` — expressions always have a value.
-/

namespace TreeJit

/-- Trees for number position. -/
inductive Numeric (bound : String) : Node → Prop where
  | number (value : Double) : Numeric bound (.number value)
  | var : Numeric bound (.var bound)
  | binary (op : BinaryOp) {lhs rhs : Node} (left : Numeric bound lhs) (right : Numeric bound rhs) :
      Numeric bound (.binary op lhs rhs)
  | neg {operand : Node} (h : Numeric bound operand) : Numeric bound (.neg operand)

/-- Trees for string position. -/
inductive Textual (bound : String) : Node → Prop where
  | string (text : Text) : Textual bound (.string text)
  | var : Textual bound (.var bound)
  | concat {lhs rhs : Node} (left : Textual bound lhs) (right : Textual bound rhs) :
      Textual bound (.concat lhs rhs)

/-- Trees for a position that takes any kind of value, with their kind. -/
inductive Compilable (bound : String) : ValueKind → Node → Prop where
  | number {n : Node} (h : Numeric bound n) : Compilable bound .number n
  | text {n : Node} (h : Textual bound n) (notVar : ∀ name, n ≠ .var name) :
      Compilable bound .string n
  | assignNumber {value : Node} (h : Numeric bound value) :
      Compilable bound .statement (.assign bound value)
  | assignText {value : Node} (h : Textual bound value) (notVar : ∀ name, value ≠ .var name) :
      Compilable bound .statement (.assign bound value)
  | loop {cond body : Node} {kind : ValueKind} (test : Numeric bound cond)
      (repeated : Compilable bound kind body) : Compilable bound .statement (.loop cond body)

/-! ## Which scripts do not fail -/

namespace Script

variable {α β : Type}

theorem outcome_bind (s : Script α) (next : α → Script β) :
    (s >>= next).outcome = s.outcome.bind fun a => (next a).outcome := by
  change (Script.bind s next).outcome = _
  cases outcome : s.outcome with
  | error e => rw [bind_of_error outcome]; rfl
  | ok a => rw [bind_of_ok outcome]; rfl

theorem bind_ok_iff {s : Script α} {next : α → Script β} {b : β} :
    (s >>= next).outcome = .ok b ↔ ∃ a, s.outcome = .ok a ∧ (next a).outcome = .ok b := by
  rw [outcome_bind]
  cases s.outcome with
  | error e => exact ⟨nofun, nofun⟩
  | ok a =>
    refine ⟨fun h => ⟨a, rfl, h⟩, ?_⟩
    rintro ⟨_, ⟨⟩, h⟩
    exact h

end Script

theorem Numeric.valueKind {bound : String} {n : Node} (h : Numeric bound n) :
    n.valueKind.outcome = .ok .number := by
  cases h <;> rfl

theorem Textual.valueKind {bound : String} {n : Node} (h : Textual bound n)
    (notVar : ∀ name, n ≠ .var name) : n.valueKind.outcome = .ok .string := by
  cases h with
  | var => exact absurd rfl (notVar _)
  | string _ | concat _ _ => rfl

namespace Codegen

open Script (bind_ok_iff)
open X86 (Instr)

variable {scope : Scope}

theorem checkBound_ok_iff {name : String} :
    (checkBound scope name).outcome = .ok () ↔ name = scope.bound := by
  unfold checkBound
  split
  case isTrue h => exact ⟨fun _ => h, fun _ => rfl⟩
  case isFalse h => exact ⟨nofun, fun h' => absurd h' h⟩

theorem applyOp_ok (op : BinaryOp) : (applyOp op).outcome = .ok () := by cases op <;> rfl

/-- Two operands, the first of which waits on the stack, fail only if one of them does. -/
theorem spilled_ok_iff {lhs rhs finish : Script Unit} {i j : Instr}
    (finished : finish.outcome = .ok ()) :
    (lhs >>= fun _ => Script.emit i >>= fun _ => Script.emit j >>= fun _ => rhs >>= fun _ =>
      finish).outcome = .ok () ↔ lhs.outcome = .ok () ∧ rhs.outcome = .ok () := by
  constructor
  · intro h
    obtain ⟨_, left, h⟩ := bind_ok_iff.1 h
    obtain ⟨_, _, h⟩ := bind_ok_iff.1 h
    obtain ⟨_, _, h⟩ := bind_ok_iff.1 h
    obtain ⟨_, right, _⟩ := bind_ok_iff.1 h
    exact ⟨left, right⟩
  · rintro ⟨left, right⟩
    refine bind_ok_iff.2 ⟨_, left, bind_ok_iff.2 ⟨(), rfl, bind_ok_iff.2 ⟨(), rfl, ?_⟩⟩⟩
    exact bind_ok_iff.2 ⟨_, right, finished⟩

theorem binary_ok_iff {op : BinaryOp} {lhs rhs : Script Unit} :
    (binary op lhs rhs).outcome = .ok () ↔ lhs.outcome = .ok () ∧ rhs.outcome = .ok () :=
  spilled_ok_iff (bind_ok_iff.2 ⟨(), rfl, bind_ok_iff.2 ⟨(), rfl, applyOp_ok op⟩⟩)

theorem concat_ok_iff {lhs rhs : Script Unit} :
    (concat lhs rhs).outcome = .ok () ↔ lhs.outcome = .ok () ∧ rhs.outcome = .ok () :=
  spilled_ok_iff rfl

theorem negate_ok_iff {operand : Script Unit} :
    (negate operand).outcome = .ok () ↔ operand.outcome = .ok () := by
  constructor
  · intro h
    obtain ⟨_, operand, _⟩ := bind_ok_iff.1 h
    exact operand
  · intro h
    exact bind_ok_iff.2 ⟨_, h, rfl⟩

theorem loop_ok_iff {cond : Script Unit} {body : Script ValueKind} :
    (loop cond body).outcome = .ok () ↔
      cond.outcome = .ok () ∧ ∃ kind, body.outcome = .ok kind := by
  constructor
  · intro h
    obtain ⟨_, test, h⟩ := bind_ok_iff.1 h
    obtain ⟨kind, repeated, _⟩ := bind_ok_iff.1 h
    obtain ⟨_, test, _⟩ := bind_ok_iff.1 test
    exact ⟨test, kind, repeated⟩
  · rintro ⟨test, kind, repeated⟩
    exact bind_ok_iff.2 ⟨(), bind_ok_iff.2 ⟨_, test, rfl⟩, bind_ok_iff.2 ⟨kind, repeated, rfl⟩⟩

theorem number_ok_iff {n : Node} :
    (number scope n).outcome = .ok () ↔ Numeric scope.bound n := by
  induction n using number.induct with
  | case1 value => exact ⟨fun _ => .number value, fun _ => rfl⟩
  | case2 name =>
    constructor
    · intro h
      obtain ⟨_, bound, _⟩ := bind_ok_iff.1 h
      rw [checkBound_ok_iff.1 bound]
      exact .var
    · rintro ⟨⟩
      exact bind_ok_iff.2 ⟨(), checkBound_ok_iff.2 rfl, rfl⟩
  | case3 op lhs rhs left right =>
    rw [number, binary_ok_iff, left, right]
    refine ⟨fun h => .binary op h.1 h.2, ?_⟩
    rintro ⟨⟩
    exact ⟨‹_›, ‹_›⟩
  | case4 operand ih =>
    rw [number, negate_ok_iff, ih]
    refine ⟨.neg, ?_⟩
    rintro ⟨⟩
    assumption
  | case5 | case6 | case7 | case8 | case9 | case10 | case11 | case12 => exact ⟨nofun, nofun⟩

theorem string_ok_iff {n : Node} :
    (string scope n).outcome = .ok () ↔ Textual scope.bound n := by
  induction scope, n using string.induct with
  | case1 scope text => exact ⟨fun _ => .string text, fun _ => rfl⟩
  | case2 scope name =>
    constructor
    · intro h
      obtain ⟨_, bound, _⟩ := bind_ok_iff.1 h
      rw [checkBound_ok_iff.1 bound]
      exact .var
    · rintro ⟨⟩
      exact bind_ok_iff.2 ⟨(), checkBound_ok_iff.2 rfl, rfl⟩
  | case3 scope lhs rhs left right =>
    rw [string, concat_ok_iff, left, right]
    refine ⟨fun h => .concat h.1 h.2, ?_⟩
    rintro ⟨⟩
    exact ⟨‹_›, ‹_›⟩
  | case4 | case5 | case6 | case7 | case8 | case9 | case10 | case11 | case12 =>
    exact ⟨nofun, nofun⟩

theorem assign_ok_iff {name : String} {value : Node} :
    (assign scope name value).outcome = .ok () ↔
      Compilable scope.bound .statement (.assign name value) := by
  constructor
  · intro h
    obtain ⟨_, bound, h⟩ := bind_ok_iff.1 h
    obtain ⟨kind, valueKind, h⟩ := bind_ok_iff.1 h
    rw [checkBound_ok_iff.1 bound]
    cases kind with
    | number =>
      obtain ⟨_, value, _⟩ := bind_ok_iff.1 h
      exact .assignNumber (number_ok_iff.1 value)
    | string =>
      obtain ⟨_, value, _⟩ := bind_ok_iff.1 h
      -- A bare variable is taken for a number, so it is not what is assigned as a string.
      refine .assignText (string_ok_iff.1 value) ?_
      rintro name rfl
      cases valueKind
    | statement => cases h
  · intro h
    cases h with
    | assignNumber h =>
      have kind := h.valueKind
      refine bind_ok_iff.2 ⟨(), checkBound_ok_iff.2 rfl, bind_ok_iff.2 ⟨_, kind, ?_⟩⟩
      exact bind_ok_iff.2 ⟨(), number_ok_iff.2 h, rfl⟩
    | assignText h notVar =>
      have kind := h.valueKind notVar
      refine bind_ok_iff.2 ⟨(), checkBound_ok_iff.2 rfl, bind_ok_iff.2 ⟨_, kind, ?_⟩⟩
      exact bind_ok_iff.2 ⟨(), string_ok_iff.2 h, rfl⟩

/-- The script of a tree ends well exactly for the trees of the grammar. -/
theorem node_ok_iff {n : Node} {kind : ValueKind} :
    (node scope n).outcome = .ok kind ↔ Compilable scope.bound kind n := by
  induction scope, n using node.induct generalizing kind with
  | case1 scope name value =>
    rw [node, bind_ok_iff]
    constructor
    · rintro ⟨_, assigned, ⟨⟩⟩
      exact assign_ok_iff.1 assigned
    · intro h
      cases h with
      | number h => cases h
      | text h _ => cases h
      | assignNumber h => exact ⟨(), assign_ok_iff.2 (.assignNumber h), rfl⟩
      | assignText h notVar => exact ⟨(), assign_ok_iff.2 (.assignText h notVar), rfl⟩
  | case2 scope cond body ih =>
    rw [node, bind_ok_iff]
    constructor
    · rintro ⟨_, looped, ⟨⟩⟩
      obtain ⟨test, kind, repeated⟩ := loop_ok_iff.1 looped
      exact .loop (number_ok_iff.1 test) (ih.1 repeated)
    · intro h
      cases h with
      | number h => cases h
      | text h _ => cases h
      | loop test repeated =>
        exact ⟨(), loop_ok_iff.2 ⟨number_ok_iff.2 test, _, ih.2 repeated⟩, rfl⟩
  | case3 scope n notAssign notLoop =>
    rw [node, bind_ok_iff]
    · constructor
      · rintro ⟨kind', valueKind, h⟩
        cases kind' with
        | number =>
          obtain ⟨_, value, ⟨⟩⟩ := bind_ok_iff.1 h
          exact .number (number_ok_iff.1 value)
        | string =>
          obtain ⟨_, value, ⟨⟩⟩ := bind_ok_iff.1 h
          -- As above, a bare variable at the root is taken for a number.
          refine .text (string_ok_iff.1 value) ?_
          rintro name rfl
          cases valueKind
        | statement => cases h
      · intro h
        cases h with
        | number h =>
          exact ⟨_, h.valueKind, bind_ok_iff.2 ⟨(), number_ok_iff.2 h, rfl⟩⟩
        | text h notVar =>
          exact ⟨_, h.valueKind notVar, bind_ok_iff.2 ⟨(), string_ok_iff.2 h, rfl⟩⟩
        | assignNumber _ | assignText _ _ => exact (notAssign _ _ rfl).elim
        | loop _ _ => exact (notLoop _ _ rfl).elim
    · exact notAssign
    · exact notLoop

end Codegen

/-! ## Values of expressions -/

theorem Numeric.eval {bound : String} {n : Node} (h : Numeric bound n) (cell : Cell) :
    ∃ x, Eval.number bound cell n = some x := by
  induction h with
  | number value => exact ⟨value, rfl⟩
  | var => exact ⟨cell.number, if_pos rfl⟩
  | binary op _ _ left right =>
    obtain ⟨a, left⟩ := left
    obtain ⟨b, right⟩ := right
    exact ⟨Eval.applyOp op a b, by simp [Eval.number, left, right]⟩
  | neg _ ih =>
    obtain ⟨x, ih⟩ := ih
    exact ⟨Double.negativeZero.sub x, by simp [Eval.number, ih]⟩

theorem Textual.eval {bound : String} {n : Node} (h : Textual bound n) (cell : Cell) :
    ∃ t left, Eval.string bound cell n = some (t, left) := by
  induction h generalizing cell with
  | string text => exact ⟨text, cell, rfl⟩
  | var => exact ⟨cell.text, cell.withText, if_pos rfl⟩
  | concat _ _ left right =>
    obtain ⟨a, between, left⟩ := left cell
    obtain ⟨b, after, right⟩ := right between
    exact ⟨a ++ b, after, by simp [Eval.string, left, right]⟩

theorem Textual.eval_number {bound : String} {n : Node} (h : Textual bound n)
    (notVar : ∀ name, n ≠ .var name) (cell : Cell) : Eval.number bound cell n = none := by
  cases h with
  | var => exact absurd rfl (notVar _)
  | string _ | concat _ _ => rfl

theorem Numeric.eval_string {bound : String} {n : Node} (h : Numeric bound n)
    (notVar : ∀ name, n ≠ .var name) (cell : Cell) : Eval.string bound cell n = none := by
  cases h with
  | var => exact absurd rfl (notVar _)
  | number _ | binary _ _ _ | neg _ => rfl

theorem Compilable.numeric {bound : String} {kind : ValueKind} {n : Node} {cell : Cell} {x : Double}
    (h : Compilable bound kind n) (value : Eval.number bound cell n = some x) :
    Numeric bound n ∧ kind = .number := by
  cases h with
  | number h => exact ⟨h, rfl⟩
  | text h notVar =>
    rw [h.eval_number notVar] at value
    cases value
  | assignNumber _ | assignText _ _ | loop _ _ => cases value

theorem Compilable.textual {bound : String} {kind : ValueKind} {n : Node} {cell left : Cell}
    {t : Text} (h : Compilable bound kind n) (notVar : ∀ name, n ≠ .var name)
    (value : Eval.string bound cell n = some (t, left)) : Textual bound n ∧ kind = .string := by
  cases h with
  | number h =>
    rw [h.eval_string notVar] at value
    cases value
  | text h _ => exact ⟨h, rfl⟩
  | assignNumber _ | assignText _ _ | loop _ _ => cases value

theorem Compilable.of_assign {bound name : String} {kind : ValueKind} {value : Node}
    (h : Compilable bound kind (.assign name value)) :
    Numeric bound value ∨ Textual bound value ∧ ∀ name, value ≠ .var name := by
  cases h with
  | number h => cases h
  | text h _ => cases h
  | assignNumber h => exact .inl h
  | assignText h notVar => exact .inr ⟨h, notVar⟩

theorem Compilable.of_loop {bound : String} {kind : ValueKind} {cond body : Node}
    (h : Compilable bound kind (.loop cond body)) :
    Numeric bound cond ∧ ∃ kind, Compilable bound kind body := by
  cases h with
  | number h => cases h
  | text h _ => cases h
  | loop test repeated => exact ⟨test, _, repeated⟩

end TreeJit
