import TreeJit.Proofs.LastWrite
import TreeJit.Proofs.Offenders

/-! # Trees without assignments

A tree without assignments can only read its variable, and the one trace that a
read can leave is the text form of a number.  That is not nothing: a loop reads
its condition again after its body, so whether it ends has to be known of the
cell that the body leaves.

The non-trivial ingredient is `Evaluates.alike_of_readOnly`: whatever the body
reads, the cell holds the same value as before.  A condition that does not end
the loop at once therefore never will.

* `CompiledCode.Answers` — what a call returns and leaves, whoever calls.
* `readOnly_code_keeps_cell` — what a tree without assignments does to the cell.
-/

namespace TreeJit

open Machine (Host Registers State Vectors)

/-! ## Kinds of nodes in a tree -/

/-- The kinds of the nodes of a tree in preorder. -/
def Node.kinds (n : Node) : List NodeKind := (n.sites .free).map fun site => site.node.kind

namespace Node

/-- Which nodes there are does not depend on where the tree stands. -/
theorem kinds_sites (n : Node) (position : Position) :
    (n.sites position).map (fun site => site.node.kind) = n.kinds := by
  cases n <;> simp [kinds, sites, kind]

@[simp] theorem kinds_string (text : Text) : (Node.string text).kinds = [.string] := rfl

@[simp] theorem kinds_var (name : String) : (Node.var name).kinds = [.var] := rfl

@[simp] theorem kinds_assign (name : String) (value : Node) :
    (Node.assign name value).kinds = .assign :: value.kinds := by
  rw [← value.kinds_sites .assigned]
  rfl

@[simp] theorem kinds_concat (lhs rhs : Node) :
    (Node.concat lhs rhs).kinds = .concat :: (lhs.kinds ++ rhs.kinds) := by
  rw [← lhs.kinds_sites .string, ← rhs.kinds_sites .string, ← List.map_append]
  rfl

@[simp] theorem kinds_loop (cond body : Node) :
    (Node.loop cond body).kinds = .loop :: (cond.kinds ++ body.kinds) := by
  rw [← cond.kinds_sites .number, ← body.kinds_sites .free, ← List.map_append]
  rfl

end Node

/-! ## Cells that can be reached -/

/-- A cell that its owner and compiled code can have brought about. -/
def Cell.Reachable (cell : Cell) : Prop :=
  ∃ start init us made, Built start init ∧ InUse start us made cell

theorem Cell.Reachable.filled {cell : Cell} (reachable : cell.Reachable) : cell.Filled := by
  obtain ⟨start, init, us, made, built, inUse⟩ := reachable
  rw [inUse.eq_afterAll, built.eq_afterAll]
  exact (Cell.filled_fresh.afterAll init).afterAll made

/-! ## Evaluation that only reads -/

section evaluation

variable {bound : String} {c left : Cell} {n : Node} {value : Value}

/-- Reading a string fills the text slot if there is a variable to be read. -/
theorem Textual.left_eq (tree : Textual bound n) {t : Text}
    (value : Eval.string bound c n = some (t, left)) :
    left = if .var ∈ n.kinds then c.withText else c := by
  induction tree generalizing c t left with
  | string text =>
    cases value
    rfl
  | var =>
    rw [Eval.string, if_pos rfl] at value
    cases value
    rfl
  | concat _ _ ihLeft ihRight =>
    obtain ⟨a, b, between, first, second, -⟩ := exists_of_eval_concat value
    rw [ihRight second, ihLeft first]
    simp only [Node.kinds_concat, List.mem_cons, List.mem_append]
    split <;> split <;> simp_all

theorem Evaluates.alike_of_readOnly (evaluated : Evaluates bound c n value left)
    (readOnly : .assign ∉ n.kinds) (filled : c.Filled) : Cell.Alike c left := by
  induction evaluated with
  | number _ => exact filled.alike
  | string _ value => exact filled.eval_string value
  | assignNumber _ | assignString _ => simp at readOnly
  | loopDone _ _ => exact filled.alike
  | loopAgain _ _ _ _ ihOnce ihRest =>
    have body := readOnly
    simp only [Node.kinds_loop, List.mem_cons, List.mem_append, not_or] at body
    have once := ihOnce body.2.2 filled
    exact once.trans (ihRest readOnly once.right)

/-- A loop that only reads can do nothing but end at once. -/
theorem Evaluates.endsLoop_of_readOnly {cond body : Node}
    (evaluated : Evaluates bound c (.loop cond body) value left)
    (readOnly : .assign ∉ body.kinds) (filled : c.Filled) :
    left = c ∧ ∃ x, Eval.number bound c cond = some x ∧ Eval.endsLoop x := by
  generalize looped : Node.loop cond body = n at evaluated
  induction evaluated with
  | number value | string _ value =>
    subst looped
    cases value
  | assignNumber _ | assignString _ => cases looped
  | loopDone test done =>
    cases looped
    exact ⟨rfl, _, test, done⟩
  | loopAgain test again once _ _ ihRest =>
    cases looped
    -- The rest of the loop finds the value that this round has found.
    have alike := once.alike_of_readOnly readOnly filled
    obtain ⟨-, y, test', done⟩ := ihRest alike.right rfl
    rw [← alike.eval_number, test] at test'
    cases test'
    exact absurd done again

end evaluation

theorem Eval.endsLoop_iff (x : Double) :
    endsLoop x ↔ x = .zero ∨ x = .negativeZero ∨ x.isNaN := by
  have zero : x.isZero ↔ x = .zero ∨ x = .negativeZero := by
    constructor
    · intro isZero
      have pattern : x.pattern = 0 := by simpa [Double.isZero] using isZero
      have parts := x.ofPattern_negative_pattern
      rw [pattern] at parts
      cases sign : x.negative with
      | false => exact .inl (by rw [← parts, sign, Double.zero])
      | true => exact .inr (by rw [← parts, sign, Double.negativeZero])
    · rintro (rfl | rfl) <;> decide
  simp only [endsLoop, Bool.or_eq_true, zero, or_assoc]

/-! ## Calls -/

/-- `made.Answers cell value left`: whatever the caller and the helpers leave in registers, a call
of `made` on `cell` returns with `value` in place and leaves `left`. -/
structure CompiledCode.Answers (made : CompiledCode) (cell : Cell) (value : Value) (left : Cell) :
    Prop where
  returns : ∀ (host : Host) (registers : Registers) (vectors : Vectors) (flag : Bool), ∃ fuel s,
    Machine.run host made.program fuel (State.enter registers vectors flag cell) = .returned s ∧
      s.cell = left ∧ s.Carries made.program value
  calls : ∃ fuel, made.run fuel cell = .ok left ∧
    (∀ x, value = .number x → made.runNumber fuel cell = .ok (x, left)) ∧
    (∀ t, value = .string t → made.runString fuel cell = .ok (t, left))

section compiled

variable {config : Config} {ctx : Context} {root : Node} {made : CompiledCode} {cell left : Cell}
  {value : Value}

theorem CompiledCode.Answers.of_evaluates (compiled : (compile config ctx root).result = .ok made)
    (separates : made.program.Separates)
    (evaluated : Evaluates ctx.variableName cell root value left) :
    made.Answers cell value left := by
  have origin := compile_ok compiled
  constructor
  · intro host registers vectors flag
    obtain ⟨fuel, s, returned, finished⟩ :=
      (origin.runs separates host registers).returns vectors flag evaluated
    exact ⟨fuel, s, returned, finished.cell, finished.result.carries⟩
  · obtain ⟨fuel, s, returned, finished⟩ :=
      (origin.runs separates Host.zero .zero).returns .zero false evaluated
    obtain rfl := finished.cell
    exact ⟨fuel, origin.calls_ok returned (evaluated.kind_eq origin.tree) finished.result⟩

/-- Code without assignments only reads.  On a cell that can be reached, a number expression returns
and leaves the cell as it was.  A string expression returns, and the cell it leaves is another one
only if the expression reads the variable and the cell has no text yet: then the text form of its
number is added.  A loop returns exactly if its condition is a zero or a NaN from the start, and
then it leaves the cell as it was. -/
theorem readOnly_code_keeps_cell (compiled : (compile config ctx root).result = .ok made)
    (separates : made.program.Separates) (readOnly : .assign ∉ root.kinds)
    (reachable : cell.Reachable) :
    (made.result = .number → ∃ x, made.Answers cell (.number x) cell) ∧
    (made.result = .string → ∃ t, made.Answers cell (.string t)
      (if .var ∈ root.kinds ∧ ¬cell.hasText then
        { cell with textSlot := Cell.renderNumber cell.numberSlot, hasText := true }
      else cell)) ∧
    (∀ cond body, root = .loop cond body →
      ∃ x, Eval.number ctx.variableName cell cond = some x ∧
        (x = .zero ∨ x = .negativeZero ∨ x.isNaN → made.Answers cell .nothing cell) ∧
        ∀ (host : Host) (registers : Registers) (vectors : Vectors) (flag : Bool),
          (∃ fuel s, Machine.run host made.program fuel (State.enter registers vectors flag cell) =
            .returned s) ↔ x = .zero ∨ x = .negativeZero ∨ x.isNaN) := by
  have tree := (compile_ok compiled).tree
  refine ⟨?_, ?_, ?_⟩
  · intro number
    rw [number] at tree
    cases tree with
    | number numeric =>
      obtain ⟨x, value⟩ := numeric.eval cell
      exact ⟨x, .of_evaluates compiled separates (.number value)⟩
  · intro string
    rw [string] at tree
    cases tree with
    | text textual notVar =>
      obtain ⟨t, left, value⟩ := textual.eval cell
      have filled : (if .var ∈ root.kinds ∧ ¬cell.hasText then
          { cell with textSlot := Cell.renderNumber cell.numberSlot, hasText := true }
          else cell) = left := by
        rw [textual.left_eq value, Cell.withText]
        by_cases var : .var ∈ root.kinds <;> by_cases hasText : cell.hasText <;> simp [var, hasText]
      rw [filled]
      exact ⟨t, .of_evaluates compiled separates (.string notVar value)⟩
  · rintro cond body rfl
    obtain ⟨numeric, -⟩ := tree.of_loop
    obtain ⟨x, test⟩ := numeric.eval cell
    simp only [Node.kinds_loop, List.mem_cons, List.mem_append, not_or] at readOnly
    have done : x = .zero ∨ x = .negativeZero ∨ x.isNaN → made.Answers cell .nothing cell := by
      intro ends
      exact .of_evaluates compiled separates (.loopDone test ((Eval.endsLoop_iff x).2 ends))
    refine ⟨x, test, done, ?_⟩
    intro host registers vectors flag
    constructor
    · rintro ⟨fuel, s, returned⟩
      have runs := (compile_ok compiled).runs separates host registers
      obtain ⟨value, evaluated, -⟩ := runs.finished returned
      obtain ⟨-, y, test', ends⟩ := evaluated.endsLoop_of_readOnly readOnly.2.2 reachable.filled
      rw [test] at test'
      cases test'
      exact (Eval.endsLoop_iff x).1 ends
    · intro ends
      obtain ⟨fuel, s, returned, -⟩ := (done ends).returns host registers vectors flag
      exact ⟨fuel, s, returned⟩

/-- A loop whose body reads the variable as a string, on a cell that has a number only.  It ends for
minus zero, and it does not end for infinity, which it writes out as a text in every round. -/
theorem readOnly_loop_spins :
    ∃ made, (compile {} { variableName := "x" }
        (.loop (.var "x") (.concat (.var "x") (.var "x")))).result = .ok made ∧
      made.program.Separates ∧
      made.Answers (.ofNumber .negativeZero) .nothing (.ofNumber .negativeZero) ∧
      ∀ fuel s, Machine.run Host.zero made.program fuel
        (State.enter .zero .zero false (.ofNumber (.infinity false))) ≠ .returned s := by
  obtain ⟨made, compiled, -, separates⟩ := exists_compiled {} { variableName := "x" }
    (.loop (.var "x") (.concat (.var "x") (.var "x"))) rfl (by decide) (by decide) rfl rfl
    (by decide) rfl (by decide)
  have reachable (value : Double) : (Cell.ofNumber value).Reachable :=
    ⟨_, _, [], [], .ofNumber value, .idle .nil⟩
  refine ⟨made, compiled, separates, ?_, ?_⟩
  · obtain ⟨-, -, loop⟩ := readOnly_code_keeps_cell compiled separates (by decide)
      (reachable .negativeZero)
    obtain ⟨x, test, ends, -⟩ := loop _ _ rfl
    cases test
    exact ends (.inr (.inl rfl))
  · intro fuel s returned
    obtain ⟨-, -, loop⟩ := readOnly_code_keeps_cell compiled separates (by decide)
      (reachable (.infinity false))
    obtain ⟨x, test, -, returns⟩ := loop _ _ rfl
    cases test
    exact absurd ((returns Host.zero .zero .zero false).1 ⟨fuel, s, returned⟩) (by decide)

end compiled

end TreeJit
