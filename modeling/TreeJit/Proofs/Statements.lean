import TreeJit.Proofs.Expressions

/-! # Running the code of trees

Assignments and loops, and with them whole trees.  A tree's code does what the
evaluation rules say, in both directions:

* `Activation.reaches_node` — if the tree evaluates to something, its code gets
  to its end with that result.  The induction is on the evaluation.
* `Activation.leads_node` — its code stays on track for any number of steps, and
  if it gets to its end, the tree evaluates to what it has there.  The induction
  is on the tree, and on the number of steps for a loop.
-/

namespace TreeJit

open X86 (Instr codeSize codeSize_append)
open Layout (level effect loopTest loopTail loopSize)
open Machine

/-! ## Conditions -/

/-- Comparing with zero tells whether a loop ends. -/
theorem Double.equalOrUnordered_zero (x : Double) :
    x.equalOrUnordered .zero = Eval.endsLoop x := by
  have number : Double.zero.isNaN = false := by decide
  have isZero : Double.zero.isZero = true := by decide
  have same : x = .zero → x.isZero = true := by
    rintro rfl
    exact isZero
  unfold equalOrUnordered Eval.endsLoop numericEq
  rw [number, isZero]
  by_cases h : x = .zero
  · simp [same h]
  · cases x.isNaN <;> simp [h]

/-! ## Results -/

/-- The kind of a value. -/
def Value.kind : Value → ValueKind
  | .number _ => .number
  | .string _ => .string
  | .nothing => .statement

theorem Evaluates.kind_eq {bound : String} {kind : ValueKind} {cell left : Cell} {n : Node}
    {value : Value} (evaluated : Evaluates bound cell n value left)
    (tree : Compilable bound kind n) : value.kind = kind := by
  cases evaluated with
  | number value => exact (tree.numeric value).2.symm
  | string notVar value => exact (tree.textual notVar value).2.symm
  | assignNumber _ | assignString _ =>
    cases tree with
    | number h => cases h
    | text h _ => cases h
    | assignNumber _ | assignText _ _ => rfl
  | loopDone _ _ | loopAgain _ _ _ _ =>
    cases tree with
    | number h => cases h
    | text h _ => cases h
    | loop _ _ => rfl

namespace Machine

/-- Where code leaves its result: a number in `xmm0`, a reference to a string in `rax`. -/
def Delivers (p : Program) (s : State) (first : Nat) (n : Node) : Value → Prop
  | .number x => s.vectors.xmm0 = x
  | .string t => Holds p s s.registers.rax t ∧ ComesFrom p s first s.registers.rax n
  | .nothing => True

theorem ComesFrom.of_sameWorld {p : Program} {s s' : State} {first : Nat} {w : Word} {n : Node}
    (h : ComesFrom p s first w n) (same : SameWorld s s') : ComesFrom p s' first w n := by
  cases n with
  | string _ => exact h
  | concat _ _ => exact ⟨same.heap ▸ h.1, same.heap ▸ h.2⟩
  | _ => exact h.trans (congrArg Word.slot same.version.symm)

/-- A result stays where it is as long as the registers that hold it and the world do. -/
theorem Delivers.of_sameWorld {p : Program} {s s' : State} {first : Nat} {n : Node} {value : Value}
    (h : Delivers p s first n value) (same : SameWorld s s')
    (rax : s'.registers.rax = s.registers.rax) (vectors : s'.vectors = s.vectors) :
    Delivers p s' first n value := by
  cases value with
  | number x => exact (congrArg Vectors.xmm0 vectors).trans h
  | string t => exact ⟨rax ▸ h.1.extend same.extends, rax ▸ h.2.of_sameWorld same⟩
  | nothing => trivial

end Machine

namespace Activation

variable {a : Activation} {before after : List Instr} {s s' : State} {first : Nat} {n : Node}

/-- The code of a tree stands behind `before` in the function. -/
structure Placed (a : Activation) (before after : List Instr) (n : Node) (first : Nat) : Prop where
  split : a.instrs = before ++ (Layout.node a.program.linkage first n ++ after)
  aligned : level before % 16 = 8
  compact : Layout.Compact a.program.linkage first n
  listed : a.program.literals.Lists first n.literals

/-- The code of a tree has come to its end. -/
structure Ran (a : Activation) (before : List Instr) (n : Node) (first : Nat) (value : Value)
    (left : Cell) (s' : State) : Prop where
  poised : a.Poised (before ++ Layout.node a.program.linkage first n) s'
  cell : s'.cell = left
  result : Delivers a.program s' first n value

/-! ## Assignments -/

theorem reaches_assignNumber {bound : String} {value : Node} (h : Numeric bound value) {x : Double}
    (placed : a.Placed before after (.assign bound value) first) (poised : a.Poised before s)
    (evaluated : Eval.number bound s.cell value = some x) :
    a.Reaches (a.Ran before (.assign bound value) first .nothing (s.cell.setNumber x)) s := by
  have code : Layout.node a.program.linkage first (.assign bound value) =
      Layout.number a.program.linkage value ++
        Layout.callOnCell a.program.linkage .writeNumber := Layout.assign_of_numeric first h
  have split := placed.split
  rw [code, List.append_assoc] at split
  have aligned := placed.aligned
  refine (reaches_number h split poised aligned evaluated).bind fun s₁ done => ?_
  refine reaches_callOnCell (split_append split) done.poised (by simpa using aligned) rfl ?_
  rintro s₂ poised ⟨cell, -, -⟩ -
  have written : s₂.cell = s₁.cell.setNumber s₁.vectors.xmm0 := cell
  refine .arrive ⟨?_, ?_, trivial⟩
  · rw [code, ← List.append_assoc]
    exact poised
  · rw [written, done.value, done.world.cell]

/-- A string other than the variable is no reference to the cell's text. -/
theorem ne_slot_of_comesFrom {bound : String} {p : Program} {w : Word} (h : Textual bound n)
    (notVar : ∀ name, n ≠ .var name) (source : ComesFrom p s first w n) (version : Nat) :
    w ≠ .slot version := by
  cases h with
  | var => exact absurd rfl (notVar _)
  | string _ => rw [show w = .bits _ from source]; nofun
  | concat _ _ => rw [source.1]; nofun

theorem reaches_assignText {bound : String} {value : Node} (h : Textual bound value)
    (notVar : ∀ name, value ≠ .var name) {t : Text} {left : Cell}
    (placed : a.Placed before after (.assign bound value) first) (poised : a.Poised before s)
    (evaluated : Eval.string bound s.cell value = some (t, left)) :
    a.Reaches (a.Ran before (.assign bound value) first .nothing (left.setText t)) s := by
  have code : Layout.node a.program.linkage first (.assign bound value) =
      Layout.string a.program.linkage first value ++ ([Instr.mov .rsi .rax] ++
        Layout.callOnCell a.program.linkage .writeString) := Layout.assign_of_textual first h notVar
  have split := placed.split
  rw [code, List.append_assoc, List.append_assoc] at split
  have split₁ := split_append split
  have aligned := placed.aligned
  refine (reaches_string h split poised aligned placed.listed evaluated).bind fun s₁ done => ?_
  refine .quiet split₁ done.poised rfl (.setRegister _ _ rfl) rfl rfl fun poised => ?_
  refine reaches_callOnCell (split_cons split₁) poised (by simpa [effect] using aligned) ?_ ?_
  -- The string is a literal or a block: a bare variable would have been assigned as a number.
  · refine ⟨rfl, ⟨t, ?_⟩, ne_slot_of_comesFrom h notVar done.source⟩
    exact (textAt_of_sameWorld ⟨rfl, rfl, rfl⟩ s₁.registers.rax).trans done.text.text
  · rintro s₂ poised ⟨t', text, cell, -, -⟩ -
    have followed : State.textAt a.program s₁ s₁.registers.rax = .ok t' :=
      (textAt_of_sameWorld ⟨rfl, rfl, rfl⟩ s₁.registers.rax).symm.trans text
    obtain rfl : t = t' := Except.ok.inj (done.text.text.symm.trans followed)
    have written : s₂.cell = s₁.cell.setText t := cell
    refine .arrive ⟨?_, ?_, trivial⟩
    · rw [code, ← List.append_assoc, ← List.append_assoc]
      exact poised
    · rw [written, done.cell]

/-! ## Loops -/

section loop

variable {cond body : Node}

/-- The code of a loop's condition, up to the exit. -/
def testCode (a : Activation) (first : Nat) (cond body : Node) : List Instr :=
  loopTest (Layout.number a.program.linkage cond)
    (loopTail (Layout.node a.program.linkage (first + cond.literals.length) body))

/-- The jump at the end of a loop. -/
def jumpBack (a : Activation) (first : Nat) (cond body : Node) : Instr :=
  .jmp (Int32.ofInt (-loopSize (Layout.number a.program.linkage cond)
    (Layout.node a.program.linkage (first + cond.literals.length) body)))

theorem node_loop : Layout.node a.program.linkage first (.loop cond body) =
    a.testCode first cond body ++ (Layout.node a.program.linkage (first + cond.literals.length) body
      ++ [a.jumpBack first cond body]) := rfl

theorem level_testCode : level (a.testCode first cond body) = 0 := by
  rw [testCode, Layout.level_loopTest, Layout.level_number]

theorem codeSize_node_loop : codeSize (Layout.node a.program.linkage first (.loop cond body)) =
    codeSize (a.testCode first cond body) +
      loopTail (Layout.node a.program.linkage (first + cond.literals.length) body) := by
  rw [Layout.node, Layout.codeSize_loop, testCode, Layout.codeSize_loopTest]
  rfl

theorem Placed.inner (placed : a.Placed before after (.loop cond body) first) :
    a.Placed (before ++ a.testCode first cond body) (a.jumpBack first cond body :: after) body
      (first + cond.literals.length) where
  split := by simpa [node_loop] using placed.split
  aligned := by simpa [level_testCode] using placed.aligned
  compact := placed.compact.2
  listed := placed.listed.right

theorem Placed.toInt_exit (placed : a.Placed before after (.loop cond body) first) :
    (Int32.ofInt
      (loopTail (Layout.node a.program.linkage (first + cond.literals.length) body))).toInt =
      loopTail (Layout.node a.program.linkage (first + cond.literals.length) body) :=
  Layout.toInt_exit placed.compact.1

theorem Placed.toInt_back (placed : a.Placed before after (.loop cond body) first) :
    (Int32.ofInt (-loopSize (Layout.number a.program.linkage cond)
      (Layout.node a.program.linkage (first + cond.literals.length) body))).toInt =
      -(codeSize (a.testCode first cond body) +
        loopTail (Layout.node a.program.linkage (first + cond.literals.length) body) : Nat) := by
  rw [testCode, Layout.codeSize_loopTest]
  exact Layout.toInt_back placed.compact.1

/-- The condition decides: the loop is left behind its end, or its body comes next. -/
theorem reaches_test {bound : String} (h : Numeric bound cond) {x : Double}
    (placed : a.Placed before after (.loop cond body) first) (poised : a.Poised before s)
    (test : Eval.number bound s.cell cond = some x) :
    a.Reaches (fun s' => s'.cell = s.cell ∧ if Eval.endsLoop x
      then a.Poised (before ++ Layout.node a.program.linkage first (.loop cond body)) s'
      else a.Poised (before ++ a.testCode first cond body) s') s := by
  let code := Layout.number a.program.linkage cond
  let skipped := loopTail (Layout.node a.program.linkage (first + cond.literals.length) body)
  have split : a.instrs = before ++ (code ++ Instr.xorpd .xmm1 .xmm1 :: .ucomisd .xmm0 .xmm1 ::
      .je (Int32.ofInt skipped) :: (Layout.node a.program.linkage (first + cond.literals.length) body
        ++ a.jumpBack first cond body :: after)) := by
    simpa [node_loop, testCode, loopTest, code, skipped] using placed.split
  have split₁ := split_append split
  have split₂ := split_cons split₁
  have split₃ := split_cons split₂
  refine (reaches_number h split poised placed.aligned test).bind fun s₁ done => ?_
  refine .quiet split₁ done.poised rfl (.setVector _ _ _) rfl rfl fun poised => ?_
  refine .quiet split₂ poised rfl ⟨rfl, rfl, rfl, rfl, rfl⟩ rfl rfl fun poised => ?_
  -- A register combined with itself is zero, so the comparison is one with zero.
  have flag : s₁.vectors.xmm0.equalOrUnordered ⟨s₁.vectors.xmm1.bits ^^^ s₁.vectors.xmm1.bits⟩ =
      Eval.endsLoop x := by
    rw [UInt64.xor_self, done.value]
    exact x.equalOrUnordered_zero
  have path : before ++ code ++ [Instr.xorpd .xmm1 .xmm1] ++ [Instr.ucomisd .xmm0 .xmm1] ++
      [Instr.je (Int32.ofInt skipped)] = before ++ a.testCode first cond body := by
    simp [testCode, loopTest, code, skipped]
  cases ends : Eval.endsLoop x with
  | true =>
    -- The exit lands behind the jump back.
    have landing : jumpTarget (codeSize (before ++ code ++ [Instr.xorpd .xmm1 .xmm1] ++
        [Instr.ucomisd .xmm0 .xmm1] ++ [Instr.je (Int32.ofInt skipped)])) (Int32.ofInt skipped) =
        codeSize (before ++ Layout.node a.program.linkage first (.loop cond body)) := by
      rw [path, jumpTarget, placed.toInt_exit, codeSize_append, codeSize_append, codeSize_node_loop]
      omega
    obtain ⟨track, taken, landed⟩ :=
      jump_lands split₃ poised (.inr ⟨rfl, flag.trans ends⟩) landing (by simp [effect, code])
    exact .step track taken (.arrive ⟨done.world.cell, landed⟩)
  | false =>
    refine .je_skipped split₃ poised (flag.trans ends) fun poised => ?_
    exact .arrive ⟨done.world.cell, path ▸ poised⟩

/-- At the end of the body, control goes back to the condition. -/
theorem jump_back (placed : a.Placed before after (.loop cond body) first)
    (poised : a.Poised (before ++ a.testCode first cond body ++
      Layout.node a.program.linkage (first + cond.literals.length) body) s) :
    a.OnTrack s ∧ Machine.step a.host a.program s = .running { s with pc := codeSize before } ∧
      a.Poised before { s with pc := codeSize before } := by
  refine jump_lands (split_append placed.inner.split) poised (.inl rfl) ?_ (by simp [level_testCode])
  -- The jump back ends where the loop ends, and goes over all of the loop.
  have path : before ++ a.testCode first cond body ++
      Layout.node a.program.linkage (first + cond.literals.length) body ++
      [a.jumpBack first cond body] =
      before ++ Layout.node a.program.linkage first (.loop cond body) := by
    simp [node_loop]
  rw [path, jumpTarget, placed.toInt_back, codeSize_append, codeSize_node_loop]
  omega

end loop

/-! ## Trees -/

theorem reaches_numeric {bound : String} (h : Numeric bound n) {x : Double}
    (placed : a.Placed before after n first) (poised : a.Poised before s)
    (value : Eval.number bound s.cell n = some x) :
    a.Reaches (a.Ran before n first (.number x) s.cell) s := by
  have code := Layout.node_of_numeric (l := a.program.linkage) first h
  have split := placed.split
  rw [code] at split
  refine (reaches_number h split poised placed.aligned value).mono fun s' done => ?_
  exact ⟨code ▸ done.poised, done.world.cell, done.value⟩

theorem reaches_textual {bound : String} (h : Textual bound n) (notVar : ∀ name, n ≠ .var name)
    {t : Text} {left : Cell} (placed : a.Placed before after n first) (poised : a.Poised before s)
    (value : Eval.string bound s.cell n = some (t, left)) :
    a.Reaches (a.Ran before n first (.string t) left) s := by
  have code := Layout.node_of_textual (l := a.program.linkage) first h notVar
  have split := placed.split
  rw [code] at split
  refine (reaches_string h split poised placed.aligned placed.listed value).mono fun s' done => ?_
  exact ⟨code ▸ done.poised, done.cell, done.text, done.source⟩

/-- The code of a tree that evaluates to something gets to its end with that result. -/
theorem reaches_node {bound : String} {kind : ValueKind} {cell left : Cell} {value : Value}
    (evaluated : Evaluates bound cell n value left) (tree : Compilable bound kind n)
    (placed : a.Placed before after n first) (poised : a.Poised before s) (start : s.cell = cell) :
    a.Reaches (a.Ran before n first value left) s := by
  induction evaluated generalizing kind before after first s with
  | number value =>
    subst start
    exact reaches_numeric (tree.numeric value).1 placed poised value
  | string notVar value =>
    subst start
    exact reaches_textual (tree.textual notVar value).1 notVar placed poised value
  | assignNumber evaluated _ =>
    subst start
    cases evaluated with
    | number value =>
      rcases tree.of_assign with h | ⟨h, notVar⟩
      · exact reaches_assignNumber h placed poised value
      · rw [h.eval_number notVar] at value
        cases value
  | assignString evaluated _ =>
    subst start
    cases evaluated with
    | string notVar value =>
      rcases tree.of_assign with h | ⟨h, -⟩
      · rw [h.eval_string notVar] at value
        cases value
      · exact reaches_assignText h notVar placed poised value
  | loopDone test done =>
    subst start
    obtain ⟨h, -⟩ := tree.of_loop
    refine (reaches_test h placed poised test).mono fun s' ⟨cell, landed⟩ => ?_
    rw [if_pos done] at landed
    exact ⟨landed, cell, trivial⟩
  | loopAgain test again _ _ ihOnce ihRest =>
    subst start
    obtain ⟨h, _, inner⟩ := tree.of_loop
    refine (reaches_test h placed poised test).bind fun s₁ ⟨cell, entered⟩ => ?_
    rw [if_neg again] at entered
    refine (ihOnce inner placed.inner entered cell).bind fun s₂ ran => ?_
    -- After the jump back, the rest of the evaluation is one of the same loop.
    obtain ⟨track, taken, returned⟩ := jump_back placed ran.poised
    exact .step track taken (ihRest tree placed returned ran.cell)

/-- The code of a tree stays on track, and at its end it has evaluated the tree. -/
theorem leads_node {bound : String} {kind : ValueKind} (tree : Compilable bound kind n)
    (placed : a.Placed before after n first) (poised : a.Poised before s) (count : Nat) :
    a.Leads (fun s' => ∃ value left, Evaluates bound s.cell n value left ∧ value.kind = kind ∧
      a.Ran before n first value left s') count s := by
  induction tree generalizing before after first s count with
  | number h =>
    obtain ⟨x, value⟩ := h.eval s.cell
    exact ((reaches_numeric h placed poised value).leads count).mono
      fun s' ran => ⟨_, _, .number value, rfl, ran⟩
  | text h notVar =>
    obtain ⟨t, left, value⟩ := h.eval s.cell
    exact ((reaches_textual h notVar placed poised value).leads count).mono
      fun s' ran => ⟨_, _, .string notVar value, rfl, ran⟩
  | assignNumber h =>
    obtain ⟨x, value⟩ := h.eval s.cell
    exact ((reaches_assignNumber h placed poised value).leads count).mono
      fun s' ran => ⟨_, _, .assignNumber (.number value), rfl, ran⟩
  | assignText h notVar =>
    obtain ⟨t, left, value⟩ := h.eval s.cell
    exact ((reaches_assignText h notVar placed poised value).leads count).mono
      fun s' ran => ⟨_, _, .assignString (.string notVar value), rfl, ran⟩
  | @loop cond body kind h inner ih =>
    -- A pass through the body ends with the jump back, which takes a step.
    induction count using Nat.strongRecOn generalizing s with
    | ind count again =>
    obtain ⟨x, test⟩ := h.eval s.cell
    refine ((reaches_test h placed poised test).leads count).bind fun s₁ ⟨cell, decided⟩ => ?_
    by_cases ends : Eval.endsLoop x
    · rw [if_pos ends] at decided
      exact .arrive ⟨.nothing, s.cell, .loopDone test ends, rfl, decided, cell, trivial⟩
    · rw [if_neg ends] at decided
      refine (ih placed.inner decided count).bind fun s₂ ⟨_, between, once, _, ran⟩ => ?_
      obtain ⟨track, taken, returned⟩ := jump_back placed ran.poised
      refine .later track taken fun fewer less => (again fewer less returned).mono ?_
      rintro s' ⟨value, left, rest, statement, ran'⟩
      have repeated : Evaluates bound between (.loop cond body) value left := ran.cell ▸ rest
      cases value with
      | number _ | string _ => cases statement
      | nothing => exact ⟨.nothing, left, .loopAgain test ends (cell ▸ once) repeated, rfl, ran'⟩

end Activation

end TreeJit
