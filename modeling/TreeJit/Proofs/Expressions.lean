import TreeJit.Proofs.Execution

/-! # Running the code of expressions

The code of a number leaves the number's value in `xmm0` and touches nothing
else that lasts.  The code of a string leaves a reference to the string in
`rax`, and the cell as the evaluation leaves it.

What makes strings work by reference is `Machine.Holds.extend`: a reference to
the cell's text is only made when the text slot is filled, and code for strings
leaves a filled slot alone.  So the left operand of a concatenation is still good
after the right one has been computed.
-/

namespace TreeJit

open X86 (Instr codeSize spillSlot pushPad)
open Layout (level effect)
open Machine

namespace Activation

variable {a : Activation} {before after is : List Instr} {i : Instr} {s s' : State}

theorem split_cons (split : a.instrs = before ++ i :: after) :
    a.instrs = (before ++ [i]) ++ after := split.trans (List.append_cons _ _ _)

theorem split_append (split : a.instrs = before ++ (is ++ after)) :
    a.instrs = (before ++ is) ++ after := split.trans (List.append_assoc _ _ _).symm

/-! ## Numbers -/

/-- The code `is` has computed a number and left everything else as it was. -/
structure Computed (a : Activation) (before is : List Instr) (x : Double) (s s' : State) :
    Prop where
  poised : a.Poised (before ++ is) s'
  value : s'.vectors.xmm0 = x
  world : SameWorld s s'
  memory : KeepsFrom (-level before) s s'

theorem reaches_scalar {op : X86.ScalarOp} {x y : Double}
    (split : a.instrs = before ++ ([Instr.scalar op .xmm1 .xmm0, .movapd .xmm0 .xmm1] ++ after))
    (poised : a.Poised before s) (left : s.vectors.xmm1 = x) (right : s.vectors.xmm0 = y) :
    a.Reaches (a.Computed before [.scalar op .xmm1 .xmm0, .movapd .xmm0 .xmm1]
      (scalarResult op x y) s) s := by
  refine .quiet split poised rfl (.setVector _ _ _) rfl rfl fun poised => ?_
  refine .quiet (split_cons split) poised rfl (.setVector _ _ _) rfl rfl fun poised => ?_
  refine .arrive ⟨by simpa using poised, ?_, ⟨rfl, rfl, rfl⟩, .refl _ s⟩
  rw [← left, ← right]
  rfl

theorem reaches_remainder {x y : Double}
    (split : a.instrs = before ++ (Layout.applyOp a.program.linkage .mod ++ after))
    (poised : a.Poised before s) (aligned : level before % 16 = 8)
    (left : s.vectors.xmm1 = x) (right : s.vectors.xmm0 = y) :
    a.Reaches (a.Computed before (Layout.applyOp a.program.linkage .mod) (x.rem y) s) s := by
  have split₁ := split_cons split
  have split₂ := split_cons split₁
  have split₃ := split_cons split₂
  refine .quiet split poised rfl (.setVector _ _ _) rfl rfl fun poised => ?_
  refine .quiet split₁ poised rfl (.setVector _ _ _) rfl rfl fun poised => ?_
  refine .quiet split₂ poised rfl (.setVector _ _ _) rfl rfl fun poised => ?_
  refine .callHelper split₃ poised (by simpa [effect] using aligned) trivial ?_
  rintro s' poised ⟨world, value⟩ memory
  refine .arrive ⟨?_, ?_, ⟨world.cell, world.version, world.heap⟩, ?_⟩
  · simpa [Layout.applyOp, Codegen.scalarOp?] using poised
  · rw [value, ← left, ← right]
    rfl
  · intro address low
    exact memory address (by simpa [effect] using low)

theorem reaches_applyOp (op : BinaryOp) {x y : Double}
    (split : a.instrs = before ++ (Layout.applyOp a.program.linkage op ++ after))
    (poised : a.Poised before s) (aligned : level before % 16 = 8)
    (left : s.vectors.xmm1 = x) (right : s.vectors.xmm0 = y) :
    a.Reaches (a.Computed before (Layout.applyOp a.program.linkage op) (Eval.applyOp op x y) s)
      s := by
  cases op with
  | add | sub | mul | div => exact reaches_scalar split poised left right
  | mod => exact reaches_remainder split poised aligned left right

theorem reaches_callOnCell {h : Helper} {Q : State → Prop}
    (split : a.instrs = before ++ (Layout.callOnCell a.program.linkage h ++ after))
    (poised : a.Poised before s) (aligned : level before % 16 = 8)
    (serviceable : Serviceable a.program
      (s.setRegister .rdi (.bits (a.program.linkage.address .cell))) h)
    (next : ∀ s', a.Poised (before ++ Layout.callOnCell a.program.linkage h) s' →
      Served a.program (s.setRegister .rdi (.bits (a.program.linkage.address .cell))) s' h →
      KeepsFrom (-level before) s s' → a.Reaches Q s') : a.Reaches Q s := by
  refine .quiet split poised rfl (.setRegister _ _ rfl) rfl rfl fun poised => ?_
  refine .callHelper (split_cons split) poised (by simpa [effect] using aligned)
    (serviceable.of_same ⟨rfl, rfl, rfl, ⟨rfl, rfl, rfl⟩⟩) fun s' poised served memory => ?_
  refine next s' ?_ (served.of_same ⟨rfl, rfl, rfl, ⟨rfl, rfl, rfl⟩⟩) ?_
  · simpa [Layout.callOnCell] using poised
  · intro address low
    exact memory address (by simpa [effect] using low)

theorem signedByte_spillSlot : signedByte spillSlot = 16 := rfl

/-- The left operand is put on the stack, below everything that has to be kept. -/
theorem reaches_spill
    (split : a.instrs = before ++ ([Instr.subSp spillSlot, .store .xmm0] ++ after))
    (poised : a.Poised before s) (aligned : level before % 16 = 8) :
    a.Reaches (fun s' => a.Poised (before ++ [Instr.subSp spillSlot, .store .xmm0]) s' ∧
      s'.memory.load (-(level before + 16)) = some (.bits s.vectors.xmm0.bits) ∧ SameWorld s s' ∧
      KeepsFrom (-level before) s s') s := by
  have deep := poised.deep
  have depth : level (before ++ [Instr.subSp spillSlot]) = level before + 16 := by
    simp [effect, signedByte_spillSlot]
  refine .moveSp (.inl rfl) split poised (by omega) fun poised => ?_
  refine .store (split_cons split) poised (by omega) (by omega) fun poised => ?_
  refine .arrive ⟨by simpa using poised, ?_, ⟨rfl, rfl, rfl⟩, ?_⟩
  · rw [depth]
    exact (Memory.load_store _ _ _ _).trans (if_pos rfl)
  · exact KeepsFrom.store (moved _ _ s) _ (by omega)

theorem reaches_recall {x : Double}
    (split : a.instrs = before ++ ([Instr.load .xmm1, .addSp spillSlot] ++ after))
    (poised : a.Poised before s) (aligned : level before % 16 = 8) (room : 24 ≤ level before)
    (held : s.memory.load (-level before) = some (.bits x.bits)) :
    a.Reaches (fun s' => a.Poised (before ++ [Instr.load .xmm1, .addSp spillSlot]) s' ∧
      s'.vectors.xmm1 = x ∧ s'.vectors.xmm0 = s.vectors.xmm0 ∧ SameWorld s s' ∧
      s'.memory = s.memory) s := by
  have depth : level (before ++ [Instr.load .xmm1]) = level before := by simp [effect]
  have slot := signedByte_spillSlot
  refine .load split poised (by omega) held fun poised => ?_
  have depth' : level (before ++ [Instr.load .xmm1] ++ [Instr.addSp spillSlot]) = level before - 16 := by
    simp [effect, slot]
    omega
  refine .moveSp (.inr rfl) (split_cons split) poised (by omega) fun poised => ?_
  exact .arrive ⟨by simpa using poised, rfl, rfl, ⟨rfl, rfl, rfl⟩, rfl⟩

/-- Running a binary operation: the left operand's place on the stack lies above everything that the
right operand's code touches. -/
theorem reaches_binary {op : BinaryOp} {lhs rhs : List Instr} {x y : Double}
    (split : a.instrs = before ++ (Layout.binary a.program.linkage op lhs rhs ++ after))
    (poised : a.Poised before s) (aligned : level before % 16 = 8)
    (flatLeft : level lhs = 0) (flatRight : level rhs = 0)
    (left : ∀ {after}, a.instrs = before ++ (lhs ++ after) →
      a.Reaches (a.Computed before lhs x s) s)
    (right : ∀ {before after s'}, a.instrs = before ++ (rhs ++ after) → a.Poised before s' →
      level before % 16 = 8 → s'.cell = s.cell → a.Reaches (a.Computed before rhs y s') s') :
    a.Reaches (a.Computed before (Layout.binary a.program.linkage op lhs rhs)
      (Eval.applyOp op x y) s) s := by
  have slot := signedByte_spillSlot
  have deep := poised.deep
  have split₀ : a.instrs = before ++ (lhs ++ ([Instr.subSp spillSlot, .store .xmm0] ++ (rhs ++
      ([Instr.load .xmm1, .addSp spillSlot] ++ (Layout.applyOp a.program.linkage op ++ after))))) := by
    simpa [Layout.binary] using split
  have split₁ := split_append split₀
  have split₂ := split_append split₁
  have split₃ := split_append split₂
  have split₄ := split_append split₃
  have depth₁ : level (before ++ lhs) = level before := by simp [flatLeft]
  have depth₂ : level (before ++ lhs ++ [Instr.subSp spillSlot, .store .xmm0]) = level before + 16 := by
    simp [effect, slot, flatLeft]
  have depth₃ : level (before ++ lhs ++ [Instr.subSp spillSlot, .store .xmm0] ++ rhs) =
      level before + 16 := by
    rw [Layout.level_append, depth₂, flatRight, Int.add_zero]
  have depth₄ : level (before ++ lhs ++ [Instr.subSp spillSlot, .store .xmm0] ++ rhs ++
      [Instr.load .xmm1, .addSp spillSlot]) = level before := by
    rw [Layout.level_append, depth₃]
    simp only [Layout.level_cons, Layout.level_nil, effect, slot]
    omega
  refine (left split₀).bind fun s₁ lhsDone => ?_
  refine (reaches_spill split₁ lhsDone.poised (by omega)).bind fun s₂ spilled => ?_
  obtain ⟨poised₂, held₂, world₂, kept₂⟩ := spilled
  have cell₂ : s₂.cell = s.cell := world₂.cell.trans lhsDone.world.cell
  refine (right split₂ poised₂ (by omega) cell₂).bind fun s₃ rhsDone => ?_
  -- The right operand keeps the stack from where it starts, and the left operand lies there.
  have held₃ : s₃.memory.load (-(level before + 16)) = some (.bits x.bits) := by
    rw [rhsDone.memory _ (by omega), ← lhsDone.value, ← held₂, depth₁]
  refine (reaches_recall split₃ rhsDone.poised (by omega) (by omega)
    (by rw [depth₃]; exact held₃)).bind fun s₄ recalled => ?_
  obtain ⟨poised₄, left₄, right₄, world₄, memory₄⟩ := recalled
  have aligned₄ : level (before ++ lhs ++ [Instr.subSp spillSlot, .store .xmm0] ++ rhs ++
      [Instr.load .xmm1, .addSp spillSlot]) % 16 = 8 := by omega
  refine (reaches_applyOp op split₄ poised₄ aligned₄ left₄
    (right₄.trans rhsDone.value)).mono fun s₅ applied => ?_
  -- Recalling writes nothing, and the operator keeps the stack from its own level on.
  have lasts : KeepsFrom (-level before) s₃ s₅ := by
    intro address low
    rw [applied.memory address (by omega), memory₄]
  refine ⟨by simpa [Layout.binary] using applied.poised, applied.value, ?_, ?_⟩
  · exact (((lhsDone.world.trans world₂).trans rhsDone.world).trans world₄).trans applied.world
  · exact ((lhsDone.memory.trans (kept₂.mono (by omega))).trans
      (rhsDone.memory.mono (by omega))).trans lasts

theorem reaches_negate {operand : List Instr} {x : Double}
    (split : a.instrs = before ++ (Layout.negate operand ++ after)) (flat : level operand = 0)
    (operandDone : ∀ {after}, a.instrs = before ++ (operand ++ after) →
      a.Reaches (a.Computed before operand x s) s) :
    a.Reaches (a.Computed before (Layout.negate operand) (Double.negativeZero.sub x) s) s := by
  rw [Layout.negate, List.append_assoc] at split
  have split₁ := split_append split
  have split₂ := split_cons split₁
  have split₃ := split_cons split₂
  refine (operandDone split).bind fun s₁ done => ?_
  refine .quiet split₁ done.poised rfl (.setRegister _ _ rfl) rfl rfl fun poised => ?_
  refine .quiet split₂ poised rfl (.setVector _ _ _) rfl rfl fun poised => ?_
  refine (reaches_scalar split₃ poised rfl done.value).mono fun s' negated => ?_
  refine ⟨by simpa [Layout.negate] using negated.poised, negated.value, ?_, ?_⟩
  · exact done.world.trans ⟨negated.world.cell, negated.world.version, negated.world.heap⟩
  · refine done.memory.trans fun address low => negated.memory address ?_
    simpa [effect, flat] using low

theorem reaches_number {bound : String} {n : Node} (h : Numeric bound n) {x : Double}
    (split : a.instrs = before ++ (Layout.number a.program.linkage n ++ after))
    (poised : a.Poised before s) (aligned : level before % 16 = 8)
    (value : Eval.number bound s.cell n = some x) :
    a.Reaches (a.Computed before (Layout.number a.program.linkage n) x s) s := by
  induction h generalizing before after s x with
  | number =>
    cases value
    refine .quiet split poised rfl (.setRegister _ _ rfl) rfl rfl fun poised => ?_
    refine .quiet (split_cons split) poised rfl (.setVector _ _ _) rfl rfl fun poised => ?_
    exact .arrive ⟨by simpa [Layout.number] using poised, rfl, ⟨rfl, rfl, rfl⟩, .refl _ s⟩
  | var =>
    obtain rfl : s.cell.number = x := by simpa [Eval.number] using value
    refine reaches_callOnCell split poised aligned rfl ?_
    rintro s' poised ⟨world, value⟩ memory
    exact .arrive ⟨poised, value, ⟨world.cell, world.version, world.heap⟩, memory⟩
  | binary op left right ihLeft ihRight =>
    obtain ⟨y, leftValue⟩ := left.eval s.cell
    obtain ⟨z, rightValue⟩ := right.eval s.cell
    obtain rfl : Eval.applyOp op y z = x := by
      simpa [Eval.number, leftValue, rightValue] using value
    refine reaches_binary split poised aligned (Layout.level_number _) (Layout.level_number _)
      (fun split => ihLeft split poised aligned leftValue) ?_
    intro before after s' split poised aligned cell
    exact ihRight split poised aligned (cell ▸ rightValue)
  | neg operand ih =>
    obtain ⟨y, operandValue⟩ := operand.eval s.cell
    obtain rfl : Double.negativeZero.sub y = x := by simpa [Eval.number, operandValue] using value
    exact reaches_negate split (Layout.level_number _)
      fun split => ih split poised aligned operandValue

end Activation

/-! ## References -/

/-- Whether literals have the given texts from a number on. -/
def Literals.Lists (l : Literals) (first : Nat) (texts : List Text) : Prop :=
  ∀ index t, texts[index]? = some t → l.get? (first + index) = some t

theorem Literals.lists_self (first : Nat) (texts : List Text) :
    (Literals.mk first texts).Lists first texts := by
  intro index t held
  simpa [get?] using held

theorem Literals.Lists.left {l : Literals} {first : Nat} {texts others : List Text}
    (h : l.Lists first (texts ++ others)) : l.Lists first texts := by
  intro index t held
  have inside := (List.getElem?_eq_some_iff.1 held).1
  exact h index t (by rwa [List.getElem?_append_left inside])

theorem Literals.Lists.right {l : Literals} {first : Nat} {texts others : List Text}
    (h : l.Lists first (texts ++ others)) : l.Lists (first + texts.length) others := by
  intro index t held
  rw [Nat.add_assoc]
  refine h (texts.length + index) t ?_
  rw [List.getElem?_append_right (Nat.le_add_right _ _), Nat.add_sub_cancel_left, held]

namespace Machine

/-- What the code of a string may do to the cell and the heap: a text slot that is filled stays as
it is, and so do the blocks of the heap. -/
structure Extends (s s' : State) : Prop where
  filled : s.cell.hasText → s'.cell = s.cell ∧ s'.version = s.version
  blocks : ∀ (index : Nat) (t : Text), s.heap[index]? = some (some t) → s'.heap[index]? = some (some t)

theorem Extends.trans {s s' s'' : State} (first : Extends s s') (second : Extends s' s'') :
    Extends s s'' := by
  refine ⟨fun filled => ?_, fun index t held => second.blocks _ _ (first.blocks _ _ held)⟩
  obtain ⟨cell, version⟩ := first.filled filled
  obtain ⟨cell', version'⟩ := second.filled (cell ▸ filled)
  exact ⟨cell'.trans cell, version'.trans version⟩

theorem SameWorld.extends {s s' : State} (h : SameWorld s s') : Extends s s' :=
  ⟨fun _ => ⟨h.cell, h.version⟩, fun _ _ held => h.heap ▸ held⟩

/-- A reference that leads to a text and will go on doing so while strings are computed: if it refers
to the cell's text slot, the slot is filled. -/
structure Holds (p : Program) (s : State) (w : Word) (t : Text) : Prop where
  text : State.textAt p s w = .ok t
  filled : ∀ version, w = .slot version → s.cell.hasText

/-- A reference outlasts the code of a string. -/
theorem Holds.extend {p : Program} {s s' : State} {w : Word} {t : Text} (h : Holds p s w t)
    (more : Extends s s') : Holds p s' w t := by
  obtain ⟨text, filled⟩ := h
  cases w with
  | bits _ =>
    refine ⟨text, ?_⟩
    rintro _ ⟨⟩
  | stack _ | caller => cases text
  | slot version =>
    -- The slot is filled, so neither its text nor its version changes.
    obtain ⟨cell, same⟩ := more.filled (filled version rfl)
    exact ⟨by rwa [State.textAt, cell, same], fun _ _ => cell ▸ filled version rfl⟩
  | block index =>
    refine ⟨?_, by rintro _ ⟨⟩⟩
    simp only [State.textAt] at text
    split at text
    · rename_i u held
      simp only [State.textAt, more.blocks index u held, text]
    · cases text
    · cases text

/-- What a string's code refers to: its literal, the text in the cell, or the block that it has
allocated last. -/
def ComesFrom (p : Program) (s : State) (first : Nat) (w : Word) : Node → Prop
  | .string _ => w = .bits (p.linkage.address (.literal first))
  | .concat _ _ => w = .block (s.heap.size - 1) ∧ 0 < s.heap.size
  | _ => w = .slot s.version

/-- What a concatenation has done: it has added a block to the heap and refers to it. -/
theorem Served.concat_block {p : Program} {s s' : State} {t u : Text}
    (served : Served p s s' .concat) (lhs : Holds p s s.registers.rdi t)
    (rhs : Holds p s s.registers.rsi u) :
    s'.registers.rax = .block s.heap.size ∧ s'.cell = s.cell ∧ Extends s s' ∧
      Holds p s' s'.registers.rax (t ++ u) ∧ s'.heap.size = s.heap.size + 1 := by
  obtain ⟨t', u', leftText, rightText, cell, version, heap, rax⟩ := served
  obtain rfl : t = t' := Except.ok.inj (lhs.text.symm.trans leftText)
  obtain rfl : u = u' := Except.ok.inj (rhs.text.symm.trans rightText)
  refine ⟨rax, cell, ⟨fun _ => ⟨cell, version⟩, fun index v held => ?_⟩, ⟨?_, ?_⟩, ?_⟩
  · rw [heap, Array.getElem?_push_lt (Array.getElem?_eq_some_iff.1 held).1]
    exact (Array.getElem?_eq_getElem _).symm.trans held
  · simp [rax, State.textAt, heap]
  · rw [rax]
    rintro _ ⟨⟩
  · simp [heap]

end Machine

namespace Activation

variable {a : Activation} {before after : List Instr} {s s' : State}

/-- The code `is` of the string `n` has left a reference to the text `t`, and the cell `left`. -/
structure Spelled (a : Activation) (before is : List Instr) (n : Node) (first : Nat) (t : Text)
    (left : Cell) (s s' : State) : Prop where
  poised : a.Poised (before ++ is) s'
  text : Holds a.program s' s'.registers.rax t
  source : ComesFrom a.program s' first s'.registers.rax n
  cell : s'.cell = left
  more : Extends s s'
  memory : KeepsFrom (-level before) s s'

theorem signedByte_pushPad : signedByte pushPad = 8 := rfl

theorem reaches_save (split : a.instrs = before ++ ([Instr.push .rax, .subSp pushPad] ++ after))
    (poised : a.Poised before s) (aligned : level before % 16 = 8) :
    a.Reaches (fun s' => a.Poised (before ++ [Instr.push .rax, .subSp pushPad]) s' ∧
      s'.memory.load (-(level before + 8)) = some s.registers.rax ∧ SameWorld s s' ∧
      KeepsFrom (-level before) s s') s := by
  have word : wordSize = 8 := rfl
  have pad := signedByte_pushPad
  have deep := poised.deep
  have depth : level (before ++ [Instr.push .rax] ++ [Instr.subSp pushPad]) = level before + 16 := by
    simp [effect, pad, word]
  refine .push split poised (by omega) fun poised => ?_
  refine .moveSp (.inl rfl) (split_cons split) poised (by omega) fun poised => ?_
  refine .arrive ⟨by simpa using poised, ?_, ⟨rfl, rfl, rfl⟩, ?_⟩
  · exact (Memory.load_store _ _ _ _).trans (if_pos (by omega))
  · exact KeepsFrom.store s _ (by omega)

/-- The two operands' references are put where the concatenation takes them. -/
theorem reaches_restore {w : Word}
    (split : a.instrs = before ++
      ([Instr.addSp pushPad, .pop .rcx, .mov .rsi .rax, .mov .rdi .rcx] ++ after))
    (poised : a.Poised before s) (aligned : level before % 16 = 8) (room : 24 ≤ level before)
    (held : s.memory.load (-(level before - 8)) = some w) :
    a.Reaches (fun s' =>
      a.Poised (before ++ [Instr.addSp pushPad, .pop .rcx, .mov .rsi .rax, .mov .rdi .rcx]) s' ∧
      s'.registers.rdi = w ∧ s'.registers.rsi = s.registers.rax ∧ SameWorld s s' ∧
      s'.memory = s.memory) s := by
  have pad := signedByte_pushPad
  have depth : level (before ++ [Instr.addSp pushPad]) = level before - 8 := by
    simp [effect, pad]
    omega
  refine .moveSp (.inr rfl) split poised (by omega) fun poised => ?_
  refine .pop (split_cons split) poised rfl (by omega) (by omega) (by rw [depth]; exact held)
    fun poised => ?_
  refine .quiet (split_cons (split_cons split)) poised rfl (.setRegister _ _ rfl) rfl rfl
    fun poised => ?_
  refine .quiet (split_cons (split_cons (split_cons split))) poised rfl (.setRegister _ _ rfl) rfl
    rfl fun poised => ?_
  exact .arrive ⟨by simpa using poised, rfl, rfl, ⟨rfl, rfl, rfl⟩, rfl⟩

/-- The code of a concatenation up to the call. -/
def operandCode (is js : List Instr) : List Instr :=
  is ++ ([Instr.push .rax, .subSp pushPad] ++ (js ++
    [Instr.addSp pushPad, .pop .rcx, .mov .rsi .rax, .mov .rdi .rcx]))

theorem concat_eq (l : Linkage) (is js : List Instr) :
    Layout.concat l is js = operandCode is js ++ Layout.callHelper l .concat := by
  simp [Layout.concat, operandCode]

/-- Both operands of a concatenation are in place. -/
structure Paired (a : Activation) (before is js : List Instr) (t u : Text) (left : Cell)
    (s s' : State) : Prop where
  poised : a.Poised (before ++ operandCode is js) s'
  lhs : Holds a.program s' s'.registers.rdi t
  rhs : Holds a.program s' s'.registers.rsi u
  cell : s'.cell = left
  more : Extends s s'
  memory : KeepsFrom (-level before) s s'

/-- Running the operands of a concatenation: the left operand's reference is still good when it is
used, since the right operand's code leaves what it refers to alone. -/
theorem reaches_operands {lhs rhs : Node} {is js : List Instr} {first second : Nat} {t u : Text}
    {between left : Cell} (split : a.instrs = before ++ (operandCode is js ++ after))
    (poised : a.Poised before s) (aligned : level before % 16 = 8)
    (flatLeft : level is = 0) (flatRight : level js = 0)
    (leftDone : ∀ {after}, a.instrs = before ++ (is ++ after) →
      a.Reaches (a.Spelled before is lhs first t between s) s)
    (rightDone : ∀ {before after s'}, a.instrs = before ++ (js ++ after) → a.Poised before s' →
      level before % 16 = 8 → s'.cell = between →
      a.Reaches (a.Spelled before js rhs second u left s') s') :
    a.Reaches (a.Paired before is js t u left s) s := by
  have pad := signedByte_pushPad
  have word : wordSize = 8 := rfl
  have deep := poised.deep
  have split₀ : a.instrs = before ++ (is ++ ([Instr.push .rax, .subSp pushPad] ++ (js ++
      ([Instr.addSp pushPad, .pop .rcx, .mov .rsi .rax, .mov .rdi .rcx] ++ after)))) := by
    simpa [operandCode] using split
  have split₁ := split_append split₀
  have split₂ := split_append split₁
  have split₃ := split_append split₂
  have depth₁ : level (before ++ is) = level before := by simp [flatLeft]
  have depth₂ : level (before ++ is ++ [Instr.push .rax, .subSp pushPad]) = level before + 16 := by
    simp [effect, pad, word, flatLeft]
  have depth₃ : level (before ++ is ++ [Instr.push .rax, .subSp pushPad] ++ js) = level before + 16 := by
    rw [Layout.level_append, depth₂, flatRight, Int.add_zero]
  refine (leftDone split₀).bind fun s₁ lhsDone => ?_
  refine (reaches_save split₁ lhsDone.poised (by omega)).bind fun s₂ saved => ?_
  obtain ⟨poised₂, held₂, world₂, kept₂⟩ := saved
  refine (rightDone split₂ poised₂ (by omega) (world₂.cell.trans lhsDone.cell)).bind
    fun s₃ rhsDone => ?_
  -- The reference is above the stack that the right operand uses.
  have held₃ : s₃.memory.load (-(level before + 8)) = some s₁.registers.rax := by
    rw [rhsDone.memory _ (by omega), ← held₂, depth₁]
  have place : level before + 8 = level (before ++ is ++ [Instr.push .rax, .subSp pushPad] ++ js) - 8 := by
    omega
  refine (reaches_restore split₃ rhsDone.poised (by omega) (by omega)
    (place ▸ held₃)).mono fun s₄ restored => ?_
  obtain ⟨poised₄, rdi₄, rsi₄, world₄, memory₄⟩ := restored
  refine ⟨by simpa [operandCode] using poised₄, ?_, ?_, world₄.cell.trans rhsDone.cell, ?_, ?_⟩
  · rw [rdi₄]
    exact ((lhsDone.text.extend world₂.extends).extend rhsDone.more).extend world₄.extends
  · rw [rsi₄]
    exact rhsDone.text.extend world₄.extends
  · exact ((lhsDone.more.trans world₂.extends).trans rhsDone.more).trans world₄.extends
  · have lasts : KeepsFrom (-level before) s₃ s₄ := fun address _ => by rw [memory₄]
    exact ((lhsDone.memory.trans (kept₂.mono (by omega))).trans
      (rhsDone.memory.mono (by omega))).trans lasts

theorem level_operandCode {is js : List Instr} (flatLeft : level is = 0) (flatRight : level js = 0) :
    level (operandCode is js) = 0 := by
  have pad := signedByte_pushPad
  have word : wordSize = 8 := rfl
  simp [operandCode, effect, flatLeft, flatRight, pad, word]

theorem reaches_join {lhs rhs : Node} {is js : List Instr} {first : Nat} {t u : Text}
    {left : Cell} (split : a.instrs = (before ++ operandCode is js) ++
      (Layout.callHelper a.program.linkage .concat ++ after))
    (aligned : level before % 16 = 8) (flatLeft : level is = 0) (flatRight : level js = 0)
    (paired : a.Paired before is js t u left s s') :
    a.Reaches (a.Spelled before (Layout.concat a.program.linkage is js) (.concat lhs rhs) first
      (t ++ u) left s) s' := by
  have flat := level_operandCode flatLeft flatRight
  have depth : level (before ++ operandCode is js) = level before := by simp [flat]
  refine .callHelper split paired.poised (by omega) ⟨⟨t, paired.lhs.text⟩, u, paired.rhs.text⟩ ?_
  intro s₁ poised served kept
  obtain ⟨rax, cell, more, holds, size⟩ := served.concat_block paired.lhs paired.rhs
  refine .arrive ⟨?_, holds, ⟨?_, by omega⟩, cell.trans paired.cell, paired.more.trans more, ?_⟩
  · rw [concat_eq, ← List.append_assoc]
    exact poised
  · rw [rax, size, Nat.add_sub_cancel]
  · exact paired.memory.trans (depth ▸ kept)

theorem reaches_literal {text : Text} {first : Nat}
    (split : a.instrs = before ++
      ([Instr.movImm .rax (a.program.linkage.address (.literal first))] ++ after))
    (poised : a.Poised before s) (held : a.program.literals.get? first = some text) :
    a.Reaches (a.Spelled before [.movImm .rax (a.program.linkage.address (.literal first))]
      (.string text) first text s.cell s) s := by
  refine .quiet split poised rfl (.setRegister _ _ rfl) rfl rfl fun poised => ?_
  refine .arrive ⟨poised, ⟨?_, nofun⟩, rfl, rfl, SameWorld.extends ⟨rfl, rfl, rfl⟩, .refl _ s⟩
  have located := a.separates.locate_address (Program.literal_mem_symbols held)
  change State.textAt a.program _ (.bits _) = _
  simp only [State.textAt, located, held]

theorem hasText_withText (cell : Cell) : cell.withText.hasText := by
  unfold Cell.withText
  split
  · assumption
  · rfl

/-- Reading the variable fills the text slot, so that the reference to it lasts. -/
theorem reaches_readString {name : String} {first : Nat}
    (split : a.instrs = before ++ (Layout.callOnCell a.program.linkage .readString ++ after))
    (poised : a.Poised before s) (aligned : level before % 16 = 8) :
    a.Reaches (a.Spelled before (Layout.callOnCell a.program.linkage .readString) (.var name) first
      s.cell.text s.cell.withText s) s := by
  refine reaches_callOnCell split poised aligned rfl fun s' poised served memory => ?_
  obtain ⟨cell, version, heap, rax⟩ := served
  have cell' : s'.cell = s.cell.withText := cell
  refine .arrive ⟨poised, ⟨?_, ?_⟩, rax, cell, ⟨fun filled => ?_, ?_⟩, memory⟩
  · rw [rax, State.textAt, if_pos rfl, cell']
    rfl
  · rintro _ -
    rw [cell']
    exact hasText_withText _
  -- A slot that is filled already is not filled again, so references that exist stay good.
  · have kept : s.cell.withText = s.cell := if_pos filled
    exact ⟨cell'.trans kept, version.trans (if_pos filled)⟩
  · intro index t held
    rw [heap]
    exact held

/-- The code of a string leaves a reference to the string. -/
theorem reaches_string {bound : String} {n : Node} (h : Textual bound n) {first : Nat} {t : Text}
    {left : Cell} (split : a.instrs = before ++ (Layout.string a.program.linkage first n ++ after))
    (poised : a.Poised before s) (aligned : level before % 16 = 8)
    (listed : a.program.literals.Lists first n.literals)
    (value : Eval.string bound s.cell n = some (t, left)) :
    a.Reaches (a.Spelled before (Layout.string a.program.linkage first n) n first t left s) s := by
  induction h generalizing before after s first t left with
  | string text =>
    cases value
    exact reaches_literal split poised (listed 0 text rfl)
  | var =>
    obtain ⟨rfl, rfl⟩ : s.cell.text = t ∧ s.cell.withText = left := by
      simpa [Eval.string] using value
    exact reaches_readString split poised aligned
  | @concat lhs rhs leftTree rightTree ihLeft ihRight =>
    -- The left operand may fill the text slot, so the right one starts from another cell.
    obtain ⟨u, between, leftValue⟩ := leftTree.eval s.cell
    obtain ⟨v, last, rightValue⟩ := rightTree.eval between
    obtain ⟨rfl, rfl⟩ : u ++ v = t ∧ last = left := by
      simpa [Eval.string, leftValue, rightValue] using value
    have flatLeft := Layout.level_string (l := a.program.linkage) first lhs
    have flatRight := Layout.level_string (l := a.program.linkage) (first + lhs.literals.length) rhs
    rw [Layout.string, concat_eq, List.append_assoc] at split
    refine (reaches_operands split poised aligned flatLeft flatRight
      (fun split => ihLeft split poised aligned listed.left leftValue)
      (fun split poised aligned cell => ihRight split poised aligned listed.right
        (cell ▸ rightValue))).bind fun s₁ paired => ?_
    exact reaches_join (split_append split) aligned flatLeft flatRight paired

end Activation

end TreeJit
