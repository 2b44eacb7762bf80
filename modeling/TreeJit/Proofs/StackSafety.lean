import TreeJit.Proofs.Meaning

/-! # The stack of compiled code

Where the code of each part of a tree starts, how deep the stack is there, and
what that says about every state of a run.

* `Layout.starts` — the places where the code of a tree's parts starts, each
  with the number of operators whose right operand it belongs to.
* `Layout.fits_of_mem_starts` — the stack is 16 bytes deeper for each of them.
* `compile_keeps_stack` — control stays at the instructions of the function, and
  the stack is in order at each of them.
-/

namespace TreeJit

open X86 (Instr Gpr codeSize codeSize_append decodeAll encodeAll spillSlot pushPad prologue epilogue)
open Machine

namespace Layout

/-! ## Parts of a tree -/

/-- A place where the code of a part of a tree starts. -/
structure Start where
  node : Node
  /-- The code of the part. -/
  code : List Instr
  /-- What stands before that code. -/
  before : List Instr
  /-- How many operators wait for the right operand that the part belongs to. -/
  depth : Nat

/-- The same place, seen from further ahead. -/
def Start.behind (ahead : List Instr) (waiting : Nat) (start : Start) : Start :=
  { start with before := ahead ++ start.before, depth := start.depth + waiting }

/-- The parts of a number. -/
def numberStarts (l : Linkage) : Node → List Start
  | .binary op lhs rhs =>
    ⟨.binary op lhs rhs, number l (.binary op lhs rhs), [], 0⟩ :: (numberStarts l lhs ++
      (numberStarts l rhs).map (.behind (number l lhs ++ [Instr.subSp spillSlot, .store .xmm0]) 1))
  | .neg operand => ⟨.neg operand, number l (.neg operand), [], 0⟩ :: numberStarts l operand
  | other => [⟨other, number l other, [], 0⟩]

/-- The parts of a string. -/
def stringStarts (l : Linkage) (first : Nat) : Node → List Start
  | .concat lhs rhs =>
    ⟨.concat lhs rhs, string l first (.concat lhs rhs), [], 0⟩ :: (stringStarts l first lhs ++
      (stringStarts l (first + lhs.literals.length) rhs).map
        (.behind (string l first lhs ++ [Instr.push .rax, .subSp pushPad]) 1))
  | other => [⟨other, string l first other, [], 0⟩]

/-- The parts of a value that is assigned. -/
def valueStarts (l : Linkage) (first : Nat) (value : Node) : List Start :=
  match value with
  | .string _ | .concat _ _ => stringStarts l first value
  | _ => numberStarts l value

/-- The parts of a tree. -/
def starts (l : Linkage) (first : Nat) : Node → List Start
  | .assign name value =>
    ⟨.assign name value, node l first (.assign name value), [], 0⟩ :: valueStarts l first value
  | .loop cond body =>
    ⟨.loop cond body, node l first (.loop cond body), [], 0⟩ :: (numberStarts l cond ++
      (starts l (first + cond.literals.length) body).map
        (.behind (loopTest (number l cond)
          (loopTail (node l (first + cond.literals.length) body))) 0))
  | .string text => stringStarts l first (.string text)
  | .concat lhs rhs => stringStarts l first (.concat lhs rhs)
  | other => numberStarts l other

/-- Whether a part's code is where it is said to start, with the stack 16 bytes deeper for each
operator that waits. -/
structure Start.Fits (start : Start) (whole : List Instr) : Prop where
  code : ∃ after, whole = start.before ++ (start.code ++ after)
  level : level start.before = 16 * start.depth

variable {l : Linkage} {whole : List Instr} {start : Start}

theorem Start.Fits.append (h : start.Fits whole) (after : List Instr) :
    start.Fits (whole ++ after) := by
  obtain ⟨rest, code⟩ := h.code
  exact ⟨⟨rest ++ after, by rw [code]; simp only [List.append_assoc]⟩, h.level⟩

theorem Start.Fits.behind {ahead : List Instr} {waiting : Nat} (h : start.Fits whole)
    (depth : Layout.level ahead = 16 * waiting) :
    (start.behind ahead waiting).Fits (ahead ++ whole) := by
  obtain ⟨rest, code⟩ := h.code
  refine ⟨⟨rest, ?_⟩, ?_⟩
  · rw [code]
    exact (List.append_assoc _ _ _).symm
  · simp only [Start.behind, level_append, depth, h.level]
    omega

theorem Start.Fits.self (n : Node) (code : List Instr) : (Start.mk n code [] 0).Fits code :=
  ⟨⟨[], (List.append_nil _).symm⟩, rfl⟩

theorem fits_of_mem_numberStarts {n : Node} (member : start ∈ numberStarts l n) :
    start.Fits (number l n) := by
  induction n using numberStarts.induct generalizing start with
  | case1 op lhs rhs left right =>
    rw [numberStarts, List.mem_cons, List.mem_append, List.mem_map] at member
    rcases member with rfl | member | ⟨inner, member, rfl⟩
    · exact .self _ _
    · exact (left member).append _
    -- The right operand is computed while the left one is on the stack.
    · have deeper : level (number l lhs ++ [Instr.subSp spillSlot, .store .xmm0]) = 16 * (1 : Nat) := by
        simp [effect, Activation.signedByte_spillSlot]
      have placed := ((right member).append
        (.load .xmm1 :: .addSp spillSlot :: applyOp l op)).behind deeper
      simpa [number, binary] using placed
  | case2 operand ih =>
    rw [numberStarts, List.mem_cons] at member
    rcases member with rfl | member
    · exact .self _ _
    · exact (ih member).append _
  | case3 n notBinary notNeg =>
    rw [numberStarts, List.mem_singleton] at member
    · rw [member]
      exact .self _ _
    · exact notBinary
    · exact notNeg

theorem fits_of_mem_stringStarts {first : Nat} {n : Node} (member : start ∈ stringStarts l first n) :
    start.Fits (string l first n) := by
  induction first, n using string.induct generalizing start with
  | case3 first lhs rhs left right =>
    rw [stringStarts, List.mem_cons, List.mem_append, List.mem_map] at member
    rcases member with rfl | member | ⟨inner, member, rfl⟩
    · exact .self _ _
    · exact (left member).append _
    -- As for numbers, with the reference and a pad on the stack.
    · have deeper : level (string l first lhs ++ [Instr.push .rax, .subSp pushPad]) = 16 * (1 : Nat) := by
        simp [effect, Activation.signedByte_pushPad, wordSize]
      have placed := ((right member).append (.addSp pushPad :: .pop .rcx :: .mov .rsi .rax ::
        .mov .rdi .rcx :: callHelper l .concat)).behind deeper
      simpa [string, concat] using placed
  | case1 first text | case2 first name =>
    rw [stringStarts, List.mem_singleton] at member
    · rw [member]
      exact .self _ _
    · rintro _ _ ⟨⟩
  | case4 first n _ _ notConcat =>
    rw [stringStarts, List.mem_singleton] at member
    · rw [member]
      exact .self _ _
    · exact notConcat

theorem fits_of_mem_valueStarts {first : Nat} {value : Node}
    (member : start ∈ valueStarts l first value) : start.Fits (assign l first value) := by
  unfold valueStarts at member
  split at member
  · exact (fits_of_mem_stringStarts member).append _
  · exact (fits_of_mem_stringStarts member).append _
  · rename_i notString notConcat
    unfold assign
    split
    · exact absurd rfl (notString _)
    · exact absurd rfl (notConcat _ _)
    · exact (fits_of_mem_numberStarts member).append _

/-- The code of a tree's parts is where it is said to start, and the stack is as deep there as is
said. -/
theorem fits_of_mem_starts {first : Nat} {n : Node} (member : start ∈ starts l first n) :
    start.Fits (node l first n) := by
  induction first, n using starts.induct generalizing start with
  | case1 first name value =>
    rw [starts, List.mem_cons] at member
    rcases member with rfl | member
    · exact .self _ _
    · exact fits_of_mem_valueStarts member
  | case2 first cond body ih =>
    rw [starts, List.mem_cons, List.mem_append, List.mem_map] at member
    rcases member with rfl | member | ⟨inner, member, rfl⟩
    · exact .self _ _
    · have placed := ((fits_of_mem_numberStarts member).append
        [.xorpd .xmm1 .xmm1, .ucomisd .xmm0 .xmm1,
          .je (Int32.ofInt (loopTail (node l (first + cond.literals.length) body)))]).append
        (node l (first + cond.literals.length) body ++ [Instr.jmp (Int32.ofInt
          (-loopSize (number l cond) (node l (first + cond.literals.length) body)))])
      exact placed
    · have flat : level (loopTest (number l cond)
          (loopTail (node l (first + cond.literals.length) body))) = 16 * (0 : Nat) := by simp
      exact ((ih member).append _).behind flat
  | case3 first text => exact fits_of_mem_stringStarts member
  | case4 first lhs rhs => exact fits_of_mem_stringStarts member
  | case5 first n notAssign notLoop notString notConcat =>
    rw [starts] at member
    · have code : node l first n = number l n := by
        cases n <;> simp_all [node]
      rw [code]
      exact fits_of_mem_numberStarts member
    · exact notAssign
    · exact notLoop
    · exact notString
    · exact notConcat

end Layout

/-! ## States of a run -/

namespace Machine

/-- Where an instruction stores a word if the stack pointer is at `sp`.  A call stores the address
that it returns to. -/
def storesAt (sp : Int) : Instr → Option Int
  | .push _ | .call _ => some (sp - wordSize)
  | .store _ => some sp
  | _ => none

/-- The stack is in order before an instruction: the frame is open, nothing but what lies below it is
overwritten, and calls find the stack aligned to 16 bytes.  Stack addresses count from the entry,
where the stack pointer is 8 modulo 16. -/
structure StackInOrder (sp : Int) (s : State) (i : Instr) : Prop where
  rsp : s.registers.rsp = .stack sp
  rbp : s.registers.rbp = .stack frameBase
  low : sp ≤ frameBase
  stores : ∀ address, storesAt sp i = some address → address + wordSize ≤ frameBase
  aligned : ∀ reg, i = .call reg → (sp + 8) % 16 = 0

end Machine

namespace Activation

variable {a : Activation} {before after : List Instr} {i : Instr} {s : State}

theorem Poised.stackInOrder (poised : a.Poised before s) (ready : Ready a.program s i) :
    StackInOrder (-Layout.level before) s i := by
  have base : frameBase = -8 := rfl
  have word : wordSize = 8 := rfl
  have deep := poised.deep
  refine ⟨poised.rsp, poised.rbp, by omega, fun address stores => ?_, ?_⟩
  · cases i with
    | push _ | call _ =>
      cases stores
      omega
    | store _ =>
      cases stores
      obtain ⟨address, rsp, below⟩ := ready
      cases poised.rsp.symm.trans rsp
      exact below
    | _ => cases stores
  · rintro reg rfl
    obtain ⟨_, address, -, rsp, aligned, -⟩ := ready
    cases poised.rsp.symm.trans rsp
    exact aligned

end Activation

/-- Code of the same size before a place is the same code. -/
theorem X86.prefix_eq_of_codeSize_eq {before after before' after' : List Instr}
    (split : before ++ after = before' ++ after') (size : codeSize before = codeSize before') :
    before = before' := by
  have empty {is : List Instr} (h : codeSize is = 0) : is = [] :=
    List.length_eq_zero_iff.1 (Nat.le_zero.1 (h ▸ length_le_codeSize is))
  rcases List.append_eq_append_iff.1 split with ⟨more, same, -⟩ | ⟨more, same, -⟩
  · rw [same, codeSize_append] at size
    rw [same, empty (by omega : codeSize more = 0), List.append_nil]
  · rw [same, codeSize_append] at size
    rw [same, empty (by omega : codeSize more = 0), List.append_nil]

namespace Activation

variable {a : Activation} {s : State} {bound : String} {kind : ValueKind} {root : Node}
  {first : Nat}

/-- What is known of a function's state before one of its instructions. -/
structure AtInstruction (a : Activation) (root : Node) (first : Nat) (s : State)
    (before : List Instr) (i : Instr) : Prop where
  pc : s.pc = codeSize before
  body : prologue.length ≤ before.length →
    before.length ≤ (prologue ++ Layout.node a.program.linkage first root).length →
    ∃ sp, StackInOrder sp s i ∧ ∀ start ∈ Layout.starts a.program.linkage first root,
      s.pc = codeSize (prologue ++ start.before) → sp = frameBase - 16 * start.depth
  leaving : i = .ret → s.registers.rsp = .stack 0 ∧ s.memory.load 0 = some .caller ∧
    s.registers.rbp = a.entry.rbp ∧ s.registers.rbx = a.entry.rbx

theorem Runs.level_before_ret (runs : a.Runs bound kind root first) {before : List Instr}
    (split : a.instrs = before ++ [Instr.ret]) : Layout.level before = 0 := by
  have whole : Layout.level a.instrs = 0 := by
    rw [runs.code, Layout.function, Layout.level_append, Layout.level_append, Layout.level_node]
    rfl
  rw [split, Layout.level_append] at whole
  simpa [Layout.effect] using whole

theorem OnTrack.atInstruction (track : a.OnTrack s) (runs : a.Runs bound kind root first) :
    ∃ before i after, a.instrs = before ++ i :: after ∧ a.AtInstruction root first s before i := by
  cases track with
  | @framed before after i split poised ready =>
    refine ⟨before, i, after, split, poised.pc, fun _ _ => ?_, ?_⟩
    · refine ⟨-Layout.level before, poised.stackInOrder ready, fun start member pc => ?_⟩
      have fits := Layout.fits_of_mem_starts member
      obtain ⟨rest, code⟩ := fits.code
      have placed : a.instrs = (prologue ++ start.before) ++ (start.code ++ rest ++ epilogue) := by
        rw [runs.code, Layout.function, code]
        simp only [List.append_assoc]
      -- Two places in the function with the same address are the same place.
      have path : before = prologue ++ start.before :=
        X86.prefix_eq_of_codeSize_eq (split.symm.trans placed) (poised.pc.symm.trans pc)
      rw [path, Layout.level_append, fits.level, level_prologue]
      unfold frameBase
      omega
    · rintro rfl
      exact ready.elim
  | @bare before after i split bare edge _ =>
    have total := congrArg List.length (runs.code.symm.trans split)
    simp only [Layout.function, List.length_append, List.length_cons, prologue, epilogue,
      List.length_nil] at total
    refine ⟨before, i, after, split, bare.pc, fun low high => ?_, ?_⟩
    · simp only [prologue, List.length_append, List.length_cons, List.length_nil] at low high
      -- Outside of the frame, control is in the prologue or at the return.
      rcases edge with opening | rfl
      · omega
      · simp only [List.length_nil] at total
        omega
    · rintro rfl
      rcases edge with opening | rfl
      · have opened := runs.code.symm.trans split
        cases before with
        | nil => cases opened
        | cons _ before =>
          cases before with
          | nil => cases opened
          | cons _ _ => simp only [List.length_cons] at opening; omega
      · have flat := runs.level_before_ret split
        have rsp := bare.rsp
        rw [flat] at rsp
        exact ⟨rsp, bare.caller, bare.rbp, bare.rbx⟩

end Activation

/-- Compiled code keeps control and the stack in order.  In every state of a run, whatever helpers
leave behind, control is at the first byte of one of the function's instructions.  Between prologue
and epilogue, the stack pointer is not above the frame, `rbp` points to the frame, emitted
instructions store below the frame only, calls find the stack aligned, and where the code of a part of
the tree starts, the stack is 16 bytes deeper for each operator that waits for its right operand.  At
the return, the stack pointer points at the return address, and `rbp` and `rbx` are as at the entry. -/
theorem compile_keeps_stack {config : Config} {ctx : Context} {root : Node} {made : CompiledCode}
    (compiled : (compile config ctx root).result = .ok made) (separates : made.program.Separates)
    (host : Host) (registers : Registers) (vectors : Vectors) (flag : Bool) (cell : Cell) :
    let body := Layout.node ctx.linkage ctx.firstLiteral root
    let parts := Layout.starts ctx.linkage ctx.firstLiteral root
    decodeAll made.code.toList = some (prologue ++ (body ++ epilogue)) ∧
    (∀ part ∈ parts, ∃ after, body = part.before ++ (part.code ++ after)) ∧
    (∀ fuel s,
      Machine.run host made.program fuel (State.enter registers vectors flag cell) = .running s →
      ∃ before i after, prologue ++ (body ++ epilogue) = before ++ i :: after ∧
        s.pc = codeSize before ∧
        (prologue.length ≤ before.length → before.length ≤ (prologue ++ body).length →
          ∃ sp, StackInOrder sp s i ∧ ∀ part ∈ parts,
            s.pc = codeSize (prologue ++ part.before) → sp = frameBase - 16 * part.depth) ∧
        (i = .ret → s.registers.rsp = .stack 0 ∧ s.memory.load 0 = some .caller ∧
          s.registers.rbp = registers.rbp ∧ s.registers.rbx = registers.rbx)) ∧
    (∀ fuel s,
      Machine.run host made.program fuel (State.enter registers vectors flag cell) = .returned s →
      s.registers.rsp = .stack wordSize ∧ s.registers.rbp = registers.rbp ∧
        s.registers.rbx = registers.rbx) ∧
    ∀ fuel t,
      Machine.run host made.program fuel (State.enter registers vectors flag cell) ≠ .trapped t := by
  intro body parts
  have origin := compile_ok compiled
  have runs := origin.runs separates host registers
  have linked : made.program.linkage = ctx.linkage := origin.linkage
  refine ⟨?_, fun part member => (Layout.fits_of_mem_starts member).code, fun fuel s ran => ?_,
    fun fuel s ran => ?_, runs.not_trapped vectors flag cell⟩
  · rw [show made.code.toList = encodeAll (prologue ++ (body ++ epilogue)) from origin.code]
    exact X86.decodeAll_encodeAll _
  · obtain ⟨before, i, after, split, place⟩ := (runs.onTrack ran).atInstruction runs
    have inBody := place.body
    change _ → _ ≤ (prologue ++ Layout.node made.program.linkage _ _).length →
      ∃ _, _ ∧ ∀ _ ∈ Layout.starts made.program.linkage _ _, _ at inBody
    rw [linked] at inBody
    exact ⟨before, i, after, split, place.pc, inBody, place.leaving⟩
  · obtain ⟨_, -, -, finished⟩ := runs.finished ran
    exact ⟨finished.rsp, finished.rbp, finished.rbx⟩

/-- A loop that does not end keeps control at its instructions. -/
theorem compiled_loop_keeps_stack :
    ∃ made, (compile {} { variableName := "x" } (.loop (.number ⟨0x3ff0000000000000⟩)
        (.assign "x" (.binary .add (.var "x") (.var "x"))))).result = .ok made ∧
      made.program.Separates ∧
      ∀ fuel, ∃ s, Machine.run Host.zero made.program fuel (State.enter .zero .zero false .fresh) =
          .running s ∨
        Machine.run Host.zero made.program fuel (State.enter .zero .zero false .fresh) = .returned s ∧
          s.registers.rsp = .stack wordSize := by
  obtain ⟨made, compiled, -, separates⟩ := exists_compiled {} { variableName := "x" }
    (.loop (.number ⟨0x3ff0000000000000⟩) (.assign "x" (.binary .add (.var "x") (.var "x")))) rfl
    (by decide) (by decide) rfl rfl (by decide) rfl (by decide)
  obtain ⟨-, -, -, returns, noTrap⟩ :=
    compile_keeps_stack compiled separates Host.zero .zero .zero false .fresh
  refine ⟨made, compiled, separates, fun fuel => ?_⟩
  cases ended : Machine.run Host.zero made.program fuel (State.enter .zero .zero false .fresh) with
  | running s => exact ⟨s, .inl rfl⟩
  | returned s => exact ⟨s, .inr ⟨rfl, (returns fuel s ended).1⟩⟩
  | trapped t => exact absurd ended (noTrap fuel t)

end TreeJit
