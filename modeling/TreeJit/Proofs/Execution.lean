import TreeJit.Proofs.Activation

/-! # Carrying out instructions

One lemma for each kind of instruction that functions consist of.  Each says
what has to be shown of the state after the instruction so that a run from the
state before it gets to its goal.

* `Activation.Reaches.quiet` — instructions that only touch scratch registers.
* `Activation.Reaches.callHelper` — a call of a helper, with what the helper has
  done (`Served`) and what the call leaves alone.
* `Activation.jump_lands` — a jump that is taken.
-/

namespace TreeJit

open X86 (Instr Gpr Xmm codeSize)
open Layout (level effect)

namespace Machine

/-! ## What stays the same -/

/-- Whether the memory from an address on is the same. -/
def KeepsFrom (bottom : Int) (s s' : State) : Prop :=
  ∀ address, bottom ≤ address → s'.memory.load address = s.memory.load address

theorem KeepsFrom.refl (bottom : Int) (s : State) : KeepsFrom bottom s s := fun _ _ => rfl

theorem KeepsFrom.trans {bottom : Int} {s s' s'' : State} (first : KeepsFrom bottom s s')
    (second : KeepsFrom bottom s' s'') : KeepsFrom bottom s s'' :=
  fun address above => (second address above).trans (first address above)

theorem KeepsFrom.mono {bottom bottom' : Int} {s s' : State} (h : KeepsFrom bottom s s')
    (le : bottom ≤ bottom') : KeepsFrom bottom' s s' :=
  fun address above => h address (Int.le_trans le above)

theorem KeepsFrom.store {bottom address : Int} (s : State) (w : Word) (below : address < bottom) :
    KeepsFrom bottom s { s with memory := s.memory.store address w } := by
  intro b above
  exact (Memory.load_store _ _ _ _).trans (if_neg (by omega))

/-- Whether the cell and the heap are the same. -/
structure SameWorld (s s' : State) : Prop where
  cell : s'.cell = s.cell
  version : s'.version = s.version
  heap : s'.heap = s.heap

theorem SameWorld.refl (s : State) : SameWorld s s := ⟨rfl, rfl, rfl⟩

theorem SameWorld.trans {s s' s'' : State} (first : SameWorld s s') (second : SameWorld s' s'') :
    SameWorld s s'' :=
  ⟨second.cell.trans first.cell, second.version.trans first.version,
    second.heap.trans first.heap⟩

/-- Whether two states differ in no register that a function has to take care of, and not in
memory. -/
structure Quiet (s s' : State) : Prop where
  pc : s'.pc = s.pc
  rsp : s'.registers.rsp = s.registers.rsp
  rbp : s'.registers.rbp = s.registers.rbp
  rbx : s'.registers.rbx = s.registers.rbx
  memory : s'.memory = s.memory

/-- Whether code may use a register without saving it. -/
def IsScratch : Gpr → Bool
  | .rsp | .rbp | .rbx => false
  | _ => true

theorem Quiet.setRegister (s : State) {dst : Gpr} (w : Word) (scratch : IsScratch dst) :
    Quiet s (s.setRegister dst w) := by
  cases dst with
  | rsp | rbp | rbx => cases scratch
  | _ => exact ⟨rfl, rfl, rfl, rfl, rfl⟩

theorem Quiet.setVector (s : State) (dst : Xmm) (x : Double) : Quiet s (s.setVector dst x) :=
  ⟨rfl, rfl, rfl, rfl, rfl⟩

/-- The text that a reference leads to depends on the cell and the heap only. -/
theorem textAt_of_sameWorld {p : Program} {s s' : State} (same : SameWorld s s') (w : Word) :
    State.textAt p s' w = State.textAt p s w := by
  cases w with
  | bits _ | stack _ | caller => rfl
  | slot version => rw [State.textAt, State.textAt, same.version, same.cell]
  | block index => rw [State.textAt, State.textAt, same.heap]

end Machine

open Machine

namespace Activation

variable {a : Activation} {before after : List Instr} {i : Instr} {s s' : State}
  {Q : State → Prop}

/-! ## Instructions without a jump -/

theorem Poised.advance (poised : a.Poised before s) {is : List Instr}
    (pc : s'.pc = codeSize (before ++ is)) (rsp : s'.registers.rsp = .stack (-level (before ++ is)))
    (rbp : s'.registers.rbp = s.registers.rbp) (rbx : s'.registers.rbx = s.registers.rbx)
    (deep : 8 ≤ level (before ++ is)) (memory : KeepsFrom frameBase s s') :
    a.Poised (before ++ is) s' where
  pc := pc
  rsp := rsp
  rbp := rbp.trans poised.rbp
  rbx := rbx.trans poised.rbx
  deep := deep
  saved := (memory _ (Int.le_refl _)).trans poised.saved
  caller := (memory _ (by decide)).trans poised.caller

theorem Poised.quiet (poised : a.Poised before s) (quiet : Quiet (past before i s) s')
    (flat : effect i = 0) : a.Poised (before ++ [i]) s' := by
  have same : level (before ++ [i]) = level before := by simp [flat]
  refine poised.advance quiet.pc ?_ quiet.rbp quiet.rbx (same ▸ poised.deep) ?_
  · rw [quiet.rsp, same]
    exact poised.rsp
  · rintro address -
    rw [quiet.memory]
    rfl

/-- Whether an instruction goes on with the next one and needs nothing in particular. -/
def IsPlain : Instr → Bool
  | .call _ | .store _ | .je _ | .jmp _ | .ret => false
  | _ => true

theorem ready_of_isPlain {p : Program} (plain : IsPlain i) : Ready p s i := by
  cases i with
  | call _ | store _ | je _ | jmp _ | ret => cases plain
  | _ => trivial

/-- An instruction that only touches scratch registers. -/
theorem Reaches.quiet (split : a.instrs = before ++ i :: after) (poised : a.Poised before s)
    (done : execute a.host a.program (past before i s) i = .ok s')
    (quiet : Quiet (past before i s) s') (flat : effect i = 0) (plain : IsPlain i)
    (next : a.Poised (before ++ [i]) s' → a.Reaches Q s') : a.Reaches Q s :=
  .framed split poised (ready_of_isPlain plain) done (next (poised.quiet quiet flat))

/-! ### The stack -/

theorem ok_bind {ε α β : Type} (x : α) (f : α → Except ε β) : (Except.ok x >>= f) = f x := rfl

theorem stackPointer_of_eq {address : Int} (rsp : s.registers.rsp = .stack address) :
    s.stackPointer = .ok address := by
  rw [State.stackPointer, rsp]

theorem Poised.stackPointer (poised : a.Poised before s) :
    (past before i s).stackPointer = .ok (-level before) := stackPointer_of_eq poised.rsp

/-- The state after an instruction that does nothing but move the stack pointer. -/
def moved (before : List Instr) (i : Instr) (s : State) : State :=
  { (past before i s).setRegister .rsp (.stack (-level (before ++ [i]))) with zeroFlag := false }

theorem Poised.moved (poised : a.Poised before s) (deep : 8 ≤ level (before ++ [i])) :
    a.Poised (before ++ [i]) (moved before i s) :=
  poised.advance rfl rfl rfl rfl deep (.refl _ s)

theorem Reaches.moveSp {bytes : UInt8} (kind : i = .subSp bytes ∨ i = .addSp bytes)
    (split : a.instrs = before ++ i :: after) (poised : a.Poised before s)
    (deep : 8 ≤ level (before ++ [i]))
    (next : a.Poised (before ++ [i]) (moved before i s) → a.Reaches Q (moved before i s)) :
    a.Reaches Q s := by
  have sp := poised.stackPointer (i := i)
  have total : level (before ++ [i]) = level before + effect i := by simp
  have done : execute a.host a.program (past before i s) i = .ok (moved before i s) := by
    rcases kind with rfl | rfl
    · have same : -level before - signedByte bytes = -level (before ++ [Instr.subSp bytes]) := by
        simp only [total, effect]
        omega
      simp only [execute, sp, ok_bind, same]
      rfl
    · have same : -level before + signedByte bytes = -level (before ++ [Instr.addSp bytes]) := by
        simp only [total, effect]
        omega
      simp only [execute, sp, ok_bind, same]
      rfl
  have plain : IsPlain i := by rcases kind with rfl | rfl <;> rfl
  exact .framed split poised (ready_of_isPlain plain) done (next (poised.moved deep))

/-- The state after a word has been stored on the stack. -/
def stored (before : List Instr) (i : Instr) (address : Int) (w : Word) (s : State) : State :=
  { past before i s with memory := s.memory.store address w }

theorem Reaches.store {src : Xmm} (split : a.instrs = before ++ Instr.store src :: after)
    (poised : a.Poised before s) (aligned : level before % 8 = 0) (room : 16 ≤ level before)
    (next : a.Poised (before ++ [Instr.store src])
        (stored before (.store src) (-level before) (.bits (s.vectors.get src).bits) s) →
      a.Reaches Q (stored before (.store src) (-level before) (.bits (s.vectors.get src).bits) s)) :
    a.Reaches Q s := by
  have same : level (before ++ [Instr.store src]) = level before := by simp [effect]
  have base : frameBase = -8 := rfl
  have size : wordSize = 8 := rfl
  have sp := poised.stackPointer (i := .store src)
  have ready : Ready a.program s (.store src) := ⟨_, poised.rsp, by omega⟩
  refine .framed split poised ready ?_ (next ?_)
  · simp only [execute, sp, ok_bind, State.storeWord]
    exact if_pos (by omega)
  · refine poised.advance rfl ?_ rfl rfl (same ▸ poised.deep) (.store s _ (by omega))
    rw [same]
    exact poised.rsp

theorem loadWord_of_eq {address : Int} {w : Word} (aligned : address % 8 = 0)
    (held : s.memory.load address = some w) : s.loadWord address = .ok w := by
  rw [State.loadWord, if_pos aligned, held]

theorem Reaches.load {dst : Xmm} {bits : UInt64}
    (split : a.instrs = before ++ Instr.load dst :: after) (poised : a.Poised before s) (aligned : level before % 8 = 0)
    (held : s.memory.load (-level before) = some (.bits bits))
    (next : a.Poised (before ++ [Instr.load dst]) ((past before (.load dst) s).setVector dst ⟨bits⟩) →
      a.Reaches Q ((past before (.load dst) s).setVector dst ⟨bits⟩)) : a.Reaches Q s := by
  refine .quiet split poised ?_ (.setVector _ dst _) rfl rfl next
  have sp := poised.stackPointer (i := .load dst)
  have word : (past before (.load dst) s).loadWord (-level before) = .ok (.bits bits) :=
    loadWord_of_eq (by omega) held
  simp only [execute, sp, word, ok_bind, State.bitsOf]

/-- The state after a push. -/
def pushed (before : List Instr) (reg : Gpr) (s : State) : State :=
  (stored before (.push reg) (-level before - wordSize) (s.registers.get reg) s).setRegister .rsp
    (.stack (-level before - wordSize))

theorem Reaches.push {reg : Gpr} (split : a.instrs = before ++ Instr.push reg :: after)
    (poised : a.Poised before s) (aligned : level before % 8 = 0)
    (next : a.Poised (before ++ [Instr.push reg]) (pushed before reg s) →
      a.Reaches Q (pushed before reg s)) : a.Reaches Q s := by
  have target : level (before ++ [Instr.push reg]) = level before + wordSize := by simp [effect]
  have base : frameBase = -8 := rfl
  have size : wordSize = 8 := rfl
  have deep := poised.deep
  have sp := poised.stackPointer (i := .push reg)
  refine .framed split poised trivial ?_ (next ?_)
  · have whole : (-level before - wordSize) % 8 = 0 := by omega
    simp only [execute, sp, ok_bind, State.storeWord, if_pos whole]
    rfl
  · refine poised.advance rfl ?_ rfl rfl (by omega) (.store s _ (by omega))
    have same : -level before - wordSize = -level (before ++ [Instr.push reg]) := by omega
    exact congrArg Word.stack same

/-- The state after a pop into a scratch register. -/
def popped (before : List Instr) (reg : Gpr) (w : Word) (s : State) : State :=
  ((past before (.pop reg) s).setRegister .rsp (.stack (-level before + wordSize))).setRegister reg w

theorem Reaches.pop {reg : Gpr} {w : Word} (split : a.instrs = before ++ Instr.pop reg :: after)
    (poised : a.Poised before s) (scratch : IsScratch reg) (aligned : level before % 8 = 0)
    (room : 16 ≤ level before) (held : s.memory.load (-level before) = some w)
    (next : a.Poised (before ++ [Instr.pop reg]) (popped before reg w s) →
      a.Reaches Q (popped before reg w s)) : a.Reaches Q s := by
  have target : level (before ++ [Instr.pop reg]) = level before - wordSize := by
    simp [effect]
    omega
  have size : wordSize = 8 := rfl
  have sp := poised.stackPointer (i := .pop reg)
  have word : (past before (.pop reg) s).loadWord (-level before) = .ok w :=
    loadWord_of_eq (by omega) held
  have quiet := Quiet.setRegister
    ((past before (.pop reg) s).setRegister .rsp (.stack (-level before + wordSize))) w scratch
  refine .framed split poised trivial ?_ (next ?_)
  · simp only [execute, sp, word, ok_bind]
    rfl
  · refine poised.advance quiet.pc ?_ quiet.rbp quiet.rbx (by omega) ?_
    · have same : -level before + wordSize = -level (before ++ [Instr.pop reg]) := by omega
      exact quiet.rsp.trans (congrArg Word.stack same)
    · rintro address -
      rw [popped, quiet.memory]
      rfl

end Activation

/-! ## Calls -/

namespace Machine

/-- What a helper has done between the state before its call and the one after it. -/
def Served (p : Program) (s s' : State) : Helper → Prop
  | .readNumber => SameWorld s s' ∧ s'.vectors.xmm0 = s.cell.number
  | .readString =>
    s'.cell = s.cell.withText ∧
      s'.version = (if s.cell.hasText then s.version else s.version + 1) ∧ s'.heap = s.heap ∧
      s'.registers.rax = .slot s'.version
  | .writeNumber =>
    s'.cell = s.cell.setNumber s.vectors.xmm0 ∧ s'.version = s.version ∧ s'.heap = s.heap
  | .writeString => ∃ t, State.textAt p s s.registers.rsi = .ok t ∧
      s'.cell = s.cell.setText t ∧ s'.version = s.version + 1 ∧ s'.heap = s.heap
  | .concat => ∃ t u, State.textAt p s s.registers.rdi = .ok t ∧
      State.textAt p s s.registers.rsi = .ok u ∧ s'.cell = s.cell ∧ s'.version = s.version ∧
      s'.heap = s.heap.push (some (t ++ u)) ∧ s'.registers.rax = .block s.heap.size
  | .remainder => SameWorld s s' ∧ s'.vectors.xmm0 = s.vectors.xmm0.rem s.vectors.xmm1

/-- What every call leaves alone: the registers that are not scratch, and the stack from the stack
pointer on. -/
structure Returns (address : Int) (s s' : State) : Prop where
  pc : s'.pc = s.pc
  rsp : s'.registers.rsp = s.registers.rsp
  rbp : s'.registers.rbp = s.registers.rbp
  rbx : s'.registers.rbx = s.registers.rbx
  memory : KeepsFrom address s s'

/-- Whether two states look the same to a helper. -/
structure SameArguments (s s' : State) : Prop where
  rdi : s'.registers.rdi = s.registers.rdi
  rsi : s'.registers.rsi = s.registers.rsi
  vectors : s'.vectors = s.vectors
  world : SameWorld s s'

theorem Serviceable.of_same {p : Program} {s₁ s₂ : State} {h : Helper}
    (serviceable : Serviceable p s₁ h) (same : SameArguments s₁ s₂) : Serviceable p s₂ h := by
  have text := textAt_of_sameWorld (p := p) same.world
  cases h with
  | readNumber | readString | writeNumber => exact same.rdi.trans serviceable
  | writeString =>
    unfold Serviceable
    rw [same.rdi, same.rsi, text]
    exact serviceable
  | concat =>
    unfold Serviceable
    rw [same.rdi, same.rsi, text, text]
    exact serviceable
  | remainder => trivial

theorem Served.of_same {p : Program} {s₁ s₂ s' : State} {h : Helper} (served : Served p s₂ s' h)
    (same : SameArguments s₁ s₂) : Served p s₁ s' h := by
  have text := textAt_of_sameWorld (p := p) same.world
  unfold Served at served ⊢
  cases h with
  | readNumber => exact ⟨same.world.trans served.1, same.world.cell ▸ served.2⟩
  | remainder => exact ⟨same.world.trans served.1, same.vectors ▸ served.2⟩
  | _ =>
    simp only [same.world.cell, same.world.version, same.world.heap, same.rdi, same.rsi,
      same.vectors, text] at served
    exact served

theorem checkCell_cell {p : Program} (separates : p.Separates) :
    State.checkCell p (.bits (p.linkage.address .cell)) = .ok () := by
  rw [State.checkCell, separates.locate_address p.cell_mem_symbols]
  rfl

theorem perform_of_serviceable {p : Program} (separates : p.Separates) {s : State}
    (scratch : Scratch) (address : Int) {h : Helper} (serviceable : Serviceable p s h) :
    ∃ s', State.perform p s (s.scramble scratch address) h = .ok s' ∧ Served p s s' h ∧
      Returns address s s' := by
  -- The work is done on the state that has given up its scratch registers and the stack below, but
  -- with the arguments of the state before.
  let given := s.scramble scratch address
  have kept : KeepsFrom address s given := fun _ above => Memory.load_replaceBelow_of_le _ _ above
  have cell := checkCell_cell separates
  cases h with
  | readNumber =>
    refine ⟨given.setVector .xmm0 s.cell.number, ?_, ⟨⟨rfl, rfl, rfl⟩, rfl⟩,
      ⟨rfl, rfl, rfl, rfl, kept⟩⟩
    rw [State.perform, serviceable, cell]
    rfl
  | readString =>
    refine ⟨given.fillText.setRegister .rax (.slot given.fillText.version), ?_,
      ⟨rfl, rfl, rfl, rfl⟩, ⟨rfl, rfl, rfl, rfl, kept⟩⟩
    rw [State.perform, serviceable, cell]
    rfl
  | writeNumber =>
    refine ⟨{ given with cell := s.cell.setNumber s.vectors.xmm0 }, ?_, ⟨rfl, rfl, rfl⟩,
      ⟨rfl, rfl, rfl, rfl, kept⟩⟩
    rw [State.perform, serviceable, cell]
    rfl
  | writeString =>
    obtain ⟨onCell, ⟨t, text⟩, -⟩ := serviceable
    refine ⟨{ given with cell := s.cell.setText t, version := s.version + 1 }, ?_,
      ⟨t, text, rfl, rfl, rfl⟩, ⟨rfl, rfl, rfl, rfl, kept⟩⟩
    rw [State.perform, onCell, cell, text]
    rfl
  | concat =>
    obtain ⟨⟨t, left⟩, u, right⟩ := serviceable
    -- The new block is the last one of the heap.
    have newest : (s.heap.push (some (t ++ u))).size - 1 = s.heap.size := by simp
    refine ⟨{ given with heap := s.heap.push (some (t ++ u)) }.setRegister .rax
      (.block s.heap.size), ?_, ⟨t, u, left, right, rfl, rfl, rfl, rfl⟩, ⟨rfl, rfl, rfl, rfl, kept⟩⟩
    rw [State.perform, left, right, ← newest]
    rfl
  | remainder =>
    exact ⟨given.setVector .xmm0 (s.vectors.xmm0.rem s.vectors.xmm1), rfl,
      ⟨⟨rfl, rfl, rfl⟩, rfl⟩, ⟨rfl, rfl, rfl, rfl, kept⟩⟩

theorem call_of_serviceable {p : Program} (separates : p.Separates) (host : Host) {s : State}
    {h : Helper} {address : Int} (rsp : s.registers.rsp = .stack address)
    (aligned : (address + 8) % 16 = 0) (serviceable : Serviceable p s h) :
    ∃ s', s.call host p (.bits (p.linkage.address (.helper h))) = .ok s' ∧ Served p s s' h ∧
      Returns address s s' := by
  obtain ⟨s', performed, served, returns⟩ :=
    perform_of_serviceable separates (host s.calls) address serviceable
  refine ⟨s', ?_, served, returns⟩
  have located := separates.locate_address (p.helper_mem_symbols h)
  have sp : s.stackPointer = .ok address := by rw [State.stackPointer, rsp]
  simp only [State.call, sp, located]
  exact (if_neg (by omega)).trans performed

end Machine

namespace Activation

variable {a : Activation} {before after : List Instr} {s s' : State} {Q : State → Prop}

theorem Reaches.call {h : Helper} (split : a.instrs = before ++ Instr.call .rax :: after)
    (poised : a.Poised before s) (aligned : level before % 16 = 8)
    (target : s.registers.rax = .bits (a.program.linkage.address (.helper h)))
    (serviceable : Serviceable a.program s h)
    (next : ∀ s', a.Poised (before ++ [Instr.call .rax]) s' → Served a.program s s' h →
      KeepsFrom (-level before) s s' → a.Reaches Q s') : a.Reaches Q s := by
  let s₁ := past before (.call .rax) s
  -- The program counter is behind the call already, which no helper looks at.
  have same : SameArguments s s₁ := ⟨rfl, rfl, rfl, ⟨rfl, rfl, rfl⟩⟩
  have rsp : s₁.registers.rsp = .stack (-level before) := poised.rsp
  have ready : Ready a.program s (.call .rax) :=
    ⟨h, _, target, poised.rsp, by omega, serviceable⟩
  obtain ⟨s', called, served, returns⟩ :=
    call_of_serviceable a.separates a.host rsp (by omega) (serviceable.of_same same)
  have done : execute a.host a.program s₁ (.call .rax) = .ok s' := by
    rw [← target] at called
    exact called
  have deep := poised.deep
  have flat : level (before ++ [Instr.call .rax]) = level before := by simp [effect]
  refine .framed split poised ready done (next s' ?_ (served.of_same same) returns.memory)
  refine poised.advance returns.pc ?_ returns.rbp returns.rbx (flat ▸ deep) ?_
  · rw [flat]
    exact returns.rsp.trans rsp
  · exact returns.memory.mono (by unfold frameBase; omega)

/-- The state after the address of a helper has been loaded. -/
def addressed (before : List Instr) (l : Linkage) (h : Helper) (s : State) : State :=
  (past before (.movImm .rax (l.address (.helper h))) s).setRegister .rax
    (.bits (l.address (.helper h)))

theorem addressed_same (l : Linkage) (h : Helper) : SameArguments s (addressed before l h s) :=
  ⟨rfl, rfl, rfl, ⟨rfl, rfl, rfl⟩⟩

/-- A call of a helper.  Nothing that a helper looks at changes while its address is loaded. -/
theorem Reaches.callHelper {h : Helper}
    (split : a.instrs = before ++ (Layout.callHelper a.program.linkage h ++ after))
    (poised : a.Poised before s) (aligned : level before % 16 = 8)
    (serviceable : Serviceable a.program s h)
    (next : ∀ s', a.Poised (before ++ Layout.callHelper a.program.linkage h) s' →
      Served a.program s s' h → KeepsFrom (-level before) s s' → a.Reaches Q s') :
    a.Reaches Q s := by
  have same : SameArguments s (addressed before a.program.linkage h s) := addressed_same _ h
  refine .quiet split poised rfl (.setRegister _ _ rfl) rfl rfl fun poised₁ => ?_
  refine .call (split.trans (List.append_cons _ _ _)) poised₁ (by simpa [effect] using aligned) rfl
    (serviceable.of_same same) fun s' poised₂ served memory => ?_
  refine next s' ?_ (served.of_same same) ?_
  · rw [List.append_assoc] at poised₂
    exact poised₂
  · intro address low
    exact memory address (by simpa [effect] using low)

/-! ## Jumps -/

/-- A jump that is taken, to a place where the stack is as deep. -/
theorem jump_lands {i : Instr} {d : Int32} {target : List Instr}
    (split : a.instrs = before ++ i :: after) (poised : a.Poised before s)
    (kind : i = .jmp d ∨ i = .je d ∧ s.zeroFlag)
    (landing : jumpTarget (codeSize (before ++ [i])) d = codeSize target)
    (flat : level target = level before) :
    a.OnTrack s ∧ Machine.step a.host a.program s = .running { s with pc := codeSize target } ∧
      a.Poised target { s with pc := codeSize target } := by
  have jumped : (past before i s).jump (jumpTarget (codeSize (before ++ [i])) d) =
      .ok { s with pc := codeSize target } := by
    rw [landing, State.jump, if_pos (Int.natCast_nonneg _)]
    rfl
  have done : execute a.host a.program (past before i s) i =
      .ok { s with pc := codeSize target } := by
    rcases kind with rfl | ⟨rfl, zero⟩
    · exact jumped
    · exact (if_pos zero).trans jumped
  have ready : Ready a.program s i := by rcases kind with rfl | ⟨rfl, -⟩ <;> trivial
  have notRet : i ≠ .ret := by rcases kind with rfl | ⟨rfl, -⟩ <;> nofun
  refine ⟨.framed split poised ready, step_of_execute split poised.pc notRet done, ?_⟩
  exact ⟨rfl, flat ▸ poised.rsp, poised.rbp, poised.rbx, flat ▸ poised.deep, poised.saved,
    poised.caller⟩

theorem Reaches.je_skipped {d : Int32} (split : a.instrs = before ++ Instr.je d :: after)
    (poised : a.Poised before s) (nonzero : s.zeroFlag = false)
    (next : a.Poised (before ++ [Instr.je d]) (past before (.je d) s) →
      a.Reaches Q (past before (.je d) s)) : a.Reaches Q s := by
  have stays : ¬(past before (.je d) s).zeroFlag = true := by
    rw [show (past before (.je d) s).zeroFlag = false from nonzero]
    nofun
  refine .framed split poised trivial (if_neg stays) (next ?_)
  exact poised.quiet ⟨rfl, rfl, rfl, rfl, rfl⟩ rfl

end Activation

end TreeJit
