import TreeJit.Proofs.Layout

/-! # Functions while they run

An activation is one call of a function: its instructions, the caller's
registers, and a host that decides what helpers leave behind.

* `Activation.Poised` — the frame is open and control is before the instruction
  that follows the given ones.
* `Ready` — what an instruction needs so that it does no harm: a call needs an
  aligned stack and proper arguments, a store a place below the frame.
* `Activation.OnTrack` — control is before an instruction of the function, and
  that instruction is ready.
* `Activation.Reaches`, `Activation.Leads` — a run stays on track until it gets
  somewhere: in finitely many steps, or as far as a number of steps takes it.
-/

namespace TreeJit

open X86 (Instr encodeAll codeSize)
open Layout (level)

namespace Machine

/-! ## Addresses -/

/-- Whether things that lie at different places have different addresses. -/
def Program.Separates (p : Program) : Prop :=
  ∀ s ∈ p.symbols, ∀ t ∈ p.symbols, p.linkage.address s = p.linkage.address t → s = t

namespace Program

variable {p : Program}

theorem Separates.locate_address (h : p.Separates) {s : Symbol} (known : s ∈ p.symbols) :
    p.locate (p.linkage.address s) = some s := by
  unfold locate Linkage.locate
  cases found : p.symbols.find? fun t => p.linkage.address t == p.linkage.address s with
  | none =>
    have missed := List.find?_eq_none.1 found s known
    simp at missed
  | some t =>
    have same : p.linkage.address t = p.linkage.address s := by simpa using List.find?_some found
    rw [h t (List.mem_of_find?_eq_some found) s known same]

theorem cell_mem_symbols (p : Program) : Symbol.cell ∈ p.symbols := by simp [symbols]

theorem helper_mem_symbols (p : Program) (h : Helper) : Symbol.helper h ∈ p.symbols := by
  cases h <;> simp [symbols, Helper.all]

theorem literal_mem_symbols {index : Nat} {t : Text} (held : p.literals.get? index = some t) :
    Symbol.literal index ∈ p.symbols := by
  unfold Literals.get? at held
  split at held
  case isFalse => cases held
  case isTrue low =>
    -- The literal is one of the texts that are listed, so its symbol is listed, too.
    have inside : index - p.literals.first < p.literals.texts.length :=
      (List.getElem?_eq_some_iff.1 held).1
    have listed : Symbol.literal index ∈ p.literals.symbols := by
      simp only [Literals.symbols, List.mem_map, List.mem_range'_1]
      exact ⟨index, by omega, rfl⟩
    exact List.mem_cons_of_mem _ (List.mem_append_right _ listed)

end Program

/-! ## What instructions need -/

/-- What a helper needs of the state in which it is called: the cell where it works on the cell, and
strings that can be followed where it takes strings.  The cell's own text is never written to the
cell. -/
def Serviceable (p : Program) (s : State) : Helper → Prop
  | .readNumber | .readString | .writeNumber => s.registers.rdi = .bits (p.linkage.address .cell)
  | .writeString =>
    s.registers.rdi = .bits (p.linkage.address .cell) ∧
      (∃ t, State.textAt p s s.registers.rsi = .ok t) ∧ ∀ version, s.registers.rsi ≠ .slot version
  | .concat =>
    (∃ t, State.textAt p s s.registers.rdi = .ok t) ∧ ∃ t, State.textAt p s s.registers.rsi = .ok t
  | .remainder => True

/-- The value of the stack pointer and of `rbp` while a frame is open and nothing is on the stack. -/
def frameBase : Int := -8

/-- What an instruction needs while the frame is open: a call an aligned stack and a helper that can
serve, a store a word of its own below the frame.  There is no return before the frame is closed. -/
def Ready (p : Program) (s : State) : Instr → Prop
  | .call reg => ∃ h address, s.registers.get reg = .bits (p.linkage.address (.helper h)) ∧
      s.registers.rsp = .stack address ∧ (address + 8) % 16 = 0 ∧ Serviceable p s h
  | .store _ => ∃ address, s.registers.rsp = .stack address ∧ address + wordSize ≤ frameBase
  | .ret => False
  | _ => True

end Machine

open Machine

/-! ## Activations -/

/-- One call of a function. -/
structure Activation where
  host : Host
  program : Program
  instrs : List Instr
  /-- The registers at the entry. -/
  entry : Registers
  code : program.code.toList = encodeAll instrs
  separates : program.Separates

namespace Activation

/-- The frame is open, and control is behind the instructions `before`, which have moved the stack
by their level. -/
structure Poised (a : Activation) (before : List Instr) (s : State) : Prop where
  pc : s.pc = codeSize before
  rsp : s.registers.rsp = .stack (-level before)
  rbp : s.registers.rbp = .stack frameBase
  rbx : s.registers.rbx = a.entry.rbx
  deep : 8 ≤ level before
  saved : s.memory.load frameBase = some a.entry.rbp
  caller : s.memory.load 0 = some .caller

/-- The frame is not open yet or not open any more. -/
structure Bare (a : Activation) (before : List Instr) (s : State) : Prop where
  pc : s.pc = codeSize before
  rsp : s.registers.rsp = .stack (-level before)
  rbp : s.registers.rbp = a.entry.rbp
  rbx : s.registers.rbx = a.entry.rbx
  caller : s.memory.load 0 = some .caller

/-- Control is before an instruction of the function, which is ready. -/
inductive OnTrack (a : Activation) (s : State) : Prop where
  | framed {before after : List Instr} {i : Instr} (split : a.instrs = before ++ i :: after)
      (poised : a.Poised before s) (ready : Ready a.program s i)
  | bare {before after : List Instr} {i : Instr} (split : a.instrs = before ++ i :: after)
      (bare : a.Bare before s) (edge : before.length < 2 ∨ after = []) (idle : ∀ reg, i ≠ .call reg)

/-! ## Runs -/

/-- A run stays on track until it gets to a state with the property `Q`. -/
inductive Reaches (a : Activation) (Q : State → Prop) : State → Prop where
  | arrive {s : State} (h : Q s) : Reaches a Q s
  | step {s s' : State} (track : a.OnTrack s)
      (taken : Machine.step a.host a.program s = .running s') (rest : Reaches a Q s') :
      Reaches a Q s

/-- A run stays on track for the given number of steps, or until it gets to a state with the
property `Q`. -/
inductive Leads (a : Activation) (Q : State → Prop) : Nat → State → Prop where
  | stop {s : State} (track : a.OnTrack s) : Leads a Q 0 s
  | arrive {count : Nat} {s : State} (h : Q s) : Leads a Q count s
  | step {count : Nat} {s s' : State} (track : a.OnTrack s)
      (taken : Machine.step a.host a.program s = .running s') (rest : Leads a Q count s') :
      Leads a Q (count + 1) s

variable {a : Activation} {before after : List Instr} {i : Instr} {s s' : State}
  {Q R : State → Prop} {count count' : Nat}

theorem Reaches.bind (first : a.Reaches Q s) (second : ∀ s', Q s' → a.Reaches R s') :
    a.Reaches R s := by
  induction first with
  | arrive h => exact second _ h
  | step track taken _ ih => exact .step track taken ih

theorem Reaches.mono (h : a.Reaches Q s) (weaken : ∀ s', Q s' → R s') : a.Reaches R s :=
  h.bind fun s' arrived => .arrive (weaken s' arrived)

theorem Leads.less (h : a.Leads Q count s) (le : count' ≤ count) : a.Leads Q count' s := by
  induction h generalizing count' with
  | stop track =>
    obtain rfl : count' = 0 := Nat.le_zero.1 le
    exact .stop track
  | arrive h => exact .arrive h
  | step track taken _ ih =>
    cases count' with
    | zero => exact .stop track
    | succ count' => exact .step track taken (ih (Nat.le_of_succ_le_succ le))

/-- A step on the track, with what comes after it in the steps that are left. -/
theorem Leads.later (track : a.OnTrack s)
    (taken : Machine.step a.host a.program s = .running s')
    (rest : ∀ fewer < count, a.Leads Q fewer s') : a.Leads Q count s := by
  cases count with
  | zero => exact .stop track
  | succ fewer => exact .step track taken (rest fewer (Nat.lt_succ_self _))

theorem Leads.bind (first : a.Leads Q count s) (second : ∀ s', Q s' → a.Leads R count s') :
    a.Leads R count s := by
  induction first with
  | stop track => exact .stop track
  | arrive h => exact second _ h
  | step track taken _ ih =>
    -- Arriving later leaves fewer steps for what follows.
    exact .step track taken (ih fun s' arrived => (second s' arrived).less (Nat.le_succ _))

theorem Leads.mono (h : a.Leads Q count s) (weaken : ∀ s', Q s' → R s') : a.Leads R count s :=
  h.bind fun s' arrived => .arrive (weaken s' arrived)

theorem Reaches.leads (h : a.Reaches Q s) (count : Nat) : a.Leads Q count s := by
  induction h generalizing count with
  | arrive h => exact .arrive h
  | step track taken _ ih =>
    cases count with
    | zero => exact .stop track
    | succ count => exact .step track taken (ih count)

/-- A state that is reached is what the run is in after some number of steps. -/
theorem Reaches.run (h : a.Reaches Q s) :
    ∃ count s', Machine.run a.host a.program count s = .running s' ∧ Q s' := by
  induction h with
  | arrive h => exact ⟨0, _, rfl, h⟩
  | step _ taken _ ih =>
    obtain ⟨count, s', ran, arrived⟩ := ih
    exact ⟨count + 1, s', by rw [Machine.run, taken]; exact ran, arrived⟩

/-! ## One step -/

/-- Control behind an instruction, before it is carried out. -/
def past (before : List Instr) (i : Instr) (s : State) : State :=
  { s with pc := codeSize (before ++ [i]) }

/-- At an instruction of the function, the machine carries out that instruction. -/
theorem step_of_execute (split : a.instrs = before ++ i :: after) (pc : s.pc = codeSize before)
    (notRet : i ≠ .ret) (done : execute a.host a.program (past before i s) i = .ok s') :
    Machine.step a.host a.program s = .running s' := by
  have fetched := fetch_of_split (a.code.trans (congrArg encodeAll split))
  unfold Machine.step
  rw [pc, fetched]
  cases i with
  | ret => exact absurd rfl notRet
  | _ =>
    unfold past at done
    simp only [done]

theorem Reaches.framed (split : a.instrs = before ++ i :: after) (poised : a.Poised before s)
    (ready : Ready a.program s i)
    (done : execute a.host a.program (past before i s) i = .ok s') (rest : a.Reaches Q s') :
    a.Reaches Q s := by
  have notRet : i ≠ .ret := by
    rintro rfl
    exact ready
  exact .step (.framed split poised ready) (step_of_execute split poised.pc notRet done) rest

end Activation

end TreeJit
