import TreeJit.Proofs.Statements

/-! # Running whole functions

From the entry of a function to its return.

* `Activation.reaches_prologue`, `Activation.reaches_epilogue` — the frame is
  opened and closed.
* `Activation.Runs.run_cases` — after any number of steps, a run is on track or has
  returned, and then the tree has been evaluated.
* `Activation.Runs.returns` — a run of a tree that evaluates to something returns.
-/

namespace TreeJit

open X86 (Instr codeSize prologue epilogue)
open Layout (level effect)
open Machine

namespace Machine

theorem run_add {host : Host} {p : Program} {m : Nat} {s u : State}
    (ran : run host p m s = .running u) (n : Nat) : run host p (m + n) s = run host p n u := by
  induction m generalizing s with
  | zero =>
    cases ran
    rw [Nat.zero_add]
  | succ m ih =>
    rw [Nat.succ_add, run]
    rw [run] at ran
    cases taken : step host p s with
    | running v =>
      rw [taken] at ran
      exact ih ran
    | returned _ | trapped _ =>
      rw [taken] at ran
      cases ran

theorem run_succ_of_running {host : Host} {p : Program} {count : Nat} {s s' : State}
    {outcome : Outcome} (ran : run host p count s = .running s')
    (taken : step host p s' = outcome) : run host p (count + 1) s = outcome := by
  rw [run_add ran 1, run, taken]
  cases outcome <;> rfl

end Machine

namespace Activation

variable {a : Activation} {before after : List Instr} {s s' : State} {Q : State → Prop}

/-! ## Opening and closing the frame -/

theorem level_prologue : level prologue = 8 := rfl

theorem reaches_prologue (split : a.instrs = prologue ++ after) (vectors : Vectors) (flag : Bool)
    (cell : Cell) : a.Reaches (fun s' => a.Poised prologue s' ∧ s'.cell = cell ∧ s'.version = 0 ∧ s'.heap = #[])
      (State.enter a.entry vectors flag cell) := by
  -- The two instructions of the prologue: the caller's frame is saved, then the own one is set up.
  let s₁ := pushed [] .rbp (State.enter a.entry vectors flag cell)
  let s₂ := (past [.push .rbp] (.mov .rbp .rsp) s₁).setRegister .rbp (.stack frameBase)
  have split₁ : a.instrs = [Instr.push .rbp] ++ Instr.mov .rbp .rsp :: after := split
  have base₀ : a.Bare [] (State.enter a.entry vectors flag cell) := ⟨rfl, rfl, rfl, rfl, rfl⟩
  have base₁ : a.Bare [.push .rbp] s₁ := ⟨rfl, rfl, rfl, rfl, rfl⟩
  have first : Machine.step a.host a.program (State.enter a.entry vectors flag cell) = .running s₁ :=
    step_of_execute split base₀.pc nofun rfl
  have second : Machine.step a.host a.program s₁ = .running s₂ :=
    step_of_execute split₁ base₁.pc nofun rfl
  refine .step (.bare split base₀ (.inl (by decide)) nofun) first ?_
  refine .step (.bare split₁ base₁ (.inl (by decide)) nofun) second ?_
  exact .arrive ⟨⟨rfl, rfl, rfl, rfl, by decide, rfl, rfl⟩, rfl, rfl, rfl⟩

/-- The frame is closed, and the return comes next.  All results are still where they were. -/
structure Closed (a : Activation) (s s' : State) : Prop where
  bare : ∃ before, a.instrs = before ++ [Instr.ret] ∧ level before = 0 ∧ a.Bare before s'
  world : SameWorld s s'
  rax : s'.registers.rax = s.registers.rax
  vectors : s'.vectors = s.vectors

theorem reaches_epilogue (split : a.instrs = before ++ epilogue) (poised : a.Poised before s)
    (flat : level before = 8) : a.Reaches (a.Closed s) s := by
  -- The stack pointer goes to the frame, where the caller's frame was saved.
  let s₁ := (past before (.mov .rsp .rbp) s).setRegister .rsp s.registers.rbp
  have split₁ : a.instrs = (before ++ [Instr.mov .rsp .rbp]) ++ [Instr.pop .rbp, .ret] := split_cons split
  have depth₁ : level (before ++ [Instr.mov .rsp .rbp]) = 8 := by simp [effect, flat]
  have poised₁ : a.Poised (before ++ [Instr.mov .rsp .rbp]) s₁ := by
    refine poised.advance rfl ?_ rfl rfl (by omega) (.refl _ s)
    rw [depth₁]
    exact poised.rbp
  let s₂ := popped (before ++ [Instr.mov .rsp .rbp]) .rbp a.entry.rbp s₁
  have popped₂ : execute a.host a.program (past (before ++ [Instr.mov .rsp .rbp]) (.pop .rbp) s₁)
      (.pop .rbp) = .ok s₂ := by
    have sp := poised₁.stackPointer (i := .pop .rbp)
    have saved : (past (before ++ [Instr.mov .rsp .rbp]) (.pop .rbp) s₁).loadWord
        (-level (before ++ [Instr.mov .rsp .rbp])) = .ok a.entry.rbp := by
      rw [depth₁]
      exact loadWord_of_eq (by decide) poised.saved
    simp only [execute, sp, saved, ok_bind]
    rfl
  have depth₂ : level (before ++ [Instr.mov .rsp .rbp] ++ [Instr.pop .rbp]) = 0 := by
    rw [Layout.level_append, depth₁]
    rfl
  have bare₂ : a.Bare (before ++ [Instr.mov .rsp .rbp] ++ [Instr.pop .rbp]) s₂ := by
    refine ⟨rfl, ?_, rfl, poised.rbx, poised.caller⟩
    rw [depth₂]
    change Word.stack (-level (before ++ [Instr.mov .rsp .rbp]) + wordSize) = _
    rw [depth₁]
    rfl
  refine .framed split poised trivial rfl (.framed split₁ poised₁ trivial popped₂ ?_)
  exact .arrive ⟨⟨_, split_cons split₁, depth₂, bare₂⟩, ⟨rfl, rfl, rfl⟩, rfl, rfl⟩

/-- Behind the return address, the function is left with the caller's registers in place. -/
theorem step_return (closed : a.Closed s s') :
    a.OnTrack s' ∧
      Machine.step a.host a.program s' = .returned (s'.setRegister .rsp (.stack wordSize)) := by
  obtain ⟨before, split, flat, bare⟩ := closed.bare
  refine ⟨.bare split bare (.inr rfl) nofun, ?_⟩
  have fetched := fetch_of_split (a.code.trans (congrArg X86.encodeAll split))
  have sp : s'.stackPointer = .ok 0 := by
    have rsp := bare.rsp
    rw [flat] at rsp
    exact stackPointer_of_eq rsp
  have word : s'.loadWord 0 = .ok .caller := loadWord_of_eq (by decide) bare.caller
  unfold Machine.step
  rw [bare.pc, fetched]
  simp only [State.leave, sp, word, ok_bind]
  rfl

/-! ## From the entry to the return -/

/-- A run that leads to the closing of the frame is on track or has returned. -/
theorem Leads.run_cases {count : Nat} {R : State → Prop} (h : a.Leads Q count s)
    (last : ∀ s', Q s' → ∃ s, a.Closed s s' ∧ R (s'.setRegister .rsp (.stack wordSize))) :
    (∃ s', Machine.run a.host a.program count s = .running s' ∧ a.OnTrack s') ∨
      ∃ s', Machine.run a.host a.program count s = .returned s' ∧ R s' := by
  induction h with
  | stop track => exact .inl ⟨_, rfl, track⟩
  | @arrive count s' arrived =>
    obtain ⟨s, closed, result⟩ := last s' arrived
    -- The return is the one step that is left.
    obtain ⟨track, returned⟩ := step_return closed
    cases count with
    | zero => exact .inl ⟨_, rfl, track⟩
    | succ count => exact .inr ⟨_, by rw [Machine.run, returned], result⟩
  | step _ taken _ ih =>
    rw [Machine.run, taken]
    exact ih

/-- The function is the code of a tree in a frame, and the tree's literals are where its code
expects them. -/
structure Runs (a : Activation) (bound : String) (kind : ValueKind) (root : Node) (first : Nat) :
    Prop where
  tree : Compilable bound kind root
  code : a.instrs = Layout.function a.program.linkage first root
  compact : Layout.Compact a.program.linkage first root
  listed : a.program.literals.Lists first root.literals

/-- What a function has done when it returns. -/
structure Finished (a : Activation) (root : Node) (first : Nat) (value : Value) (left : Cell)
    (s' : State) : Prop where
  cell : s'.cell = left
  result : Delivers a.program s' first root value
  rsp : s'.registers.rsp = .stack wordSize
  rbp : s'.registers.rbp = a.entry.rbp
  rbx : s'.registers.rbx = a.entry.rbx

section runs

variable {bound : String} {kind : ValueKind} {root : Node} {first : Nat} {value : Value}
  {left : Cell}

theorem Runs.placed (runs : a.Runs bound kind root first) :
    a.Placed prologue epilogue root first :=
  ⟨runs.code, rfl, runs.compact, runs.listed⟩

theorem Ran.finished {s₁ s₂ : State} (ran : a.Ran before root first value left s₁)
    (closed : a.Closed s₁ s₂) :
    a.Finished root first value left (s₂.setRegister .rsp (.stack wordSize)) := by
  obtain ⟨_, _, _, bare⟩ := closed.bare
  refine ⟨closed.world.cell.trans ran.cell, ?_, rfl, bare.rbp, bare.rbx⟩
  have closedWorld : SameWorld s₁ (s₂.setRegister .rsp (.stack wordSize)) :=
    closed.world.trans ⟨rfl, rfl, rfl⟩
  exact ran.result.of_sameWorld closedWorld closed.rax closed.vectors

theorem Runs.closes (runs : a.Runs bound kind root first) {s₁ : State}
    (ran : a.Ran prologue root first value left s₁) : a.Reaches (a.Closed s₁) s₁ := by
  have flat : level (prologue ++ Layout.node a.program.linkage first root) = 8 := by
    rw [Layout.level_append, Layout.level_node, level_prologue, Int.add_zero]
  exact reaches_epilogue (split_append runs.code) ran.poised flat

/-- After any number of steps, the function is on track or has returned, and then it has evaluated
its tree. -/
theorem Runs.run_cases (runs : a.Runs bound kind root first) (vectors : Vectors)
    (flag : Bool) (cell : Cell) (count : Nat) :
    (∃ s', Machine.run a.host a.program count (State.enter a.entry vectors flag cell) = .running s' ∧
      a.OnTrack s') ∨
    ∃ s', Machine.run a.host a.program count (State.enter a.entry vectors flag cell) = .returned s' ∧
      ∃ value left, Evaluates bound cell root value left ∧ value.kind = kind ∧
        a.Finished root first value left s' := by
  have leads : a.Leads (fun s' => ∃ s value left, Evaluates bound cell root value left ∧
      value.kind = kind ∧ a.Ran prologue root first value left s ∧ a.Closed s s') count
      (State.enter a.entry vectors flag cell) := by
    -- Prologue, body and epilogue, one after the other.  Only the body may go on forever.
    refine ((reaches_prologue runs.code vectors flag cell).leads count).bind ?_
    rintro s₁ ⟨poised, rfl, -, -⟩
    refine (leads_node runs.tree runs.placed poised count).bind ?_
    rintro s₂ ⟨value, left, evaluated, sameKind, ran⟩
    refine ((runs.closes ran).leads count).mono fun s₃ closed => ?_
    exact ⟨s₂, value, left, evaluated, sameKind, ran, closed⟩
  refine leads.run_cases ?_
  rintro s' ⟨s, value, left, evaluated, sameKind, ran, closed⟩
  exact ⟨s, closed, value, left, evaluated, sameKind, ran.finished closed⟩

theorem Runs.onTrack (runs : a.Runs bound kind root first) {vectors : Vectors} {flag : Bool}
    {cell : Cell} {count : Nat}
    (ran : Machine.run a.host a.program count (State.enter a.entry vectors flag cell) =
      .running s) : a.OnTrack s := by
  rcases runs.run_cases vectors flag cell count with ⟨s', running, track⟩ | ⟨s', returned, -⟩
  · cases running.symm.trans ran
    exact track
  · cases returned.symm.trans ran

theorem Runs.finished (runs : a.Runs bound kind root first) {vectors : Vectors} {flag : Bool}
    {cell : Cell} {count : Nat}
    (ran : Machine.run a.host a.program count (State.enter a.entry vectors flag cell) =
      .returned s) :
    ∃ value, Evaluates bound cell root value s.cell ∧ value.kind = kind ∧
      a.Finished root first value s.cell s := by
  rcases runs.run_cases vectors flag cell count with ⟨s', running, -⟩ | ⟨s', returned, done⟩
  · cases running.symm.trans ran
  · cases returned.symm.trans ran
    obtain ⟨value, left, evaluated, sameKind, finished⟩ := done
    obtain rfl := finished.cell
    exact ⟨value, evaluated, sameKind, finished⟩

theorem Runs.not_trapped (runs : a.Runs bound kind root first) (vectors : Vectors)
    (flag : Bool) (cell : Cell) (count : Nat) (t : Trap) :
    Machine.run a.host a.program count (State.enter a.entry vectors flag cell) ≠ .trapped t := by
  intro trapped
  rcases runs.run_cases vectors flag cell count with ⟨s', running, -⟩ | ⟨s', returned, -⟩
  · cases running.symm.trans trapped
  · cases returned.symm.trans trapped

theorem Runs.returns (runs : a.Runs bound kind root first) (vectors : Vectors) (flag : Bool)
    {cell : Cell} (evaluated : Evaluates bound cell root value left) :
    ∃ count s', Machine.run a.host a.program count (State.enter a.entry vectors flag cell) =
      .returned s' ∧ a.Finished root first value left s' := by
  have reaches : a.Reaches (fun s' => ∃ s, a.Ran prologue root first value left s ∧ a.Closed s s')
      (State.enter a.entry vectors flag cell) := by
    refine (reaches_prologue runs.code vectors flag cell).bind fun s₁ ⟨poised, start, _⟩ => ?_
    refine (reaches_node evaluated runs.tree runs.placed poised start).bind fun s₂ ran => ?_
    exact (runs.closes ran).mono fun s₃ closed => ⟨s₂, ran, closed⟩
  obtain ⟨count, s₃, ran, s₂, ended, closed⟩ := reaches.run
  refine ⟨count + 1, _, ?_, ended.finished closed⟩
  exact run_succ_of_running ran (step_return closed).2

end runs

end Activation

end TreeJit
