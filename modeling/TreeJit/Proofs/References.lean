import TreeJit.Proofs.Meaning

/-! # References to strings

Compiled code passes strings by reference.  Three things keep that from going
wrong:

* `Machine.run_versioned` — the version of the cell's text slot counts its
  replacements: as long as it is the same, so is the text.  This holds of the
  machine, whatever it runs.
* `Activation.OnTrack.serviceable` — the strings that a function hands to a
  helper can be followed at that moment, so a reference to the slot has the
  current version.
* `Activation.Runs.root_block` — the block that a concatenation at the root
  returns is the one that its own call has allocated.

`compile_references_sound` puts them together.
-/

namespace TreeJit

open X86 (Instr Gpr codeSize prologue epilogue)
open Machine

namespace Machine

/-! ## Versions of the text slot -/

theorem exists_of_bind_ok {ε α β : Type} {x : Except ε α} {f : α → Except ε β} {b : β}
    (h : (x >>= f) = .ok b) : ∃ a, x = .ok a ∧ f a = .ok b := by
  cases x with
  | error e => cases h
  | ok a => exact ⟨a, rfl, h⟩

/-- How a step may treat the text slot: the version does not go back, and the text stays the same
unless the version changes. -/
structure Versioned (s s' : State) : Prop where
  le : s.version ≤ s'.version
  text : s'.version = s.version → s'.cell.textSlot = s.cell.textSlot

theorem Versioned.of_sameWorld {s s' : State} (same : SameWorld s s') : Versioned s s' :=
  ⟨Nat.le_of_eq same.version.symm, fun _ => congrArg Cell.textSlot same.cell⟩

theorem Versioned.trans {s s' s'' : State} (first : Versioned s s') (second : Versioned s' s'') :
    Versioned s s'' := by
  have low := first.le
  have high := second.le
  refine ⟨Nat.le_trans low high, fun same => ?_⟩
  exact (second.text (by omega)).trans (first.text (by omega))

theorem storeWord_sameWorld {s s' : State} {address : Int} {w : Word}
    (stored : s.storeWord address w = .ok s') : SameWorld s s' := by
  unfold State.storeWord at stored
  split at stored
  · cases stored
    exact ⟨rfl, rfl, rfl⟩
  · cases stored

theorem jump_sameWorld {s s' : State} {target : Int} (jumped : s.jump target = .ok s') :
    SameWorld s s' := by
  unfold State.jump at jumped
  split at jumped
  · cases jumped
    exact ⟨rfl, rfl, rfl⟩
  · cases jumped

/-- Only calls work on the cell and the heap. -/
theorem execute_sameWorld {host : Host} {p : Program} {s s' : State} {i : Instr}
    (done : execute host p s i = .ok s') (notCall : ∀ reg, i ≠ .call reg) : SameWorld s s' := by
  cases i with
  | call reg => exact absurd rfl (notCall reg)
  | push reg =>
    obtain ⟨sp, -, done⟩ := exists_of_bind_ok done
    obtain ⟨s₁, stored, ⟨⟩⟩ := exists_of_bind_ok done
    exact (storeWord_sameWorld stored).trans ⟨rfl, rfl, rfl⟩
  | pop reg =>
    obtain ⟨sp, -, done⟩ := exists_of_bind_ok done
    obtain ⟨w, -, ⟨⟩⟩ := exists_of_bind_ok done
    exact ⟨rfl, rfl, rfl⟩
  | movq dst src =>
    obtain ⟨bits, -, ⟨⟩⟩ := exists_of_bind_ok done
    exact ⟨rfl, rfl, rfl⟩
  | store src =>
    obtain ⟨sp, -, done⟩ := exists_of_bind_ok done
    exact storeWord_sameWorld done
  | load dst =>
    obtain ⟨sp, -, done⟩ := exists_of_bind_ok done
    obtain ⟨w, -, done⟩ := exists_of_bind_ok done
    obtain ⟨bits, -, ⟨⟩⟩ := exists_of_bind_ok done
    exact ⟨rfl, rfl, rfl⟩
  | subSp _ | addSp _ =>
    obtain ⟨sp, -, ⟨⟩⟩ := exists_of_bind_ok done
    exact ⟨rfl, rfl, rfl⟩
  | je d =>
    rw [execute] at done
    split at done
    · exact jump_sameWorld done
    · cases done
      exact ⟨rfl, rfl, rfl⟩
  | jmp d => exact jump_sameWorld done
  | movImm _ _ | mov _ _ | movapd _ _ | xorpd _ _ | ucomisd _ _ | scalar _ _ _ | ret | nop =>
    cases done
    exact ⟨rfl, rfl, rfl⟩

/-- Helpers replace the text in the slot only together with its version. -/
theorem perform_versioned {p : Program} {args s s' : State} {h : Helper}
    (done : State.perform p args s h = .ok s') : Versioned s s' := by
  cases h with
  | readNumber =>
    obtain ⟨_, -, ⟨⟩⟩ := exists_of_bind_ok done
    exact .of_sameWorld ⟨rfl, rfl, rfl⟩
  | readString =>
    obtain ⟨_, -, ⟨⟩⟩ := exists_of_bind_ok done
    cases hasText : s.cell.hasText with
    | true =>
      have kept : s.fillText.version = s.version := if_pos hasText
      exact ⟨Nat.le_of_eq kept.symm, fun _ => congrArg Cell.textSlot (if_pos hasText)⟩
    -- Here the number's text form replaces whatever the slot held.
    | false =>
      have replaced : s.fillText.version = s.version + 1 := if_neg (by simp [hasText])
      refine ⟨Nat.le_trans (Nat.le_succ _) (Nat.le_of_eq replaced.symm), fun same => ?_⟩
      change s.fillText.version = s.version at same
      omega
  | writeNumber =>
    obtain ⟨_, -, ⟨⟩⟩ := exists_of_bind_ok done
    exact ⟨Nat.le_refl _, fun _ => rfl⟩
  | writeString =>
    obtain ⟨_, -, done⟩ := exists_of_bind_ok done
    obtain ⟨_, -, ⟨⟩⟩ := exists_of_bind_ok done
    exact ⟨Nat.le_succ _, fun same => absurd same (Nat.succ_ne_self _)⟩
  | concat =>
    obtain ⟨_, -, done⟩ := exists_of_bind_ok done
    obtain ⟨_, -, ⟨⟩⟩ := exists_of_bind_ok done
    exact ⟨Nat.le_refl _, fun _ => rfl⟩
  | remainder =>
    cases done
    exact .of_sameWorld ⟨rfl, rfl, rfl⟩

theorem call_ok {host : Host} {p : Program} {s s' : State} {target : Word}
    (done : s.call host p target = .ok s') :
    ∃ address h sp, target = .bits address ∧ p.locate address = some (.helper h) ∧
      State.perform p s (s.scramble (host s.calls) sp) h = .ok s' := by
  obtain ⟨sp, -, done⟩ := exists_of_bind_ok done
  split at done
  · cases done
  split at done
  · rename_i address _
    split at done
    · rename_i h located
      exact ⟨address, h, sp, rfl, located, done⟩
    · cases done
  · cases done

theorem call_versioned {host : Host} {p : Program} {s s' : State} {target : Word}
    (done : s.call host p target = .ok s') : Versioned s s' := by
  obtain ⟨_, _, sp, -, -, performed⟩ := call_ok done
  have given : SameWorld s (s.scramble (host s.calls) sp) := ⟨rfl, rfl, rfl⟩
  exact (Versioned.of_sameWorld given).trans (perform_versioned performed)

theorem step_running {host : Host} {p : Program} {s s' : State}
    (taken : step host p s = .running s') :
    ∃ i next, fetch p s.pc = some (i, next) ∧
      execute host p { s with pc := next } i = .ok s' := by
  unfold step at taken
  split at taken
  · cases taken
  · split at taken <;> cases taken
  · rename_i i next _ fetched
    split at taken
    · cases taken
      exact ⟨i, next, fetched, ‹_›⟩
    · cases taken

theorem step_versioned {host : Host} {p : Program} {s s' : State}
    (taken : step host p s = .running s') : Versioned s s' := by
  obtain ⟨i, next, -, done⟩ := step_running taken
  -- Fetching moves the program counter and touches nothing else.
  have start : SameWorld s { s with pc := next } := ⟨rfl, rfl, rfl⟩
  cases i with
  | call reg => exact (Versioned.of_sameWorld start).trans (call_versioned done)
  | _ => exact .of_sameWorld (start.trans (execute_sameWorld done nofun))

theorem running_of_run_succ {host : Host} {p : Program} {count : Nat} {s s' : State}
    (ran : run host p (count + 1) s = .running s') :
    ∃ u, run host p count s = .running u ∧ step host p u = .running s' := by
  induction count generalizing s with
  | zero =>
    rw [run] at ran
    cases first : step host p s with
    | running u =>
      rw [first] at ran
      cases ran
      exact ⟨s, rfl, first⟩
    | returned _ | trapped _ =>
      rw [first] at ran
      cases ran
  | succ count ih =>
    rw [run] at ran ⊢
    cases first : step host p s with
    | running u =>
      rw [first] at ran
      exact ih ran
    | returned _ | trapped _ =>
      rw [first] at ran
      cases ran

theorem running_of_run_add {host : Host} {p : Program} {m n : Nat} {s s' : State}
    (ran : run host p (m + n) s = .running s') : ∃ u, run host p m s = .running u := by
  induction n generalizing s' with
  | zero => exact ⟨s', ran⟩
  | succ n ih =>
    obtain ⟨u, earlier, -⟩ := running_of_run_succ ran
    exact ih earlier

/-- Along a run, the version of the text slot does not go back, and the text stays the same unless
the version changes. -/
theorem run_versioned {host : Host} {p : Program} {m n : Nat} {s s₁ s₂ : State}
    (first : run host p m s = .running s₁) (second : run host p (m + n) s = .running s₂) :
    Versioned s₁ s₂ := by
  induction n generalizing s₂ with
  | zero =>
    cases first.symm.trans second
    exact .of_sameWorld (.refl s₁)
  | succ n ih =>
    obtain ⟨u, ran, taken⟩ := running_of_run_succ second
    exact (ih ran).trans (step_versioned taken)

/-- A run that has returned had returned to the same state with any other number of steps. -/
theorem returned_unique {host : Host} {p : Program} {m n : Nat} {s s₁ s₂ : State}
    (first : run host p m s = .returned s₁) (second : run host p n s = .returned s₂) : s₁ = s₂ := by
  induction m generalizing s n with
  | zero => cases first
  | succ m ih =>
    cases n with
    | zero => cases second
    | succ n =>
      rw [run] at first second
      cases taken : step host p s with
      | running u =>
        rw [taken] at first second
        exact ih first second
      | returned u =>
        rw [taken] at first second
        cases first
        cases second
        rfl
      | trapped t =>
        rw [taken] at first
        cases first

/-! ## Calls of a run -/

/-- Whether the next step calls a helper. -/
def Calls (p : Program) (s : State) (h : Helper) : Prop :=
  ∃ reg next address, fetch p s.pc = some (.call reg, next) ∧
    s.registers.get reg = .bits address ∧ p.locate address = some (.helper h)

/-- Whether the next step gives a reference to a helper that follows it. -/
def Consumes (p : Program) (s : State) (w : Word) : Prop :=
  Calls p s .concat ∧ (w = s.registers.rdi ∨ w = s.registers.rsi) ∨
    Calls p s .writeString ∧ w = s.registers.rsi

/-- Whether the next step replaces the text in the cell's slot: by a text that is written, or by the
text form of a number that is read as a string. -/
def Replaces (p : Program) (s : State) : Prop :=
  Calls p s .writeString ∨ Calls p s .readString ∧ s.cell.hasText = false

theorem Calls.performed {host : Host} {p : Program} {s s' : State} {h : Helper}
    (calls : Calls p s h) (taken : step host p s = .running s') :
    ∃ next sp, State.perform p { s with pc := next }
      (State.scramble { s with pc := next } (host s.calls) sp) h = .ok s' := by
  obtain ⟨reg, next, address, fetched, target, located⟩ := calls
  -- The step has fetched the call, and the call has found the helper.
  obtain ⟨i, next', fetched', done⟩ := step_running taken
  cases fetched.symm.trans fetched'
  obtain ⟨address', h', sp, target', located', performed⟩ := call_ok done
  cases target.symm.trans target'
  cases located.symm.trans located'
  exact ⟨next, sp, performed⟩

/-- Reading the cell as a string gives a reference to the text that the slot holds then. -/
theorem Calls.rax_of_readString {host : Host} {p : Program} {s s' : State}
    (calls : Calls p s .readString) (taken : step host p s = .running s') :
    s'.registers.rax = .slot s'.version ∧ s'.cell.textSlot = s.cell.text := by
  obtain ⟨next, sp, performed⟩ := calls.performed taken
  obtain ⟨_, -, ⟨⟩⟩ := exists_of_bind_ok performed
  exact ⟨rfl, rfl⟩

/-- A replaced text has a version of its own. -/
theorem Replaces.version_eq {host : Host} {p : Program} {s s' : State} (replaces : Replaces p s)
    (taken : step host p s = .running s') : s'.version = s.version + 1 := by
  rcases replaces with calls | ⟨calls, empty⟩
  · obtain ⟨next, sp, performed⟩ := calls.performed taken
    obtain ⟨_, -, performed⟩ := exists_of_bind_ok performed
    obtain ⟨_, -, ⟨⟩⟩ := exists_of_bind_ok performed
    rfl
  · obtain ⟨next, sp, performed⟩ := calls.performed taken
    obtain ⟨_, -, ⟨⟩⟩ := exists_of_bind_ok performed
    exact if_neg (by simp [State.scramble, empty])

end Machine

namespace Activation

variable {a : Activation} {before after : List Instr} {s s' : State} {bound : String}
  {kind : ValueKind} {root : Node} {first : Nat}

/-! ## References that are followed -/

/-- A helper that a function calls can serve. -/
theorem OnTrack.serviceable {h : Helper} (track : a.OnTrack s) (calls : Calls a.program s h) :
    Serviceable a.program s h := by
  obtain ⟨reg, next, address, fetched, target, located⟩ := calls
  cases track with
  | framed split poised ready =>
    have known := fetch_of_split (a.code.trans (congrArg X86.encodeAll split))
    -- The instruction on track is the one that is fetched, and its register leads to one helper only.
    rw [poised.pc] at fetched
    cases known.symm.trans fetched
    obtain ⟨h', _, target', -, -, serviceable⟩ := ready
    cases target.symm.trans target'
    cases (a.separates.locate_address (a.program.helper_mem_symbols h')).symm.trans located
    exact serviceable
  | bare split bare _ idle =>
    have known := fetch_of_split (a.code.trans (congrArg X86.encodeAll split))
    rw [bare.pc] at fetched
    cases known.symm.trans fetched
    -- Outside of the frame there are no calls.
    exact absurd rfl (idle reg)

theorem OnTrack.textAt_ok {w : Word} (track : a.OnTrack s) (consumes : Consumes a.program s w) :
    ∃ t, State.textAt a.program s w = .ok t := by
  rcases consumes with ⟨calls, rfl | rfl⟩ | ⟨calls, rfl⟩
  · exact (track.serviceable calls).1
  · exact (track.serviceable calls).2
  · exact (track.serviceable calls).2.1

/-- A reference to the cell's text is only followed while it has the current version. -/
theorem OnTrack.version_eq {version : Nat} (track : a.OnTrack s)
    (consumes : Consumes a.program s (.slot version)) : s.version = version := by
  obtain ⟨t, text⟩ := track.textAt_ok consumes
  rw [State.textAt] at text
  split at text
  · exact Eq.symm ‹_›
  · cases text

/-- As long as a reference to the cell's text is still to be followed, the text stays in its place,
and nothing replaces it. -/
theorem Runs.text_kept (runs : a.Runs bound kind root first) {vectors : Vectors} {flag : Bool}
    {cell : Cell} {m k n : Nat} {s u s' : State} (le : k ≤ n)
    (made : run a.host a.program m (State.enter a.entry vectors flag cell) = .running s)
    (between : run a.host a.program (m + k) (State.enter a.entry vectors flag cell) = .running u)
    (used : run a.host a.program (m + n) (State.enter a.entry vectors flag cell) = .running s')
    (consumes : Consumes a.program s' (.slot s.version)) :
    u.version = s.version ∧ u.cell.textSlot = s.cell.textSlot ∧
      (k < n → ¬Replaces a.program u) := by
  have current := (runs.onTrack used).version_eq consumes
  have early := run_versioned made between
  obtain ⟨rest, rfl⟩ := Nat.exists_eq_add_of_le le
  rw [← Nat.add_assoc] at used
  have late := run_versioned between used
  -- The version cannot have gone up in between and come back.
  have same : u.version = s.version := by
    have low := early.le
    have high := late.le
    omega
  refine ⟨same, early.text same, fun less replaces => ?_⟩
  -- A replacement would give the slot a version that is later than the one of the reference.
  obtain ⟨rest, rfl⟩ : ∃ more, rest = 1 + more := Nat.exists_eq_add_of_le (by omega)
  rw [← Nat.add_assoc] at used
  obtain ⟨u', replaced⟩ := running_of_run_add used
  obtain ⟨v, ran, taken⟩ := running_of_run_succ replaced
  cases between.symm.trans ran
  have newer := replaces.version_eq taken
  have high := (run_versioned replaced used).le
  omega

/-! ## The block that a concatenation at the root returns -/

section root

variable {lhs rhs : Node}

/-- The code of a function whose tree is a concatenation, up to the call at its end. -/
def beforeRootCall (a : Activation) (first : Nat) (lhs rhs : Node) : List Instr :=
  prologue ++ operandCode (Layout.string a.program.linkage first lhs)
    (Layout.string a.program.linkage (first + lhs.literals.length) rhs) ++
    [Instr.movImm .rax (a.program.linkage.address (.helper .concat))]

theorem beforeRootCall_append (a : Activation) (first : Nat) (lhs rhs : Node) :
    prologue ++ Layout.node a.program.linkage first (.concat lhs rhs) =
      a.beforeRootCall first lhs rhs ++ [Instr.call .rax] := by
  rw [Layout.node, Layout.string, concat_eq]
  simp [beforeRootCall, Layout.callHelper, X86.callAbsolute]

theorem Runs.split_rootCall (runs : a.Runs bound kind (.concat lhs rhs) first) :
    a.instrs = a.beforeRootCall first lhs rhs ++ Instr.call .rax :: epilogue := by
  rw [runs.code, Layout.function, ← List.append_assoc, beforeRootCall_append]
  simp

theorem level_beforeRootCall (a : Activation) (first : Nat) (lhs rhs : Node) :
    Layout.level (a.beforeRootCall first lhs rhs) = 8 := by
  have flat := level_operandCode (Layout.level_string (l := a.program.linkage) first lhs)
    (Layout.level_string (l := a.program.linkage) (first + lhs.literals.length) rhs)
  simp [beforeRootCall, level_prologue, flat, Layout.effect]

/-- The operands of the concatenation at the root are in place, and its call comes next. -/
structure AtRootCall (a : Activation) (first : Nat) (lhs rhs : Node) (u : State) : Prop where
  poised : a.Poised (a.beforeRootCall first lhs rhs) u
  target : u.registers.rax = .bits (a.program.linkage.address (.helper .concat))
  serviceable : Serviceable a.program u .concat

theorem Runs.reaches_rootCall (runs : a.Runs bound kind (.concat lhs rhs) first) (vectors : Vectors)
    (flag : Bool) (cell : Cell) :
    a.Reaches (a.AtRootCall first lhs rhs) (State.enter a.entry vectors flag cell) := by
  obtain ⟨leftTree, rightTree⟩ : Textual bound lhs ∧ Textual bound rhs := by
    cases runs.tree with
    | number h => cases h
    | text h _ =>
      cases h with
      | concat left right => exact ⟨left, right⟩
  have split : a.instrs = prologue ++ (operandCode (Layout.string a.program.linkage first lhs)
      (Layout.string a.program.linkage (first + lhs.literals.length) rhs) ++
      Instr.movImm .rax (a.program.linkage.address (.helper .concat)) :: .call .rax :: epilogue) := by
    rw [runs.split_rootCall]
    simp [beforeRootCall]
  refine (reaches_prologue split vectors flag cell).bind fun s₁ ⟨poised, _⟩ => ?_
  obtain ⟨t, between, leftValue⟩ := leftTree.eval s₁.cell
  obtain ⟨u, left, rightValue⟩ := rightTree.eval between
  refine (reaches_operands split poised (by decide) (Layout.level_string _ _)
    (Layout.level_string _ _)
    (fun split => reaches_string leftTree split poised (by decide) runs.listed.left leftValue)
    (fun split poised aligned cell => reaches_string rightTree split poised aligned
      runs.listed.right (cell ▸ rightValue))).bind fun s₂ paired => ?_
  refine .quiet (split_append split) paired.poised rfl (.setRegister _ _ rfl) rfl rfl
    fun poised => .arrive ⟨poised, rfl, ?_⟩
  have serviceable : Serviceable a.program s₂ .concat :=
    ⟨⟨t, paired.lhs.text⟩, u, paired.rhs.text⟩
  exact serviceable.of_same ⟨rfl, rfl, rfl, ⟨rfl, rfl, rfl⟩⟩

theorem AtRootCall.calls {u : State} (ready : a.AtRootCall first lhs rhs u)
    (runs : a.Runs bound kind (.concat lhs rhs) first) : Calls a.program u .concat := by
  have fetched := fetch_of_split (a.code.trans (congrArg X86.encodeAll runs.split_rootCall))
  rw [← ready.poised.pc] at fetched
  exact ⟨.rax, _, _, fetched, ready.target,
    a.separates.locate_address (a.program.helper_mem_symbols .concat)⟩

/-- From the call at the root, the block that it allocates goes to the caller. -/
theorem AtRootCall.reaches_return {u : State} (ready : a.AtRootCall first lhs rhs u)
    (runs : a.Runs bound kind (.concat lhs rhs) first) :
    a.Reaches (fun s' => ∃ s, a.Closed s s' ∧ s.registers.rax = .block u.heap.size) u := by
  have depth := a.level_beforeRootCall first lhs rhs
  refine .call runs.split_rootCall ready.poised (by omega) ready.target ready.serviceable
    fun s poised served _ => ?_
  obtain ⟨_, _, -, -, -, -, -, rax⟩ := served
  have flat : Layout.level (a.beforeRootCall first lhs rhs ++ [Instr.call .rax]) = 8 := by
    simp [depth, Layout.effect]
  exact (reaches_epilogue (split_cons runs.split_rootCall) poised flat).mono
    fun s' closed => ⟨s, closed, rax⟩

/-- The block that a concatenation at the root returns is the one that its own call has
allocated. -/
theorem Runs.root_block (runs : a.Runs bound kind (.concat lhs rhs) first) {vectors : Vectors}
    {flag : Bool} {cell : Cell} {fuel : Nat}
    (returned : run a.host a.program fuel (State.enter a.entry vectors flag cell) = .returned s) :
    ∃ count u, run a.host a.program count (State.enter a.entry vectors flag cell) = .running u ∧
      a.AtRootCall first lhs rhs u ∧ s.registers.rax = .block u.heap.size := by
  obtain ⟨count, u, ran, ready⟩ := (runs.reaches_rootCall vectors flag cell).run
  refine ⟨count, u, ran, ready, ?_⟩
  -- The run from the call to the return is the rest of the one run that there is.
  obtain ⟨rest, s', finished, s₁, closed, rax⟩ := (ready.reaches_return runs).run
  have ended := run_succ_of_running ((run_add ran rest).trans finished) (step_return closed).2
  rw [returned_unique returned ended]
  exact closed.rax.trans rax

end root

end Activation

/-! ## Compiled functions -/

namespace Machine

/-- How a run deals with references to strings.  The outcomes of the run are given by the number of
steps. -/
structure KeepsReferences (p : Program) (run : Nat → Outcome) : Prop where
  /-- A reference leads to a text when a helper follows it. -/
  followed : ∀ count s w, run count = .running s → Consumes p s w →
    ∃ t, State.textAt p s w = .ok t
  /-- From the read that gives a reference to the cell's text until a helper follows that reference,
  the text stays in the slot. -/
  kept : ∀ m s₀ s, run m = .running s₀ → Calls p s₀ .readString → run (m + 1) = .running s →
    s.registers.rax = .slot s.version ∧ s.cell.textSlot = s₀.cell.text ∧
      ∀ k n u s', k ≤ n → run (m + 1 + k) = .running u → run (m + 1 + n) = .running s' →
        Consumes p s' (.slot s.version) →
        u.version = s.version ∧ u.cell.textSlot = s.cell.textSlot ∧ (k < n → ¬Replaces p u)
  /-- The cell's own text is never written to the cell. -/
  written : ∀ count s, run count = .running s → Calls p s .writeString →
    ∀ version, s.registers.rsi ≠ .slot version

end Machine

theorem Activation.Runs.keepsReferences {a : Activation} {bound : String} {kind : ValueKind}
    {root : Node} {first : Nat} (runs : a.Runs bound kind root first) (vectors : Vectors)
    (flag : Bool) (cell : Cell) : KeepsReferences a.program
      fun count => run a.host a.program count (State.enter a.entry vectors flag cell) where
  followed count s w ran consumes := (runs.onTrack ran).textAt_ok consumes
  kept m s₀ s ran calls read := by
    obtain ⟨s₁, ran', taken⟩ := running_of_run_succ read
    cases ran.symm.trans ran'
    obtain ⟨rax, text⟩ := calls.rax_of_readString taken
    refine ⟨rax, text, fun k n u s' le between used consumes => ?_⟩
    exact runs.text_kept le read between used consumes
  written count s ran calls := ((runs.onTrack ran).serviceable calls).2.2

namespace CompiledCode

variable {made : CompiledCode} {ctx : Context} {root : Node}

/-- Which string a function that leaves one refers to: a block if the caller is to own it, one of
the tree's literals if not. -/
def Refers (made : CompiledCode) (w : Word) : Prop :=
  ((∃ index, w = .block index) ↔ made.ownsResult) ∧
    (¬made.ownsResult → ∃ index t, made.literals.get? index = some t ∧
      w = .bits (made.linkage.address (.literal index)))

theorem MadeFrom.refers (origin : made.MadeFrom ctx root) {s : State} {t : Text}
    (string : made.result = .string)
    (result : Delivers made.program s ctx.firstLiteral root (.string t)) :
    made.Refers s.registers.rax := by
  obtain ⟨-, source⟩ := result
  have owns := origin.owns
  have tree := origin.tree
  rw [string] at tree
  unfold Refers
  rw [owns]
  cases tree with
  | text h notVar =>
    cases h with
    | var => exact absurd rfl (notVar _)
    | string text =>
      -- A literal at the root is the tree's only one.
      have rax : s.registers.rax = .bits (made.linkage.address (.literal ctx.firstLiteral)) := source
      have literals : made.literals = ⟨ctx.firstLiteral, [text]⟩ := origin.literals
      rw [rax, literals]
      refine ⟨⟨nofun, nofun⟩, fun _ => ⟨ctx.firstLiteral, text, ?_, rfl⟩⟩
      simp [Literals.get?]
    | concat _ _ => exact ⟨⟨fun _ => rfl, fun _ => ⟨_, source.1⟩⟩, fun other => absurd rfl other⟩

end CompiledCode

/-- References to strings are never stale, and what a function returns belongs to whom it says.  In
every run of compiled code, helpers are given references that lead to a text; the text in the cell's
slot stays there from the read that refers to it to the call that follows the reference; and the
cell's own text is never written to the cell.  So a run has the result and the cell of the evaluation,
which copies strings when it reads them.  A string that is returned is a block if and only if the
caller is to own it, and a literal otherwise.  What the caller frees is then exactly the block that
the last instruction of the tree's code, the call of the concatenation at the root, has allocated. -/
theorem compile_references_sound {config : Config} {ctx : Context} {root : Node}
    {made : CompiledCode} (compiled : (compile config ctx root).result = .ok made)
    (separates : made.program.Separates) (host : Host) (registers : Registers) (vectors : Vectors)
    (flag : Bool) (cell : Cell) :
    let run := fun count =>
      Machine.run host made.program count (State.enter registers vectors flag cell)
    KeepsReferences made.program run ∧
    (∀ value left, Evaluates ctx.variableName cell root value left →
      ∃ fuel s, run fuel = .returned s ∧ s.cell = left ∧ s.Carries made.program value) ∧
    (∀ fuel s, run fuel = .returned s →
      ∃ value, Evaluates ctx.variableName cell root value s.cell ∧ value.kind = made.result ∧
        s.Carries made.program value) ∧
    (∀ fuel s, run fuel = .returned s → made.result = .string → made.Refers s.registers.rax) ∧
    (∀ fuel s, run fuel = .returned s → made.result = .string → made.ownsResult →
      ∃ count u before t, run count = .running u ∧ Calls made.program u .concat ∧
        prologue ++ Layout.node ctx.linkage ctx.firstLiteral root = before ++ [Instr.call .rax] ∧
        u.pc = codeSize before ∧ s.registers.rax = .block u.heap.size ∧
        s.heap[u.heap.size]? = some (some t) ∧
        made.release s = .ok { s with heap := s.heap.setIfInBounds u.heap.size none }) ∧
    ∀ fuel s, run fuel = .returned s → ¬(made.result = .string ∧ made.ownsResult) →
      made.release s = .ok s := by
  intro run
  have origin := compile_ok compiled
  have runs := origin.runs separates host registers
  refine ⟨runs.keepsReferences vectors flag cell, fun value left evaluated => ?_,
    fun fuel s returned => ?_, fun fuel s returned string => ?_,
    fun fuel s returned string owns => ?_, fun _ _ _ other => if_neg other⟩
  · obtain ⟨fuel, s, returned, finished⟩ := runs.returns vectors flag evaluated
    exact ⟨fuel, s, returned, finished.cell, finished.result.carries⟩
  · obtain ⟨value, evaluated, kind, finished⟩ := runs.finished returned
    exact ⟨value, evaluated, kind, finished.result.carries⟩
  · obtain ⟨value, -, kind, finished⟩ := runs.finished returned
    rw [string] at kind
    cases value with
    | string t => exact origin.refers string finished.result
    | number _ | nothing => cases kind
  · obtain ⟨value, -, kind, finished⟩ := runs.finished returned
    rw [string] at kind
    cases value with
    | number _ | nothing => cases kind
    | string t =>
      rw [origin.owns] at owns
      cases root with
      | concat lhs rhs =>
        obtain ⟨count, u, ran, ready, rax⟩ := runs.root_block returned
        have freed := CompiledCode.release_of_block string (origin.owns.trans owns) rax
          finished.result.carries
        have code : prologue ++ Layout.node made.program.linkage ctx.firstLiteral
            (.concat lhs rhs) = _ :=
          (origin.activation separates host registers).beforeRootCall_append ctx.firstLiteral lhs rhs
        rw [origin.linkage] at code
        exact ⟨count, u, _, t, ran, ready.calls runs, code, ready.poised.pc, rax, freed⟩
      | _ => cases owns

/-- The text of a cell joined to itself is a block, which the caller frees. -/
theorem compiled_concat_returns_block :
    ∃ made, (compile {} { variableName := "x" } (.concat (.var "x") (.var "x"))).result = .ok made ∧
      made.program.Separates ∧
      ∃ fuel s index, Machine.run Host.zero made.program fuel
          (State.enter .zero .zero false (.ofText ⟨[0x61], by decide⟩)) = .returned s ∧
        s.registers.rax = .block index ∧
        made.release s = .ok { s with heap := s.heap.setIfInBounds index none } := by
  obtain ⟨made, compiled, string, separates⟩ := exists_compiled {} { variableName := "x" }
    (.concat (.var "x") (.var "x")) rfl (by decide) (by decide) rfl rfl (by decide) rfl (by decide)
  have evaluated : Evaluates "x" (.ofText ⟨[0x61], by decide⟩) (.concat (.var "x") (.var "x"))
      (.string ⟨[0x61, 0x61], by decide⟩) (.ofText ⟨[0x61], by decide⟩) := .string nofun rfl
  obtain ⟨-, returns, -, -, frees, -⟩ := compile_references_sound compiled separates Host.zero .zero
    .zero false (.ofText ⟨[0x61], by decide⟩)
  obtain ⟨fuel, s, returned, -, -⟩ := returns _ _ evaluated
  have owns : made.ownsResult := (compile_ok compiled).owns
  obtain ⟨_, u, _, _, -, -, -, -, rax, -, released⟩ := frees fuel s returned string owns
  exact ⟨made, compiled, separates, fuel, s, u.heap.size, returned, rax, released⟩

end TreeJit
