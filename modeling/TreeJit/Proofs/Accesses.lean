import TreeJit.Proofs.References

/-! # Accesses to a cell

A cell is written and read by its owner, and by compiled code through the
helpers.  Both are sequences of the same accesses.

* `Cell.afterAll` — what a sequence of accesses does to a cell.
* `Machine.accesses` — the accesses that a run makes, in order, read off the
  helpers that it calls.
* `Machine.cell_of_run` — a run does to the cell what its accesses do.
-/

namespace TreeJit

open X86 (Instr)

/-- An access to a cell.  The first two are writes. -/
inductive Access where
  | setNumber (value : Double)
  | setText (text : Text)
  | number
  /-- Asks for the characters of the text. -/
  | string
  /-- Asks for the bytes of the text. -/
  | stringBytes
  | hasNumber
  | hasText
  deriving DecidableEq

namespace Access

def isWrite : Access → Bool
  | .setNumber _ | .setText _ => true
  | _ => false

/-- Whether the access asks for the text, so that the cell has one afterwards. -/
def readsText : Access → Bool
  | .string | .stringBytes => true
  | _ => false

end Access

namespace Cell

/-- The cell that an access leaves. -/
def after (c : Cell) : Access → Cell
  | .setNumber value => c.setNumber value
  | .setText text => c.setText text
  | .string | .stringBytes => c.withText
  | .number | .hasNumber | .hasText => c

/-- The cell that accesses leave, one after the other. -/
def afterAll (c : Cell) (accesses : List Access) : Cell := accesses.foldl after c

variable (c : Cell)

@[simp] theorem afterAll_nil : c.afterAll [] = c := rfl

@[simp] theorem afterAll_cons (a : Access) (rest : List Access) :
    c.afterAll (a :: rest) = (c.after a).afterAll rest := rfl

@[simp] theorem afterAll_append (first second : List Access) :
    c.afterAll (first ++ second) = (c.afterAll first).afterAll second := List.foldl_append

end Cell

namespace Machine

/-! ## Accesses of a run -/

/-- The access that a helper makes, given its arguments in the registers. -/
def State.access? (p : Program) (s : State) : Helper → Option Access
  | .readNumber => some .number
  | .readString => some .stringBytes
  | .writeNumber => some (.setNumber s.vectors.xmm0)
  | .writeString => (State.textAt p s s.registers.rsi).toOption.map .setText
  | .concat | .remainder => none

/-- The helper that the next step calls. -/
def State.helper? (p : Program) (s : State) : Option Helper :=
  match fetch p s.pc with
  | some (.call reg, _) =>
    match s.registers.get reg with
    | .bits address =>
      match p.locate address with
      | some (.helper h) => some h
      | _ => none
    | _ => none
  | _ => none

/-- The accesses of the next step: at most one. -/
def State.stepAccesses (p : Program) (s : State) : List Access :=
  ((s.helper? p).bind (s.access? p)).toList

/-- The accesses that a run makes in the given number of steps, in order. -/
def accesses (host : Host) (p : Program) : Nat → State → List Access
  | 0, _ => []
  | fuel + 1, s => s.stepAccesses p ++
    match step host p s with
    | .running s' => accesses host p fuel s'
    | _ => []

variable {host : Host} {p : Program} {s s' : State}

theorem Calls.helper?_eq {h : Helper} (calls : Calls p s h) : s.helper? p = some h := by
  obtain ⟨reg, next, address, fetched, target, located⟩ := calls
  simp only [State.helper?, fetched, target, located]

/-- A helper does to the cell what its access does. -/
theorem cell_of_perform {args : State} {h : Helper} (done : State.perform p args s h = .ok s') :
    s'.cell = s.cell.afterAll (args.access? p h).toList := by
  cases h with
  | readNumber | readString | writeNumber =>
    obtain ⟨_, -, ⟨⟩⟩ := exists_of_bind_ok done
    rfl
  | writeString =>
    obtain ⟨_, -, done⟩ := exists_of_bind_ok done
    obtain ⟨text, followed, ⟨⟩⟩ := exists_of_bind_ok done
    rw [State.access?, followed]
    rfl
  | concat =>
    obtain ⟨_, -, done⟩ := exists_of_bind_ok done
    obtain ⟨_, -, ⟨⟩⟩ := exists_of_bind_ok done
    rfl
  | remainder =>
    cases done
    rfl

/-- A step does to the cell what its accesses do. -/
theorem cell_of_step (taken : step host p s = .running s') :
    s'.cell = s.cell.afterAll (s.stepAccesses p) := by
  obtain ⟨i, next, fetched, done⟩ := step_running taken
  cases i with
  | call reg =>
    obtain ⟨address, h, sp, target, located, performed⟩ := call_ok done
    have calls : Calls p s h := ⟨reg, next, address, fetched, target, located⟩
    have done := cell_of_perform performed
    -- Fetching and giving up the registers leave the cell and the helper's arguments alone.
    have same : State.access? p { s with pc := next } h = s.access? p h := by cases h <;> rfl
    rw [same] at done
    rw [State.stepAccesses, calls.helper?_eq]
    exact done
  | _ =>
    have idle : s.helper? p = none := by simp only [State.helper?, fetched]
    rw [State.stepAccesses, idle]
    exact (execute_sameWorld done nofun).cell

/-- A return does nothing to the cell. -/
theorem cell_of_return (taken : step host p s = .returned s') :
    s.stepAccesses p = [] ∧ s'.cell = s.cell := by
  unfold step at taken
  split at taken
  · cases taken
  · rename_i next fetched
    have idle : s.helper? p = none := by simp only [State.helper?, fetched]
    refine ⟨by rw [State.stepAccesses, idle]; rfl, ?_⟩
    split at taken
    · rename_i left
      cases taken
      obtain ⟨address, -, left⟩ := exists_of_bind_ok left
      obtain ⟨w, -, left⟩ := exists_of_bind_ok left
      split at left
      · cases left
        rfl
      · cases left
    · cases taken
  · split at taken <;> cases taken

/-- While it goes on and when it has returned, a run has done to the cell what its accesses do. -/
theorem cell_of_run {count : Nat}
    (ran : run host p count s = .running s' ∨ run host p count s = .returned s') :
    s'.cell = s.cell.afterAll (accesses host p count s) := by
  induction count generalizing s with
  | zero =>
    simp only [run, Outcome.running.injEq, reduceCtorEq, or_false] at ran
    subst ran
    rfl
  | succ count ih =>
    rw [run] at ran
    rw [accesses]
    cases taken : step host p s with
    | running u =>
      rw [taken] at ran
      rw [Cell.afterAll_append, ← cell_of_step taken]
      exact ih ran
    | returned u =>
      simp only [taken, reduceCtorEq, Outcome.returned.injEq, false_or] at ran
      subst ran
      obtain ⟨idle, same⟩ := cell_of_return taken
      rw [idle, same]
      rfl
    | trapped t => simp [taken] at ran

end Machine

end TreeJit
