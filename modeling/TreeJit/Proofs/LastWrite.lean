import TreeJit.Proofs.Accesses
import TreeJit.Proofs.NumberText

/-! # A cell holds what was written last

The slots and flags of a cell are a representation of one value.  Its owner and
compiled code can only see the value that was written last, however the two
have taken turns.

* `Cell.afterAll_reads` — reads do nothing but fill the text slot.
* `Cell.Alike` — two cells hold the same value.  Reads keep it, and evaluation
  respects it.
* `Uses` — a cell in use: accesses by its owner and calls of compiled functions.
* `cell_holds_last_write` — what can be seen of a cell that has been in use.
-/

namespace TreeJit

open Activation (hasText_withText)
open Machine (Host Registers State Vectors)

namespace Cell

/-! ## Reads -/

theorem withText_of_hasText {c : Cell} (hasText : c.hasText) : c.withText = c := if_pos hasText

/-- Reads do nothing but fill the text slot, if one of them asks for the text. -/
theorem afterAll_reads (c : Cell) {reads : List Access} (noWrite : ∀ a ∈ reads, a.isWrite = false) :
    c.afterAll reads = if reads.any Access.readsText then c.withText else c := by
  induction reads generalizing c with
  | nil => rfl
  | cons a reads ih =>
    rw [List.forall_mem_cons] at noWrite
    rw [afterAll_cons, ih _ noWrite.2, List.any_cons]
    cases a with
    | setNumber _ | setText _ => cases noWrite.1
    | number | hasNumber | hasText | string | stringBytes => simp [after, Access.readsText]

/-! ## Cells with the same value -/

/-- Whether at least one of the slots counts. -/
def Filled (c : Cell) : Prop := c.hasNumber ∨ c.hasText

theorem filled_fresh : fresh.Filled := .inl rfl

theorem Filled.after {c : Cell} (filled : c.Filled) (a : Access) : (c.after a).Filled := by
  cases a with
  | setNumber value => exact .inl rfl
  | setText text => exact .inr rfl
  | number | hasNumber | hasText => exact filled
  | string | stringBytes => exact .inr (hasText_withText c)

theorem Filled.afterAll {c : Cell} (filled : c.Filled) (accesses : List Access) :
    (c.afterAll accesses).Filled := by
  induction accesses generalizing c with
  | nil => exact filled
  | cons a accesses ih => exact ih (filled.after a)

/-- Both cells hold a value, and it is the same one. -/
structure Alike (c d : Cell) : Prop where
  left : c.Filled
  right : d.Filled
  number : c.number = d.number
  text : c.text = d.text

theorem Filled.alike {c : Cell} (filled : c.Filled) : Alike c c := ⟨filled, filled, rfl, rfl⟩

namespace Alike

variable {c d e : Cell}

theorem symm (alike : Alike c d) : Alike d c :=
  ⟨alike.right, alike.left, alike.number.symm, alike.text.symm⟩

theorem trans (first : Alike c d) (second : Alike d e) : Alike c e :=
  ⟨first.left, second.right, first.number.trans second.number, first.text.trans second.text⟩

theorem setNumber (c d : Cell) (value : Double) : Alike (c.setNumber value) (d.setNumber value) :=
  ⟨.inl rfl, .inl rfl, rfl, rfl⟩

theorem setText (c d : Cell) (text : Text) : Alike (c.setText text) (d.setText text) :=
  ⟨.inr rfl, .inr rfl, rfl, rfl⟩

end Alike

/-- Filling the text slot does not change the value.  A cell without a text has a number, and that
stays as it is. -/
theorem Filled.alike_withText {c : Cell} (filled : c.Filled) : Alike c c.withText := by
  refine ⟨filled, .inr (hasText_withText c), ?_, by rw [text, text, withText_withText]⟩
  by_cases hasText : c.hasText
  · rw [withText_of_hasText hasText]
  · have hasNumber : c.hasNumber := filled.resolve_right hasText
    simp [number, withText, hasText, hasNumber]

theorem Filled.alike_after {c : Cell} (filled : c.Filled) {a : Access} (read : a.isWrite = false) :
    Alike c (c.after a) := by
  cases a with
  | setNumber _ | setText _ => cases read
  | number | hasNumber | hasText => exact filled.alike
  | string | stringBytes => exact filled.alike_withText

theorem Alike.after {c d : Cell} (alike : Alike c d) (a : Access) :
    Alike (c.after a) (d.after a) := by
  by_cases write : a.isWrite
  · cases a with
    | setNumber value => exact .setNumber c d value
    | setText text => exact .setText c d text
    | _ => cases write
  · have read := Bool.not_eq_true _ ▸ write
    exact (alike.left.alike_after read).symm.trans (alike.trans (alike.right.alike_after read))

end Cell

open Cell (Alike Filled)

/-! ## Evaluation respects values -/

section evaluation

variable {bound : String} {c d left : Cell} {n : Node} {value : Value}

theorem exists_of_eval_concat {lhs rhs : Node} {t : Text}
    (joined : Eval.string bound c (.concat lhs rhs) = some (t, left)) :
    ∃ a b between, Eval.string bound c lhs = some (a, between) ∧
      Eval.string bound between rhs = some (b, left) ∧ t = a ++ b := by
  obtain ⟨⟨a, between⟩, first, joined⟩ := Option.bind_eq_some_iff.1 joined
  obtain ⟨⟨b, last⟩, second, ⟨⟩⟩ := Option.bind_eq_some_iff.1 joined
  exact ⟨a, b, between, first, second, rfl⟩

/-- Evaluating a string only reads. -/
theorem Cell.Filled.eval_string (filled : c.Filled) {t : Text}
    (value : Eval.string bound c n = some (t, left)) : Alike c left := by
  fun_induction Eval.string bound c n generalizing t left with
  | case1 c text =>
    cases value
    exact filled.alike
  | case2 c =>
    cases value
    exact filled.alike_withText
  | case3 | case5 => cases value
  | case4 c lhs rhs ihLeft ihRight =>
    obtain ⟨a, b, between, first, second, rfl⟩ := exists_of_eval_concat value
    have leftAlike := ihLeft filled first
    exact leftAlike.trans (ihRight between leftAlike.right second)

theorem Cell.Alike.eval_number (alike : Alike c d) :
    Eval.number bound c n = Eval.number bound d n := by
  fun_induction Eval.number bound c n with
  | case1 value => rfl
  | case2 => simp [Eval.number, alike.number]
  | case3 name other => simp [Eval.number, other]
  | case4 op lhs rhs left right => simp [Eval.number, ← left, ← right]
  | case5 operand ih => simp [Eval.number, ← ih]
  | case6 n number var binary neg => simp [Eval.number]

theorem Cell.Alike.eval_string (alike : Alike c d) {t : Text}
    (value : Eval.string bound c n = some (t, left)) :
    ∃ left', Eval.string bound d n = some (t, left') ∧ Alike left left' := by
  fun_induction Eval.string bound c n generalizing d t left with
  | case1 c text =>
    cases value
    exact ⟨d, rfl, alike⟩
  | case2 c =>
    cases value
    exact ⟨d.withText, by simp [Eval.string, alike.text], alike.after .string⟩
  | case3 | case5 => cases value
  | case4 c lhs rhs ihLeft ihRight =>
    obtain ⟨a, b, between, first, second, rfl⟩ := exists_of_eval_concat value
    obtain ⟨between', first, alike⟩ := ihLeft alike first
    obtain ⟨left', second, alike⟩ := ihRight between alike second
    exact ⟨left', by simp [Eval.string, first, second], alike⟩

/-- Evaluation on a cell with the same value has the same result and leaves the same value. -/
theorem Evaluates.alike (evaluated : Evaluates bound c n value left) (alike : Alike c d) :
    ∃ left', Evaluates bound d n value left' ∧ Alike left left' := by
  induction evaluated generalizing d with
  | number value => exact ⟨d, .number (alike.eval_number ▸ value), alike⟩
  | string notVar value =>
    obtain ⟨left', value, alike⟩ := alike.eval_string value
    exact ⟨left', .string notVar value, alike⟩
  | @assignNumber c _ x evaluated =>
    cases evaluated with
    | number value =>
      exact ⟨_, .assignNumber (.number (alike.eval_number ▸ value)), .setNumber c d x⟩
  | @assignString _ left _ t _ ih =>
    obtain ⟨left', evaluated, _⟩ := ih alike
    exact ⟨_, .assignString evaluated, .setText left left' t⟩
  | loopDone test done => exact ⟨d, .loopDone (alike.eval_number ▸ test) done, alike⟩
  | loopAgain test again _ _ ihOnce ihRest =>
    obtain ⟨between, once, alikeBetween⟩ := ihOnce alike
    obtain ⟨left', rest, alikeLeft⟩ := ihRest alikeBetween
    exact ⟨left', .loopAgain (alike.eval_number ▸ test) again once rest, alikeLeft⟩

/-- Only statements change the value of the variable. -/
theorem Evaluates.alike_of_expression (evaluated : Evaluates bound c n value left)
    (expression : value.kind ≠ .statement) (filled : c.Filled) : Alike c left := by
  cases evaluated with
  | number _ => exact filled.alike
  | string _ value => exact filled.eval_string value
  | _ => exact absurd rfl expression

theorem Compilable.evaluates {kind : ValueKind} (tree : Compilable bound kind n)
    (expression : kind ≠ .statement) (c : Cell) :
    ∃ value left, Evaluates bound c n value left := by
  cases tree with
  | number h =>
    obtain ⟨x, value⟩ := h.eval c
    exact ⟨_, _, .number value⟩
  | text h notVar =>
    obtain ⟨t, left, value⟩ := h.eval c
    exact ⟨_, _, .string notVar value⟩
  | _ => exact absurd rfl expression

end evaluation

/-! ## Cells in use -/

/-- A compiled function, where different things have different addresses. -/
structure Routine where
  config : Config
  context : Context
  root : Node
  code : CompiledCode
  compiled : (compile config context root).result = .ok code
  separates : code.program.Separates

namespace Routine

variable {f : Routine} {c left left' : Cell} {made made' : List Access}

/-- `f.Returns c made left`: a call of `f` on the cell `c` can make the accesses `made`, return, and
leave the cell `left`. -/
def Returns (f : Routine) (c : Cell) (made : List Access) (left : Cell) : Prop :=
  ∃ (host : Host) (registers : Registers) (vectors : Vectors) (flag : Bool) (fuel : Nat)
      (s : State),
    Machine.run host f.code.program fuel (State.enter registers vectors flag c) = .returned s ∧
      made = Machine.accesses host f.code.program fuel (State.enter registers vectors flag c) ∧
      left = s.cell

theorem Returns.eq_afterAll (returns : f.Returns c made left) : left = c.afterAll made := by
  obtain ⟨host, registers, vectors, flag, fuel, s, returned, rfl, rfl⟩ := returns
  exact Machine.cell_of_run (.inr returned)

/-- `f.Reaches c made now`: a call of `f` on the cell `c` can make the accesses `made` and then still
be going on, with `now` in place of `c`. -/
def Reaches (f : Routine) (c : Cell) (made : List Access) (now : Cell) : Prop :=
  ∃ (host : Host) (registers : Registers) (vectors : Vectors) (flag : Bool) (count : Nat)
      (s : State),
    Machine.run host f.code.program count (State.enter registers vectors flag c) = .running s ∧
      made = Machine.accesses host f.code.program count (State.enter registers vectors flag c) ∧
      now = s.cell

theorem Reaches.eq_afterAll (reaches : f.Reaches c made left) : left = c.afterAll made := by
  obtain ⟨host, registers, vectors, flag, count, s, running, rfl, rfl⟩ := reaches
  exact Machine.cell_of_run (.inl running)

theorem Returns.evaluates (returns : f.Returns c made left) :
    ∃ value, Evaluates f.context.variableName c f.root value left ∧ value.kind = f.code.result := by
  obtain ⟨host, registers, vectors, flag, fuel, s, returned, -, rfl⟩ := returns
  have runs := (compile_ok f.compiled).runs f.separates host registers
  obtain ⟨value, evaluated, kind, -⟩ := runs.finished returned
  exact ⟨value, evaluated, kind⟩

theorem returns_of_evaluates {value : Value}
    (evaluated : Evaluates f.context.variableName c f.root value left) :
    ∃ made, f.Returns c made left := by
  have runs := (compile_ok f.compiled).runs f.separates Host.zero .zero
  obtain ⟨fuel, s, returned, finished⟩ := runs.returns .zero false evaluated
  exact ⟨_, Host.zero, .zero, .zero, false, fuel, s, returned, rfl, finished.cell.symm⟩

/-- What the caller and the helpers leave in registers makes no difference to the cell. -/
theorem Returns.unique (first : f.Returns c made left) (second : f.Returns c made' left') :
    left = left' := by
  obtain ⟨value, evaluated, -⟩ := first.evaluates
  obtain ⟨host, registers, vectors, flag, fuel, s, returned, -, rfl⟩ := second
  have runs := (compile_ok f.compiled).runs f.separates host registers
  obtain ⟨fuel', s', returned', finished⟩ := runs.returns vectors flag evaluated
  rw [Machine.returned_unique returned returned', finished.cell]

end Routine

/-- What can be done with a cell. -/
inductive Use where
  | access (a : Access)
  | call (f : Routine)

namespace Use

variable {u : Use} {c d left left' : Cell} {made made' : List Access}

/-- Whether a use may change the value.  Calls of expressions only read. -/
def writes : Use → Bool
  | .access a => a.isWrite
  | .call f => f.code.result == .statement

/-- `u.Does c made left`: the use `u` of the cell `c` makes the accesses `made` and leaves `left`. -/
def Does (u : Use) (c : Cell) (made : List Access) (left : Cell) : Prop :=
  match u with
  | .access a => made = [a] ∧ left = c.after a
  | .call f => f.Returns c made left

theorem Does.eq_afterAll (does : u.Does c made left) : left = c.afterAll made := by
  cases u with
  | access a =>
    obtain ⟨rfl, rfl⟩ := does
    rfl
  | call f => exact Routine.Returns.eq_afterAll does

theorem Does.unique (first : u.Does c made left) (second : u.Does c made' left') : left = left' := by
  cases u with
  | access a => exact first.2.trans second.2.symm
  | call f => exact Routine.Returns.unique first second

theorem Does.alike (does : u.Does c made left) (alike : Alike c d) :
    ∃ made' left', u.Does d made' left' ∧ Alike left left' := by
  cases u with
  | access a =>
    obtain ⟨rfl, rfl⟩ := does
    exact ⟨[a], d.after a, ⟨rfl, rfl⟩, alike.after a⟩
  | call f =>
    obtain ⟨value, evaluated, -⟩ := Routine.Returns.evaluates does
    obtain ⟨left', evaluated', alikeLeft⟩ := evaluated.alike alike
    obtain ⟨made', returns⟩ := Routine.returns_of_evaluates evaluated'
    exact ⟨made', left', returns, alikeLeft⟩

theorem Does.alike_of_reads (does : u.Does c made left) (reads : u.writes = false)
    (filled : c.Filled) : Alike c left := by
  cases u with
  | access a =>
    obtain ⟨-, rfl⟩ := does
    exact filled.alike_after reads
  | call f =>
    obtain ⟨value, evaluated, kind⟩ := Routine.Returns.evaluates does
    exact evaluated.alike_of_expression (kind ▸ beq_eq_false_iff_ne.1 reads) filled

theorem exists_does_of_reads (reads : u.writes = false) (c : Cell) :
    ∃ made left, u.Does c made left := by
  cases u with
  | access a => exact ⟨[a], c.after a, rfl, rfl⟩
  | call f =>
    have tree := (compile_ok f.compiled).tree
    obtain ⟨value, left, evaluated⟩ := tree.evaluates (beq_eq_false_iff_ne.1 reads) c
    obtain ⟨made, returns⟩ := Routine.returns_of_evaluates evaluated
    exact ⟨made, left, returns⟩

end Use

/-- `Uses c us made left`: the uses `us` of the cell `c`, one after the other, make the accesses
`made` and leave `left`. -/
inductive Uses : Cell → List Use → List Access → Cell → Prop where
  | nil {c : Cell} : Uses c [] [] c
  | cons {c between left : Cell} {u : Use} {us : List Use} {first rest : List Access}
      (does : u.Does c first between) (uses : Uses between us rest left) :
      Uses c (u :: us) (first ++ rest) left

namespace Uses

variable {c d left left' : Cell} {us : List Use} {made made' : List Access}

/-- Using a cell does what the accesses do. -/
theorem eq_afterAll (uses : Uses c us made left) : left = c.afterAll made := by
  induction uses with
  | nil => rfl
  | cons does _ ih => rw [Cell.afterAll_append, ← does.eq_afterAll, ih]

theorem unique (first : Uses c us made left) (second : Uses c us made' left') : left = left' := by
  induction first generalizing made' left' with
  | nil =>
    cases second
    rfl
  | cons does _ ih =>
    cases second with
    | cons does' rest =>
      cases does.unique does'
      exact ih rest

/-- Without the reads, the rest can be done as before. -/
theorem without_reads (uses : Uses c us made left) (alike : Alike c d) :
    ∃ made' left', Uses d (us.filter Use.writes) made' left' ∧ Alike left left' := by
  induction uses generalizing d with
  | nil => exact ⟨[], d, .nil, alike⟩
  | @cons c between left u us _ _ does _ ih =>
    rw [List.filter_cons]
    by_cases writes : u.writes
    · rw [if_pos writes]
      obtain ⟨first, between', does', alike⟩ := does.alike alike
      obtain ⟨rest, left', uses, alike⟩ := ih alike
      exact ⟨first ++ rest, left', .cons does' uses, alike⟩
    · rw [if_neg writes]
      have reads : u.writes = false := by simpa using writes
      exact ih ((does.alike_of_reads reads alike.left).symm.trans alike)

/-- Reads can be put in anywhere. -/
theorem with_reads (uses : Uses c (us.filter Use.writes) made left) (alike : Alike c d) :
    ∃ made' left', Uses d us made' left' ∧ Alike left left' := by
  induction us generalizing c d made with
  | nil =>
    cases uses
    exact ⟨[], d, .nil, alike⟩
  | cons u us ih =>
    rw [List.filter_cons] at uses
    by_cases writes : u.writes
    · rw [if_pos writes] at uses
      cases uses with
      | cons does uses =>
        obtain ⟨first, between', does', alike⟩ := does.alike alike
        obtain ⟨rest, left', uses', alike⟩ := ih uses alike
        exact ⟨first ++ rest, left', .cons does' uses', alike⟩
    · rw [if_neg writes] at uses
      have reads : u.writes = false := by simpa using writes
      obtain ⟨first, between, does⟩ := Use.exists_does_of_reads reads d
      have alike := alike.trans (does.alike_of_reads reads alike.right)
      obtain ⟨rest, left', uses', alike⟩ := ih uses alike
      exact ⟨first ++ rest, left', .cons does uses', alike⟩

end Uses

/-- How a cell can be made, and the writes in it. -/
inductive Built : Cell → List Access → Prop where
  | fresh : Built .fresh []
  | ofNumber (value : Double) : Built (.ofNumber value) [.setNumber value]
  | ofText (text : Text) : Built (.ofText text) [.setText text]

theorem Built.eq_afterAll {start : Cell} {init : List Access} (built : Built start init) :
    start = Cell.fresh.afterAll init := by
  cases built <;> rfl

/-- A cell that has been used, after the last use or in the middle of one more call. -/
inductive InUse (start : Cell) (us : List Use) : List Access → Cell → Prop where
  | idle {made : List Access} {now : Cell} (uses : Uses start us made now) : InUse start us made now
  | busy {made more : List Access} {between now : Cell} (uses : Uses start us made between)
      (f : Routine) (reaches : f.Reaches between more now) : InUse start us (made ++ more) now

theorem InUse.eq_afterAll {start now : Cell} {us : List Use} {made : List Access}
    (inUse : InUse start us made now) : now = start.afterAll made := by
  cases inUse with
  | idle uses => exact uses.eq_afterAll
  | busy uses f reaches => rw [Cell.afterAll_append, ← uses.eq_afterAll, reaches.eq_afterAll]

/-! ## The last write -/

/-- `LastWrite history write since`: after `write`, the history has only the reads `since`. -/
structure LastWrite (history : List Access) (write : Access) (since : List Access) : Prop where
  split : ∃ earlier, history = earlier ++ write :: since
  reads : ∀ a ∈ since, a.isWrite = false

theorem LastWrite.exists_afterAll {history since : List Access} {write : Access}
    (last : LastWrite history write since) (c : Cell) :
    ∃ before : Cell, c.afterAll history =
      if since.any Access.readsText then (before.after write).withText else before.after write := by
  obtain ⟨earlier, rfl⟩ := last.split
  refine ⟨c.afterAll earlier, ?_⟩
  rw [Cell.afterAll_append, Cell.afterAll_cons, Cell.afterAll_reads _ last.reads]

theorem Uses.alike_of_same_writes {c left : Cell} {us us' : List Use} {made : List Access}
    (uses : Uses c us made left) (filled : c.Filled)
    (same : us'.filter Use.writes = us.filter Use.writes) :
    ∃ made' left', Uses c us' made' left' ∧ Alike left left' := by
  obtain ⟨_, between, writesOnly, alike⟩ := uses.without_reads filled.alike
  rw [← same] at writesOnly
  obtain ⟨made', left', uses', alike'⟩ := writesOnly.with_reads filled.alike
  exact ⟨made', left', uses', alike.trans alike'⟩

/-- A cell holds what was written last.  Its owner may have accessed it and called compiled functions
on it in any order, and one more call may be going on.  If the last write was a number, the cell has
that number and its text form, which it keeps once it has been asked for; if it was a text, the cell
has that text and the number that the text begins with; and if there was none, it has zero and the
empty text.  One of the flags is always set.  Reads, and calls of functions that only read, can be
added and left out anywhere: the rest still goes through, and the number and the text stay the
same. -/
theorem cell_holds_last_write {start cell : Cell} {init made : List Access} {us : List Use}
    (built : Built start init) (inUse : InUse start us made cell) :
    (∀ value since, LastWrite (init ++ made) (.setNumber value) since →
      cell.number = value ∧ cell.text.chars = value.toText ∧ cell.hasNumber ∧
        (cell.hasText ↔ ∃ a ∈ since, a.readsText)) ∧
    (∀ text since, LastWrite (init ++ made) (.setText text) since →
      cell.text = text ∧ cell.number = Decimal.readLeading text.chars ∧ cell.hasText ∧
        ¬cell.hasNumber) ∧
    ((∀ a ∈ init ++ made, a.isWrite = false) →
      cell.number = .zero ∧ cell.text = .empty ∧ cell.hasNumber ∧ cell.hasText) ∧
    (cell.hasNumber ∨ cell.hasText) ∧
    (Uses start us made cell → ∀ us', us'.filter Use.writes = us.filter Use.writes →
      (∃ made' cell', Uses start us' made' cell') ∧
      ∀ made' cell', Uses start us' made' cell' →
        cell'.number = cell.number ∧ cell'.text = cell.text) := by
  have history : cell = Cell.fresh.afterAll (init ++ made) := by
    rw [Cell.afterAll_append, ← built.eq_afterAll, inUse.eq_afterAll]
  refine ⟨?_, ?_, ?_, ?_, ?_⟩
  · intro value since last
    obtain ⟨before, left⟩ := last.exists_afterAll .fresh
    rw [history, left, ← List.any_eq_true]
    cases since.any Access.readsText with
    | true => exact ⟨rfl, Cell.chars_renderNumber value, rfl, iff_of_true rfl rfl⟩
    | false => exact ⟨rfl, Cell.chars_renderNumber value, rfl, Iff.rfl⟩
  · intro text since last
    obtain ⟨before, left⟩ := last.exists_afterAll .fresh
    have kept : (before.after (.setText text)).withText = before.after (.setText text) := rfl
    rw [history, left, kept, ite_self]
    exact ⟨rfl, rfl, rfl, Bool.false_ne_true⟩
  · intro reads
    have kept : Cell.fresh.withText = .fresh := rfl
    rw [history, Cell.afterAll_reads _ reads, kept, ite_self]
    exact ⟨rfl, rfl, rfl, rfl⟩
  · rw [history]
    exact Cell.filled_fresh.afterAll _
  · intro uses us' same
    have filled : start.Filled := built.eq_afterAll ▸ Cell.filled_fresh.afterAll init
    obtain ⟨made', cell', uses', alike⟩ := uses.alike_of_same_writes filled same
    refine ⟨⟨made', cell', uses'⟩, ?_⟩
    intro made'' cell'' uses''
    rw [uses''.unique uses']
    exact ⟨alike.number.symm, alike.text.symm⟩

/-- A function appends to the cell's text, then minus zero is written and read as a text.  What the
function has left is gone, and without the read there is the same number. -/
theorem negativeZero_overwrites_text :
    ∃ (f : Routine) (made : List Access) (cell : Cell),
      f.root = .assign "x" (.concat (.var "x") (.string ⟨[0x62], by decide⟩)) ∧
      Uses (.ofText ⟨[0x61], by decide⟩)
        [.call f, .access (.setNumber .negativeZero), .access .string] made cell ∧
      cell.number = .negativeZero ∧ cell.text.chars = ['0'] ∧ cell.hasText ∧
      ∀ made' cell', Uses (.ofText ⟨[0x61], by decide⟩)
        [.call f, .access (.setNumber .negativeZero)] made' cell' → cell'.number = .negativeZero := by
  obtain ⟨code, compiled, -, separates⟩ := exists_compiled {} { variableName := "x" }
    (.assign "x" (.concat (.var "x") (.string ⟨[0x62], by decide⟩))) rfl (by decide) (by decide) rfl
    rfl (by decide) rfl (by decide)
  let f : Routine := ⟨{}, { variableName := "x" }, _, code, compiled, separates⟩
  have joined : Evaluates "x" (.ofText ⟨[0x61], by decide⟩)
      (.concat (.var "x") (.string ⟨[0x62], by decide⟩)) (.string ⟨[0x61, 0x62], by decide⟩)
      (.ofText ⟨[0x61], by decide⟩) := .string nofun rfl
  obtain ⟨made, returns⟩ := Routine.returns_of_evaluates (f := f) (.assignString joined)
  have uses : Uses (.ofText ⟨[0x61], by decide⟩)
      [.call f, .access (.setNumber .negativeZero), .access .string] _ _ :=
    .cons returns (.cons ⟨rfl, rfl⟩ (.cons ⟨rfl, rfl⟩ .nil))
  have last : LastWrite ([.setText ⟨[0x61], by decide⟩] ++ (made ++ ([.setNumber .negativeZero] ++
      ([.string] ++ [])))) (.setNumber .negativeZero) [.string] :=
    ⟨⟨.setText ⟨[0x61], by decide⟩ :: made, rfl⟩, by simp [Access.isWrite]⟩
  obtain ⟨held, -, -, -, insensitive⟩ := cell_holds_last_write (.ofText _) (.idle uses)
  obtain ⟨number, text, -, hasText⟩ := held _ _ last
  refine ⟨f, _, _, rfl, uses, number, text.trans (by decide +kernel), ?_, ?_⟩
  · exact hasText.2 ⟨.string, List.mem_singleton_self _, rfl⟩
  · intro made' cell' uses'
    have same := insensitive uses [.call f, .access (.setNumber .negativeZero)] rfl
    exact (same.2 made' cell' uses').1.trans number

end TreeJit
