import TreeJit.Proofs.SideBySide
import TreeJit.Proofs.Reports

/-! # What a failed compilation leaves behind

When a compilation runs out of room, another one with more room goes on, and it
can still reach back: as it ends a loop, it fills in the exit, which lies far
behind.  Nothing else before the place where the first one stopped is changed any
more.

* `LoopSpan.OpenAt` — loops that have been entered and have not ended.
* `Buffer.CutShort` — a buffer that another one begins with, up to the exits of
  such loops.
* `LoopSpan.cutShort` — a loop is cut short in its test, in its body or at its
  end; the body is where the induction goes on.
* `larger_buffer_continues` — a compilation is cut short by a smaller buffer.
-/

namespace TreeJit

open X86 (Instr)

/-! ## Loops that have not ended -/

/-- Whether a loop has been entered but has not ended, given where the cursor stands: its exit has
been written, and its end has not. -/
def LoopSpan.OpenAt (span : LoopSpan) (cursor : Nat) : Prop :=
  span.entry ≤ cursor ∧ cursor < span.stop

/-- Whether a byte belongs to the displacement of the exit of a loop that has not ended. -/
def LoopSpan.Pending (spans : List LoopSpan) (cursor i : Nat) : Prop :=
  ∃ span ∈ spans, span.OpenAt cursor ∧ span.exitField ≤ i ∧ i < span.exitField + 4

/-- `b.CutShort spans d`: `d` begins with the bytes of `b`, up to the exits of loops that have not
ended in `b`.  These are jumps whose displacement is zero. -/
structure Buffer.CutShort (spans : List LoopSpan) (b d : Buffer) : Prop where
  precedes : b.Precedes (LoopSpan.Pending spans b.offset) d
  unresolved : ∀ span ∈ spans, span.OpenAt b.offset →
    b.region.bytes (span.exitField - 2) 6 = (Instr.je 0).encode

namespace Buffer

variable {b d : Buffer} {spans : List LoopSpan}

theorem CutShort.of_ended (ended : ∀ span ∈ spans, ¬span.OpenAt b.offset)
    (precedes : b.Precedes (fun _ => False) d) : b.CutShort spans d :=
  ⟨precedes.mono fun _ _ => False.elim, fun span member isOpen => absurd isOpen (ended span member)⟩

theorem CutShort.of_stopped (stopped : ∀ span ∈ spans, span.stop ≤ b.offset)
    (precedes : b.Precedes (fun _ => False) d) : b.CutShort spans d :=
  .of_ended (fun span member isOpen => absurd isOpen.2 (Nat.not_lt.2 (stopped span member)))
    precedes

/-- A loop that has not ended, around others.  Only its exit is touched later before the cursor. -/
theorem CutShort.enclose {span : LoopSpan} {touched : Nat → Prop} {d' : Buffer}
    (inner : b.CutShort spans d) (isOpen : span.OpenAt b.offset)
    (exit : b.region.bytes (span.exitField - 2) 6 = (Instr.je 0).encode)
    (later : d.Precedes touched d')
    (own : ∀ i < b.offset, touched i → span.exitField ≤ i ∧ i < span.exitField + 4) :
    b.CutShort (span :: spans) d' := by
  constructor
  · have both : b.Precedes (fun i => LoopSpan.Pending spans b.offset i ∨ touched i) d' :=
      (inner.precedes.mono fun _ _ => .inl).trans (later.mono fun _ _ => .inr)
    apply both.mono
    rintro i before (⟨other, member, pending⟩ | filled)
    · exact ⟨other, .tail _ member, pending⟩
    · exact ⟨span, .head _, isOpen, own i before filled⟩
  · rw [List.forall_mem_cons]
    exact ⟨fun _ => exit, inner.unresolved⟩

end Buffer

/-- No loop of a tree comes before the tree. -/
theorem Node.start_le_of_mem_loopSpans {n : Node} {scope : Codegen.Scope} {start : Nat}
    {span : LoopSpan} (member : span ∈ n.loopSpans scope start) : start ≤ span.start := by
  fun_induction Node.loopSpans scope start n with
  | case1 scope start cond body outer ih =>
    rcases List.mem_cons.1 member with rfl | member
    · exact Nat.le_refl _
    · have inner := ih member
      simp only [LoopSpan.entry, LoopSpan.exitField, outer] at inner
      omega
  | case2 => cases member

/-- A tree without loops resolves nothing, and neither does a condition. -/
theorem Script.linear : Script.Composable fun _ s => Step.Linear s.steps where
  pure _ _ _ := List.not_mem_nil
  emit i _ _ := by simp [Script.emit, Script.step]
  address _ _ _ _ := by simp [Script.address, Script.step]
  reject n field target := by
    change .resolve field target ∉ [Step.note (.rejected n.kind)]
    simp
  mismatch _ _ _ _ := List.not_mem_nil
  unbound _ _ _ := List.not_mem_nil
  bind {_ _ s next} first second := by
    change Step.Linear (Script.bind s next).steps
    cases outcome : s.outcome with
    | error e =>
      rw [bind_of_error outcome]
      exact first
    | ok a =>
      rw [bind_of_ok outcome]
      intro field target member
      rcases List.mem_append.1 member with member | member
      · exact first field target member
      · exact second a field target member

namespace LoopSpan

open Codegen

variable (span : LoopSpan)

theorem two_le_exitField : 2 ≤ span.exitField := by
  simp only [exitField]
  omega

/-- The steps up to the exit of a loop. -/
def testSteps : List Step := (loopTest (number span.scope span.cond)).steps

/-- The steps of a loop's body. -/
def bodySteps : List Step := (node (span.scope.after span.cond) span.body).steps

variable {span}

theorem testSteps_of_ok (ok : (number span.scope span.cond).outcome = .ok ()) :
    span.testSteps = (number span.scope span.cond).steps ++
      [.emit (.xorpd .xmm1 .xmm1), .emit (.ucomisd .xmm0 .xmm1)] ++ [.emit (.je 0)] := by
  rw [testSteps, loopTest_of_ok ok, List.append_assoc]
  rfl

theorem totalSize_testSteps (ok : (number span.scope span.cond).outcome = .ok ()) :
    span.start + Step.totalSize span.testSteps = span.entry := by
  rw [testSteps_of_ok ok, Step.totalSize_append, Step.totalSize_append]
  rfl

/-- The steps that may follow the body of a loop. -/
def EndsWith (span : LoopSpan) (tail : List Step) : Prop :=
  tail = [] ∨ (∃ kind, (node (span.scope.after span.cond) span.body).outcome = .ok kind) ∧
    tail = loopEnd (Step.totalSize span.testSteps) (Step.totalSize span.bodySteps)

/-- After the condition and the exit come the body and, if that is not refused, the end. -/
theorem steps_of_ok (ok : (number span.scope span.cond).outcome = .ok ()) :
    ∃ tail, (node span.scope (.loop span.cond span.body)).steps =
        span.testSteps ++ (span.bodySteps ++ tail) ∧
      span.EndsWith tail := by
  cases outcome : (node (span.scope.after span.cond) span.body).outcome with
  | error e =>
    refine ⟨[], ?_, .inl rfl⟩
    have refused := loop_of_refusedBody ok outcome
    rw [node, List.append_nil]
    change (Script.bind _ _).steps = _
    rw [Script.bind_of_error (by rw [refused]), refused]
    rfl
  | ok kind => exact ⟨_, steps_loop ok outcome, .inr ⟨⟨kind, outcome⟩, rfl⟩⟩

theorem fills_loopEnd (ok : (number span.scope span.cond).outcome = .ok ()) {i : Nat}
    (filled : Step.Fills (span.entry + Step.totalSize span.bodySteps)
      (loopEnd (Step.totalSize span.testSteps) (Step.totalSize span.bodySteps)) i) :
    span.exitField ≤ i ∧ i < span.exitField + 4 ∨ span.backField ≤ i := by
  obtain ⟨patch, member, low, high⟩ := filled
  replace member : patch ∈ span.patches := by
    rw [← patches_loopEnd (totalSize_testSteps ok)]
    exact member
  simp only [patches, List.mem_cons, List.not_mem_nil, or_false] at member
  rcases member with rfl | rfl
  · exact .inl ⟨low, high⟩
  · exact .inr low

variable {linkage : Linkage} {b b' : Buffer}

theorem linear_testSteps (ok : (number span.scope span.cond).outcome = .ok ()) :
    Step.Linear span.testSteps := by
  intro field target member
  rw [testSteps_of_ok ok] at member
  simp only [List.mem_append, List.mem_cons, List.not_mem_nil, or_false, reduceCtorEq] at member
  exact Script.linear.number _ _ field target member

/-- A buffer that ends within the condition or the exit of a loop. -/
theorem cutShort_test {spans : List LoopSpan} {rest : List Step}
    (ok : (number span.scope span.cond).outcome = .ok ()) (w : b.Roomier b')
    (start : b.offset = span.start)
    (short : (Step.performAll linkage span.testSteps b).buffer.offset < span.entry)
    (inside : ∀ inner ∈ spans, span.entry ≤ inner.start)
    (behind : ∀ i, Step.Fills span.entry rest i → span.exitField ≤ i) :
    (Step.performAll linkage span.testSteps b).buffer.CutShort (span :: spans)
      (Step.performAll linkage (span.testSteps ++ rest) b').buffer := by
  have size := totalSize_testSteps ok
  have cut : (Step.performAll linkage span.testSteps b).buffer.offset ≤ span.exitField := by
    rw [← size, ← start, testSteps_of_ok ok] at short
    have before := Step.offset_of_cut_jump rfl short
    rw [← testSteps_of_ok ok, start, size] at before
    exact Nat.le_of_add_le_add_right before
  refine .of_ended ?_ ?_
  · rw [List.forall_mem_cons]
    refine ⟨fun isOpen => absurd isOpen.1 (Nat.not_le.2 short), fun inner member isOpen => ?_⟩
    have low := inside inner member
    have high := isOpen.1
    simp only [entry, exitField] at low high short
    omega
  · have later := Step.performAll_append_keeps linkage span.testSteps rest b'
    rw [w.offset, start, size] at later
    apply ((Step.performAll_precedes (linear_testSteps ok) w).trans later.precedes).mono
    intro i before filled
    exact absurd (behind i filled) (by omega)

theorem totalSize_loopEnd (test body : Nat) : Step.totalSize (loopEnd test body) = 5 := rfl

/-- If there is no room for the end of a loop, there is none for the jump back, and no byte of its
displacement is kept. -/
theorem loopEnd_cut {test body : Nat} (w : b.Roomier b')
    (short : (Step.performAll linkage (loopEnd test body) b).buffer.offset < b.offset + 5) :
    let jump := Step.emit (.jmp 0)
    Step.performAll linkage (loopEnd test body) b = jump.perform linkage b ∧
      (jump.perform linkage b).buffer.Precedes (fun _ => False)
        (jump.perform linkage b').buffer ∧
      (jump.perform linkage b).buffer.offset ≤ b.offset + 1 := by
  intro jump
  have linear : Step.Linear [jump] := by simp [jump, Step.Linear]
  rcases Step.perform_roomier linkage linear w with ⟨here, -, -⟩ | ⟨⟨e, stopped⟩, precedes⟩
  -- Once the jump back is written, the end is reached.
  · have moved := Step.offset_of_perform_ok here
    have kept := (Step.performAll_append_keeps linkage [jump] ((loopEnd test body).drop 1) b).offset
    rw [Step.buffer_performAll_singleton, moved] at kept
    exact absurd short (Nat.not_lt.2 kept)
  · have same : Step.performAll linkage (loopEnd test body) b = jump.perform linkage b :=
      Step.performAll_cons_of_error stopped
    rw [same] at short
    have cut : (jump.perform linkage b).buffer.offset + 4 ≤ b.offset + 5 :=
      Buffer.offset_of_cut_jump (b := b) (i := .jmp 0) rfl short
    exact ⟨same, precedes, by omega⟩

/-- A buffer that ends before the jump back, or has room for it. -/
theorem cutShort_end {spans : List LoopSpan}
    (ok : (number span.scope span.cond).outcome = .ok ()) (w : b.Roomier b')
    (cursor : b.offset = span.entry + Step.totalSize span.bodySteps)
    (room : b.offset ≤ b.capacity) (small : b'.capacity ≤ maxReach)
    (exit : b.region.bytes (span.exitField - 2) 6 = (Instr.je 0).encode)
    (ended : ∀ inner ∈ spans, inner.stop ≤ b.offset) :
    let tail := loopEnd (Step.totalSize span.testSteps) (Step.totalSize span.bodySteps)
    (Step.performAll linkage tail b).buffer.CutShort (span :: spans)
      (Step.performAll linkage tail b').buffer := by
  intro tail
  have size := totalSize_testSteps ok
  have stop : span.stop = b.offset + 5 := by rw [cursor]; rfl
  have exitField : span.exitField + 4 = span.entry := rfl
  have reach : Step.AllInReach b.offset tail := by
    simp only [entry, LoopSpan.exitField] at size cursor
    apply loopEnd_inReach <;> omega
  rcases Step.performAll_roomier linkage w room small reach with
    ⟨here, -, w', -, -⟩ | ⟨-, short⟩
  · have final := Step.offset_of_performAll_ok here
    rw [totalSize_loopEnd, ← stop] at final
    refine .of_stopped (List.forall_mem_cons.2 ⟨?_, fun inner member => ?_⟩) w'.precedes
    · exact Nat.le_of_eq final.symm
    · have := ended inner member
      omega
  · rw [totalSize_loopEnd] at short
    obtain ⟨here, precedes, cut⟩ := loopEnd_cut w short
    have kept := Step.perform_keeps linkage (.emit (.jmp 0)) b
    have later := Step.performAll_append_keeps linkage [.emit (.jmp 0)] (tail.drop 1) b'
    rw [Step.buffer_performAll_singleton] at later
    rw [here]
    refine (Buffer.CutShort.of_stopped (fun other member => ?_) precedes).enclose ⟨?_, ?_⟩ ?_
      later.precedes ?_
    · exact Nat.le_trans (ended other member) kept.offset
    · have := kept.offset
      omega
    · omega
    · have opcode := span.two_le_exitField
      have linear : Step.Linear [.emit (.jmp 0)] := by simp [Step.Linear]
      rw [kept.bytes (by omega) fun _ _ _ => linear.not_fills]
      exact exit
    · intro i before filled
      have filled : Step.Fills (span.entry + Step.totalSize span.bodySteps) tail i := by
        rw [← cursor, ← w.offset]
        exact Step.fills_cons.2 (.inr filled)
      rcases fills_loopEnd ok filled with own | back
      · exact own
      · rw [backField, stop] at back
        omega

theorem exit_of_test (ok : (number span.scope span.cond).outcome = .ok ())
    (code : b'.code = Step.written linkage b.code span.testSteps)
    (cursor : b'.offset = span.entry) :
    b'.region.bytes (span.exitField - 2) 6 = (Instr.je 0).encode := by
  have two := span.two_le_exitField
  have place : b'.offset = span.exitField - 2 + 6 := by
    rw [cursor, entry]
    omega
  rw [testSteps_of_ok ok, Step.written_append, Buffer.code, place, Region.bytes_add,
    Nat.zero_add] at code
  exact (List.append_inj' code (Region.length_bytes _ _ _)).2

theorem cutShort_body {tail : List Step}
    (ok : (number span.scope span.cond).outcome = .ok ()) (ends : span.EndsWith tail)
    (w : b.Roomier b') (cursor : b.offset = span.entry) (room : b.offset ≤ b.capacity)
    (small : b'.capacity ≤ maxReach)
    (exit : b.region.bytes (span.exitField - 2) 6 = (Instr.je 0).encode)
    (inner : (Step.performAll linkage span.bodySteps b).buffer.CutShort
      (span.body.loopSpans (span.scope.after span.cond) span.entry)
      (Step.performAll linkage span.bodySteps b').buffer) :
    (Step.performAll linkage (span.bodySteps ++ tail) b).buffer.CutShort
      (span :: span.body.loopSpans (span.scope.after span.cond) span.entry)
      (Step.performAll linkage (span.bodySteps ++ tail) b').buffer := by
  have reach : Step.AllInReach 0 span.bodySteps := (node_orderly _ _).reach
  have size : span.stop = span.entry + Step.totalSize span.bodySteps + 5 := rfl
  have kept := Step.performAll_keeps linkage span.bodySteps b
  have exitKept : (Step.performAll linkage span.bodySteps b).buffer.region.bytes
      (span.exitField - 2) 6 = (Instr.je 0).encode := by
    have two := span.two_le_exitField
    rw [entry] at cursor
    rw [kept.bytes (by omega), exit]
    intro i _ high filled
    have low := (reach.fills (Nat.zero_le _) filled).1
    omega
  have isOpen : span.OpenAt (Step.performAll linkage span.bodySteps b).buffer.offset := by
    have low := kept.offset
    have high : (Step.performAll linkage span.bodySteps b).buffer.offset ≤ _ :=
      Step.offset_performAll_le span.bodySteps b
    constructor <;> omega
  rcases ends with rfl | ⟨⟨kind, repeated⟩, rfl⟩
  · rw [List.append_nil]
    have same (d : Buffer) : d.Precedes (fun _ => False) d := (Buffer.Keeps.refl d).precedes
    exact inner.enclose isOpen exitKept (same _) fun _ _ => False.elim
  · rcases Step.performAll_roomier linkage w room small (reach.mono (Nat.zero_le _)) with
      ⟨here, there, w', -, fits⟩ | ⟨⟨e, stopped⟩, short⟩
    · have moved := Step.offset_of_performAll_ok here
      have same := Step.capacity_performAll linkage span.bodySteps b
      have same' := Step.capacity_performAll linkage span.bodySteps b'
      rw [Step.performAll_append_of_ok here, Step.performAll_append_of_ok there]
      rw [cursor] at moved fits
      refine cutShort_end ok w' moved (by omega) (by omega) exitKept ?_
      intro other member
      have tree := node_ok_iff.1 repeated
      have inside := (tree.loopSpans_inside linkage _ _ other member).2
      rw [moved]
      exact Nat.le_trans inside (Nat.le_of_eq (congrArg _ (size_body linkage tree).symm))
    · rw [Step.performAll_append_of_error stopped]
      have later := Step.performAll_append_keeps linkage span.bodySteps
        (loopEnd (Step.totalSize span.testSteps) (Step.totalSize span.bodySteps)) b'
      rw [w.offset, cursor] at later
      rw [cursor] at short
      refine inner.enclose isOpen exitKept later.precedes ?_
      intro i before filled
      rcases fills_loopEnd ok filled with own | back
      · exact own
      · rw [backField] at back
        omega

/-- A loop is cut short where its body is. -/
theorem cutShort (ok : (number span.scope span.cond).outcome = .ok ()) (w : b.Roomier b')
    (start : b.offset = span.start) (room : b.offset ≤ b.capacity) (small : b'.capacity ≤ maxReach)
    (inner : ∀ {c c' : Buffer}, c.Roomier c' → c.offset = span.entry → c.offset ≤ c.capacity →
      c'.capacity ≤ maxReach →
      (Step.performAll linkage span.bodySteps c).buffer.CutShort
        (span.body.loopSpans (span.scope.after span.cond) span.entry)
        (Step.performAll linkage span.bodySteps c').buffer) :
    let steps := (node span.scope (.loop span.cond span.body)).steps
    (Step.performAll linkage steps b).buffer.CutShort
      (span :: span.body.loopSpans (span.scope.after span.cond) span.entry)
      (Step.performAll linkage steps b').buffer := by
  obtain ⟨tail, split, ends⟩ := span.steps_of_ok ok
  have size := totalSize_testSteps ok
  have testReach : Step.AllInReach b.offset span.testSteps :=
    (loopTest_orderly (number_orderly _ _)).reach.mono (Nat.zero_le _)
  have bodyReach : Step.AllInReach 0 span.bodySteps := (node_orderly _ _).reach
  simp only [split]
  rcases Step.performAll_roomier linkage w room small testReach with
    ⟨here, there, w', code, fits⟩ | ⟨⟨e, stopped⟩, short⟩
  · have cursor := Step.offset_of_performAll_ok here
    have same := Step.capacity_performAll linkage span.testSteps b
    have same' := Step.capacity_performAll linkage span.testSteps b'
    rw [start, size] at cursor
    rw [Step.performAll_append_of_ok here, Step.performAll_append_of_ok there]
    apply cutShort_body ok ends w' cursor (by omega) (by omega) (exit_of_test ok code cursor)
    exact inner w' cursor (by omega) (by omega)
  · rw [Step.performAll_append_of_error stopped]
    rw [start, size] at short
    refine cutShort_test ok w start short (fun _ => Node.start_le_of_mem_loopSpans) ?_
    intro i filled
    rcases Step.fills_append.1 filled with filled | filled
    · have low := (bodyReach.fills (Nat.zero_le _) filled).1
      rw [entry] at low
      omega
    · rcases ends with rfl | ⟨-, rfl⟩
      · exact absurd filled Step.not_fills_nil
      · rcases fills_loopEnd ok filled with own | back
        · exact own.1
        · simp only [backField, stop, entry] at back
          omega

end LoopSpan

namespace Codegen

variable {linkage : Linkage} {scope : Scope} {b b' : Buffer}

theorem node_cutShort_of_notLoop {n : Node} (notLoop : ∀ cond body, n ≠ .loop cond body)
    (w : b.Roomier b') :
    (Step.performAll linkage (node scope n).steps b).buffer.CutShort (n.loopSpans scope b.offset)
      (Step.performAll linkage (node scope n).steps b').buffer := by
  rw [Node.loopSpans_eq_nil notLoop]
  exact .of_ended (List.forall_mem_nil _)
    (Step.performAll_precedes (Script.linear.node notLoop scope) w)

theorem node_cutShort_of_refusedTest {cond : Node} {e : Error}
    (refused : (number scope cond).outcome = .error e) (body : Node) (w : b.Roomier b') :
    (Step.performAll linkage (node scope (.loop cond body)).steps b).buffer.CutShort
      ((Node.loop cond body).loopSpans scope b.offset)
      (Step.performAll linkage (node scope (.loop cond body)).steps b').buffer := by
  have stopped := loop_of_refusedTest refused (node (scope.after cond) body)
  have steps : (node scope (.loop cond body)).steps = (number scope cond).steps := by
    rw [node]
    change (Script.bind _ _).steps = _
    rw [Script.bind_of_error (by rw [stopped]), stopped]
  rw [steps]
  refine .of_ended ?_ (Step.performAll_precedes (Script.linear.number scope cond) w)
  -- The condition ends before any loop is entered.
  have short : (Step.performAll linkage (number scope cond).steps b).buffer.offset ≤ _ :=
    Step.offset_performAll_le _ b
  have own : ∀ span ∈ (Node.loop cond body).loopSpans scope b.offset,
      b.offset + (number scope cond).size + 14 ≤ span.entry := by
    rw [Node.loopSpans, List.forall_mem_cons]
    refine ⟨Nat.le_refl _, fun inner member => ?_⟩
    have low := Node.start_le_of_mem_loopSpans member
    simp only [LoopSpan.entry, LoopSpan.exitField] at low ⊢
    omega
  intro span member isOpen
  have low := own span member
  have high := isOpen.1
  rw [Script.size] at low
  omega

/-- What the code of a tree leaves in a buffer is cut short of what it leaves in a larger one. -/
theorem node_cutShort (linkage : Linkage) (scope : Scope) (n : Node) (w : b.Roomier b')
    (room : b.offset ≤ b.capacity) (small : b'.capacity ≤ maxReach) :
    (Step.performAll linkage (node scope n).steps b).buffer.CutShort (n.loopSpans scope b.offset)
      (Step.performAll linkage (node scope n).steps b').buffer := by
  induction scope, n using node.induct generalizing b b' with
  | case1 scope name value => exact node_cutShort_of_notLoop (by rintro _ _ ⟨⟩) w
  | case2 scope cond body ih =>
    cases tested : (number scope cond).outcome with
    | error e => exact node_cutShort_of_refusedTest tested body w
    | ok _ =>
      let outer : LoopSpan := ⟨scope, cond, body, b.offset⟩
      refine outer.cutShort tested w rfl room small ?_
      intro c c' w' cursor room' small'
      rw [← cursor]
      exact ih w' room' small'
  | case3 scope n _ notLoop => exact node_cutShort_of_notLoop notLoop w

end Codegen

theorem Script.buffer_assemble {α : Type} (linkage : Linkage) (s : Script α) (b : Buffer) :
    (s.assemble linkage b).buffer = (Step.performAll linkage s.steps b).buffer := by
  rw [assemble]
  split <;> rfl

namespace Buffer

variable {b b' : Buffer} {ctx : Context} {root : Node}

theorem place_cutShort (w : b.Roomier b') (room : b.offset ≤ b.capacity)
    (small : b'.capacity ≤ maxReach) :
    (b.place ctx root).buffer.CutShort (root.loopSpans ctx.scope b.offset)
      (b'.place ctx root).buffer := by
  simp only [place, Script.buffer_assemble]
  exact Codegen.node_cutShort ctx.linkage ctx.scope root w room small

/-- A tree for which there is room changes nothing behind its code. -/
theorem byte_place_behind {i : Nat} (small : b.capacity ≤ maxReach) (room : b.offset ≤ b.capacity)
    (kept : ¬overflowed (b.place ctx root).result) (behind : (b.place ctx root).buffer.offset ≤ i) :
    (b.place ctx root).buffer.region.byte i = b.region.byte i := by
  have orderly := Codegen.node_orderly ctx.scope root
  have appended := (orderly.appends ctx.linkage small room kept).2.1
  have length : (Step.written ctx.linkage [] (Codegen.node ctx.scope root).steps).length =
      0 + Step.totalSize _ := Step.length_written orderly.reach
  have moved : (b.place ctx root).buffer.offset = _ := appended.offset
  simp only [place, Script.buffer_assemble] at behind moved ⊢
  apply (Step.performAll_keeps ctx.linkage _ b).byte i _ (.inr behind)
  intro filled
  have before := (orderly.reach.fills (Nat.zero_le _) filled).2
  omega

theorem place_eq_of_roomier (w : b.Roomier b') (room : b.offset ≤ b.capacity)
    (small : b'.capacity ≤ maxReach) (kept : ¬overflowed (b.place ctx root).result) :
    ¬overflowed (b'.place ctx root).result ∧
      (b'.place ctx root).result = (b.place ctx root).result ∧
      (b.place ctx root).buffer.Roomier (b'.place ctx root).buffer := by
  have same := w.offset
  have more := w.capacity
  obtain ⟨result, appended, fits⟩ := place_appends (by omega) room kept
  have kept' : ¬overflowed (b'.place ctx root).result := place_of_fits small (by omega)
  obtain ⟨result', appended', -⟩ := place_appends small (by omega) kept'
  refine ⟨kept', result'.trans result.symm, ?_, ?_⟩
  · rw [appended.code, appended'.code, w.code]
  · rw [appended.capacity, appended'.capacity]
    exact more

end Buffer

/-- A compilation that runs out of room leaves the beginning of what it leaves in any larger buffer
of at most 2 GiB with the same contents and the same cursor.  The cursor ends no later, and behind
it the bytes agree, up to the exits of loops that had been entered and had not ended: there the
smaller buffer holds a jump whose displacement is zero.  Where there is no overflow, both buffers
end up with the same cursor, the same result and the same bytes throughout. -/
theorem larger_buffer_continues (b b' : Buffer) (ctx : Context) (root : Node)
    (room : b.offset ≤ b.capacity) (larger : b.capacity ≤ b'.capacity)
    (small : b'.capacity ≤ maxReach) (cursor : b'.offset = b.offset)
    (contents : ∀ i < b.capacity, b'.region.byte i = b.region.byte i) :
    let made := b.place ctx root
    let made' := b'.place ctx root
    let spans := root.loopSpans ctx.scope b.offset
    made.buffer.offset ≤ made'.buffer.offset ∧
    (∀ i < made.buffer.offset,
      (∀ span ∈ spans, span.OpenAt made.buffer.offset →
        i < span.exitField ∨ span.exitField + 4 ≤ i) →
      made'.buffer.region.byte i = made.buffer.region.byte i) ∧
    (∀ span ∈ spans, span.OpenAt made.buffer.offset →
      made.buffer.region.bytes (span.exitField - 2) 6 = [0x0F, 0x84, 0, 0, 0, 0]) ∧
    (¬overflowed made.result →
      made'.result = made.result ∧ made'.buffer.offset = made.buffer.offset ∧
      ∀ i < b.capacity, made'.buffer.region.byte i = made.buffer.region.byte i) := by
  intro made made' spans
  have w : b.Roomier b' := by
    refine ⟨?_, larger⟩
    simp only [Buffer.code, Region.bytes, cursor]
    apply List.map_congr_left
    intro i member
    rw [List.mem_range'_1] at member
    exact contents i (by omega)
  have cut : made.buffer.CutShort spans made'.buffer := Buffer.place_cutShort w room small
  refine ⟨cut.precedes.offset, ?_, cut.unresolved, ?_⟩
  · intro i before outside
    apply cut.precedes.byte i before
    rintro ⟨span, member, isOpen, low, high⟩
    have := outside span member isOpen
    omega
  · intro kept
    obtain ⟨kept', result, same⟩ := Buffer.place_eq_of_roomier w room small kept
    refine ⟨result, same.offset, ?_⟩
    intro i inside
    rcases Nat.lt_or_ge i made.buffer.offset with before | behind
    · exact same.byte before
    · have behind' : made'.buffer.offset ≤ i := same.offset.symm ▸ behind
      rw [Buffer.byte_place_behind small (by omega) kept' behind',
        Buffer.byte_place_behind (by omega) room kept behind, contents i inside]

/-- The displacement of the inner loop's jump back is the first write that does not fit, so neither
of two nested loops has an exit yet. -/
theorem nested_loops_cut_short :
    let b : Buffer := ⟨⟨103, #[0x90]⟩, 1⟩
    let b' : Buffer := ⟨⟨200, #[0x90]⟩, 1⟩
    let root : Node := .loop (.var "x") (.loop (.number .zero) (.assign "x" (.string .empty)))
    let ctx : Context := { variableName := "x" }
    let made := b.place ctx root
    let made' := b'.place ctx root
    made.buffer.offset = 102 ∧ overflowed made.result ∧
    (∀ i < 102, i < 33 ∨ 37 ≤ i → i < 62 ∨ 66 ≤ i →
      made'.buffer.region.byte i = made.buffer.region.byte i) ∧
    made.buffer.region.bytes 31 6 = [0x0F, 0x84, 0, 0, 0, 0] ∧
    made.buffer.region.bytes 60 6 = [0x0F, 0x84, 0, 0, 0, 0] ∧
    made'.buffer.region.byte 33 ≠ 0 := by
  intro b b' root ctx
  have stopped : (b.place ctx root).buffer.offset = 102 := by decide +kernel
  have listed : (root.loopSpans ctx.scope b.offset).map LoopSpan.exitField = [33, 62] := by
    decide +kernel
  have isOpen : ∀ span ∈ root.loopSpans ctx.scope b.offset,
      span.OpenAt (b.place ctx root).buffer.offset := by
    have inside : ∀ span ∈ root.loopSpans ctx.scope b.offset,
        span.entry ≤ 102 ∧ 102 < span.stop := by decide +kernel
    rw [stopped]
    exact inside
  obtain ⟨-, agree, unresolved, -⟩ := larger_buffer_continues b b' ctx root
    (by decide) (by decide) (by decide) rfl (fun _ _ => rfl)
  have exits : ∀ field ∈ [33, 62],
      (b.place ctx root).buffer.region.bytes (field - 2) 6 = [0x0F, 0x84, 0, 0, 0, 0] := by
    rw [← listed, List.forall_mem_map]
    exact fun span member => unresolved span member (isOpen span member)
  refine ⟨stopped, by decide +kernel, ?_, exits 33 (by simp), exits 62 (by simp), by decide +kernel⟩
  intro i before outer inner
  apply agree i (by rwa [stopped])
  intro span member _
  have place : span.exitField ∈ [33, 62] := listed ▸ List.mem_map_of_mem member
  simp only [List.mem_cons, List.not_mem_nil, or_false] at place
  omega

end TreeJit
