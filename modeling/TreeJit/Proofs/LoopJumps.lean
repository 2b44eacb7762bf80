import TreeJit.Proofs.Disassembly
import TreeJit.Proofs.Offenders

/-! # Where the jumps of loops go

A loop has two jumps, and both are written before their displacement is known.
Loops inside of loops are finished first, while the exit of the outer one has no
target yet.

* `LoopSpan` — a loop of a tree and the place of its code.  `Node.loopSpans`
  lists them from the outermost one on.
* `X86.jumps` — the jumps in code, with the places of their displacements.
* `Step.patches` — the jumps that steps resolve, with the places that they point
  them to.
* `loops_jump_to_own_ends` — each loop is left behind its own end and goes back to
  its own start, and nothing but its two displacements is ever patched for it.
-/

namespace TreeJit

open X86

/-! ## Jumps in code -/

namespace X86

def Instr.isJump : Instr → Bool
  | .je _ | .jmp _ => true
  | _ => false

theorem Instr.isJump_untargeted (i : Instr) : i.untargeted.isJump = i.isJump := by
  cases i <;> rfl

/-- The jumps among instructions that start at the given place, each with the place of its
displacement. -/
def jumps (start : Nat) : List Instr → List (Nat × Instr)
  | [] => []
  | i :: is =>
    if i.isJump then (start + i.size - 4, i) :: jumps (start + i.size) is
    else jumps (start + i.size) is

theorem jumps_append (start : Nat) (first second : List Instr) :
    jumps start (first ++ second) = jumps start first ++ jumps (start + codeSize first) second := by
  induction first generalizing start with
  | nil => rfl
  | cons i is ih =>
    have place : start + codeSize (i :: is) = start + i.size + codeSize is := by
      rw [codeSize_cons, Nat.add_assoc]
    rw [List.cons_append, jumps, jumps, ih, place]
    split <;> rfl

/-- Instructions none of which is a jump. -/
def Straight (is : List Instr) : Prop := ∀ i ∈ is, i.isJump = false

@[simp] theorem straight_nil : Straight [] := List.forall_mem_nil _

@[simp] theorem straight_cons {i : Instr} {is : List Instr} :
    Straight (i :: is) ↔ i.isJump = false ∧ Straight is := List.forall_mem_cons

@[simp] theorem straight_append {first second : List Instr} :
    Straight (first ++ second) ↔ Straight first ∧ Straight second := List.forall_mem_append

theorem Straight.jumps {is : List Instr} (straight : Straight is) (start : Nat) :
    jumps start is = [] := by
  induction is generalizing start with
  | nil => rfl
  | cons i is ih =>
    rw [straight_cons] at straight
    rw [X86.jumps, straight.1]
    exact ih straight.2 _

theorem mem_jumps {is : List Instr} {i : Instr} (jump : i.isJump) (member : i ∈ is) (start : Nat) :
    ∃ field, (field, i) ∈ jumps start is := by
  induction is generalizing start with
  | nil => cases member
  | cons j is ih =>
    rw [jumps]
    cases member with
    | head =>
      rw [if_pos jump]
      exact ⟨_, .head _⟩
    | tail _ member =>
      obtain ⟨field, member⟩ := ih member (start + j.size)
      split
      · exact ⟨field, .tail _ member⟩
      · exact ⟨field, member⟩

end X86

namespace Layout

variable {l : Linkage}

@[simp] theorem straight_callHelper (h : Helper) : Straight (callHelper l h) := by
  simp [callHelper, callAbsolute, Instr.isJump]

@[simp] theorem straight_callOnCell (h : Helper) : Straight (callOnCell l h) := by
  simp [callOnCell, Instr.isJump]

@[simp] theorem straight_applyOp (op : BinaryOp) : Straight (applyOp l op) := by
  cases op <;> simp [applyOp, Codegen.scalarOp?, Instr.isJump]

@[simp] theorem straight_number (n : Node) : Straight (number l n) := by
  induction n using number.induct with
  | case1 value => simp [number, Instr.isJump]
  | case2 name => simp [number]
  | case3 op lhs rhs left right => simp [number, binary, left, right, Instr.isJump]
  | case4 operand ih => simp [number, negate, ih, Instr.isJump]
  | case5 n => simp_all [number]

@[simp] theorem straight_string (first : Nat) (n : Node) : Straight (string l first n) := by
  induction first, n using string.induct with
  | case1 first text => simp [string, Instr.isJump]
  | case2 first name => simp [string]
  | case3 first lhs rhs left right => simp [string, concat, left, right, Instr.isJump]
  | case4 first n => simp_all [string]

/-- Only loops have jumps. -/
theorem straight_node (first : Nat) {n : Node} (notLoop : ∀ cond body, n ≠ .loop cond body) :
    Straight (node l first n) := by
  unfold node
  split
  · unfold assign
    split <;> simp [Instr.isJump]
  · exact absurd rfl (notLoop _ _)
  all_goals simp

end Layout

/-! ## Jumps that are resolved -/

/-- The displacements that steps fill in if the first step finds the cursor at the given place, each
with the place that it points to. -/
def Step.patches : Nat → List Step → List (Nat × Nat)
  | _, [] => []
  | cursor, .resolve field target :: rest =>
    (cursor - field, cursor - target) :: patches cursor rest
  | cursor, s :: rest => patches (cursor + s.size) rest

namespace Step

theorem patches_append (cursor : Nat) (first second : List Step) :
    patches cursor (first ++ second) =
      patches cursor first ++ patches (cursor + totalSize first) second := by
  induction first generalizing cursor with
  | nil => rfl
  | cons s rest ih =>
    cases s with
    | resolve field target => simp [patches, ih, totalSize, size]
    | emit i => simp [patches, ih, totalSize, Nat.add_assoc]
    | address dst symbol => simp [patches, ih, totalSize, Nat.add_assoc]
    | note event => simp [patches, ih, totalSize, size]

theorem patches_eq_nil {steps : List Step}
    (unresolved : ∀ field target, .resolve field target ∉ steps) (cursor : Nat) :
    patches cursor steps = [] := by
  induction steps generalizing cursor with
  | nil => rfl
  | cons s rest ih =>
    have others : ∀ field target, .resolve field target ∉ rest := fun field target member =>
      unresolved field target (.tail _ member)
    cases s with
    | resolve field target => exact absurd (.head _) (unresolved field target)
    | emit _ | address _ _ | note _ => exact ih others _

end Step

namespace Script

variable {α β : Type}

theorem mem_steps_bind {s : Script α} {step : Step} (member : step ∈ s.steps)
    (next : α → Script β) : step ∈ (s >>= next).steps := by
  change step ∈ (Script.bind s next).steps
  cases outcome : s.outcome with
  | error e => rwa [bind_of_error outcome]
  | ok a =>
    rw [bind_of_ok outcome]
    exact List.mem_append_left _ member

/-- A script that resolves nothing if it writes no jump. -/
def JumpsFirst (s : Script α) : Prop :=
  (∀ i, .emit i ∈ s.steps → i.isJump = false) →
    ∀ field target, .resolve field target ∉ s.steps

namespace JumpsFirst

theorem bind {s : Script α} {next : α → Script β} (first : s.JumpsFirst)
    (second : ∀ a, (next a).JumpsFirst) : (s >>= next).JumpsFirst := by
  change (Script.bind s next).JumpsFirst
  cases outcome : s.outcome with
  | error e =>
    rw [bind_of_error outcome]
    exact first
  | ok a =>
    rw [bind_of_ok outcome]
    intro straight field target member
    simp only [List.mem_append] at straight member
    rcases member with member | member
    · exact first (fun i emitted => straight i (.inl emitted)) field target member
    · exact second a (fun i emitted => straight i (.inr emitted)) field target member

/-- A loop writes a jump before anything else that the condition does not write, or it stops at the
condition. -/
theorem loop {cond : Script Unit} {body : Script ValueKind} (test : cond.JumpsFirst) :
    (Codegen.loop cond body).JumpsFirst := by
  cases outcome : cond.outcome with
  | error e =>
    rw [Codegen.loop_of_refusedTest outcome]
    exact test
  | ok _ =>
    have written : .emit (.je 0) ∈ (Codegen.loop cond body).steps := by
      apply mem_steps_bind
      rw [Codegen.loopTest_of_ok outcome]
      simp
    intro straight
    exact absurd (straight _ written) (by simp [Instr.isJump])

theorem hereditary : Script.Hereditary fun _ s => s.JumpsFirst where
  pure _ _ _ _ := List.not_mem_nil
  emit i _ _ _ := by simp [Script.emit, Script.step]
  address _ _ _ _ _ := by simp [Script.address, Script.step]
  reject n _ field target := by
    change .resolve field target ∉ [Step.note (.rejected n.kind)]
    simp
  mismatch _ _ _ _ _ := List.not_mem_nil
  unbound _ _ _ _ := List.not_mem_nil
  loop test _ := loop test
  bind := bind

end JumpsFirst

theorem Yields.patches_eq_nil {l : Linkage} {s : Script α} {a : α} {is : List Instr}
    (yields : s.Yields l a is) (spelled : s.Spelled l) (jumpsFirst : s.JumpsFirst)
    (straight : Straight is) (cursor : Nat) : Step.patches cursor s.steps = [] := by
  apply Step.patches_eq_nil
  apply jumpsFirst
  intro i emitted
  have listed : i.untargeted ∈ (s.steps.filterMap (Step.instr? l)).map Instr.untargeted :=
    List.mem_map_of_mem (List.mem_filterMap.2 ⟨_, emitted, rfl⟩)
  rw [← (yields.spells spelled).instrs] at listed
  obtain ⟨j, member, same⟩ := List.mem_map.1 listed
  rw [← i.isJump_untargeted, ← same, j.isJump_untargeted]
  exact straight j member

end Script

/-! ## The loops of a tree -/

/-- A loop in a tree, with the place where its code starts and the scope there. -/
structure LoopSpan where
  scope : Codegen.Scope
  cond : Node
  body : Node
  start : Nat

namespace LoopSpan

variable (span : LoopSpan)

/-- The displacement of the exit comes behind the condition, the eight bytes that compare it with
zero, and the two bytes of the opcode. -/
def exitField : Nat := span.start + (Codegen.number span.scope span.cond).size + 10

/-- Where the body starts. -/
def entry : Nat := span.exitField + 4

/-- Where the code of the loop ends: behind the body and the jump back. -/
def stop : Nat := span.entry + (Codegen.node (span.scope.after span.cond) span.body).size + 5

/-- The displacement of the jump back is the end of the loop. -/
def backField : Nat := span.stop - 4

/-- The jump out of the loop, with the place of its displacement. -/
def exit : Nat × Instr := (span.exitField, .je (Int32.ofInt (span.stop - span.entry)))

/-- The jump back, with the place of its displacement. -/
def back : Nat × Instr := (span.backField, .jmp (Int32.ofInt (span.start - span.stop)))

/-- What is patched for the loop: the exit goes to the end, the jump back to the start. -/
def patches : List (Nat × Nat) := [(span.exitField, span.stop), (span.backField, span.start)]

end LoopSpan

/-- The loops of a tree from the outermost one on, if the tree's code starts at the given place. -/
def Node.loopSpans (scope : Codegen.Scope) (start : Nat) : Node → List LoopSpan
  | .loop cond body =>
    let span : LoopSpan := ⟨scope, cond, body, start⟩
    span :: body.loopSpans (scope.after cond) span.entry
  | _ => []

theorem Node.loopSpans_eq_nil {n : Node} (notLoop : ∀ cond body, n ≠ .loop cond body)
    (scope : Codegen.Scope) (start : Nat) : n.loopSpans scope start = [] := by
  cases n with
  | loop cond body => exact absurd rfl (notLoop cond body)
  | _ => rfl

/-- What can be compiled is straight code inside of any number of loops. -/
theorem Compilable.loop_induction {bound : String}
    {motive : (kind : ValueKind) → (n : Node) → Compilable bound kind n → Prop}
    (core : ∀ {kind : ValueKind} {n : Node} (tree : Compilable bound kind n),
      (∀ cond body, n ≠ .loop cond body) → motive kind n tree)
    (loop : ∀ {kind : ValueKind} {cond body : Node} (test : Numeric bound cond)
      (repeated : Compilable bound kind body), motive kind body repeated →
      motive .statement (.loop cond body) (.loop test repeated))
    {kind : ValueKind} {n : Node} (tree : Compilable bound kind n) : motive kind n tree := by
  induction tree with
  | number h => exact core (.number h) (by cases h <;> nofun)
  | text h notVar => exact core (.text h notVar) (by cases h <;> nofun)
  | assignNumber h => exact core (.assignNumber h) nofun
  | assignText h notVar => exact core (.assignText h notVar) nofun
  | loop test repeated ih => exact loop test repeated ih

namespace LoopSpan

/-- The instructions of the body. -/
def bodyCode (span : LoopSpan) (l : Linkage) : List Instr :=
  Layout.node l (span.scope.after span.cond).firstLiteral span.body

variable {span : LoopSpan} {kind : ValueKind}

theorem size_body (l : Linkage) (repeated : Compilable span.scope.bound kind span.body) :
    (Codegen.node (span.scope.after span.cond) span.body).size = codeSize (span.bodyCode l) :=
  (Codegen.node_yields (span.scope.after span.cond).firstLiteral repeated).size

theorem entry_eq (l : Linkage) (test : Numeric span.scope.bound span.cond) (skipped : Int) :
    span.entry = span.start + codeSize (Layout.loopTest (Layout.number l span.cond) skipped) := by
  have size := (Codegen.number_yields (l := l) span.scope test).size
  have compare : codeSize (Layout.loopTest (Layout.number l span.cond) 0) =
      codeSize (Layout.number l span.cond) + 14 := codeSize_append _ _
  rw [Layout.codeSize_loopTest, compare, entry, exitField, size]
  omega

theorem stop_eq_entry (l : Linkage) (repeated : Compilable span.scope.bound kind span.body) :
    span.stop = span.entry + Layout.loopTail (span.bodyCode l) := by
  rw [stop, size_body l repeated, Layout.loopTail]
  omega

theorem stop_eq (l : Linkage) (test : Numeric span.scope.bound span.cond)
    (repeated : Compilable span.scope.bound kind span.body) :
    span.stop = span.start + Layout.loopSize (Layout.number l span.cond) (span.bodyCode l) := by
  rw [stop_eq_entry l repeated, entry_eq l test 0, Layout.loopSize]
  omega

theorem jumps_loopTest (l : Linkage) (test : Numeric span.scope.bound span.cond)
    (repeated : Compilable span.scope.bound kind span.body) :
    jumps span.start (Layout.loopTest (Layout.number l span.cond)
      (Layout.loopTail (span.bodyCode l))) = [span.exit] := by
  have size := (Codegen.number_yields (l := l) span.scope test).size
  have stop := stop_eq_entry l repeated
  have skipped : (span.stop : Int) - span.entry = Layout.loopTail (span.bodyCode l) := by omega
  rw [exit, skipped, exitField, size, Layout.loopTest, jumps_append,
    (Layout.straight_number span.cond).jumps]
  rfl

theorem jumps_back (l : Linkage) (test : Numeric span.scope.bound span.cond)
    (repeated : Compilable span.scope.bound kind span.body) :
    jumps (span.entry + codeSize (span.bodyCode l))
      [.jmp (Int32.ofInt (-Layout.loopSize (Layout.number l span.cond) (span.bodyCode l)))] =
      [span.back] := by
  have stop := stop_eq l test repeated
  have distance : (span.start : Int) - span.stop =
      -Layout.loopSize (Layout.number l span.cond) (span.bodyCode l) := by omega
  rw [back, distance, ← size_body l repeated]
  rfl

/-- At its end a loop resolves its own jumps. -/
theorem patches_loopEnd {test : Nat} (tested : span.start + test = span.entry) :
    Step.patches (span.entry + (Codegen.node (span.scope.after span.cond) span.body).size)
        (Codegen.loopEnd test (Codegen.node (span.scope.after span.cond) span.body).size) =
      span.patches := by
  have size : (Instr.jmp 0).size = 5 := rfl
  simp only [entry] at tested
  simp only [Codegen.loopEnd, Step.patches, Step.size, size, patches, backField, stop, entry,
    List.cons.injEq, Prod.mk.injEq, and_true, true_and]
  omega

end LoopSpan

namespace Compilable

variable {bound : String} {kind : ValueKind} {root : Node}

/-- All loops of a tree lie where its code lies. -/
theorem loopSpans_inside (l : Linkage) (first start : Nat) (tree : Compilable bound kind root) :
    ∀ span ∈ root.loopSpans ⟨bound, first⟩ start,
      start ≤ span.start ∧ span.stop ≤ start + codeSize (Layout.node l first root) := by
  induction tree using loop_induction generalizing first start with
  | core tree notLoop => simp [Node.loopSpans_eq_nil notLoop]
  | @loop kind cond body test repeated ih =>
    let outer : LoopSpan := ⟨⟨bound, first⟩, cond, body, start⟩
    have entry : outer.entry = start + _ := LoopSpan.entry_eq l test 0
    have stop : outer.stop = start + codeSize (Layout.node l first (.loop cond body)) := by
      rw [Layout.node, Layout.codeSize_loop]
      exact LoopSpan.stop_eq l test repeated
    have inside : outer.stop = outer.entry + codeSize (outer.bodyCode l) + 5 :=
      LoopSpan.stop_eq_entry l repeated
    rw [Node.loopSpans, List.forall_mem_cons]
    constructor
    · exact ⟨Nat.le_refl start, Nat.le_of_eq stop⟩
    · intro span member
      obtain ⟨low, high⟩ : outer.entry ≤ span.start ∧
          span.stop ≤ outer.entry + codeSize (outer.bodyCode l) := ih _ _ span member
      omega

/-- A loop in another one lies inside its body. -/
theorem loopSpans_nested (l : Linkage) (first start : Nat) (tree : Compilable bound kind root) :
    (root.loopSpans ⟨bound, first⟩ start).Pairwise fun outer inner =>
      outer.entry ≤ inner.start ∧ inner.stop + 5 ≤ outer.stop := by
  induction tree using loop_induction generalizing first start with
  | core tree notLoop => simp [Node.loopSpans_eq_nil notLoop]
  | @loop kind cond body test repeated ih =>
    let outer : LoopSpan := ⟨⟨bound, first⟩, cond, body, start⟩
    have inside : outer.stop = outer.entry + codeSize (outer.bodyCode l) + 5 :=
      LoopSpan.stop_eq_entry l repeated
    rw [Node.loopSpans, List.pairwise_cons]
    refine ⟨?_, ih _ _⟩
    intro inner member
    obtain ⟨low, high⟩ : outer.entry ≤ inner.start ∧
        inner.stop ≤ outer.entry + codeSize (outer.bodyCode l) :=
      repeated.loopSpans_inside l _ _ inner member
    rw [inside]
    exact ⟨low, Nat.add_le_add_right high 5⟩

/-- The jumps of a tree's code are the exits of its loops, outer ones first, and the jumps back,
inner ones first. -/
theorem jumps_node (l : Linkage) (first start : Nat) (tree : Compilable bound kind root) :
    jumps start (Layout.node l first root) =
      (root.loopSpans ⟨bound, first⟩ start).map LoopSpan.exit ++
        (root.loopSpans ⟨bound, first⟩ start).reverse.map LoopSpan.back := by
  induction tree using loop_induction generalizing first start with
  | core tree notLoop =>
    rw [(Layout.straight_node first notLoop).jumps, Node.loopSpans_eq_nil notLoop]
    rfl
  | @loop kind cond body test repeated ih =>
    let outer : LoopSpan := ⟨⟨bound, first⟩, cond, body, start⟩
    let inner := body.loopSpans (outer.scope.after cond) outer.entry
    have code : jumps outer.entry (outer.bodyCode l) =
        inner.map LoopSpan.exit ++ inner.reverse.map LoopSpan.back := ih _ _
    have entry : outer.entry = start + _ :=
      LoopSpan.entry_eq l test (Layout.loopTail (outer.bodyCode l))
    have exits : jumps outer.start (Layout.loopTest (Layout.number l cond)
        (Layout.loopTail (outer.bodyCode l))) = [outer.exit] :=
      LoopSpan.jumps_loopTest l test repeated
    have backs : jumps (outer.entry + codeSize (outer.bodyCode l)) [.jmp (Int32.ofInt
        (-Layout.loopSize (Layout.number l cond) (outer.bodyCode l)))] = [outer.back] :=
      LoopSpan.jumps_back l test repeated
    have spans : (Node.loop cond body).loopSpans ⟨bound, first⟩ start = outer :: inner := rfl
    calc jumps start (Layout.node l first (.loop cond body))
        = jumps outer.start (Layout.loopTest (Layout.number l cond)
            (Layout.loopTail (outer.bodyCode l))) ++
          (jumps outer.entry (outer.bodyCode l) ++
            jumps (outer.entry + codeSize (outer.bodyCode l)) [.jmp (Int32.ofInt
              (-Layout.loopSize (Layout.number l cond) (outer.bodyCode l)))]) := by
          rw [← jumps_append, entry, ← jumps_append]
          rfl
      _ = [outer.exit] ++ ((inner.map LoopSpan.exit ++ inner.reverse.map LoopSpan.back) ++
            [outer.back]) := by
          rw [exits, code, backs]
      _ = _ := by simp [spans]

/-- The jumps of a tree are resolved loop by loop, inner ones first. -/
theorem patches_node (l : Linkage) (first start : Nat) (tree : Compilable bound kind root) :
    Step.patches start (Codegen.node ⟨bound, first⟩ root).steps =
      (root.loopSpans ⟨bound, first⟩ start).reverse.flatMap LoopSpan.patches := by
  induction tree using loop_induction generalizing first start with
  | core tree notLoop =>
    rw [Node.loopSpans_eq_nil notLoop]
    apply (Codegen.node_yields (l := l) first tree).patches_eq_nil
    · exact (Script.Spelled.hereditary l).node _ _
    · exact Script.JumpsFirst.hereditary.node _ _
    · exact Layout.straight_node first notLoop
  | @loop kind cond body test repeated ih =>
    let outer : LoopSpan := ⟨⟨bound, first⟩, cond, body, start⟩
    have tested := Codegen.number_yields (l := l) outer.scope test
    have looped := Codegen.node_yields (l := l) (outer.scope.after cond).firstLiteral repeated
    have inner : Step.patches outer.entry (Codegen.node (outer.scope.after cond) body).steps =
        (body.loopSpans (outer.scope.after cond) outer.entry).reverse.flatMap LoopSpan.patches :=
      ih _ _
    -- The test of a loop resolves nothing: its exit waits for the end.
    have quiet : Step.patches start (Codegen.loopTest (Codegen.number outer.scope cond)).steps =
        [] := by
      rw [Codegen.loopTest_of_ok tested.outcome, Step.patches_append, tested.patches_eq_nil
        ((Script.Spelled.hereditary l).number _ _) (Script.JumpsFirst.hereditary.number _ _)
        (Layout.straight_number cond)]
      rfl
    have entry : outer.entry =
        start + (Codegen.loopTest (Codegen.number outer.scope cond)).size := by
      rw [(Codegen.loopTest_yields tested).size]
      exact LoopSpan.entry_eq l test 0
    have ends : Step.patches (outer.entry + (Codegen.node (outer.scope.after cond) body).size)
        (Codegen.loopEnd _ (Codegen.node (outer.scope.after cond) body).size) = outer.patches :=
      LoopSpan.patches_loopEnd entry.symm
    have spans : (Node.loop cond body).loopSpans ⟨bound, first⟩ start =
        outer :: body.loopSpans (outer.scope.after cond) outer.entry := rfl
    rw [Codegen.steps_loop tested.outcome looped.outcome, Step.patches_append, Step.patches_append,
      quiet, ← Script.size, ← Script.size, ← entry, inner, ends, spans]
    simp

end Compilable

/-! ### No loop is missed -/

def Node.loop? : Node → Option (Node × Node)
  | .loop cond body => some (cond, body)
  | _ => none

theorem Numeric.loops_sites {bound : String} {n : Node} (h : Numeric bound n)
    (position : Position) : (n.sites position).filterMap (·.node.loop?) = [] := by
  induction h generalizing position with
  | number value => rfl
  | var => rfl
  | binary op _ _ left right =>
    rw [Node.sites, List.filterMap_cons_none rfl, List.filterMap_append, left, right]
    rfl
  | neg _ ih => rw [Node.sites, List.filterMap_cons_none rfl, ih]

theorem Textual.loops_sites {bound : String} {n : Node} (h : Textual bound n)
    (position : Position) : (n.sites position).filterMap (·.node.loop?) = [] := by
  induction h generalizing position with
  | string text => rfl
  | var => rfl
  | concat _ _ left right =>
    rw [Node.sites, List.filterMap_cons_none rfl, List.filterMap_append, left, right]
    rfl

theorem Compilable.loops_sites {bound : String} {kind : ValueKind} {root : Node}
    (first start : Nat) (tree : Compilable bound kind root) :
    (root.sites .free).filterMap (·.node.loop?) =
      (root.loopSpans ⟨bound, first⟩ start).map fun span => (span.cond, span.body) := by
  induction tree using loop_induction generalizing first start with
  | core tree notLoop =>
    rw [Node.loopSpans_eq_nil notLoop]
    cases tree with
    | number h => exact h.loops_sites .free
    | text h _ => exact h.loops_sites .free
    | assignNumber h => exact h.loops_sites .assigned
    | assignText h _ => exact h.loops_sites .assigned
    | loop => exact absurd rfl (notLoop _ _)
  | @loop kind cond body test repeated ih =>
    let outer : LoopSpan := ⟨⟨bound, first⟩, cond, body, start⟩
    have inner := ih (outer.scope.after cond).firstLiteral outer.entry
    rw [Node.sites, List.filterMap_cons, List.filterMap_append, test.loops_sites, inner]
    rfl

/-! ## The code of a loop -/

/-- `span.Resolved l code`: in the range of the loop there are its condition, the comparison with
zero, the exit, the body and the jump back.  The exit goes to the end of the range, and the jump
back to its start. -/
structure LoopSpan.Resolved (span : LoopSpan) (l : Linkage) (code : List UInt8) : Prop where
  range : (code.drop span.start).take (span.stop - span.start) =
    Step.written l [] (Codegen.node span.scope (.loop span.cond span.body)).steps
  jumps : ∃ exit back : Int32,
    (code.drop span.start).take (span.stop - span.start) =
      Step.written l [] (Codegen.number span.scope span.cond).steps
        ++ [0x66, 0x0F, 0x57, 0xC9, 0x66, 0x0F, 0x2E, 0xC1]
        ++ [0x0F, 0x84] ++ Instr.displacementBytes exit
        ++ Step.written l [] (Codegen.node (span.scope.after span.cond) span.body).steps
        ++ [0xE9] ++ Instr.displacementBytes back ∧
    (span.exitField : Int) + 4 + exit.toInt = span.stop ∧
    (span.stop : Int) + back.toInt = span.start

namespace Layout

theorem encodeAll_loop (cond body : List Instr) :
    encodeAll (loop cond body) = encodeAll cond
      ++ [0x66, 0x0F, 0x57, 0xC9, 0x66, 0x0F, 0x2E, 0xC1]
      ++ [0x0F, 0x84] ++ Instr.displacementBytes (Int32.ofInt (loopTail body))
      ++ encodeAll body
      ++ [0xE9] ++ Instr.displacementBytes (Int32.ofInt (-loopSize cond body)) := by
  have compare : encodeAll [Instr.xorpd .xmm1 .xmm1, .ucomisd .xmm0 .xmm1] =
      [0x66, 0x0F, 0x57, 0xC9, 0x66, 0x0F, 0x2E, 0xC1] := rfl
  rw [← compare]
  simp [loop, loopTest, Instr.encode, Instr.chunks]

end Layout

theorem LoopSpan.resolved {span : LoopSpan} {kind : ValueKind} {l : Linkage}
    (test : Numeric span.scope.bound span.cond)
    (repeated : Compilable span.scope.bound kind span.body)
    (short : Layout.loopSize (Layout.number l span.cond) (span.bodyCode l) ≤ maxReach)
    {before : List UInt8} (start : span.start = before.length) (after : List UInt8) :
    span.Resolved l (before ++ (encodeAll
      (Layout.loop (Layout.number l span.cond) (span.bodyCode l)) ++ after)) := by
  have stop := stop_eq l test repeated
  have size := Layout.codeSize_loop (Layout.number l span.cond) (span.bodyCode l)
  have range : ((before ++ (encodeAll (Layout.loop (Layout.number l span.cond) (span.bodyCode l))
      ++ after)).drop span.start).take (span.stop - span.start) =
      encodeAll (Layout.loop (Layout.number l span.cond) (span.bodyCode l)) := by
    rw [stop, Nat.add_sub_cancel_left, ← size, start, List.drop_left]
    exact List.take_left
  constructor
  · rw [range]
    exact (Codegen.node_yields span.scope.firstLiteral (.loop test repeated)).written.symm
  · refine ⟨Int32.ofInt (Layout.loopTail (span.bodyCode l)),
      Int32.ofInt (-Layout.loopSize (Layout.number l span.cond) (span.bodyCode l)), ?_, ?_, ?_⟩
    · have tested := (Codegen.number_yields (l := l) span.scope test).written
      have looped : Step.written l [] (Codegen.node (span.scope.after span.cond) span.body).steps =
        encodeAll (span.bodyCode l) := (Codegen.node_yields _ repeated).written
      rw [range, tested, looped, Layout.encodeAll_loop]
    · have behind := stop_eq_entry l repeated
      rw [entry] at behind
      rw [Layout.toInt_exit short]
      omega
    · rw [Layout.toInt_back short]
      omega

theorem LoopSpan.Resolved.exit_ne_zero {span : LoopSpan} {l : Linkage} {code : List UInt8}
    (resolved : span.Resolved l code) {d : Int32} (exit : span.exit.2 = .je d) : d ≠ 0 := by
  obtain ⟨written, -, -, target, -⟩ := resolved.jumps
  have skipped : (span.stop : Int) - span.entry = written.toInt := by
    simp only [entry]
    omega
  simp only [LoopSpan.exit, skipped, Int32.ofInt_toInt, Instr.je.injEq] at exit
  rintro rfl
  rw [exit] at target
  simp only [stop, entry, Int32.toInt_zero] at target
  omega

/-- Every loop of a tree is resolved, wherever the tree's code stands. -/
theorem Compilable.loopSpans_resolved {bound : String} {kind : ValueKind} {root : Node}
    {l : Linkage} {first : Nat} (tree : Compilable bound kind root)
    (compact : Layout.Compact l first root) (before after : List UInt8) :
    ∀ span ∈ root.loopSpans ⟨bound, first⟩ before.length,
      span.Resolved l (before ++ (encodeAll (Layout.node l first root) ++ after)) := by
  induction tree using loop_induction generalizing first before after with
  | core tree notLoop => simp [Node.loopSpans_eq_nil notLoop]
  | @loop kind cond body test repeated ih =>
    let outer : LoopSpan := ⟨⟨bound, first⟩, cond, body, before.length⟩
    rw [Node.loopSpans, List.forall_mem_cons]
    constructor
    · have own : outer.Resolved l _ := LoopSpan.resolved test repeated compact.1 rfl after
      exact own
    -- For the body, the test of the loop is code before it, and the jump back is code behind it.
    · let tested := Layout.loopTest (Layout.number l cond) (Layout.loopTail (outer.bodyCode l))
      let jump := Instr.jmp
        (Int32.ofInt (-Layout.loopSize (Layout.number l cond) (outer.bodyCode l)))
      have entry : outer.entry = (before ++ encodeAll tested).length := by
        rw [List.length_append]
        exact LoopSpan.entry_eq l test _
      have code : before ++ (encodeAll (Layout.node l first (.loop cond body)) ++ after) =
          (before ++ encodeAll tested) ++
            (encodeAll (outer.bodyCode l) ++ (encodeAll [jump] ++ after)) := by
        rw [Layout.node, Layout.loop]
        simp only [encodeAll_append, List.append_assoc]
        rfl
      have inner := ih compact.2 (before ++ encodeAll tested) (encodeAll [jump] ++ after)
      rw [← entry] at inner
      rw [code]
      exact inner

/-! ## Patches on the way -/

theorem Buffer.byte_of_patchJump {b b' : Buffer} {field target : Nat}
    (patched : b.patchJump field target = .ok b') {i : Nat} (outside : i < field ∨ field + 4 ≤ i) :
    b'.region.byte i = b.region.byte i := by
  simp only [patchJump, patch] at patched
  split at patched
  · cases checked : b.checkRange field 4 with
    | ok _ =>
      rw [checked] at patched
      cases patched
      have apart : ¬(field ≤ i ∧ i < field + 4) := by omega
      simp [Region.byte_write, apart]
    | error e =>
      rw [checked] at patched
      cases patched
  · cases patched

/-- `b.PatchesOwn spans field target`: to point the displacement at `field` to `target` is what one
of the loops needs, it can be done, and no byte but those of the displacement is changed. -/
def Buffer.PatchesOwn (b : Buffer) (spans : List LoopSpan) (field target : Nat) : Prop :=
  (∃ span ∈ spans, (field, target) ∈ span.patches) ∧
    ∃ patched, b.patchJump field target = .ok patched ∧
      ∀ i, i < field ∨ field + 4 ≤ i → patched.region.byte i = b.region.byte i

/-- Every patch on the way to the code of a tree is made for one of the tree's loops. -/
theorem Buffer.place_patchesOwn {b : Buffer} {ctx : Context} {root : Node} {kind : ValueKind}
    (room : b.offset ≤ b.capacity) (addressable : b.capacity ≤ Region.addressSpace)
    (ok : (b.place ctx root).result = .ok kind) {before after : List Step} {field target : Nat}
    (steps : (Codegen.node ctx.scope root).steps = before ++ .resolve field target :: after) :
    let held := (Step.performAll ctx.linkage before b).buffer
    held.PatchesOwn (root.loopSpans ctx.scope b.offset) (held.offset - field)
      (held.offset - target) := by
  have reach := (Codegen.node_orderly ctx.scope root).reach.mono (Nat.zero_le b.offset)
  obtain ⟨outcome, fits, near⟩ :=
    Script.assemble_ok (Codegen.node_orderly ctx.scope root).reach room addressable ok
  have tree : Compilable ctx.variableName kind root := Codegen.node_ok_iff.1 outcome
  have patches := tree.patches_node ctx.linkage ctx.firstLiteral b.offset
  rw [Script.size, steps, Step.totalSize_append] at fits
  rw [steps, Step.allInReach_append] at reach
  rw [steps, List.forall_mem_append, List.forall_mem_cons] at near
  -- Nothing has failed before the patch, so the cursor is where the steps before it lead.
  obtain ⟨held, links, events, taken, code, same⟩ :
      ∃ held links events, Step.performAll ctx.linkage before b = ⟨held, links, events, _⟩ ∧ _ :=
    Step.performAll_of_fits room addressable reach.1 (by omega) near.1
  have cursor : held.offset = b.offset + Step.totalSize before := by
    rw [← held.length_code, code, Step.length_written (by rw [b.length_code]; exact reach.1),
      b.length_code]
  obtain ⟨patched, resolved, -⟩ : ∃ patched,
      held.patchJump (held.offset - field) (held.offset - target) = .ok patched ∧
        patched.code = (Step.resolve field target).write ctx.linkage held.code ∧ _ :=
    Step.patchJump_of_near (by omega) (by omega) (by rw [cursor]; exact reach.2.1) near.2.1
  simp only [taken]
  refine ⟨?_, patched, resolved, fun i outside => byte_of_patchJump resolved outside⟩
  have member : (held.offset - field, held.offset - target) ∈
      Step.patches b.offset (Codegen.node ctx.scope root).steps := by
    rw [steps, Step.patches_append, Step.patches, cursor]
    exact List.mem_append_right _ (.head _)
  obtain ⟨span, listed, member⟩ := List.mem_flatMap.1 (patches ▸ member)
  exact ⟨span, List.mem_reverse.1 listed, member⟩

/-- The jumps of every loop go to its own ends.  In the code of a tree that was compiled at any
place, each loop of the tree has a range of its own, loops in its body have theirs inside of the
body, and the range holds both jumps, resolved.  There are no other jumps in the code, so no exit is
left without a target.  Whenever a jump is patched on the way, it is one of a loop's own two, and no
byte but those of its displacement is changed. -/
theorem loops_jump_to_own_ends (b : Buffer) (ctx : Context) (root : Node) (kind : ValueKind)
    (room : b.offset ≤ b.capacity) (addressable : b.capacity ≤ Region.addressSpace)
    (ok : (b.place ctx root).result = .ok kind) :
    let code := (b.place ctx root).buffer.code
    let spans := root.loopSpans ctx.scope b.offset
    (root.sites .free).filterMap (·.node.loop?) = spans.map (fun span => (span.cond, span.body)) ∧
    (∀ span ∈ spans, span.Resolved ctx.linkage code) ∧
    spans.Pairwise (fun outer inner => outer.entry ≤ inner.start ∧ inner.stop + 5 ≤ outer.stop) ∧
    (∃ is, decodeAll (code.drop b.offset) = some is ∧
      jumps b.offset is = spans.map LoopSpan.exit ++ spans.reverse.map LoopSpan.back ∧
      ∀ d, .je d ∈ is → d ≠ 0) ∧
    ∀ (before after : List Step) (field target : Nat),
      (Codegen.node ctx.scope root).steps = before ++ .resolve field target :: after →
      let held := (Step.performAll ctx.linkage before b).buffer
      held.PatchesOwn spans (held.offset - field) (held.offset - target) := by
  intro code spans
  have placed := Buffer.place_ok room addressable ok
  have tree := placed.tree
  have listed : jumps b.offset (Layout.node ctx.linkage ctx.firstLiteral root) =
      spans.map LoopSpan.exit ++ spans.reverse.map LoopSpan.back :=
    tree.jumps_node ctx.linkage ctx.firstLiteral b.offset
  have written : code = b.code ++ encodeAll (Layout.node ctx.linkage ctx.firstLiteral root) :=
    placed.appends.code
  have resolved : ∀ span ∈ spans, span.Resolved ctx.linkage code := by
    have everywhere := tree.loopSpans_resolved placed.compact b.code []
    rw [b.length_code, List.append_nil, ← written] at everywhere
    exact everywhere
  refine ⟨tree.loops_sites _ _, resolved, tree.loopSpans_nested ctx.linkage _ _, ?_, ?_⟩
  · refine ⟨_, ?_, listed, ?_⟩
    · rw [written, List.drop_left' b.length_code, decodeAll_encodeAll]
    · intro d member
      obtain ⟨field, jump⟩ := mem_jumps rfl member b.offset
      rw [listed, List.mem_append, List.mem_map, List.mem_map] at jump
      rcases jump with ⟨span, member, exit⟩ | ⟨span, -, back⟩
      · exact (resolved span member).exit_ne_zero (congrArg Prod.snd exit)
      · cases congrArg Prod.snd back
  · intro before after field target steps
    exact Buffer.place_patchesOwn room addressable ok steps

/-- A loop in a loop, behind a byte that was there before. -/
theorem nested_loops_resolved :
    let b : Buffer := ⟨⟨200, #[0x90]⟩, 1⟩
    let root : Node := .loop (.var "x") (.loop (.number .zero) (.assign "x" (.string .empty)))
    let spans := root.loopSpans ⟨"x", 0⟩ 1
    spans.map (fun span => (span.start, span.exitField, span.stop)) =
      [(1, 33, 111), (37, 62, 106)] ∧
    ∀ span ∈ spans, span.Resolved .standard (b.place { variableName := "x" } root).buffer.code := by
  intro b root spans
  have kept : ¬overflowed (b.place { variableName := "x" } root).result := by decide +kernel
  have ok : (b.place { variableName := "x" } root).result = .ok .statement :=
    (Buffer.place_appends (by decide) (by decide) kept).1
  obtain ⟨-, resolved, -⟩ := loops_jump_to_own_ends b _ root .statement (by decide) (by decide) ok
  exact ⟨by decide +kernel, resolved⟩

end TreeJit
