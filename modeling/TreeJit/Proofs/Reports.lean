import TreeJit.Compiler

/-! # What a compilation reports

The script of a tree notes one thing only: the node that it turns down, and that
as its last step.  So nothing is noted when a write fails before, and what has
been reported can be read off the result.

* `Script.Reports` — scripts that are silent up to a rejection at their end.
* `Codegen.function_reports` — the script of a function is such a script.
* `compile_events` — the events of a compilation, from its result.
-/

namespace TreeJit

open X86 (Instr)

/-- The events that go with a result: a rejection if a node was turned down by its kind. -/
def rejections {α : Type} : Except Error α → List Event
  | .error (.unsupported kind) => [.rejected kind]
  | _ => []

/-- An error is reported alike whatever the value would have been. -/
theorem rejections_error {α β : Type} (e : Error) :
    rejections (.error e : Except Error α) = rejections (.error e : Except Error β) := by
  cases e <;> rfl

theorem rejections_map {α β : Type} (f : α → β) (r : Except Error α) :
    rejections (r.map f) = rejections r := by
  cases r with
  | ok _ => rfl
  | error e => exact rejections_error e

/-! ## Silent steps -/

namespace Buffer

theorem rejections_checkRange (b : Buffer) (start length : Nat) :
    rejections (b.checkRange start length) = [] := by
  unfold checkRange
  split <;> rfl

theorem rejections_emitChunks (chunks : List (List UInt8)) (b : Buffer) :
    rejections (emitChunks chunks b).2 = [] := by
  induction chunks generalizing b with
  | nil => rfl
  | cons chunk chunks ih =>
    have quiet : rejections (b.emit chunk) = [] := by
      rw [emit, rejections_map, rejections_checkRange]
    rw [emitChunks]
    cases written : b.emit chunk with
    | ok b' => exact ih b'
    | error e =>
      rw [written] at quiet
      exact (rejections_error e).trans quiet

theorem rejections_patchJump (b : Buffer) (field target : Nat) :
    rejections (b.patchJump field target) = [] := by
  simp only [patchJump]
  split
  · rw [patch, rejections_map, rejections_checkRange]
  · rfl

end Buffer

/-- A step that has nothing to report. -/
def Step.Silent (s : Step) : Prop := ∀ event, s ≠ .note event

/-- A write reports nothing, and it is not what turns a node down. -/
theorem Step.Silent.perform {s : Step} (silent : s.Silent) (linkage : Linkage) (b : Buffer) :
    (s.perform linkage b).events = [] ∧ rejections (s.perform linkage b).result = [] := by
  cases s with
  | emit i => exact ⟨rfl, Buffer.rejections_emitChunks i.chunks b⟩
  | address dst symbol =>
    have quiet := Buffer.rejections_emitChunks
      (Instr.movImm dst (linkage.address symbol)).chunks b
    simp only [Step.perform, Buffer.emitInstr]
    cases written : Buffer.emitChunks (Instr.movImm dst (linkage.address symbol)).chunks b with
    | mk after result =>
      rw [written] at quiet
      cases result with
      | ok _ => exact ⟨rfl, rfl⟩
      | error e => exact ⟨rfl, quiet⟩
  | resolve field target =>
    have quiet := b.rejections_patchJump (b.offset - field) (b.offset - target)
    simp only [Step.perform]
    cases patched : b.patchJump (b.offset - field) (b.offset - target) with
    | ok after => exact ⟨rfl, rfl⟩
    | error e =>
      rw [patched] at quiet
      exact ⟨rfl, (rejections_error e).trans quiet⟩
  | note event => exact absurd rfl (silent event)

/-! ## Scripts that report at their end -/

namespace Script

variable {α β : Type}

/-- A script whose steps are silent, up to a rejection at the end if it ends with one. -/
def Reports (s : Script α) : Prop :=
  ∃ silent : List Step, (∀ step ∈ silent, step.Silent) ∧
    s.steps = silent ++ (rejections s.outcome).map .note

namespace Reports

theorem of_silent {s : Script α} (silent : ∀ step ∈ s.steps, step.Silent)
    (quiet : rejections s.outcome = []) : s.Reports :=
  ⟨s.steps, silent, by simp [quiet]⟩

theorem pure (a : α) : (Pure.pure a : Script α).Reports := .of_silent (List.forall_mem_nil _) rfl

theorem fail {e : Error} (quiet : rejections (.error e : Except Error α) = []) :
    (Script.fail e : Script α).Reports := .of_silent (List.forall_mem_nil _) quiet

theorem step {s : Step} (silent : s.Silent) : (Script.step s).Reports :=
  .of_silent (by simpa [Script.step] using silent) rfl

theorem emit (i : Instr) : (Script.emit i).Reports := .step (by simp [Step.Silent])

theorem address (dst : X86.Gpr) (symbol : Symbol) : (Script.address dst symbol).Reports :=
  .step (by simp [Step.Silent])

theorem resolve (field target : Nat) : (Script.resolve field target).Reports :=
  .step (by simp [Step.Silent])

theorem emitAll (is : List Instr) : (Script.emitAll is).Reports := by
  refine .of_silent ?_ rfl
  intro step member
  obtain ⟨i, -, rfl⟩ := List.mem_map.1 member
  simp [Step.Silent]

theorem bind {s : Script α} {next : α → Script β} (first : s.Reports)
    (second : ∀ a, (next a).Reports) : (s >>= next).Reports := by
  change (Script.bind s next).Reports
  obtain ⟨silent, quiet, steps⟩ := first
  cases outcome : s.outcome with
  | error e =>
    rw [bind_of_error outcome]
    rw [outcome, rejections_error (β := β)] at steps
    exact ⟨silent, quiet, steps⟩
  | ok a =>
    -- A script that ends well has noted nothing, so the second one may go on in silence.
    obtain ⟨silent', quiet', steps'⟩ := second a
    rw [bind_of_ok outcome]
    rw [outcome] at steps
    refine ⟨silent ++ silent', ?_, ?_⟩
    · simpa [or_imp, forall_and] using ⟨quiet, quiet'⟩
    · simp [steps, steps', rejections]

end Reports

end Script

/-! ## Scripts of trees, block by block -/

/-- A property of scripts that goes from building blocks to the code of trees without loops. -/
structure Script.Composable (P : (α : Type) → Script α → Prop) : Prop where
  pure : ∀ {α : Type} (a : α), P α (Pure.pure a)
  emit : ∀ i, P Unit (Script.emit i)
  address : ∀ dst symbol, P Unit (Script.address dst symbol)
  reject : ∀ {α : Type} (n : Node), P α n.reject
  mismatch : ∀ {α : Type} (n : Node) (expected : ValueKind), P α (n.mismatch expected)
  unbound : ∀ {α : Type} (name : String), P α (Script.fail (.unbound name))
  bind : ∀ {α β : Type} {s : Script α} {next : α → Script β}, P α s → (∀ a, P β (next a)) →
    P β (s >>= next)

/-- A property of scripts that goes from building blocks to what is built from them. -/
structure Script.Hereditary (P : (α : Type) → Script α → Prop) : Prop extends
    Script.Composable P where
  loop : ∀ {cond : Script Unit} {body : Script ValueKind}, P Unit cond → P ValueKind body →
    P Unit (Codegen.loop cond body)

namespace Script.Composable

open Codegen

variable {P : (α : Type) → Script α → Prop} (h : Composable P)

include h

theorem valueKind (n : Node) : P ValueKind n.valueKind := by
  cases n with
  | number _ | var _ | binary _ _ _ | neg _ | string _ | concat _ _ | assign _ _ | loop _ _ =>
    exact h.pure _
  | compare _ _ _ | block _ | print _ | call _ _ => exact h.reject _

theorem checkBound (scope : Scope) (name : String) : P Unit (checkBound scope name) := by
  unfold Codegen.checkBound
  split
  · exact h.pure ()
  · exact h.unbound name

theorem callHelper (helper : Helper) : P Unit (callHelper helper) :=
  h.bind (h.address _ _) fun _ => h.emit _

theorem callOnCell (helper : Helper) : P Unit (callOnCell helper) :=
  h.bind (h.address _ _) fun _ => h.callHelper helper

theorem applyOp (op : BinaryOp) : P Unit (applyOp op) := by
  cases op with
  | add | sub | mul | div => exact h.bind (h.emit _) fun _ => h.emit _
  | mod =>
    exact h.bind (h.emit _) fun _ => h.bind (h.emit _) fun _ => h.bind (h.emit _) fun _ =>
      h.callHelper _

theorem number (scope : Scope) (n : Node) : P Unit (number scope n) := by
  induction n using number.induct with
  | case1 value => exact h.bind (h.emit _) fun _ => h.emit _
  | case2 name => exact h.bind (h.checkBound _ _) fun _ => h.callOnCell _
  | case3 op lhs rhs left right =>
    exact h.bind left fun _ => h.bind (h.emit _) fun _ => h.bind (h.emit _) fun _ =>
      h.bind right fun _ => h.bind (h.emit _) fun _ => h.bind (h.emit _) fun _ => h.applyOp op
  | case4 operand ih =>
    exact h.bind ih fun _ => h.bind (h.emit _) fun _ => h.bind (h.emit _) fun _ =>
      h.bind (h.emit _) fun _ => h.emit _
  | case5 | case6 | case7 | case8 => exact h.mismatch _ _
  | case9 | case10 | case11 | case12 => exact h.reject _

theorem string (scope : Scope) (n : Node) : P Unit (string scope n) := by
  induction scope, n using string.induct with
  | case1 scope text => exact h.address _ _
  | case2 scope name => exact h.bind (h.checkBound _ _) fun _ => h.callOnCell _
  | case3 scope lhs rhs left right =>
    exact h.bind left fun _ => h.bind (h.emit _) fun _ => h.bind (h.emit _) fun _ =>
      h.bind right fun _ => h.bind (h.emit _) fun _ => h.bind (h.emit _) fun _ =>
        h.bind (h.emit _) fun _ => h.bind (h.emit _) fun _ => h.callHelper _
  | case4 | case5 | case6 | case7 | case8 => exact h.mismatch _ _
  | case9 | case10 | case11 | case12 => exact h.reject _

theorem assign (scope : Scope) (name : String) (value : Node) :
    P Unit (assign scope name value) := by
  refine h.bind (h.checkBound _ _) fun _ => h.bind (h.valueKind _) fun kind => ?_
  cases kind with
  | number => exact h.bind (h.number _ _) fun _ => h.callOnCell _
  | string => exact h.bind (h.string _ _) fun _ => h.bind (h.emit _) fun _ => h.callOnCell _
  | statement => exact h.mismatch _ _

theorem node {n : Node} (notLoop : ∀ cond body, n ≠ .loop cond body) (scope : Scope) :
    P ValueKind (node scope n) := by
  induction scope, n using node.induct with
  | case1 scope name value => exact h.bind (h.assign _ _ _) fun _ => h.pure _
  | case2 scope cond body _ => exact absurd rfl (notLoop cond body)
  | case3 scope n notAssign _ =>
    rw [Codegen.node]
    · refine h.bind (h.valueKind _) fun kind => ?_
      cases kind with
      | number => exact h.bind (h.number _ _) fun _ => h.pure _
      | string => exact h.bind (h.string _ _) fun _ => h.pure _
      | statement => exact h.bind (h.mismatch _ _) fun _ => h.pure _
    · exact notAssign
    · exact notLoop

end Script.Composable

theorem Script.Hereditary.node {P : (α : Type) → Script α → Prop} (h : Hereditary P)
    (scope : Codegen.Scope) (n : Node) : P ValueKind (Codegen.node scope n) := by
  induction scope, n using Codegen.node.induct with
  | case1 scope name value => exact h.toComposable.node (n := .assign name value) nofun scope
  | case2 scope cond body ih => exact h.bind (h.loop (h.number _ _) ih) fun _ => h.pure _
  | case3 scope n _ notLoop => exact h.toComposable.node notLoop scope

theorem Script.Reports.hereditary : Script.Hereditary fun _ s => s.Reports where
  pure := .pure
  emit := .emit
  address := .address
  reject _ := ⟨[], List.forall_mem_nil _, rfl⟩
  mismatch _ _ := .fail rfl
  unbound _ := .fail rfl
  loop test repeated :=
    .bind (.bind test fun _ => .bind (.emit _) fun _ => .bind (.emit _) fun _ => .emit _) fun _ =>
      .bind repeated fun _ => .bind (.emit _) fun _ => .bind (.resolve _ _) fun _ => .resolve _ _
  bind := .bind

theorem Codegen.function_reports (scope : Scope) (root : Node) : (function scope root).Reports :=
  .bind (.emitAll _) fun _ => .bind (Script.Reports.hereditary.node _ _) fun _ =>
    .bind (.emitAll _) fun _ => .pure _

/-! ## Events -/

namespace Step

variable (linkage : Linkage)

theorem performAll_silent_append {silent : List Step} (quiet : ∀ step ∈ silent, step.Silent)
    (rest : List Step) (b : Buffer) :
    (∃ e, (performAll linkage (silent ++ rest) b).result = .error e ∧
      (performAll linkage (silent ++ rest) b).events = [] ∧
      rejections (.error e : Except Error Unit) = []) ∨
    ∃ b', (performAll linkage (silent ++ rest) b).result = (performAll linkage rest b').result ∧
      (performAll linkage (silent ++ rest) b).events = (performAll linkage rest b').events := by
  induction silent generalizing b with
  | nil => exact .inr ⟨b, rfl, rfl⟩
  | cons s silent ih =>
    obtain ⟨events, unrejected⟩ := (quiet s List.mem_cons_self).perform linkage b
    simp only [List.cons_append, performAll]
    cases result : (s.perform linkage b).result with
    | error e =>
      rw [result] at unrejected
      exact .inl ⟨e, result, events, unrejected⟩
    | ok _ =>
      simp only [events, List.nil_append]
      exact ih (fun step member => quiet step (List.mem_cons_of_mem _ member)) _

theorem performAll_notes (events : List Event) (b : Buffer) :
    (performAll linkage (events.map .note) b).result = .ok () ∧
      (performAll linkage (events.map .note) b).events = events := by
  induction events with
  | nil => exact ⟨rfl, rfl⟩
  | cons event events ih =>
    simp only [List.map_cons, performAll, perform]
    exact ⟨ih.1, by simp [ih.2]⟩

end Step

/-- What assembly reports can be read off its result. -/
theorem Script.Reports.assemble {α : Type} {s : Script α} (h : s.Reports) (linkage : Linkage)
    (b : Buffer) :
    (s.assemble linkage b).events = rejections (s.assemble linkage b).result := by
  obtain ⟨silent, quiet, steps⟩ := h
  rcases Step.performAll_silent_append linkage quiet
    ((rejections s.outcome).map .note) b with ⟨e, result, events, unrejected⟩ | ⟨b', result, events⟩
  · rw [← steps] at result events
    simp only [Script.assemble, result, events]
    exact ((rejections_error e).trans unrejected).symm
  · obtain ⟨ok, noted⟩ := Step.performAll_notes linkage (rejections s.outcome) b'
    rw [← steps, ok] at result
    rw [← steps, noted] at events
    simp only [Script.assemble, result, events]

/-! ## Capacities -/

namespace Buffer

variable {b b' : Buffer}

theorem capacity_write (b : Buffer) (start offset : Nat) (bytes : List UInt8) :
    capacity ⟨b.region.write start bytes, offset⟩ = b.capacity := rfl

theorem capacity_of_emit {bytes : List UInt8} (written : b.emit bytes = .ok b') :
    b'.capacity = b.capacity := by
  unfold emit at written
  cases checked : b.checkRange b.offset bytes.length with
  | ok _ => rw [checked] at written; cases written; exact b.capacity_write _ _ _
  | error e => rw [checked] at written; cases written

theorem capacity_emitChunks (chunks : List (List UInt8)) (b : Buffer) :
    (emitChunks chunks b).1.capacity = b.capacity := by
  induction chunks generalizing b with
  | nil => rfl
  | cons chunk chunks ih =>
    rw [emitChunks]
    cases written : b.emit chunk with
    | ok b' => exact (ih b').trans (capacity_of_emit written)
    | error e => rfl

theorem capacity_of_patchJump {field target : Nat} (patched : b.patchJump field target = .ok b') :
    b'.capacity = b.capacity := by
  simp only [patchJump, patch] at patched
  split at patched
  · cases checked : b.checkRange field 4 with
    | ok _ => rw [checked] at patched; cases patched; exact b.capacity_write _ _ _
    | error e => rw [checked] at patched; cases patched
  · cases patched

end Buffer

theorem Step.capacity_perform (linkage : Linkage) (b : Buffer) (s : Step) :
    (s.perform linkage b).buffer.capacity = b.capacity := by
  cases s with
  | emit i => exact Buffer.capacity_emitChunks i.chunks b
  | address dst symbol =>
    have kept := Buffer.capacity_emitChunks (Instr.movImm dst (linkage.address symbol)).chunks b
    simp only [perform, Buffer.emitInstr]
    split <;> exact kept
  | resolve field target =>
    simp only [perform]
    cases patched : b.patchJump (b.offset - field) (b.offset - target) with
    | ok after => exact Buffer.capacity_of_patchJump patched
    | error e => rfl
  | note event => rfl

theorem Step.capacity_performAll (linkage : Linkage) (steps : List Step) (b : Buffer) :
    (performAll linkage steps b).buffer.capacity = b.capacity := by
  induction steps generalizing b with
  | nil => rfl
  | cons s rest ih =>
    rw [performAll]
    split
    · exact capacity_perform linkage b s
    · exact (ih _).trans (capacity_perform linkage b s)

theorem Script.capacity_assemble {α : Type} (linkage : Linkage) (s : Script α) (b : Buffer) :
    (s.assemble linkage b).buffer.capacity = b.capacity := by
  rw [assemble]
  split <;> exact Step.capacity_performAll linkage s.steps b

theorem Buffer.rejections_create (capacity : Nat) (memory : MemorySource) :
    rejections (create capacity memory) = [] := by
  rw [create, rejections_map, MemorySource.allocate]
  split
  · rfl
  · split <;> rfl

/-- The events of a compilation: the node that it turned down, or the message that it succeeded, or
nothing. -/
theorem compile_events (config : Config) (ctx : Context) (root : Node) :
    (compile config ctx root).events = match (compile config ctx root).result with
      | .ok made => [.compiled root.kind made.code.size made.result config.capacity]
      | .error e => rejections (.error e : Except Error CompiledCode) := by
  unfold compile
  split
  · rfl
  split
  · rfl
  split
  · rename_i e refused
    have quiet := Buffer.rejections_create config.capacity ctx.memory
    rw [refused] at quiet
    exact ((rejections_error e).trans quiet).symm
  · rename_i b created
    have reported := (Codegen.function_reports ctx.scope root).assemble ctx.linkage b
    have capacity : b.capacity = config.capacity := by
      rw [(Buffer.create_ok created).1]
      rfl
    rw [← Script.capacity_assemble ctx.linkage (Codegen.function ctx.scope root) b] at capacity
    dsimp only
    split
    · rename_i e refused
      rw [refused] at reported
      exact reported.trans (rejections_error e)
    · rename_i kind made
      rw [made] at reported
      simp [reported, rejections, capacity]

end TreeJit
