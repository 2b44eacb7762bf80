import TreeJit.Compiler
import TreeJit.Proofs.SideBySide

/-! # Generating code without scripts

Code can also be generated straight into a buffer.  An `Emitter` writes what it
has at once; it can ask for the cursor, remember the offset of a displacement and
point it somewhere later.  `Direct` generates code for trees in that way.  A loop
remembers three offsets in the buffer, and no sizes of scripts are needed.

What comes out is the same, whatever is in the buffer already, however much room
there is, and also if the tree is refused or a write does not fit.  The
non-trivial ingredient is `Emitter.Moves.bind_offset`: the cursor behind an
emitter that moves it by a known distance can be told before.  So all questions
for the cursor can be asked at the beginning of a loop, where offsets become
distances.

* `Script.emitter` — carrying out a script, as an emitter.  It respects sequences.
* `Codegen.emitter_loop` — loops resolved by distances and by offsets agree.
* `Codegen.node_assemble`, `Codegen.function_assemble` — assembling the script of
  a tree is generating the code directly.
-/

namespace TreeJit

open X86 (Instr)

/-! ## Emitters -/

/-- Something that writes into a buffer as it goes. -/
def Emitter (α : Type) := Buffer → Emission α

namespace Emitter

variable {α β : Type}

def pure (a : α) : Emitter α := fun b => ⟨b, [], [], .ok a⟩

def fail (e : Error) : Emitter α := fun b => ⟨b, [], [], .error e⟩

/-- One emitter after the other; an error of the first leaves the second out. -/
def bind (first : Emitter α) (next : α → Emitter β) : Emitter β := fun b =>
  let made := first b
  match made.result with
  | .ok a =>
    let others := next a made.buffer
    ⟨others.buffer, made.links ++ others.links, made.events ++ others.events, others.result⟩
  | .error e => ⟨made.buffer, made.links, made.events, .error e⟩

instance : Monad Emitter where
  pure := pure
  bind := bind

def note (event : Event) : Emitter Unit := fun b => ⟨b, [], [event], .ok ()⟩

def emit (i : Instr) : Emitter Unit := fun b =>
  let (after, written) := b.emitInstr i
  ⟨after, [], [], written⟩

/-- Remembers that the last eight bytes before the cursor are the address of a symbol. -/
def link (symbol : Symbol) : Emitter Unit := fun b =>
  ⟨b, [⟨b.offset - Link.width, symbol⟩], [], .ok ()⟩

def address (linkage : Linkage) (dst : X86.Gpr) (symbol : Symbol) : Emitter Unit := do
  emit (.movImm dst (linkage.address symbol))
  link symbol

def offset : Emitter Nat := fun b => ⟨b, [], [], .ok b.offset⟩

/-- Writes a jump without a target, and gives the offset of its displacement. -/
def jump (make : Int32 → Instr) : Emitter Nat := fun b =>
  let (after, written) := b.emitJump make
  ⟨after, [], [], written⟩

/-- Points the displacement at an offset to a place. -/
def patch (field target : Nat) : Emitter Unit := fun b => .settle b (b.patchJump field target)

/-! ## Laws -/

section laws

variable {s : Emitter α} {b : Buffer}

theorem bind_of_ok {a : α} (taken : (s b).result = .ok a) (next : α → Emitter β) :
    (s >>= next) b =
      let others := next a (s b).buffer
      ⟨others.buffer, (s b).links ++ others.links, (s b).events ++ others.events,
        others.result⟩ := by
  change s.bind next b = _
  simp only [bind, taken]

theorem bind_of_error {e : Error} (taken : (s b).result = .error e) (next : α → Emitter β) :
    (s >>= next) b = ⟨(s b).buffer, (s b).links, (s b).events, .error e⟩ := by
  change s.bind next b = _
  simp only [bind, taken]

end laws

theorem bind_pure_id (s : Emitter α) : s.bind pure = s := by
  funext b
  change (s >>= pure) b = s b
  cases taken : (s b).result with
  | ok a =>
    rw [bind_of_ok taken]
    simp only [pure, List.append_nil, ← taken]
  | error e => rw [bind_of_error taken, ← taken]

theorem bind_bind {γ : Type} (s : Emitter α) (f : α → Emitter β) (g : β → Emitter γ) :
    (s.bind f).bind g = s.bind fun a => (f a).bind g := by
  funext b
  change (s >>= f >>= g) b = (s >>= fun a => f a >>= g) b
  cases taken : (s b).result with
  | ok a =>
    have first := bind_of_ok taken f
    rw [bind_of_ok taken]
    cases taken' : (f a (s b).buffer).result with
    | ok c =>
      rw [bind_of_ok (by rw [first]; exact taken'), bind_of_ok taken', first]
      simp only [List.append_assoc]
    | error e =>
      rw [bind_of_error (by rw [first]; exact taken'), bind_of_error taken', first]
  | error e =>
    have first := bind_of_error taken f
    rw [bind_of_error taken, bind_of_error (by rw [first]), first]

instance : LawfulMonad Emitter :=
  .mk' _ (fun s => bind_pure_id s) (fun _ _ => rfl) fun s f g => bind_bind s f g

/-- A jump is written like any instruction, and its displacement ends at the cursor. -/
theorem jump_eq (make : Int32 → Instr) :
    jump make = emit (make 0) >>= fun _ => offset >>= fun cursor => Pure.pure (cursor - 4) := by
  funext b
  cases written : (b.emitInstr (make 0)).2 with
  | ok _ =>
    rw [bind_of_ok written]
    simp only [jump, Buffer.emitJump, written]
    rfl
  | error e =>
    rw [bind_of_error written]
    simp only [jump, Buffer.emitJump, written]
    rfl

/-! ## Cursors -/

theorem offset_bind (next : Nat → Emitter β) (b : Buffer) :
    (offset >>= next) b = next b.offset b := rfl

theorem offset_offset (next : Nat → Nat → Emitter β) :
    (offset >>= fun a => offset >>= next a) = offset >>= fun a => next a a := by
  funext b
  rw [offset_bind, offset_bind, offset_bind]

/-- An emitter that moves the cursor by a known distance. -/
def Moves (s : Emitter α) (size : Nat) : Prop :=
  ∀ b a, (s b).result = .ok a → (s b).buffer.offset = b.offset + size

theorem moves_emit (i : Instr) : Moves (emit i) i.size :=
  fun _ _ written => (Buffer.emitChunks_appends written).offset

theorem moves_patch (field target : Nat) : Moves (patch field target) 0 := by
  intro b a done
  unfold patch at done ⊢
  cases patched : b.patchJump field target with
  | ok b' => exact (Buffer.patchJump_keeps patched).1
  | error e =>
    rw [patched] at done
    cases done

/-- The cursor behind an emitter can be told before it. -/
theorem Moves.bind_offset {s : Emitter α} {size : Nat} (moves : s.Moves size)
    (next : α → Nat → Emitter β) :
    (s >>= fun a => offset >>= next a) =
      offset >>= fun start => s >>= fun a => next a (start + size) := by
  funext b
  change _ = (s >>= fun a => next a (b.offset + size)) b
  cases taken : (s b).result with
  | ok a =>
    rw [bind_of_ok taken, bind_of_ok taken, ← moves b a taken]
    rfl
  | error e => rw [bind_of_error taken, bind_of_error taken]

end Emitter

/-! ## Scripts as emitters -/

/-- Carrying out a script. -/
def Script.emitter {α : Type} (linkage : Linkage) (s : Script α) : Emitter α :=
  fun b => s.assemble linkage b

namespace Script

variable {α β : Type} {linkage : Linkage}

theorem assemble_of_ok {s : Script α} {b : Buffer}
    (taken : (Step.performAll linkage s.steps b).result = .ok ()) :
    s.assemble linkage b =
      let e := Step.performAll linkage s.steps b
      ⟨e.buffer, e.links, e.events, s.outcome⟩ := by
  simp only [assemble, taken]

theorem assemble_of_error {s : Script α} {b : Buffer} {failure : Error}
    (stopped : (Step.performAll linkage s.steps b).result = .error failure) :
    s.assemble linkage b =
      let e := Step.performAll linkage s.steps b
      ⟨e.buffer, e.links, e.events, .error failure⟩ := by
  simp only [assemble, stopped]

@[simp] theorem emitter_pure (a : α) :
    (Pure.pure a : Script α).emitter linkage = Pure.pure a := rfl

@[simp] theorem emitter_fail (e : Error) :
    (fail e : Script α).emitter linkage = Emitter.fail e := rfl

/-- One script after the other is one emitter after the other. -/
@[simp] theorem emitter_bind (s : Script α) (next : α → Script β) :
    (s >>= next).emitter linkage = s.emitter linkage >>= fun a => (next a).emitter linkage := by
  funext b
  change (s.bind next).assemble linkage b = _
  cases taken : (Step.performAll linkage s.steps b).result with
  | error e =>
    have stopped : s.emitter linkage b = _ := assemble_of_error taken
    rw [Emitter.bind_of_error (congrArg Emission.result stopped), stopped]
    cases outcome : s.outcome with
    | error _ =>
      rw [bind_of_error outcome]
      exact assemble_of_error taken
    | ok a =>
      have short := Step.performAll_append_of_error taken (next a).steps
      rw [bind_of_ok outcome, assemble_of_error (by rw [short, taken]), short]
  | ok _ =>
    have first : s.emitter linkage b = _ := assemble_of_ok taken
    cases outcome : s.outcome with
    | error e =>
      rw [Emitter.bind_of_error ((congrArg Emission.result first).trans outcome), first,
        bind_of_error outcome]
      exact assemble_of_ok taken
    | ok a =>
      rw [Emitter.bind_of_ok ((congrArg Emission.result first).trans outcome), first,
        bind_of_ok outcome]
      simp only [emitter, assemble, Step.performAll_append_of_ok taken]
      split <;> simp only [*]

theorem emitter_step (s : Step) : (step s).emitter linkage = fun b => s.perform linkage b := by
  funext b
  cases made : s.perform linkage b with
  | mk buffer links events result =>
    cases result <;> simp [emitter, assemble, step, Step.performAll, made]

@[simp] theorem emitter_emit (i : Instr) : (emit i).emitter linkage = Emitter.emit i :=
  emitter_step _

@[simp] theorem emitter_address (dst : X86.Gpr) (symbol : Symbol) :
    (address dst symbol).emitter linkage = Emitter.address linkage dst symbol := by
  rw [address, emitter_step]
  funext b
  unfold Emitter.address
  cases written : (b.emitInstr (.movImm dst (linkage.address symbol))).2 with
  | ok _ =>
    rw [Emitter.bind_of_ok written]
    simp only [Step.perform, written]
    rfl
  | error e =>
    rw [Emitter.bind_of_error written]
    simp only [Step.perform, written]
    rfl

@[simp] theorem emitter_note (event : Event) : (note event).emitter linkage = Emitter.note event :=
  emitter_step _

/-- Distances back from the cursor, as offsets. -/
@[simp] theorem emitter_resolve (field target : Nat) : (resolve field target).emitter linkage =
    Emitter.offset >>= fun cursor => Emitter.patch (cursor - field) (cursor - target) := by
  rw [resolve, emitter_step]
  funext b
  rw [Emitter.offset_bind]
  rfl

theorem moves_emitter (linkage : Linkage) (s : Script α) : (s.emitter linkage).Moves s.size := by
  intro b a made
  cases taken : (Step.performAll linkage s.steps b).result with
  | ok _ =>
    simp only [emitter, assemble_of_ok taken]
    exact Step.offset_of_performAll_ok taken
  | error e =>
    simp only [emitter, assemble_of_error taken] at made
    cases made

end Script

/-! ## Direct generation -/

namespace Direct

open Codegen (Scope scalarOp?)
open Emitter (note fail emit address offset jump patch)

def reject {α : Type} (node : Node) : Emitter α := do
  note (.rejected node.kind)
  fail (.unsupported node.kind)

/-- Nothing comes after a refusal. -/
theorem reject_bind {α β : Type} (node : Node) (next : α → Emitter β) :
    reject node >>= next = reject node := rfl

def mismatch {α : Type} (node : Node) (expected : ValueKind) : Emitter α :=
  fail (.valueKind node.kind expected)

def valueKind (node : Node) : Emitter ValueKind :=
  match node with
  | .number _ | .var _ | .binary _ _ _ | .neg _ => pure .number
  | .string _ | .concat _ _ => pure .string
  | .assign _ _ | .loop _ _ => pure .statement
  | .compare _ _ _ | .block _ | .print _ | .call _ _ => reject node

def checkBound (scope : Scope) (name : String) : Emitter Unit :=
  if name = scope.bound then pure () else fail (.unbound name)

def emitAll : List Instr → Emitter Unit
  | [] => pure ()
  | i :: is => do
    emit i
    emitAll is

section

variable (linkage : Linkage) (scope : Scope)

def callHelper (h : Helper) : Emitter Unit := do
  address linkage .rax (.helper h)
  emit (.call .rax)

def callOnCell (h : Helper) : Emitter Unit := do
  address linkage X86.firstArgument .cell
  callHelper linkage h

def applyOp (op : BinaryOp) : Emitter Unit :=
  match scalarOp? op with
  | some scalar => do
    emit (.scalar scalar .xmm1 .xmm0)
    emit (.movapd .xmm0 .xmm1)
  | none => do
    emit (.movapd .xmm2 .xmm0)
    emit (.movapd .xmm0 .xmm1)
    emit (.movapd .xmm1 .xmm2)
    callHelper linkage .remainder

/-- A loop, with the offsets of its start and of both displacements remembered. -/
def loop (cond : Emitter Unit) (body : Emitter ValueKind) : Emitter Unit := do
  let start ← offset
  cond
  emit (.xorpd .xmm1 .xmm1)
  emit (.ucomisd .xmm0 .xmm1)
  let exit ← jump .je
  let _ ← body
  let repeated ← jump .jmp
  -- only here is it known where the exit leads
  let stop ← offset
  patch exit stop
  patch repeated start

def number : Node → Emitter Unit
  | .number value => do
    emit (.movImm .rax value.bits)
    emit (.movq .xmm0 .rax)
  | .var name => do
    checkBound scope name
    callOnCell linkage .readNumber
  | .binary op lhs rhs => do
    number lhs
    emit (.subSp X86.spillSlot)
    emit (.store .xmm0)
    number rhs
    emit (.load .xmm1)
    emit (.addSp X86.spillSlot)
    applyOp linkage op
  | .neg operand => do
    number operand
    emit (.movImm .rax Double.negativeZero.bits)
    emit (.movq .xmm1 .rax)
    emit (.scalar .sub .xmm1 .xmm0)
    emit (.movapd .xmm0 .xmm1)
  | .string text => mismatch (.string text) .number
  | .concat lhs rhs => mismatch (.concat lhs rhs) .number
  | .assign name value => mismatch (.assign name value) .number
  | .loop cond body => mismatch (.loop cond body) .number
  | .compare op lhs rhs => reject (.compare op lhs rhs)
  | .block items => reject (.block items)
  | .print items => reject (.print items)
  | .call name args => reject (.call name args)

end

variable (linkage : Linkage)

def string (scope : Scope) : Node → Emitter Unit
  | .string _ => address linkage .rax (.literal scope.firstLiteral)
  | .var name => do
    checkBound scope name
    callOnCell linkage .readString
  | .concat lhs rhs => do
    string scope lhs
    emit (.push .rax)
    emit (.subSp X86.pushPad)
    string (scope.after lhs) rhs
    emit (.addSp X86.pushPad)
    emit (.pop .rcx)
    emit (.mov X86.secondArgument .rax)
    emit (.mov X86.firstArgument .rcx)
    callHelper linkage .concat
  | .number value => mismatch (.number value) .string
  | .binary op lhs rhs => mismatch (.binary op lhs rhs) .string
  | .neg operand => mismatch (.neg operand) .string
  | .assign name value => mismatch (.assign name value) .string
  | .loop cond body => mismatch (.loop cond body) .string
  | .compare op lhs rhs => reject (.compare op lhs rhs)
  | .block items => reject (.block items)
  | .print items => reject (.print items)
  | .call name args => reject (.call name args)

def assign (scope : Scope) (name : String) (value : Node) : Emitter Unit := do
  checkBound scope name
  match ← valueKind value with
  | .number =>
    number linkage scope value
    callOnCell linkage .writeNumber
  | .string =>
    string linkage scope value
    emit (.mov X86.secondArgument .rax)
    callOnCell linkage .writeString
  | .statement => mismatch value .number

mutual

/-- The kind of a tree is judged first, and says which code is generated. -/
def node (scope : Scope) (n : Node) : Emitter ValueKind := do
  let kind ← valueKind n
  match kind with
  | .number => number linkage scope n
  | .string => string linkage scope n
  | .statement => statement scope n
  pure kind
termination_by (sizeOf n, 1)

def statement (scope : Scope) : Node → Emitter Unit
  | .assign name value => assign linkage scope name value
  | .loop cond body => loop (number linkage scope cond) (node (scope.after cond) body)
  | .number value => mismatch (.number value) .statement
  | .string text => mismatch (.string text) .statement
  | .var name => mismatch (.var name) .statement
  | .binary op lhs rhs => mismatch (.binary op lhs rhs) .statement
  | .neg operand => mismatch (.neg operand) .statement
  | .concat lhs rhs => mismatch (.concat lhs rhs) .statement
  | .compare op lhs rhs => reject (.compare op lhs rhs)
  | .block items => reject (.block items)
  | .print items => reject (.print items)
  | .call name args => reject (.call name args)
termination_by n => (sizeOf n, 0)

end

def function (scope : Scope) (root : Node) : Emitter ValueKind := do
  emitAll X86.prologue
  let kind ← node linkage scope root
  emitAll X86.epilogue
  pure kind

end Direct

/-! ## Scripts of trees -/

namespace Codegen

open Emitter (emit offset patch moves_emit moves_patch jump_eq offset_offset)
open Script (emitter_bind emitter_emit emitter_resolve)

variable {linkage : Linkage}

theorem emitter_loopTest (cond : Script Unit) : (loopTest cond).emitter linkage = (do
    cond.emitter linkage
    emit (.xorpd .xmm1 .xmm1)
    emit (.ucomisd .xmm0 .xmm1)
    emit (.je 0)) := by
  simp only [loopTest, emitter_bind, emitter_emit]

/-- Distances back from the cursor and remembered offsets give a loop the same jumps. -/
theorem emitter_loop (cond : Script Unit) (body : Script ValueKind) :
    (loop cond body).emitter linkage =
      Direct.loop (cond.emitter linkage) (body.emitter linkage) := by
  have tested := (loopTest cond).moves_emitter linkage
  have repeated := body.moves_emitter linkage
  -- a displacement ends where the next piece of the loop begins
  have exit : ∀ start t b j : Nat, start + t + b + j - (b + j + 4) = start + t - 4 := by omega
  have back : ∀ start t b j : Nat, start + t + b + j - (t + (b + j)) = start := by omega
  -- both sides, with every offset counted from the start
  calc (loop cond body).emitter linkage
    _ = (do
          let start ← offset
          (loopTest cond).emitter linkage
          let _ ← body.emitter linkage
          emit (.jmp 0)
          let stop := start + (loopTest cond).size + body.size + (Instr.jmp 0).size
          patch (start + (loopTest cond).size - 4) stop
          patch (stop - 4) start) := by
        simp only [loop, emitter_bind, emitter_emit, emitter_resolve, bind_assoc,
          tested.bind_offset, repeated.bind_offset, (moves_emit _).bind_offset,
          (moves_patch _ _).bind_offset, offset_offset, Nat.add_zero, Nat.sub_zero, exit, back]
    _ = (do
          let start ← offset
          (loopTest cond).emitter linkage
          let cursor ← offset
          let _ ← body.emitter linkage
          emit (.jmp 0)
          let stop ← offset
          patch (cursor - 4) stop
          patch (stop - 4) start) := by
        simp only [tested.bind_offset, repeated.bind_offset, (moves_emit _).bind_offset,
          offset_offset]
    _ = Direct.loop (cond.emitter linkage) (body.emitter linkage) := by
        simp only [Direct.loop, emitter_loopTest, jump_eq, bind_assoc, pure_bind, offset_offset]

@[simp] theorem emitter_reject {α : Type} (n : Node) :
    (n.reject : Script α).emitter linkage = Direct.reject n := by
  simp only [Node.reject, Direct.reject, emitter_bind, Script.emitter_note, Script.emitter_fail]

@[simp] theorem emitter_mismatch {α : Type} (n : Node) (expected : ValueKind) :
    (n.mismatch expected : Script α).emitter linkage = Direct.mismatch n expected := rfl

@[simp] theorem emitter_valueKind (n : Node) :
    n.valueKind.emitter linkage = Direct.valueKind n := by
  cases n <;> simp [Node.valueKind, Direct.valueKind]

@[simp] theorem emitter_checkBound (scope : Scope) (name : String) :
    (checkBound scope name).emitter linkage = Direct.checkBound scope name := by
  unfold checkBound Direct.checkBound
  split <;> rfl

@[simp] theorem emitter_callHelper (h : Helper) :
    (callHelper h).emitter linkage = Direct.callHelper linkage h := by
  simp [callHelper, Direct.callHelper]

@[simp] theorem emitter_callOnCell (h : Helper) :
    (callOnCell h).emitter linkage = Direct.callOnCell linkage h := by
  simp [callOnCell, Direct.callOnCell]

@[simp] theorem emitter_applyOp (op : BinaryOp) :
    (applyOp op).emitter linkage = Direct.applyOp linkage op := by
  cases op <;> simp [applyOp, Direct.applyOp, scalarOp?]

theorem emitter_number (scope : Scope) (n : Node) :
    (number scope n).emitter linkage = Direct.number linkage scope n := by
  induction n using number.induct with
  | case1 value => simp [number, Direct.number]
  | case2 name => simp [number, Direct.number]
  | case3 op lhs rhs left right => simp [number, Direct.number, binary, left, right]
  | case4 operand ih => simp [number, Direct.number, negate, ih]
  | case5 | case6 | case7 | case8 => exact emitter_mismatch _ _
  | case9 | case10 | case11 | case12 => exact emitter_reject _

theorem emitter_string (scope : Scope) (n : Node) :
    (string scope n).emitter linkage = Direct.string linkage scope n := by
  induction scope, n using string.induct with
  | case1 scope text => exact Script.emitter_address _ _
  | case2 scope name => simp [string, Direct.string]
  | case3 scope lhs rhs left right => simp [string, Direct.string, concat, left, right]
  | case4 | case5 | case6 | case7 | case8 => exact emitter_mismatch _ _
  | case9 | case10 | case11 | case12 => exact emitter_reject _

theorem emitter_assign (scope : Scope) (name : String) (value : Node) :
    (assign scope name value).emitter linkage = Direct.assign linkage scope name value := by
  simp only [assign, Direct.assign, emitter_bind, emitter_checkBound, emitter_valueKind]
  refine bind_congr fun _ => bind_congr fun kind => ?_
  cases kind with
  | number => simp [emitter_number]
  | string => simp [emitter_string]
  | statement => exact emitter_mismatch _ _

theorem emitter_node (scope : Scope) (n : Node) :
    (node scope n).emitter linkage = Direct.node linkage scope n := by
  induction scope, n using node.induct with
  | case1 scope name value =>
    simp [node, Direct.node, Direct.statement, Direct.valueKind, emitter_assign]
  | case2 scope cond body ih =>
    simp [node, Direct.node, Direct.statement, Direct.valueKind, emitter_loop, emitter_number, ih]
  | case3 scope n notAssign notLoop =>
    cases n with
    | assign name value => exact (notAssign name value rfl).elim
    | loop cond body => exact (notLoop cond body rfl).elim
    | number | var | binary | neg =>
      simp [node, Direct.node, Direct.valueKind, Node.valueKind, emitter_number]
    | string | concat =>
      simp [node, Direct.node, Direct.valueKind, Node.valueKind, emitter_string]
    | compare | block | print | call =>
      simp [node, Direct.node, Direct.valueKind, Node.valueKind, Direct.reject_bind]

theorem emitter_emitAll (is : List Instr) :
    (Script.emitAll is).emitter linkage = Direct.emitAll is := by
  induction is with
  | nil => rfl
  | cons i is ih =>
    calc (Script.emitAll (i :: is)).emitter linkage
      _ = (Script.emit i >>= fun _ => Script.emitAll is).emitter linkage := rfl
      _ = Direct.emitAll (i :: is) := by simp only [emitter_bind, emitter_emit, ih, Direct.emitAll]

/-! ## Assembly is direct generation -/

/-- Assembling the script of a tree leaves the buffer, the links, the events and the result of
generating the code straight into the buffer. -/
theorem node_assemble (linkage : Linkage) (scope : Scope) (n : Node) (b : Buffer) :
    (node scope n).assemble linkage b = Direct.node linkage scope n b :=
  congrFun (emitter_node scope n) b

/-- The same, for a tree inside a frame. -/
theorem function_assemble (linkage : Linkage) (scope : Scope) (root : Node) (b : Buffer) :
    (function scope root).assemble linkage b = Direct.function linkage scope root b := by
  have made : (function scope root).emitter linkage = Direct.function linkage scope root := by
    simp only [function, Direct.function, emitter_bind, emitter_emitAll, emitter_node,
      Script.emitter_pure]
  exact congrFun made b

end Codegen

end TreeJit
