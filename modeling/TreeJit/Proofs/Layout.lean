import TreeJit.Call
import TreeJit.Proofs.Capacity
import TreeJit.Proofs.Decoding
import TreeJit.Proofs.Grammar

/-! # The instructions of a tree

What assembly leaves of a tree's script, as a list of instructions.  A script
writes jumps without a target first and fills them in at the end; here they have
their displacement from the start.

* `Script.Yields` — the script ends well and its bytes are those of the given
  instructions.  `Codegen.node_yields` is the case of a tree.
* `Layout.Compact` — every loop is short enough for its jumps.
* `Layout.level` — how far instructions move the stack down.  The code of a tree
  leaves the stack where it was.
* `compile_ok` — what is known of a function that was compiled.
-/

namespace TreeJit

open X86

namespace Layout

/-! ## Instructions -/

/-- A call of a helper. -/
def callHelper (l : Linkage) (h : Helper) : List Instr := callAbsolute (l.address (.helper h))

/-- A call of a helper on the variable's cell. -/
def callOnCell (l : Linkage) (h : Helper) : List Instr :=
  .movImm .rdi (l.address .cell) :: callHelper l h

/-- An operator on the left operand in `xmm1` and the right one in `xmm0`. -/
def applyOp (l : Linkage) (op : BinaryOp) : List Instr :=
  match Codegen.scalarOp? op with
  | some scalar => [.scalar scalar .xmm1 .xmm0, .movapd .xmm0 .xmm1]
  | none =>
    .movapd .xmm2 .xmm0 :: .movapd .xmm0 .xmm1 :: .movapd .xmm1 .xmm2 :: callHelper l .remainder

def binary (l : Linkage) (op : BinaryOp) (lhs rhs : List Instr) : List Instr :=
  lhs ++ Instr.subSp spillSlot :: .store .xmm0 :: (rhs ++
    Instr.load .xmm1 :: .addSp spillSlot :: applyOp l op)

def negate (operand : List Instr) : List Instr :=
  operand ++ [Instr.movImm .rax Double.negativeZero.bits, .movq .xmm1 .rax, .scalar .sub .xmm1 .xmm0,
    .movapd .xmm0 .xmm1]

def concat (l : Linkage) (lhs rhs : List Instr) : List Instr :=
  lhs ++ Instr.push .rax :: .subSp pushPad :: (rhs ++
    Instr.addSp pushPad :: .pop .rcx :: .mov .rsi .rax :: .mov .rdi .rcx :: callHelper l .concat)

/-- The condition of a loop up to its exit, which jumps over the given number of bytes. -/
def loopTest (cond : List Instr) (skipped : Int) : List Instr :=
  cond ++ [Instr.xorpd .xmm1 .xmm1, .ucomisd .xmm0 .xmm1, .je (Int32.ofInt skipped)]

/-- How many bytes the exit of a loop jumps over: the body and the jump back. -/
def loopTail (body : List Instr) : Nat := codeSize body + 5

/-- How many bytes a loop takes. -/
def loopSize (cond body : List Instr) : Nat := codeSize (loopTest cond 0) + loopTail body

def loop (cond body : List Instr) : List Instr :=
  loopTest cond (loopTail body) ++ (body ++ [Instr.jmp (Int32.ofInt (-loopSize cond body))])

/-! ## Trees -/

/-- Code that leaves a number in `xmm0`. -/
def number (l : Linkage) : Node → List Instr
  | .number value => [.movImm .rax value.bits, .movq .xmm0 .rax]
  | .var _ => callOnCell l .readNumber
  | .binary op lhs rhs => binary l op (number l lhs) (number l rhs)
  | .neg operand => negate (number l operand)
  | _ => []

/-- Code that leaves the address of a string in `rax`. -/
def string (l : Linkage) (first : Nat) : Node → List Instr
  | .string _ => [.movImm .rax (l.address (.literal first))]
  | .var _ => callOnCell l .readString
  | .concat lhs rhs =>
    concat l (string l first lhs) (string l (first + lhs.literals.length) rhs)
  | _ => []

/-- Code that writes a value to the variable. -/
def assign (l : Linkage) (first : Nat) (value : Node) : List Instr :=
  match value with
  | .string _ | .concat _ _ =>
    string l first value ++ Instr.mov .rsi .rax :: callOnCell l .writeString
  | _ => number l value ++ callOnCell l .writeNumber

/-- Code for a tree in a position that takes any kind of value. -/
def node (l : Linkage) (first : Nat) : Node → List Instr
  | .assign _ value => assign l first value
  | .loop cond body => loop (number l cond) (node l (first + cond.literals.length) body)
  | .string text => string l first (.string text)
  | .concat lhs rhs => string l first (.concat lhs rhs)
  | other => number l other

/-- A whole function. -/
def function (l : Linkage) (first : Nat) (root : Node) : List Instr :=
  prologue ++ (node l first root ++ epilogue)

/-- Whether the jumps of every loop in a tree reach from one end of it to the other. -/
def Compact (l : Linkage) (first : Nat) : Node → Prop
  | .loop cond body =>
    loopSize (number l cond) (node l (first + cond.literals.length) body) ≤ maxReach ∧
      Compact l (first + cond.literals.length) body
  | _ => True

theorem codeSize_loopTest (cond : List Instr) (skipped : Int) :
    codeSize (loopTest cond skipped) = codeSize (loopTest cond 0) := by
  simp [loopTest, Instr.size, Instr.encode, Instr.chunks, Instr.displacementBytes]

theorem codeSize_loop (cond body : List Instr) : codeSize (loop cond body) = loopSize cond body := by
  have jump (d : Int32) : (Instr.jmp d).size = 5 := by
    simp [Instr.size, Instr.encode, Instr.chunks, Instr.displacementBytes]
  rw [loop, codeSize_append, codeSize_append, codeSize_cons, codeSize_loopTest, jump, codeSize_nil]
  rfl

section displacements

variable {cond body : List Instr}

/-- The displacements of a loop that is in reach are what they are meant to be. -/
theorem toInt_exit (short : loopSize cond body ≤ maxReach) :
    (Int32.ofInt (loopTail body)).toInt = loopTail body := by
  have test := length_le_codeSize (loopTest cond 0)
  have positive : 0 < (loopTest cond 0).length := by simp [loopTest]
  unfold loopSize maxReach at short
  exact Int32.toInt_ofInt_of_le (by omega) (by omega)

theorem toInt_back (short : loopSize cond body ≤ maxReach) :
    (Int32.ofInt (-loopSize cond body)).toInt = -loopSize cond body := by
  unfold maxReach at short
  exact Int32.toInt_ofInt_of_le (by omega) (by omega)

end displacements

end Layout

/-! ## What scripts yield -/

/-- A script that ends well and whose bytes are those of the given instructions. -/
structure Script.Yields {α : Type} (l : Linkage) (s : Script α) (a : α) (is : List Instr) :
    Prop where
  outcome : s.outcome = .ok a
  reach : Step.AllInReach 0 s.steps
  written : Step.written l [] s.steps = encodeAll is

namespace Script.Yields

variable {α β : Type} {l : Linkage}

theorem size {s : Script α} {a : α} {is : List Instr} (h : s.Yields l a is) :
    s.size = codeSize is := by
  have length : (Step.written l [] s.steps).length = 0 + s.size := Step.length_written h.reach
  rw [h.written, Nat.zero_add] at length
  exact length.symm

theorem pure (a : α) : (Pure.pure a : Script α).Yields l a [] := ⟨rfl, trivial, rfl⟩

theorem emit (i : Instr) : (Script.emit i).Yields l () [i] :=
  ⟨rfl, ⟨trivial, trivial⟩, (List.append_nil _).symm⟩

theorem address (dst : Gpr) (symbol : Symbol) :
    (Script.address dst symbol).Yields l () [.movImm dst (l.address symbol)] :=
  ⟨rfl, ⟨trivial, trivial⟩, (List.append_nil _).symm⟩

theorem bind {s : Script α} {next : α → Script β} {a : α} {b : β} {is js : List Instr}
    (first : s.Yields l a is) (second : (next a).Yields l b js) :
    (s >>= next).Yields l b (is ++ js) := by
  change (Script.bind s next).Yields l b (is ++ js)
  rw [bind_of_ok first.outcome]
  refine ⟨second.outcome, ?_, ?_⟩
  · exact Step.allInReach_append.2 ⟨first.reach, second.reach.mono (Nat.zero_le _)⟩
  -- The second script resolves nothing in the bytes of the first one.
  · have shifted : Step.written l (encodeAll is ++ []) (next a).steps =
        encodeAll is ++ Step.written l [] (next a).steps := Step.written_append_left second.reach
    rw [List.append_nil] at shifted
    rw [Step.written_append, first.written, shifted, second.written, encodeAll_append]

theorem emitAll (is : List Instr) : (Script.emitAll is).Yields l () is := by
  induction is with
  | nil => exact pure ()
  | cons i is ih =>
    have both : (Script.emit i >>= fun _ => Script.emitAll is).Yields l () ([i] ++ is) :=
      bind (emit i) ih
    exact both

end Script.Yields

namespace Step

/-- Resolving a jump exchanges the four bytes of its displacement. -/
theorem write_resolve {l : Linkage} {before old after : List UInt8} {field target : Nat}
    (width : old.length = 4) (position : after.length + 4 = field) :
    (Step.resolve field target).write l (before ++ old ++ after) =
      before ++ Instr.displacementBytes (Int32.ofInt (displacement field target)) ++ after := by
  have start : (before ++ old ++ after).length - field = before.length := by
    simp only [List.length_append]
    omega
  have front : (before ++ old ++ after).take before.length = before := by
    rw [List.append_assoc, List.take_left]
  rw [write, start, front, List.drop_left' (by rw [List.length_append, width])]

end Step

namespace Codegen

open Script (Yields)

variable {l : Linkage}

theorem callHelper_yields (h : Helper) : (callHelper h).Yields l () (Layout.callHelper l h) :=
  .bind (.address _ _) (.emit _)

theorem callOnCell_yields (h : Helper) : (callOnCell h).Yields l () (Layout.callOnCell l h) :=
  .bind (.address _ _) (callHelper_yields h)

theorem applyOp_yields (op : BinaryOp) : (applyOp op).Yields l () (Layout.applyOp l op) := by
  cases op with
  | add | sub | mul | div => exact .bind (.emit _) (.emit _)
  | mod =>
    exact .bind (.emit _) (.bind (.emit _) (.bind (.emit _) (callHelper_yields .remainder)))

section blocks

variable {lhs rhs : Script Unit} {is js : List Instr}

theorem binary_yields (op : BinaryOp) (left : lhs.Yields l () is) (right : rhs.Yields l () js) :
    (binary op lhs rhs).Yields l () (Layout.binary l op is js) :=
  .bind left (.bind (.emit _) (.bind (.emit _) (.bind right
    (.bind (.emit _) (.bind (.emit _) (applyOp_yields op))))))

theorem negate_yields (operand : lhs.Yields l () is) :
    (negate lhs).Yields l () (Layout.negate is) :=
  .bind operand (.bind (.emit _) (.bind (.emit _) (.bind (.emit _) (.emit _))))

theorem concat_yields (left : lhs.Yields l () is) (right : rhs.Yields l () js) :
    (concat lhs rhs).Yields l () (Layout.concat l is js) :=
  .bind left (.bind (.emit _) (.bind (.emit _) (.bind right
    (.bind (.emit _) (.bind (.emit _) (.bind (.emit _) (.bind (.emit _)
      (callHelper_yields .concat))))))))

theorem loopTest_yields (test : lhs.Yields l () is) :
    (loopTest lhs).Yields l () (Layout.loopTest is 0) :=
  .bind test (.bind (.emit _) (.bind (.emit _) (.emit _)))

end blocks

/-- Resolving both jumps at the end of a loop gives the loop with its displacements. -/
theorem written_loopEnd (cond body : List Instr) :
    Step.written l (encodeAll (Layout.loopTest cond 0) ++ encodeAll body)
        (loopEnd (codeSize (Layout.loopTest cond 0)) (codeSize body)) =
      encodeAll (Layout.loop cond body) := by
  let repeated := codeSize body + (Instr.jmp 0).size
  have tail : (repeated : Int) = (Layout.loopTail body : Int) := rfl
  have je (d : Int32) : (Instr.je d).encode = [0x0F, 0x84] ++ Instr.displacementBytes d := by
    simp [Instr.encode, Instr.chunks]
  have jmp (d : Int32) : (Instr.jmp d).encode = [0xE9] ++ Instr.displacementBytes d := by
    simp [Instr.encode, Instr.chunks]
  -- `front` is all of the test but the displacement of its exit, which is written last.
  let front := encodeAll (cond ++ [Instr.xorpd .xmm1 .xmm1, .ucomisd .xmm0 .xmm1]) ++ [0x0F, 0x84]
  have exit (skipped : Int) : encodeAll (Layout.loopTest cond skipped) =
      front ++ Instr.displacementBytes (Int32.ofInt skipped) := by
    simp [Layout.loopTest, front, je]
  have exitSkipped : Step.displacement (repeated + 4) 0 = Layout.loopTail body := by
    rw [← tail, Step.displacement]
    omega
  have back : Step.displacement 4 (codeSize (Layout.loopTest cond 0) + repeated) =
      -Layout.loopSize cond body := by
    rw [Layout.loopSize, Step.displacement]
    omega
  have first : (Step.resolve (repeated + 4) 0).write l
      (encodeAll (Layout.loopTest cond 0) ++ encodeAll body ++ (Instr.jmp 0).encode) =
      encodeAll (Layout.loopTest cond (Layout.loopTail body)) ++ encodeAll body
        ++ (Instr.jmp 0).encode := by
    rw [exit, exit, List.append_assoc, Step.write_resolve (Step.length_displacementBytes _),
      exitSkipped, ← List.append_assoc]
    simp only [repeated, codeSize, Instr.size, List.length_append]
  have second : (Step.resolve 4 (codeSize (Layout.loopTest cond 0) + repeated)).write l
      (encodeAll (Layout.loopTest cond (Layout.loopTail body)) ++ encodeAll body
        ++ (Instr.jmp 0).encode) =
      encodeAll (Layout.loopTest cond (Layout.loopTail body)) ++ encodeAll body
        ++ (Instr.jmp (Int32.ofInt (-Layout.loopSize cond body))).encode := by
    have resolved : (Step.resolve 4 (codeSize (Layout.loopTest cond 0) + repeated)).write l
        (encodeAll (Layout.loopTest cond (Layout.loopTail body)) ++ encodeAll body ++ [0xE9]
          ++ Instr.displacementBytes 0 ++ []) = _ :=
      Step.write_resolve (Step.length_displacementBytes 0) rfl
    rw [back] at resolved
    simpa only [jmp, List.append_assoc, List.append_nil] using resolved
  rw [loopEnd, Step.written, Step.written, Step.written, Step.written, Step.write, first, second]
  simp only [Layout.loop, encodeAll_append, encodeAll_cons, encodeAll_nil, List.append_nil,
    List.append_assoc]

theorem loop_yields {cond : Script Unit} {body : Script ValueKind} {kind : ValueKind}
    {is js : List Instr} (orderly : (loop cond body).Orderly) (test : cond.Yields l () is)
    (repeated : body.Yields l kind js) :
    (loop cond body).Yields l () (Layout.loop is js) := by
  have tested := loopTest_yields test
  have steps := loop_of_ok test.outcome repeated.outcome
  refine ⟨by rw [steps], orderly.reach, ?_⟩
  have shifted : Step.written l (encodeAll (Layout.loopTest is 0) ++ []) body.steps =
      encodeAll (Layout.loopTest is 0) ++ Step.written l [] body.steps :=
    Step.written_append_left repeated.reach
  rw [List.append_nil] at shifted
  rw [steps, Step.written_append, tested.written, Step.written_append, shifted, repeated.written,
    tested.size, repeated.size, written_loopEnd]

theorem checkBound_yields (scope : Scope) : (checkBound scope scope.bound).Yields l () [] := by
  rw [checkBound, if_pos rfl]
  exact .pure ()

theorem number_yields (scope : Scope) {n : Node} (h : Numeric scope.bound n) :
    (number scope n).Yields l () (Layout.number l n) := by
  induction h with
  | number value => exact .bind (.emit _) (.emit _)
  | var => exact .bind (checkBound_yields scope) (callOnCell_yields .readNumber)
  | binary op _ _ left right => exact binary_yields op left right
  | neg _ ih => exact negate_yields ih

theorem string_yields (bound : String) (first : Nat) {n : Node} (h : Textual bound n) :
    (string ⟨bound, first⟩ n).Yields l () (Layout.string l first n) := by
  induction h generalizing first with
  | string text => exact .address _ _
  | var => exact .bind (checkBound_yields ⟨bound, first⟩) (callOnCell_yields .readString)
  | concat _ _ left right => exact concat_yields (left first) (right _)

end Codegen

namespace Layout

/-! ### Which code a kind of tree gets -/

variable {l : Linkage} {bound : String} {n : Node}

theorem assign_of_numeric (first : Nat) (h : Numeric bound n) :
    assign l first n = number l n ++ callOnCell l .writeNumber := by
  cases h <;> rfl

theorem assign_of_textual (first : Nat) (h : Textual bound n) (notVar : ∀ name, n ≠ .var name) :
    assign l first n = string l first n ++ Instr.mov .rsi .rax :: callOnCell l .writeString := by
  cases h with
  | var => exact absurd rfl (notVar _)
  | string _ | concat _ _ => rfl

theorem node_of_numeric (first : Nat) (h : Numeric bound n) : node l first n = number l n := by
  cases h <;> rfl

theorem node_of_textual (first : Nat) (h : Textual bound n) (notVar : ∀ name, n ≠ .var name) :
    node l first n = string l first n := by
  cases h with
  | var => exact absurd rfl (notVar _)
  | string _ | concat _ _ => rfl

end Layout

namespace Codegen

variable {l : Linkage}

theorem assign_yields_number (scope : Scope) {value : Node} (h : Numeric scope.bound value) :
    (assign scope scope.bound value).Yields l ()
      (Layout.assign l scope.firstLiteral value) := by
  have kind : value.valueKind = pure .number := by cases h <;> rfl
  have shape : assign scope scope.bound value =
      number scope value >>= fun _ => callOnCell .writeNumber := by
    rw [assign, kind, checkBound, if_pos rfl]
    rfl
  rw [Layout.assign_of_numeric _ h, shape]
  exact .bind (number_yields scope h) (callOnCell_yields .writeNumber)

theorem assign_yields_text (scope : Scope) {value : Node} (h : Textual scope.bound value)
    (notVar : ∀ name, value ≠ .var name) :
    (assign scope scope.bound value).Yields l ()
      (Layout.assign l scope.firstLiteral value) := by
  have kind : value.valueKind = pure .string := by
    cases h with
    | var => exact absurd rfl (notVar _)
    | string _ | concat _ _ => rfl
  have shape : assign scope scope.bound value = string scope value >>= fun _ =>
      Script.emit (.mov .rsi .rax) >>= fun _ => callOnCell .writeString := by
    rw [assign, kind, checkBound, if_pos rfl]
    rfl
  rw [Layout.assign_of_textual _ h notVar, shape]
  exact .bind (string_yields _ _ h) (.bind (.emit _) (callOnCell_yields .writeString))

theorem node_yields {bound : String} (first : Nat) {kind : ValueKind} {n : Node}
    (h : Compilable bound kind n) :
    (node ⟨bound, first⟩ n).Yields l kind (Layout.node l first n) := by
  induction h generalizing first with
  | @number n h =>
    have shape : node ⟨bound, first⟩ n =
        number ⟨bound, first⟩ n >>= fun _ => pure .number := by
      cases h <;> rfl
    rw [shape, Layout.node_of_numeric first h, ← List.append_nil (Layout.number l n)]
    exact .bind (number_yields _ h) (.pure _)
  | @text n h notVar =>
    have shape : node ⟨bound, first⟩ n =
        string ⟨bound, first⟩ n >>= fun _ => pure .string := by
      cases h with
      | var => exact absurd rfl (notVar _)
      | string _ | concat _ _ => rfl
    rw [shape, Layout.node_of_textual first h notVar, ← List.append_nil (Layout.string l first n)]
    exact .bind (string_yields _ _ h) (.pure _)
  | @assignNumber value h =>
    rw [node, Layout.node, ← List.append_nil (Layout.assign l first value)]
    exact .bind (assign_yields_number ⟨bound, first⟩ h) (.pure _)
  | @assignText value h notVar =>
    rw [node, Layout.node, ← List.append_nil (Layout.assign l first value)]
    exact .bind (assign_yields_text ⟨bound, first⟩ h notVar) (.pure _)
  | @loop cond body kind test repeated ih =>
    have orderly := loop_orderly (number_orderly ⟨bound, first⟩ cond)
      (node_orderly (Scope.after ⟨bound, first⟩ cond) body)
    have looped := loop_yields orderly (number_yields ⟨bound, first⟩ test) (ih _)
    rw [node, Layout.node, ← List.append_nil (Layout.loop _ _)]
    exact .bind looped (.pure _)

theorem function_yields {bound : String} (first : Nat) {kind : ValueKind} {root : Node}
    (h : Compilable bound kind root) :
    (function ⟨bound, first⟩ root).Yields l kind (Layout.function l first root) := by
  rw [function, Layout.function, ← List.append_nil epilogue]
  exact .bind (.emitAll _) (.bind (node_yields first h) (.bind (.emitAll _) (.pure _)))

theorem steps_loop {scope : Scope} {cond body : Node} {kind : ValueKind}
    (test : (number scope cond).outcome = .ok ())
    (repeated : (node (scope.after cond) body).outcome = .ok kind) :
    (node scope (.loop cond body)).steps = (loopTest (number scope cond)).steps ++
      ((node (scope.after cond) body).steps ++ loopEnd (loopTest (number scope cond)).size
        (node (scope.after cond) body).size) := by
  have ended : (loop (number scope cond) (node (scope.after cond) body)).outcome = .ok () := by
    rw [loop_of_ok test repeated]
  rw [node]
  change (Script.bind _ _).steps = _
  rw [Script.bind_of_ok ended, loop_of_ok test repeated]
  exact List.append_nil _

/-- If no jump of a tree is too far, all its loops are short. -/
theorem compact_of_near {bound : String} (first : Nat) {kind : ValueKind} {n : Node}
    (h : Compilable bound kind n) (near : ∀ step ∈ (node ⟨bound, first⟩ n).steps, step.Near) :
    Layout.Compact l first n := by
  induction h generalizing first with
  | number h => cases h <;> trivial
  | text h notVar => cases h <;> trivial
  | assignNumber _ | assignText _ _ => trivial
  | @loop cond body kind test repeated ih =>
    have tested := number_yields (l := l) ⟨bound, first⟩ test
    have looped := node_yields (l := l) (first + cond.literals.length) repeated
    rw [steps_loop tested.outcome looped.outcome] at near
    refine ⟨?_, ih _ fun step member => near step ?_⟩
    -- The jump back goes over the whole loop, so the loop is short if this jump is near.
    · have back : (Step.resolve 4 ((loopTest (number ⟨bound, first⟩ cond)).size +
          ((node ⟨bound, first + cond.literals.length⟩ body).size + 5))).Near :=
        near _ (List.mem_append_right _ (List.mem_append_right _
          (.tail _ (.tail _ (.head _)))))
      rw [(loopTest_yields tested).size, looped.size] at back
      obtain ⟨back, -⟩ := back
      unfold Step.displacement at back
      unfold Layout.loopSize Layout.loopTail maxReach
      omega
    · exact List.mem_append_right _ (List.mem_append_left _ member)

end Codegen

/-! ## How far code moves the stack -/

namespace Layout

open Machine (signedByte wordSize)

/-- How far down an instruction moves the stack pointer relative to itself. -/
def effect : Instr → Int
  | .push _ => wordSize
  | .pop _ => -wordSize
  | .subSp bytes => signedByte bytes
  | .addSp bytes => -signedByte bytes
  | _ => 0

/-- How far down instructions move the stack pointer together, when they are carried out in order. -/
def level : List Instr → Int
  | [] => 0
  | i :: is => effect i + level is

@[simp] theorem level_nil : level [] = 0 := rfl

@[simp] theorem level_cons (i : Instr) (is : List Instr) : level (i :: is) = effect i + level is :=
  rfl

@[simp] theorem level_append (first second : List Instr) :
    level (first ++ second) = level first + level second := by
  induction first with
  | nil => simp
  | cons i is ih => simp only [List.cons_append, level_cons, ih, Int.add_assoc]

variable {l : Linkage}

@[simp] theorem level_callHelper (h : Helper) : level (callHelper l h) = 0 := rfl

@[simp] theorem level_callOnCell (h : Helper) : level (callOnCell l h) = 0 := rfl

@[simp] theorem level_applyOp (op : BinaryOp) : level (applyOp l op) = 0 := by cases op <;> rfl

@[simp] theorem level_binary (op : BinaryOp) (lhs rhs : List Instr) :
    level (binary l op lhs rhs) = level lhs + level rhs := by
  simp only [binary, level_append, level_cons, effect, level_applyOp]
  omega

@[simp] theorem level_negate (operand : List Instr) : level (negate operand) = level operand := by
  simp [negate, effect]

@[simp] theorem level_concat (lhs rhs : List Instr) :
    level (concat l lhs rhs) = level lhs + level rhs := by
  simp only [concat, level_append, level_cons, effect, level_callHelper]
  omega

@[simp] theorem level_loopTest (cond : List Instr) (skipped : Int) :
    level (loopTest cond skipped) = level cond := by
  simp [loopTest, effect]

@[simp] theorem level_loop (cond body : List Instr) :
    level (loop cond body) = level cond + level body := by
  simp [loop, effect]

@[simp] theorem level_number (n : Node) : level (number l n) = 0 := by
  induction n using number.induct with
  | case1 value => rfl
  | case2 name => rfl
  | case3 op lhs rhs left right => rw [number, level_binary, left, right, Int.add_zero]
  | case4 operand ih => rw [number, level_negate, ih]
  | case5 n => simp_all [number]

@[simp] theorem level_string (first : Nat) (n : Node) : level (string l first n) = 0 := by
  induction first, n using string.induct with
  | case1 first text => rfl
  | case2 first name => rfl
  | case3 first lhs rhs left right => rw [string, level_concat, left, right, Int.add_zero]
  | case4 first n => simp_all [string]

@[simp] theorem level_assign (first : Nat) (value : Node) : level (assign l first value) = 0 := by
  unfold assign
  split <;> simp [effect]

@[simp] theorem level_node (first : Nat) (n : Node) : level (node l first n) = 0 := by
  induction first, n using node.induct with
  | case1 first name value => exact level_assign first value
  | case2 first cond body ih => rw [node, level_loop, ih, level_number, Int.add_zero]
  | case3 first text => rfl
  | case4 first lhs rhs => exact level_string first _
  | case5 first n => simp_all [node]

end Layout

/-! ## Compiled functions -/

/-- What is known of a function that was made from a tree: the tree, the function's code as
instructions, and what the code is linked to. -/
structure CompiledCode.MadeFrom (made : CompiledCode) (ctx : Context) (root : Node) : Prop where
  tree : Compilable ctx.variableName made.result root
  compact : Layout.Compact ctx.linkage ctx.firstLiteral root
  code : made.program.code.toList = encodeAll (Layout.function ctx.linkage ctx.firstLiteral root)
  linkage : made.program.linkage = ctx.linkage
  literals : made.program.literals = ⟨ctx.firstLiteral, root.literals⟩
  owns : made.ownsResult = root.isConcat

theorem Codegen.mem_function_steps {scope : Scope} {root : Node} {kind : ValueKind} {step : Step}
    (ok : (node scope root).outcome = .ok kind) (member : step ∈ (node scope root).steps) :
    step ∈ (function scope root).steps := by
  change step ∈ (Script.bind _ fun _ => Script.bind _ _).steps
  rw [Script.bind_of_ok rfl, Script.bind_of_ok ok]
  exact List.mem_append_right _ (List.mem_append_left _ member)

/-- A compilation that succeeds, at any capacity, has made the function from the tree. -/
theorem compile_ok {config : Config} {ctx : Context} {root : Node} {made : CompiledCode}
    (compiled : (compile config ctx root).result = .ok made) : made.MadeFrom ctx root := by
  unfold compile at compiled
  split at compiled
  · cases compiled
  split at compiled
  · cases compiled
  split at compiled
  · cases compiled
  rename_i b created
  dsimp only at compiled
  split at compiled
  · cases compiled
  rename_i kind assembled
  cases compiled
  -- From here on there are a buffer and an assembly that has succeeded in it.
  obtain ⟨blank, mapped⟩ := Buffer.create_ok created
  have addressable : b.capacity ≤ Region.addressSpace := by
    rw [blank]
    exact Nat.le_of_lt mapped.lt_addressSpace
  have room : b.offset ≤ b.capacity := by
    rw [blank]
    exact Nat.zero_le _
  have orderly := Codegen.function_orderly ctx.scope root
  obtain ⟨outcome, fits, near⟩ := Script.assemble_ok orderly.reach room addressable assembled
  rw [Codegen.outcome_function, ← Node.outcome_node] at outcome
  have tree : Compilable ctx.variableName kind root := Codegen.node_ok_iff.1 outcome
  have yields : (Codegen.function ctx.scope root).Yields ctx.linkage kind _ :=
    Codegen.function_yields ctx.firstLiteral tree
  obtain ⟨b', links, events, emission, appended⟩ :
      ∃ b' links events, (Codegen.function ctx.scope root).assemble ctx.linkage b = _ ∧ _ :=
    Script.assemble_of_fits orderly.reach room addressable fits near
  refine ⟨tree, ?_, ?_, rfl, rfl, rfl⟩
  · exact Codegen.compact_of_near _ tree fun step member =>
      near step (Codegen.mem_function_steps outcome member)
  · simp only [CompiledCode.program, emission]
    rw [appended.code, blank, yields.written]
    rfl

end TreeJit
