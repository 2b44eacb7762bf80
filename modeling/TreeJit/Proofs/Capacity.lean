import TreeJit.Compiler
import TreeJit.Proofs.Assembly

/-! # How much room a tree needs

A tree's script fixes, before any buffer is in sight, how the compilation ends
and how many bytes it takes to get there.  A buffer with that much room gives
this outcome, and any smaller one an overflow.

* `Script.Orderly` — what makes that true: jumps stay behind the cursor, and an
  error is a refusal of a node.  Every script of a tree is orderly.
* `Script.Alike` — scripts of the same length whose outcomes differ by a renaming
  at most.  Trees that differ in their literals and names have such scripts.
-/

namespace TreeJit

open X86 (Instr)

/-- Whether an error refuses a node, as opposed to running out of something. -/
def Error.IsRefusal : Error → Prop
  | .unsupported _ => True
  | .valueKind _ _ => True
  | .unbound _ => True
  | _ => False

/-! ## Orderly scripts -/

namespace Script

/-- A script whose jumps lie within itself and that ends in nothing worse than a refusal. -/
structure Orderly {α : Type} (s : Script α) : Prop where
  reach : Step.AllInReach 0 s.steps
  refusal : ∀ e, s.outcome = .error e → e.IsRefusal

namespace Orderly

variable {α β : Type}

theorem pure (a : α) : (Pure.pure a : Script α).Orderly := ⟨trivial, nofun⟩

theorem fail {e : Error} (h : e.IsRefusal) : (Script.fail e : Script α).Orderly :=
  ⟨trivial, fun _ equal => Except.error.inj equal ▸ h⟩

theorem emit (i : Instr) : (Script.emit i).Orderly := ⟨⟨trivial, trivial⟩, nofun⟩

theorem address (dst : X86.Gpr) (symbol : Symbol) : (Script.address dst symbol).Orderly :=
  ⟨⟨trivial, trivial⟩, nofun⟩

theorem note (event : Event) : (Script.note event).Orderly := ⟨⟨trivial, trivial⟩, nofun⟩

theorem emitAll (is : List Instr) : (Script.emitAll is).Orderly := by
  refine ⟨?_, nofun⟩
  -- Instructions refer to no place, so the cursor may stand anywhere.
  suffices h : ∀ behind, Step.AllInReach behind (is.map .emit) from h 0
  induction is with
  | nil => exact fun _ => trivial
  | cons i is ih => exact fun behind => ⟨trivial, ih _⟩

theorem bind {s : Script α} {next : α → Script β} (first : s.Orderly)
    (second : ∀ a, (next a).Orderly) : (s >>= next).Orderly := by
  change (Script.bind s next).Orderly
  cases outcome : s.outcome with
  | error e =>
    rw [bind_of_error outcome]
    exact ⟨first.reach, fun _ equal => Except.error.inj equal ▸ first.refusal e outcome⟩
  | ok a =>
    rw [bind_of_ok outcome]
    -- What the second script refers to lies within that script, so the first one is not in its way.
    refine ⟨Step.allInReach_append.2 ⟨first.reach, ?_⟩, (second a).refusal⟩
    exact (second a).reach.mono (Nat.zero_le _)

end Orderly

end Script

/-! ## Scripts of trees are orderly -/

theorem Node.reject_orderly {α : Type} (n : Node) : (n.reject : Script α).Orderly :=
  .bind (.note _) fun _ => .fail trivial

theorem Node.mismatch_orderly {α : Type} (n : Node) (expected : ValueKind) :
    (n.mismatch expected : Script α).Orderly := .fail trivial

theorem Node.valueKind_orderly (n : Node) : n.valueKind.Orderly := by
  cases n with
  | number _ | var _ | binary _ _ _ | neg _ | string _ | concat _ _ | assign _ _ | loop _ _ =>
    exact .pure _
  | compare _ _ _ | block _ | print _ | call _ _ => exact Node.reject_orderly _

namespace Codegen

open Script (Orderly)

theorem checkBound_orderly (scope : Scope) (name : String) : (checkBound scope name).Orderly := by
  unfold checkBound
  split
  · exact .pure ()
  · exact .fail trivial

theorem callHelper_orderly (h : Helper) : (callHelper h).Orderly :=
  .bind (.address _ _) fun _ => .emit _

theorem callOnCell_orderly (h : Helper) : (callOnCell h).Orderly :=
  .bind (.address _ _) fun _ => callHelper_orderly h

theorem applyOp_orderly (op : BinaryOp) : (applyOp op).Orderly := by
  cases op with
  | add | sub | mul | div => exact .bind (.emit _) fun _ => .emit _
  | mod =>
    exact .bind (.emit _) fun _ => .bind (.emit _) fun _ => .bind (.emit _) fun _ =>
      callHelper_orderly _

theorem binary_orderly (op : BinaryOp) {lhs rhs : Script Unit} (left : lhs.Orderly)
    (right : rhs.Orderly) : (binary op lhs rhs).Orderly :=
  .bind left fun _ => .bind (.emit _) fun _ => .bind (.emit _) fun _ => .bind right fun _ =>
    .bind (.emit _) fun _ => .bind (.emit _) fun _ => applyOp_orderly op

theorem negate_orderly {operand : Script Unit} (h : operand.Orderly) : (negate operand).Orderly :=
  .bind h fun _ => .bind (.emit _) fun _ => .bind (.emit _) fun _ => .bind (.emit _) fun _ =>
    .emit _

theorem concat_orderly {lhs rhs : Script Unit} (left : lhs.Orderly) (right : rhs.Orderly) :
    (concat lhs rhs).Orderly :=
  .bind left fun _ => .bind (.emit _) fun _ => .bind (.emit _) fun _ => .bind right fun _ =>
    .bind (.emit _) fun _ => .bind (.emit _) fun _ => .bind (.emit _) fun _ =>
      .bind (.emit _) fun _ => callHelper_orderly _

theorem loopTest_orderly {cond : Script Unit} (h : cond.Orderly) : (loopTest cond).Orderly :=
  .bind h fun _ => .bind (.emit _) fun _ => .bind (.emit _) fun _ => .emit _

/-- The end of a loop: the jump back, and both jumps resolved. -/
def loopEnd (test body : Nat) : List Step :=
  let repeated := body + (Instr.jmp 0).size
  [.emit (.jmp 0), .resolve (repeated + 4) 0, .resolve 4 (test + repeated)]

theorem loopTest_of_ok {cond : Script Unit} (h : cond.outcome = .ok ()) :
    loopTest cond = ⟨cond.steps ++
      [.emit (.xorpd .xmm1 .xmm1), .emit (.ucomisd .xmm0 .xmm1), .emit (.je 0)], .ok ()⟩ :=
  Script.bind_of_ok h _

theorem loop_of_ok {cond : Script Unit} {body : Script ValueKind} {kind : ValueKind}
    (hcond : cond.outcome = .ok ()) (hbody : body.outcome = .ok kind) :
    loop cond body = ⟨(loopTest cond).steps ++
      (body.steps ++ loopEnd (loopTest cond).size body.size), .ok ()⟩ := by
  have htest : (loopTest cond).outcome = .ok () := by rw [loopTest_of_ok hcond]
  change Script.bind _ (fun _ => Script.bind _ _) = _
  rw [Script.bind_of_ok htest, Script.bind_of_ok hbody]
  rfl

theorem loop_of_refusedTest {cond : Script Unit} {e : Error} (hcond : cond.outcome = .error e)
    (body : Script ValueKind) : loop cond body = ⟨cond.steps, .error e⟩ := by
  have failed : loopTest cond = ⟨cond.steps, .error e⟩ := Script.bind_of_error hcond _
  change Script.bind (loopTest cond) _ = _
  rw [failed, Script.bind_of_error rfl]

/-- No jump has been resolved yet when the body is refused. -/
theorem loop_of_refusedBody {cond : Script Unit} {body : Script ValueKind} {e : Error}
    (hcond : cond.outcome = .ok ()) (hbody : body.outcome = .error e) :
    loop cond body = ⟨(loopTest cond).steps ++ body.steps, .error e⟩ := by
  have htest : (loopTest cond).outcome = .ok () := by rw [loopTest_of_ok hcond]
  change Script.bind _ (fun _ => Script.bind _ _) = _
  rw [Script.bind_of_ok htest, Script.bind_of_error hbody]

/-- Both fields of a loop and both targets lie within the loop: the exit's field is the end of the
test, which is at least as long as the field. -/
theorem loopEnd_inReach {behind test body : Nat} (le : test + body ≤ behind) (wide : 4 ≤ test) :
    Step.AllInReach behind (loopEnd test body) := by
  have size : (Instr.jmp 0).size = 5 := rfl
  simp only [loopEnd, Step.AllInReach, Step.InReach, Step.size, size, true_and, and_true]
  omega

theorem loop_orderly {cond : Script Unit} {body : Script ValueKind} (hcond : cond.Orderly)
    (hbody : body.Orderly) : (loop cond body).Orderly := by
  have htest := loopTest_orderly hcond
  cases condOutcome : cond.outcome with
  | error e =>
    rw [loop_of_refusedTest condOutcome]
    exact ⟨hcond.reach, fun _ equal => Except.error.inj equal ▸ hcond.refusal e condOutcome⟩
  | ok _ =>
    have tested := loopTest_of_ok condOutcome
    cases bodyOutcome : body.outcome with
    | error e =>
      rw [loop_of_refusedBody condOutcome bodyOutcome]
      refine ⟨Step.allInReach_append.2 ⟨htest.reach, hbody.reach.mono (Nat.zero_le _)⟩, ?_⟩
      exact fun _ equal => Except.error.inj equal ▸ hbody.refusal e bodyOutcome
    | ok kind =>
      -- Both jumps are resolved at the end, with the whole loop behind the cursor.
      have wide : 4 ≤ (loopTest cond).size := by
        rw [tested, Script.size, Step.totalSize_append]
        exact Nat.le_trans (by decide) (Nat.le_add_left _ _)
      rw [loop_of_ok condOutcome bodyOutcome]
      refine ⟨?_, nofun⟩
      rw [Step.allInReach_append, Step.allInReach_append]
      refine ⟨htest.reach, hbody.reach.mono (Nat.zero_le _), loopEnd_inReach ?_ wide⟩
      simp only [Script.size, Nat.zero_add, Nat.le_refl]

theorem number_orderly (scope : Scope) (n : Node) : (number scope n).Orderly := by
  induction n using number.induct with
  | case1 value => exact .bind (.emit _) fun _ => .emit _
  | case2 name => exact .bind (checkBound_orderly _ _) fun _ => callOnCell_orderly _
  | case3 op lhs rhs left right => exact binary_orderly op left right
  | case4 operand ih => exact negate_orderly ih
  | case5 | case6 | case7 | case8 => exact Node.mismatch_orderly _ _
  | case9 | case10 | case11 | case12 => exact Node.reject_orderly _

theorem string_orderly (scope : Scope) (n : Node) : (string scope n).Orderly := by
  induction scope, n using string.induct with
  | case1 scope text => exact .address _ _
  | case2 scope name => exact .bind (checkBound_orderly _ _) fun _ => callOnCell_orderly _
  | case3 scope lhs rhs left right => exact concat_orderly left right
  | case4 | case5 | case6 | case7 | case8 => exact Node.mismatch_orderly _ _
  | case9 | case10 | case11 | case12 => exact Node.reject_orderly _

theorem assign_orderly (scope : Scope) (name : String) (value : Node) :
    (assign scope name value).Orderly := by
  refine .bind (checkBound_orderly _ _) fun _ => .bind (Node.valueKind_orderly _) fun kind => ?_
  cases kind with
  | number => exact .bind (number_orderly _ _) fun _ => callOnCell_orderly _
  | string =>
    exact .bind (string_orderly _ _) fun _ => .bind (.emit _) fun _ => callOnCell_orderly _
  | statement => exact Node.mismatch_orderly _ _

theorem node_orderly (scope : Scope) (n : Node) : (node scope n).Orderly := by
  induction scope, n using node.induct with
  | case1 scope name value => exact .bind (assign_orderly _ _ _) fun _ => .pure _
  | case2 scope cond body ih =>
    exact .bind (loop_orderly (number_orderly _ _) ih) fun _ => .pure _
  | case3 scope n notAssign notLoop =>
    rw [node]
    · refine .bind (Node.valueKind_orderly _) fun kind => ?_
      cases kind with
      | number => exact .bind (number_orderly _ _) fun _ => .pure _
      | string => exact .bind (string_orderly _ _) fun _ => .pure _
      | statement => exact .bind (Node.mismatch_orderly _ _) fun _ => .pure _
    · exact notAssign
    · exact notLoop

theorem function_orderly (scope : Scope) (root : Node) : (function scope root).Orderly :=
  .bind (.emitAll _) fun _ => .bind (node_orderly _ _) fun _ => .bind (.emitAll _) fun _ => .pure _

end Codegen

/-! ## Trees that differ in their literals and names -/

/-- Other literals and names for those of a tree. -/
structure Relabeling where
  number : Double → Double
  text : Text → Text
  name : String → String

mutual

/-- A tree with other literals and names in the same places. -/
def Node.relabel (f : Relabeling) : Node → Node
  | .number value => .number (f.number value)
  | .string text => .string (f.text text)
  | .var name => .var (f.name name)
  | .assign name value => .assign (f.name name) (value.relabel f)
  | .binary op lhs rhs => .binary op (lhs.relabel f) (rhs.relabel f)
  | .neg operand => .neg (operand.relabel f)
  | .concat lhs rhs => .concat (lhs.relabel f) (rhs.relabel f)
  | .loop cond body => .loop (cond.relabel f) (body.relabel f)
  | .compare op lhs rhs => .compare op (lhs.relabel f) (rhs.relabel f)
  | .block items => .block (relabelAll f items)
  | .print items => .print (relabelAll f items)
  | .call name args => .call (f.name name) (relabelAll f args)

/-- Trees that stand side by side, with other literals and names. -/
def relabelAll (f : Relabeling) : List Node → List Node
  | [] => []
  | node :: nodes => node.relabel f :: relabelAll f nodes

end

/-- A tree with all its literals wiped out. -/
def Node.withoutLiterals (n : Node) : Node := n.relabel ⟨fun _ => .zero, fun _ => .empty, id⟩

/-- All that is left of a tree without its literals and names: the kinds of its nodes, and of each
name whether it is the bound one. -/
def Node.skeleton (bound : String) (n : Node) : Node :=
  n.relabel ⟨fun _ => .zero, fun _ => .empty, fun name => if name = bound then "bound" else "free"⟩

/-- The error with another name for the variable that it is about. -/
def Error.rename (name : String → String) : Error → Error
  | .unbound x => .unbound (name x)
  | e => e

/-- Scripts of the same length, whose outcomes are the same up to a renaming of errors. -/
structure Script.Alike {α : Type} (rename : Error → Error) (s t : Script α) : Prop where
  size : t.size = s.size
  outcome : t.outcome = s.outcome.mapError rename

namespace Script.Alike

variable {α β : Type} {rename : Error → Error}

theorem pure (a : α) : (Pure.pure a : Script α).Alike rename (Pure.pure a) := ⟨rfl, rfl⟩

theorem emit (i j : Instr) (size : j.size = i.size) :
    (Script.emit i).Alike rename (Script.emit j) := ⟨congrArg (· + 0) size, rfl⟩

theorem address (dst : X86.Gpr) (a b : Symbol) :
    (Script.address dst a).Alike rename (Script.address dst b) := ⟨rfl, rfl⟩

theorem resolve (field target field' target' : Nat) :
    (Script.resolve field target).Alike rename (Script.resolve field' target') := ⟨rfl, rfl⟩

theorem bind {s t : Script α} {next next' : α → Script β} (first : s.Alike rename t)
    (second : ∀ a, (next a).Alike rename (next' a)) :
    (s >>= next).Alike rename (t >>= next') := by
  change (Script.bind s next).Alike rename (Script.bind t next')
  cases outcome : s.outcome with
  | error e =>
    have outcome' : t.outcome = .error (rename e) := by rw [first.outcome, outcome]; rfl
    rw [bind_of_error outcome, bind_of_error outcome']
    exact ⟨first.size, rfl⟩
  | ok a =>
    have outcome' : t.outcome = .ok a := by rw [first.outcome, outcome]; rfl
    rw [bind_of_ok outcome, bind_of_ok outcome']
    refine ⟨?_, (second a).outcome⟩
    simp only [Script.size, Step.totalSize_append]
    rw [show Step.totalSize t.steps = Step.totalSize s.steps from first.size]
    exact congrArg (Step.totalSize s.steps + ·) (second a).size

end Script.Alike

namespace Codegen

open Script (Alike)

variable {f : Relabeling} {scope scope' : Scope}

theorem reject_alike {α : Type} (n n' : Node) (kind : n'.kind = n.kind) :
    (n.reject : Script α).Alike (Error.rename f.name) n'.reject := by
  unfold Node.reject
  rw [kind]
  exact ⟨rfl, rfl⟩

theorem mismatch_alike {α : Type} (n n' : Node) (kind : n'.kind = n.kind) (expected : ValueKind) :
    (n.mismatch expected : Script α).Alike (Error.rename f.name) (n'.mismatch expected) := by
  unfold Node.mismatch
  rw [kind]
  exact ⟨rfl, rfl⟩

theorem valueKind_alike (n : Node) :
    n.valueKind.Alike (Error.rename f.name) (n.relabel f).valueKind := by
  cases n with
  | number _ | var _ | binary _ _ _ | neg _ | string _ | concat _ _ | assign _ _ | loop _ _ =>
    exact .pure _
  | compare _ _ _ | block _ | print _ | call _ _ => exact reject_alike _ _ rfl

theorem checkBound_alike (name : String) (bound : f.name name = scope'.bound ↔ name = scope.bound) :
    (checkBound scope name).Alike (Error.rename f.name) (checkBound scope' (f.name name)) := by
  unfold checkBound
  by_cases h : name = scope.bound
  · rw [if_pos h, if_pos (bound.2 h)]
    exact .pure ()
  · rw [if_neg h, if_neg (fun h' => h (bound.1 h'))]
    exact ⟨rfl, rfl⟩

section blocks

variable {rename : Error → Error} {s t s' t' : Script Unit}

theorem alike_self (h : s.outcome = .ok ()) : s.Alike rename s := ⟨rfl, by rw [h]; rfl⟩

theorem binary_alike (op : BinaryOp) (left : s.Alike rename s') (right : t.Alike rename t') :
    (binary op s t).Alike rename (binary op s' t') :=
  .bind left fun _ => .bind (.emit _ _ rfl) fun _ => .bind (.emit _ _ rfl) fun _ =>
    .bind right fun _ => .bind (.emit _ _ rfl) fun _ => .bind (.emit _ _ rfl) fun _ =>
      alike_self (by cases op <;> rfl)

theorem negate_alike (h : s.Alike rename s') : (negate s).Alike rename (negate s') :=
  .bind h fun _ => alike_self rfl

theorem concat_alike (left : s.Alike rename s') (right : t.Alike rename t') :
    (concat s t).Alike rename (concat s' t') :=
  .bind left fun _ => .bind (.emit _ _ rfl) fun _ => .bind (.emit _ _ rfl) fun _ =>
    .bind right fun _ => alike_self rfl

theorem loop_alike {body body' : Script ValueKind} (hcond : s.Alike rename s')
    (hbody : body.Alike rename body') : (loop s body).Alike rename (loop s' body') :=
  .bind (.bind hcond fun _ => alike_self rfl) fun _ => .bind hbody fun _ =>
    .bind (.emit _ _ rfl) fun _ => .bind (.resolve _ _ _ _) fun _ => .resolve _ _ _ _

end blocks

theorem number_alike (bound : ∀ name, f.name name = scope'.bound ↔ name = scope.bound) (n : Node) :
    (number scope n).Alike (Error.rename f.name) (number scope' (n.relabel f)) := by
  induction n using number.induct with
  | case1 value => exact .bind (.emit _ _ rfl) fun _ => .emit _ _ rfl
  | case2 name => exact .bind (checkBound_alike name (bound name)) fun _ => alike_self rfl
  | case3 op lhs rhs left right => exact binary_alike op left right
  | case4 operand ih => exact negate_alike ih
  | case5 | case6 | case7 | case8 => exact mismatch_alike _ _ rfl _
  | case9 | case10 | case11 | case12 => exact reject_alike _ _ rfl

theorem string_alike (bound : ∀ name, f.name name = scope'.bound ↔ name = scope.bound) (n : Node) :
    (string scope n).Alike (Error.rename f.name) (string scope' (n.relabel f)) := by
  induction scope, n using string.induct generalizing scope' with
  | case1 scope text => exact .address _ _ _
  | case2 scope name => exact .bind (checkBound_alike name (bound name)) fun _ => alike_self rfl
  | case3 scope lhs rhs left right => exact concat_alike (left bound) (right bound)
  | case4 | case5 | case6 | case7 | case8 => exact mismatch_alike _ _ rfl _
  | case9 | case10 | case11 | case12 => exact reject_alike _ _ rfl

theorem assign_alike (bound : ∀ name, f.name name = scope'.bound ↔ name = scope.bound)
    (name : String) (value : Node) :
    (assign scope name value).Alike (Error.rename f.name)
      (assign scope' (f.name name) (value.relabel f)) := by
  refine .bind (checkBound_alike name (bound name)) fun _ =>
    .bind (valueKind_alike value) fun kind => ?_
  cases kind with
  | number => exact .bind (number_alike bound value) fun _ => alike_self rfl
  | string => exact .bind (string_alike bound value) fun _ => alike_self rfl
  | statement => exact mismatch_alike _ _ (by cases value <;> rfl) _

theorem node_alike (bound : ∀ name, f.name name = scope'.bound ↔ name = scope.bound) (n : Node) :
    (node scope n).Alike (Error.rename f.name) (node scope' (n.relabel f)) := by
  induction scope, n using node.induct generalizing scope' with
  | case1 scope name value => exact .bind (assign_alike bound name value) fun _ => .pure _
  | case2 scope cond body ih =>
    exact .bind (loop_alike (number_alike bound cond) (ih bound)) fun _ => .pure _
  | case3 scope n notAssign notLoop =>
    have kind : (n.relabel f).kind = n.kind := by cases n <;> rfl
    -- A relabeled tree has the constructor of the tree, so the same equation of `node` applies.
    have notAssign' : ∀ name value, n.relabel f = .assign name value → False := by
      cases n <;> simp_all [Node.relabel]
    have notLoop' : ∀ cond body, n.relabel f = .loop cond body → False := by
      cases n <;> simp_all [Node.relabel]
    rw [node, node]
    · refine .bind (valueKind_alike n) fun kind => ?_
      cases kind with
      | number => exact .bind (number_alike bound n) fun _ => .pure _
      | string => exact .bind (string_alike bound n) fun _ => .pure _
      | statement => exact .bind (mismatch_alike _ _ ‹_› _) fun _ => .pure _
    · exact notAssign'
    · exact notLoop'
    · exact notAssign
    · exact notLoop

end Codegen

/-! ## Outcome and room, from the tree alone -/

namespace Node

/-- How the compilation of a tree ends where there is room. -/
def verdict (bound : String) (n : Node) : Except Error ValueKind :=
  (Codegen.node ⟨bound, 0⟩ n).outcome

/-- How many bytes the compilation of a tree writes where there is room. -/
def extent (bound : String) (n : Node) : Nat := (Codegen.node ⟨bound, 0⟩ n).size

theorem mapError_rename_id {α : Type} (r : Except Error α) : r.mapError (Error.rename id) = r := by
  cases r with
  | ok _ => rfl
  | error e => cases e <;> rfl

theorem verdict_withoutLiterals (scope : Codegen.Scope) (n : Node) :
    n.withoutLiterals.verdict scope.bound = (Codegen.node scope n).outcome := by
  let wiped : Relabeling := ⟨fun _ => .zero, fun _ => .empty, id⟩
  have alike : (Codegen.node scope n).Alike (Error.rename wiped.name)
      (Codegen.node ⟨scope.bound, 0⟩ (n.relabel wiped)) := by
    apply Codegen.node_alike
    exact fun _ => Iff.rfl
  exact alike.outcome.trans (mapError_rename_id _)

theorem extent_skeleton (scope : Codegen.Scope) (n : Node) :
    (n.skeleton scope.bound).extent "bound" = (Codegen.node scope n).size := by
  refine (Codegen.node_alike (fun name => ?_) n).size
  by_cases h : name = scope.bound <;> simp [h]

/-- The number of a tree's first literal makes no difference to the outcome. -/
theorem outcome_node (scope : Codegen.Scope) (n : Node) :
    (Codegen.node scope n).outcome = n.verdict scope.bound := by
  rw [← verdict_withoutLiterals scope, verdict_withoutLiterals ⟨scope.bound, 0⟩, verdict]

/-- The number of a tree's first literal makes no difference to the size. -/
theorem size_node (scope : Codegen.Scope) (n : Node) :
    (Codegen.node scope n).size = n.extent scope.bound := by
  rw [← extent_skeleton scope, extent_skeleton ⟨scope.bound, 0⟩, extent]

theorem isRefusal_of_verdict {bound : String} {n : Node} {e : Error}
    (h : n.verdict bound = .error e) : e.IsRefusal :=
  (Codegen.node_orderly ⟨bound, 0⟩ n).refusal e h

end Node

/-- How an assembly of `count` bytes at the cursor of `b` ends.  If there is room, it gives the
outcome and the cursor stands behind the bytes.  If not, a write among them overflows, and the cursor
stands where that write would have begun. -/
structure Buffer.Settles {α : Type} (b : Buffer) (count : Nat) (outcome : Except Error α)
    (made : Emission α) : Prop where
  fits : b.offset + count ≤ b.capacity →
    made.result = outcome ∧ made.buffer.offset = b.offset + count
  exceeds : b.capacity < b.offset + count → ∃ offset length,
    made.result = .error (.overflow offset length b.capacity) ∧ made.buffer.offset = offset ∧
      b.offset ≤ offset ∧ offset ≤ b.capacity ∧ b.capacity < offset + length ∧
      offset + length ≤ b.offset + count

theorem Script.Orderly.settles {α : Type} {s : Script α} {b : Buffer} (h : s.Orderly)
    (linkage : Linkage) (room : b.offset ≤ b.capacity) (small : b.capacity ≤ maxReach) :
    b.Settles s.size s.outcome (s.assemble linkage b) := by
  constructor
  · intro fits
    have near := h.reach.near (by rw [← Script.size]; omega)
    have addressable : b.capacity ≤ Region.addressSpace := Nat.le_trans small (by decide)
    obtain ⟨b', links, events, made, appended⟩ := assemble_of_fits h.reach room addressable fits near
    have length : (Step.written linkage [] s.steps).length = 0 + s.size :=
      Step.length_written h.reach
    rw [made]
    exact ⟨rfl, by rw [appended.offset, length, Nat.zero_add]⟩
  · intro exceeds
    obtain ⟨b', links, events, e, made, overflows⟩ := assemble_of_exceeds h.reach room small exceeds
    rw [made]
    obtain ⟨first, room', exceeds', last, -⟩ := overflows
    exact ⟨b'.offset, _, rfl, rfl, first, room', exceeds', last⟩

theorem Buffer.Settles.overflows_iff {α : Type} {b : Buffer} {count : Nat}
    {outcome : Except Error α} {made : Emission α} (h : b.Settles count outcome made)
    (refusal : ∀ e, outcome = .error e → e.IsRefusal) :
    (∃ e, made.result = .error e ∧ e.isOverflow) ↔ b.capacity < b.offset + count := by
  constructor
  · rintro ⟨e, result, overflow⟩
    rcases Nat.lt_or_ge b.capacity (b.offset + count) with exceeds | fits
    · exact exceeds
    -- There is room, so the error comes from the tree, and a refusal is no overflow.
    · rw [(h.fits fits).1] at result
      have refused := refusal e result
      cases e <;> cases refused <;> cases overflow
  · intro exceeds
    obtain ⟨offset, length, result, -⟩ := h.exceeds exceeds
    exact ⟨_, result, rfl⟩

/-! ## Whole functions -/

namespace Codegen

/-- How many bytes a function takes: its prologue, the tree's code, and its epilogue unless the tree
was refused before. -/
def functionExtent (bound : String) (root : Node) : Nat :=
  4 + root.extent bound + if (root.verdict bound).isOk then 5 else 0

theorem outcome_function (scope : Scope) (root : Node) :
    (function scope root).outcome = root.verdict scope.bound := by
  rw [← Node.outcome_node]
  change (Script.bind _ fun _ => Script.bind _ _).outcome = _
  rw [Script.bind_of_ok rfl]
  -- The prologue and the epilogue cannot be refused.
  cases outcome : (node scope root).outcome with
  | error e => rw [Script.bind_of_error outcome]
  | ok kind =>
    rw [Script.bind_of_ok outcome]
    rfl

theorem size_function (scope : Scope) (root : Node) :
    (function scope root).size = functionExtent scope.bound root := by
  rw [functionExtent, ← Node.size_node, ← Node.outcome_node]
  change Script.size (Script.bind _ fun _ => Script.bind _ _) = _
  rw [Script.bind_of_ok rfl]
  cases outcome : (node scope root).outcome with
  | error e =>
    rw [Script.bind_of_error outcome]
    simp only [Script.size, Step.totalSize_append]
    rfl
  | ok kind =>
    rw [Script.bind_of_ok outcome]
    simp only [Script.size, Step.totalSize_append]
    rw [Nat.add_assoc]
    rfl

end Codegen

section compile

variable {config : Config} {ctx : Context} {root : Node} {b : Buffer}

theorem compile_of_refused {e : Error} (enabled : config.enabled)
    (created : Buffer.create config.capacity ctx.memory = .ok b)
    (refused : ((Codegen.function ctx.scope root).assemble ctx.linkage b).result = .error e) :
    (compile config ctx root).result = .error e := by
  simp [compile, enabled, nativeSupported, created, refused]

theorem compile_of_assembled {kind : ValueKind} (enabled : config.enabled)
    (created : Buffer.create config.capacity ctx.memory = .ok b)
    (assembled : ((Codegen.function ctx.scope root).assemble ctx.linkage b).result = .ok kind) :
    ∃ made, (compile config ctx root).result = .ok made ∧ made.result = kind ∧
      made.code.size = ((Codegen.function ctx.scope root).assemble ctx.linkage b).buffer.offset := by
  simp [compile, enabled, nativeSupported, created, assembled]

theorem function_settles (config : Config) (ctx : Context) (root : Node)
    (small : config.capacity ≤ maxReach) :
    (Buffer.mk ⟨config.capacity, #[]⟩ 0).Settles (Codegen.functionExtent ctx.variableName root)
      (root.verdict ctx.variableName)
      ((Codegen.function ctx.scope root).assemble ctx.linkage ⟨⟨config.capacity, #[]⟩, 0⟩) := by
  have settles := (Codegen.function_orderly ctx.scope root).settles ctx.linkage
    (b := ⟨⟨config.capacity, #[]⟩, 0⟩) (Nat.zero_le _) small
  rw [Codegen.size_function, Codegen.outcome_function] at settles
  exact settles

/-- A tree that is not refused is compiled where there is room for its function. -/
theorem compile_of_fits {kind : ValueKind} (enabled : config.enabled) (positive : 0 < config.capacity)
    (small : config.capacity ≤ maxReach) (mapped : ctx.memory.Maps config.capacity)
    (verdict : root.verdict ctx.variableName = .ok kind)
    (fits : Codegen.functionExtent ctx.variableName root ≤ config.capacity) :
    ∃ made, (compile config ctx root).result = .ok made ∧ made.result = kind ∧
      made.code.size = Codegen.functionExtent ctx.variableName root := by
  obtain ⟨result, cursor⟩ :=
    (function_settles config ctx root small).fits ((Nat.zero_add _).symm ▸ fits)
  obtain ⟨made, compiled, sameKind, length⟩ :=
    compile_of_assembled enabled (Buffer.create_of_mapped positive mapped) (result.trans verdict)
  exact ⟨made, compiled, sameKind, by rw [length, cursor]; exact Nat.zero_add _⟩

end compile

end TreeJit
