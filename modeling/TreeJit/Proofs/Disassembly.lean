import TreeJit.Proofs.BoundedBytes
import TreeJit.Proofs.Layout
import TreeJit.Proofs.Relocation
import TreeJit.Proofs.Reports

/-! # What was written can be read off the bytes

A linear sweep over code finds the instructions that were meant, although
immediates and displacements may hold any bytes.  `X86.decode_encode` says so of
one instruction; what is added here is how instructions get into a buffer.

* `Workbench.MeansAll` — the instructions that a sequence of orders to the
  encoder stands for.  A jump is written without a target, and a later order
  fills it in.
* `Step.Spells` — steps of assembly whose bytes are those of instructions that
  they have written themselves, up to displacements.  Every script of a tree has
  such steps, also one that ends with a refusal (`Script.Spelled.hereditary`).
* `code_decodes_uniquely` — both kinds of code decode to what was meant.
-/

namespace TreeJit

open X86

namespace X86

/-! ## Jumps and their displacements -/

/-- A jump with another displacement. -/
def Instr.aimed? (d : Int32) : Instr → Option Instr
  | .je _ => some (.je d)
  | .jmp _ => some (.jmp d)
  | _ => none

/-- An instruction as it is written first: a jump has no target then. -/
def Instr.untargeted : Instr → Instr
  | .je _ => .je 0
  | .jmp _ => .jmp 0
  | i => i

/-- The displacement is the last part of a jump, and all that another displacement changes. -/
theorem Instr.encode_of_aimed {i j : Instr} {d : Int32} (aimed : i.aimed? d = some j) :
    ∃ opcode old : List UInt8, i.encode = opcode ++ old ∧ old.length = 4 ∧
      opcode.length = i.size - 4 ∧ j.encode = opcode ++ displacementBytes d := by
  cases i with
  | je old =>
    cases aimed
    exact ⟨[0x0F, 0x84], displacementBytes old, by simp [encode, chunks], by simp, by
      simp [size, encode, chunks], by simp [encode, chunks]⟩
  | jmp old =>
    cases aimed
    exact ⟨[0xE9], displacementBytes old, by simp [encode, chunks], by simp, by
      simp [size, encode, chunks], by simp [encode, chunks]⟩
  | _ => cases aimed

theorem encodeAll_injective {is js : List Instr} (same : encodeAll is = encodeAll js) :
    is = js := by
  have read := decodeAll_encodeAll is
  rw [same, decodeAll_encodeAll] at read
  exact (Option.some.inj read).symm

theorem flatten_flatMap_chunks (is : List Instr) :
    (is.flatMap Instr.chunks).flatten = encodeAll is := by
  induction is with
  | nil => rfl
  | cons i is ih => rw [List.flatMap_cons, List.flatten_append, ih, encodeAll_cons, Instr.encode]

end X86

/-! ## Orders to the encoder -/

namespace Workbench

/-- `Means is order js`: after the instructions `is`, the order makes the instructions `js` of them.
Instructions are added at the end, and a patch at the displacement of a jump gives that jump another
one. -/
inductive Means : List Instr → Order → List Instr → Prop where
  | instrs (is sequence : List Instr) : Means is (.instrs sequence) (is ++ sequence)
  | nop (is : List Instr) : Means is .nop (is ++ [.nop])
  | je (is : List Instr) : Means is .je (is ++ [.je 0])
  | jmp (is : List Instr) : Means is .jmp (is ++ [.jmp 0])
  | patch {before after : List Instr} {i j : Instr} {field : Nat} {value : Int32}
      (place : field = codeSize before + (i.size - 4)) (aimed : i.aimed? value = some j) :
      Means (before ++ i :: after) (.patch field value) (before ++ j :: after)
  | patchJump {before after : List Instr} {i j : Instr} {field target : Nat}
      (place : field = codeSize before + (i.size - 4))
      (aimed : i.aimed? (Int32.ofInt (Buffer.distance field target)) = some j) :
      Means (before ++ i :: after) (.patchJump field target) (before ++ j :: after)

/-- The instructions that orders to the encoder make one after the other. -/
inductive MeansAll : List Instr → List Order → List Instr → Prop where
  | nil (is : List Instr) : MeansAll is [] is
  | cons {is js ks : List Instr} {order : Order} {rest : List Order} (first : Means is order js)
      (others : MeansAll js rest ks) : MeansAll is (order :: rest) ks

end Workbench

open Workbench (Order)

namespace ByteList

variable {capacity : Nat} {l l' : ByteList capacity}

theorem overwrite_middle (before old after others : List UInt8)
    (same : others.length = old.length) :
    overwrite (before ++ old ++ after) before.length others = before ++ others ++ after := by
  apply List.ext_getElem?
  intro i
  simp only [overwrite, List.getElem?_mapIdx, List.getElem?_append, List.length_append, same,
    List.getD_eq_getElem?_getD]
  by_cases front : i < before.length
  · have inside : i < before.length + old.length := by omega
    simp [front, inside, Nat.not_le.2 front]
  · have behind : before.length ≤ i := by omega
    by_cases middle : i < before.length + old.length
    · have inside : i - before.length < old.length := by omega
      have inside' : i - before.length < others.length := by omega
      simp [front, middle, behind, inside, inside']
    · have outside : others.length ≤ i - before.length := by omega
      simp [middle, behind, outside]

/-- A patch at the displacement of a jump gives the code with the other jump. -/
theorem overwrite_aimed {before after : List Instr} {i j : Instr} {d : Int32}
    (aimed : i.aimed? d = some j) :
    overwrite (encodeAll (before ++ i :: after)) (codeSize before + (i.size - 4))
      (Instr.displacementBytes d) = encodeAll (before ++ j :: after) := by
  obtain ⟨opcode, old, encoded, width, start, other⟩ := Instr.encode_of_aimed aimed
  have place : codeSize before + (i.size - 4) = (encodeAll before ++ opcode).length := by
    rw [List.length_append, start]
    rfl
  have middle := overwrite_middle (encodeAll before ++ opcode) old (encodeAll after)
    (Instr.displacementBytes d) (by rw [Step.length_displacementBytes, width])
  rw [place]
  simpa only [encodeAll_append, encodeAll_cons, encoded, other, List.append_assoc] using middle

theorem edit_of_aim {field target : Nat} (ok : l.edit (.aim field target) = .ok l') :
    l.edit (.patch field (Int32.ofInt (Buffer.distance field target))) = .ok l' := by
  unfold Edit.aim at ok
  dsimp only at ok
  split at ok
  · exact ok
  · cases ok

theorem bytes_of_patch {start : Nat} {value : Int32} (ok : l.edit (.patch start value) = .ok l') :
    l'.bytes = overwrite l.bytes start (Instr.displacementBytes value) := by
  simp only [edit] at ok
  split at ok
  · cases ok
    rfl
  · cases ok

theorem editAll_of_obey {linkage : Linkage} {scope : Codegen.Scope} {order : Order}
    (ok : (l.obey linkage scope order).2.isOk) :
    editAll (order.edits linkage scope l.bytes.length) l =
      ((l.obey linkage scope order).1, .ok ()) := by
  unfold obey at ok ⊢
  cases edited : editAll (order.edits linkage scope l.bytes.length) l with
  | mk l' ended =>
    rw [edited] at ok
    cases ended with
    | ok _ => rfl
    | error e => cases ok

theorem bytes_of_instr {is : List Instr} {i : Instr} (held : l.bytes = encodeAll is)
    (edited : editAll (i.chunks.map .append) l = (l', .ok ())) :
    l'.bytes = encodeAll (is ++ [i]) := by
  rw [bytes_of_chunks edited, held, encodeAll_append, encodeAll_cons, encodeAll_nil,
    List.append_nil, Instr.encode]

/-- An order that goes through turns the code of the instructions before it into the code of those
that it means. -/
theorem bytes_of_means {is js : List Instr} {order : Order} {linkage : Linkage}
    {scope : Codegen.Scope} (means : Workbench.Means is order js) (held : l.bytes = encodeAll is)
    (ok : (l.obey linkage scope order).2.isOk) :
    (l.obey linkage scope order).1.bytes = encodeAll js := by
  have edited := editAll_of_obey ok
  cases means with
  | instrs _ sequence =>
    rw [bytes_of_chunks edited, held, flatten_flatMap_chunks, encodeAll_append]
  | nop => exact bytes_of_instr held edited
  | je => exact bytes_of_instr held edited
  | jmp => exact bytes_of_instr held edited
  | patch place aimed =>
    rw [bytes_of_patch (editAll_singleton edited), held, place, overwrite_aimed aimed]
  | @patchJump before after i j field target place aimed =>
    have patched := bytes_of_patch (edit_of_aim (editAll_singleton edited))
    rw [patched, held]
    rw [← overwrite_aimed aimed, ← place]

/-- Orders that all go through leave the code of the instructions that they mean. -/
theorem bytes_of_meansAll {is js : List Instr} {orders : List Order} {linkage : Linkage}
    {scope : Codegen.Scope} (means : Workbench.MeansAll is orders js)
    (held : l.bytes = encodeAll is)
    (ok : ∀ reply ∈ (l.obeyAll linkage scope orders).2, reply.isOk) :
    (l.obeyAll linkage scope orders).1.bytes = encodeAll js := by
  induction means generalizing l scope with
  | nil is => exact held
  | cons first others ih =>
    simp only [obeyAll, List.forall_mem_cons] at ok
    exact ih (bytes_of_means first held ok.1) ok.2

end ByteList

/-! ## Steps of assembly -/

namespace Step

/-- The instruction that a step writes. -/
def instr? (l : Linkage) : Step → Option Instr
  | .emit i => some i
  | .address dst symbol => some (.movImm dst (l.address symbol))
  | _ => none

/-- `Spells l steps is`: steps that leave the code of the instructions `is`, which are those that
they have written themselves, apart from the displacements of jumps. -/
structure Spells (l : Linkage) (steps : List Step) (is : List Instr) : Prop where
  written : written l [] steps = encodeAll is
  instrs : is.map Instr.untargeted = (steps.filterMap (instr? l)).map Instr.untargeted

namespace Spells

variable {l : Linkage}

theorem nil : Spells l [] [] := ⟨rfl, rfl⟩

theorem note (event : Event) : Spells l [.note event] [] := ⟨rfl, rfl⟩

theorem emit (i : Instr) : Spells l [.emit i] [i] := ⟨(List.append_nil _).symm, rfl⟩

theorem address (dst : Gpr) (symbol : Symbol) :
    Spells l [.address dst symbol] [.movImm dst (l.address symbol)] :=
  ⟨(List.append_nil _).symm, rfl⟩

theorem append {first second : List Step} {is js : List Instr} (h : Spells l first is)
    (reach : AllInReach 0 second) (h' : Spells l second js) :
    Spells l (first ++ second) (is ++ js) := by
  constructor
  · have shifted : Step.written l (encodeAll is ++ []) second =
        encodeAll is ++ Step.written l [] second := written_append_left reach
    rw [List.append_nil] at shifted
    rw [written_append, h.written, shifted, h'.written, encodeAll_append]
  · rw [List.map_append, List.filterMap_append, List.map_append, h.instrs, h'.instrs]

theorem totalSize {steps : List Step} {is : List Instr} (h : Spells l steps is)
    (reach : AllInReach 0 steps) : Step.totalSize steps = codeSize is := by
  have length : (Step.written l [] steps).length = 0 + Step.totalSize steps := length_written reach
  rw [h.written, Nat.zero_add] at length
  exact length.symm

end Spells

end Step

/-- A script in order whose steps spell instructions. -/
def Script.Spelled {α : Type} (l : Linkage) (s : Script α) : Prop :=
  s.Orderly ∧ ∃ is, Step.Spells l s.steps is

namespace Script.Spelled

variable {l : Linkage} {α β : Type}

theorem bind {s : Script α} {next : α → Script β} (first : s.Spelled l)
    (second : ∀ a, (next a).Spelled l) : (s >>= next).Spelled l := by
  refine ⟨.bind first.1 fun a => (second a).1, ?_⟩
  change ∃ is, Step.Spells l (Script.bind s next).steps is
  obtain ⟨orderly, is, spells⟩ := first
  cases outcome : s.outcome with
  | error e =>
    rw [bind_of_error outcome]
    exact ⟨is, spells⟩
  | ok a =>
    obtain ⟨orderly', js, spells'⟩ := second a
    rw [bind_of_ok outcome]
    exact ⟨is ++ js, spells.append orderly'.reach spells'⟩

theorem loopTest {cond : Script Unit} {is : List Instr} (ok : cond.outcome = .ok ())
    (spells : Step.Spells l cond.steps is) :
    Step.Spells l (Codegen.loopTest cond).steps (Layout.loopTest is 0) := by
  have compare : Step.Spells l ([.emit (.xorpd .xmm1 .xmm1)] ++ ([.emit (.ucomisd .xmm0 .xmm1)]
      ++ [.emit (.je 0)])) ([.xorpd .xmm1 .xmm1] ++ ([.ucomisd .xmm0 .xmm1] ++ [.je 0])) :=
    (Step.Spells.emit _).append ⟨trivial, trivial, trivial⟩
      ((Step.Spells.emit _).append ⟨trivial, trivial⟩ (.emit _))
  rw [Codegen.loopTest_of_ok ok]
  exact spells.append ⟨trivial, trivial, trivial, trivial⟩ compare

/-- The end of a loop writes the jump back and resolves both jumps, and only displacements differ
from what was written first. -/
theorem loopEnd {test body : List Step} {is js : List Instr} (reach : Step.AllInReach 0 test)
    (reach' : Step.AllInReach 0 body) (spells : Step.Spells l test (Layout.loopTest is 0))
    (spells' : Step.Spells l body js) :
    Step.Spells l (test ++ (body ++
      Codegen.loopEnd (Step.totalSize test) (Step.totalSize body))) (Layout.loop is js) := by
  have front := spells.append reach' spells'
  rw [← List.append_assoc]
  constructor
  · rw [Step.written_append, front.written, spells.totalSize reach, spells'.totalSize reach',
      encodeAll_append, Codegen.written_loopEnd]
  · have same : (Layout.loop is js).map Instr.untargeted =
        (Layout.loopTest is 0 ++ js).map Instr.untargeted ++ [.jmp 0] := by
      simp [Layout.loop, Layout.loopTest, Instr.untargeted]
    rw [same, front.instrs]
    simp only [List.filterMap_append, List.map_append]
    rfl

theorem loop {cond : Script Unit} {body : Script ValueKind} (test : cond.Spelled l)
    (repeated : body.Spelled l) : (Codegen.loop cond body).Spelled l := by
  obtain ⟨orderly, is, spells⟩ := test
  obtain ⟨orderly', js, spells'⟩ := repeated
  refine ⟨Codegen.loop_orderly orderly orderly', ?_⟩
  cases condOutcome : cond.outcome with
  | error e =>
    rw [Codegen.loop_of_refusedTest condOutcome]
    exact ⟨is, spells⟩
  | ok _ =>
    have tested := loopTest condOutcome spells
    cases bodyOutcome : body.outcome with
    | error e =>
      rw [Codegen.loop_of_refusedBody condOutcome bodyOutcome]
      exact ⟨_, tested.append orderly'.reach spells'⟩
    | ok kind =>
      rw [Codegen.loop_of_ok condOutcome bodyOutcome]
      exact ⟨_, loopEnd (Codegen.loopTest_orderly orderly).reach orderly'.reach tested spells'⟩

theorem hereditary (l : Linkage) : Script.Hereditary fun _ s => s.Spelled l where
  pure a := ⟨.pure a, [], .nil⟩
  emit i := ⟨.emit i, _, .emit i⟩
  address dst symbol := ⟨.address dst symbol, _, .address dst symbol⟩
  reject n := ⟨n.reject_orderly, [], .note _⟩
  mismatch n expected := ⟨n.mismatch_orderly expected, [], .nil⟩
  unbound _ := ⟨.fail trivial, [], .nil⟩
  loop := loop
  bind := bind

end Script.Spelled

/-- A script that ends well spells the instructions that it yields. -/
theorem Script.Yields.spells {α : Type} {l : Linkage} {s : Script α} {a : α} {is : List Instr}
    (yields : s.Yields l a is) (spelled : s.Spelled l) : Step.Spells l s.steps is := by
  obtain ⟨-, js, spells⟩ := spelled
  have same : js = is := encodeAll_injective (spells.written.symm.trans yields.written)
  exact same ▸ spells

/-! ## Trees -/

/-- What is known of a tree whose code was written at the cursor of a buffer. -/
structure Buffer.Placed (b : Buffer) (ctx : Context) (kind : ValueKind) (root : Node) : Prop where
  tree : Compilable ctx.variableName kind root
  compact : Layout.Compact ctx.linkage ctx.firstLiteral root
  appends : b.Appends (b.place ctx root).buffer
    (encodeAll (Layout.node ctx.linkage ctx.firstLiteral root))

theorem Buffer.place_ok {b : Buffer} {ctx : Context} {root : Node} {kind : ValueKind}
    (room : b.offset ≤ b.capacity) (addressable : b.capacity ≤ Region.addressSpace)
    (ok : (b.place ctx root).result = .ok kind) : b.Placed ctx kind root := by
  have reach := (Codegen.node_orderly ctx.scope root).reach
  obtain ⟨outcome, fits, near⟩ := Script.assemble_ok reach room addressable ok
  have tree : Compilable ctx.variableName kind root := Codegen.node_ok_iff.1 outcome
  have yields : (Codegen.node ctx.scope root).Yields ctx.linkage kind _ :=
    Codegen.node_yields ctx.firstLiteral tree
  obtain ⟨b', links, events, made, appended⟩ :
      ∃ b' links events, b.place ctx root = ⟨b', links, events, _⟩ ∧ _ :=
    Script.assemble_of_fits reach room addressable fits near
  rw [yields.written] at appended
  exact ⟨tree, Codegen.compact_of_near _ tree near, by rw [made]; exact appended⟩

/-- Code decodes to what was meant, and to nothing else: no two sequences of instructions have the
same bytes.  Orders to the encoder leave the code of the instructions that they mean, jumps with
the displacements that they were given last.  A tree leaves the code of the instructions that the
steps of its script write; only the jumps of loops differ, which have the displacements of
`Layout.loop` in place of zeros, and these are exact since every loop is in reach. -/
theorem code_decodes_uniquely :
    (∀ is js : List Instr, encodeAll is = encodeAll js → is = js) ∧
    (∀ (capacity : Nat) (memory : MemorySource) (buffer : Buffer),
      Buffer.create capacity memory = .ok buffer →
      ∀ (variableName : String) (linkage : Linkage) (links : List Link) (literalCount : Nat)
        (orders : List Order) (is : List Instr), Workbench.MeansAll [] orders is →
      let bench : Workbench := ⟨variableName, linkage, buffer, links, literalCount⟩
      (∀ reply ∈ (bench.performAll orders).2, reply.isOk) →
      decodeAll (bench.performAll orders).1.buffer.code = some is) ∧
    (∀ (b : Buffer) (ctx : Context) (root : Node) (kind : ValueKind), b.offset ≤ b.capacity →
      b.capacity ≤ Region.addressSpace → (b.place ctx root).result = .ok kind →
      let meant := Layout.node ctx.linkage ctx.firstLiteral root
      decodeAll ((b.place ctx root).buffer.code.drop b.offset) = some meant ∧
      meant.map Instr.untargeted = ((Codegen.node ctx.scope root).steps.filterMap
        (Step.instr? ctx.linkage)).map Instr.untargeted ∧
      Layout.Compact ctx.linkage ctx.firstLiteral root) := by
  refine ⟨fun is js => encodeAll_injective, ?_, ?_⟩
  · intro capacity memory buffer created variableName linkage links literalCount orders is means
      bench ok
    have start : buffer.Shows (.empty capacity) := by
      rw [(Buffer.create_ok created).1]
      exact ⟨rfl, rfl⟩
    obtain ⟨shown, replies⟩ := Workbench.performAll_obeys (w := bench) orders start
    rw [replies] at ok
    rw [shown.code, ByteList.bytes_of_meansAll means rfl ok, decodeAll_encodeAll]
  · intro b ctx root kind room addressable ok meant
    have placed := Buffer.place_ok room addressable ok
    have spells := (Codegen.node_yields ctx.firstLiteral placed.tree).spells
      ((Script.Spelled.hereditary ctx.linkage).node _ root)
    refine ⟨?_, spells.instrs, placed.compact⟩
    rw [placed.appends.code, List.drop_left' b.length_code, decodeAll_encodeAll]

/-- Immediates made of opcodes, first between two jumps that get their targets at the end, then as
the condition of a loop. -/
theorem opcodes_in_immediates_decode :
    let opcodes : UInt64 := 0xC3E9840F905848F2
    let bench : Workbench := ⟨"x", .standard, .blank 64, [], 0⟩
    let orders : List Order := [.je, .instrs [.movImm .rcx opcodes], .jmp, .patchJump 2 21,
      .patchJump 17 0]
    let b : Buffer := ⟨⟨200, #[0x90]⟩, 1⟩
    let root : Node := .loop (.number ⟨opcodes⟩) (.assign "x" (.string .empty))
    decodeAll (bench.performAll orders).1.buffer.code =
      some [.je 15, .movImm .rcx opcodes, .jmp (-21)] ∧
    decodeAll ((b.place { variableName := "x" } root).buffer.code.drop 1) =
      some [.movImm .rax opcodes, .movq .xmm0 .rax, .xorpd .xmm1 .xmm1, .ucomisd .xmm0 .xmm1,
        .je 40, .movImm .rax 0x100000, .mov .rsi .rax, .movImm .rdi 0x10000, .movImm .rax 0x20030,
        .call .rax, .jmp (-69)] := by
  intro opcodes bench orders b root
  have means : Workbench.MeansAll [] orders [.je 15, .movImm .rcx opcodes, .jmp (-21)] := by
    apply Workbench.MeansAll.cons (.je _)
    apply Workbench.MeansAll.cons (.instrs _ _)
    apply Workbench.MeansAll.cons (.jmp _)
    apply Workbench.MeansAll.cons
    · exact @Workbench.Means.patchJump [] _ (.je 0) (.je 15) _ _ rfl (by decide)
    apply Workbench.MeansAll.cons
    · exact @Workbench.Means.patchJump [.je 15, .movImm .rcx opcodes] [] (.jmp 0) (.jmp (-21)) _ _
        rfl (by decide)
    exact .nil _
  obtain ⟨-, encoder, translator⟩ := code_decodes_uniquely
  have ordered := encoder 64 .ample _ rfl "x" .standard [] 0 orders _ means (by decide +kernel)
  have kept : ¬overflowed (b.place { variableName := "x" } root).result := by decide +kernel
  have ok : (b.place { variableName := "x" } root).result = .ok .statement :=
    (Buffer.place_appends (by decide) (by decide) kept).1
  obtain ⟨placed, -⟩ := translator b _ root .statement (by decide) (by decide) ok
  exact ⟨ordered, placed.trans (by decide +kernel)⟩

end TreeJit
