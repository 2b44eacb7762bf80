import TreeJit.Proofs.Layout
import TreeJit.Proofs.Reports
import TreeJit.Workbench

/-! # A buffer is a bounded list of bytes

A buffer is raw memory with a cursor.  Patches may reach across the cursor or
beyond it, so the memory behind the cursor holds whatever they have left there.
None of that is ever seen: a buffer does what a list of bytes with a bound on
its length does, where a write appends and a patch exchanges those bytes that
the list has.

* `ByteList.editAll` — elementary changes of a bounded list, up to the first
  that fails.
* `Workbench.Order.edits` — the elementary changes that an order stands for.
* `buffer_refines_byteList` — any sequence of orders leaves the bytes that the
  elementary changes leave, and answers as they do.
-/

namespace TreeJit

open X86 (Instr)

/-- A list of bytes that never outgrows its capacity. -/
structure ByteList (capacity : Nat) where
  bytes : List UInt8
  fits : bytes.length ≤ capacity

/-- An elementary change of a list of bytes. -/
inductive Edit where
  | append (bytes : List UInt8)
  /-- Overwrites four bytes with a number, least significant byte first. -/
  | patch (start : Nat) (value : Int32)
  /-- Gives up before anything is changed. -/
  | refuse (e : Error)

/-- Points the displacement at `field` to `target`, if the distance fits into 32 bits. -/
def Edit.aim (field target : Nat) : Edit :=
  let d := Buffer.distance field target
  if -0x80000000 ≤ d ∧ d < 0x80000000 then .patch field (Int32.ofInt d)
  else .refuse (.displacement (.tooFar field target))

theorem Edit.aim_ne_append (field target : Nat) (bytes : List UInt8) :
    Edit.aim field target ≠ .append bytes := by
  intro equal
  unfold aim at equal
  dsimp only at equal
  split at equal <;> cases equal

namespace ByteList

def empty (capacity : Nat) : ByteList capacity := ⟨[], Nat.zero_le _⟩

/-- Exchanges the bytes from `start` on for others, as far as the list goes. -/
def overwrite (bytes : List UInt8) (start : Nat) (others : List UInt8) : List UInt8 :=
  bytes.mapIdx fun i byte => if start ≤ i then others.getD (i - start) byte else byte

@[simp] theorem length_overwrite (bytes : List UInt8) (start : Nat) (others : List UInt8) :
    (overwrite bytes start others).length = bytes.length := by
  simp [overwrite]

variable {capacity : Nat}

/-- Makes one change.  A change for which there is no room leaves the list as it is. -/
def edit (l : ByteList capacity) : Edit → Except Error (ByteList capacity)
  | .append bytes =>
    if h : l.bytes.length + bytes.length ≤ capacity then
      .ok ⟨l.bytes ++ bytes, by simpa using h⟩
    else .error (.overflow l.bytes.length bytes.length capacity)
  | .patch start value =>
    if start + 4 ≤ capacity then
      .ok ⟨overwrite l.bytes start (littleEndian 4 value.toUInt32.toNat), by simpa using l.fits⟩
    else .error (.overflow start 4 capacity)
  | .refuse e => .error e

/-- Makes changes one after the other, up to the first that fails. -/
def editAll : List Edit → ByteList capacity → ByteList capacity × Except Error Unit
  | [], l => (l, .ok ())
  | first :: rest, l =>
    match l.edit first with
    | .ok l => editAll rest l
    | .error e => (l, .error e)

theorem editAll_append (first second : List Edit) (l : ByteList capacity) :
    editAll (first ++ second) l =
      match editAll first l with
      | (l, .ok ()) => editAll second l
      | (l, .error e) => (l, .error e) := by
  induction first generalizing l with
  | nil => rfl
  | cons change rest ih =>
    simp only [List.cons_append, editAll]
    cases l.edit change with
    | ok l => exact ih l
    | error e => rfl

theorem editAll_singleton {change : Edit} {l l' : ByteList capacity}
    (ok : editAll [change] l = (l', .ok ())) : l.edit change = .ok l' := by
  simp only [editAll] at ok
  cases edited : l.edit change with
  | ok l₁ =>
    rw [edited] at ok
    cases ok
    rfl
  | error e =>
    rw [edited] at ok
    cases ok

theorem bytes_of_chunks {chunks : List (List UInt8)} {l l' : ByteList capacity}
    (ok : editAll (chunks.map .append) l = (l', .ok ())) :
    l'.bytes = l.bytes ++ chunks.flatten := by
  induction chunks generalizing l with
  | nil =>
    cases ok
    simp
  | cons chunk chunks ih =>
    simp only [List.map_cons, editAll, edit] at ok
    split at ok
    case h_1 l₁ edited =>
      split at edited
      · cases edited
        rw [ih ok]
        simp
      · cases edited
    case h_2 => simp at ok

theorem length_of_edit {change : Edit} {l l' : ByteList capacity} (ok : l.edit change = .ok l')
    (notAppend : ∀ bytes, change ≠ .append bytes) : l'.bytes.length = l.bytes.length := by
  cases change with
  | append bytes => exact absurd rfl (notAppend bytes)
  | patch start value =>
    simp only [edit] at ok
    split at ok
    · cases ok
      simp
    · cases ok
  | refuse e => cases ok

/-- Two ranges of bytes that agree wherever the list has bytes are written alike. -/
theorem overwrite_congr {bytes others others' : List UInt8} {start : Nat}
    (agree : ∀ i, start + i < bytes.length → others[i]? = others'[i]?) :
    overwrite bytes start others = overwrite bytes start others' := by
  apply List.ext_getElem
  · simp
  · intro i hi _
    simp only [length_overwrite] at hi
    simp only [overwrite, List.getElem_mapIdx, List.getD_eq_getElem?_getD]
    by_cases inside : start ≤ i
    · rw [agree (i - start) (by omega)]
    · simp [inside]

end ByteList

/-! ## Elementary changes of a buffer -/

theorem Region.bytes_write (r : Region) (count position : Nat) (bs : List UInt8) :
    (r.write position bs).bytes 0 count = ByteList.overwrite (r.bytes 0 count) position bs := by
  apply List.ext_getElem
  · simp
  · intro i hi _
    simp only [Region.length_bytes] at hi
    simp only [bytes, ByteList.overwrite, List.getElem_mapIdx, List.getElem_map,
      List.getElem_range', byte_write, List.getD_eq_getElem?_getD, Nat.zero_add, Nat.one_mul]
    by_cases inside : position ≤ i
    · by_cases covered : i < position + bs.length
      · have short : i - position < bs.length := by omega
        simp [inside, covered, short]
      · have long : bs.length ≤ i - position := by omega
        simp [inside, covered, long]
    · simp [inside]

namespace Buffer

/-- `Shows b l`: the bytes before the cursor of `b` and its capacity are those of `l`.  Nothing is
said of the memory behind the cursor. -/
structure Shows {capacity : Nat} (b : Buffer) (l : ByteList capacity) : Prop where
  code : b.code = l.bytes
  capacity : b.capacity = capacity

/-- The same end of a change of a buffer and of one of a list. -/
def Agree {capacity : Nat} (written : Except Error Buffer)
    (edited : Except Error (ByteList capacity)) : Prop :=
  (∃ b l, written = .ok b ∧ edited = .ok l ∧ b.Shows l) ∨
    ∃ e, written = .error e ∧ edited = .error e

/-- The same end of several changes, the last of which may have failed. -/
structure Follows {capacity : Nat} (made : Buffer × Except Error Unit)
    (edited : ByteList capacity × Except Error Unit) : Prop where
  buffer : made.1.Shows edited.1
  result : made.2 = edited.2

variable {capacity : Nat} {b : Buffer} {l : ByteList capacity}

theorem Shows.offset (shown : b.Shows l) : b.offset = l.bytes.length := by
  rw [← shown.code, length_code]

theorem Shows.room (shown : b.Shows l) : b.offset ≤ b.capacity := by
  rw [shown.offset, shown.capacity]
  exact l.fits

theorem emit_agree (shown : b.Shows l) (bytes : List UInt8) :
    Agree (b.emit bytes) (l.edit (.append bytes)) := by
  have offset := shown.offset
  have same := shown.capacity
  by_cases fits : l.bytes.length + bytes.length ≤ capacity
  · left
    have written : b.emit bytes = .ok _ := emit_of_fits (by omega)
    have appended := emit_appends written
    refine ⟨_, _, written, dif_pos fits, ?_, ?_⟩
    · rw [appended.code, shown.code]
    · rw [appended.capacity, shown.capacity]
  · right
    have refused : b.emit bytes = .error _ := emit_of_exceeds (by omega)
    rw [offset, same] at refused
    exact ⟨_, refused, dif_neg fits⟩

theorem patch_agree (shown : b.Shows l) (start : Nat) (value : Int32) :
    Agree (b.patch start value) (l.edit (.patch start value)) := by
  unfold patch checkRange
  rw [ByteList.edit, shown.capacity]
  by_cases fits : start + 4 ≤ capacity
  · left
    simp only [fits, if_true]
    refine ⟨_, _, rfl, rfl, ?_, shown.capacity⟩
    simp only [code, Region.bytes_write]
    rw [← shown.code]
    rfl
  · right
    simp only [fits, if_false]
    exact ⟨_, rfl, rfl⟩

theorem patchJump_agree (shown : b.Shows l) (field target : Nat) :
    Agree (b.patchJump field target) (l.edit (.aim field target)) := by
  unfold patchJump Edit.aim
  by_cases near : -0x80000000 ≤ distance field target ∧ distance field target < 0x80000000
  · simp only [near, and_self, if_true]
    apply patch_agree shown
  · simp only [near, if_false]
    exact .inr ⟨_, rfl, rfl⟩

theorem emitChunks_follows (chunks : List (List UInt8)) (shown : b.Shows l) :
    Follows (emitChunks chunks b) (ByteList.editAll (chunks.map .append) l) := by
  induction chunks generalizing b l with
  | nil => exact ⟨shown, rfl⟩
  | cons chunk chunks ih =>
    simp only [emitChunks, List.map_cons, ByteList.editAll]
    rcases emit_agree shown chunk with ⟨b', l', written, edited, shown'⟩ | ⟨e, refused, failed⟩
    · rw [written, edited]
      exact ih shown'
    · rw [refused, failed]
      exact ⟨shown, rfl⟩

/-- A change that is made as a whole or not at all, and the only one. -/
theorem Agree.follows {written : Except Error Buffer} {change : Edit}
    (agree : Agree written (l.edit change)) (shown : b.Shows l) :
    Follows ((Emission.settle b written).buffer, (Emission.settle b written).result)
      (ByteList.editAll [change] l) := by
  rw [ByteList.editAll]
  rcases agree with ⟨b', l', made, edited, shown'⟩ | ⟨e, refused, failed⟩
  · rw [made, edited]
    exact ⟨shown', rfl⟩
  · rw [refused, failed]
    exact ⟨shown, rfl⟩

end Buffer

/-! ## Steps of assembly -/

namespace Step

/-- The elementary changes of a step that is taken with the cursor at the given place. -/
def edits (linkage : Linkage) (cursor : Nat) : Step → List Edit
  | .emit i => i.chunks.map .append
  | .address dst symbol => (Instr.movImm dst (linkage.address symbol)).chunks.map .append
  | .resolve field target => [.aim (cursor - field) (cursor - target)]
  | .note _ => []

/-- The elementary changes of steps.  Each step finds the cursor where those before it leave it. -/
def editsOfAll (linkage : Linkage) : Nat → List Step → List Edit
  | _, [] => []
  | cursor, s :: rest => s.edits linkage cursor ++ editsOfAll linkage (cursor + s.size) rest

variable {capacity : Nat} {linkage : Linkage} {b : Buffer} {l l' : ByteList capacity}

theorem perform_address (dst : X86.Gpr) (symbol : Symbol) :
    (((Step.address dst symbol).perform linkage b).buffer,
        ((Step.address dst symbol).perform linkage b).result) =
      b.emitInstr (.movImm dst (linkage.address symbol)) := by
  simp only [perform]
  cases emitted : b.emitInstr (.movImm dst (linkage.address symbol)) with
  | mk b' written => cases written <;> rfl

theorem perform_follows (linkage : Linkage) (s : Step) (shown : b.Shows l) :
    Buffer.Follows ((s.perform linkage b).buffer, (s.perform linkage b).result)
      (ByteList.editAll (s.edits linkage b.offset) l) := by
  cases s with
  | emit i => exact Buffer.emitChunks_follows i.chunks shown
  | address dst symbol =>
    rw [perform_address]
    exact Buffer.emitChunks_follows _ shown
  | resolve field target =>
    have agree := Buffer.patchJump_agree shown (b.offset - field) (b.offset - target)
    rw [perform, edits]
    exact agree.follows shown
  | note event => exact ⟨shown, rfl⟩

theorem length_of_edits {s : Step} {cursor : Nat}
    (ok : ByteList.editAll (s.edits linkage cursor) l = (l', .ok ())) :
    l'.bytes.length = l.bytes.length + s.size := by
  cases s with
  | emit i => rw [ByteList.bytes_of_chunks ok, List.length_append]; rfl
  | address dst symbol =>
    rw [size_address dst symbol (linkage.address symbol), ByteList.bytes_of_chunks ok,
      List.length_append]
    rfl
  | resolve field target =>
    exact ByteList.length_of_edit (ByteList.editAll_singleton ok) (Edit.aim_ne_append _ _)
  | note event =>
    cases ok
    rfl

theorem performAll_follows (linkage : Linkage) (steps : List Step) (shown : b.Shows l) :
    Buffer.Follows ((performAll linkage steps b).buffer, (performAll linkage steps b).result)
      (ByteList.editAll (editsOfAll linkage b.offset steps) l) := by
  induction steps generalizing b l with
  | nil => exact ⟨shown, rfl⟩
  | cons s rest ih =>
    have first := perform_follows linkage s shown
    rw [editsOfAll, ByteList.editAll_append]
    cases edited : ByteList.editAll (s.edits linkage b.offset) l with
    | mk l₁ written =>
      rw [edited] at first
      obtain ⟨shown₁, result⟩ := first
      simp only at shown₁ result
      cases written with
      | error e =>
        rw [performAll_cons_of_error result]
        exact ⟨shown₁, result⟩
      | ok _ =>
        -- Places are resolved from the cursor, so the rest needs to find it where the list ends.
        have moved : (s.perform linkage b).buffer.offset = b.offset + s.size := by
          rw [shown₁.offset, length_of_edits edited, shown.offset]
        have others := ih shown₁
        rw [moved] at others
        simp only [performAll, result]
        exact others

end Step

/-! ## Orders -/

namespace Workbench

/-- What trees are compiled against next. -/
def scope (w : Workbench) : Codegen.Scope := ⟨w.variableName, w.literalCount⟩

namespace Order

/-- The elementary changes that an order consists of, given where the cursor stands. -/
def edits (linkage : Linkage) (scope : Codegen.Scope) (cursor : Nat) : Order → List Edit
  | .byte value => [.append [value]]
  | .int32 value => [.append (littleEndian 4 value.toUInt32.toNat)]
  | .int64 value => [.append (littleEndian 8 value.toUInt64.toNat)]
  | .nop => [.append [0x90]]
  | .bytes values => [.append values]
  | .patch start value => [.patch start value]
  | .instrs sequence => (sequence.flatMap Instr.chunks).map .append
  | .je => [.append [0x0F, 0x84], .append [0, 0, 0, 0]]
  | .jmp => [.append [0xE9], .append [0, 0, 0, 0]]
  | .patchJump field target => [.aim field target]
  | .compile (.ok root) => Step.editsOfAll linkage cursor (Codegen.node scope root).steps
  | .compile (.error _) => []

/-- What an order answers once all its changes have been made. -/
def answer (scope : Codegen.Scope) (cursor : Nat) : Order → Except Failure Reply
  | .je => .ok (.offset (cursor + 2))
  | .jmp => .ok (.offset (cursor + 1))
  | .compile (.ok root) => ((Codegen.node scope root).outcome.map .kind).mapError .error
  | .compile (.error z) => .error (.zeroByte z)
  | _ => .ok .done

/-- What trees are compiled against after an order. -/
def scopeAfter (scope : Codegen.Scope) : Order → Codegen.Scope
  | .compile (.ok root) => scope.after root
  | _ => scope

end Order

/-- Carries out orders one after the other, whether or not they fail.  Gives the answers, too. -/
def performAll (w : Workbench) : List Order → Workbench × List (Except Failure Reply)
  | [] => (w, [])
  | order :: rest =>
    let first := w.perform order
    let others := first.bench.performAll rest
    (others.1, first.reply :: others.2)

end Workbench

open Workbench (Order Reply Failure)

namespace ByteList

variable {capacity : Nat}

/-- Carries out an order on a list of bytes. -/
def obey (linkage : Linkage) (scope : Codegen.Scope) (l : ByteList capacity) (order : Order) :
    ByteList capacity × Except Failure Reply :=
  let edited := editAll (order.edits linkage scope l.bytes.length) l
  match edited.2 with
  | .ok () => (edited.1, order.answer scope l.bytes.length)
  | .error e => (edited.1, .error (.error e))

/-- Carries out orders one after the other. -/
def obeyAll (linkage : Linkage) (scope : Codegen.Scope) (l : ByteList capacity) :
    List Order → ByteList capacity × List (Except Failure Reply)
  | [] => (l, [])
  | order :: rest =>
    let first := l.obey linkage scope order
    let others := first.1.obeyAll linkage (order.scopeAfter scope) rest
    (others.1, first.2 :: others.2)

end ByteList

namespace Workbench

/-- The same end of an order to a workbench and of that order to a list of bytes. -/
structure Obeys {capacity : Nat} (result : Result)
    (obeyed : ByteList capacity × Except Failure Reply) : Prop where
  buffer : result.bench.buffer.Shows obeyed.1
  reply : result.reply = obeyed.2

variable {capacity : Nat} {w : Workbench} {l : ByteList capacity} {order : Order}

/-- What is left to know of an order once its changes are known to go the same way: what it answers
if all of them were made, and that it answers with the error if one was not. -/
theorem obeys_of_follows {result : Result} {ended : Except Error Unit}
    (follows : Buffer.Follows (result.bench.buffer, ended)
      (ByteList.editAll (order.edits w.linkage w.scope l.bytes.length) l))
    (done : ended = .ok () → result.reply = order.answer w.scope l.bytes.length)
    (failed : ∀ e, ended = .error e → result.reply = .error (.error e)) :
    Obeys result (l.obey w.linkage w.scope order) := by
  obtain ⟨shown, same⟩ := follows
  simp only at shown same
  cases ended with
  | ok _ =>
    simp only [ByteList.obey, ← same]
    exact ⟨shown, done rfl⟩
  | error e =>
    simp only [ByteList.obey, ← same]
    exact ⟨shown, failed e rfl⟩

theorem settle_obeys {written : Except Error Buffer} {change : Edit} (shown : w.buffer.Shows l)
    (edits : order.edits w.linkage w.scope l.bytes.length = [change])
    (answer : order.answer w.scope l.bytes.length = .ok .done)
    (agree : Buffer.Agree written (l.edit change)) :
    Obeys (w.settle written) (l.obey w.linkage w.scope order) := by
  have follows := agree.follows shown
  rw [← edits] at follows
  cases written with
  | ok b => exact obeys_of_follows follows (fun _ => answer.symm) nofun
  | error e => exact obeys_of_follows follows nofun (by rintro _ ⟨⟩; rfl)

theorem emitInstrs_obeys (shown : w.buffer.Shows l) (sequence : List Instr) :
    Obeys (w.perform (.instrs sequence)) (l.obey w.linkage w.scope (.instrs sequence)) := by
  have follows := Buffer.emitChunks_follows (sequence.flatMap Instr.chunks) shown
  apply obeys_of_follows follows
  · intro done
    simp only [perform, settlePartly, Buffer.emitInstrs, done]
    rfl
  · intro e failed
    simp only [perform, settlePartly, Buffer.emitInstrs, failed]
    rfl

/-- A jump without a target is written in two portions; the second one is the displacement, where
the answer points to. -/
theorem emitJump_obeys {make : Int32 → Instr} {opcode : List UInt8} (shown : w.buffer.Shows l)
    (chunks : (make 0).chunks = [opcode, [0, 0, 0, 0]])
    (edits : order.edits w.linkage w.scope l.bytes.length =
      [opcode, [0, 0, 0, 0]].map .append)
    (answer : order.answer w.scope l.bytes.length =
      .ok (.offset (l.bytes.length + opcode.length))) :
    Obeys (w.settlePartly (w.buffer.emitJump make) .offset) (l.obey w.linkage w.scope order) := by
  have follows := Buffer.emitChunks_follows [opcode, [0, 0, 0, 0]] shown
  rw [← edits, ← chunks] at follows
  apply obeys_of_follows follows
  · intro done
    have same : (ByteList.editAll ([opcode, [0, 0, 0, 0]].map .append) l).2 = .ok () := by
      rw [← edits, ← follows.result, done]
    -- By now the cursor is behind the displacement, and the answer is found by going back.
    have bytes := ByteList.bytes_of_chunks (Prod.ext rfl same)
    have behind : (Buffer.emitChunks (make 0).chunks w.buffer).1.offset =
        l.bytes.length + opcode.length + 4 := by
      rw [follows.buffer.offset, edits, bytes]
      simp [Nat.add_assoc]
    simp only [settlePartly, Buffer.emitJump, Buffer.emitInstr, done]
    rw [behind, Nat.add_sub_cancel, answer]
    rfl
  · intro e failed
    simp only [settlePartly, Buffer.emitJump, Buffer.emitInstr, failed]
    rfl

theorem generate_obeys (shown : w.buffer.Shows l) (root : Node) :
    Obeys (w.generate root) (l.obey w.linkage w.scope (.compile (.ok root))) := by
  have follows := Step.performAll_follows w.linkage (Codegen.node w.scope root).steps shown
  rw [shown.offset] at follows
  have buffer : (w.generate root).bench.buffer =
      (Step.performAll w.linkage (Codegen.node w.scope root).steps w.buffer).buffer := by
    simp only [generate, Script.assemble]
    split <;> rfl
  rw [← buffer] at follows
  apply obeys_of_follows follows
  · intro done
    simp only [scope] at done
    simp only [generate, Script.assemble, done]
    rfl
  · intro e failed
    simp only [scope] at failed
    simp only [generate, Script.assemble, failed]
    rfl

theorem perform_obeys (order : Order) (shown : w.buffer.Shows l) :
    Obeys (w.perform order) (l.obey w.linkage w.scope order) := by
  cases order with
  | byte value => exact settle_obeys shown rfl rfl (Buffer.emit_agree shown _)
  | int32 value => exact settle_obeys shown rfl rfl (Buffer.emit_agree shown _)
  | int64 value => exact settle_obeys shown rfl rfl (Buffer.emit_agree shown _)
  | nop => exact settle_obeys shown rfl rfl (Buffer.emit_agree shown _)
  | bytes values => exact settle_obeys shown rfl rfl (Buffer.emit_agree shown _)
  | patch start value => exact settle_obeys shown rfl rfl (Buffer.patch_agree shown _ _)
  | instrs sequence => exact emitInstrs_obeys shown sequence
  | je => exact emitJump_obeys shown rfl rfl rfl
  | jmp => exact emitJump_obeys shown rfl rfl rfl
  | patchJump field target =>
    have agree := Buffer.patchJump_agree shown field target
    rw [perform]
    exact settle_obeys shown rfl rfl agree
  | compile root =>
    cases root with
    | ok root => exact generate_obeys shown root
    | error z => exact ⟨shown, rfl⟩

theorem settle_keeps (w : Workbench) (written : Except Error Buffer) :
    (w.settle written).bench.linkage = w.linkage ∧ (w.settle written).bench.scope = w.scope := by
  cases written <;> exact ⟨rfl, rfl⟩

theorem perform_keeps (w : Workbench) (order : Order) :
    (w.perform order).bench.linkage = w.linkage ∧
      (w.perform order).bench.scope = order.scopeAfter w.scope := by
  cases order with
  | byte _ | int32 _ | int64 _ | nop | bytes _ | patch _ _ | patchJump _ _ =>
    rw [perform, Order.scopeAfter]
    · exact settle_keeps w _
    · nofun
  | instrs _ | je | jmp => exact ⟨rfl, rfl⟩
  | compile root => cases root <;> exact ⟨rfl, rfl⟩

/-- After any orders, the buffer shows the list that the same orders leave. -/
theorem performAll_obeys (orders : List Order) (shown : w.buffer.Shows l) :
    (w.performAll orders).1.buffer.Shows (l.obeyAll w.linkage w.scope orders).1 ∧
      (w.performAll orders).2 = (l.obeyAll w.linkage w.scope orders).2 := by
  induction orders generalizing w l with
  | nil => exact ⟨shown, rfl⟩
  | cons order rest ih =>
    have first := perform_obeys order shown
    obtain ⟨shown', replies⟩ := ih first.buffer
    rw [(perform_keeps w order).1, (perform_keeps w order).2] at shown' replies
    simp only [performAll, ByteList.obeyAll]
    exact ⟨shown', by rw [first.reply, replies]⟩

/-- Workbenches that show the same list cannot be told apart by any orders, whatever their memory
holds behind the cursor. -/
theorem performAll_eq_of_shows {w' : Workbench} (orders : List Order) (shown : w.buffer.Shows l)
    (shown' : w'.buffer.Shows l) (linkage : w'.linkage = w.linkage) (scope : w'.scope = w.scope) :
    (w'.performAll orders).1.buffer.code = (w.performAll orders).1.buffer.code ∧
      (w'.performAll orders).2 = (w.performAll orders).2 := by
  obtain ⟨left, replies⟩ := performAll_obeys orders shown
  obtain ⟨left', replies'⟩ := performAll_obeys orders shown'
  rw [linkage, scope] at left' replies'
  exact ⟨left'.code.trans left.code.symm, replies'.trans replies.symm⟩

theorem obey_patch_congr {start : Nat} {value value' : Int32}
    (agree : ∀ i, start + i < l.bytes.length →
      (Instr.displacementBytes value)[i]? = (Instr.displacementBytes value')[i]?)
    (linkage : Linkage) (scope : Codegen.Scope) :
    l.obey linkage scope (.patch start value') = l.obey linkage scope (.patch start value) := by
  have same := ByteList.overwrite_congr agree
  unfold Instr.displacementBytes at same
  simp only [ByteList.obey, Order.edits, ByteList.editAll, ByteList.edit, same]
  rfl

end Workbench

/-- A code buffer is a bounded list of bytes.  After any orders it shows the bytes that the list has
after them, the answers are the same, and the cursor stands at the end of the list and never beyond
the capacity, which stays as it is.  The part of a patch that lies behind the cursor is not seen
later, whatever the orders: it makes no difference which bytes that part has, nor what else the
memory behind the cursor holds. -/
theorem buffer_refines_byteList {capacity : Nat} {memory : MemorySource} {buffer : Buffer}
    (created : Buffer.create capacity memory = .ok buffer) (variableName : String) (linkage : Linkage)
    (links : List Link) (literalCount : Nat) (orders : List Order) :
    let bench : Workbench := ⟨variableName, linkage, buffer, links, literalCount⟩
    let list := (ByteList.empty capacity).obeyAll linkage ⟨variableName, literalCount⟩ orders
    let left := (bench.performAll orders).1
    left.buffer.code = list.1.bytes ∧
    (bench.performAll orders).2 = list.2 ∧
    left.buffer.offset = list.1.bytes.length ∧
    left.buffer.offset ≤ capacity ∧
    left.buffer.capacity = capacity ∧
    left.buffer.offset + left.buffer.remaining = capacity ∧
    (∀ (start : Nat) (value value' : Int32) (later : List Order),
      (∀ i, start + i < left.buffer.offset →
        (Instr.displacementBytes value)[i]? = (Instr.displacementBytes value')[i]?) →
      let after := fun v => (left.perform (.patch start v)).bench.performAll later
      (after value').1.buffer.code = (after value).1.buffer.code ∧
        (after value').2 = (after value).2) ∧
    (∀ (hidden : Buffer) (later : List Order), hidden.code = left.buffer.code →
      hidden.capacity = capacity →
      let other := { left with buffer := hidden }
      (other.performAll later).1.buffer.code = (left.performAll later).1.buffer.code ∧
        (other.performAll later).2 = (left.performAll later).2) := by
  intro bench list left
  have start : buffer.Shows (.empty capacity) := by
    rw [(Buffer.create_ok created).1]
    exact ⟨rfl, rfl⟩
  obtain ⟨shown, replies⟩ :
      left.buffer.Shows list.1 ∧ (bench.performAll orders).2 = list.2 :=
    Workbench.performAll_obeys (w := bench) orders start
  have room := shown.room
  rw [shown.capacity] at room
  refine ⟨shown.code, replies, shown.offset, room, shown.capacity, ?_, ?_, ?_⟩
  · unfold Buffer.remaining
    rw [shown.capacity]
    omega
  · intro start value value' later agree after
    rw [shown.offset] at agree
    -- Both patches leave the same list, although not the same memory.
    have patched := Workbench.perform_obeys (.patch start value) shown
    have patched' := Workbench.perform_obeys (.patch start value') shown
    rw [Workbench.obey_patch_congr agree] at patched'
    have keeps := left.perform_keeps (.patch start value)
    have keeps' := left.perform_keeps (.patch start value')
    exact Workbench.performAll_eq_of_shows later patched.buffer patched'.buffer
      (keeps'.1.trans keeps.1.symm) (keeps'.2.trans keeps.2.symm)
  · intro hidden later code same other
    exact Workbench.performAll_eq_of_shows later shown ⟨code.trans shown.code, same⟩ rfl rfl

/-- A patch across the cursor and one that does not fit, with writes in between: what the first one
has left behind the cursor is overwritten unseen. -/
theorem patch_behind_cursor_unseen :
    ∃ buffer, Buffer.create 8 .ample = .ok buffer ∧
      let bench : Workbench := ⟨"x", .standard, buffer, [], 0⟩
      let made := bench.performAll
        [.bytes [1, 2, 3], .patch 1 (-1), .byte 4, .patch 6 0, .int32 7, .nop]
      made.1.buffer.code = [1, 0xFF, 0xFF, 4, 7, 0, 0, 0] ∧
      made.2 = [.ok .done, .ok .done, .ok .done, .error (.error (.overflow 6 4 8)), .ok .done,
        .error (.error (.overflow 8 1 8))] := by
  refine ⟨⟨⟨8, #[]⟩, 0⟩, rfl, ?_⟩
  have created : Buffer.create 8 .ample = .ok ⟨⟨8, #[]⟩, 0⟩ := rfl
  obtain ⟨code, replies, -⟩ := buffer_refines_byteList created "x" .standard [] 0
    [.bytes [1, 2, 3], .patch 1 (-1), .byte 4, .patch 6 0, .int32 7, .nop]
  exact ⟨code.trans rfl, replies.trans rfl⟩

end TreeJit
