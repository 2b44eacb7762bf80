import TreeJit.Code.Script
import TreeJit.Proofs.BufferView

/-! # Steps of assembly on a buffer

What a list of steps does to a buffer, said without the buffer's region.  Two
conditions keep jumps out of the way:

* `Step.AllInReach` — every displacement that a step resolves, and every place
  that it points to, lies behind the cursor.  This is a matter of the steps
  alone, and scripts for trees fulfil it.
* `Step.Near` — the distance fits into 32 bits.  No distance within a buffer of
  at most `maxReach` bytes is too large for that.

Under the first one, steps succeed exactly if there is room (`performAll_of_fits`
and `performAll_of_exceeds`), and the bytes that they leave are `Step.written`,
which does not depend on where they start (`written_append_left`).
-/

namespace TreeJit

open X86 (Instr)

/-- Buffers of at most this capacity hold no jump that is too far. -/
def maxReach : Nat := 0x80000000

namespace Buffer

theorem signed64_of_lt {n : Int} (low : -0x8000000000000000 ≤ n) (high : n < 0x8000000000000000) :
    signed64 n = n := by
  unfold signed64
  exact Int.bmod_eq_of_le (by omega) (by omega)

/-- Distances between places behind a cursor do not depend on where the cursor stands. -/
theorem distance_behind {cursor field target : Nat} (small : cursor < 0x4000000000000000)
    (hfield : field ≤ cursor) (htarget : target ≤ cursor) :
    distance (cursor - field) (cursor - target) = (field : Int) - target - 4 := by
  unfold distance
  -- None of the three conversions wraps: everything is far below half the range of 64 bits.
  rw [signed64_of_lt (n := ((cursor - target : Nat) : Int)) (by omega) (by omega),
    signed64_of_lt (n := ((cursor - field + 4 : Nat) : Int)) (by omega) (by omega),
    signed64_of_lt (by omega) (by omega)]
  omega

end Buffer

namespace Step

/-! ## Jumps -/

/-- Whether the places that a step refers to lie among the last `behind` bytes before the cursor. -/
def InReach (behind : Nat) : Step → Prop
  | .resolve field target => 4 ≤ field ∧ field ≤ behind ∧ target ≤ behind
  | _ => True

/-- Whether each of the steps finds the places that it refers to among the `behind` bytes before
the first step and the bytes of the steps before it. -/
def AllInReach : Nat → List Step → Prop
  | _, [] => True
  | behind, s :: rest => s.InReach behind ∧ AllInReach (behind + s.size) rest

/-- The displacement that points `field` bytes before the cursor to `target` bytes before it. -/
def displacement (field target : Nat) : Int := (field : Int) - target - 4

/-- Whether the displacement that a step fills in fits into 32 bits. -/
def Near : Step → Prop
  | .resolve field target =>
    -0x80000000 ≤ displacement field target ∧ displacement field target < 0x80000000
  | _ => True

theorem InReach.mono {s : Step} {behind behind' : Nat} (h : s.InReach behind)
    (le : behind ≤ behind') : s.InReach behind' := by
  cases s with
  | resolve field target => exact ⟨h.1, Nat.le_trans h.2.1 le, Nat.le_trans h.2.2 le⟩
  | emit _ | address _ _ | note _ => trivial

theorem InReach.near {s : Step} {behind : Nat} (h : s.InReach behind) (le : behind ≤ maxReach) :
    s.Near := by
  cases s with
  | resolve field target =>
    obtain ⟨_, _, _⟩ := h
    unfold maxReach at le
    unfold Near displacement
    omega
  | emit _ | address _ _ | note _ => trivial

theorem AllInReach.mono {steps : List Step} {behind behind' : Nat} (h : AllInReach behind steps)
    (le : behind ≤ behind') : AllInReach behind' steps := by
  induction steps generalizing behind behind' with
  | nil => trivial
  | cons s rest ih => exact ⟨h.1.mono le, ih h.2 (Nat.add_le_add_right le _)⟩

@[simp] theorem totalSize_append (first second : List Step) :
    totalSize (first ++ second) = totalSize first + totalSize second := by
  induction first with
  | nil => simp [totalSize]
  | cons s rest ih => simp only [List.cons_append, totalSize, ih]; omega

@[simp] theorem allInReach_append {first second : List Step} {behind : Nat} :
    AllInReach behind (first ++ second) ↔
      AllInReach behind first ∧ AllInReach (behind + totalSize first) second := by
  induction first generalizing behind with
  | nil => simp [AllInReach, totalSize]
  | cons s rest ih =>
    simp only [List.cons_append, AllInReach, totalSize, ih, and_assoc, Nat.add_assoc]

/-! ## What steps write -/

/-- The bytes before the cursor after a step for which there is room. -/
def write (linkage : Linkage) (bytes : List UInt8) : Step → List UInt8
  | .emit i => bytes ++ i.encode
  | .address dst symbol => bytes ++ (Instr.movImm dst (linkage.address symbol)).encode
  | .resolve field target =>
    bytes.take (bytes.length - field)
      ++ Instr.displacementBytes (Int32.ofInt (displacement field target))
      ++ bytes.drop (bytes.length - field + 4)
  | .note _ => bytes

/-- The bytes before the cursor after steps for which there is room. -/
def written (linkage : Linkage) : List UInt8 → List Step → List UInt8
  | bytes, [] => bytes
  | bytes, s :: rest => written linkage (s.write linkage bytes) rest

theorem size_address (dst : X86.Gpr) (symbol : Symbol) (imm : UInt64) :
    (Step.address dst symbol).size = (Instr.movImm dst imm).size := by
  simp [size, Instr.size, Instr.encode, Instr.chunks]

@[simp] theorem length_displacementBytes (d : Int32) : (Instr.displacementBytes d).length = 4 :=
  length_littleEndian 4 _

theorem length_write {linkage : Linkage} {bytes : List UInt8} {s : Step}
    (reach : s.InReach bytes.length) :
    (s.write linkage bytes).length = bytes.length + s.size := by
  cases s with
  | emit i => exact List.length_append
  | address dst symbol =>
    rw [write, List.length_append, size_address dst symbol (linkage.address symbol)]
    rfl
  | resolve field target =>
    obtain ⟨_, _, _⟩ := reach
    simp only [write, size, List.length_append, List.length_take, List.length_drop,
      length_displacementBytes]
    omega
  | note _ => rfl

theorem length_written {linkage : Linkage} {bytes : List UInt8} {steps : List Step}
    (reach : AllInReach bytes.length steps) :
    (written linkage bytes steps).length = bytes.length + totalSize steps := by
  induction steps generalizing bytes with
  | nil => rfl
  | cons s rest ih =>
    have wider : (s.write linkage bytes).length = bytes.length + s.size := length_write reach.1
    rw [written, ih (by rw [wider]; exact reach.2), wider, totalSize, Nat.add_assoc]

theorem written_append (linkage : Linkage) (bytes : List UInt8) (first second : List Step) :
    written linkage bytes (first ++ second) =
      written linkage (written linkage bytes first) second := by
  induction first generalizing bytes with
  | nil => rfl
  | cons s rest ih => exact ih _

theorem write_append_left {linkage : Linkage} {before bytes : List UInt8} {s : Step}
    (reach : s.InReach bytes.length) :
    s.write linkage (before ++ bytes) = before ++ s.write linkage bytes := by
  cases s with
  | emit i => exact List.append_assoc _ _ _
  | address dst symbol => exact List.append_assoc _ _ _
  | resolve field target =>
    obtain ⟨_, low, _⟩ := reach
    -- The field is found by its distance from the end, so it moves along with the bytes.
    have start : (before ++ bytes).length - field = before.length + (bytes.length - field) := by
      rw [List.length_append]
      omega
    have stop : before.length + (bytes.length - field) + 4 =
        before.length + (bytes.length - field + 4) := by omega
    rw [write, write, start, stop, List.take_length_add_append, List.drop_length_add_append]
    simp only [List.append_assoc]
  | note _ => rfl

/-- What steps write does not depend on the bytes before them, apart from those that they refer
to. -/
theorem written_append_left {linkage : Linkage} {before bytes : List UInt8} {steps : List Step}
    (reach : AllInReach bytes.length steps) :
    written linkage (before ++ bytes) steps = before ++ written linkage bytes steps := by
  induction steps generalizing bytes with
  | nil => rfl
  | cons s rest ih =>
    rw [written, written, write_append_left reach.1, ih]
    rw [length_write reach.1]
    exact reach.2

/-! ## One step -/

section perform

variable {linkage : Linkage} {b b' : Buffer} {e : Error}

theorem emitInstr_of_fits {i : Instr} (fits : b.offset + i.size ≤ b.capacity) :
    ∃ b', b.emitInstr i = (b', .ok ()) ∧ b.Appends b' i.encode :=
  Buffer.emitChunks_of_fits i.chunks fits

theorem emitInstr_of_exceeds {i : Instr} (room : b.offset ≤ b.capacity)
    (exceeds : b.capacity < b.offset + i.size) :
    ∃ b' e, b.emitInstr i = (b', .error e) ∧ b.Overflows b' i.size e :=
  Buffer.emitChunks_of_exceeds i.chunks room exceeds

theorem perform_emit (i : Instr) :
    (Step.emit i).perform linkage b = ⟨(b.emitInstr i).1, [], [], (b.emitInstr i).2⟩ := rfl

theorem perform_address_of_ok {dst : X86.Gpr} {symbol : Symbol}
    (emitted : b.emitInstr (.movImm dst (linkage.address symbol)) = (b', .ok ())) :
    (Step.address dst symbol).perform linkage b =
      ⟨b', [⟨b'.offset - Link.width, symbol⟩], [], .ok ()⟩ := by
  rw [perform, emitted]

theorem perform_address_of_error {dst : X86.Gpr} {symbol : Symbol}
    (refused : b.emitInstr (.movImm dst (linkage.address symbol)) = (b', .error e)) :
    (Step.address dst symbol).perform linkage b = ⟨b', [], [], .error e⟩ := by
  rw [perform, refused]

theorem perform_resolve_of_ok {field target : Nat}
    (patched : b.patchJump (b.offset - field) (b.offset - target) = .ok b') :
    (Step.resolve field target).perform linkage b = ⟨b', [], [], .ok ()⟩ := by
  rw [perform, patched, Emission.settle]

theorem perform_resolve_of_error {field target : Nat}
    (refused : b.patchJump (b.offset - field) (b.offset - target) = .error e) :
    (Step.resolve field target).perform linkage b = ⟨b, [], [], .error e⟩ := by
  rw [perform, refused, Emission.settle]

/-- A jump that is resolved behind the cursor is patched if its distance fits. -/
theorem patchJump_of_near {field target : Nat} (room : b.offset ≤ b.capacity)
    (small : b.capacity ≤ Region.addressSpace) (reach : (Step.resolve field target).InReach b.offset)
    (near : (Step.resolve field target).Near) :
    ∃ b', b.patchJump (b.offset - field) (b.offset - target) = .ok b' ∧
      b'.code = (Step.resolve field target).write linkage b.code ∧ b'.capacity = b.capacity := by
  obtain ⟨wide, hfield, htarget⟩ := reach
  -- The bytes before the field, the field, and the bytes behind it.
  let before := b.code.take (b.offset - field)
  let middle := (b.code.drop (b.offset - field)).take 4
  let after := b.code.drop (b.offset - field + 4)
  have position : before.length = b.offset - field := by simp [before]
  have held : b.code = before ++ middle ++ after := by
    simp only [before, middle, after, List.append_assoc, ← List.drop_drop, List.take_append_drop]
  have width : middle.length = 4 := by
    simp only [middle, List.length_take, List.length_drop, Buffer.length_code]
    omega
  obtain ⟨b', patched, same, code⟩ :=
    Buffer.patch_of_eq (Int32.ofInt (displacement field target)) held width room
  refine ⟨b', ?_, ?_, same⟩
  · unfold Buffer.patchJump
    rw [Buffer.distance_behind (by unfold Region.addressSpace at small; omega) hfield htarget]
    rw [position] at patched
    exact (if_pos near).trans patched
  · rw [code, write, Buffer.length_code]

theorem patchJump_of_far {field target : Nat} (room : b.offset ≤ b.capacity)
    (small : b.capacity ≤ Region.addressSpace) (reach : (Step.resolve field target).InReach b.offset)
    (far : ¬(Step.resolve field target).Near) :
    ∃ e, b.patchJump (b.offset - field) (b.offset - target) = .error e := by
  obtain ⟨_, hfield, htarget⟩ := reach
  refine ⟨.displacement (.tooFar (b.offset - field) (b.offset - target)), ?_⟩
  unfold Buffer.patchJump
  rw [Buffer.distance_behind (by unfold Region.addressSpace at small; omega) hfield htarget]
  exact if_neg far

theorem perform_of_fits {s : Step} (room : b.offset ≤ b.capacity)
    (small : b.capacity ≤ Region.addressSpace) (reach : s.InReach b.offset)
    (fits : b.offset + s.size ≤ b.capacity) (near : s.Near) :
    ∃ b' links events, s.perform linkage b = ⟨b', links, events, .ok ()⟩ ∧
      b'.code = s.write linkage b.code ∧ b'.capacity = b.capacity := by
  cases s with
  | emit i =>
    obtain ⟨b', emitted, appended⟩ := emitInstr_of_fits fits
    refine ⟨b', [], [], ?_, appended.code, appended.capacity⟩
    rw [perform_emit, emitted]
  | address dst symbol =>
    rw [size_address dst symbol (linkage.address symbol)] at fits
    obtain ⟨b', emitted, appended⟩ := emitInstr_of_fits fits
    exact ⟨b', _, _, perform_address_of_ok emitted, appended.code, appended.capacity⟩
  | resolve field target =>
    obtain ⟨b', patched, code, same⟩ := patchJump_of_near room small reach near
    exact ⟨b', _, _, perform_resolve_of_ok patched, code, same⟩
  | note event => exact ⟨b, _, _, rfl, rfl, rfl⟩

theorem perform_of_exceeds {s : Step} (room : b.offset ≤ b.capacity)
    (exceeds : b.capacity < b.offset + s.size) :
    ∃ b' links events e, s.perform linkage b = ⟨b', links, events, .error e⟩ ∧
      b.Overflows b' s.size e := by
  cases s with
  | emit i =>
    obtain ⟨b', e, refused, overflows⟩ := emitInstr_of_exceeds room exceeds
    refine ⟨b', [], [], e, ?_, overflows⟩
    rw [perform_emit, refused]
  | address dst symbol =>
    rw [size_address dst symbol (linkage.address symbol)] at exceeds ⊢
    obtain ⟨b', e, refused, overflows⟩ := emitInstr_of_exceeds room exceeds
    exact ⟨b', _, _, e, perform_address_of_error refused, overflows⟩
  | resolve _ _ | note _ =>
    simp only [size] at exceeds
    omega

theorem perform_of_far {s : Step} (small : b.capacity ≤ Region.addressSpace)
    (room : b.offset ≤ b.capacity) (reach : s.InReach b.offset) (far : ¬s.Near) :
    ∃ e, (s.perform linkage b).result = .error e := by
  cases s with
  | resolve field target =>
    obtain ⟨e, refused⟩ := patchJump_of_far room small reach far
    exact ⟨e, by rw [perform_resolve_of_error refused]⟩
  | emit _ | address _ _ | note _ => exact absurd trivial far

end perform

/-! ## All steps -/

section performAll

variable {linkage : Linkage}

theorem performAll_cons_of_ok {s : Step} {rest : List Step} {b b' : Buffer} {links : List Link}
    {events : List Event} (ok : s.perform linkage b = ⟨b', links, events, .ok ()⟩) :
    performAll linkage (s :: rest) b =
      ⟨(performAll linkage rest b').buffer, links ++ (performAll linkage rest b').links,
        events ++ (performAll linkage rest b').events, (performAll linkage rest b').result⟩ := by
  rw [performAll, ok]

theorem performAll_cons_of_error {s : Step} {rest : List Step} {b : Buffer} {e : Error}
    (refused : (s.perform linkage b).result = .error e) :
    performAll linkage (s :: rest) b = s.perform linkage b := by
  rw [performAll, refused]

theorem AllInReach.near {steps : List Step} {behind : Nat} (h : AllInReach behind steps)
    (le : behind + totalSize steps ≤ maxReach) : ∀ s ∈ steps, s.Near := by
  induction steps generalizing behind with
  | nil => simp
  | cons s rest ih =>
    rw [totalSize] at le
    intro s' member
    cases member with
    | head => exact h.1.near (by omega)
    | tail _ member => exact ih h.2 (by omega) s' member

theorem offset_of_write {s : Step} {b b' : Buffer} (code : b'.code = s.write linkage b.code)
    (reach : s.InReach b.offset) : b'.offset = b.offset + s.size := by
  rw [← Buffer.length_code b', code, length_write (by simpa using reach), Buffer.length_code]

/-- Steps for which there is room are all taken. -/
theorem performAll_of_fits {steps : List Step} {b : Buffer} (room : b.offset ≤ b.capacity)
    (small : b.capacity ≤ Region.addressSpace) (reach : AllInReach b.offset steps)
    (fits : b.offset + totalSize steps ≤ b.capacity) (near : ∀ s ∈ steps, s.Near) :
    ∃ b' links events, performAll linkage steps b = ⟨b', links, events, .ok ()⟩ ∧
      b'.code = written linkage b.code steps ∧ b'.capacity = b.capacity := by
  induction steps generalizing b with
  | nil => exact ⟨b, [], [], rfl, rfl, rfl⟩
  | cons s rest ih =>
    rw [totalSize] at fits
    obtain ⟨b₁, links, events, first, code, same⟩ :=
      perform_of_fits room small reach.1 (by omega) (near s List.mem_cons_self)
    have moved := offset_of_write code reach.1
    -- The rest starts behind the bytes of the first step, and these are in its reach.
    obtain ⟨b', links', events', others, code', same'⟩ :=
      ih (b := b₁) (by omega) (by omega) (by rw [moved]; exact reach.2) (by omega)
        (fun s' member => near s' (List.mem_cons_of_mem _ member))
    refine ⟨b', links ++ links', events ++ events', ?_, ?_, same'.trans same⟩
    · rw [performAll_cons_of_ok first, others]
    · rw [code', code, written]

/-- Steps for which there is no room stop at the first write that exceeds the capacity. -/
theorem performAll_of_exceeds {steps : List Step} {b : Buffer} (room : b.offset ≤ b.capacity)
    (small : b.capacity ≤ maxReach) (reach : AllInReach b.offset steps)
    (exceeds : b.capacity < b.offset + totalSize steps) :
    ∃ b' links events e, performAll linkage steps b = ⟨b', links, events, .error e⟩ ∧
      b.Overflows b' (totalSize steps) e := by
  induction steps generalizing b with
  | nil =>
    rw [totalSize] at exceeds
    omega
  | cons s rest ih =>
    rw [totalSize] at exceeds ⊢
    -- Either the first step overflows, or it moves the cursor and a later one does.
    by_cases fits : b.offset + s.size ≤ b.capacity
    · have addressable : b.capacity ≤ Region.addressSpace := by
        unfold maxReach at small
        unfold Region.addressSpace
        omega
      obtain ⟨b₁, links, events, first, code, same⟩ :=
        perform_of_fits room addressable reach.1 fits (reach.1.near (by omega))
      have moved := offset_of_write code reach.1
      obtain ⟨b', links', events', e, others, overflows⟩ :=
        ih (b := b₁) (by omega) (by omega) (by rw [moved]; exact reach.2) (by omega)
      refine ⟨b', links ++ links', events ++ events', e, ?_, ?_⟩
      · rw [performAll_cons_of_ok first, others]
      · exact .after moved same overflows (Nat.le_refl _)
    · obtain ⟨b', links, events, e, refused, overflows⟩ :=
        perform_of_exceeds room (Nat.lt_of_not_le fits)
      refine ⟨b', links, events, e, ?_, overflows.mono (Nat.le_add_right _ _)⟩
      rw [performAll_cons_of_error (by rw [refused]), refused]

/-- Steps that are all taken have found room, and none of their jumps is too far. -/
theorem performAll_ok {steps : List Step} {b : Buffer} (room : b.offset ≤ b.capacity)
    (small : b.capacity ≤ Region.addressSpace) (reach : AllInReach b.offset steps)
    (ok : (performAll linkage steps b).result = .ok ()) :
    b.offset + totalSize steps ≤ b.capacity ∧ ∀ s ∈ steps, s.Near := by
  induction steps generalizing b with
  | nil => exact ⟨room, by simp⟩
  | cons s rest ih =>
    -- A step without room or with a jump that is too far would have stopped the assembly.
    by_cases fits : b.offset + s.size ≤ b.capacity
    · by_cases near : s.Near
      · obtain ⟨b₁, links, events, first, code, same⟩ := perform_of_fits room small reach.1 fits near
        have moved := offset_of_write code reach.1
        rw [performAll_cons_of_ok first] at ok
        obtain ⟨fits', near'⟩ :=
          ih (b := b₁) (by omega) (by omega) (by rw [moved]; exact reach.2) ok
        rw [totalSize]
        exact ⟨by omega, List.forall_mem_cons.2 ⟨near, near'⟩⟩
      · obtain ⟨e, refused⟩ := perform_of_far small room reach.1 near
        rw [performAll_cons_of_error refused, refused] at ok
        cases ok
    · obtain ⟨b', links, events, e, refused, -⟩ :=
        perform_of_exceeds room (Nat.lt_of_not_le fits)
      rw [performAll_cons_of_error (by rw [refused]), refused] at ok
      cases ok

end performAll

end Step

/-! ## Scripts -/

namespace Script

variable {α : Type} {linkage : Linkage} {s : Script α} {b : Buffer}

/-- A script for which there is room appends its bytes and ends as its outcome says. -/
theorem assemble_of_fits (reach : Step.AllInReach 0 s.steps) (room : b.offset ≤ b.capacity)
    (small : b.capacity ≤ Region.addressSpace) (fits : b.offset + s.size ≤ b.capacity)
    (near : ∀ step ∈ s.steps, step.Near) :
    ∃ b' links events, s.assemble linkage b = ⟨b', links, events, s.outcome⟩ ∧
      b.Appends b' (Step.written linkage [] s.steps) := by
  obtain ⟨b', links, events, taken, code, same⟩ :=
    Step.performAll_of_fits room small (reach.mono (Nat.zero_le _)) fits near
  refine ⟨b', links, events, ?_, ?_, same⟩
  · rw [assemble, taken]
  · have prepended : Step.written linkage (b.code ++ []) s.steps =
        b.code ++ Step.written linkage [] s.steps := Step.written_append_left reach
    rwa [List.append_nil, ← code] at prepended

/-- A script for which there is no room ends in an overflow, whatever its outcome. -/
theorem assemble_of_exceeds (reach : Step.AllInReach 0 s.steps) (room : b.offset ≤ b.capacity)
    (small : b.capacity ≤ maxReach) (exceeds : b.capacity < b.offset + s.size) :
    ∃ b' links events e, s.assemble linkage b = ⟨b', links, events, .error e⟩ ∧
      b.Overflows b' s.size e := by
  obtain ⟨b', links, events, e, stopped, overflows⟩ :=
    Step.performAll_of_exceeds room small (reach.mono (Nat.zero_le _)) exceeds
  refine ⟨b', links, events, e, ?_, overflows⟩
  rw [assemble, stopped]

/-- A script that succeeds had room, and all its jumps are near. -/
theorem assemble_ok {a : α} (reach : Step.AllInReach 0 s.steps) (room : b.offset ≤ b.capacity)
    (small : b.capacity ≤ Region.addressSpace) (ok : (s.assemble linkage b).result = .ok a) :
    s.outcome = .ok a ∧ b.offset + s.size ≤ b.capacity ∧ ∀ step ∈ s.steps, step.Near := by
  unfold assemble at ok
  cases taken : (Step.performAll linkage s.steps b).result with
  | ok done =>
    simp only [taken] at ok
    exact ⟨ok, Step.performAll_ok room small (reach.mono (Nat.zero_le _)) taken⟩
  | error e =>
    simp only [taken] at ok
    cases ok

end Script

end TreeJit
