import TreeJit.Proofs.LoopJumps

/-! # Steps in two buffers side by side

Of two buffers that hold the same bytes, one has more room.  The same steps are
taken in both until the smaller one overflows, possibly in the middle of an
instruction.  From then on only the larger one goes on.

* `Step.performAll_keeps` — steps change the bytes that they move the cursor over,
  those of the displacements that they fill in, and no others.
* `Step.performAll_roomier` — steps that fit leave both buffers alike.
* `Step.performAll_precedes` — steps that fill in no displacement leave in the
  smaller buffer the beginning of what they leave in the larger one.
-/

namespace TreeJit

open X86 (Instr)

/-! ## Bytes that writes leave alone -/

namespace Buffer

/-- `b.Keeps touched b'`: `b'` comes from `b` by moving the cursor on.  Bytes before the old cursor
and behind the new one are those of `b`, touched ones apart. -/
structure Keeps (touched : Nat → Prop) (b b' : Buffer) : Prop where
  offset : b.offset ≤ b'.offset
  byte : ∀ i, ¬touched i → i < b.offset ∨ b'.offset ≤ i → b'.region.byte i = b.region.byte i

/-- `b.Precedes touched d`: `d` begins with the bytes of `b`, touched ones apart. -/
structure Precedes (touched : Nat → Prop) (b d : Buffer) : Prop where
  offset : b.offset ≤ d.offset
  byte : ∀ i < b.offset, ¬touched i → d.region.byte i = b.region.byte i

variable {touched touched' : Nat → Prop} {b b' b'' : Buffer}

theorem Keeps.refl (b : Buffer) : b.Keeps touched b := ⟨Nat.le_refl _, fun _ _ _ => rfl⟩

theorem Keeps.trans (first : b.Keeps touched b') (second : b'.Keeps touched b'') :
    b.Keeps touched b'' := by
  have moved := first.offset
  have moved' := second.offset
  refine ⟨Nat.le_trans moved moved', ?_⟩
  intro i untouched outside
  rw [second.byte i untouched (by omega), first.byte i untouched (by omega)]

theorem Keeps.mono (h : b.Keeps touched b') (le : ∀ i, touched i → touched' i) :
    b.Keeps touched' b' :=
  ⟨h.offset, fun i untouched => h.byte i fun member => untouched (le i member)⟩

theorem Keeps.bytes (h : b.Keeps touched b') {start count : Nat} (before : start + count ≤ b.offset)
    (untouched : ∀ i, start ≤ i → i < start + count → ¬touched i) :
    b'.region.bytes start count = b.region.bytes start count := by
  unfold Region.bytes
  apply List.map_congr_left
  intro i member
  rw [List.mem_range'_1] at member
  exact h.byte i (untouched i member.1 member.2) (.inl (by omega))

theorem Keeps.precedes (h : b.Keeps touched b') : b.Precedes touched b' :=
  ⟨h.offset, fun i before untouched => h.byte i untouched (.inl before)⟩

theorem Precedes.trans (first : b.Precedes touched b') (second : b'.Precedes touched b'') :
    b.Precedes touched b'' := by
  have moved := first.offset
  refine ⟨Nat.le_trans moved second.offset, ?_⟩
  intro i before untouched
  rw [second.byte i (by omega) untouched, first.byte i before untouched]

/-- Only what is touched before the cursor counts. -/
theorem Precedes.mono (h : b.Precedes touched b')
    (le : ∀ i < b.offset, touched i → touched' i) : b.Precedes touched' b' :=
  ⟨h.offset, fun i before untouched => h.byte i before fun member => untouched (le i before member)⟩

theorem emit_keeps {bytes : List UInt8} (written : b.emit bytes = .ok b') :
    b.Keeps touched b' := by
  have moved := (emit_appends written).offset
  refine ⟨by omega, ?_⟩
  intro i _ outside
  rw [emit, checkRange] at written
  split at written
  · cases written
    have apart : ¬(b.offset ≤ i ∧ i < b.offset + bytes.length) := by omega
    rw [Region.byte_write, if_neg apart]
  · cases written

theorem emitChunks_keeps (chunks : List (List UInt8)) (b : Buffer) :
    b.Keeps touched (emitChunks chunks b).1 := by
  induction chunks generalizing b with
  | nil => exact .refl b
  | cons chunk chunks ih =>
    rw [emitChunks]
    cases written : b.emit chunk with
    | ok b₁ => exact (emit_keeps written).trans (ih b₁)
    | error e => exact .refl b

theorem emitChunks_appends {chunks : List (List UInt8)}
    (written : (emitChunks chunks b).2 = .ok ()) :
    b.Appends (emitChunks chunks b).1 chunks.flatten := by
  induction chunks generalizing b with
  | nil => exact .refl b
  | cons chunk chunks ih =>
    rw [emitChunks] at written ⊢
    cases first : b.emit chunk with
    | ok b₁ =>
      rw [first] at written
      exact (emit_appends first).trans (ih written)
    | error e =>
      rw [first] at written
      cases written

theorem patchJump_keeps {field target : Nat} (patched : b.patchJump field target = .ok b') :
    b'.offset = b.offset ∧ b.Keeps (fun i => field ≤ i ∧ i < field + 4) b' := by
  have same : b'.offset = b.offset := by
    simp only [patchJump, patch] at patched
    split at patched
    · cases checked : b.checkRange field 4 with
      | ok _ => rw [checked] at patched; cases patched; rfl
      | error e => rw [checked] at patched; cases patched
    · cases patched
  exact ⟨same, Nat.le_of_eq same.symm, fun i apart _ => byte_of_patchJump patched (by omega)⟩

end Buffer

namespace Step

/-- Whether a byte belongs to a displacement that steps fill in if the first of them finds the
cursor at the given place. -/
def Fills (cursor : Nat) (steps : List Step) (i : Nat) : Prop :=
  ∃ patch ∈ patches cursor steps, patch.1 ≤ i ∧ i < patch.1 + 4

variable {linkage : Linkage}

theorem not_fills_nil {cursor i : Nat} : ¬Fills cursor [] i := by
  simp [Fills, patches]

theorem fills_append {cursor : Nat} {first second : List Step} {i : Nat} :
    Fills cursor (first ++ second) i ↔
      Fills cursor first i ∨ Fills (cursor + totalSize first) second i := by
  simp only [Fills, patches_append, List.mem_append, or_and_right, exists_or]

theorem fills_cons {cursor : Nat} {s : Step} {rest : List Step} {i : Nat} :
    Fills cursor (s :: rest) i ↔ Fills cursor [s] i ∨ Fills (cursor + s.size) rest i :=
  @fills_append cursor [s] rest i

/-- Steps fill in displacements among the bytes that they refer to and those that they write. -/
theorem AllInReach.fills {steps : List Step} {behind cursor i : Nat}
    (reach : AllInReach behind steps) (le : behind ≤ cursor) (filled : Fills cursor steps i) :
    cursor ≤ i + behind ∧ i < cursor + totalSize steps := by
  induction steps generalizing behind cursor with
  | nil => exact absurd filled not_fills_nil
  | cons s rest ih =>
    rw [totalSize]
    rcases fills_cons.1 filled with filled | filled
    · obtain ⟨patch, member, low, high⟩ := filled
      cases s with
      | resolve field target =>
        obtain ⟨_, _, _⟩ := reach.1
        simp only [patches, List.mem_singleton] at member
        subst member
        simp only at low high
        omega
      | emit _ | address _ _ | note _ => cases member
    · obtain ⟨low, high⟩ := ih reach.2 (by omega) filled
      omega

theorem perform_address_eq (linkage : Linkage) (dst : X86.Gpr) (symbol : Symbol) (b : Buffer) :
    ((Step.address dst symbol).perform linkage b).buffer =
        (b.emitInstr (.movImm dst (linkage.address symbol))).1 ∧
      ((Step.address dst symbol).perform linkage b).result =
        (b.emitInstr (.movImm dst (linkage.address symbol))).2 :=
  Prod.ext_iff.1 (perform_address dst symbol)

theorem offset_of_perform_ok {s : Step} {b : Buffer} (ok : (s.perform linkage b).result = .ok ()) :
    (s.perform linkage b).buffer.offset = b.offset + s.size := by
  cases s with
  | emit i => exact (Buffer.emitChunks_appends ok).offset
  | address dst symbol =>
    obtain ⟨buffer, result⟩ := perform_address_eq linkage dst symbol b
    rw [buffer, size_address dst symbol (linkage.address symbol)]
    rw [result] at ok
    exact (Buffer.emitChunks_appends ok).offset
  | resolve field target =>
    cases patched : b.patchJump (b.offset - field) (b.offset - target) with
    | ok b' =>
      rw [perform_resolve_of_ok patched]
      exact (Buffer.patchJump_keeps patched).1
    | error e =>
      rw [perform_resolve_of_error patched] at ok
      cases ok
  | note event => rfl

theorem perform_keeps (linkage : Linkage) (s : Step) (b : Buffer) :
    b.Keeps (Fills b.offset [s]) (s.perform linkage b).buffer := by
  cases s with
  | emit i => exact Buffer.emitChunks_keeps i.chunks b
  | address dst symbol =>
    rw [(perform_address_eq linkage dst symbol b).1]
    exact Buffer.emitChunks_keeps _ b
  | resolve field target =>
    cases patched : b.patchJump (b.offset - field) (b.offset - target) with
    | ok b' =>
      rw [perform_resolve_of_ok patched]
      exact (Buffer.patchJump_keeps patched).2.mono fun i inside => ⟨_, .head _, inside⟩
    | error e =>
      rw [perform_resolve_of_error patched]
      exact .refl b
  | note event => exact .refl b

theorem performAll_keeps (linkage : Linkage) (steps : List Step) (b : Buffer) :
    b.Keeps (Fills b.offset steps) (performAll linkage steps b).buffer := by
  induction steps generalizing b with
  | nil => exact .refl b
  | cons s rest ih =>
    have first : b.Keeps (Fills b.offset (s :: rest)) (s.perform linkage b).buffer :=
      (perform_keeps linkage s b).mono fun i filled => fills_cons.2 (.inl filled)
    rw [performAll]
    cases taken : (s.perform linkage b).result with
    | error e => exact first
    | ok _ =>
      have others := ih (s.perform linkage b).buffer
      rw [offset_of_perform_ok taken] at others
      exact first.trans (others.mono fun i filled => fills_cons.2 (.inr filled))

theorem offset_of_performAll_ok {steps : List Step} {b : Buffer}
    (ok : (performAll linkage steps b).result = .ok ()) :
    (performAll linkage steps b).buffer.offset = b.offset + totalSize steps := by
  induction steps generalizing b with
  | nil => rfl
  | cons s rest ih =>
    rw [performAll] at ok ⊢
    cases taken : (s.perform linkage b).result with
    | error e =>
      simp only [taken] at ok
      cases ok
    | ok _ =>
      simp only [taken] at ok
      have moved := ih ok
      rw [offset_of_perform_ok taken, Nat.add_assoc] at moved
      exact moved

theorem buffer_performAll_singleton (s : Step) (b : Buffer) :
    (performAll linkage [s] b).buffer = (s.perform linkage b).buffer := by
  rw [performAll]
  cases (s.perform linkage b).result <;> rfl

theorem performAll_append_of_error {first : List Step} {b : Buffer} {e : Error}
    (stopped : (performAll linkage first b).result = .error e) (second : List Step) :
    performAll linkage (first ++ second) b = performAll linkage first b := by
  induction first generalizing b with
  | nil => cases stopped
  | cons s rest ih =>
    rw [List.cons_append, performAll, performAll]
    rw [performAll] at stopped
    cases taken : (s.perform linkage b).result with
    | error e' => rfl
    | ok _ =>
      simp only [taken] at stopped
      simp only [ih stopped]

theorem performAll_append_of_ok {first : List Step} {b : Buffer}
    (ok : (performAll linkage first b).result = .ok ()) (second : List Step) :
    performAll linkage (first ++ second) b =
      let made := performAll linkage first b
      let others := performAll linkage second made.buffer
      ⟨others.buffer, made.links ++ others.links, made.events ++ others.events, others.result⟩ := by
  induction first generalizing b with
  | nil => rfl
  | cons s rest ih =>
    rw [List.cons_append, performAll, performAll]
    rw [performAll] at ok
    cases taken : (s.perform linkage b).result with
    | error e' =>
      simp only [taken] at ok
      cases ok
    | ok _ =>
      simp only [taken] at ok
      simp only [ih ok, List.append_assoc]

/-- Steps that come later change what they fill in, whether or not they are reached. -/
theorem performAll_append_keeps (linkage : Linkage) (first second : List Step) (b : Buffer) :
    (performAll linkage first b).buffer.Keeps (Fills (b.offset + totalSize first) second)
      (performAll linkage (first ++ second) b).buffer := by
  cases taken : (performAll linkage first b).result with
  | error e =>
    rw [performAll_append_of_error taken]
    exact .refl _
  | ok _ =>
    rw [performAll_append_of_ok taken, ← offset_of_performAll_ok taken]
    exact performAll_keeps linkage second _

end Step

/-! ## Two buffers side by side -/

namespace Buffer

/-- The same bytes before the same cursor, and at least as much room. -/
structure Roomier (b b' : Buffer) : Prop where
  code : b'.code = b.code
  capacity : b.capacity ≤ b'.capacity

variable {b b' : Buffer}

theorem Roomier.offset (w : b.Roomier b') : b'.offset = b.offset := by
  rw [← length_code b', w.code, length_code]

theorem getElem?_code {i : Nat} (before : i < b.offset) : b.code[i]? = some (b.region.byte i) := by
  simp [code, Region.bytes, before]

theorem Roomier.byte (w : b.Roomier b') {i : Nat} (before : i < b.offset) :
    b'.region.byte i = b.region.byte i := by
  have here := getElem?_code before
  rw [← w.code, getElem?_code (w.offset.symm ▸ before), Option.some.injEq] at here
  exact here

theorem Roomier.precedes {touched : Nat → Prop} (w : b.Roomier b') : b.Precedes touched b' :=
  ⟨Nat.le_of_eq w.offset.symm, fun _ before _ => w.byte before⟩

theorem emitChunks_roomier {touched : Nat → Prop} (chunks : List (List UInt8))
    (w : b.Roomier b') :
    ((emitChunks chunks b).2 = .ok () ∧ (emitChunks chunks b').2 = .ok () ∧
        (emitChunks chunks b).1.Roomier (emitChunks chunks b').1) ∨
      (∃ e, (emitChunks chunks b).2 = .error e) ∧
        (emitChunks chunks b).1.Precedes touched (emitChunks chunks b').1 := by
  induction chunks generalizing b b' with
  | nil => exact .inl ⟨rfl, rfl, w⟩
  | cons chunk chunks ih =>
    have same := w.offset
    have more := w.capacity
    by_cases fits : b.offset + chunk.length ≤ b.capacity
    · obtain ⟨c, here⟩ : ∃ c, b.emit chunk = .ok c := ⟨_, emit_of_fits fits⟩
      obtain ⟨c', there⟩ : ∃ c', b'.emit chunk = .ok c' := ⟨_, emit_of_fits (by omega)⟩
      have appended := emit_appends here
      have appended' := emit_appends there
      rw [emitChunks, emitChunks, here, there]
      apply ih
      constructor
      · rw [appended.code, appended'.code, w.code]
      · rw [appended.capacity, appended'.capacity]
        exact more
    · have refused := emit_of_exceeds (Nat.lt_of_not_le fits)
      right
      rw [emitChunks, refused]
      exact ⟨⟨_, rfl⟩, w.precedes.trans (emitChunks_keeps _ b').precedes⟩

end Buffer

namespace Step

variable {linkage : Linkage} {b b' : Buffer}

/-- Steps that fill in no displacement. -/
def Linear (steps : List Step) : Prop := ∀ field target, .resolve field target ∉ steps

theorem Linear.not_fills {steps : List Step} (linear : Linear steps) {cursor i : Nat} :
    ¬Fills cursor steps i := by
  rw [Fills, patches_eq_nil linear]
  simp

theorem perform_roomier (linkage : Linkage) {touched : Nat → Prop} {s : Step} (linear : Linear [s])
    (w : b.Roomier b') :
    ((s.perform linkage b).result = .ok () ∧ (s.perform linkage b').result = .ok () ∧
        (s.perform linkage b).buffer.Roomier (s.perform linkage b').buffer) ∨
      (∃ e, (s.perform linkage b).result = .error e) ∧
        (s.perform linkage b).buffer.Precedes touched (s.perform linkage b').buffer := by
  cases s with
  | emit i => exact Buffer.emitChunks_roomier i.chunks w
  | address dst symbol =>
    obtain ⟨buffer, result⟩ := perform_address_eq linkage dst symbol b
    obtain ⟨buffer', result'⟩ := perform_address_eq linkage dst symbol b'
    rw [buffer, buffer', result, result']
    exact Buffer.emitChunks_roomier _ w
  | resolve field target => exact absurd (.head _) (linear field target)
  | note event => exact .inl ⟨rfl, rfl, w⟩

/-- Without displacements to fill in, a smaller buffer ends up with the beginning of what a larger
one ends up with. -/
theorem performAll_precedes {touched : Nat → Prop} {steps : List Step} (linear : Linear steps)
    (w : b.Roomier b') :
    (performAll linkage steps b).buffer.Precedes touched (performAll linkage steps b').buffer := by
  induction steps generalizing b b' with
  | nil => exact w.precedes
  | cons s rest ih =>
    have single : Linear [s] := fun field target member =>
      linear field target (List.mem_cons.2 (.inl (List.mem_singleton.1 member)))
    have others : Linear rest := fun field target member => linear field target (.tail _ member)
    rcases perform_roomier linkage single w with ⟨here, there, w⟩ | ⟨⟨e, stopped⟩, precedes⟩
    · simp only [performAll, here, there]
      exact ih others w
    · rw [performAll_cons_of_error stopped]
      have later : (performAll linkage [s] b').buffer.Precedes touched
          (performAll linkage ([s] ++ rest) b').buffer :=
        (performAll_append_keeps linkage [s] rest b').precedes.mono fun i _ filled =>
          absurd filled others.not_fills
      rw [buffer_performAll_singleton] at later
      exact precedes.trans later

/-- Steps find room in both buffers and leave them alike, or the smaller one ends too early. -/
theorem performAll_roomier (linkage : Linkage) {steps : List Step} (w : b.Roomier b')
    (room : b.offset ≤ b.capacity) (small : b'.capacity ≤ maxReach)
    (reach : AllInReach b.offset steps) :
    ((performAll linkage steps b).result = .ok () ∧ (performAll linkage steps b').result = .ok () ∧
        (performAll linkage steps b).buffer.Roomier (performAll linkage steps b').buffer ∧
        (performAll linkage steps b).buffer.code = written linkage b.code steps ∧
        b.offset + totalSize steps ≤ b.capacity) ∨
      (∃ e, (performAll linkage steps b).result = .error e) ∧
        (performAll linkage steps b).buffer.offset < b.offset + totalSize steps := by
  have same := w.offset
  have more := w.capacity
  rcases Nat.lt_or_ge b.capacity (b.offset + totalSize steps) with exceeds | fits
  · obtain ⟨c, links, events, e, stopped, overflows⟩ :
        ∃ c links events e, performAll linkage steps b = ⟨c, links, events, .error e⟩ ∧ _ :=
      performAll_of_exceeds room (Nat.le_trans more small) reach exceeds
    obtain ⟨first, room', exceeds', last, -⟩ := overflows
    right
    rw [stopped]
    exact ⟨⟨_, rfl⟩, show c.offset < _ by omega⟩
  · have addressable : b'.capacity ≤ Region.addressSpace := Nat.le_trans small (by decide)
    have near := reach.near (Nat.le_trans fits (Nat.le_trans more small))
    obtain ⟨c, links, events, here, code, capacity⟩ :
        ∃ c links events, performAll linkage steps b = ⟨c, links, events, .ok ()⟩ ∧ _ :=
      performAll_of_fits room (Nat.le_trans more addressable) reach fits near
    obtain ⟨c', links', events', there, code', capacity'⟩ :
        ∃ c' links' events', performAll linkage steps b' = ⟨c', links', events', .ok ()⟩ ∧ _ :=
      performAll_of_fits (by omega) addressable (same.symm ▸ reach) (by omega) near
    left
    rw [here, there]
    refine ⟨rfl, rfl, ⟨?_, ?_⟩, code, fits⟩
    · rw [code, code', w.code]
    · rw [capacity, capacity']
      exact more

end Step

/-! ## Jumps that do not fit -/

theorem Buffer.offset_emitChunks_le (chunks : List (List UInt8)) (b : Buffer) :
    (emitChunks chunks b).1.offset ≤ b.offset + chunks.flatten.length := by
  induction chunks generalizing b with
  | nil => exact Nat.le_refl _
  | cons chunk chunks ih =>
    rw [emitChunks, List.flatten_cons, List.length_append]
    cases written : b.emit chunk with
    | ok b₁ =>
      have moved := (emit_appends written).offset
      have later := ih b₁
      simp only
      omega
    | error e => exact Nat.le_add_right _ _

theorem X86.Instr.chunks_of_isJump {i : Instr} (jump : i.isJump) :
    ∃ opcode d, i.chunks = [opcode, Instr.displacementBytes d] := by
  cases i with
  | je d => exact ⟨_, d, rfl⟩
  | jmp d => exact ⟨_, d, rfl⟩
  | _ => cases jump

/-- A jump that does not fit ends at the latest where its displacement would begin. -/
theorem Buffer.offset_of_cut_jump {b : Buffer} {i : Instr} (jump : i.isJump)
    (short : (b.emitInstr i).1.offset < b.offset + i.size) :
    (b.emitInstr i).1.offset + 4 ≤ b.offset + i.size := by
  obtain ⟨opcode, d, chunks⟩ := Instr.chunks_of_isJump jump
  have size : i.size = opcode.length + 4 := by
    simp [Instr.size, Instr.encode, chunks]
  rw [emitInstr, chunks, size] at short ⊢
  simp only [emitChunks] at short ⊢
  cases first : b.emit opcode with
  | error e =>
    simp only
    omega
  | ok b₁ =>
    have moved := (emit_appends first).offset
    rw [first] at short
    simp only at short ⊢
    cases second : b₁.emit (Instr.displacementBytes d) with
    | error e =>
      simp only
      omega
    | ok b₂ =>
      have moved' := (emit_appends second).offset
      rw [second] at short
      simp only [Step.length_displacementBytes] at short moved'
      omega

namespace Step

variable {linkage : Linkage}

theorem offset_perform_le (s : Step) (b : Buffer) :
    (s.perform linkage b).buffer.offset ≤ b.offset + s.size := by
  cases s with
  | emit i => exact Buffer.offset_emitChunks_le i.chunks b
  | address dst symbol =>
    rw [(perform_address_eq linkage dst symbol b).1,
      size_address dst symbol (linkage.address symbol)]
    exact Buffer.offset_emitChunks_le _ b
  | resolve field target =>
    cases patched : b.patchJump (b.offset - field) (b.offset - target) with
    | ok b' =>
      rw [perform_resolve_of_ok patched]
      exact Nat.le_of_eq (Buffer.patchJump_keeps patched).1
    | error e =>
      rw [perform_resolve_of_error patched]
      exact Nat.le_add_right _ _
  | note event => exact Nat.le_refl _

theorem offset_performAll_le (steps : List Step) (b : Buffer) :
    (performAll linkage steps b).buffer.offset ≤ b.offset + totalSize steps := by
  induction steps generalizing b with
  | nil => exact Nat.le_refl _
  | cons s rest ih =>
    have first : (s.perform linkage b).buffer.offset ≤ _ := offset_perform_le s b
    have later := ih (s.perform linkage b).buffer
    rw [performAll, totalSize]
    cases (s.perform linkage b).result with
    | error e => exact Nat.le_trans first (by omega)
    | ok _ => exact Nat.le_trans later (by omega)

theorem offset_of_cut_jump {steps : List Step} {b : Buffer} {i : Instr} (jump : i.isJump)
    (short : (performAll linkage (steps ++ [.emit i]) b).buffer.offset <
      b.offset + totalSize (steps ++ [.emit i])) :
    (performAll linkage (steps ++ [.emit i]) b).buffer.offset + 4 ≤
      b.offset + totalSize (steps ++ [.emit i]) := by
  have size : totalSize (steps ++ [.emit i]) = totalSize steps + i.size := totalSize_append _ _
  rw [size] at short ⊢
  cases taken : (performAll linkage steps b).result with
  | error e =>
    obtain ⟨opcode, d, chunks⟩ := Instr.chunks_of_isJump jump
    have wide : i.size = opcode.length + 4 := by simp [Instr.size, Instr.encode, chunks]
    have first : (performAll linkage steps b).buffer.offset ≤ _ := offset_performAll_le steps b
    rw [performAll_append_of_error taken]
    omega
  | ok _ =>
    have moved := offset_of_performAll_ok taken
    rw [performAll_append_of_ok taken, buffer_performAll_singleton, ← Nat.add_assoc, ← moved]
      at short ⊢
    exact Buffer.offset_of_cut_jump jump short

end Step

end TreeJit
