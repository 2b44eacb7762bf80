import TreeJit.Compiler

/-! # Larger buffers

What fits into a buffer comes out the same in a larger one.  Two assemblies of
the same steps, one with more room than the other, go side by side until the
smaller buffer overflows; whatever else ends the first one ends the second one,
too.

* `Step.performAll_widens` — assembly overflows or agrees with that in a larger
  buffer.
* `compile_widens` — so does a compilation.  Its result is the same at every
  capacity at which it does not overflow.
-/

namespace TreeJit

/-! ## Writes -/

namespace Buffer

/-- The same bytes and the same cursor, with at least as much room. -/
structure Widens (b b' : Buffer) : Prop where
  offset : b'.offset = b.offset
  stored : b'.region.stored = b.region.stored
  capacity : b.capacity ≤ b'.capacity

variable {b b' : Buffer}

theorem Widens.code (w : b.Widens b') : b'.code = b.code := by
  have bytes : b'.region.byte = b.region.byte := by
    funext i
    simp only [Region.byte, w.stored]
  simp only [Buffer.code, Region.bytes, bytes, w.offset]

theorem Widens.write (w : b.Widens b') (start offset : Nat) (bytes : List UInt8) :
    Widens ⟨b.region.write start bytes, offset⟩ ⟨b'.region.write start bytes, offset⟩ where
  offset := rfl
  stored := by simp only [Region.write, w.stored]
  capacity := w.capacity

theorem checkRange_widens (w : b.Widens b') (start length : Nat) :
    overflowed (b.checkRange start length) ∨
      b.checkRange start length = .ok () ∧ b'.checkRange start length = .ok () := by
  unfold checkRange
  by_cases fits : start + length ≤ b.capacity
  · simp [fits, Nat.le_trans fits w.capacity]
  · simp [fits, overflowed, Error.isOverflow]

theorem emit_widens (w : b.Widens b') (bytes : List UInt8) :
    overflowed (b.emit bytes) ∨
      ∃ c c', b.emit bytes = .ok c ∧ b'.emit bytes = .ok c' ∧ c.Widens c' := by
  rcases checkRange_widens w b.offset bytes.length with exceeded | ⟨here, there⟩
  · left
    simpa [emit] using exceeded
  · right
    refine ⟨_, _, by rw [emit, here]; rfl, by rw [emit, w.offset, there]; rfl, ?_⟩
    exact w.write _ _ _

theorem patch_widens (w : b.Widens b') (start : Nat) (value : Int32) :
    overflowed (b.patch start value) ∨
      ∃ c c', b.patch start value = .ok c ∧ b'.patch start value = .ok c' ∧ c.Widens c' := by
  rcases checkRange_widens w start 4 with exceeded | ⟨here, there⟩
  · left
    simpa [patch] using exceeded
  · right
    refine ⟨_, _, by rw [patch, here]; rfl, by rw [patch, w.offset, there]; rfl, ?_⟩
    exact w.write _ _ _

theorem emitChunks_widens (chunks : List (List UInt8)) (w : b.Widens b') :
    overflowed (emitChunks chunks b).2 ∨ ∃ c c', emitChunks chunks b = (c, .ok ()) ∧
      emitChunks chunks b' = (c', .ok ()) ∧ c.Widens c' := by
  induction chunks generalizing b b' with
  | nil => exact .inr ⟨b, b', rfl, rfl, w⟩
  | cons chunk chunks ih =>
    rcases emit_widens w chunk with exceeded | ⟨c, c', here, there, w⟩
    · left
      obtain ⟨e, refused, exceeded⟩ := exists_of_overflowed exceeded
      rw [emitChunks, refused]
      exact exceeded
    · rw [emitChunks, emitChunks, here, there]
      exact ih w

/-- A jump that is too far is so in every buffer, since its distance is judged before the range. -/
theorem patchJump_widens (w : b.Widens b') (field target : Nat) :
    overflowed (b.patchJump field target) ∨
      (∃ e, b.patchJump field target = .error e ∧ b'.patchJump field target = .error e) ∨
      ∃ c c', b.patchJump field target = .ok c ∧ b'.patchJump field target = .ok c' ∧
        c.Widens c' := by
  simp only [patchJump]
  by_cases near : -0x80000000 ≤ distance field target ∧ distance field target < 0x80000000
  · simp only [near, if_true, and_self]
    rcases patch_widens w field (Int32.ofInt (distance field target)) with exceeded | made
    · exact .inl exceeded
    · exact .inr (.inr made)
  · simp only [near, if_false]
    exact .inr (.inl ⟨_, rfl, rfl⟩)

end Buffer

/-! ## Assembly -/

/-- An assembly that came out as another one did, in a buffer that is as large or larger. -/
structure Emission.Agrees {α : Type} (e e' : Emission α) : Prop where
  buffer : e.buffer.Widens e'.buffer
  links : e'.links = e.links
  events : e'.events = e.events
  result : e'.result = e.result

namespace Step

variable (linkage : Linkage) {b b' : Buffer}

theorem perform_widens (s : Step) (w : b.Widens b') :
    overflowed (s.perform linkage b).result ∨
      (s.perform linkage b).Agrees (s.perform linkage b') := by
  cases s with
  | emit i =>
    simp only [perform, Buffer.emitInstr]
    rcases Buffer.emitChunks_widens i.chunks w with exceeded | ⟨c, c', here, there, w⟩
    · exact .inl exceeded
    · rw [here, there]
      exact .inr ⟨w, rfl, rfl, rfl⟩
  | address dst symbol =>
    simp only [perform, Buffer.emitInstr]
    rcases Buffer.emitChunks_widens (X86.Instr.movImm dst (linkage.address symbol)).chunks w with
      exceeded | ⟨c, c', here, there, w⟩
    · left
      obtain ⟨e, refused, exceeded⟩ := exists_of_overflowed exceeded
      rw [refused]
      exact exceeded
    · rw [here, there]
      exact .inr ⟨w, by simp only [w.offset], rfl, rfl⟩
  | resolve field target =>
    simp only [perform, w.offset]
    rcases Buffer.patchJump_widens w (b.offset - field) (b.offset - target) with
      exceeded | ⟨e, here, there⟩ | ⟨c, c', here, there, w⟩
    · left
      obtain ⟨e, refused, exceeded⟩ := exists_of_overflowed exceeded
      rw [refused]
      exact exceeded
    · rw [here, there]
      exact .inr ⟨w, rfl, rfl, rfl⟩
    · rw [here, there]
      exact .inr ⟨w, rfl, rfl, rfl⟩
  | note event => exact .inr ⟨w, rfl, rfl, rfl⟩

/-- Steps overflow or do the same in a larger buffer. -/
theorem performAll_widens (steps : List Step) (w : b.Widens b') :
    overflowed (performAll linkage steps b).result ∨
      (performAll linkage steps b).Agrees (performAll linkage steps b') := by
  induction steps generalizing b b' with
  | nil => exact .inr ⟨w, rfl, rfl, rfl⟩
  | cons s rest ih =>
    rcases s.perform_widens linkage w with exceeded | agrees
    · left
      obtain ⟨e, refused, overflow⟩ := exists_of_overflowed exceeded
      rw [performAll, refused]
      exact exceeded
    · simp only [performAll, agrees.result]
      cases (s.perform linkage b).result with
      | error e => exact .inr agrees
      | ok _ =>
        rcases ih agrees.buffer with exceeded | others
        · exact .inl exceeded
        · right
          exact ⟨others.buffer, by simp only [agrees.links, others.links],
            by simp only [agrees.events, others.events], others.result⟩

end Step

theorem Script.assemble_widens {α : Type} (linkage : Linkage) {b b' : Buffer} (s : Script α)
    (w : b.Widens b') :
    overflowed (s.assemble linkage b).result ∨
      (s.assemble linkage b).Agrees (s.assemble linkage b') := by
  rcases Step.performAll_widens linkage s.steps w with exceeded | agrees
  · left
    obtain ⟨e, refused, exceeded⟩ := exists_of_overflowed exceeded
    rw [assemble, refused]
    exact exceeded
  · right
    simp only [assemble, agrees.result]
    cases (Step.performAll linkage s.steps b).result with
    | ok _ => exact ⟨agrees.buffer, agrees.links, agrees.events, rfl⟩
    | error e => exact ⟨agrees.buffer, agrees.links, agrees.events, rfl⟩

/-! ## Compilation -/

/-- Where a buffer can be had, a compilation overflows or has the result that it has in a larger
buffer. -/
theorem compile_widens {config : Config} {capacity : Nat} (ctx : Context) (root : Node)
    (positive : 0 < config.capacity) (le : config.capacity ≤ capacity)
    (mapped : ctx.memory.MapsUpTo capacity) :
    overflowed (compile config ctx root).result ∨
      (compile { config with capacity := capacity } ctx root).result =
        (compile config ctx root).result := by
  have here := Buffer.create_of_mapped positive (mapped _ le)
  have there := Buffer.create_of_mapped (Nat.lt_of_lt_of_le positive le) (mapped _ (Nat.le_refl _))
  have w : Buffer.Widens ⟨⟨config.capacity, #[]⟩, 0⟩ ⟨⟨capacity, #[]⟩, 0⟩ := ⟨rfl, rfl, le⟩
  cases enabled : config.enabled with
  | false => simp [compile, enabled]
  | true =>
    simp only [compile, enabled, here, there, nativeSupported]
    rcases (Codegen.function ctx.scope root).assemble_widens ctx.linkage w with
      exceeded | agrees
    · left
      obtain ⟨e, refused, exceeded⟩ := exists_of_overflowed exceeded
      simp only [refused]
      exact exceeded
    · right
      simp only [agrees.result]
      cases ((Codegen.function ctx.scope root).assemble ctx.linkage
          ⟨⟨config.capacity, #[]⟩, 0⟩).result with
      | error e => simp
      | ok kind => simp [agrees.buffer.code, agrees.links]

end TreeJit
