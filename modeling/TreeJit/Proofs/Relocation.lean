import TreeJit.Proofs.Capacity
import TreeJit.Proofs.Widening

/-! # Code that can stand anywhere

Loops are resolved through offsets in the buffer, and yet the bytes of a tree do
not depend on where they stand.  The non-trivial ingredient is
`Step.written_append_left`: no step refers to a byte that was there before the
tree.  That holds of a tree that is refused in the middle of a loop, too.

* `Script.Orderly.appends` — what a script appends where it finds room.
* `code_is_relocatable` — code at any cursor is the code of an empty buffer, and
  trees one after the other have their codes one after the other.
-/

namespace TreeJit

/-- A script that does not overflow ends as its outcome says, and behind the bytes that were there
it has written those that it writes on its own. -/
theorem Script.Orderly.appends {α : Type} {s : Script α} {b : Buffer} (orderly : s.Orderly)
    (linkage : Linkage) (small : b.capacity ≤ maxReach) (room : b.offset ≤ b.capacity)
    (kept : ¬overflowed (s.assemble linkage b).result) :
    (s.assemble linkage b).result = s.outcome ∧
      b.Appends (s.assemble linkage b).buffer (Step.written linkage [] s.steps) ∧
      b.offset + s.size ≤ b.capacity := by
  rcases Nat.lt_or_ge b.capacity (b.offset + s.size) with exceeds | fits
  · obtain ⟨offset, length, overflow, -⟩ := (orderly.settles linkage room small).exceeds exceeds
    rw [overflow] at kept
    exact absurd rfl kept
  · have near : ∀ step ∈ s.steps, step.Near := by
      apply orderly.reach.near
      rw [← Script.size]
      omega
    obtain ⟨b', links, events, made, appended⟩ :
        ∃ b' links events, s.assemble linkage b = ⟨b', links, events, s.outcome⟩ ∧ _ :=
      assemble_of_fits orderly.reach room (Nat.le_trans small (by decide)) fits near
    rw [made]
    exact ⟨rfl, appended, fits⟩

/-- The bytes of a tree's code. -/
def Context.codeOf (ctx : Context) (root : Node) : List UInt8 :=
  Step.written ctx.linkage [] (Codegen.node ctx.scope root).steps

namespace Buffer

/-- A buffer in which nothing has been written yet. -/
def blank (capacity : Nat) : Buffer := ⟨⟨capacity, #[]⟩, 0⟩

/-- Writes the code of a tree at the cursor. -/
def place (b : Buffer) (ctx : Context) (root : Node) : Emission ValueKind :=
  (Codegen.node ctx.scope root).assemble ctx.linkage b

/-- Writes the code of trees one after the other, whether or not they are refused. -/
def placeEach (b : Buffer) : List (Context × Node) → Buffer × List (Except Error ValueKind)
  | [] => (b, [])
  | (ctx, root) :: jobs =>
    let made := b.place ctx root
    let others := made.buffer.placeEach jobs
    (others.1, made.result :: others.2)

variable {b : Buffer} {ctx : Context} {root : Node}

theorem place_appends (small : b.capacity ≤ maxReach) (room : b.offset ≤ b.capacity)
    (kept : ¬overflowed (b.place ctx root).result) :
    (b.place ctx root).result = root.verdict ctx.variableName ∧
      b.Appends (b.place ctx root).buffer (ctx.codeOf root) ∧
      b.offset + root.extent ctx.variableName ≤ b.capacity := by
  obtain ⟨result, appended, fits⟩ :=
    (Codegen.node_orderly ctx.scope root).appends ctx.linkage small room kept
  rw [Node.outcome_node] at result
  rw [Node.size_node] at fits
  exact ⟨result, appended, fits⟩

theorem place_of_fits (small : b.capacity ≤ maxReach)
    (fits : b.offset + root.extent ctx.variableName ≤ b.capacity) :
    ¬overflowed (b.place ctx root).result := by
  have settles :=
    (Codegen.node_orderly ctx.scope root).settles ctx.linkage (b := b) (by omega) small
  rw [Node.size_node, Node.outcome_node] at settles
  intro exceeded
  have exceeds := (settles.overflows_iff fun _ => Node.isRefusal_of_verdict).1
    (exists_of_overflowed exceeded)
  change b.capacity < b.offset + root.extent ctx.variableName at exceeds
  omega

theorem room_of_appends {b' : Buffer} (fits : b.offset + root.extent ctx.variableName ≤ b.capacity)
    (appended : b.Appends b' (ctx.codeOf root)) : b'.offset ≤ b'.capacity := by
  have length : (ctx.codeOf root).length = 0 + (Codegen.node ctx.scope root).size :=
    Step.length_written (Codegen.node_orderly ctx.scope root).reach
  rw [Node.size_node] at length
  rw [appended.offset, appended.capacity, length, Nat.zero_add]
  exact fits

/-- Trees one after the other, none of which overflows. -/
theorem placeEach_appends (jobs : List (Context × Node)) (small : b.capacity ≤ maxReach)
    (room : b.offset ≤ b.capacity) (kept : ∀ r ∈ (b.placeEach jobs).2, ¬overflowed r) :
    (b.placeEach jobs).1.code = b.code ++ (jobs.map fun job => job.1.codeOf job.2).flatten ∧
      (b.placeEach jobs).2 = jobs.map (fun job => job.2.verdict job.1.variableName) ∧
      ∀ job ∈ jobs, job.2.extent job.1.variableName ≤ b.capacity := by
  induction jobs generalizing b with
  | nil => simp [placeEach]
  | cons job jobs ih =>
    simp only [placeEach, List.forall_mem_cons] at kept
    obtain ⟨result, appended, fits⟩ := place_appends small room kept.1
    -- The rest begins with a buffer of the same capacity, behind the code of the first tree.
    have same := appended.capacity
    obtain ⟨code, results, extents⟩ :=
      ih (same ▸ small) (room_of_appends fits appended) kept.2
    rw [same] at extents
    refine ⟨?_, ?_, ?_⟩
    · simp only [placeEach, List.map_cons, List.flatten_cons]
      rw [code, appended.code, List.append_assoc]
    · simp only [placeEach, List.map_cons]
      rw [result, results]
    · rw [List.forall_mem_cons]
      exact ⟨by omega, extents⟩

end Buffer

/-- Compilation only appends, and what it appends does not depend on the place.  In a buffer of at
most 2 GiB, a tree that does not overflow leaves all bytes before the cursor as they are, and behind
them come the bytes that it has in an empty buffer, with the same result or the same refusal.  So
trees that are compiled one after the other have the code and the results that they have on their
own, at whatever capacity each of them finds room. -/
theorem code_is_relocatable (b : Buffer) (small : b.capacity ≤ maxReach)
    (room : b.offset ≤ b.capacity) :
    (∀ (ctx : Context) (root : Node) (empty : Buffer), empty.capacity ≤ maxReach →
      empty.offset = 0 → ¬overflowed (b.place ctx root).result →
      ¬overflowed (empty.place ctx root).result →
      (b.place ctx root).buffer.code = b.code ++ (empty.place ctx root).buffer.code ∧
        (b.place ctx root).result = (empty.place ctx root).result) ∧
    (∀ jobs : List (Context × Node), (∀ r ∈ (b.placeEach jobs).2, ¬overflowed r) →
      (∀ job ∈ jobs, ¬overflowed ((Buffer.blank b.capacity).place job.1 job.2).result) ∧
      ∀ capacity : Context × Node → Nat,
        (∀ job ∈ jobs, capacity job ≤ maxReach ∧
          ¬overflowed ((Buffer.blank (capacity job)).place job.1 job.2).result) →
        (b.placeEach jobs).1.code = b.code ++ (jobs.map fun job =>
          ((Buffer.blank (capacity job)).place job.1 job.2).buffer.code).flatten ∧
        (b.placeEach jobs).2 = jobs.map (fun job =>
          ((Buffer.blank (capacity job)).place job.1 job.2).result)) := by
  constructor
  · intro ctx root empty small' start kept kept'
    obtain ⟨result, appended, -⟩ := Buffer.place_appends small room kept
    obtain ⟨result', appended', -⟩ := Buffer.place_appends small' (by omega) kept'
    have nothing : empty.code = [] := by
      apply List.eq_nil_of_length_eq_zero
      rw [Buffer.length_code, start]
    rw [appended.code, appended'.code, nothing, List.nil_append, result, result']
    exact ⟨rfl, rfl⟩
  · intro jobs kept
    obtain ⟨code, results, extents⟩ := Buffer.placeEach_appends jobs small room kept
    refine ⟨?_, ?_⟩
    · intro job member
      apply Buffer.place_of_fits
      · exact small
      · simpa [Buffer.blank, Buffer.capacity] using extents job member
    · intro capacity kept'
      have alone : ∀ job ∈ jobs,
          ((Buffer.blank (capacity job)).place job.1 job.2).buffer.code =
            job.1.codeOf job.2 ∧
          ((Buffer.blank (capacity job)).place job.1 job.2).result =
            job.2.verdict job.1.variableName := by
        intro job member
        obtain ⟨small', kept'⟩ := kept' job member
        obtain ⟨result, appended, -⟩ :=
          Buffer.place_appends (b := .blank (capacity job)) small' (Nat.zero_le _) kept'
        exact ⟨appended.code, result⟩
      rw [code, results, List.map_congr_left fun job member => (alone job member).1,
        List.map_congr_left fun job member => (alone job member).2]
      exact ⟨rfl, rfl⟩

/-- A loop whose body is refused, and after it one that is compiled, behind a byte that was there
before. -/
theorem loops_relocated :
    let b : Buffer := ⟨⟨200, #[0x90]⟩, 1⟩
    let refused : Context × Node := ({ variableName := "x" }, .loop (.var "x") (.print []))
    let taken : Context × Node :=
      ({ variableName := "x" }, .loop (.var "x") (.assign "x" (.string .empty)))
    (b.placeEach [refused, taken]).1.code =
      0x90 :: (((Buffer.blank 100).place refused.1 refused.2).buffer.code ++
        ((Buffer.blank 100).place taken.1 taken.2).buffer.code) ∧
    (b.placeEach [refused, taken]).2 =
      [((Buffer.blank 100).place refused.1 refused.2).result,
        ((Buffer.blank 100).place taken.1 taken.2).result] := by
  intro b refused taken
  obtain ⟨-, each⟩ := code_is_relocatable b (by decide) (by decide)
  obtain ⟨-, alone⟩ := each [refused, taken] (by decide +kernel)
  obtain ⟨code, results⟩ := alone (fun _ => 100) (by decide +kernel)
  have before : b.code = [0x90] := rfl
  refine ⟨?_, results⟩
  rw [code, before]
  simp only [List.map_cons, List.map_nil, List.flatten_cons, List.flatten_nil, List.append_nil,
    List.cons_append, List.nil_append]

end TreeJit
