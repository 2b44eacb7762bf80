import TreeJit.Proofs.Functions

/-! # Compiled code means what its tree means

The end-to-end statement about compilation, from trees down to bytes, and what
it rests on outside the code: that different things have different addresses.

* `Linkage.standard_separates` — the standard linkage keeps things apart.
* `compile_preserves_meaning` — running the bytes of a compiled function does
  what the evaluation rules say, and nothing else.
-/

namespace TreeJit

open X86 (Instr encodeAll)
open Machine (Host Program Registers State Vectors Delivers)

/-! ## Addresses that differ -/

namespace Linkage

/-- The number that the standard linkage makes a symbol's address from. -/
def place : Symbol → Nat
  | .cell => 0x10000
  | .helper h => 0x20000 + 16 * helperIndex h
  | .literal index => 0x100000 + 16 * index

theorem standard_address (s : Symbol) : standard.address s = UInt64.ofNat (place s) := by
  cases s <;> rfl

theorem helperIndex_lt (h : Helper) : helperIndex h < 6 := by cases h <;> decide

theorem helperIndex_injective {h h' : Helper} (same : helperIndex h = helperIndex h') : h = h' := by
  revert same
  cases h <;> cases h' <;> decide

theorem place_injective {s t : Symbol} (same : place s = place t) : s = t := by
  cases s with
  | cell =>
    cases t with
    | cell => rfl
    | helper h | literal index => simp only [place] at same; omega
  | helper h =>
    have low := helperIndex_lt h
    cases t with
    | helper h' =>
      simp only [place] at same
      rw [helperIndex_injective (by omega : helperIndex h = helperIndex h')]
    | cell | literal index => simp only [place] at same; omega
  | literal index =>
    cases t with
    | literal index' =>
      simp only [place] at same
      rw [(by omega : index = index')]
    | helper h' =>
      have low := helperIndex_lt h'
      simp only [place] at same
      omega
    | cell => simp only [place] at same; omega

/-- The standard linkage gives different things different addresses, as long as the numbers of the
literals do not exceed the 64 bits of an address. -/
theorem standard_separates {p : Program} (linkage : p.linkage = standard)
    (few : p.literals.first + p.literals.texts.length ≤ 0x800000000000000) : p.Separates := by
  -- No address wraps around, so addresses differ where the numbers do.
  have fits : ∀ s ∈ p.symbols, place s < 0x10000000000000000 := by
    intro s known
    cases s with
    | cell => decide
    | helper h =>
      have low := helperIndex_lt h
      simp only [place]
      omega
    | literal index =>
      have listed : index < p.literals.first + p.literals.texts.length := by
        simp [Program.symbols, Literals.symbols] at known
        omega
      simp only [place]
      omega
  intro s hs t ht same
  rw [linkage, standard_address, standard_address] at same
  have numbers := congrArg UInt64.toNat same
  rw [UInt64.toNat_ofNat_of_lt' (fits s hs), UInt64.toNat_ofNat_of_lt' (fits t ht)] at numbers
  exact place_injective numbers

end Linkage

/-! ## Compiled functions as activations -/

namespace CompiledCode

variable {made : CompiledCode} {ctx : Context} {root : Node}

/-- A call of a compiled function. -/
def MadeFrom.activation (origin : made.MadeFrom ctx root) (separates : made.program.Separates)
    (host : Host) (entry : Registers) : Activation where
  host := host
  program := made.program
  instrs := Layout.function ctx.linkage ctx.firstLiteral root
  entry := entry
  code := origin.code
  separates := separates

theorem MadeFrom.runs (origin : made.MadeFrom ctx root) (separates : made.program.Separates)
    (host : Host) (entry : Registers) :
    (origin.activation separates host entry).Runs ctx.variableName made.result root
      ctx.firstLiteral where
  tree := origin.tree
  code := by
    change _ = Layout.function made.program.linkage ctx.firstLiteral root
    rw [origin.linkage]
    rfl
  compact := by
    change Layout.Compact made.program.linkage ctx.firstLiteral root
    rw [origin.linkage]
    exact origin.compact
  listed := by
    change made.program.literals.Lists ctx.firstLiteral root.literals
    rw [origin.literals]
    exact Literals.lists_self _ _

theorem release_of_block {s : State} {index : Nat} {t : Text} (string : made.result = .string)
    (owns : made.ownsResult) (rax : s.registers.rax = .block index)
    (text : State.textAt made.program s s.registers.rax = .ok t) :
    s.heap[index]? = some (some t) ∧
      made.release s = .ok { s with heap := s.heap.setIfInBounds index none } := by
  rw [rax, State.textAt] at text
  split at text
  · rename_i held
    cases text
    refine ⟨held, ?_⟩
    rw [release, if_pos ⟨string, owns⟩, rax, State.free, held]
    rfl
  · cases text
  · cases text

/-- Giving up a string that belongs to the caller works, and leaves the cell alone. -/
theorem MadeFrom.release_ok (origin : made.MadeFrom ctx root) {s : State} {value : Value}
    (kind : value.kind = made.result)
    (result : Delivers made.program s ctx.firstLiteral root value) :
    ∃ s', made.release s = .ok s' ∧ s'.cell = s.cell := by
  by_cases owned : made.result = .string ∧ made.ownsResult
  · obtain ⟨string, owns⟩ := owned
    have concat := origin.owns.symm.trans owns
    cases value with
    | number _ | nothing => rw [← kind] at string; cases string
    | string t =>
      obtain ⟨holds, source⟩ := result
      cases root with
      | concat lhs rhs => exact ⟨_, (release_of_block string owns source.1 holds.text).2, rfl⟩
      | _ => cases concat
  · exact ⟨s, if_neg owned, rfl⟩

end CompiledCode

/-- With the standard linkage, trees that are not refused are compiled where there is room, to code
that tells things apart. -/
theorem exists_compiled (config : Config) (ctx : Context) (root : Node) {kind : ValueKind}
    (enabled : config.enabled) (positive : 0 < config.capacity) (small : config.capacity ≤ maxReach)
    (mapped : ctx.memory.Maps config.capacity) (verdict : root.verdict ctx.variableName = .ok kind)
    (fits : Codegen.functionExtent ctx.variableName root ≤ config.capacity)
    (linkage : ctx.linkage = .standard)
    (few : ctx.firstLiteral + root.literals.length ≤ 0x800000000000000) :
    ∃ made, (compile config ctx root).result = .ok made ∧ made.result = kind ∧
      made.program.Separates := by
  obtain ⟨made, compiled, result, -⟩ := compile_of_fits enabled positive small mapped verdict fits
  have origin := compile_ok compiled
  refine ⟨made, compiled, result, Linkage.standard_separates (origin.linkage.trans linkage) ?_⟩
  rw [origin.literals]
  exact few

/-! ## Meaning -/

/-- Whether a value is where a caller looks for it: a number in `xmm0`, and a string where `rax` leads
to. -/
def Machine.State.Carries (p : Program) (s : State) : Value → Prop
  | .number x => s.vectors.xmm0 = x
  | .string t => State.textAt p s s.registers.rax = .ok t
  | .nothing => True

theorem Machine.Delivers.carries {p : Program} {s : State} {first : Nat} {n : Node} {value : Value}
    (h : Delivers p s first n value) : s.Carries p value := by
  cases value with
  | number _ => exact h
  | string _ => exact h.1.text
  | nothing => trivial

/-- A call of compiled code gives its caller what the function has returned. -/
theorem CompiledCode.MadeFrom.calls_ok {made : CompiledCode} {ctx : Context} {root : Node}
    (origin : made.MadeFrom ctx root) {fuel : Nat} {cell : Cell} {s : State} {value : Value}
    (returned : Machine.run Host.zero made.program fuel (State.enter .zero .zero false cell) =
      .returned s)
    (kind : value.kind = made.result)
    (result : Delivers made.program s ctx.firstLiteral root value) :
    made.run fuel cell = .ok s.cell ∧
      (∀ x, value = .number x → made.runNumber fuel cell = .ok (x, s.cell)) ∧
      (∀ t, value = .string t → made.runString fuel cell = .ok (t, s.cell)) := by
  obtain ⟨s', released, cell'⟩ := origin.release_ok kind result
  have executed : made.execute fuel cell = .ok s := by rw [CompiledCode.execute, returned]
  refine ⟨?_, ?_, ?_⟩
  · simp only [CompiledCode.run, executed, released, Activation.ok_bind, cell']
  · rintro x rfl
    have expected : made.expectResult .number = .ok () := if_pos kind.symm
    have xmm0 : s.vectors.xmm0 = x := result
    simp only [CompiledCode.runNumber, executed, expected, Activation.ok_bind, xmm0]
  · rintro t rfl
    have expected : made.expectResult .string = .ok () := if_pos kind.symm
    have text : State.textAt made.program s s.registers.rax = .ok t := result.1.text
    have copied : (State.textAt made.program s s.registers.rax).mapError CallFailure.trapped =
        .ok t := by
      rw [text]
      rfl
    simp only [CompiledCode.runString, executed, expected, copied, released, Activation.ok_bind,
      cell']

/-- Compilation preserves meaning.  Let different things have different addresses.  Whatever the caller
left in the registers, whatever helpers leave in the registers and in the part of the stack that they
need not preserve, and whatever the cell holds: the bytes of a compiled function return exactly if the
tree evaluates to something, with that value in place and the cell that the evaluation leaves.  They
never do anything that the machine has no answer to.  A call gives the caller that value. -/
theorem compile_preserves_meaning {config : Config} {ctx : Context} {root : Node}
    {made : CompiledCode} (compiled : (compile config ctx root).result = .ok made)
    (separates : made.program.Separates) (host : Host) (registers : Registers) (vectors : Vectors)
    (flag : Bool) (cell : Cell) :
    (∀ value left, Evaluates ctx.variableName cell root value left → ∃ fuel s,
      Machine.run host made.program fuel (State.enter registers vectors flag cell) = .returned s ∧
        s.cell = left ∧ s.Carries made.program value) ∧
    (∀ fuel s,
      Machine.run host made.program fuel (State.enter registers vectors flag cell) = .returned s →
      ∃ value, Evaluates ctx.variableName cell root value s.cell ∧ value.kind = made.result ∧
        s.Carries made.program value) ∧
    (∀ fuel t,
      Machine.run host made.program fuel (State.enter registers vectors flag cell) ≠ .trapped t) ∧
    (∀ value left, Evaluates ctx.variableName cell root value left → ∃ fuel,
      made.run fuel cell = .ok left ∧
        (∀ x, value = .number x → made.runNumber fuel cell = .ok (x, left)) ∧
        (∀ t, value = .string t → made.runString fuel cell = .ok (t, left))) := by
  have origin := compile_ok compiled
  have runs := origin.runs separates host registers
  refine ⟨fun value left evaluated => ?_, fun fuel s returned => ?_,
    runs.not_trapped vectors flag cell, fun value left evaluated => ?_⟩
  · obtain ⟨fuel, s, returned, finished⟩ := runs.returns vectors flag evaluated
    exact ⟨fuel, s, returned, finished.cell, finished.result.carries⟩
  · obtain ⟨value, evaluated, kind, finished⟩ := runs.finished returned
    exact ⟨value, evaluated, kind, finished.result.carries⟩
  · have runs := origin.runs separates Host.zero .zero
    obtain ⟨fuel, s, returned, finished⟩ := runs.returns .zero false evaluated
    obtain rfl := finished.cell
    exact ⟨fuel, origin.calls_ok returned (evaluated.kind_eq origin.tree) finished.result⟩

/-- A literal is joined to the text of a cell. -/
theorem compiled_concat_runs :
    ∃ made fuel, (compile {} { variableName := "x" }
        (.concat (.var "x") (.string ⟨[0x62], by decide⟩))).result = .ok made ∧
      made.program.Separates ∧
      made.runString fuel (.ofText ⟨[0x61], by decide⟩) =
        .ok (⟨[0x61, 0x62], by decide⟩, .ofText ⟨[0x61], by decide⟩) := by
  obtain ⟨made, compiled, -, separates⟩ := exists_compiled {} { variableName := "x" }
    (.concat (.var "x") (.string ⟨[0x62], by decide⟩)) rfl (by decide) (by decide) rfl rfl
    (by decide) rfl (by decide)
  have evaluated : Evaluates "x" (.ofText ⟨[0x61], by decide⟩)
      (.concat (.var "x") (.string ⟨[0x62], by decide⟩)) (.string ⟨[0x61, 0x62], by decide⟩)
      (.ofText ⟨[0x61], by decide⟩) := .string nofun rfl
  obtain ⟨-, -, -, called⟩ := compile_preserves_meaning compiled separates Host.zero .zero .zero
    false (.ofText ⟨[0x61], by decide⟩)
  obtain ⟨fuel, -, -, string⟩ := called _ _ evaluated
  exact ⟨made, fuel, compiled, separates, string _ rfl⟩

end TreeJit
