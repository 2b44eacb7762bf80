import Mathlib.Data.List.Chain
import TreeJit.Proofs.Capacity
import TreeJit.Proofs.Reports
import TreeJit.Proofs.Widening

/-! # Buffers that grow

Trying again with a larger buffer after each overflow is as good as having had
the largest buffer from the start.  What makes that true is `compile_widens`: an
attempt that does not overflow has the result that it would have with any
larger buffer.

* `GrowsTo` — what a whole sequence of attempts comes to, by induction on the
  attempts.
* `compileGrowing_eq_compile_at_limit` — the result is that of a single attempt
  at the limit.
* `compileEach_forgets_history` — the capacity that earlier trees have left
  behind makes no difference to the results of later ones.
-/

namespace TreeJit

/-- The capacity that is tried next, if an event announces one. -/
def Event.retried? : Event → Option Nat
  | .retrying _ capacity => some capacity
  | _ => none

/-- The capacities that a compilation was tried with, given the first one: every later attempt was
announced. -/
def Compilation.attempts (made : Compilation) (first : Nat) : List Nat :=
  first :: made.events.filterMap Event.retried?

variable {config : Config} {ctx : Context} {limit : Nat} {root : Node}

/-! ## One attempt -/

/-- A single attempt announces no other. -/
theorem attempts_compile (config : Config) (ctx : Context) (root : Node) (first : Nat) :
    (compile config ctx root).attempts first = [first] := by
  rw [Compilation.attempts, compile_events]
  cases (compile config ctx root).result with
  | ok made => rfl
  | error e => cases e <;> rfl

/-! ## All attempts -/

/-- What attempts that begin with a configuration come to.  All but the last overflow, and the last
one is left configured and gives the result. -/
structure GrowsTo (config : Config) (ctx : Context) (limit : Nat) (root : Node) (left : Config)
    (made : Compilation) : Prop where
  chain : (made.attempts config.capacity).IsChain fun capacity next =>
    capacity < next ∧ next = min (2 * capacity) limit
  retried : ∃ before, made.attempts config.capacity = before ++ [left.capacity] ∧
    ∀ capacity ∈ before,
      overflowed (compile { config with capacity := capacity } ctx root).result
  enabled : left.enabled = config.enabled
  result : made.result = (compile left ctx root).result
  low : config.capacity ≤ left.capacity
  high : left.capacity ≤ max config.capacity limit
  exhausted : overflowed made.result → limit ≤ left.capacity

theorem growsTo_of_not_retried (settled : ¬Retried config ctx limit root) :
    GrowsTo config ctx limit root config (compile config ctx root) where
  chain := by simp [attempts_compile]
  retried := ⟨[], attempts_compile _ _ _ _, nofun⟩
  enabled := rfl
  result := rfl
  low := Nat.le_refl _
  high := Nat.le_max_left _ _
  exhausted exceeded := Nat.le_of_not_lt fun more => settled ⟨exceeded, more⟩

/-- An attempt that is retried, in front of attempts that start with the grown capacity. -/
theorem GrowsTo.after_retried (e : Error) {left : Config} {made : Compilation}
    (retried : Retried config ctx limit root)
    (rest : GrowsTo { config with capacity := grownCapacity config.capacity limit } ctx limit root
      left made) :
    GrowsTo config ctx limit root left ⟨(compile config ctx root).events ++
      .retrying e (grownCapacity config.capacity limit) :: made.events, made.result⟩ := by
  have more := (retried_iff.1 retried).2
  have bounded : grownCapacity config.capacity limit ≤ limit := Nat.min_le_right _ _
  have attempts : Compilation.attempts ⟨(compile config ctx root).events ++
      .retrying e (grownCapacity config.capacity limit) :: made.events, made.result⟩
        config.capacity =
      config.capacity :: made.attempts (grownCapacity config.capacity limit) := by
    have alone := attempts_compile config ctx root config.capacity
    simp only [Compilation.attempts, List.cons.injEq, true_and] at alone
    simp [Compilation.attempts, alone, Event.retried?]
  obtain ⟨before, split, overflows⟩ := rest.retried
  have low := rest.low
  have high := rest.high
  refine ⟨?_, ⟨config.capacity :: before, ?_, ?_⟩, rest.enabled, rest.result, ?_, ?_, rest.exhausted⟩
  · rw [attempts]
    exact List.IsChain.cons_cons ⟨more, rfl⟩ rest.chain
  · rw [attempts, split]
    rfl
  · intro capacity member
    cases member with
    | head => exact retried.1
    | tail _ member => exact overflows capacity member
  · simp only at low
    omega
  · simp only at high
    omega

theorem compileGrowing_growsTo (config : Config) (ctx : Context) (limit : Nat) (root : Node) :
    GrowsTo config ctx limit root (compileGrowing config ctx limit root).1
      (compileGrowing config ctx limit root).2 := by
  induction config using attempts_induction ctx limit root with
  | last config settled =>
    rw [compileGrowing_of_not_retried settled]
    exact growsTo_of_not_retried settled
  | again config retried ih =>
    obtain ⟨e, refused, -⟩ := exists_of_overflowed retried.1
    rw [compileGrowing_of_retried retried refused]
    exact .after_retried e retried ih

namespace GrowsTo

variable {left : Config} {made : Compilation}

theorem max_left (grown : GrowsTo config ctx limit root left made) :
    max left.capacity limit = max config.capacity limit := by
  have low := grown.low
  have high := grown.high
  omega

/-- Whatever the last attempt gives, an attempt at the limit gives the same. -/
theorem result_eq (grown : GrowsTo config ctx limit root left made) (positive : 0 < config.capacity)
    (mapped : ctx.memory.MapsUpTo (max config.capacity limit)) :
    made.result =
      (compile { config with capacity := max config.capacity limit } ctx root).result := by
  have low := grown.low
  have high := grown.high
  rw [grown.result, ← grown.enabled]
  rcases compile_widens ctx root (Nat.lt_of_lt_of_le positive low) high mapped with exceeded | same
  · -- The last attempt has overflowed, so it was made at the limit itself.
    have exhausted := grown.exhausted (grown.result ▸ exceeded)
    rw [show max config.capacity limit = left.capacity by omega]
  · exact same.symm

theorem capacity_eq (grown : GrowsTo config ctx limit root left made) :
    left.capacity = ((made.attempts config.capacity).find? fun capacity =>
      !overflowed (compile { config with capacity := capacity } ctx root).result).getD
        (max config.capacity limit) := by
  obtain ⟨before, split, overflows⟩ := grown.retried
  have none : before.find? (fun capacity =>
      !overflowed (compile { config with capacity := capacity } ctx root).result) = none := by
    simpa using overflows
  rw [split, List.find?_append, none, Option.none_or, List.find?_singleton]
  -- What is left configured either has been enough, or is the limit.
  have same : { config with capacity := left.capacity } = left := by rw [← grown.enabled]
  rw [same, ← grown.result]
  cases exceeded : overflowed made.result with
  | false => rfl
  | true =>
    have exhausted := grown.exhausted exceeded
    have low := grown.low
    have high := grown.high
    simp only [Bool.not_true, Bool.false_eq_true, if_false, Option.getD_none]
    omega

end GrowsTo

/-- Where all buffers up to the limit are mapped, a compilation with a growing buffer is one at the
limit.  The attempts have capacities that grow from the configured one on, each time to twice as
much or to the limit.  The result is that of a single compilation with the larger of the configured
capacity and the limit.  The capacity of the last attempt stays configured: the first one that was
enough, or the largest if none was. -/
theorem compileGrowing_eq_compile_at_limit (config : Config) (ctx : Context) (limit : Nat)
    (root : Node) (positive : 0 < config.capacity)
    (mapped : ctx.memory.MapsUpTo (max config.capacity limit)) :
    let most := max config.capacity limit
    let grown := compileGrowing config ctx limit root
    let attempts := grown.2.attempts config.capacity
    let overflows := fun capacity =>
      overflowed (compile { config with capacity := capacity } ctx root).result
    attempts.IsChain (fun capacity next => capacity < next ∧ next = min (2 * capacity) limit) ∧
    attempts.getLast? = some grown.1.capacity ∧
    grown.2.result = (compile { config with capacity := most } ctx root).result ∧
    grown.1.capacity = (attempts.find? fun capacity => !overflows capacity).getD most ∧
    grown.1.enabled = config.enabled := by
  have grown := compileGrowing_growsTo config ctx limit root
  obtain ⟨before, split, -⟩ := grown.retried
  refine ⟨grown.chain, ?_, grown.result_eq positive mapped, grown.capacity_eq, grown.enabled⟩
  rw [split, List.getLast?_concat]

/-- A loop of 85 bytes is compiled although the first attempt has room for 16 only. -/
theorem grown_loop_compiled :
    ∃ made, (compileGrowing ⟨true, 16⟩ { variableName := "x" } 200 (.loop (.var "x")
        (.assign "x" (.string .empty)))).2.result = .ok made ∧
      made.result = .statement ∧ made.code.size = 85 := by
  obtain ⟨-, -, result, -, -⟩ := compileGrowing_eq_compile_at_limit ⟨true, 16⟩
    { variableName := "x" } 200 (.loop (.var "x") (.assign "x" (.string .empty))) (by decide)
    (MemorySource.mapsUpTo_ample.2 (by decide))
  rw [result]
  exact compile_of_fits rfl (by decide) (by decide) rfl rfl (by decide)

/-! ## One tree after the other -/

/-- Compiles trees one after the other, each against a context of its own.  What is left configured
after one of them is what the next one begins with. -/
def compileEach (limit : Nat) : Config → List (Context × Node) → List (Config × Compilation)
  | _, [] => []
  | config, (ctx, root) :: jobs =>
    let grown := compileGrowing config ctx limit root
    grown :: compileEach limit grown.1 jobs

/-- The results of trees that are compiled one after the other. -/
def outcomes (limit : Nat) (config : Config) (jobs : List (Context × Node)) :
    List (Except Error CompiledCode) :=
  (compileEach limit config jobs).map fun grown => grown.2.result

/-- Each tree has the result of an attempt at the limit, which stays the same all along. -/
theorem outcomes_eq_map (jobs : List (Context × Node)) (positive : 0 < config.capacity)
    (mapped : ∀ job ∈ jobs, job.1.memory.MapsUpTo (max config.capacity limit)) :
    outcomes limit config jobs = jobs.map fun job =>
      (compile { config with capacity := max config.capacity limit } job.1 job.2).result := by
  induction jobs generalizing config with
  | nil => rfl
  | cons job jobs ih =>
    have grown := compileGrowing_growsTo config job.1 limit job.2
    obtain ⟨mapped, others⟩ := List.forall_mem_cons.1 mapped
    have rest := ih (Nat.lt_of_lt_of_le positive grown.low) (grown.max_left ▸ others)
    rw [grown.max_left, grown.enabled] at rest
    simp only [outcomes] at rest
    simp only [outcomes, compileEach, List.map_cons, rest, grown.result_eq positive mapped]

theorem capacities_isChain (jobs : List (Context × Node)) (positive : 0 < config.capacity) :
    (config.capacity :: (compileEach limit config jobs).map fun grown => grown.1.capacity).IsChain
      (· ≤ ·) := by
  induction jobs generalizing config with
  | nil => exact List.IsChain.singleton _
  | cons job jobs ih =>
    have grown := compileGrowing_growsTo config job.1 limit job.2
    exact List.IsChain.cons_cons grown.low (ih (Nat.lt_of_lt_of_le positive grown.low))

/-- Where all buffers up to the limit are mapped, what earlier trees have left behind makes no
difference to the results of later ones.  Trees that are compiled one after the other have the
results that they have with the initial configuration; in another order they have the same results
in that order; and the limit and the capacity to begin with matter only by the larger of the two.
The configured capacity never goes down. -/
theorem compileEach_forgets_history (config : Config) (limit : Nat) (jobs : List (Context × Node))
    (positive : 0 < config.capacity)
    (mapped : ∀ job ∈ jobs, job.1.memory.MapsUpTo (max config.capacity limit)) :
    outcomes limit config jobs = jobs.map (fun job =>
      (compileGrowing config job.1 limit job.2).2.result) ∧
    (∀ reordered, jobs.Perm reordered →
      (jobs.zip (outcomes limit config jobs)).Perm
        (reordered.zip (outcomes limit config reordered))) ∧
    (∀ (config' : Config) (limit' : Nat), config'.enabled = config.enabled → 0 < config'.capacity →
      max config'.capacity limit' = max config.capacity limit →
      outcomes limit' config' jobs = outcomes limit config jobs) ∧
    (config.capacity :: (compileEach limit config jobs).map fun grown =>
      grown.1.capacity).IsChain (· ≤ ·) := by
  refine ⟨?_, ?_, ?_, capacities_isChain jobs positive⟩
  · rw [outcomes_eq_map jobs positive mapped]
    apply List.map_congr_left
    intro job member
    have grown := compileGrowing_growsTo config job.1 limit job.2
    exact (grown.result_eq positive (mapped job member)).symm
  · intro reordered perm
    have paired (list : List (Context × Node))
        (mapped : ∀ job ∈ list, job.1.memory.MapsUpTo (max config.capacity limit)) :
        list.zip (outcomes limit config list) =
          list.map fun job => (job, (compile { config with capacity := max config.capacity limit }
            job.1 job.2).result) := by
      rw [outcomes_eq_map list positive mapped]
      simpa using List.zip_map' (f := id) (l := list)
    rw [paired jobs mapped, paired reordered fun job member => mapped job (perm.mem_iff.2 member)]
    exact perm.map _
  · intro config' limit' enabled positive' same
    rw [outcomes_eq_map jobs positive mapped, outcomes_eq_map jobs positive' (same ▸ mapped), same,
      enabled]

/-- A loop for which the buffer has to grow, a print that is turned down, and a number after them:
the number comes out as it does on its own. -/
theorem number_compiled_last :
    (outcomes 200 ⟨true, 16⟩ [
      ({ variableName := "x" }, .loop (.var "x") (.assign "x" (.string .empty))),
      ({ variableName := "x" }, .print []), ({ variableName := "x" }, .number .zero)])[2]? =
      some (compileGrowing ⟨true, 16⟩ { variableName := "x" } 200 (.number .zero)).2.result := by
  obtain ⟨same, -⟩ := compileEach_forgets_history ⟨true, 16⟩ 200
    [({ variableName := "x" }, .loop (.var "x") (.assign "x" (.string .empty))),
      ({ variableName := "x" }, .print []), ({ variableName := "x" }, .number .zero)] (by decide)
    (by simp [Region.addressSpace])
  rw [same]
  rfl

end TreeJit
