import TreeJit.Proofs.Growth

/-! # What is logged, and how often

A rejection is noted where the error for it is made, and there are many such
places.  Nevertheless the log of a compilation can be read off its result, since
a script notes nothing but a rejection, and that as its last step
(`compile_events`).  With a growing buffer every attempt before the last one has
overflowed, so it has nothing to log but the announcement of the next attempt.

* `Config.grown` — the configurations of the attempts, one after the other.
* `Attempts` — which attempts are made: each one overflows, up to the last one.
* `log_matches_outcomes` — the events of a compilation, and of one with a growing
  buffer.
-/

namespace TreeJit

variable {config : Config} {ctx : Context} {limit : Nat} {root : Node}

/-- The configuration after a number of attempts that have overflowed. -/
def Config.grown (config : Config) (limit count : Nat) : Config :=
  { config with capacity := (fun capacity => grownCapacity capacity limit)^[count] config.capacity }

/-- An overflow is not logged by the attempt itself. -/
theorem events_of_overflow {e : Error} (refused : (compile config ctx root).result = .error e)
    (exceeded : e.isOverflow) : (compile config ctx root).events = [] := by
  rw [compile_events, refused]
  cases e with
  | overflow offset length capacity => rfl
  | _ => cases exceeded

/-! ## All attempts -/

/-- `Attempts config ctx limit root failures`: a compilation with a growing buffer makes one attempt
more than there are failures.  All but the last are retried, and `failures` are their errors. -/
structure Attempts (config : Config) (ctx : Context) (limit : Nat) (root : Node)
    (failures : List Error) : Prop where
  retried : ∀ i e, failures[i]? = some e → Retried (config.grown limit i) ctx limit root ∧
    (compile (config.grown limit i) ctx root).result = .error e
  last : ¬Retried (config.grown limit failures.length) ctx limit root

/-- What is logged between the attempts: the error of the attempt before, and the next capacity. -/
def announcements (config : Config) (limit : Nat) (failures : List Error) : List Event :=
  failures.mapIdx fun i e => .retrying e (config.grown limit (i + 1)).capacity

theorem Attempts.cons {e : Error} {failures : List Error} (retried : Retried config ctx limit root)
    (refused : (compile config ctx root).result = .error e)
    (rest : Attempts { config with capacity := grownCapacity config.capacity limit } ctx limit root
      failures) : Attempts config ctx limit root (e :: failures) where
  retried
    | 0, _, rfl => ⟨retried, refused⟩
    | i + 1, e', failed => rest.retried i e' failed
  last := rest.last

theorem compileGrowing_attempts (config : Config) (ctx : Context) (limit : Nat) (root : Node) :
    ∃ failures, Attempts config ctx limit root failures ∧
      compileGrowing config ctx limit root =
        let left := config.grown limit failures.length
        (left, ⟨announcements config limit failures ++ (compile left ctx root).events,
          (compile left ctx root).result⟩) := by
  induction config using attempts_induction ctx limit root with
  | last config settled => exact ⟨[], ⟨nofun, settled⟩, compileGrowing_of_not_retried settled⟩
  | again config retried ih =>
    obtain ⟨e, refused, exceeded⟩ := exists_of_overflowed retried.1
    obtain ⟨failures, attempts, result⟩ := ih
    refine ⟨e :: failures, attempts.cons retried refused, ?_⟩
    rw [compileGrowing_of_retried retried refused, events_of_overflow refused exceeded]
    simp only [result, announcements, List.mapIdx_cons]
    rfl

/-! ## The log -/

theorem warnings_announcements (config : Config) (limit : Nat) (failures : List Error) :
    (announcements config limit failures).filter (fun event => event.level = .warn) =
      announcements config limit failures := by
  rw [List.filter_eq_self]
  intro event logged
  obtain ⟨i, _, rfl⟩ := List.mem_mapIdx.1 logged
  rfl

theorem fallbacks_announcements (config : Config) (limit : Nat) (failures : List Error) :
    (announcements config limit failures).filter (fun event => event.category = .fallback) =
      [] := by
  rw [List.filter_eq_nil_iff]
  intro event logged
  obtain ⟨i, _, rfl⟩ := List.mem_mapIdx.1 logged
  nofun

theorem length_rejections_le {α : Type} (r : Except Error α) : (rejections r).length ≤ 1 := by
  unfold rejections
  split
  · exact Nat.le_refl _
  · exact Nat.zero_le _

/-- One attempt logs no warning, and the one thing that it logs as left to others is a rejection. -/
theorem compile_filter (config : Config) (ctx : Context) (root : Node) :
    (compile config ctx root).events.filter (fun event => event.level = .warn) = [] ∧
    (compile config ctx root).events.filter (fun event => event.category = .fallback) =
      rejections (compile config ctx root).result := by
  rw [compile_events]
  cases (compile config ctx root).result with
  | ok made => exact ⟨rfl, rfl⟩
  | error e => cases e <;> exact ⟨rfl, rfl⟩

/-- The log matches the outcome.  A compilation logs one rejection, of the kind that its error
names, or one success, with the kind of the root, the length and the kind of the result and the
capacity; with any other error, such as that of a mapping that is refused, it logs nothing.  With a
growing buffer, there is one warning for each attempt that is retried, in order, each with the error
of that attempt and the next capacity, and then what the last attempt logs.  So there is at most one
rejection, however many attempts there are. -/
theorem log_matches_outcomes (config : Config) (ctx : Context) (limit : Nat) (root : Node) :
    (compile config ctx root).events =
      (match (compile config ctx root).result with
      | .ok made => [.compiled root.kind made.code.size made.result config.capacity]
      | .error (.unsupported kind) => [.rejected kind]
      | .error _ => []) ∧
    ∃ failures, Attempts config ctx limit root failures ∧
      let last := compile (config.grown limit failures.length) ctx root
      let grown := (compileGrowing config ctx limit root).2
      grown.result = last.result ∧
      grown.events = announcements config limit failures ++ last.events ∧
      grown.events.filter (fun event => event.level = .warn) =
        announcements config limit failures ∧
      grown.events.filter (fun event => event.category = .fallback) = rejections last.result ∧
      (grown.events.filter (fun event => event.category = .fallback)).length ≤ 1 := by
  constructor
  · rw [compile_events]
    cases (compile config ctx root).result with
    | ok made => rfl
    | error e => cases e <;> rfl
  · obtain ⟨failures, attempts, result⟩ := compileGrowing_attempts config ctx limit root
    obtain ⟨noWarning, fallbacks⟩ := compile_filter (config.grown limit failures.length) ctx root
    refine ⟨failures, attempts, ?_⟩
    simp only [result, List.filter_append, warnings_announcements, fallbacks_announcements,
      noWarning, fallbacks, List.append_nil, List.nil_append, length_rejections_le, and_self]

/-- A print behind a literal, with a buffer that has no room for the literal at first: the print is
turned down and logged once. -/
theorem rejection_logged_after_retry :
    (compileGrowing ⟨true, 8⟩ { variableName := "x" } 64
      (.concat (.string .empty) (.print []))).2.events.filter
        (fun event => event.category = .fallback) = [.rejected .print] := by
  let root : Node := .concat (.string .empty) (.print [])
  obtain ⟨-, failures, -, result, -, -, logged, -⟩ :=
    log_matches_outcomes ⟨true, 8⟩ { variableName := "x" } 64 root
  have refused : (compile ⟨true, 64⟩ { variableName := "x" } root).result =
      .error (.unsupported .print) := by
    have settles := function_settles ⟨true, 64⟩ { variableName := "x" } root (by decide)
    exact compile_of_refused rfl (Buffer.create_of_mapped (by decide) rfl)
      (settles.fits (by decide)).1
  have grown := (compileGrowing_growsTo ⟨true, 8⟩ { variableName := "x" } 64 root).result_eq
    (by decide) (MemorySource.mapsUpTo_ample.2 (by decide))
  rw [logged, ← result, grown, show max 8 64 = 64 from rfl, refused]
  rfl

end TreeJit
