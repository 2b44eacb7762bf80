import TreeJit.Cli.Report
import TreeJit.Proofs.Growth

/-! # Samples one after the other

The command line compiles its samples in a row, and a capacity that has grown for
one of them stays grown for the next.  That is `compileEach` on the trees of the
samples, and the rest of a sample's run looks at its own compilation only.  So
what is known of compilations in a row carries over to the program.

* `runSamples_eq` — the samples are compiled as by `compileEach`, and the run ends
  with the first call that does not return.
* `runSamples_output` — what a sample prints on standard output is what it prints
  on its own.
-/

namespace TreeJit.Cli

variable {options : Options}

/-! ## A sample and its compilation -/

/-- What is compiled for a sample. -/
def Sample.job (sample : Sample) : Context × Node :=
  ({ variableName := sampleVariable }, sample.tree)

/-- The rest of a sample's run, once its tree has been compiled. -/
def present (options : Options) (sample : Sample) (made : Compilation) :
    Except CallFailure Transcript :=
  match made.result with
  | .error e => .ok ⟨"", made.events ++ [.fellBack sample.name e]⟩
  | .ok code =>
    (renderResult code (Cell.ofNumber options.value)).map fun rendered =>
      ⟨dump options sample code, made.events ++ [.ran sample.name rendered code.code.size]⟩

theorem runSample_eq (options : Options) (config : Config) (sample : Sample) :
    runSample options config sample =
      let grown := compileGrowing config sample.job.1 options.maxCapacity sample.job.2
      (grown.1, present options sample grown.2) := by
  simp only [runSample, present, Sample.job]
  split <;> simp only [*]

/-- Transcripts one after the other, up to a call that has not returned. -/
def joined : List (Except CallFailure Transcript) → Transcript × Bool
  | [] => (.empty, true)
  | .ok first :: rest => (first.append (joined rest).1, (joined rest).2)
  | .error _ :: _ => (.empty, false)

/-! ## All samples -/

/-- The program's samples are compiled one after the other, each with what the one before it has
left configured. -/
theorem runSamples_eq (options : Options) (config : Config) (samples : List Sample) :
    runSamples options config samples =
      joined (List.zipWith (fun sample grown => present options sample grown.2) samples
        (compileEach options.maxCapacity config (samples.map Sample.job))) := by
  induction samples generalizing config with
  | nil => rfl
  | cons sample samples ih =>
    rw [runSamples, runSample_eq, List.map_cons, compileEach, List.zipWith_cons_cons]
    simp only
    cases shown : present options sample (compileGrowing config sample.job.1 options.maxCapacity
        sample.job.2).2 with
    | ok first => simp only [joined, ih]
    | error e => rfl

/-! ## Standard output -/

/-- What is printed depends on the result of a compilation, not on what has been tried before. -/
theorem present_output (options : Options) (sample : Sample) {made made' : Compilation}
    (same : made.result = made'.result) :
    (present options sample made).map Transcript.output =
      (present options sample made').map Transcript.output := by
  rw [present, present, same]
  cases made'.result with
  | error e => rfl
  | ok code =>
    simp only
    cases renderResult code (Cell.ofNumber options.value) <;> rfl

/-- What a list of runs prints, and whether all of them return. -/
theorem joined_output {runs runs' : List (Except CallFailure Transcript)}
    (same : runs.map (Except.map Transcript.output) = runs'.map (Except.map Transcript.output)) :
    (joined runs).1.output = (joined runs').1.output ∧ (joined runs).2 = (joined runs').2 := by
  induction runs generalizing runs' with
  | nil =>
    cases runs' with
    | nil => exact ⟨rfl, rfl⟩
    | cons _ _ => cases same
  | cons run runs ih =>
    cases runs' with
    | nil => cases same
    | cons run' runs' =>
      obtain ⟨first, others⟩ := List.cons.inj same
      obtain ⟨output, finished⟩ := ih others
      cases run with
      | error e =>
        cases run' with
        | error e' => exact ⟨rfl, rfl⟩
        | ok _ => cases first
      | ok shown =>
        cases run' with
        | error e' => cases first
        | ok shown' =>
          have alike : shown.output = shown'.output := Except.ok.inj first
          exact ⟨by simp only [joined, Transcript.append, alike, output], finished⟩

/-- Each sample prints what it prints after an attempt at the limit. -/
theorem compileEach_output (samples : List Sample) {config : Config}
    (positive : 0 < config.capacity)
    (mapped : max config.capacity options.maxCapacity < Region.addressSpace) :
    (List.zipWith (fun sample grown => present options sample grown.2) samples
        (compileEach options.maxCapacity config (samples.map Sample.job))).map
        (Except.map Transcript.output) =
      samples.map fun sample =>
        (present options sample (compile
          { config with capacity := max config.capacity options.maxCapacity } sample.job.1
            sample.job.2)).map Transcript.output := by
  induction samples generalizing config with
  | nil => rfl
  | cons sample samples ih =>
    have grown := compileGrowing_growsTo config sample.job.1 options.maxCapacity sample.job.2
    have rest := ih (Nat.lt_of_lt_of_le positive grown.low) (grown.max_left ▸ mapped)
    rw [grown.max_left, grown.enabled] at rest
    have first := present_output options sample
      (grown.result_eq positive (MemorySource.mapsUpTo_ample.2 mapped))
    simp only [List.map_cons, compileEach, List.zipWith_cons_cons, rest, first]

/-- Where all buffers up to the limit are mapped, the samples print on standard output what each of
them prints on its own with the configuration at the start, and the run ends early exactly if it
does so for samples on their own. -/
theorem runSamples_output (options : Options) (config : Config) (samples : List Sample)
    (positive : 0 < config.capacity)
    (mapped : max config.capacity options.maxCapacity < Region.addressSpace) :
    let ran := runSamples options config samples
    let alone := joined (samples.map fun sample => (runSample options config sample).2)
    ran.1.output = alone.1.output ∧ ran.2 = alone.2 := by
  rw [runSamples_eq]
  refine joined_output ?_
  rw [compileEach_output samples positive mapped, List.map_map]
  refine List.map_congr_left fun sample _ => ?_
  have grown := compileGrowing_growsTo config sample.job.1 options.maxCapacity sample.job.2
  simp only [Function.comp, runSample_eq]
  exact (present_output options sample
    (grown.result_eq positive (MemorySource.mapsUpTo_ample.2 mapped))).symm

end TreeJit.Cli
