import TreeJit.Codegen

/-! # Compiling trees to functions

`compile` makes one attempt in a buffer of the configured capacity.
`compileGrowing` is the policy for buffers that turn out too small: it doubles
the capacity after each overflow until the limit is reached, and the larger
capacity stays configured.
-/

namespace TreeJit

/-! ## Configuration -/

/-- The capacity of a code buffer unless another one is configured. -/
def defaultCapacity : Nat := 4096

/-- Whether generated code can be run; the library's own machine is the one it is made for. -/
def nativeSupported : Bool := true

/-- What a compiler is set to. -/
structure Config where
  enabled : Bool := nativeSupported
  capacity : Nat := defaultCapacity
  deriving DecidableEq

/-- What a tree is compiled against: the variable's name, where things lie, the number of the
tree's first string literal, and the memory that its code is written to. -/
structure Context where
  variableName : String
  linkage : Linkage := Linkage.standard
  firstLiteral : Nat := 0
  memory : MemorySource := .ample

def Context.scope (ctx : Context) : Codegen.Scope := ⟨ctx.variableName, ctx.firstLiteral⟩

/-! ## Compiled code -/

/-- A function made from a tree. -/
structure CompiledCode where
  code : Array UInt8
  result : ValueKind
  /-- Whether the string that the function returns is a fresh block, to be freed by the caller. -/
  ownsResult : Bool
  links : List Link
  linkage : Linkage
  literals : Literals

/-- The result of a compilation and the events on the way. -/
structure Compilation where
  events : List Event
  result : Except Error CompiledCode

namespace Node

/-- Whether a tree is a concatenation, the one kind whose result is a fresh block. -/
def isConcat : Node → Bool
  | .concat _ _ => true
  | _ => false

end Node

/-- Compiles a tree into a function, in a fresh buffer of the configured capacity. -/
def compile (config : Config) (ctx : Context) (root : Node) : Compilation :=
  if !config.enabled then ⟨[], .error .disabled⟩
  else if !nativeSupported then ⟨[], .error .unsupportedTarget⟩
  else match Buffer.create config.capacity ctx.memory with
    | .error e => ⟨[], .error e⟩
    | .ok buffer =>
      let emission := (Codegen.function ctx.scope root).assemble ctx.linkage buffer
      match emission.result with
      | .error e => ⟨emission.events, .error e⟩
      | .ok result =>
        let made : CompiledCode := {
          code := emission.buffer.code.toArray
          result := result
          ownsResult := root.isConcat
          links := emission.links
          linkage := ctx.linkage
          literals := ⟨ctx.firstLiteral, root.literals⟩ }
        let event := Event.compiled root.kind made.code.size result emission.buffer.capacity
        ⟨emission.events ++ [event], .ok made⟩

/-- The capacity after an overflow: twice as much, but no more than the limit. -/
def grownCapacity (capacity limit : Nat) : Nat := min (2 * capacity) limit

/-- Compiles a tree, with a larger buffer after each overflow until the limit is reached.  Gives the
configuration that is left behind, too. -/
def compileGrowing (config : Config) (ctx : Context) (limit : Nat) (root : Node) :
    Config × Compilation :=
  let attempt := compile config ctx root
  match attempt.result with
  | .error e =>
    let next := grownCapacity config.capacity limit
    if e.isOverflow ∧ config.capacity < next then
      let (left, rest) := compileGrowing { config with capacity := next } ctx limit root
      (left, ⟨attempt.events ++ .retrying e next :: rest.events, rest.result⟩)
    else (config, attempt)
  | .ok _ => (config, attempt)
termination_by limit - config.capacity
decreasing_by
  have hnext : next ≤ limit := Nat.min_le_right _ _
  omega

/-! ## Another attempt -/

section retrying

variable {config : Config} {ctx : Context} {limit : Nat} {root : Node}

/-- Whether there is another attempt after one: it has overflowed, and it was not made at the
limit. -/
def Retried (config : Config) (ctx : Context) (limit : Nat) (root : Node) : Prop :=
  overflowed (compile config ctx root).result ∧ config.capacity < limit

/-- Where no buffer can be had, nothing overflows. -/
theorem capacity_pos_of_overflowed (exceeded : overflowed (compile config ctx root).result) :
    0 < config.capacity := by
  rw [Nat.pos_iff_ne_zero]
  intro none
  have refused : Buffer.create 0 ctx.memory = .error (.alloc .zeroBytes) := rfl
  unfold compile at exceeded
  rw [none, refused] at exceeded
  split at exceeded
  · cases exceeded
  · cases exceeded

/-- Doubling makes more of what is not zero, so that the capacity stands still at the limit only.
`compileGrowing` asks for the larger capacity itself, by which it can be seen to end. -/
theorem retried_iff : Retried config ctx limit root ↔
    overflowed (compile config ctx root).result ∧
      config.capacity < grownCapacity config.capacity limit := by
  refine and_congr_right fun exceeded => ?_
  have positive := capacity_pos_of_overflowed exceeded
  rw [grownCapacity]
  omega

theorem compileGrowing_of_not_retried (settled : ¬Retried config ctx limit root) :
    compileGrowing config ctx limit root = (config, compile config ctx root) := by
  rw [retried_iff] at settled
  rw [compileGrowing]
  cases result : (compile config ctx root).result with
  | ok made => simp only
  | error e =>
    rw [result] at settled
    simp only
    exact if_neg settled

theorem compileGrowing_of_retried {e : Error} (retried : Retried config ctx limit root)
    (refused : (compile config ctx root).result = .error e) :
    compileGrowing config ctx limit root =
      let next := grownCapacity config.capacity limit
      let grown := compileGrowing { config with capacity := next } ctx limit root
      (grown.1, ⟨(compile config ctx root).events ++ .retrying e next :: grown.2.events,
        grown.2.result⟩) := by
  obtain ⟨exceeded, more⟩ := retried_iff.1 retried
  rw [refused] at exceeded
  rw [compileGrowing]
  simp only [refused, show e.isOverflow = true from exceeded, more, and_self, if_true]

/-- Induction on the attempts of a compilation.  Each retry leaves less to the limit. -/
theorem attempts_induction (ctx : Context) (limit : Nat) (root : Node) {motive : Config → Prop}
    (last : ∀ config, ¬Retried config ctx limit root → motive config)
    (again : ∀ config, Retried config ctx limit root →
      motive { config with capacity := grownCapacity config.capacity limit } → motive config)
    (config : Config) : motive config := by
  induction gap : limit - config.capacity using Nat.strongRecOn generalizing config with
  | ind gap ih =>
    by_cases retried : Retried config ctx limit root
    · have below := retried.2
      have more := (retried_iff.1 retried).2
      exact again config retried (ih _ (by simp only; omega) _ rfl)
    · exact last config retried

end retrying

end TreeJit
