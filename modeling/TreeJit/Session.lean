import TreeJit.Call
import TreeJit.Code.Listing

/-! # Sessions

A session holds one variable, one configuration and the functions compiled so
far, each in a numbered slot.  Requests are answered in order; a request that
fails changes nothing but what it had already done.  A compilation takes a slot
even if it fails, and a tree's string literals keep their numbers even then.
-/

namespace TreeJit

/-- A variable, a configuration, and compiled functions in numbered slots. -/
structure Session where
  variableName : String
  cell : Cell
  config : Config
  slots : Array (Option CompiledCode)
  literalCount : Nat

namespace Session

/-- Something to ask of a session. -/
inductive Request where
  | setNumber (value : Double)
  | setText (bytes : List UInt8)
  | number
  | string
  | stringBytes
  | setConfig (config : Config)
  | config
  | compile (root : Except ZeroByte Node)
  /-- Compiles with a growing buffer, up to a limit. -/
  | compileGrowing (root : Except ZeroByte Node) (limit : Nat)
  | run (slot : Nat)
  | runNumber (slot : Nat)
  | runString (slot : Nat)
  | code (slot : Nat)
  | drop (slot : Nat)

/-- What a session answers. -/
inductive Reply where
  | done
  | number (value : Double)
  | text (value : String)
  | bytes (value : List UInt8)
  | config (value : Config)
  | compiled (value : CompiledCode)
  | listing (value : String)

/-- Why a request fails. -/
inductive Failure where
  | error (e : Error)
  | zeroByte (z : ZeroByte)
  | noCode (slot : Nat)
  /-- Compiled code did not return. -/
  | stopped

/-- The session and the answer after a request, and the events on the way. -/
structure Result where
  session : Session
  reply : Except Failure Reply
  events : List Event

def noCodeMessage (slot : Nat) : String := s!"no code in slot {slot}"

def start (variableName : String) (cell : Cell) (config : Config) : Session :=
  ⟨variableName, cell, config, #[], 0⟩

/-- What the session's next tree is compiled against. -/
def context (s : Session) : Context :=
  { variableName := s.variableName, firstLiteral := s.literalCount }

def ofCallFailure : CallFailure → Failure
  | .error e => .error e
  | .trapped _ => .stopped
  | .unfinished => .stopped

/-- An answer that leaves the session as it is. -/
def answer (s : Session) (reply : Reply) : Result := ⟨s, .ok reply, []⟩

/-- The session after a compilation, which takes the next slot. -/
def settle (s : Session) (root : Node) (config : Config) (made : Compilation) : Result :=
  let next := { s with
    config := config
    slots := s.slots.push made.result.toOption
    literalCount := s.literalCount + root.literals.length }
  ⟨next, (made.result.map .compiled).mapError .error, made.events⟩

/-- The session after a tree that could not be built, which takes the next slot, too. -/
def settleBroken (s : Session) (z : ZeroByte) : Result :=
  ⟨{ s with slots := s.slots.push none }, .error (.zeroByte z), []⟩

/-- Calls the function in a slot. -/
def withCode (s : Session) (slot : Nat)
    (call : CompiledCode → Except CallFailure (Reply × Cell)) : Result :=
  match s.slots[slot]? with
  | some (some code) =>
    match call code with
    | .ok (reply, cell) => ⟨{ s with cell := cell }, .ok reply, []⟩
    | .error e => ⟨s, .error (ofCallFailure e), []⟩
  | _ => ⟨s, .error (.noCode slot), []⟩

/-- Answers a request. -/
def perform (s : Session) : Request → Result
  | .setNumber value => { s with cell := s.cell.setNumber value }.answer .done
  | .setText bytes =>
    match Text.ofBytes bytes with
    | .ok text => { s with cell := s.cell.setText text }.answer .done
    | .error z => ⟨s, .error (.zeroByte z), []⟩
  | .number => s.answer (.number s.cell.number)
  | .string =>
    { s with cell := s.cell.withText }.answer (.text (String.ofList s.cell.text.chars))
  | .stringBytes => { s with cell := s.cell.withText }.answer (.bytes s.cell.text.bytes)
  | .setConfig config => { s with config := config }.answer .done
  | .config => s.answer (.config s.config)
  | .compile (.ok root) => s.settle root s.config (TreeJit.compile s.config s.context root)
  | .compile (.error z) => s.settleBroken z
  | .compileGrowing (.ok root) limit =>
    let (config, made) := TreeJit.compileGrowing s.config s.context limit root
    s.settle root config made
  | .compileGrowing (.error z) _ => s.settleBroken z
  | .run slot => s.withCode slot fun code =>
    (code.run stepLimit s.cell).map fun cell => (.done, cell)
  | .runNumber slot => s.withCode slot fun code =>
    (code.runNumber stepLimit s.cell).map fun (value, cell) => (.number value, cell)
  | .runString slot => s.withCode slot fun code =>
    (code.runString stepLimit s.cell).map fun (text, cell) =>
      (.text (String.ofList text.chars), cell)
  | .code slot => s.withCode slot fun code =>
    .ok (.listing (Listing.code code.links code.code.toList), s.cell)
  | .drop slot =>
    match s.slots[slot]? with
    | some (some _) => { s with slots := s.slots.setIfInBounds slot none }.answer .done
    | _ => ⟨s, .error (.noCode slot), []⟩

end Session

end TreeJit
