import TreeJit.Call
import TreeJit.Cli.HexDump
import TreeJit.Cli.Options
import TreeJit.Cli.Samples
import TreeJit.Decimal.Shortest
import TreeJit.Text.Quoted

/-! # What the program prints

`report` is the whole program as a function of its arguments: the exit code, the
text on standard output and the lines on standard error.  The samples run one
after the other with one configuration, so a capacity that grew for one of them
stays grown for the next.
-/

namespace TreeJit.Cli

/-! ## Lines -/

/-- How lines are shown: the least level that is shown, and whether in colour. -/
structure Style where
  threshold : Option Level := some .info
  colour : Bool := false

def levelColour : Level → String
  | .debug => "34"
  | .info => "32"
  | .warn => "33"
  | .error => "31"

def categoryColour : Category → String
  | .jit => "92"
  | .fallback => "93"

/-- The tag of a category in bold and colour.  The escape character itself is written out, since a
message never holds it. -/
def colouredTag (c : Category) : String :=
  s!"\\x1b[1m\\x1b[{categoryColour c}m{c.tag}\\x1b[39m\\x1b[0m"

/-- A level's name, right-aligned in five columns. -/
def paddedLevel (l : Level) : String := String.ofList (l.name.toList.leftpad 5 ' ')

/-- The line of an event in colour, after the place of a time stamp. -/
def colouredLine (e : Event) : String :=
  s!"\x1b[2m\x1b[0m \x1b[{levelColour e.level}m{paddedLevel e.level}\x1b[0m "
    ++ s!"{colouredTag e.category} {e.body}"

namespace Style

def shows (style : Style) (e : Event) : Bool :=
  match style.threshold with
  | some least => decide (least.rank ≤ e.level.rank)
  | none => false

def line (style : Style) (e : Event) : String :=
  if style.colour then colouredLine e else e.line

/-- The lines of the events that are shown. -/
def lines (style : Style) (events : List Event) : List String :=
  (events.filter style.shows).map style.line

end Style

/-! ## Samples -/

/-- What running a program leaves: its text on standard output and its events. -/
structure Transcript where
  output : String
  events : List Event

namespace Transcript

def empty : Transcript := ⟨"", []⟩

def append (a b : Transcript) : Transcript := ⟨a.output ++ b.output, a.events ++ b.events⟩

end Transcript

/-- The result of compiled code as text.  A statement shows the variable it leaves. -/
def renderResult (code : CompiledCode) (cell : Cell) : Except CallFailure String :=
  match code.result with
  | .number => (code.runNumber stepLimit cell).map fun (value, _) => String.ofList value.toShortest
  | .string =>
    (code.runString stepLimit cell).map fun (text, _) => String.ofList (Text.quoted text.chars)
  | .statement =>
    (code.run stepLimit cell).map fun left =>
      s!"{sampleVariable} = {String.ofList left.text.chars}"

/-- The dump of compiled code, if it is asked for. -/
def dump (options : Options) (sample : Sample) (code : CompiledCode) : String :=
  if options.dump then
    String.ofList
      (HexDump.render sample.name (HexDump.openAddresses code.links code.code.toList))
  else ""

/-- Compiles a sample and runs it on a fresh variable. -/
def runSample (options : Options) (config : Config) (sample : Sample) :
    Config × Except CallFailure Transcript :=
  let ctx : Context := { variableName := sampleVariable }
  let (config, made) := compileGrowing config ctx options.maxCapacity sample.tree
  match made.result with
  | .error e => (config, .ok ⟨"", made.events ++ [.fellBack sample.name e]⟩)
  | .ok code =>
    let result := (renderResult code (Cell.ofNumber options.value)).map fun rendered =>
      ⟨dump options sample code, made.events ++ [.ran sample.name rendered code.code.size]⟩
    (config, result)

/-- Runs samples one after the other, up to one that does not return. -/
def runSamples (options : Options) : Config → List Sample → Transcript × Bool
  | _, [] => (.empty, true)
  | config, sample :: samples =>
    match runSample options config sample with
    | (config, .ok first) =>
      let (rest, finished) := runSamples options config samples
      (first.append rest, finished)
    | (_, .error _) => (.empty, false)

/-! ## The whole program -/

/-- What a run of the program comes to. -/
structure Report where
  exitCode : UInt8
  output : String
  lines : List String

def usage : String :=
  "Usage:\n  pd-jit-run [--value <x>] [--dump]\n"
    ++ "  pd-jit-run [--capacity <bytes>] [--max-capacity <bytes>]\n"

/-- The line for a command line that could not be read. -/
def argumentErrorLine (e : ArgumentError) : String :=
  "Error: Custom \x7b kind: Other, error: "
    ++ String.ofList (Text.quoted e.message.toList) ++ " \x7d"

/-- The whole program on its arguments. -/
def report (style : Style) (arguments : List String) : Report :=
  match Options.parse arguments with
  | .error e => ⟨1, "", [argumentErrorLine e]⟩
  | .ok options =>
    if options.help then ⟨0, usage, []⟩
    else
      let config : Config := { capacity := options.capacity }
      let (transcript, finished) := runSamples options config (Sample.all options.value)
      ⟨if finished then 0 else 1, transcript.output, style.lines transcript.events⟩

end TreeJit.Cli
