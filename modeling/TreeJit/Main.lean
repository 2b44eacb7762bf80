import TreeJit.Cli.Report

/-! # The program

Prints what `TreeJit.Cli.report` says.
-/

def main (arguments : List String) : IO UInt32 := do
  let report := TreeJit.Cli.report {} arguments
  IO.print report.output
  for line in report.lines do
    IO.eprintln line
  return report.exitCode.toUInt32
