import TreeJit.Eval
import TreeJit.Main
import TreeJit.Node.Equality
import TreeJit.Session
import TreeJit.Workbench
import TreeJit.Proofs.BufferView
import TreeJit.Proofs.Assembly
import TreeJit.Proofs.Capacity
import TreeJit.Proofs.Decoding
import TreeJit.Proofs.Grammar
import TreeJit.Proofs.Layout
import TreeJit.Proofs.Activation
import TreeJit.Proofs.Execution
import TreeJit.Proofs.Expressions
import TreeJit.Proofs.Statements
import TreeJit.Proofs.Functions
import TreeJit.Proofs.Meaning
import TreeJit.Proofs.StackSafety
import TreeJit.Proofs.References
import TreeJit.Proofs.Offenders
import TreeJit.Proofs.Reports
import TreeJit.Proofs.Widening
import TreeJit.Proofs.Growth
import TreeJit.Proofs.NumberText
import TreeJit.Proofs.Accesses
import TreeJit.Proofs.LastWrite
import TreeJit.Proofs.BoundedBytes
import TreeJit.Proofs.Disassembly
import TreeJit.Proofs.Relocation
import TreeJit.Proofs.LoopJumps
import TreeJit.Proofs.ReadOnly
import TreeJit.Proofs.Leaves
import TreeJit.Proofs.SideBySide
import TreeJit.Proofs.Truncation
import TreeJit.Proofs.NearestDouble
import TreeJit.Proofs.NumeralGrammar
import TreeJit.Proofs.LeadingNumber
import TreeJit.Proofs.Spacing
import TreeJit.Proofs.DecimalText
import TreeJit.Proofs.WholeNumbers
import TreeJit.Proofs.SixDigits
import TreeJit.Proofs.Settling
import TreeJit.Proofs.Countdown
import TreeJit.Proofs.ExactArithmetic
import TreeJit.Proofs.ArgumentGrammar
import TreeJit.Proofs.EventLog
import TreeJit.Proofs.TreeEquality
import TreeJit.Proofs.JumpRange
import TreeJit.Proofs.HexRows
import TreeJit.Proofs.DirectEmission
import TreeJit.Proofs.Sessions
import TreeJit.Proofs.SampleRuns
