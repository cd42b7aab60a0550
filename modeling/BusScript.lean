import BusScript.Operation
import BusScript.Instruction
import BusScript.Settings
import BusScript.Event
import BusScript.Board
import BusScript.Session
import BusScript.Pin.Registry
import BusScript.Script.Rejection
import BusScript.Script.Cursor
import BusScript.Script.Literal
import BusScript.Script.Attribute
import BusScript.Script.Token
import BusScript.Script.Compile
import BusScript.Bus.Driver
import BusScript.Bus.HighZ
import BusScript.Bus.Dummy
import BusScript.Bus.I2c
import BusScript.Bus.Spi
import BusScript.Bus.Simulated
import BusScript.Execution.Trace
import BusScript.Execution.Tally
import BusScript.Execution.Bench
import BusScript.Execution.Run
import BusScript.Text.Segments
import BusScript.Text.Blank
import BusScript.Report.Palette
import BusScript.Report.Number
import BusScript.Report.Layout
import BusScript.CommandLine.Options
import BusScript.CommandLine.Console
import BusScript.Main
import BusScript.Proofs.Execution.Unbounded
import BusScript.Proofs.Execution.Unroll
import BusScript.Proofs.Script.Grammar
import BusScript.Proofs.Script.Continuation
import BusScript.Proofs.Script.Meaning
import BusScript.Proofs.Script.Acceptance
import BusScript.Proofs.Execution.Budget
import BusScript.Proofs.Bus.Acknowledgement
import BusScript.Proofs.Execution.Invariant
import BusScript.Proofs.Pin.Ownership
import BusScript.Proofs.Script.Refusal
import BusScript.Proofs.Pin.Records
import BusScript.Proofs.Execution.Calls
import BusScript.Proofs.Execution.Unfolding
import BusScript.Proofs.Script.Sequence
import BusScript.Proofs.Script.Composition
import BusScript.Proofs.Script.Copies
import BusScript.Proofs.Script.Filter
import BusScript.Proofs.Execution.Splitting
import BusScript.Proofs.Text.Lines
import BusScript.Proofs.Report.Rows
import BusScript.Proofs.Report.Remarks
import BusScript.Proofs.Bus.Transfer
import BusScript.Proofs.Report.Readback
import BusScript.Proofs.Bus.Registers
import BusScript.Proofs.Bus.Transaction
import BusScript.Proofs.Session.Station
import BusScript.Proofs.Bus.Outcomes
import BusScript.Proofs.Execution.Counts
import BusScript.Proofs.Execution.Entries
import BusScript.Proofs.Bus.Projection
import BusScript.Proofs.Session.Hooks
import BusScript.Proofs.Report.Echo
import BusScript.Proofs.Bus.Shifting
import BusScript.Proofs.Script.Movement
import BusScript.Proofs.Script.Position
import BusScript.Proofs.CommandLine.Input
import BusScript.Proofs.CommandLine.Scripts
import BusScript.Proofs.Text.Escapes
import BusScript.Proofs.Report.Numbers
import BusScript.Proofs.Report.Decoration
import BusScript.Proofs.Script.Displacement
import BusScript.Proofs.Script.Additions
import BusScript.Proofs.Script.Progress
import BusScript.Proofs.Script.Overflow
