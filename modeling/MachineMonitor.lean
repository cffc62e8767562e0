import MachineMonitor.Config.Json
import MachineMonitor.Main
import MachineMonitor.Monitor.Log
import MachineMonitor.Proofs.Expr.Nesting
import MachineMonitor.Proofs.Expr.Shape
import MachineMonitor.Proofs.Expr.Grammar
import MachineMonitor.Proofs.Expr.Denotation
import MachineMonitor.Proofs.Numeral
import MachineMonitor.Proofs.Expr.Spelling
import MachineMonitor.Proofs.Expr.Alternation
import MachineMonitor.Proofs.Expr.Layout
import MachineMonitor.Proofs.Expr.Printing
import MachineMonitor.Proofs.Watch.Slots
import MachineMonitor.Proofs.Watch.Sweep
import MachineMonitor.Proofs.Monitor.Run
import MachineMonitor.Proofs.Monitor.History
import MachineMonitor.Proofs.Monitor.Accepted
import MachineMonitor.Proofs.Machine.Reference
import MachineMonitor.Proofs.Json.Plain
import MachineMonitor.Proofs.Monitor.Ledger
import MachineMonitor.Proofs.Session.Traceless
import MachineMonitor.Proofs.Server.Lines
import MachineMonitor.Proofs.Session.InPlace
import MachineMonitor.Proofs.Json.RoundTrip
import MachineMonitor.Proofs.Json.Members
import MachineMonitor.Proofs.Protocol.Message
import MachineMonitor.Proofs.Protocol.Request
import MachineMonitor.Proofs.Expr.Pattern
import MachineMonitor.Proofs.Expr.Segmentation
import MachineMonitor.Proofs.Expr.Phrase
import MachineMonitor.Proofs.Expr.Reading
import MachineMonitor.Proofs.Expr.Substitution
import MachineMonitor.Proofs.Expr.Program
import MachineMonitor.Proofs.Expr.Rejection
import MachineMonitor.Proofs.Session.Inspection
import MachineMonitor.Proofs.Expr.Priority
import MachineMonitor.Proofs.Monitor.Registers
import MachineMonitor.Proofs.Session.Setup
import MachineMonitor.Proofs.Watch.Operations
import MachineMonitor.Proofs.Watch.Arena
import MachineMonitor.Proofs.Watch.HighWater
import MachineMonitor.Proofs.Monitor.RepeatedIds
import MachineMonitor.Proofs.Monitor.Identity
import MachineMonitor.Proofs.Monitor.Leftovers
import MachineMonitor.Proofs.Expr.Footprint
import MachineMonitor.Proofs.Monitor.Quiet
import MachineMonitor.Proofs.Watch.Calls
import MachineMonitor.Proofs.Expr.Collecting
import MachineMonitor.Proofs.Expr.Breaks
import MachineMonitor.Proofs.Expr.Truncation
import MachineMonitor.Proofs.Expr.Joining
import MachineMonitor.Proofs.Expr.Respacing
import MachineMonitor.Proofs.Expr.Dereference
import MachineMonitor.Proofs.Monitor.Paging
import MachineMonitor.Proofs.Expr.Counting
import MachineMonitor.Proofs.Expr.Caret
import MachineMonitor.Proofs.Expr.Literal
import MachineMonitor.Proofs.Expr.Marking
