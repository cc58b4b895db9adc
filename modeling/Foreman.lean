import Foreman.Assembly
import Foreman.Call
import Foreman.CommandLine
import Foreman.CommandLine.Arguments
import Foreman.Config
import Foreman.Coordinator
import Foreman.Error
import Foreman.Fault
import Foreman.Files
import Foreman.Files.Tree
import Foreman.Function
import Foreman.Function.Registry
import Foreman.Job
import Foreman.Ledger
import Foreman.Liveness.Monitor
import Foreman.Liveness.Prober
import Foreman.Liveness.Watch
import Foreman.Main
import Foreman.Net.Address
import Foreman.Net.Address.Printer
import Foreman.Net.Address.Reader
import Foreman.Notice
import Foreman.Proofs.Answers
import Foreman.Proofs.Balance
import Foreman.Proofs.Bookkeeping
import Foreman.Proofs.Changes
import Foreman.Proofs.Collecting
import Foreman.Proofs.Completion
import Foreman.Proofs.Consistency
import Foreman.Proofs.Correctness
import Foreman.Proofs.Cutting
import Foreman.Proofs.Deadlines
import Foreman.Proofs.Dealing
import Foreman.Proofs.Detection
import Foreman.Proofs.Directories
import Foreman.Proofs.Dispatches
import Foreman.Proofs.Effects
import Foreman.Proofs.Encoding
import Foreman.Proofs.Fates
import Foreman.Proofs.Finality
import Foreman.Proofs.Grouping
import Foreman.Proofs.Histories
import Foreman.Proofs.KeyOrder
import Foreman.Proofs.Leases
import Foreman.Proofs.Messages
import Foreman.Proofs.Mirror
import Foreman.Proofs.Moves
import Foreman.Proofs.Outputs
import Foreman.Proofs.Pacing
import Foreman.Proofs.Passes
import Foreman.Proofs.Periods
import Foreman.Proofs.Phases
import Foreman.Proofs.Reading
import Foreman.Proofs.Regrouping
import Foreman.Proofs.Reports
import Foreman.Proofs.Reservations
import Foreman.Proofs.Results
import Foreman.Proofs.Running
import Foreman.Proofs.Shuffle
import Foreman.Proofs.Slowest
import Foreman.Proofs.Steps
import Foreman.Proofs.Table
import Foreman.Proofs.Turns
import Foreman.Proofs.Waiting
import Foreman.Proofs.Watches
import Foreman.Record
import Foreman.Simulation
import Foreman.Simulation.Cluster
import Foreman.Simulation.Script
import Foreman.Simulation.Transport
import Foreman.Splits
import Foreman.Task
import Foreman.Task.Id
import Foreman.Task.Table
import Foreman.Text.CaseTable
import Foreman.Text.Duration
import Foreman.Text.Lowercase
import Foreman.Text.Numeral
import Foreman.Text.Utf8
import Foreman.Text.Words
import Foreman.Wire
import Foreman.Wire.Json
import Foreman.Wire.Json.Reader
import Foreman.Worker
