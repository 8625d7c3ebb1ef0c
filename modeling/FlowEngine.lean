import FlowEngine.CommandLine
import FlowEngine.Decimal.Shortest
import FlowEngine.Disk.Basic
import FlowEngine.Disk.Path
import FlowEngine.Engine.Change
import FlowEngine.Engine.Fault
import FlowEngine.Engine.Inputs
import FlowEngine.Engine.Procedure
import FlowEngine.Engine.Sessions
import FlowEngine.Engine.State
import FlowEngine.Engine.Steps
import FlowEngine.Engine.Sweep
import FlowEngine.Flow.Basic
import FlowEngine.Flow.Fault
import FlowEngine.Flow.File
import FlowEngine.Flow.Redirect
import FlowEngine.Flow.Registry
import FlowEngine.Flow.Validity
import FlowEngine.Flow.Wire
import FlowEngine.Host.Fault
import FlowEngine.Host.Launch
import FlowEngine.Host.Pool
import FlowEngine.Host.Scheduler
import FlowEngine.Host.StatePaths
import FlowEngine.Identifier
import FlowEngine.Json.Basic
import FlowEngine.Json.Number
import FlowEngine.Json.Printer
import FlowEngine.Json.Reader
import FlowEngine.Json.Shape
import FlowEngine.Main
import FlowEngine.Markup.Fault
import FlowEngine.Markup.Record
import FlowEngine.Proofs.Course
import FlowEngine.Proofs.Effects
import FlowEngine.Proofs.Execution
import FlowEngine.Proofs.Interpreter
import FlowEngine.Proofs.Layout
import FlowEngine.Proofs.Outline
import FlowEngine.Proofs.Reachable
import FlowEngine.Proofs.Requests
import FlowEngine.Provider.Basic
import FlowEngine.Provider.Destination
import FlowEngine.Provider.Http
import FlowEngine.Provider.Scripted
import FlowEngine.Rehearsal.Basic
import FlowEngine.Rehearsal.Documents
import FlowEngine.Rehearsal.Launched
import FlowEngine.Rehearsal.Performance
import FlowEngine.Rehearsal.Wording
import FlowEngine.Session.Basic
import FlowEngine.Session.Graph
import FlowEngine.Session.InUse
import FlowEngine.Session.Input
import FlowEngine.Session.Parameters
import FlowEngine.Session.Record
import FlowEngine.Session.Wire
import FlowEngine.Settings.Basic
import FlowEngine.Settings.File
import FlowEngine.Table
import FlowEngine.Text.Base36
import FlowEngine.Text.Blank
import FlowEngine.Text.Hidden
import FlowEngine.Text.Percent
import FlowEngine.Text.Quoted
import FlowEngine.Text.Utf8
import FlowEngine.Yaml.Cursor
import FlowEngine.Yaml.Node
import FlowEngine.Yaml.Scalar
import FlowEngine.Yaml.Scanner
import FlowEngine.Yaml.Shape
import FlowEngine.Yaml.Token
import FlowEngine.Proofs.TurnOrder
import FlowEngine.Proofs.StepRuns
import FlowEngine.Proofs.FailureChain
import FlowEngine.Proofs.SessionRun
import FlowEngine.Proofs.Tally
import FlowEngine.Proofs.Nesting
import FlowEngine.Proofs.Tables
import FlowEngine.Proofs.Books
import FlowEngine.Proofs.Files
import FlowEngine.Proofs.FileBalance
import FlowEngine.Proofs.Freshness
import FlowEngine.Proofs.Regime
import FlowEngine.Proofs.Upkeep
import FlowEngine.Proofs.Handover
import FlowEngine.Proofs.Accounts
import FlowEngine.Proofs.Deposits
import FlowEngine.Proofs.Reaping
import FlowEngine.Proofs.Scheduling
import FlowEngine.Proofs.Workshop
import FlowEngine.Proofs.Turns
import FlowEngine.Proofs.Occupancy
import FlowEngine.Proofs.Completions
import FlowEngine.Proofs.Interference
import FlowEngine.Proofs.JobRuns
import FlowEngine.Proofs.Shift
import FlowEngine.Proofs.Cycles
import FlowEngine.Proofs.Tenancy
import FlowEngine.Proofs.Dialogues
import FlowEngine.Proofs.Conversations
import FlowEngine.Proofs.Rearrangement
import FlowEngine.Proofs.Twins
import FlowEngine.Proofs.Pairing
import FlowEngine.Proofs.Indifference
import FlowEngine.Proofs.Queueing
import FlowEngine.Proofs.Tokens
import FlowEngine.Proofs.Records
import FlowEngine.Proofs.Company
import FlowEngine.Proofs.Underway
import FlowEngine.Proofs.Supplies
import FlowEngine.Proofs.Chronicle
import FlowEngine.Proofs.Descent
import FlowEngine.Proofs.Readback
import FlowEngine.Proofs.Refusals
import FlowEngine.Proofs.Departures
import FlowEngine.Proofs.Returns
import FlowEngine.Proofs.Lineage
import FlowEngine.Proofs.Submissions
import FlowEngine.Proofs.Recordings
import FlowEngine.Proofs.Search
import FlowEngine.Proofs.Nodes
import FlowEngine.Proofs.Agenda
import FlowEngine.Proofs.Mentions
import FlowEngine.Proofs.Captions
import FlowEngine.Proofs.Entries
import FlowEngine.Proofs.Passes
import FlowEngine.Proofs.Waits
import FlowEngine.Proofs.Catalogue
import FlowEngine.Proofs.Custody
import FlowEngine.Proofs.Clearance
import FlowEngine.Proofs.Destinations
import FlowEngine.Proofs.Selection
import FlowEngine.Proofs.Expiry
import FlowEngine.Proofs.SessionNames
