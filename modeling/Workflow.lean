import Workflow.Activity
import Workflow.Application
import Workflow.Application.Host
import Workflow.Application.Reaction
import Workflow.Application.Report
import Workflow.Body
import Workflow.Bookmark
import Workflow.Collection
import Workflow.CommandLine
import Workflow.CommandLine.Run
import Workflow.Composite
import Workflow.Config
import Workflow.Definition
import Workflow.Definition.Fingerprint
import Workflow.Definition.Prepare
import Workflow.Digest.Blake3
import Workflow.Disk
import Workflow.Disk.Document
import Workflow.Double
import Workflow.Double.Layout
import Workflow.Double.Scaled
import Workflow.Duration
import Workflow.Environment
import Workflow.Error
import Workflow.Executor.Answer
import Workflow.Executor.Basic
import Workflow.Executor.Dispatch
import Workflow.Executor.Propagation
import Workflow.Executor.Run
import Workflow.Executor.Scheduling
import Workflow.Extensions
import Workflow.Fault
import Workflow.Identifier
import Workflow.Instance
import Workflow.Journal
import Workflow.Json
import Workflow.Json.Edit
import Workflow.Json.Parser
import Workflow.Json.Printer
import Workflow.Json.Read
import Workflow.Main
import Workflow.Packed
import Workflow.Program
import Workflow.Proofs.ActivityRecords
import Workflow.Proofs.Admission
import Workflow.Proofs.Advance
import Workflow.Proofs.Alike
import Workflow.Proofs.Ambient
import Workflow.Proofs.Reliance
import Workflow.Proofs.Outstanding
import Workflow.Proofs.Arrivals
import Workflow.Proofs.Audience
import Workflow.Proofs.Bindings
import Workflow.Proofs.Biography
import Workflow.Proofs.Blueprint
import Workflow.Proofs.Calendar
import Workflow.Proofs.Callback
import Workflow.Proofs.Cancellation
import Workflow.Proofs.Chronicle
import Workflow.Proofs.Completion
import Workflow.Proofs.CompletionReport
import Workflow.Proofs.Conduct
import Workflow.Proofs.Confinement
import Workflow.Proofs.Consistent
import Workflow.Proofs.Containment
import Workflow.Proofs.Conversation
import Workflow.Proofs.Course
import Workflow.Proofs.Delivery
import Workflow.Proofs.DeliveryOrder
import Workflow.Proofs.Demolition
import Workflow.Proofs.Dependents
import Workflow.Proofs.Descent
import Workflow.Proofs.DiskFaults
import Workflow.Proofs.DiskSteps
import Workflow.Proofs.Dispatch
import Workflow.Proofs.Ending
import Workflow.Proofs.Errand
import Workflow.Proofs.Exchange
import Workflow.Proofs.Execution
import Workflow.Proofs.FailedCommand
import Workflow.Proofs.FailedLoad
import Workflow.Proofs.FileRefinement
import Workflow.Proofs.Finality
import Workflow.Proofs.Flow
import Workflow.Proofs.Frame
import Workflow.Proofs.Handles
import Workflow.Proofs.History
import Workflow.Proofs.Hooks
import Workflow.Proofs.Hosting
import Workflow.Proofs.Identity
import Workflow.Proofs.IndexText
import Workflow.Proofs.Integrity
import Workflow.Proofs.Interference
import Workflow.Proofs.JsonText
import Workflow.Proofs.LastSave
import Workflow.Proofs.Ledger
import Workflow.Proofs.Lifecycle
import Workflow.Proofs.Lifetime
import Workflow.Proofs.Listing
import Workflow.Proofs.Locating
import Workflow.Proofs.Locking
import Workflow.Proofs.Modesty
import Workflow.Proofs.Moment
import Workflow.Proofs.Numerals
import Workflow.Proofs.Obituary
import Workflow.Proofs.Objections
import Workflow.Proofs.Observation
import Workflow.Proofs.Passage
import Workflow.Proofs.PatientRun
import Workflow.Proofs.Places
import Workflow.Proofs.Possession
import Workflow.Proofs.Preparation
import Workflow.Proofs.Progress
import Workflow.Proofs.Protocol
import Workflow.Proofs.Provided
import Workflow.Proofs.Pursuit
import Workflow.Proofs.Queue
import Workflow.Proofs.Quiescence
import Workflow.Proofs.Reachable
import Workflow.Proofs.Recast
import Workflow.Proofs.RecordNumbers
import Workflow.Proofs.RecordOrder
import Workflow.Proofs.ReloadedOutcome
import Workflow.Proofs.Reloading
import Workflow.Proofs.Remainder
import Workflow.Proofs.Reporting
import Workflow.Proofs.Refusal
import Workflow.Proofs.Rereading
import Workflow.Proofs.RestoredWalks
import Workflow.Proofs.Restoring
import Workflow.Proofs.Retention
import Workflow.Proofs.Retire
import Workflow.Proofs.RootInputs
import Workflow.Proofs.RoundTrip
import Workflow.Proofs.SaveRequest
import Workflow.Proofs.Sharing
import Workflow.Proofs.Standing
import Workflow.Proofs.Stepping
import Workflow.Proofs.StoreFiles
import Workflow.Proofs.Succession
import Workflow.Proofs.Table
import Workflow.Proofs.Teardown
import Workflow.Proofs.Telling
import Workflow.Proofs.Termination
import Workflow.Proofs.Tree
import Workflow.Proofs.Turn
import Workflow.Proofs.Twin
import Workflow.Proofs.TwinWork
import Workflow.Proofs.Unheeded
import Workflow.Proofs.Unpacking
import Workflow.Proofs.Verdict
import Workflow.Proofs.Visibility
import Workflow.Proofs.Waiting
import Workflow.Proofs.Walks
import Workflow.Proofs.Waning
import Workflow.Proofs.Withdrawal
import Workflow.Proofs.WithdrawalSteps
import Workflow.Proofs.WorkRecords
import Workflow.Registry
import Workflow.Report
import Workflow.Request
import Workflow.Script
import Workflow.Script.Json
import Workflow.Script.Perform
import Workflow.Session
import Workflow.Snapshot
import Workflow.Snapshot.Capture
import Workflow.Snapshot.Json
import Workflow.Snapshot.Packed
import Workflow.Snapshot.Restore
import Workflow.State
import Workflow.Store
import Workflow.Store.Command
import Workflow.Store.File
import Workflow.Store.Index
import Workflow.Store.IndexJson
import Workflow.Store.Layout
import Workflow.Store.Memory
import Workflow.Store.Persist
import Workflow.Text.Base64
import Workflow.Text.CharClass
import Workflow.Text.Hex
import Workflow.Text.Quoted
import Workflow.Text.Unmarked
import Workflow.Text.Utf8
import Workflow.Timestamp
import Workflow.Tracking
import Workflow.Uuid
import Workflow.Validation
import Workflow.Value
import Workflow.Value.Parser
import Workflow.Value.Printer
import Workflow.Word
import Workflow.WorkQueue
import Workflow.Workspace
