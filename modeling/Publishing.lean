import Publishing.Audit.Emitter
import Publishing.Audit.Record
import Publishing.Audit.Sinks
import Publishing.CommandLine.Answer
import Publishing.CommandLine.Display
import Publishing.CommandLine.Form
import Publishing.CommandLine.Request
import Publishing.Config
import Publishing.Content
import Publishing.Decimal.Binary64
import Publishing.Decimal.Places
import Publishing.Decimal.Shortest
import Publishing.Digest.Sha256
import Publishing.Document
import Publishing.Document.Format
import Publishing.Document.Validity
import Publishing.Entity
import Publishing.Error
import Publishing.Execution.Command
import Publishing.Execution.Executor
import Publishing.Execution.Pool
import Publishing.Files.Fault
import Publishing.Files.Path
import Publishing.Files.System
import Publishing.Files.Tree
import Publishing.Json.Basic
import Publishing.Json.Decode
import Publishing.Json.Numeral
import Publishing.Json.Printer
import Publishing.Json.Reader
import Publishing.Json.Tree
import Publishing.Keyed
import Publishing.Main
import Publishing.Operation
import Publishing.Operation.Report
import Publishing.Operation.Reset
import Publishing.Operation.Resolve
import Publishing.Operation.SkipTo
import Publishing.Operation.Track
import Publishing.Overview
import Publishing.Pattern.Glob
import Publishing.Pattern.Regex
import Publishing.Proofs.Announcements
import Publishing.Proofs.Attempts
import Publishing.Proofs.Batches
import Publishing.Proofs.Changes
import Publishing.Proofs.Digits
import Publishing.Proofs.Draining
import Publishing.Proofs.Entries
import Publishing.Proofs.Format
import Publishing.Proofs.Histories
import Publishing.Proofs.Instants
import Publishing.Proofs.Isolation
import Publishing.Proofs.Ledger
import Publishing.Proofs.Numerals
import Publishing.Proofs.Operations
import Publishing.Proofs.Passes
import Publishing.Proofs.Phases
import Publishing.Proofs.ReadBack
import Publishing.Proofs.Reading
import Publishing.Proofs.Records
import Publishing.Proofs.Rounding
import Publishing.Proofs.Soundness
import Publishing.Proofs.Stages
import Publishing.Proofs.Standing
import Publishing.Proofs.Trace
import Publishing.Proofs.WriteAhead
import Publishing.Retry
import Publishing.Run
import Publishing.Run.Batch
import Publishing.Run.Configured
import Publishing.RunId
import Publishing.Shell.Arithmetic
import Publishing.Shell.Builtins
import Publishing.Shell.Bytes
import Publishing.Shell.CharClass
import Publishing.Shell.Condition
import Publishing.Shell.Expansion
import Publishing.Shell.Field
import Publishing.Shell.Jobs
import Publishing.Shell.Launch
import Publishing.Shell.Mode
import Publishing.Shell.Numeral
import Publishing.Shell.Parser
import Publishing.Shell.Pattern
import Publishing.Shell.Piece
import Publishing.Shell.Printing
import Publishing.Shell.Programs
import Publishing.Shell.Redirect
import Publishing.Shell.Run
import Publishing.Shell.Signals
import Publishing.Shell.Source
import Publishing.Shell.State
import Publishing.Shell.Stream
import Publishing.Shell.Syntax
import Publishing.Shell.Utility.Basic
import Publishing.Shell.Utility.Calculation
import Publishing.Shell.Utility.Columns
import Publishing.Shell.Utility.Comparison
import Publishing.Shell.Utility.Dump
import Publishing.Shell.Utility.Edit
import Publishing.Shell.Utility.Entry
import Publishing.Shell.Utility.Filter
import Publishing.Shell.Utility.Find
import Publishing.Shell.Utility.Gathering
import Publishing.Shell.Utility.Grep
import Publishing.Shell.Utility.Listing
import Publishing.Shell.Utility.Names
import Publishing.Shell.Utility.Order
import Publishing.Shell.Utility.Process
import Publishing.Shell.Utility.Search
import Publishing.Shell.Utility.SearchPattern
import Publishing.Shell.Utility.SearchPattern.Brackets
import Publishing.Shell.Utility.SearchPattern.Ordered
import Publishing.Shell.Utility.SearchPattern.Reader
import Publishing.Shell.Utility.Translate
import Publishing.Status
import Publishing.Step
import Publishing.StepRecord
import Publishing.Store
import Publishing.Store.File
import Publishing.Text.Blank
import Publishing.Text.Digit
import Publishing.Text.Printable
import Publishing.Text.Quoted
import Publishing.Text.Utf8
import Publishing.Time.Date
import Publishing.Time.Timestamp
import Publishing.Toml.Number
import Publishing.Toml.Reader
import Publishing.Toml.Table
import Publishing.Toml.Text
import Publishing.Toml.Writer
import Publishing.Proofs.Doubles
import Publishing.Proofs.Accepted
import Publishing.Proofs.Contents
import Publishing.Proofs.Upkeep
import Publishing.Proofs.Fidelity
import Publishing.Proofs.Settled
import Publishing.Proofs.Courses
import Publishing.Proofs.Nesting
import Publishing.Proofs.Frozen
import Publishing.Proofs.Moments
import Publishing.Proofs.Rosters
import Publishing.Proofs.Recovery
import Publishing.Proofs.Validity
import Publishing.Proofs.Reports
import Publishing.Proofs.Preservation
import Publishing.Proofs.Fronts
import Publishing.Proofs.Places
import Publishing.Proofs.Walks
import Publishing.Proofs.Beside
import Publishing.Proofs.Saving
import Publishing.Proofs.Rejections
import Publishing.Proofs.Workers
import Publishing.Proofs.Barriers
import Publishing.Proofs.Gists
import Publishing.Proofs.Schedules
import Publishing.Proofs.Readiness
import Publishing.Proofs.RoundTrips
import Publishing.Proofs.Atomicity
import Publishing.Proofs.Moves
import Publishing.Proofs.Growth
import Publishing.Proofs.Balance
import Publishing.Proofs.Readable
import Publishing.Proofs.Forecasts
import Publishing.Proofs.FreshStarts
import Publishing.Proofs.Views
import Publishing.Proofs.Rereading
import Publishing.Proofs.Repetition
import Publishing.Proofs.Timeliness
import Publishing.Proofs.Deliveries
import Publishing.Proofs.Lockstep
import Publishing.Proofs.LogFiles
import Publishing.Proofs.Bystanders
import Publishing.Proofs.Patterns
import Publishing.Proofs.Sweeps
import Publishing.Proofs.Skips
import Publishing.Proofs.Resets
import Publishing.Proofs.Leftovers
import Publishing.Proofs.Setbacks
import Publishing.Proofs.Accounts
import Publishing.Proofs.Summaries
import Publishing.Proofs.Matching
import Publishing.Proofs.Widening
import Publishing.Proofs.Lasting
import Publishing.Proofs.Results
import Publishing.Proofs.AtRest
import Publishing.Proofs.Discovery
import Publishing.Proofs.Enumeration
import Publishing.Proofs.Retries
import Publishing.Proofs.Routes
import Publishing.Proofs.Naming
import Publishing.Proofs.Migrations
import Publishing.Proofs.LogLines
import Publishing.Proofs.PoolSizes
import Publishing.Proofs.Violations
