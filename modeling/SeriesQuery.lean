import SeriesQuery.Text.LetterCase
import SeriesQuery.Text.Blank
import SeriesQuery.Text.Quoted
import SeriesQuery.Statement.Grammar
import SeriesQuery.Json.Written
import SeriesQuery.Result.Threshold
import SeriesQuery.Execution.Plain
import SeriesQuery.Settings.File
import SeriesQuery.Settings.Log
import SeriesQuery.Backend.Client
import SeriesQuery.Service.Basic
import SeriesQuery.Command.Program
import SeriesQuery.Command.FileTree
import SeriesQuery.Command.Session
import SeriesQuery.Proofs.Plan.Lifting
import SeriesQuery.Proofs.Plan.Isolation
import SeriesQuery.Proofs.Plan.Folding
import SeriesQuery.Proofs.Execution.Agreement
import SeriesQuery.Main
import SeriesQuery.Execution.Schedule
import SeriesQuery.Proofs.Execution.Walk
import SeriesQuery.Proofs.Execution.Asking
import SeriesQuery.Proofs.Execution.Punctual
import SeriesQuery.Proofs.Execution.Narrow
import SeriesQuery.Proofs.Execution.Requests
import SeriesQuery.Proofs.Execution.FailFast
import SeriesQuery.Statement.Rendering
import SeriesQuery.Proofs.Statement.Layout
import SeriesQuery.Proofs.Statement.Lexemes
import SeriesQuery.Proofs.Statement.Numbers
import SeriesQuery.Proofs.Statement.Selects
import SeriesQuery.Proofs.Statement.Aggregations
import SeriesQuery.Proofs.Statement.Stages
import SeriesQuery.Proofs.Statement.Parsing
import SeriesQuery.Plan.Rules
import SeriesQuery.Proofs.Plan.Places
import SeriesQuery.Proofs.Plan.Arguments
import SeriesQuery.Proofs.Plan.Acceptance
import SeriesQuery.Proofs.Plan.WellFormed
import SeriesQuery.Proofs.Result.Concat
import SeriesQuery.Proofs.Execution.Splicing
import SeriesQuery.Proofs.Execution.History
import SeriesQuery.Proofs.Json.Numerals
import SeriesQuery.Proofs.Json.Reading
import SeriesQuery.Proofs.Backend.Requests
import SeriesQuery.Proofs.Plan.Requests
import SeriesQuery.Proofs.Plan.Wire
import SeriesQuery.Proofs.Result.Passage
import SeriesQuery.Proofs.Statement.Composition
import SeriesQuery.Execution.Journal
import SeriesQuery.Proofs.Execution.Deadline
import SeriesQuery.Proofs.Result.Thresholds
import SeriesQuery.Proofs.Plan.Decoding
import SeriesQuery.Proofs.Plan.Readers
import SeriesQuery.Proofs.Service.Messages
import SeriesQuery.Proofs.Plan.Description
import SeriesQuery.Proofs.Plan.Ranges
import SeriesQuery.Proofs.Statement.Built
import SeriesQuery.Proofs.Statement.Reasons
import SeriesQuery.Proofs.Statement.Quotes
import SeriesQuery.Proofs.Statement.Problems
import SeriesQuery.Proofs.Statement.Bytes
import SeriesQuery.Proofs.Time.Past
import SeriesQuery.Proofs.Plan.Filters
import SeriesQuery.Proofs.Plan.Referring
import SeriesQuery.Proofs.Settings.Merging
import SeriesQuery.Proofs.Execution.Delivery
