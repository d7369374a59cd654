import Throughput.Analysis.Basic
import Throughput.Analysis.File
import Throughput.Analysis.Markdown
import Throughput.Analysis.PlainText
import Throughput.Association
import Throughput.Bandwidth
import Throughput.Calendar.Date
import Throughput.Calendar.Scan
import Throughput.Calendar.Stamp
import Throughput.Chart
import Throughput.Command.Basic
import Throughput.Command.Emphasis
import Throughput.Command.Intake
import Throughput.Command.Plan
import Throughput.Command.Run
import Throughput.CommandLine.Help
import Throughput.CommandLine.Option
import Throughput.CommandLine.Parse
import Throughput.Delivery.Effect
import Throughput.Delivery.Sink
import Throughput.Environment.Basic
import Throughput.Environment.File
import Throughput.Failure
import Throughput.Input.Path
import Throughput.Input.RunInput
import Throughput.Json.Decoding
import Throughput.Json.Reader
import Throughput.Json.Value
import Throughput.Main
import Throughput.Manifest
import Throughput.Number.Binary64
import Throughput.Number.Decimal
import Throughput.Number.Shortest
import Throughput.Number.Text
import Throughput.Number.Word
import Throughput.Program
import Throughput.Proofs.Analysis.Acceptance
import Throughput.Proofs.Analysis.Columns
import Throughput.Proofs.Analysis.RoundTrip
import Throughput.Proofs.Analysis.Tables
import Throughput.Proofs.Calendar.Days
import Throughput.Proofs.Calendar.Written
import Throughput.Proofs.Chart.RoundTrip
import Throughput.Proofs.Command.Delivery
import Throughput.Proofs.Command.Failures
import Throughput.Proofs.Command.Hindrances
import Throughput.Proofs.Command.Intake
import Throughput.Proofs.Command.NodeTotals
import Throughput.Proofs.Command.PeerTotals
import Throughput.Proofs.Delivery.Arrivals
import Throughput.Proofs.Delivery.Sinks
import Throughput.Proofs.Failure.Outcomes
import Throughput.Proofs.Input.Names
import Throughput.Proofs.Input.Nodes
import Throughput.Proofs.Input.OwnLogs
import Throughput.Proofs.Input.Partition
import Throughput.Proofs.Input.Paths
import Throughput.Proofs.Json.Numerals
import Throughput.Proofs.Json.Quantities
import Throughput.Proofs.Json.Records
import Throughput.Proofs.Json.Strings
import Throughput.Proofs.Json.Texts
import Throughput.Proofs.Manifest.Dates
import Throughput.Proofs.Manifest.Listing
import Throughput.Proofs.Manifest.Written
import Throughput.Proofs.Number.Arithmetic
import Throughput.Proofs.Number.Digits
import Throughput.Proofs.Number.Interpolation
import Throughput.Proofs.Number.Nearest
import Throughput.Proofs.Number.Nonneg
import Throughput.Proofs.Number.PlainText
import Throughput.Proofs.Number.Pointed
import Throughput.Proofs.Number.Rounding
import Throughput.Proofs.Number.Shortest
import Throughput.Proofs.Reading.Bandwidths
import Throughput.Proofs.Reading.Candidates
import Throughput.Proofs.Reading.Fields
import Throughput.Proofs.Reading.LastText
import Throughput.Proofs.Report.Ranks
import Throughput.Proofs.Report.Summaries
import Throughput.Proofs.Series.Contents
import Throughput.Proofs.Series.Contiguous
import Throughput.Proofs.Series.Counting
import Throughput.Proofs.Series.Grouping
import Throughput.Proofs.Series.Unions
import Throughput.Proofs.Session.Accounting
import Throughput.Proofs.Session.Exports
import Throughput.Proofs.Session.Files
import Throughput.Proofs.Session.Findings
import Throughput.Proofs.Session.Finishing
import Throughput.Proofs.Session.Identities
import Throughput.Proofs.Session.Interruptions
import Throughput.Proofs.Session.Labels
import Throughput.Proofs.Session.LogLines
import Throughput.Proofs.Session.Reordering
import Throughput.Proofs.Session.Timelines
import Throughput.Proofs.Session.Withholding
import Throughput.Proofs.Settings.Laying
import Throughput.Proofs.Settings.Lists
import Throughput.Proofs.Settings.Loaded
import Throughput.Proofs.Settings.RoundTrip
import Throughput.Proofs.Settings.Sources
import Throughput.Proofs.Statistics.Exact
import Throughput.Proofs.Statistics.Sums
import Throughput.Proofs.Statistics.Within
import Throughput.Proofs.Storage.Changes
import Throughput.Proofs.Storage.Places
import Throughput.Proofs.Storage.Writing
import Throughput.Proofs.Text.Decoding
import Throughput.Proofs.Text.Encoding
import Throughput.Proofs.Text.Lines
import Throughput.Proofs.Text.Trimming
import Throughput.Proofs.Toml.Documents
import Throughput.Proofs.Toml.Values
import Throughput.Proofs.Toml.Words
import Throughput.Reading
import Throughput.Report
import Throughput.Series.Collector
import Throughput.Series.Key
import Throughput.Series.Metric
import Throughput.Session
import Throughput.Settings.Basic
import Throughput.Settings.Decoding
import Throughput.Settings.Layers
import Throughput.Settings.Load
import Throughput.Settings.Text
import Throughput.Statistics
import Throughput.Storage.FileTree
import Throughput.Storage.Files
import Throughput.Text.Alphanumeric
import Throughput.Text.Blank
import Throughput.Text.Lines
import Throughput.Text.Printable
import Throughput.Text.Quoted
import Throughput.Text.Ranges
import Throughput.Text.Utf8
import Throughput.Toml.Moment
import Throughput.Toml.Reader
import Throughput.Toml.Scan
import Throughput.Toml.Value
