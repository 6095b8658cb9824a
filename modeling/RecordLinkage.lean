import RecordLinkage.Cluster.Stats
import RecordLinkage.Cluster.View
import RecordLinkage.Clustering.Assign
import RecordLinkage.Clustering.Reindex
import RecordLinkage.Clustering.Truncate
import RecordLinkage.CommandLine.Command
import RecordLinkage.CommandLine.Grammar
import RecordLinkage.CommandLine.Report
import RecordLinkage.CommandLine.Run
import RecordLinkage.Fault
import RecordLinkage.Files.Content
import RecordLinkage.Files.Path
import RecordLinkage.Files.Tree
import RecordLinkage.Identity.Name
import RecordLinkage.Identity.Uuid
import RecordLinkage.Ingest.Batch
import RecordLinkage.Ingest.Flow
import RecordLinkage.Ingest.Ingester
import RecordLinkage.Ingest.Queue
import RecordLinkage.Ingest.Retry
import RecordLinkage.Ingest.Summary
import RecordLinkage.Json.Fields
import RecordLinkage.Json.Numeral
import RecordLinkage.Json.Printer
import RecordLinkage.Json.Scanner
import RecordLinkage.Json.Value
import RecordLinkage.Main
import RecordLinkage.MatchKey.Cache
import RecordLinkage.MatchKey.Config
import RecordLinkage.MatchKey.Method
import RecordLinkage.Number.Decimal
import RecordLinkage.Number.Double
import RecordLinkage.Number.Integer
import RecordLinkage.Number.Power
import RecordLinkage.Number.Rounding
import RecordLinkage.Order.Sorted
import RecordLinkage.Query.Basic
import RecordLinkage.Query.Nodes
import RecordLinkage.Query.Reader
import RecordLinkage.Record.Basic
import RecordLinkage.Record.Submission
import RecordLinkage.Settings.Basic
import RecordLinkage.Settings.Encoding
import RecordLinkage.Settings.Location
import RecordLinkage.Store.Archive
import RecordLinkage.Store.Cell
import RecordLinkage.Store.Clusters
import RecordLinkage.Store.Database
import RecordLinkage.Store.MatchKeys
import RecordLinkage.Store.Overwrite
import RecordLinkage.Store.Records
import RecordLinkage.Store.Tables
import RecordLinkage.Store.Work
import RecordLinkage.Text.Blank
import RecordLinkage.Text.Printable
import RecordLinkage.Text.Quoted
import RecordLinkage.Text.Reader
import RecordLinkage.Text.Utf8
import RecordLinkage.Time.Calendar
import RecordLinkage.Time.Datestamp
import RecordLinkage.Toml.Reader
import RecordLinkage.Toml.Value
import RecordLinkage.Toml.Writer
import RecordLinkage.Proofs.Order
import RecordLinkage.Proofs.Store.Schema
import RecordLinkage.Proofs.Store.Views
import RecordLinkage.Proofs.Work
import RecordLinkage.Proofs.Clustering.Assignment
import RecordLinkage.Proofs.Clustering.Partition
import RecordLinkage.Proofs.History.Orderly
import RecordLinkage.Proofs.History.Operation
import RecordLinkage.Proofs.History.Apart
import RecordLinkage.Proofs.History.Integrity
import RecordLinkage.Proofs.Clustering.UnionFind
import RecordLinkage.Proofs.History.Sound
import RecordLinkage.Proofs.Clustering.References
import RecordLinkage.Proofs.Clustering.Merging
import RecordLinkage.Proofs.History.Isolation
import RecordLinkage.Proofs.History.Failure
import RecordLinkage.Proofs.Clustering.Datestamps
import RecordLinkage.Proofs.Clustering.Harvest
import RecordLinkage.Proofs.History.Range
import RecordLinkage.Proofs.Clustering.Renaming
import RecordLinkage.Proofs.Ingest.Setup
import RecordLinkage.Proofs.Ingest.Sequence
import RecordLinkage.Proofs.Ingest.Deed
import RecordLinkage.Proofs.Ingest.Dealing
import RecordLinkage.Proofs.Ingest.Convergence
import RecordLinkage.Proofs.Ingest.Atomic
import RecordLinkage.Proofs.Ingest.Carrying
import RecordLinkage.Proofs.Ingest.Repetition
import RecordLinkage.Proofs.Ingest.SetupAgain
import RecordLinkage.Proofs.Ingest.Idempotence
import RecordLinkage.Proofs.Ingest.Traffic
import RecordLinkage.Proofs.Ingest.Signals
import RecordLinkage.Proofs.Ingest.Accounting
import RecordLinkage.Proofs.Json.Stream
import RecordLinkage.Proofs.Ingest.Composition
import RecordLinkage.Proofs.Ingest.Permits
import RecordLinkage.Proofs.Ingest.Window
import RecordLinkage.Proofs.MatchKey.Cache
import RecordLinkage.Proofs.Store.Paging
import RecordLinkage.Proofs.Clustering.Scan
import RecordLinkage.Proofs.Clustering.Rebuild
import RecordLinkage.Proofs.Clustering.Components
import RecordLinkage.Proofs.Clustering.CleanRebuild
import RecordLinkage.Proofs.Clustering.Effect
import RecordLinkage.Proofs.Clustering.Savepoints
import RecordLinkage.Proofs.Clustering.Skipping
import RecordLinkage.Proofs.Clustering.Agreement
import RecordLinkage.Proofs.Store.Removal
import RecordLinkage.Proofs.Store.RecordMap
import RecordLinkage.Proofs.History.Caching
import RecordLinkage.Proofs.History.Journal
import RecordLinkage.Proofs.Clustering.RebuildAgain
import RecordLinkage.Proofs.Clustering.Homecoming
import RecordLinkage.Proofs.Clustering.HarvestPages
import RecordLinkage.Proofs.Histogram
import RecordLinkage.Proofs.Store.Statistics
import RecordLinkage.Proofs.Clustering.StaleLookups
import RecordLinkage.Proofs.Ingest.BrokenStream
import RecordLinkage.Proofs.Clustering.CanonicalView
import RecordLinkage.Proofs.MatchKey.History
import RecordLinkage.Proofs.MatchKey.Extraction
import RecordLinkage.Proofs.Text.Bytes
import RecordLinkage.Proofs.Clustering.Truncation
import RecordLinkage.Proofs.Clustering.Shortening
import RecordLinkage.Proofs.Number.Rounding
import RecordLinkage.Proofs.Number.Decimal
import RecordLinkage.Proofs.Json.Numeral
import RecordLinkage.Proofs.Json.Fitting
import RecordLinkage.Proofs.Json.RoundTrip
import RecordLinkage.Proofs.Store.Usable
import RecordLinkage.Proofs.CommandLine.Steps
import RecordLinkage.Proofs.CommandLine.Commands
import RecordLinkage.Proofs.CommandLine.Session
import RecordLinkage.Proofs.Ingest.Attempts
import RecordLinkage.Proofs.Identity.Spelling
import RecordLinkage.Proofs.Time.Calendar
import RecordLinkage.Proofs.Time.Shown
import RecordLinkage.Proofs.Identity.Naming
import RecordLinkage.Proofs.History.Origin
import RecordLinkage.Proofs.History.Sources
import RecordLinkage.Proofs.Ingest.Schedule
import RecordLinkage.Proofs.Ingest.Refusals
