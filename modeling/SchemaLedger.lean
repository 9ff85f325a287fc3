import SchemaLedger.Main
import SchemaLedger.Proofs.Dump.Item
import SchemaLedger.Proofs.Dump.Segment
import SchemaLedger.Proofs.Dump.Run
import SchemaLedger.Proofs.Dump.WellFormed
import SchemaLedger.Proofs.Ledger.Basic
import SchemaLedger.Proofs.Ledger.Run
import SchemaLedger.Proofs.Outcome
import SchemaLedger.Proofs.Tree.Basic
import SchemaLedger.Proofs.Artifact.Listing
import SchemaLedger.Proofs.Script.Contents
import SchemaLedger.Proofs.Ledger.Apply
import SchemaLedger.Proofs.Text.Order
import SchemaLedger.Proofs.Tree.Agreement
import SchemaLedger.Proofs.Script.Recording
import SchemaLedger.Proofs.Ledger.Record
import SchemaLedger.Proofs.Tree.Change
import SchemaLedger.Proofs.Tree.Route
import SchemaLedger.Proofs.Artifact.Filling
import SchemaLedger.Proofs.Artifact.NewTree
import SchemaLedger.Proofs.Artifact.Creation
import SchemaLedger.Proofs.Dump.Part
import SchemaLedger.Proofs.Dump.Query
import SchemaLedger.Proofs.Dump.Atomic
import SchemaLedger.Proofs.Text.Line
import SchemaLedger.Proofs.Dump.Ending
import SchemaLedger.Proofs.Dump.Kind
import SchemaLedger.Proofs.Dump.Identifier
import SchemaLedger.Proofs.Dump.Kept
import SchemaLedger.Proofs.Artifact.Writing
import SchemaLedger.Proofs.Artifact.Views
import SchemaLedger.Proofs.Text.Utf8
import SchemaLedger.Proofs.Artifact.Name
import SchemaLedger.Proofs.Artifact.Tidy
import SchemaLedger.Proofs.Artifact.Number
import SchemaLedger.Proofs.Artifact.Fresh
import SchemaLedger.Proofs.Script.Newest
import SchemaLedger.Proofs.Script.Complete
import SchemaLedger.Proofs.Script.Made
import SchemaLedger.Proofs.Dump.Origin
import SchemaLedger.Proofs.Dump.Renumber
import SchemaLedger.Proofs.Dump.Stored
import SchemaLedger.Proofs.Script.Blocks
import SchemaLedger.Proofs.Script.Check
import SchemaLedger.Proofs.Script.Verbatim
import SchemaLedger.Proofs.Script.Unmarked
import SchemaLedger.Proofs.Script.Drift
import SchemaLedger.Proofs.Script.TreeDrift
import SchemaLedger.Proofs.Script.Source
import SchemaLedger.Proofs.Sql.Reading
import SchemaLedger.Proofs.Sql.Dashes
import SchemaLedger.Proofs.Script.Minified
import SchemaLedger.Proofs.Script.Said
import SchemaLedger.Proofs.Script.Variant
import SchemaLedger.Proofs.Text.Infix
import SchemaLedger.Proofs.Sql.Delimited
import SchemaLedger.Proofs.Script.Delimiters
import SchemaLedger.Proofs.Script.Rereading
import SchemaLedger.Proofs.Script.Order
import SchemaLedger.Proofs.Script.Edited
import SchemaLedger.Proofs.Environment.Load
import SchemaLedger.Proofs.Cli.Run
import SchemaLedger.Proofs.Cli.Preview
import SchemaLedger.Proofs.Fault
import SchemaLedger.Proofs.Settings.Load
import SchemaLedger.Proofs.Cli.Escape
import SchemaLedger.Proofs.Artifact.Sequence
import SchemaLedger.Proofs.Artifact.OnDisk
import SchemaLedger.Proofs.Diff.Matching
import SchemaLedger.Proofs.Diff.Unified
import SchemaLedger.Proofs.Script.Report
import SchemaLedger.Proofs.Dump.Awaiting
import SchemaLedger.Proofs.Dump.Resplit
import SchemaLedger.Proofs.Script.Interleaving
import SchemaLedger.Proofs.Sql.Notice
import SchemaLedger.Proofs.Tool.Place
import SchemaLedger.Proofs.Tool.Run
import SchemaLedger.Proofs.Text.Break
import SchemaLedger.Proofs.Dump.Cleaned
import SchemaLedger.Proofs.Script.Finish
import SchemaLedger.Proofs.Dump.Tokenized
