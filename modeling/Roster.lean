import Roster.Text.Blank
import Roster.Text.Alphabetic
import Roster.Text.Numeric
import Roster.Text.Utf8
import Roster.Number.Rounding
import Roster.Number.Numeral
import Roster.Number.Positional
import Roster.Query.Total
import Roster.Script.Parser
import Roster.Json.Printer
import Roster.Json.Reader
import Roster.Table.Basic
import Roster.Session.Run
import Roster.Report.Summary
import Roster.Files.Tree
import Roster.Main
import Roster.Proofs.Clause
import Roster.Proofs.Script.Grammar
import Roster.Proofs.Script.Unambiguous
import Roster.Proofs.Script.Chains
import Roster.Proofs.Script.Stages
import Roster.Proofs.Outcome
import Roster.Proofs.Script.Spelling
import Roster.Proofs.Script.Feeds
import Roster.Proofs.Script.Acceptance
import Roster.Proofs.Script.Prefixes
import Roster.Proofs.Script.Refusal
import Roster.Proofs.Script.Expected
import Roster.Proofs.Table.Ordering
import Roster.Proofs.Query.Binding
import Roster.Proofs.Query.Answer
import Roster.Proofs.Query.Misfit
import Roster.Proofs.Session.History
import Roster.Proofs.Session.FilterModes
import Roster.Proofs.Script.Tiling
import Roster.Proofs.Script.Concatenation
import Roster.Proofs.Session.Runs
import Roster.Proofs.Shell.Console
import Roster.Proofs.Number.Rounding
import Roster.Proofs.Number.Shortest
import Roster.Proofs.Number.Positional
import Roster.Proofs.Script.Rendering
import Roster.Proofs.Session.Stopping
import Roster.Proofs.Table.Storage
import Roster.Proofs.Query.Locality
import Roster.Proofs.Session.Reordering
import Roster.Proofs.Text.Utf8
import Roster.Proofs.Files.Writing
import Roster.Proofs.Shell.Extract
import Roster.Proofs.Shell.Batch
import Roster.Proofs.Shell.Reports
import Roster.Proofs.Shell.Chunks
import Roster.Proofs.Shell.Sections
import Roster.Proofs.Table.Records
import Roster.Proofs.Session.Finding
import Roster.Proofs.Report.Document
import Roster.Proofs.Session.Stored
import Roster.Proofs.Table.Sorting
import Roster.Proofs.Table.Reversal
import Roster.Proofs.Query.Rearranged
import Roster.Proofs.Session.Mirror
import Roster.Proofs.Table.Cells
import Roster.Proofs.Table.Typing
import Roster.Proofs.Query.Comparing
import Roster.Proofs.Session.Operators
import Roster.Proofs.Session.Ranges
import Roster.Proofs.Report.Naming
import Roster.Proofs.Report.Accounting
import Roster.Proofs.Script.LongestMatch
import Roster.Proofs.Script.Calls
import Roster.Proofs.Decimal.Adding
import Roster.Proofs.Decimal.Dropping
import Roster.Proofs.Decimal.Converting
import Roster.Proofs.Query.Exactness
import Roster.Proofs.Number.Nearest
import Roster.Proofs.Number.Arithmetic
import Roster.Proofs.Number.Accuracy
import Roster.Proofs.Decimal.Returning
import Roster.Proofs.Query.WholeTotals
import Roster.Proofs.Decimal.Approximating
import Roster.Proofs.Decimal.Fitting
import Roster.Proofs.Decimal.Dividing
import Roster.Proofs.Query.Averages
import Roster.Proofs.Clause.Walk
