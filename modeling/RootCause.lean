import RootCause.Command.Arguments
import RootCause.Command.Reads
import RootCause.Command.Run
import RootCause.Diagnostic.Basic
import RootCause.Diagnostic.Json
import RootCause.Diff.Line
import RootCause.Diff.Snippet
import RootCause.Disk
import RootCause.Distinct
import RootCause.Git.Blame
import RootCause.Git.History
import RootCause.Git.Worktree
import RootCause.Intake.Compiler
import RootCause.Intake.Format
import RootCause.Intake.Input
import RootCause.Intake.Lint
import RootCause.Intake.Sarif
import RootCause.Json.Decode
import RootCause.Json.Indented
import RootCause.Json.Parser
import RootCause.Json.Printer
import RootCause.Json.Token
import RootCause.Json.Value
import RootCause.Main
import RootCause.Order.Edges
import RootCause.Order.Model
import RootCause.Order.Rank
import RootCause.Order.Sort
import RootCause.Output.Document
import RootCause.Output.Format
import RootCause.Output.Style
import RootCause.Path
import RootCause.Pipeline
import RootCause.Report.Build
import RootCause.Report.Entry
import RootCause.Report.Json
import RootCause.Report.Layout
import RootCause.Report.Schema
import RootCause.Scope.Access
import RootCause.Scope.Exports
import RootCause.Scope.Facts
import RootCause.Scope.Load
import RootCause.Scope.Model
import RootCause.Scope.SourceFile
import RootCause.Scope.Specifier
import RootCause.Settings.Basic
import RootCause.Settings.Load
import RootCause.Settings.Overlay
import RootCause.Settings.Read
import RootCause.Source.Cursor
import RootCause.Source.Grammar.Access
import RootCause.Source.Grammar.Expression
import RootCause.Source.Grammar.Level
import RootCause.Source.Grammar.Markup
import RootCause.Source.Grammar.Pattern
import RootCause.Source.Grammar.Statement
import RootCause.Source.Grammar.Types
import RootCause.Source.Lexeme
import RootCause.Source.Parser
import RootCause.Source.Rows
import RootCause.Source.Tree
import RootCause.TabStops
import RootCause.Text.Blank
import RootCause.Text.Decimal
import RootCause.Text.Lines
import RootCause.Text.Search
import RootCause.Text.Utf8
import RootCause.Toml.Number
import RootCause.Toml.Parser
import RootCause.Toml.Scan
import RootCause.Toml.Table
import RootCause.Toml.Text
import RootCause.Proofs.Diagnostic.Identity
import RootCause.Proofs.Order.Cycles
import RootCause.Proofs.Order.Placement
import RootCause.Proofs.Order.Ranking
import RootCause.Proofs.Order.Renaming
import RootCause.Proofs.Order.EdgeSources
import RootCause.Proofs.Order.Presentation
import RootCause.Proofs.Text.Octets
import RootCause.Proofs.Order.Least
import RootCause.Proofs.Order.Idempotence
import RootCause.Proofs.Order.Permutation
import RootCause.Proofs.Diff.Patch
import RootCause.Proofs.Diff.Coverage
import RootCause.Proofs.Source.Rows
import RootCause.Proofs.TabStops.Columns
import RootCause.Proofs.TabStops.Expansion
import RootCause.Proofs.TabStops.Cells
import RootCause.Proofs.TabStops.Ranges
import RootCause.Proofs.Report.Caret
import RootCause.Proofs.Report.Rows
import RootCause.Proofs.Report.Controls
import RootCause.Proofs.Output.Stripping
import RootCause.Proofs.Report.Colours
import RootCause.Proofs.Scope.Requests
import RootCause.Proofs.Scope.ExportSearch
import RootCause.Proofs.Scope.SourceOrder
import RootCause.Proofs.Text.ReadBack
import RootCause.Proofs.Text.Splitting
import RootCause.Proofs.Intake.CompilerOutput
import RootCause.Proofs.Json.Tokens
import RootCause.Proofs.Json.ReadBack
import RootCause.Proofs.Json.Records
import RootCause.Proofs.Json.Lines
import RootCause.Proofs.Diagnostic.ReadBack
import RootCause.Proofs.Order.Keyed
import RootCause.Proofs.Path.NormalForm
import RootCause.Proofs.Scope.Loading
import RootCause.Proofs.Report.Formats
import RootCause.Proofs.Settings.Layers
import RootCause.Proofs.Report.Origins
import RootCause.Proofs.Pipeline.Limit
import RootCause.Proofs.Json.QuotedWords
import RootCause.Proofs.Intake.Recognition
import RootCause.Proofs.Intake.IndentedLines
import RootCause.Proofs.Diff.Sections
import RootCause.Proofs.Path.Anchoring
import RootCause.Proofs.Scope.Mentions
import RootCause.Proofs.Diff.WholeText
import RootCause.Proofs.Diff.Candidates
import RootCause.Proofs.Order.StableSort
import RootCause.Proofs.Order.ImpliedEdges
import RootCause.Proofs.Order.Unlinked
import RootCause.Proofs.Order.Wording
import RootCause.Proofs.Scope.Runs
import RootCause.Proofs.Scope.Backing
import RootCause.Proofs.Scope.Positions
import RootCause.Proofs.Scope.Extents
import RootCause.Proofs.Source.Offsets
import RootCause.Proofs.Diagnostic.Sites
import RootCause.Proofs.Scope.Asking
import RootCause.Proofs.Scope.Recursion
import RootCause.Proofs.Scope.Renaming
import RootCause.Proofs.Scope.Routes
import RootCause.Proofs.Path.Cancellation
import RootCause.Proofs.Git.History
import RootCause.Proofs.Order.Bookkeeping
import RootCause.Proofs.Intake.CompilerRecognition
import RootCause.Proofs.Scope.Patterns
import RootCause.Proofs.Scope.Bindings
