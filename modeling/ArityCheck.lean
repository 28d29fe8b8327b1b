import ArityCheck.Analysis.Basic
import ArityCheck.Analysis.Error
import ArityCheck.Analysis.Source
import ArityCheck.Cli.Arguments
import ArityCheck.Cli.Catalogue
import ArityCheck.Cli.Check
import ArityCheck.Cli.Failure
import ArityCheck.Cli.Run
import ArityCheck.Cli.Template
import ArityCheck.Config.Basic
import ArityCheck.Config.Decode
import ArityCheck.Config.Error
import ArityCheck.Config.Load
import ArityCheck.Config.Source
import ArityCheck.FileSystem.Basic
import ArityCheck.FileSystem.Fault
import ArityCheck.FileSystem.Walk
import ArityCheck.Glob.Basic
import ArityCheck.Grammar.Expression
import ArityCheck.Grammar.Functions
import ArityCheck.Grammar.Markup
import ArityCheck.Grammar.Member
import ArityCheck.Grammar.Parse
import ArityCheck.Grammar.Pattern
import ArityCheck.Grammar.Program
import ArityCheck.Grammar.Scan
import ArityCheck.Grammar.Statement
import ArityCheck.Grammar.Types
import ArityCheck.Ignore.File
import ArityCheck.Ignore.Pattern
import ArityCheck.Json.Basic
import ArityCheck.Json.Printer
import ArityCheck.Json.Reader
import ArityCheck.Json.Token
import ArityCheck.Limit.Basic
import ArityCheck.Limit.Options
import ArityCheck.Log.Basic
import ArityCheck.Main
import ArityCheck.Number.Double
import ArityCheck.Outline.Basic
import ArityCheck.Outline.Construct
import ArityCheck.Path.Basic
import ArityCheck.Proofs.Analysis.Source
import ArityCheck.Proofs.Limit.Options
import ArityCheck.Proofs.Outline.Document
import ArityCheck.Proofs.Tree.Preorder
import ArityCheck.Report.Basic
import ArityCheck.Report.Codec
import ArityCheck.Report.Format
import ArityCheck.Report.Severity
import ArityCheck.Report.Snippet
import ArityCheck.Report.Violation
import ArityCheck.Rule.Basic
import ArityCheck.Rule.Category
import ArityCheck.Rule.Selection
import ArityCheck.SortedMap
import ArityCheck.Source.Dialect
import ArityCheck.Source.Position
import ArityCheck.Text.Blank
import ArityCheck.Text.Quoted
import ArityCheck.Text.Replace
import ArityCheck.Text.Width
import ArityCheck.Text.Wrap
import ArityCheck.Toml.Document
import ArityCheck.Toml.Number
import ArityCheck.Toml.Printer
import ArityCheck.Toml.Quoted
import ArityCheck.Toml.Reader
import ArityCheck.Toml.Value
import ArityCheck.Tree.Basic
import ArityCheck.Tree.Cursor
import ArityCheck.Tree.Kind
import ArityCheck.Proofs.Path.Components
import ArityCheck.Proofs.Report.Sort
import ArityCheck.Proofs.Analysis.Files
import ArityCheck.Proofs.Outline.Comments
import ArityCheck.Proofs.Source.Position
import ArityCheck.Proofs.Outline.Spans
import ArityCheck.Proofs.FileSystem.Shuffle
import ArityCheck.Proofs.Analysis.Order
import ArityCheck.Proofs.Analysis.Failure
import ArityCheck.Proofs.Analysis.Selection
import ArityCheck.Proofs.Rule.Relax
import ArityCheck.Proofs.SortedMap
import ArityCheck.Proofs.Rule.Steps
import ArityCheck.Proofs.Json.Lexemes
import ArityCheck.Proofs.Json.RoundTrip
import ArityCheck.Proofs.Report.Codec
import ArityCheck.Proofs.Cli.Status
import ArityCheck.Proofs.Toml.Order
import ArityCheck.Proofs.Rule.Tables
import ArityCheck.Proofs.Path.Relative
import ArityCheck.Proofs.Report.Stability
import ArityCheck.Proofs.Outline.Sites
import ArityCheck.Proofs.Outline.Wrappers
import ArityCheck.Proofs.Except
import ArityCheck.Proofs.List
import ArityCheck.Proofs.Text.Replace
import ArityCheck.Proofs.Path.Segments
import ArityCheck.Proofs.Glob.Reading
import ArityCheck.Proofs.Glob.Matching
import ArityCheck.Proofs.Glob.Between
import ArityCheck.Proofs.Glob.Anchored
import ArityCheck.Proofs.Analysis.Exclusion
import ArityCheck.Proofs.Analysis.Patterns
import ArityCheck.Proofs.Path.Below
import ArityCheck.Proofs.FileSystem.Names
import ArityCheck.Proofs.Cli.Reread
import ArityCheck.Proofs.Report.Message
import ArityCheck.Proofs.Path.Ancestors
import ArityCheck.Proofs.FileSystem.Places
import ArityCheck.Proofs.Config.Source
import ArityCheck.Proofs.Config.Inside
import ArityCheck.Proofs.Grammar.Scan
import ArityCheck.Proofs.Grammar.Parse
import ArityCheck.Proofs.Grammar.Functions
import ArityCheck.Proofs.Grammar.Expression
import ArityCheck.Proofs.Grammar.Program
import ArityCheck.Proofs.Outline.Lines
import ArityCheck.Proofs.Cli.Compact
import ArityCheck.Proofs.Outline.Callees
import ArityCheck.Proofs.Outline.Keys
