import DocTokens.Category
import DocTokens.CommandLine.Command
import DocTokens.CommandLine.Flag
import DocTokens.Diagnostic
import DocTokens.Diff.EditScript
import DocTokens.Diff.Report
import DocTokens.Document
import DocTokens.FileSystem
import DocTokens.Glob.Expand
import DocTokens.Glob.Pattern
import DocTokens.Hcl.Expression
import DocTokens.Hcl.Syntax
import DocTokens.Identifier
import DocTokens.LineIndex
import DocTokens.Log
import DocTokens.Main
import DocTokens.Markdown.Block
import DocTokens.Markdown.Convert
import DocTokens.Markdown.Cursor
import DocTokens.Markdown.Directive
import DocTokens.Markdown.Emphasis
import DocTokens.Markdown.Extent
import DocTokens.Markdown.Html
import DocTokens.Markdown.Inline
import DocTokens.Markdown.Line
import DocTokens.Markdown.Node
import DocTokens.Markdown.Parse
import DocTokens.Markdown.Table
import DocTokens.Path
import DocTokens.Position
import DocTokens.Proofs.Builder
import DocTokens.Proofs.CallOrder
import DocTokens.Proofs.Classification
import DocTokens.Proofs.Decomposition
import DocTokens.Proofs.Differences
import DocTokens.Proofs.EditScripts
import DocTokens.Proofs.ForestDumps
import DocTokens.Proofs.ForestTokens
import DocTokens.Proofs.History
import DocTokens.Proofs.LineRanges
import DocTokens.Proofs.Lines
import DocTokens.Proofs.Markdown.AutoLinks
import DocTokens.Proofs.Markdown.Breaks
import DocTokens.Proofs.Markdown.BuilderCalls
import DocTokens.Proofs.Markdown.Building
import DocTokens.Proofs.Markdown.Bullets
import DocTokens.Proofs.Markdown.Checked
import DocTokens.Proofs.Markdown.ControlCells
import DocTokens.Proofs.Markdown.ControlRows
import DocTokens.Proofs.Markdown.Counterparts
import DocTokens.Proofs.Markdown.Course
import DocTokens.Proofs.Markdown.Coverage
import DocTokens.Proofs.Markdown.CursorLog
import DocTokens.Proofs.Markdown.DirectiveGrammar
import DocTokens.Proofs.Markdown.DirectiveRoundTrip
import DocTokens.Proofs.Markdown.DirectiveSyntax
import DocTokens.Proofs.Markdown.DirectiveTokens
import DocTokens.Proofs.Markdown.Dumps
import DocTokens.Proofs.Markdown.Ends
import DocTokens.Proofs.Markdown.Headings
import DocTokens.Proofs.Markdown.InlineForms
import DocTokens.Proofs.Markdown.KeyLists
import DocTokens.Proofs.Markdown.LostNodes
import DocTokens.Proofs.Markdown.Outcome
import DocTokens.Proofs.Markdown.Outline
import DocTokens.Proofs.Markdown.Placement
import DocTokens.Proofs.Markdown.Reads
import DocTokens.Proofs.Markdown.SourceLines
import DocTokens.Proofs.Markdown.Spans
import DocTokens.Proofs.Markdown.Structure
import DocTokens.Proofs.Markdown.Targets
import DocTokens.Proofs.Markdown.Tokenizable
import DocTokens.Proofs.Numbering
import DocTokens.Proofs.Positions
import DocTokens.Proofs.Reports
import DocTokens.Proofs.Runs
import DocTokens.Proofs.Searches
import DocTokens.Proofs.StoppedRuns
import DocTokens.Proofs.Stopping
import DocTokens.Proofs.Tokens
import DocTokens.Proofs.Walk
import DocTokens.Proofs.WrittenForms
import DocTokens.Report
import DocTokens.Run
import DocTokens.Search
import DocTokens.Settings.Basic
import DocTokens.Settings.Hcl
import DocTokens.Settings.Load
import DocTokens.Settings.Yaml
import DocTokens.Span
import DocTokens.StopSignal
import DocTokens.Style
import DocTokens.Text.Bytes
import DocTokens.Text.CaseFold
import DocTokens.Text.CodePoint
import DocTokens.Text.Decimal
import DocTokens.Text.Integer
import DocTokens.Text.JsonText
import DocTokens.Text.Quoted
import DocTokens.Text.Utf8
import DocTokens.Token
import DocTokens.Tree.Basic
import DocTokens.Tree.Builder
import DocTokens.Tree.Forest
import DocTokens.Tree.Node
import DocTokens.Tree.Walk
import DocTokens.Wraparound
import DocTokens.Yaml.Cursor
import DocTokens.Yaml.Node
import DocTokens.Yaml.Scalar
import DocTokens.Yaml.Token
