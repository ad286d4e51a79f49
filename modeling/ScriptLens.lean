import ScriptLens.Command.Arguments
import ScriptLens.Command.Files
import ScriptLens.Command.Run
import ScriptLens.Command.Trace
import ScriptLens.Completion
import ScriptLens.Diagnostic
import ScriptLens.Documentation.Basic
import ScriptLens.Documentation.Bundled
import ScriptLens.Documentation.Codec
import ScriptLens.Encode
import ScriptLens.Highlight
import ScriptLens.Json.Basic
import ScriptLens.Json.Decode
import ScriptLens.Json.Parse
import ScriptLens.Json.Print
import ScriptLens.LineChecks
import ScriptLens.LineIndex
import ScriptLens.Lint.Basic
import ScriptLens.Lint.Brackets
import ScriptLens.Lint.Names
import ScriptLens.Lint.Sequences
import ScriptLens.Lint.Settings
import ScriptLens.Lint.Style
import ScriptLens.Lint.Tree
import ScriptLens.Main
import ScriptLens.Number.Double
import ScriptLens.Number.Shortest
import ScriptLens.Parser.Basic
import ScriptLens.Parser.Expr
import ScriptLens.Parser.Stmt
import ScriptLens.Place
import ScriptLens.Position
import ScriptLens.Proofs.Brackets.Agreement
import ScriptLens.Proofs.Brackets.Counting
import ScriptLens.Proofs.Brackets.Order
import ScriptLens.Proofs.Brackets.Scan
import ScriptLens.Proofs.Completion.Lines
import ScriptLens.Proofs.Completion.Ranking
import ScriptLens.Proofs.Depth.Balance
import ScriptLens.Proofs.Depth.Counter
import ScriptLens.Proofs.Depth.Height
import ScriptLens.Proofs.Depth.Reach
import ScriptLens.Proofs.Depth.Tallest
import ScriptLens.Proofs.Documentation.RoundTrip
import ScriptLens.Proofs.Grammar.Complete
import ScriptLens.Proofs.Grammar.Derives
import ScriptLens.Proofs.Grammar.Placed
import ScriptLens.Proofs.Grammar.Signs
import ScriptLens.Proofs.Grammar.Sound
import ScriptLens.Proofs.Highlight.Declarations
import ScriptLens.Proofs.Highlight.Decoding
import ScriptLens.Proofs.Highlight.LineEnds
import ScriptLens.Proofs.Highlight.Parameters
import ScriptLens.Proofs.Highlight.Tiling
import ScriptLens.Proofs.Json.Lexemes
import ScriptLens.Proofs.Json.RoundTrip
import ScriptLens.Proofs.LineChecks.Assignments
import ScriptLens.Proofs.LineChecks.Places
import ScriptLens.Proofs.Lint.Codes
import ScriptLens.Proofs.Lint.Indentation
import ScriptLens.Proofs.Lint.Listing
import ScriptLens.Proofs.Lint.Operators
import ScriptLens.Proofs.Lint.Places
import ScriptLens.Proofs.Lint.ReadOnly
import ScriptLens.Proofs.Lint.Settings
import ScriptLens.Proofs.Lint.Walks
import ScriptLens.Proofs.Lint.Widths
import ScriptLens.Proofs.Lockstep.Alone
import ScriptLens.Proofs.Lockstep.Expressions
import ScriptLens.Proofs.Lockstep.Rules
import ScriptLens.Proofs.Lockstep.Statements
import ScriptLens.Proofs.Loops.Bodies
import ScriptLens.Proofs.Loops.Calm
import ScriptLens.Proofs.Loops.Findings
import ScriptLens.Proofs.Loops.Nesting
import ScriptLens.Proofs.Loops.Statements
import ScriptLens.Proofs.Padding.Lines
import ScriptLens.Proofs.Padding.Tokens
import ScriptLens.Proofs.Padding.Trees
import ScriptLens.Proofs.Parser.Built
import ScriptLens.Proofs.Parser.Causes
import ScriptLens.Proofs.Parser.Cursor
import ScriptLens.Proofs.Parser.Headers
import ScriptLens.Proofs.Parser.Levels
import ScriptLens.Proofs.Parser.Phrases
import ScriptLens.Proofs.Parser.Progress
import ScriptLens.Proofs.Parser.Run
import ScriptLens.Proofs.Parser.Steps
import ScriptLens.Proofs.Parser.Takes
import ScriptLens.Proofs.Parser.Tally
import ScriptLens.Proofs.Parser.Total
import ScriptLens.Proofs.Parser.Tower
import ScriptLens.Proofs.Parser.Written
import ScriptLens.Proofs.Print.Bodies
import ScriptLens.Proofs.Print.Expressions
import ScriptLens.Proofs.Print.Forms
import ScriptLens.Proofs.Print.Lines
import ScriptLens.Proofs.Print.Lookahead
import ScriptLens.Proofs.Print.Reads
import ScriptLens.Proofs.Print.RoundTrip
import ScriptLens.Proofs.Print.Scanned
import ScriptLens.Proofs.Print.Statements
import ScriptLens.Proofs.Print.Trees
import ScriptLens.Proofs.Print.Words
import ScriptLens.Proofs.Recovery.Abreast
import ScriptLens.Proofs.Recovery.Behind
import ScriptLens.Proofs.Recovery.Braces
import ScriptLens.Proofs.Recovery.Lines
import ScriptLens.Proofs.Recovery.Local
import ScriptLens.Proofs.Recovery.Twins
import ScriptLens.Proofs.Returns.Findings
import ScriptLens.Proofs.Returns.Scan
import ScriptLens.Proofs.Returns.Text
import ScriptLens.Proofs.Scan.Comments
import ScriptLens.Proofs.Scan.Cutting
import ScriptLens.Proofs.Scan.Hotkeys
import ScriptLens.Proofs.Scan.Joining
import ScriptLens.Proofs.Scan.Lines
import ScriptLens.Proofs.Scan.Local
import ScriptLens.Proofs.Scan.Origins
import ScriptLens.Proofs.Scan.Pairs
import ScriptLens.Proofs.Scan.Partition
import ScriptLens.Proofs.Scan.Places
import ScriptLens.Proofs.Scan.Prefix
import ScriptLens.Proofs.Scan.Quotes
import ScriptLens.Proofs.Scan.Shape
import ScriptLens.Proofs.Scan.Tails
import ScriptLens.Proofs.Scan.Tiling
import ScriptLens.Proofs.Scan.Units
import ScriptLens.Proofs.Shift.Lint
import ScriptLens.Proofs.Shift.Parsers
import ScriptLens.Proofs.Shift.Places
import ScriptLens.Proofs.Shift.Scan
import ScriptLens.Proofs.Shift.Trees
import ScriptLens.Proofs.Spans.Coverage
import ScriptLens.Proofs.Spans.Expressions
import ScriptLens.Proofs.Spans.Layout
import ScriptLens.Proofs.Spans.Nesting
import ScriptLens.Proofs.Spans.Pieces
import ScriptLens.Proofs.Spans.Script
import ScriptLens.Proofs.Spans.Statements
import ScriptLens.Proofs.Spans.Tree
import ScriptLens.Proofs.Standards.Targets
import ScriptLens.Proofs.Syntax.Addresses
import ScriptLens.Proofs.Syntax.Constructs
import ScriptLens.Proofs.Text.Cut
import ScriptLens.Proofs.Text.Lookups
import ScriptLens.Proofs.Text.Matching
import ScriptLens.Proofs.Text.Places
import ScriptLens.Proofs.Uncommented.Findings
import ScriptLens.Proofs.Uncommented.Lines
import ScriptLens.Proofs.Uncommented.Scan
import ScriptLens.Report
import ScriptLens.Settings
import ScriptLens.Sorting
import ScriptLens.Standards
import ScriptLens.Syntax.Basic
import ScriptLens.Syntax.Encode
import ScriptLens.Syntax.Outline
import ScriptLens.Syntax.Walk
import ScriptLens.Text.Basic
import ScriptLens.Text.Lower
import ScriptLens.Text.Pattern
import ScriptLens.Text.Printable
import ScriptLens.Text.Ranges
import ScriptLens.Text.Space
import ScriptLens.Text.Word
import ScriptLens.Token.Basic
import ScriptLens.Token.Declaration
import ScriptLens.Token.Lexeme
import ScriptLens.Token.Scan
import ScriptLens.Toml.Basic
import ScriptLens.Toml.DateTime
import ScriptLens.Toml.Parse
import ScriptLens.Word
