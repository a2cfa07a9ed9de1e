import DualSql.Command.Arguments
import DualSql.Command.Run
import DualSql.Dialect
import DualSql.Dialect.Quoting
import DualSql.Error
import DualSql.Forest.Basic
import DualSql.Forest.Spelling
import DualSql.Forest.Terminal
import DualSql.Forest.Traverse
import DualSql.Grammar.Items
import DualSql.Grammar.Parsing
import DualSql.Grammar.Registry
import DualSql.Grammar.Rendering
import DualSql.Grammar.Rule
import DualSql.Grammar.Schema
import DualSql.Grammar.Standard
import DualSql.Grammar.Structured
import DualSql.Json.Printer
import DualSql.Json.Reader
import DualSql.Json.Value
import DualSql.Layout
import DualSql.Lexer.Error
import DualSql.Lexer.Feed
import DualSql.Lexer.Lexeme
import DualSql.Lexer.Options
import DualSql.Lexer.Phrase
import DualSql.Lexer.Recogniser
import DualSql.Lexer.Scanner
import DualSql.Main
import DualSql.Position
import DualSql.Stream.Cell
import DualSql.Stream.Cursor
import DualSql.Stream.Descent
import DualSql.Stream.Source
import DualSql.Stream.TokenTree
import DualSql.Text.Alphabetic
import DualSql.Text.Blank
import DualSql.Text.Casing
import DualSql.Text.Inspect
import DualSql.Text.Numeral
import DualSql.Text.Numeric
import DualSql.Text.Printable
import DualSql.Text.Ranges
import DualSql.Text.Utf8
import DualSql.Token
import DualSql.Tree
import DualSql.Vocabulary
import DualSql.Proofs.Lexer.Stability
import DualSql.Proofs.Lexer.Chunks
import DualSql.Proofs.Stream.Line
import DualSql.Proofs.Stream.Moves
import DualSql.Proofs.Fallible
import DualSql.Proofs.Stream.Locks
import DualSql.Proofs.Stream.Reading
import DualSql.Proofs.Grammar.Content
import DualSql.Proofs.Grammar.Outline
import DualSql.Proofs.Grammar.Cache
import DualSql.Proofs.Grammar.Refinement
import DualSql.Proofs.Stream.Reached
import DualSql.Proofs.Grammar.Backtracking
import DualSql.Proofs.Grammar.Faithful
import DualSql.Proofs.Grammar.Writing
import DualSql.Proofs.Grammar.Pieces
import DualSql.Proofs.Grammar.Operators
import DualSql.Proofs.Grammar.Inversion
import DualSql.Proofs.Grammar.Standard
import DualSql.Proofs.Forest.Planting
import DualSql.Proofs.Grammar.Planted
import DualSql.Proofs.Stream.PlainCursor
import DualSql.Proofs.Lexer.Tokens
import DualSql.Proofs.Grammar.Accepted
import DualSql.Proofs.Grammar.Unparsing
import DualSql.Proofs.Grammar.StructuredForm
import DualSql.Proofs.Grammar.StructuredOutline
import DualSql.Proofs.Grammar.StructuredReading
import DualSql.Proofs.Grammar.Shaped
import DualSql.Proofs.Grammar.ReadBack
import DualSql.Proofs.Stream.Given
import DualSql.Proofs.Grammar.Expression
import DualSql.Proofs.Grammar.Totality
import DualSql.Proofs.Grammar.Climbing
import DualSql.Proofs.Grammar.Bracketing
import DualSql.Proofs.Grammar.Regrouping
import DualSql.Proofs.Lexer.Digest
import DualSql.Proofs.Lexer.Flattening
import DualSql.Proofs.Lexer.Trivia
import DualSql.Proofs.Stream.Outlook
import DualSql.Proofs.Stream.Twin
import DualSql.Proofs.Grammar.Transparency
import DualSql.Proofs.Stream.Consumer
import DualSql.Proofs.Stream.Eager
import DualSql.Proofs.Grammar.Laziness
import DualSql.Proofs.Forest.Edits
import DualSql.Proofs.Forest.Ownership
import DualSql.Proofs.Stream.Latches
import DualSql.Proofs.Stream.Handles
import DualSql.Proofs.Grammar.Likeness
import DualSql.Proofs.Grammar.Rereading
import DualSql.Proofs.Layout
import DualSql.Proofs.Grammar.Exhaustive
import DualSql.Proofs.Grammar.Provenance
import DualSql.Proofs.Stream.Savepoints
import DualSql.Proofs.Json.Members
import DualSql.Proofs.Grammar.ShapeFields
import DualSql.Proofs.Grammar.Reader
import DualSql.Proofs.Grammar.Transcription
import DualSql.Proofs.Grammar.Renderable
import DualSql.Proofs.Grammar.Admission
import DualSql.Proofs.Grammar.Terminals
import DualSql.Proofs.Grammar.Recompiling
import DualSql.Proofs.Grammar.Preserving
import DualSql.Proofs.Forest.InPlace
import DualSql.Proofs.Grammar.Ways
import DualSql.Proofs.Text.Utf8
import DualSql.Proofs.Command.Reads
import DualSql.Proofs.Lexer.Quoting
import DualSql.Proofs.Grammar.Setting
import DualSql.Proofs.Grammar.Paths
import DualSql.Proofs.Grammar.Conforming
import DualSql.Proofs.Grammar.Conditions
import DualSql.Proofs.Grammar.Calls
import DualSql.Proofs.Grammar.Leading
import DualSql.Proofs.Grammar.Termination
import DualSql.Proofs.Lexer.Names
import DualSql.Proofs.Grammar.Precedence
import DualSql.Proofs.Lexer.Numbers
import DualSql.Proofs.Lexer.Scalars
import DualSql.Proofs.Lexer.SpelledScalars
import DualSql.Proofs.Grammar.Unbracketing
import DualSql.Proofs.Lexer.Places
import DualSql.Proofs.Lexer.Inheritance
import DualSql.Proofs.Joints
import DualSql.Proofs.Grammar.Joined
import DualSql.Proofs.Lexer.Standing
import DualSql.Proofs.Lexer.Cuts
import DualSql.Proofs.Lexer.Settling
import DualSql.Proofs.Lexer.Restaging
import DualSql.Proofs.Lexer.Origins
import DualSql.Proofs.Lexer.Segments
import DualSql.Proofs.Spacing
import DualSql.Proofs.Grammar.OnePass
import DualSql.Proofs.Grammar.Gathering
import DualSql.Proofs.Grammar.Reaching
import DualSql.Proofs.Lexer.BindMarks
import DualSql.Proofs.Grammar.Placeholders
import DualSql.Proofs.Stream.Iteration
import DualSql.Proofs.Grammar.Asserting
import DualSql.Proofs.Grammar.StrictReading
import DualSql.Proofs.Grammar.Sameness
import DualSql.Proofs.Grammar.NamedNodes
import DualSql.Proofs.Forest.Copies
import DualSql.Proofs.Grammar.StructuredGrowth
import DualSql.Proofs.Grammar.ListEnds
import DualSql.Proofs.Grammar.ListFields
