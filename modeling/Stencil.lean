import Stencil.CommandLine.Arguments
import Stencil.CommandLine.Basic
import Stencil.CommandLine.Directory
import Stencil.CommandLine.Job
import Stencil.CommandLine.Switch
import Stencil.Json.Basic
import Stencil.Json.Printer
import Stencil.Lexer.Basic
import Stencil.Lexer.Error
import Stencil.Lexer.Lexeme
import Stencil.Main
import Stencil.Node.Basic
import Stencil.Node.Json
import Stencil.Number.Basic
import Stencil.Number.Binary64
import Stencil.Number.Numeral
import Stencil.Number.Shortest
import Stencil.Parser.Basic
import Stencil.Parser.Error
import Stencil.Parser.Grammar
import Stencil.Parser.Session
import Stencil.Proofs.Grammar.Adjacency
import Stencil.Proofs.Grammar.Basic
import Stencil.Proofs.Grammar.Breaks
import Stencil.Proofs.Grammar.Completeness
import Stencil.Proofs.Grammar.Concatenation
import Stencil.Proofs.Grammar.Failure
import Stencil.Proofs.Grammar.Image
import Stencil.Proofs.Grammar.Locality
import Stencil.Proofs.Grammar.Lookahead
import Stencil.Proofs.Grammar.Parentheses
import Stencil.Proofs.Grammar.Parsing
import Stencil.Proofs.Grammar.Position
import Stencil.Proofs.Grammar.Precedence
import Stencil.Proofs.Grammar.Prefix
import Stencil.Proofs.Grammar.Reports
import Stencil.Proofs.Grammar.Soundness
import Stencil.Proofs.Grammar.Steps
import Stencil.Proofs.Grammar.Tokens
import Stencil.Proofs.Lexer.Cutting
import Stencil.Proofs.Lexer.Literal
import Stencil.Proofs.Lexer.Lexeme
import Stencil.Proofs.Lexer.Segment
import Stencil.Proofs.Number.Readable
import Stencil.Proofs.Parser.Congruence
import Stencil.Proofs.Parser.Depth
import Stencil.Proofs.Parser.Local
import Stencil.Proofs.Parser.Progress
import Stencil.Proofs.Parser.Rounds
import Stencil.Proofs.Parser.Run
import Stencil.Proofs.Parser.Session
import Stencil.Proofs.Sequence
import Stencil.Shell.Basic
import Stencil.Shell.Blocks
import Stencil.Source.Place
import Stencil.Source.Stream
import Stencil.Template
import Stencil.Text.Blank
import Stencil.Text.Digit
import Stencil.Text.Hexadecimal
import Stencil.Text.Letter
import Stencil.Text.Newline
import Stencil.Text.Printable
import Stencil.Text.Quoted
import Stencil.Text.Ranges
import Stencil.Text.Utf8
import Stencil.Text.Word
import Stencil.Token.Basic
import Stencil.Token.Kind
import Stencil.Token.Vocabulary
import Stencil.Proofs.Template.Reading
import Stencil.Proofs.Lexer.Fault
import Stencil.Proofs.Number.Legible
import Stencil.Proofs.Lexer.Tags
import Stencil.Proofs.Grammar.Inside
import Stencil.Proofs.Grammar.InStep
import Stencil.Proofs.Template.Failure
import Stencil.Proofs.Grammar.Content
import Stencil.Proofs.Grammar.Nesting
import Stencil.Proofs.Lexer.Scan
import Stencil.Proofs.Lexer.Boundary
import Stencil.Proofs.Lexer.Writing
import Stencil.Proofs.Lexer.Call
import Stencil.Proofs.Lexer.Loop
import Stencil.Proofs.Lexer.Shape
import Stencil.Proofs.Source.Place
import Stencil.Proofs.Lexer.Reader
import Stencil.Proofs.Lexer.Placing
import Stencil.Proofs.Lexer.Longest
import Stencil.Proofs.Lexer.Respacing
import Stencil.Proofs.Parser.Likeness
import Stencil.Proofs.Template.Respacing
import Stencil.Proofs.Shell.Entries
import Stencil.Proofs.Grammar.Blame
import Stencil.Proofs.Node.Leaves
import Stencil.Proofs.Grammar.Kinds
import Stencil.Proofs.Json.Same
import Stencil.Proofs.Number.Same
import Stencil.Proofs.Node.Same
import Stencil.Proofs.Lexer.Admissible
import Stencil.Proofs.Grammar.Slice
import Stencil.Proofs.CommandLine.Arguments
import Stencil.Proofs.CommandLine.Delivery
import Stencil.Proofs.Grammar.Blocks
import Stencil.Proofs.Shell.Blocks
import Stencil.Proofs.Lexer.Literal
import Stencil.Proofs.Grammar.Attached
import Stencil.Proofs.Grammar.ElseIf
import Stencil.Proofs.Parser.Reach
import Stencil.Proofs.Grammar.Steady
import Stencil.Proofs.Grammar.ListSpot
import Stencil.Proofs.Grammar.Listing
import Stencil.Proofs.Grammar.TrailingComma
