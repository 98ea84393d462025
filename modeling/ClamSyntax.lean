import ClamSyntax.Main
import ClamSyntax.Bytecode.Chunk
import ClamSyntax.Bytecode.Locals
import ClamSyntax.Token.Cursor
import ClamSyntax.Proofs.Parser.Reading
import ClamSyntax.Proofs.Parser.Completeness
import ClamSyntax.Proofs.Token.Tiling
import ClamSyntax.Proofs.Parser.Account
import ClamSyntax.Proofs.Parser.Soundness
import ClamSyntax.Proofs.Phrase.Relocation
import ClamSyntax.Proofs.Phrase.Expression
import ClamSyntax.Proofs.Phrase.Transcript
import ClamSyntax.Proofs.Arena.Storage
import ClamSyntax.Proofs.Arena.Contents
import ClamSyntax.Proofs.Arena.Cells
import ClamSyntax.Proofs.Arena.PostOrder
import ClamSyntax.Proofs.Session.Parse
import ClamSyntax.Proofs.Session.Rejection
import ClamSyntax.Proofs.Session.Precedence
import ClamSyntax.Proofs.Token.Boundary
import ClamSyntax.Proofs.Phrase.Extent
import ClamSyntax.Proofs.Phrase.Frame
import ClamSyntax.Proofs.Arena.Relocation
import ClamSyntax.Proofs.Arena.Frame
import ClamSyntax.Proofs.Arena.Widening
import ClamSyntax.Proofs.Arena.Layers
import ClamSyntax.Proofs.Parser.Relocation
import ClamSyntax.Proofs.Session.Calls
import ClamSyntax.Proofs.Session.Layout
import ClamSyntax.Proofs.Session.Excerpt
import ClamSyntax.Proofs.Session.Parentheses
import ClamSyntax.Proofs.Token.LongestMatch
import ClamSyntax.Proofs.Bytecode.Pool
import ClamSyntax.Proofs.Token.Iteration
import ClamSyntax.Proofs.Arena.Parts
import ClamSyntax.Proofs.Session.Nesting
import ClamSyntax.Proofs.Bytecode.Scope
import ClamSyntax.Proofs.Token.Place
import ClamSyntax.Proofs.Command.Dialogue
import ClamSyntax.Proofs.Checked.Consultation
import ClamSyntax.Proofs.Arena.Edits
import ClamSyntax.Proofs.Parser.Pieces
import ClamSyntax.Proofs.Session.Consumption
import ClamSyntax.Proofs.Session.Survival
import ClamSyntax.Proofs.Session.Powers
import ClamSyntax.Proofs.Parser.Expectation
import ClamSyntax.Proofs.Session.Expectation
import ClamSyntax.Proofs.Token.Newline
import ClamSyntax.Proofs.Session.Message
import ClamSyntax.Proofs.Session.StringLiteral
import ClamSyntax.Proofs.Diagnostic.Lines
import ClamSyntax.Proofs.Diagnostic.Layout
import ClamSyntax.Proofs.Diagnostic.Carets
import ClamSyntax.Proofs.Session.Mention
import ClamSyntax.Proofs.Text.Decoding
import ClamSyntax.Proofs.Token.Listing
import ClamSyntax.Proofs.Expr.Readability
import ClamSyntax.Proofs.Session.Printing
import ClamSyntax.Proofs.Arena.History
import ClamSyntax.Proofs.Parser.Metering
import ClamSyntax.Proofs.Parser.Progress
import ClamSyntax.Proofs.Session.Progress
import ClamSyntax.Proofs.Json.Readability
import ClamSyntax.Proofs.Arena.Dump
import ClamSyntax.Proofs.Parser.Ending
import ClamSyntax.Proofs.Session.Ending
import ClamSyntax.Proofs.Arena.Size
import ClamSyntax.Proofs.Session.Size
import ClamSyntax.Proofs.Literal.Integer
import ClamSyntax.Proofs.Arena.Correspondence
import ClamSyntax.Proofs.Token.Character
import ClamSyntax.Proofs.Session.IntegerLiteral
