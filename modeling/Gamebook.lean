import Gamebook.Command
import Gamebook.Command.Arguments
import Gamebook.Command.Disk
import Gamebook.Command.Files
import Gamebook.Command.Help
import Gamebook.Command.Run
import Gamebook.Compile
import Gamebook.Decimal.Binary64
import Gamebook.Decimal.Numeral
import Gamebook.Decimal.Shortest
import Gamebook.Diagnostic
import Gamebook.Diagnostic.Json
import Gamebook.Diagnostic.Report
import Gamebook.Diagnostic.Suggest
import Gamebook.Diagnostic.Validate
import Gamebook.Expr
import Gamebook.Expr.Fold
import Gamebook.Expr.Read
import Gamebook.Expr.Render
import Gamebook.Json
import Gamebook.Lexed
import Gamebook.Lexeme
import Gamebook.Lexeme.Scan
import Gamebook.Lexeme.Word
import Gamebook.Line
import Gamebook.Literal
import Gamebook.Log
import Gamebook.Lua.Expr
import Gamebook.Lua.Module
import Gamebook.Lua.Quoted
import Gamebook.Main
import Gamebook.Metadata
import Gamebook.NameSet
import Gamebook.Operator
import Gamebook.Position
import Gamebook.Proofs.Body
import Gamebook.Proofs.Checking
import Gamebook.Proofs.Composition
import Gamebook.Proofs.Decimal
import Gamebook.Proofs.Layout
import Gamebook.Proofs.Reading.Assembly
import Gamebook.Proofs.Reading.Statement
import Gamebook.Proofs.Reading.Story
import Gamebook.Proofs.Relocation
import Gamebook.Proofs.Relocation.Story
import Gamebook.Proofs.RoundTrip
import Gamebook.Proofs.Run
import Gamebook.Proofs.Scan
import Gamebook.Proofs.Scan.Break
import Gamebook.Proofs.Scan.Order
import Gamebook.Proofs.Scan.Shape
import Gamebook.Proofs.Simplify
import Gamebook.Proofs.Spelling.Assembly
import Gamebook.Proofs.Spelling.Expr
import Gamebook.Proofs.Spelling.Line
import Gamebook.Proofs.Spelling.Outline
import Gamebook.Proofs.Spelling.Read
import Gamebook.Proofs.Spelling.Source
import Gamebook.Proofs.Spelling.Statement
import Gamebook.Proofs.Spelling.Story
import Gamebook.Proofs.Stability
import Gamebook.Proofs.Text
import Gamebook.Proofs.Words
import Gamebook.Story
import Gamebook.Story.Assembly
import Gamebook.Story.Build
import Gamebook.Story.Incident
import Gamebook.Story.Outline
import Gamebook.Story.Read
import Gamebook.Story.Render
import Gamebook.Story.Simplify
import Gamebook.Story.Statement
import Gamebook.SyntaxError
import Gamebook.Text.Blank
import Gamebook.Text.CaseTable
import Gamebook.Text.EditDistance
import Gamebook.Text.LineBreak
import Gamebook.Text.Lowercase
import Gamebook.Token
import Gamebook.Proofs.Generation
import Gamebook.Proofs.Scan.Cover
import Gamebook.Proofs.Scan.Seam
import Gamebook.Proofs.Nesting
import Gamebook.Proofs.Scan.Display
import Gamebook.Proofs.Formatting
import Gamebook.Proofs.Grammar
import Gamebook.Proofs.Recovery
import Gamebook.Proofs.Reports
import Gamebook.Proofs.Folding
import Gamebook.Proofs.Signs
import Gamebook.Proofs.Simplified
import Gamebook.Proofs.Places
import Gamebook.Proofs.Lua.Strings
import Gamebook.Proofs.Lua.Structure
import Gamebook.Proofs.EditDistance
import Gamebook.Proofs.Effects
import Gamebook.Proofs.FixedPoint
import Gamebook.Proofs.Validation
import Gamebook.Proofs.Reachability
import Gamebook.Proofs.Lua.Words
import Gamebook.Proofs.Lua.Grammar
import Gamebook.Proofs.Lua.Expr
import Gamebook.Proofs.Unassigned
import Gamebook.Proofs.Mistakes
import Gamebook.Proofs.Depth
import Gamebook.Proofs.Counters
import Gamebook.Proofs.Spelling.Placed
import Gamebook.Proofs.Spelling.Skipped
import Gamebook.Proofs.Pruning
import Gamebook.Proofs.Overdeep
import Gamebook.Proofs.Literals
import Gamebook.Proofs.Parentheses
import Gamebook.Proofs.Rounding
import Gamebook.Proofs.Numerals
import Gamebook.Proofs.Scan.Faults
import Gamebook.Proofs.Reading.Sequence
import Gamebook.Proofs.LineEndings
import Gamebook.Proofs.Suggestions
import Gamebook.Proofs.Edits
import Gamebook.Proofs.Loop
import Gamebook.Proofs.Loop.Cursor
import Gamebook.Proofs.Loop.Scan
import Gamebook.Proofs.Loop.Statement
import Gamebook.Proofs.Loop.Trail
import Gamebook.Proofs.Loop.Block
import Gamebook.Proofs.Loop.Story
import Gamebook.Proofs.Loop.Counters
