import Calculator.Abort
import Calculator.Batch
import Calculator.CommandLine.Options
import Calculator.CommandLine.Run
import Calculator.CommandLine.Word
import Calculator.Diagnostic
import Calculator.Emit
import Calculator.Evaluation
import Calculator.Event
import Calculator.Expr
import Calculator.Expr.Parse
import Calculator.Fault
import Calculator.FileTree
import Calculator.LogicalLine
import Calculator.Main
import Calculator.Number.Binary64
import Calculator.Number.Decimal
import Calculator.Number.Display
import Calculator.Number.Fraction
import Calculator.Number.Literal
import Calculator.Number.Shortest
import Calculator.Place
import Calculator.Position
import Calculator.Program
import Calculator.Program.Compile
import Calculator.Program.Compiler
import Calculator.Program.Execute
import Calculator.SavePath
import Calculator.Session
import Calculator.Session.Command
import Calculator.Session.Effect
import Calculator.Text.Blank
import Calculator.Text.Digit
import Calculator.Text.Line
import Calculator.Text.Pad
import Calculator.Text.Printable
import Calculator.Text.Quoted
import Calculator.Text.Range
import Calculator.Token
import Calculator.Token.Numeral
import Calculator.Token.Scan
import Calculator.Token.Stream
import Calculator.Proofs.Program.Meaning
import Calculator.Proofs.Expr.Grammar
import Calculator.Proofs.Expr.Calls
import Calculator.Proofs.Expr.Reading
import Calculator.Proofs.Expr.Covering
import Calculator.Proofs.Expr.NegatedGroups
import Calculator.Proofs.Expr.Viability
import Calculator.Proofs.Position.Offset
import Calculator.Proofs.Token.Lexeme
import Calculator.Proofs.Expr.Origin
import Calculator.Proofs.Evaluation.Calls
import Calculator.Proofs.Evaluation.Culprit
import Calculator.Proofs.Position.Relocation
import Calculator.Proofs.Token.Boundary
import Calculator.Proofs.LogicalLine.Pieces
import Calculator.Proofs.Text.Line
import Calculator.Proofs.Session.Script
import Calculator.Proofs.Expr.EarliestFault
import Calculator.Proofs.Number.Binary64
import Calculator.Proofs.Position.Order
import Calculator.Proofs.Token.LongestNumeral
import Calculator.Proofs.Token.Segments
import Calculator.Proofs.Diagnostic.CulpritLine
import Calculator.Proofs.FileTree.Written
import Calculator.Proofs.Session.Statements
import Calculator.Proofs.Session.Replay
import Calculator.Proofs.Program.Balance
import Calculator.Proofs.Program.Decoding
import Calculator.Proofs.Position.Independence
import Calculator.Proofs.Event.Printed
import Calculator.Proofs.Session.Turns
import Calculator.Proofs.Batch.Report
import Calculator.Proofs.Emit.Stages
import Calculator.Proofs.Expr.Preorder
import Calculator.Proofs.Program.Walk
import Calculator.Proofs.Expr.Rendering
import Calculator.Proofs.Expr.OmittedStar
import Calculator.Proofs.Expr.Locality
import Calculator.Proofs.Expr.Stream
import Calculator.Proofs.Expr.Traversal
import Calculator.Proofs.Number.Fraction
import Calculator.Proofs.Number.Overflow
import Calculator.Proofs.Token.Gap
import Calculator.Proofs.Token.NumeralValue
import Calculator.Proofs.Token.FirstFault
import Calculator.Proofs.Program.FirstFailure
import Calculator.Proofs.LogicalLine.Groups
import Calculator.Proofs.LogicalLine.Piecewise
import Calculator.Proofs.Text.Digits
import Calculator.Proofs.Number.ExactValue
import Calculator.Proofs.Number.Displayed
import Calculator.Proofs.SavePath.Stem
import Calculator.Proofs.Number.Comparison
import Calculator.Proofs.Number.DisplayOrder
import Calculator.Proofs.Number.Precision
import Calculator.Proofs.Expr.Outline
