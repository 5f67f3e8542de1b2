import ProseMath.Token.Shape
import ProseMath.Main
import ProseMath.Proofs.Token.Spelling
import ProseMath.Proofs.Token.Argument
import ProseMath.Proofs.Expr.Grammar
import ProseMath.Proofs.Expr.Mark
import ProseMath.Proofs.Token.Rescan
import ProseMath.Proofs.Expr.Reread
import ProseMath.Proofs.Expr.RoundTrip
import ProseMath.Proofs.Document.Line
import ProseMath.Proofs.Document.Segmentation
import ProseMath.Proofs.Expr.CallFault
import ProseMath.Proofs.Token.Coverage
import ProseMath.Proofs.Token.Seam
import ProseMath.Proofs.Expr.Recast
import ProseMath.Proofs.Document.Recast
import ProseMath.Proofs.Document.Block
import ProseMath.Proofs.Latex.Writing
import ProseMath.Proofs.Latex.Body
import ProseMath.Proofs.Latex.Missing
import ProseMath.Proofs.Document.Position
import ProseMath.Proofs.Document.Composition
import ProseMath.Proofs.Latex.Paragraph
import ProseMath.Proofs.Latex.Typeset
import ProseMath.Proofs.Latex.Row
import ProseMath.Proofs.Latex.BlankLine
import ProseMath.Proofs.Document.Padding
import ProseMath.Proofs.Command.Script
import ProseMath.Proofs.Expr.SplitPoint
import ProseMath.Proofs.Command.Convert
import ProseMath.Proofs.Command.Session
import ProseMath.Proofs.Expr.NormalForm
import ProseMath.Proofs.Token.Lexeme
import ProseMath.Proofs.Document.Reached
import ProseMath.Proofs.Document.EquationLine
import ProseMath.Proofs.Expr.CallComposition
import ProseMath.Proofs.Latex.WholeWord
import ProseMath.Proofs.Latex.Substitution
import ProseMath.Proofs.Document.FixedPoint
import ProseMath.Proofs.Latex.MathSpan
import ProseMath.Proofs.Latex.BraceEscape
import ProseMath.Proofs.Latex.ListRun
import ProseMath.Proofs.Document.SourceLine
import ProseMath.Proofs.Latex.BraceBalance
import ProseMath.Proofs.Text.Separator
import ProseMath.Proofs.Latex.PackageList
import ProseMath.Proofs.Settings.Search
import ProseMath.Proofs.FileTree.Clean
import ProseMath.Proofs.Command.Overwrite
import ProseMath.Proofs.Document.TakeBack
import ProseMath.Proofs.Latex.WrittenLine
import ProseMath.Proofs.Latex.MathLines
import ProseMath.Proofs.Latex.ItalicGroup
