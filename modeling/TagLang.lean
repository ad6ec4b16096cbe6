import TagLang.Diagnostic
import TagLang.Literal.Value
import TagLang.Parser
import TagLang.Proofs.Parse.Contract
import TagLang.Proofs.TokenStream.Upcoming
import TagLang.Proofs.Expr.Written
import TagLang.Proofs.Expr.Soundness
import TagLang.Proofs.Expr.Grouped
import TagLang.Proofs.Lexeme.Fixed
import TagLang.Proofs.Lexer.Significant
import TagLang.Proofs.Parser.Reached
import TagLang.Proofs.Parser.Options
import TagLang.Proofs.Parser.Faults
import TagLang.Proofs.Unit.Relaid
import TagLang.Proofs.Element.Soundness
import TagLang.Proofs.Unit.Soundness
import TagLang.Proofs.Lexeme.Closed
import TagLang.Proofs.Erased
import TagLang.Proofs.Piece.Layout
import TagLang.Proofs.Piece.Loops
import TagLang.Proofs.Expr.Completeness
import TagLang.Proofs.Element.Boundary
import TagLang.Proofs.Element.Heads
import TagLang.Proofs.Element.Completeness
import TagLang.Proofs.Unit.Completeness
import TagLang.Proofs.Lexer.Positions
import TagLang.Proofs.Lexer.Relexed
import TagLang.Proofs.TokenStream.Accounting
import TagLang.Proofs.Expr.Orderly
import TagLang.Proofs.Expr.Viable
import TagLang.Proofs.Element.Viable
import TagLang.Proofs.Parse.Deeper
import TagLang.Proofs.Unit.Deeper
import TagLang.Proofs.Unit.Viable
import TagLang.Proofs.Lexeme.Truncated
import TagLang.Proofs.Lexer.Truncated
import TagLang.Proofs.Parser.Viable
import TagLang.Proofs.Parser.Unread
import TagLang.Proofs.Parse.Advances
import TagLang.Proofs.Parse.Loop
import TagLang.Proofs.Parse.Same
import TagLang.Proofs.Registry.Extension
import TagLang.Proofs.Expr.Advances
import TagLang.Proofs.Expr.Same
import TagLang.Proofs.Element.Advances
import TagLang.Proofs.Element.Same
import TagLang.Proofs.Unit.Orderly
import TagLang.Proofs.Unit.Advances
import TagLang.Proofs.Unit.Same
import TagLang.Proofs.Unit.Single
import TagLang.Proofs.Parser.Progress
import TagLang.Proofs.Parser.Extension
import TagLang.Proofs.Lexer.Texts
import TagLang.Proofs.Lexer.Versions
import TagLang.Proofs.Lexer.Marks
import TagLang.Proofs.Lexer.Numbers
import TagLang.Proofs.Lexer.DateTimes
import TagLang.Proofs.Lexer.Words
import TagLang.Proofs.Lexer.Delimiters
import TagLang.Proofs.Parser.Dispatch
import TagLang.Proofs.Parser.Signed
import TagLang.Proofs.Cursor.Spans
import TagLang.Proofs.Diagnostic
import TagLang.Proofs.Parser.Sequence
