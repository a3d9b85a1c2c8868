import FloatLang.Expr.Equality
import FloatLang.Lexer.Call
import FloatLang.Main
import FloatLang.Proofs.Agreement
import FloatLang.Proofs.Binary64.Positional
import FloatLang.Proofs.Binary64.Text
import FloatLang.Proofs.Command.Arrival
import FloatLang.Proofs.Command.Pasting
import FloatLang.Proofs.Command.ReadBack
import FloatLang.Proofs.CutShort
import FloatLang.Proofs.Equality
import FloatLang.Proofs.Hashing
import FloatLang.Proofs.Inspection
import FloatLang.Proofs.Lexeme.Tiling
import FloatLang.Proofs.Lexer.Ending
import FloatLang.Proofs.Lexer.Interruptions
import FloatLang.Proofs.Lexer.Log
import FloatLang.Proofs.Lexer.ReadAhead
import FloatLang.Proofs.LineByLine
import FloatLang.Proofs.LineEndings
import FloatLang.Proofs.Numeral
import FloatLang.Proofs.Rendering
import FloatLang.Proofs.Stream.Conservation
import FloatLang.Proofs.Token.Words
