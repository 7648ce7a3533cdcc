import Calculator.Expr.Postorder
import Calculator.Main
import Calculator.Proofs.Answer.Bases
import Calculator.Proofs.Answer.Closing
import Calculator.Proofs.Answer.Form
import Calculator.Proofs.Answer.Numerals
import Calculator.Proofs.Expr.Exact
import Calculator.Proofs.Expr.LastAnswer
import Calculator.Proofs.Expr.Limits
import Calculator.Proofs.Expr.Text
import Calculator.Proofs.Formula.Points
import Calculator.Proofs.Expr.Lockstep
import Calculator.Proofs.Expr.Recorder
import Calculator.Proofs.Expr.Counters
import Calculator.Proofs.Session.Independence
import Calculator.Proofs.Text.LetterCase
import Calculator.Proofs.Formula.LetterCase
import Calculator.Proofs.Token.LetterCase
import Calculator.Proofs.Expr.LetterCase
import Calculator.Proofs.Answer.LetterCase
import Calculator.Proofs.Binary64.Nearest
import Calculator.Proofs.Binary64.CorrectRounding
import Calculator.Proofs.Binary64.Operations
import Calculator.Proofs.Binary64.Values
import Calculator.Proofs.Elementary.Power
import Calculator.Proofs.Value
import Calculator.Proofs.Expr.Reals
import Calculator.Proofs.Binary64.Quotients
import Calculator.Proofs.FloorDivision
import Calculator.Proofs.Expr.FloorDivision
import Calculator.Proofs.Formula.Matching
import Calculator.Proofs.Token.Blanks
import Calculator.Proofs.Expr.Positions
import Calculator.Proofs.Formula.Literals
import Calculator.Proofs.Answer.LongNumerals
import Calculator.Proofs.Formula.Fractions
import Calculator.Proofs.Expr.FirstEnd
import Calculator.Proofs.Function
import Calculator.Proofs.Expr.StackMachine
import Calculator.Proofs.Expr.Words
import Calculator.Proofs.Token.Places
import Calculator.Proofs.Formula.Separators
import Calculator.Proofs.Elementary.Domains
import Calculator.Proofs.Operator
import Calculator.Proofs.Expr.AbsoluteValue
import Calculator.Proofs.Elementary.Parity
import Calculator.Proofs.Elementary.OddRoots
import Calculator.Proofs.Value.Conversion
import Calculator.Proofs.Elementary.Turns
import Calculator.Proofs.Binary64.Scaling
import Calculator.Proofs.Elementary.LogarithmSteps
import Calculator.Proofs.Binary64.NaturalNumbers
import Calculator.Proofs.Sample.NotFinite
import Calculator.Proofs.Sample.EqualSamples
import Calculator.Proofs.Value.ShownAgain
